import Bano.Tracking

/-! How an io moves: from a callback to the posted ios, to the pending ios and a timer, back, and out. -/
namespace Bano

open Lib

/-- Only posted ios are new. -/
structure Extends (status status' : Ptr → Option Status) : Prop where
  old : ∀ io s, status io = some s → status' io = some s
  new : ∀ io s, status io = none → status' io = some s → ∃ node li, s = .posted node li

theorem Extends.refl (status : Ptr → Option Status) : Extends status status :=
  ⟨fun _ _ => id,fun _ _ unknown known => by simp [unknown] at known⟩

/-- No io is in the middle of being answered. -/
def Settled (status : Ptr → Option Status) : Prop := ∀ io t, status io ≠ some (.taken t)

theorem Extends.settled (grown : Extends status status') (settled : Settled status) : Settled status' := by
  intro io t taken
  cases known : status io with
  | none =>
    obtain ⟨node,li,same⟩ := grown.new io _ known taken
    simp at same
  | some s =>
    have kept := grown.old io s known
    rw [taken] at kept
    obtain rfl := Option.some.inj kept
    exact settled io t known

theorem Settled.update (settled : ∀ io, io ≠ i → ∀ t, status io ≠ some (.taken t)) (other : ∀ t, s ≠ .taken t) :
    Settled (Function.update status i (some s)) := by
  intro io t taken
  by_cases here : io = i
  · subst here
    rw [Function.update_self] at taken
    exact other t (Option.some.inj taken)
  · rw [Function.update_of_ne here] at taken
    exact settled io here t taken

theorem accepted_placed {b : Base} (placed : Placed b status) (cell : b.nodeMem.cell node = some n)
    (entries : posted.entries = n.postedIos.entries ++ [(n.postedIos.nextItem,b.ioMem.next)])
    (wait : r.waits = true → r.retryMs = retryMs) :
    Placed (accepted b node n posted r)
      (Function.update status b.ioMem.next (some (.posted node n.postedIos.nextItem))) := by
  have unknown : ∀ s, status b.ioMem.next ≠ some s := fun s status' =>
    Nat.lt_irrefl _ (placed.fresh _ s status')
  have noTimer : timerOf status b.ioMem.next = none := by
    cases status' : status b.ioMem.next with
    | none => simp [timerOf,status']
    | some s => exact (unknown s status').elim
  have cells : ∀ p, (accepted b node n posted r).nodeMem.cell p =
      if p = node then some { n with postedIos := posted } else b.nodeMem.cell p := by
    intro p
    by_cases here : p = node
    · subst here
      simp [accepted,cell]
    · simp [accepted,here]
  refine placed.move b.ioMem.next _ ?_ ?_ ?_ (Nat.le_succ _) (Nat.lt_succ_self _) ?_ ?_ ?_
  · intro p n' cell'
    rw [cells] at cell'
    split at cell'
    · next here =>
      subst here
      obtain rfl := Option.some.inj cell'
      refine ⟨n,cell,.intro (.add (fun li member => unknown _ ((placed.posted p n cell li _).mp member)) entries)
        (.same fun li member => ?_) (fun li => by simp [eq_comm]) (by simp)⟩
      obtain ⟨t,status'⟩ := (placed.pending p n cell li _).mp member
      exact unknown _ status'
    · next other =>
      refine ⟨n',cell',placed.elsewhere cell' (fun li => unknown _) (fun li t => unknown _) ?_ (by simp)⟩
      rintro li ⟨⟩
      exact other rfl
  · intro p m live
    rw [cells]
    split
    · exact ⟨_,rfl⟩
    · exact ⟨m,live⟩
  · intro io s other _
    exact Heap.alloc_cell_other other _
  · refine ⟨⟨{ n with postedIos := posted },by simp [cells]⟩,{ r with node := some node },?_,rfl,wait⟩
    simp [accepted]
  · rw [noTimer]
    exact .refl placed.tailed none (by simp)
  · intro io
    simp only [accepted,List.mem_append,List.mem_singleton,Event.posted.injEq]
    constructor
    · rintro ⟨p,r',old | ⟨_,rfl,_⟩⟩
      · exact .inr ⟨p,r',old⟩
      · exact .inl rfl
    · rintro (rfl | ⟨p,r',old⟩)
      · exact ⟨node,_,.inr ⟨rfl,rfl,rfl⟩⟩
      · exact ⟨p,r',.inl old⟩

theorem extends_update {status : Ptr → Option Status} (unknown : status i = none) (node li : Ptr) :
    Extends status (Function.update status i (some (.posted node li))) := by
  refine ⟨fun io s known => ?_,fun io s none known => ?_⟩
  · rw [Function.update_of_ne _ _ _,known]
    rintro rfl
    simp [unknown] at known
  · by_cases here : io = i
    · subst here
      rw [Function.update_self] at known
      exact ⟨node,li,(Option.some.inj known).symm⟩
    · simp [here,none] at known

theorem Extends.trans (one : Extends status status') (other : Extends status' status'') :
    Extends status status'' := by
  refine ⟨fun io s known => other.old io s (one.old io s known),fun io s unknown known => ?_⟩
  cases mid : status' io with
  | none => exact other.new io s mid known
  | some s' =>
    obtain rfl := Option.some.inj ((other.old io s' mid).symm.trans known)
    exact one.new io s' unknown mid

/-- Callbacks put new ios among the posted ones, and move no other. -/
theorem runPosts_placed {b b' : Base} (placed : Placed b status) (result : runPosts posts b = some b') :
    ∃ status', Placed b' status' ∧ Extends status status' := by
  refine runPosts_induct (P := fun b => ∃ status', Placed b status' ∧ Extends status status') ?_ result
    ⟨status,placed,.refl status⟩
  rintro b p b' ⟨status',placed,grown⟩ result
  rcases postNew_cases result with rfl | ⟨n,posted,cell,entries,_,rfl⟩
  · refine ⟨status',placed.frame (fun q m live => .inl ⟨m,live,rfl,rfl⟩) (fun q m live => ⟨m,live⟩) ?_ ?_
      (Nat.le_succ _) placed.tailed (fun _ => Iff.rfl) (fun _ => rfl) (fun _ => Iff.rfl),grown⟩
    · intro io r cell
      exact ⟨r,by rw [Heap.alloc_erase_cell,cell],rfl,rfl,rfl,rfl⟩
    · intro io _ gone
      rw [Heap.alloc_erase_cell,gone]
  · refine ⟨_,accepted_placed placed cell entries p.request.retryMs_waits,grown.trans (extends_update ?_ _ _)⟩
    cases known : status' b.ioMem.next with
    | none => rfl
    | some s => exact (Nat.lt_irrefl _ (placed.fresh _ s known)).elim

/-- Writing the fields of an io that the lists and timers do not depend on. -/
theorem Placed.setIo {b : Base} (placed : Placed b status) (cell : b.ioMem.cell io = some r) (own : r'.node = r.node)
    (flags : r'.flags = r.flags) (ms : r'.retryMs = r.retryMs) (timer : r'.timer = r.timer)
    (es : List Event) (quiet : ∀ e ∈ es, ∀ node i r, e ≠ .posted node i r) :
    Placed { b.setIo io r' with trace := b.trace ++ es } status := by
  refine placed.frame (fun p n live => .inl ⟨n,live,rfl,rfl⟩) (fun p n live => ⟨n,live⟩) ?_ ?_ (Nat.le_refl _)
    placed.tailed (fun _ => Iff.rfl) (fun _ => rfl) ?_
  · intro p r'' live
    by_cases here : p = io
    · subst here
      obtain rfl := Option.some.inj (cell.symm.trans live)
      exact ⟨r',by simp [Base.setIo,cell],own,flags,ms,timer⟩
    · exact ⟨r'',by simp [Base.setIo,here,live],rfl,rfl,rfl,rfl⟩
  · intro p _ gone
    have other : p ≠ io := by
      rintro rfl
      simp [cell] at gone
    simp [Base.setIo,other,gone]
  · intro i
    constructor
    · rintro ⟨node,r,member⟩
      rcases List.mem_append.mp member with old | new
      · exact ⟨node,r,old⟩
      · exact (quiet _ new node i r rfl).elim
    · rintro ⟨node,r,member⟩
      exact ⟨node,r,List.mem_append_left _ member⟩

theorem Placed.traced {b : Base} (placed : Placed b status) (es : List Event)
    (quiet : ∀ e ∈ es, ∀ node i r, e ≠ .posted node i r) : Placed { b with trace := b.trace ++ es } status := by
  refine placed.frame (fun p n live => .inl ⟨n,live,rfl,rfl⟩) (fun p n live => ⟨n,live⟩)
    (fun _ r cell => ⟨r,cell,rfl,rfl,rfl,rfl⟩) (fun _ _ gone => gone) (Nat.le_refl _)
    placed.tailed (fun _ => Iff.rfl) (fun _ => rfl) ?_
  intro i
  constructor
  · rintro ⟨node,r,member⟩
    rcases List.mem_append.mp member with old | new
    · exact ⟨node,r,old⟩
    · exact (quiet _ new node i r rfl).elim
  · rintro ⟨node,r,member⟩
    exact ⟨node,r,List.mem_append_left _ member⟩

theorem completed_placed {b : Base} (placed : Placed b status) (cell : b.ioMem.cell io = some r)
    (own : (f r).node = r.node) (flags : (f r).flags = r.flags) (ms : (f r).retryMs = r.retryMs)
    (timer : (f r).timer = r.timer) : Placed (completed b io r f) status := by
  unfold completed
  split
  · exact placed.setIo cell own flags ms timer _ (by simp)
  · exact placed

/-- The one item of a posted io. -/
theorem Placed.posted_only {b : Base} (placed : Placed b status) (cell : b.nodeMem.cell node = some n)
    (mine : status io = some (.posted node li)) : (li,io) ∈ n.postedIos.entries ∧
      (∀ p, (p,io) ∈ n.postedIos.entries → p = li) ∧ ∀ p, (p,io) ∉ n.pendingIos.entries := by
  refine ⟨(placed.posted node n cell li io).mpr mine,fun p member => ?_,fun p member => ?_⟩
  · have other := (placed.posted node n cell p io).mp member
    rw [mine] at other
    obtain ⟨⟩ := other
    rfl
  · obtain ⟨t,other⟩ := (placed.pending node n cell p io).mp member
    simp [mine] at other

theorem Placed.pending_only {b : Base} (placed : Placed b status) (cell : b.nodeMem.cell node = some n)
    (mine : status io = some (.pending node li t)) : (li,io) ∈ n.pendingIos.entries ∧
      (∀ p, (p,io) ∈ n.pendingIos.entries → p = li) ∧ ∀ p, (p,io) ∉ n.postedIos.entries := by
  refine ⟨(placed.pending node n cell li io).mpr ⟨t,mine⟩,fun p member => ?_,fun p member => ?_⟩
  · obtain ⟨t',other⟩ := (placed.pending node n cell p io).mp member
    rw [mine] at other
    obtain ⟨⟩ := other
    rfl
  · have other := (placed.posted node n cell p io).mp member
    simp [mine] at other

theorem modify_cells {h : Heap α} (cell : h.cell p = some a) (a' : α) (q : Ptr) :
    (h.modify p fun _ => a').cell q = if q = p then some a' else h.cell q := by
  rw [Heap.modify_cell]
  split
  · next here => simp [here,cell]
  · rfl

/-- A step that changes the lists of one node, and one io. -/
theorem Placed.moveAt {b b' : Base} {n m : BanoNode} (placed : Placed b status) (known : status i = some old)
    (new : Status) (cell : b.nodeMem.cell node = some n) (relisted : Relisted n m i node new)
    (nodeMem : b'.nodeMem = b.nodeMem.modify node fun _ => m)
    (before : ∀ p, p ≠ node → (∀ li, old ≠ .posted p li) ∧ ∀ li t, old ≠ .pending p li t)
    (after : ∀ p, p ≠ node → (∀ li, new ≠ .posted p li) ∧ ∀ li t, new ≠ .pending p li t)
    (ios : ∀ io, io ≠ i → b'.ioMem.cell io = b.ioMem.cell io) (next : b'.ioMem.next = b.ioMem.next)
    (held : Held b' i new) (timers : Retimed b.timers b'.timers old.timer new.timer)
    (trace : ∃ es, b'.trace = b.trace ++ es ∧ ∀ e ∈ es, ∀ node i r, e ≠ .posted node i r) :
    Placed b' (Function.update status i (some new)) := by
  have cells : ∀ p, b'.nodeMem.cell p = if p = node then some m else b.nodeMem.cell p := by
    intro p
    rw [nodeMem]
    exact modify_cells cell m p
  refine placed.move i new ?_ ?_ (fun io _ other _ => ios io other) (Nat.le_of_eq next.symm)
    (next ▸ placed.fresh i old known) held ?_ ?_
  · intro p k live
    rw [cells] at live
    split at live
    · next here =>
      subst here
      obtain rfl := Option.some.inj live
      exact ⟨n,cell,relisted⟩
    · next other =>
      refine ⟨k,live,placed.elsewhere live ?_ ?_ (after p other).1 (after p other).2⟩
      · intro li mine
        exact (before p other).1 li (Option.some.inj (known.symm.trans mine))
      · intro li t mine
        exact (before p other).2 li t (Option.some.inj (known.symm.trans mine))
  · intro p k live
    rw [cells]
    split
    · exact ⟨_,rfl⟩
    · exact ⟨k,live⟩
  · simpa [timerOf,known] using timers
  · obtain ⟨es,trace,quiet⟩ := trace
    intro io
    constructor
    · rintro ⟨p,r,member⟩
      rw [trace] at member
      rcases List.mem_append.mp member with early | late
      · exact .inr ⟨p,r,early⟩
      · exact (quiet _ late p io r rfl).elim
    · rintro (rfl | ⟨p,r,member⟩)
      · obtain ⟨p,r,member⟩ := (placed.accepted io).mp ⟨old,known⟩
        exact ⟨p,r,trace ▸ List.mem_append_left _ member⟩
      · exact ⟨p,r,trace ▸ List.mem_append_left _ member⟩

/-- A timer that is deleted. -/
theorem Retimed.del {q q' : TimerQueue} (tailed : Tailed q) (member : t ∈ timersOf q)
    (deleted : banoTimerDel q t = some q') :
    Retimed q q' (some t) none := by
  obtain ⟨q'',deleted',tailed',timers,kept⟩ := tailed.del member
  obtain rfl := Option.some.inj (deleted.symm.trans deleted')
  refine ⟨tailed',fun u => ?_,fun u listed other => kept u listed fun same => other (same ▸ rfl),by simp⟩
  rw [timers]
  simp [eq_comm]

theorem Placed.timed {b : Base} (placed : Placed b status) (known : status io = some s) (timer : s.timer = some t) :
    t ∈ timersOf b.timers := (placed.timers t).mpr ⟨io,s,known,timer⟩

/-- Its SET is written. -/
theorem released_posted {b : Base} (placed : Placed b status) (mine : status io = some (.posted node li))
    (cell : b.nodeMem.cell node = some n) (removed : n.postedIos.del li = some posted) :
    Placed ((released b io).setNode node { n with postedIos := posted })
    (Function.update status io (some .released)) := by
  obtain ⟨listed,only,absent⟩ := placed.posted_only cell mine
  refine placed.moveAt (m := { n with postedIos := posted }) mine .released cell
    (.intro (.del removed listed only) (.same absent) (by simp) (by simp)) rfl ?_ (by simp) ?_ rfl ?_ ?_
    ⟨[.released io],rfl,by simp⟩
  · intro p other
    refine ⟨fun li same => ?_,by simp⟩
    obtain ⟨⟩ := same
    exact other rfl
  · intro p other
    exact Heap.erase_cell_other other _
  · exact Heap.erase_cell_same _ _
  · exact .refl placed.tailed none (by simp)

/-- It is written, and waits for its reply. -/
theorem moved_placed {b b' : Base} (placed : Placed b status) (mine : status io = some (.posted node li))
    (cell : b.nodeMem.cell node = some n) (ioCell : b.ioMem.cell io = some r) (waits : r.waits = true)
    (mallocs : env.mallocPending = true ∧ env.mallocTimer = true ∧ env.mallocTimerItem = true)
    (moved : Moved env b node li n io r b') :
    Placed b' (Function.update status io (some (.pending node n.pendingIos.nextItem b.timers.timers.next))) := by
  obtain ⟨listed,only,absent⟩ := placed.posted_only cell mine
  obtain ⟨_,r',ioCell',own,wait⟩ := placed.held io _ mine
  obtain rfl := Option.some.inj (ioCell.symm.trans ioCell')
  obtain ⟨pending,addTail,entries,_,tail⟩ := n.pendingIos.addTail_true io
  obtain ⟨q',timers',added',stored',tailed,timersOf',data,kept⟩ := placed.tailed.add (node,some n.pendingIos.nextItem)
  obtain ⟨t,q,timers,posted,added,stored,removed,rfl⟩ := moved
  rw [mallocs.2.1,mallocs.2.2,wait waits,added'] at added
  obtain ⟨rfl,rfl⟩ : b.timers.timers.next = t ∧ q' = q := by simpa using added
  rw [mallocs.1,addTail] at stored
  simp only [tail,stored',Option.some.injEq] at stored
  subst stored
  rw [mallocs.1,addTail]
  refine placed.moveAt (m := { n with postedIos := posted, pendingIos := pending }) mine _ cell
    (.intro (.del removed listed only) (.add absent entries) (by simp) fun li => ?_) rfl ?_ ?_ ?_ rfl ?_ ?_
    ⟨[],by simp,by simp⟩
  · constructor
    · rintro rfl
      exact ⟨_,rfl⟩
    · rintro ⟨t,⟨⟩⟩
      rfl
  · intro p other
    refine ⟨fun li same => ?_,by simp⟩
    obtain ⟨⟩ := same
    exact other rfl
  · intro p other
    refine ⟨by simp,fun li t same => ?_⟩
    obtain ⟨⟩ := same
    exact other rfl
  · intro p other
    exact Heap.modify_cell_other other _ _
  · exact ⟨⟨{ n with postedIos := posted, pendingIos := pending },by simp [cell]⟩,data,
      { r with timer := some b.timers.timers.next },by simp [ioCell],own,waits,wait waits,rfl⟩
  · refine ⟨tailed,fun t => ?_,fun t listed _ => kept t listed,fun t same => .inl ?_⟩
    · simp [timersOf',Status.timer,eq_comm]
    · obtain rfl := Option.some.inj same
      exact placed.tailed.fresh

/-- It is answered: it is pending no more. -/
theorem taken_placed {b : Base} (placed : Placed b status) (mine : status io = some (.pending node li t))
    (cell : b.nodeMem.cell node = some n) (removed : n.pendingIos.del li = some pending) :
    Placed (b.setNode node { n with pendingIos := pending }) (Function.update status io (some (.taken t))) := by
  obtain ⟨listed,only,absent⟩ := placed.pending_only cell mine
  obtain ⟨_,_,r,ioCell,_,_,_,timer⟩ := placed.held io _ mine
  refine placed.moveAt (m := { n with pendingIos := pending }) mine (.taken t) cell
    (.intro (.same absent) (.del removed listed only) (by simp) (by simp)) rfl ?_ (by simp) (fun _ _ => rfl) rfl
    ⟨r,ioCell,timer⟩ (.refl placed.tailed _ fun u same => placed.timed mine same) ⟨[],by simp [Base.setNode],by simp⟩
  intro p other
  refine ⟨by simp,fun li t same => ?_⟩
  obtain ⟨⟩ := same
  exact other rfl

/-- It completed, and goes with its timer. -/
theorem released_taken {b : Base} (placed : Placed b status) (mine : status io = some (.taken t))
    (stopped : banoTimerDel b.timers t = some timers) :
    Placed (released { b with timers := timers } io) (Function.update status io (some .released)) := by
  have notPosted : ∀ p li, status io ≠ some (.posted p li) := by simp [mine]
  have notPending : ∀ p li t, status io ≠ some (.pending p li t) := by simp [mine]
  refine placed.move io .released (fun p n cell => ⟨n,cell,placed.elsewhere cell (notPosted p) (notPending p)
    (by simp) (by simp)⟩) (fun p n cell => ⟨n,cell⟩) ?_ (Nat.le_refl _) (placed.fresh io _ mine) ?_ ?_ ?_
  · exact fun i s other _ => Heap.erase_cell_other other _
  · exact Heap.erase_cell_same _ _
  · have own : timerOf status io = some t := by simp [timerOf,mine,Status.timer]
    rw [own]
    exact .del placed.tailed (placed.timed mine rfl) stopped
  · intro i
    simp only [released,List.mem_append,List.mem_singleton,reduceCtorEq,or_false]
    refine ⟨.inr,fun known => known.elim (fun same => ?_) id⟩
    subst same
    exact (placed.accepted i).mp ⟨_,mine⟩

/-- Its last reply did not come. -/
theorem released_pending {b : Base} (placed : Placed b status) (mine : status io = some (.pending node li t))
    (cell : b.nodeMem.cell node = some n) (removed : n.pendingIos.del li = some pending)
    (stopped : banoTimerDel b.timers t = some timers) :
    Placed { (released b io).setNode node { n with pendingIos := pending } with timers := timers }
      (Function.update status io (some .released)) := by
  have taken := taken_placed placed mine cell removed
  have gone := released_taken taken (Function.update_self _ _ _) stopped
  rw [Function.update_idem] at gone
  exact gone

/-- A reply did not come, and the io is posted again. -/
theorem reposted_placed {b : Base} (placed : Placed b status) (mine : status io = some (.pending node li t))
    (cell : b.nodeMem.cell node = some n)
    (entries : posted.entries = n.postedIos.entries ++ [(n.postedIos.nextItem,io)])
    (removed : n.pendingIos.del li = some pending) (stopped : banoTimerDel b.timers t = some timers) :
    Placed { b.setNode node { n with postedIos := posted, pendingIos := pending } with timers := timers }
      (Function.update status io (some (.posted node n.postedIos.nextItem))) := by
  obtain ⟨listed,only,absent⟩ := placed.pending_only cell mine
  obtain ⟨live,_,r,ioCell,own,_,wait,_⟩ := placed.held io _ mine
  refine placed.moveAt (m := { n with postedIos := posted, pendingIos := pending }) mine _ cell
    (.intro (.add absent entries) (.del removed listed only) (fun li => by simp [eq_comm]) (by simp)) rfl ?_ ?_
    (fun _ _ => rfl) rfl ?_ ?_ ⟨[],by simp [Base.setNode],by simp⟩
  · intro p other
    refine ⟨by simp,fun li t same => ?_⟩
    obtain ⟨⟩ := same
    exact other rfl
  · intro p other
    refine ⟨fun li same => ?_,by simp⟩
    obtain ⟨⟩ := same
    exact other rfl
  · exact ⟨⟨{ n with postedIos := posted, pendingIos := pending },by simp [Base.setNode,cell]⟩,r,ioCell,
      own,fun _ => wait⟩
  · exact .del placed.tailed (placed.timed mine rfl) stopped

end Bano
