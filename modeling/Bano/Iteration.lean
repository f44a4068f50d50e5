import Bano.LinkedList
import Bano.Lib.Turns

/-! bano_list_foreach over a list that its callback changes. An item is read before the callback gets it, which
may delete that item and append others; what a callback did is kept as a log of its calls. -/
namespace Bano

open Lib

variable {α σ : Type}

namespace Changing

/-- A turn of bano_list_foreach_at: the callback gets the item, the list as it is, and its own data. -/
def foreachTurn (fn : Ptr → BanoList α → σ → Option (Int × BanoList α × σ)) :
    Option Ptr × BanoList α × σ → Outcome (Turn (Option Ptr × BanoList α × σ) (Int × BanoList α × σ))
  | (none,l,p) => .done (.stop (0,l,p))
  | (some pos,l,p) => do
    let k ← .ofOption (l.items.cell pos)
    let next := k.next
    let (err,l,p) ← .ofOption (fn pos l p)
    if err ≠ 0 then .done (.stop (-1,l,p)) else .done (.next (next,l,p))

def banoListForeachAt (fn : Ptr → BanoList α → σ → Option (Int × BanoList α × σ)) (fuel : Nat)
    (it : Option Ptr) (l : BanoList α) (p : σ) : Outcome (Int × BanoList α × σ) :=
  loop (foreachTurn fn) fuel (it,l,p)

def banoListForeach (fn : Ptr → BanoList α → σ → Option (Int × BanoList α × σ)) (fuel : Nat)
    (l : BanoList α) (p : σ) : Outcome (Int × BanoList α × σ) := banoListForeachAt fn fuel l.head l p

end Changing

/-- A callback that leaves the list alone. -/
def readOnly (fn : Ptr → α → σ → Option (Int × σ)) (pos : Ptr) (l : BanoList α) (p : σ) :
    Option (Int × BanoList α × σ) := do
  let k ← l.items.cell pos
  let (err,p) ← fn pos k.data p
  some (err,l,p)

/-- For such callbacks the traversal is the one of a list that does not change. -/
theorem banoListForeachAt_readOnly {l : BanoList α} {fn : Ptr → α → σ → Option (Int × σ)}
    (result : banoListForeachAt l.items fn fuel it p = some (err,q)) :
    Changing.banoListForeachAt (readOnly fn) fuel it l p = .done (err,l,q) := by
  unfold Changing.banoListForeachAt
  induction fuel generalizing it p with
  | zero => simp [banoListForeachAt] at result
  | succ fuel ih =>
    cases it with
    | none =>
      obtain ⟨rfl,rfl⟩ := Prod.mk.inj (Option.some.inj result)
      rfl
    | some pos =>
      simp only [banoListForeachAt,Option.bind_eq_bind,Option.bind_eq_some_iff] at result
      obtain ⟨k,cell,⟨e,q'⟩,called,result⟩ := result
      by_cases failed : e = 0
      · rw [if_neg (not_not.mpr failed)] at result
        rw [loop_next (t := (k.next,l,q')) (by simp [Changing.foreachTurn,readOnly,cell,called,failed])]
        exact ih result
      · rw [if_pos failed] at result
        obtain ⟨rfl,rfl⟩ := Prod.mk.inj (Option.some.inj result)
        exact loop_stop (by simp [Changing.foreachTurn,readOnly,cell,called,failed]) _

/-- What a callback does to the list in a call. An item to append comes with whether its allocation succeeds. -/
structure Doing (α : Type) where
  before : List (Bool × α)
  deletes : Bool
  after : List (Bool × α)

/-- The entries that were appended, and the list. -/
def appendAll : List (Bool × α) → BanoList α → Option (List (Ptr × α) × BanoList α)
  | [], l => some ([],l)
  | (malloc,a) :: as, l => do
    let (err,l') ← banoListAddTail malloc l a
    let (es,l'') ← appendAll as l'
    some (if err = 0 then (l.items.next,a) :: es else es,l'')

def Doing.delete (doing : Doing α) (pos : Ptr) (l : BanoList α) : Option (BanoList α) :=
  if doing.deletes then (banoListDel l pos).map Prod.snd else some l

def Doing.perform (doing : Doing α) (pos : Ptr) (l : BanoList α) : Option (List (Ptr × α) × BanoList α) := do
  let (early,l) ← appendAll doing.before l
  let l ← doing.delete pos l
  let (late,l) ← appendAll doing.after l
  some (early ++ late,l)

/-- A call of the callback. -/
structure ItemCall (α : Type) where
  item : Ptr
  appended : List (Ptr × α)
  deleted : Bool

def appended (log : List (ItemCall α)) : List (Ptr × α) := log.flatMap ItemCall.appended

/-- No call deleted the item. -/
def survives (log : List (ItemCall α)) (e : Ptr × α) : Bool := log.all fun call =>
    !(call.deleted && decide (call.item = e.1))

/-- The callback returns 0; what it does depends on the item, the list and its own data. -/
def callback (behave : Ptr → BanoList α → σ → Doing α × σ) (pos : Ptr) (l : BanoList α)
    (p : σ × List (ItemCall α)) :
    Option (Int × BanoList α × σ × List (ItemCall α)) := do
  let (doing,q) := behave pos l p.1
  let (es,l) ← doing.perform pos l
  some (0,l,q,p.2 ++ [⟨pos,es,doing.deletes⟩])

section foreach

variable (behave : Ptr → BanoList α → σ → Doing α × σ) (l : BanoList α) (xs : List (Ptr × α)) (p : σ)

/-- The traversal comes to a turn on `pos`, with the list as it is then. -/
def ComesTo (pos : Option Ptr) (l' : BanoList α) (q : σ) (log : List (ItemCall α)) : Prop :=
  Starts (Changing.foreachTurn (callback behave)) (l.head,l,p,[]) (pos,l',q,log)

/-- The traversal of a list with the entries `xs`. -/
structure Traversal : Prop where
  safe : ∀ fuel, Changing.banoListForeach (callback behave) fuel l (p,[]) ≠ .fault
  returns : (∃ bound, ∀ pos l' q log, ComesTo behave l p pos l' q log → (appended log).length ≤ bound) →
    ∃ fuel result, Changing.banoListForeach (callback behave) fuel l (p,[]) = .done result
  inOrder : ∀ pos l' q log, ComesTo behave l p pos l' q log →
    log.map ItemCall.item <+: (xs ++ appended log).map Prod.fst
  once : ∀ pos l' q log, ComesTo behave l p pos l' q log → (log.map ItemCall.item).Nodup
  everyItem : ∃ pos l' q log, ComesTo behave l p pos l' q log ∧ log.map ItemCall.item = xs.map Prod.fst
  result : ∀ fuel ret l' q log, Changing.banoListForeach (callback behave) fuel l (p,[]) = .done (ret,l',q,log) →
    ret = 0 ∧ ComesTo behave l p none l' q log ∧ xs.map Prod.fst <+: log.map ItemCall.item ∧
      Linked l' ((xs ++ appended log).filter (survives log))

end foreach

theorem appendAll_linked (as : List (Bool × α)) {l : BanoList α} (linked : Linked l xs) :
    ∃ es l', appendAll as l = some (es,l') ∧ Linked l' (xs ++ es) ∧ l.items.next ≤ l'.items.next ∧
      ∀ e ∈ es, l.items.next ≤ e.1 ∧ e.1 < l'.items.next := by
  induction as generalizing l xs with
  | nil => exact ⟨[],l,rfl,by simpa using linked,Nat.le_refl _,by simp⟩
  | cons first as ih =>
    obtain ⟨malloc,a⟩ := first
    cases malloc with
    | false =>
      obtain ⟨es,l',appends,rest⟩ := ih linked
      exact ⟨es,l',by simp [appendAll,banoListAddTail,appends],rest⟩
    | true =>
      obtain ⟨l₁,added,linked₁,next⟩ := banoListAddTail_linked exact_right linked a
      obtain ⟨es,l',appends,linked',later,fresh⟩ := ih linked₁
      refine ⟨(l.items.next,a) :: es,l',by simp [appendAll,added,appends],by simpa using linked',by omega,?_⟩
      intro e member
      rw [next] at later fresh
      rcases List.mem_cons.mp member with rfl | member
      · exact ⟨Nat.le_refl _,later⟩
      · exact ⟨Nat.le_of_succ_le (fresh e member).1,(fresh e member).2⟩

/-- Only the item itself is taken out, and what is appended is new. -/
theorem Doing.perform_linked (doing : Doing α) {l : BanoList α} (linked : Linked l (front ++ (it,a) :: rest)) :
    ∃ es l', doing.perform it l = some (es,l') ∧ l.items.next ≤ l'.items.next ∧
      (∀ e ∈ es, l.items.next ≤ e.1 ∧ e.1 < l'.items.next) ∧
      Linked l' ((front ++ (it,a) :: rest).filter (fun e => !(doing.deletes && decide (it = e.1))) ++ es) := by
  obtain ⟨early,l₁,appends,linked₁,later₁,fresh₁⟩ := appendAll_linked doing.before linked
  have removed : ∃ l₂, doing.delete it l₁ = some l₂ ∧
      l₂.items.next = l₁.items.next ∧
      Linked l₂ ((front ++ (it,a) :: rest).filter (fun e => !(doing.deletes && decide (it = e.1))) ++ early) := by
    cases deletes : doing.deletes with
    | false => exact ⟨l₁,by simp [Doing.delete,deletes],rfl,by simpa using linked₁⟩
    | true =>
      rw [List.append_assoc,List.cons_append] at linked₁
      obtain ⟨_,⟨back,cell,backEq⟩,_⟩ := segment_append.mp linked₁.chain
      obtain ⟨l₂,deleted,linked₂,next⟩ := banoListDel_linked exact_right linked₁ cell (.inl ⟨backEq,rfl⟩)
      refine ⟨l₂,by simp [Doing.delete,deletes,deleted],next,?_⟩
      have kept := filter_split linked.nodup
      rw [List.filter_congr (q := fun e => e.1 ≠ it) (fun e _ => by simp [eq_comm]),kept,List.append_assoc]
      exact linked₂
  obtain ⟨l₂,deleted,next,linked₂⟩ := removed
  obtain ⟨late,l₃,appends',linked₃,later₃,fresh₃⟩ := appendAll_linked doing.after linked₂
  refine ⟨early ++ late,l₃,by simp [Doing.perform,appends,deleted,appends'],by omega,?_,?_⟩
  · intro e member
    rcases List.mem_append.mp member with member | member
    · exact ⟨(fresh₁ e member).1,Nat.lt_of_lt_of_le (fresh₁ e member).2 (next ▸ later₃)⟩
    · exact ⟨Nat.le_trans later₁ (next ▸ (fresh₃ e member).1),(fresh₃ e member).2⟩
  · rwa [List.append_assoc] at linked₃

@[simp] theorem appended_concat (log : List (ItemCall α)) (call : ItemCall α) :
    appended (log ++ [call]) = appended log ++ call.appended := by simp [appended]

@[simp] theorem survives_concat (log : List (ItemCall α)) (call : ItemCall α) (e : Ptr × α) :
    survives (log ++ [call]) e = (survives log e && !(call.deleted && decide (call.item = e.1))) := by simp [survives]

theorem survives_uncalled {log : List (ItemCall α)} (uncalled : e.1 ∉ log.map ItemCall.item) :
    survives log e = true := by
  simp only [survives,List.all_eq_true]
  intro call member
  have other : call.item ≠ e.1 := fun same => uncalled (List.mem_map.mpr ⟨call,member,same⟩)
  simp [other]

theorem filter_survives {log : List (ItemCall α)} {es : List (Ptr × α)}
    (uncalled : ∀ e ∈ es, e.1 ∉ log.map ItemCall.item) :
    es.filter (survives log) = es :=
  List.filter_eq_self.mpr fun e member => survives_uncalled (uncalled e member)

/-- Between two turns: the callback has had the first items of the initial and appended ones, and `pos` is the next of
them, unless the rest was appended in the call on the last item. -/
structure Midway (xs : List (Ptr × α)) (pos : Option Ptr) (l : BanoList α) (log : List (ItemCall α)) : Prop where
  linked : Linked l ((xs ++ appended log).filter (survives log))
  nodup : ((xs ++ appended log).map Prod.fst).Nodup
  known : ∀ e ∈ xs ++ appended log, e.1 < l.items.next
  place : ∃ seen rest, xs ++ appended log = seen ++ rest ∧ seen.map Prod.fst = log.map ItemCall.item ∧
    (pos = first rest none ∨ pos = none ∧ xs.length ≤ log.length)

def MidwayAt (xs : List (Ptr × α)) (t : Option Ptr × BanoList α × σ × List (ItemCall α)) : Prop :=
  Midway xs t.1 t.2.1 t.2.2.2

theorem Midway.start {l : BanoList α} (linked : Linked l xs) : Midway xs l.head l [] where
  linked := by
    have kept : xs.filter (survives []) = xs := filter_survives (by simp)
    simpa [appended,kept] using linked
  nodup := by simpa [appended] using linked.nodup
  known := by
    intro e member
    obtain ⟨k,cell,_⟩ := linked.live (by simpa [appended] using member)
    exact Heap.lt_next cell
  place := ⟨[],xs,by simp [appended],rfl,.inl linked.head⟩

/-- No item that is still to come was deleted. -/
theorem Midway.entry {l : BanoList α} (mid : Midway xs (some it) l log) : ∃ seen a rest,
    xs ++ appended log = seen ++ (it,a) :: rest ∧ seen.map Prod.fst = log.map ItemCall.item ∧
    ((it,a) :: rest).filter (survives log) = (it,a) :: rest := by
  obtain ⟨seen,rest,all,calls,place⟩ := mid.place
  have here : some it = first rest none := place.resolve_right fun ended => nomatch ended.1
  obtain ⟨a,rest,rfl⟩ : ∃ a rest', rest = (it,a) :: rest' := by
    cases rest with
    | nil => exact nomatch here
    | cons e rest =>
      obtain rfl := Option.some.inj here
      exact ⟨e.2,rest,rfl⟩
  have nodup := mid.nodup
  rw [all,List.map_append] at nodup
  refine ⟨seen,a,rest,all,calls,filter_survives fun e member => ?_⟩
  rw [← calls]
  exact fun called => List.disjoint_of_nodup_append nodup called (List.mem_map_of_mem member)

/-- The call on an item deletes that item at most, and what it appended is there. -/
theorem survives_turn {seen rest es : List (Ptr × α)} (calls : seen.map Prod.fst = log.map ItemCall.item)
    (kept : ((it,a) :: rest).filter (survives log) = (it,a) :: rest)
    (new : ∀ e ∈ seen ++ (it,a) :: rest, ∀ d ∈ es, e.1 ≠ d.1) (deleted : Bool) :
    (seen ++ (it,a) :: rest ++ es).filter (survives (log ++ [⟨it,es,deleted⟩])) =
      (seen.filter (survives log) ++ (it,a) :: rest).filter (fun e => !(deleted && decide (it = e.1))) ++ es := by
  have survive : es.filter (survives (log ++ [⟨it,es,deleted⟩])) = es := by
    apply filter_survives
    intro e member
    rw [List.map_append,← calls]
    intro called
    rcases List.mem_append.mp called with old | now
    · obtain ⟨d,inside,same⟩ := List.mem_map.mp old
      exact new d (List.mem_append_left _ inside) e member same
    · exact new (it,a) (by simp) e member (List.mem_singleton.mp now).symm
  have split : (seen ++ (it,a) :: rest).filter (survives (log ++ [⟨it,es,deleted⟩])) =
      ((seen ++ (it,a) :: rest).filter (survives log)).filter (fun e => !(deleted && decide (it = e.1))) := by
    rw [List.filter_filter]
    exact List.filter_congr fun e _ => (survives_concat log _ e).trans (Bool.and_comm _ _)
  rw [List.filter_append,survive,split,List.filter_append,kept]

theorem Midway.turn {l : BanoList α} (mid : Midway xs (some it) l log) (doing : Doing α) :
    ∃ k es l', l.items.cell it = some k ∧ doing.perform it l = some (es,l') ∧
      Midway xs k.next l' (log ++ [⟨it,es,doing.deletes⟩]) := by
  obtain ⟨seen,a,rest,all,calls,kept⟩ := mid.entry
  have nodup := mid.nodup
  have linked := mid.linked
  rw [all] at nodup
  rw [all,List.filter_append,kept] at linked
  obtain ⟨_,⟨back,cell,_⟩,_⟩ := segment_append.mp linked.chain
  obtain ⟨es,l',performs,more,fresh,linked'⟩ := doing.perform_linked linked
  have new : ∀ e ∈ seen ++ (it,a) :: rest, ∀ d ∈ es, e.1 ≠ d.1 := by
    intro e member d inside
    have old := mid.known e (all ▸ member)
    exact Nat.ne_of_lt (Nat.lt_of_lt_of_le old (fresh d inside).1)
  have all' : xs ++ appended (log ++ [⟨it,es,doing.deletes⟩]) = seen ++ (it,a) :: rest ++ es := by
    rw [appended_concat,← List.append_assoc,all]
  refine ⟨_,es,l',cell,performs,?_,?_,?_,?_⟩
  · rw [all',survives_turn calls kept new]
    exact linked'
  · have fresh' := (List.nodup_append.mp (List.map_append ▸ linked'.nodup)).2.1
    rw [all',List.map_append]
    refine List.nodup_append.mpr ⟨nodup,fresh',?_⟩
    intro p old q late
    obtain ⟨e,member,rfl⟩ := List.mem_map.mp old
    obtain ⟨d,inside,rfl⟩ := List.mem_map.mp late
    exact new e member d inside
  · intro e member
    rw [all',← all] at member
    rcases List.mem_append.mp member with old | late
    · exact Nat.lt_of_lt_of_le (mid.known e old) more
    · exact (fresh e late).2
  · have calls' : (seen ++ [(it,a)]).map Prod.fst = (log ++ [(⟨it,es,doing.deletes⟩ : ItemCall α)]).map
        ItemCall.item := by
      simp [calls]
    refine ⟨seen ++ [(it,a)],rest ++ es,all'.trans (by simp),calls',?_⟩
    cases rest with
    | cons e rest => exact .inl rfl
    | nil =>
      have lengths := congrArg List.length all
      have lengths' := congrArg List.length calls'
      simp only [List.length_append,List.length_map,List.length_cons,List.length_nil] at lengths lengths'
      exact .inr ⟨rfl,by simp; omega⟩

theorem Midway.inOrder {l : BanoList α} (mid : Midway xs pos l log) :
    log.map ItemCall.item <+: (xs ++ appended log).map Prod.fst := by
  obtain ⟨seen,rest,all,calls,_⟩ := mid.place
  rw [all,← calls,List.map_append]
  exact List.prefix_append _ _

theorem Midway.once {l : BanoList α} (mid : Midway xs pos l log) : (log.map ItemCall.item).Nodup :=
  mid.nodup.sublist mid.inOrder.sublist

theorem Midway.covers {l : BanoList α} (mid : Midway xs pos l log) (enough : xs.length ≤ log.length) :
    xs.map Prod.fst <+: log.map ItemCall.item := by
  have initial : xs.map Prod.fst <+: (xs ++ appended log).map Prod.fst := by
    rw [List.map_append]
    exact List.prefix_append _ _
  exact List.prefix_of_prefix_length_le initial mid.inOrder (by simpa using enough)

theorem Midway.ended {l : BanoList α} (mid : Midway xs none l log) : xs.length ≤ log.length := by
  obtain ⟨seen,rest,all,calls,place⟩ := mid.place
  rcases place with none | ⟨_,enough⟩
  · cases rest with
    | cons e rest => exact nomatch none
    | nil =>
      have lengths := congrArg List.length all
      have lengths' := congrArg List.length calls
      simp only [List.length_append,List.length_map,List.length_nil] at lengths lengths'
      omega
  · exact enough

/-- A turn on an item is a call, and the loop ends after the last item only. -/
theorem foreachTurn_ends (behave : Ptr → BanoList α → σ → Doing α × σ) (mid : Midway xs pos l log) (q : σ) :
    Ends (fun t => Midway xs t.1 t.2.1 t.2.2.2 ∧ t.2.2.2.length = log.length + 1)
      (fun r => pos = none ∧ r = (0,l,q,log)) (Changing.foreachTurn (callback behave) (pos,l,q,log)) := by
  cases pos with
  | none => exact .stop ⟨rfl,rfl⟩
  | some it =>
    obtain ⟨k,es,l',cell,performs,mid'⟩ := mid.turn (behave it l q).1
    have taken : Changing.foreachTurn (callback behave) (some it,l,q,log) =
        .done (.next (k.next,l',(behave it l q).2,log ++ [⟨it,es,(behave it l q).1.deletes⟩])) := by
      simp [Changing.foreachTurn,callback,cell,performs]
    rw [taken]
    exact .next ⟨mid',by simp⟩

/-- The loop comes to as many calls as the list had items at the start. -/
theorem comesTo_calls (behave : Ptr → BanoList α → σ → Doing α × σ) (linked : Linked l xs) (p : σ) (n : Nat)
    (within : n ≤ xs.length) :
    ∃ pos l' q log, ComesTo behave l p pos l' q log ∧ Midway xs pos l' log ∧ log.length = n := by
  induction n with
  | zero => exact ⟨l.head,l,p,[],.refl,.start linked,rfl⟩
  | succ n ih =>
    obtain ⟨pos,l',q,log,comes,mid,rfl⟩ := ih (by omega)
    cases taken : Changing.foreachTurn (callback behave) (pos,l',q,log) with
    | running => exact nomatch taken ▸ foreachTurn_ends behave mid q
    | fault => exact nomatch taken ▸ foreachTurn_ends behave mid q
    | done r =>
      cases taken ▸ foreachTurn_ends behave mid q with
      | next kept => exact ⟨_,_,_,_,comes.tail taken,kept.1,kept.2⟩
      | stop ended =>
        obtain ⟨rfl,_⟩ := ended
        have := mid.ended
        omega

/-- Whatever the callback deletes and appends, a traversal goes over the
items of the list as it was, and then over the appended ones. -/
theorem foreachSurvives (behave : Ptr → BanoList α → σ → Doing α × σ) (linked : Linked l xs) (p : σ) :
    Traversal behave l xs p := by
  have turns : ∀ t, MidwayAt xs t →
    Ends (fun t' => MidwayAt xs t' ∧ t'.2.2.2.length = t.2.2.2.length + 1) (fun _ => True)
      (Changing.foreachTurn (callback behave) t) :=
    fun t mid => (foreachTurn_ends behave mid t.2.2.1).mono (fun _ kept => kept) fun _ _ => trivial
  have keeps : ∀ t, MidwayAt xs t → Ends (MidwayAt xs) (fun _ => True) (Changing.foreachTurn (callback behave) t) :=
    fun t mid => (turns t mid).mono (fun _ kept => kept.1) fun _ => id
  have start : MidwayAt xs (l.head,l,p,[]) := .start linked
  have midway : ∀ t, Starts (Changing.foreachTurn (callback behave)) (l.head,l,p,[]) t → MidwayAt xs t :=
    fun t comes => comes.invariant (MidwayAt xs) start keeps
  refine ⟨?_,?_,?_,?_,?_,?_⟩
  · intro fuel fault
    rcases loop_safe (MidwayAt xs) start keeps fuel with running | ⟨_,done,_⟩
    · exact nomatch running.symm.trans fault
    · exact nomatch done.symm.trans fault
  · rintro ⟨bound,finite⟩
    let inv := fun t => MidwayAt xs t ∧ Starts (Changing.foreachTurn (callback behave)) (l.head,l,p,[]) t
    have calls : ∀ t, inv t → t.2.2.2.length ≤ xs.length + bound := by
      rintro ⟨pos,l',q,log⟩ ⟨mid,comes⟩
      have most := (Midway.inOrder mid).length_le
      simp only [List.length_map,List.length_append] at most
      exact Nat.le_trans most (Nat.add_le_add_left (finite pos l' q log comes) _)
    have lower : ∀ t, inv t → Ends (fun t' => inv t' ∧ xs.length + bound - t'.2.2.2.length <
      xs.length + bound - t.2.2.2.length)
        (fun _ => True) (Changing.foreachTurn (callback behave) t) := by
      rintro t ⟨mid,comes⟩
      refine (turns t mid).taken.mono (fun t' kept => ?_) fun _ => id
      have here : inv t' := ⟨kept.1.1,comes.tail kept.2⟩
      have := calls t' here
      exact ⟨here,by omega⟩
    obtain ⟨result,done,_⟩ := loop_returns inv (fun t => xs.length + bound - t.2.2.2.length) ⟨start,.refl⟩ lower
      (Nat.lt_succ_self _)
    exact ⟨xs.length + bound + 1,result,done⟩
  · exact fun pos l' q log comes => Midway.inOrder (midway _ comes)
  · exact fun pos l' q log comes => Midway.once (midway _ comes)
  · obtain ⟨pos,l',q,log,comes,mid,count⟩ := comesTo_calls behave linked p xs.length (Nat.le_refl _)
    have covers := mid.covers (Nat.le_of_eq count.symm)
    exact ⟨pos,l',q,log,comes,(covers.eq_of_length (by simp [count])).symm⟩
  · intro fuel ret l' q log result
    obtain ⟨⟨pos,l₁,q₁,log₁⟩,comes,stops⟩ := loop_last result
    have mid : Midway xs pos l₁ log₁ := midway _ comes
    cases stops ▸ foreachTurn_ends behave mid q₁ with
    | stop ended =>
      obtain ⟨rfl,same⟩ := ended
      obtain ⟨rfl,rfl,rfl,rfl⟩ := same
      exact ⟨rfl,comes,mid.covers mid.ended,mid.linked⟩

/-- Two items, carrying 10 and 20. -/
def twoItems : BanoList Nat := ⟨some 0,some 1,(Heap.empty.alloc ⟨10,some 1,none⟩).alloc ⟨20,none,some 0⟩⟩

/-- The first call deletes its item and appends 30. -/
def replaceFirst (_ : Ptr) (_ : BanoList Nat) (calls : Nat) : Doing Nat × Nat :=
  (⟨[],calls == 0,if calls = 0 then [(true,30)] else []⟩,calls + 1)

theorem twoItems_linked : Linked twoItems [(0,10),(1,20)] :=
  ⟨rfl,rfl,⟨⟨none,rfl,rfl⟩,⟨some 0,rfl,rfl⟩,trivial⟩,by decide⟩

theorem foreachSurvives_two : Traversal replaceFirst twoItems [(0,10),(1,20)] 0 :=
  foreachSurvives replaceFirst twoItems_linked 0

end Bano
