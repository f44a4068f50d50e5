import Bano.Camera
import Bano.Lib.Holding

/-! The stream of a camera, as it is started, restarted and stopped: which
frames the driver may hand out, and what is mapped for them. -/
namespace Bano.Camera

open Lib

variable {δ α β : Type}

theorem yields_ask {f : δ → α × δ} {q : α → Prog δ β} {s : State δ} {post : β → State δ → Prop}
    (rest : Yields (q (f s.out).1) { s with out := (f s.out).2 } post) : Yields (ask f >>= q) s post := rest

theorem yields_getCam {q : Handle → Prog δ β} {s : State δ} {post : β → State δ → Prop}
    (rest : Yields (q s.cam) s post) :
    Yields (getCam >>= q) s post := rest

theorem yields_modifyCam {f : Handle → Handle} {q : Unit → Prog δ β} {s : State δ} {post : β → State δ → Prop}
    (rest : Yields (q ()) { s with cam := f s.cam } post) : Yields (modifyCam f >>= q) s post := rest

theorem yields_newMapping {n : U32} {q : Ptr → Prog δ β} {s : State δ} {post : β → State δ → Prop}
    (rest : Yields (q s.maps.next) { s with maps := s.maps.alloc n } post) :
    Yields (newMapping n >>= q) s post := rest

theorem yields_alloc {block : List UInt8} {q : Ptr → Prog δ β} {s : State δ} {post : β → State δ → Prop}
    (rest : Yields (q s.mem.next) { s with mem := s.mem.alloc block } post) :
    Yields (alloc block >>= q) s post := rest

theorem yields_openFd {q : Unit → Prog δ β} {s : State δ} {post : β → State δ → Prop}
    (rest : Yields (q ()) { s with cam := { s.cam with fd := some s.fds.next }, fds := s.fds.alloc () } post) :
    Yields (openFd >>= q) s post := rest

theorem yields_recordShot {sys : Outside δ} {q : Unit → Prog δ β} {s : State δ} {post : β → State δ → Prop}
    (rest : Yields (q ()) { s with shots := s.shots ++ [⟨i,sys.memory s.out⟩] } post) :
    Yields (recordShot sys i >>= q) s post := rest

section
variable (held : δ → Nat → Prop) (size : δ → Nat)

/-- A call that leaves the driver its format, and no more frames than it had. -/
structure Calm (f : δ → α × δ) : Prop where
  held : ∀ d i, held (f d).2 i → held d i
  size : ∀ d, size (f d).2 = size d

/-- What the kernel and the allocator document. The frames that are `held` are those that the
driver may hand out: queued since the device was opened or its stream was last stopped. A
buffer has room for a frame of the format, which takes `size` bytes. -/
structure Obeys (sys : Outside δ) : Prop where
  malloc : ∀ n, Calm held size (sys.malloc n)
  block : ∀ n d b, (sys.malloc n d).1 = some b → b.length = n
  openDev : ∀ name d i, ¬held (sys.openDev name d).2 i
  queryCap : Calm held size sys.queryCap
  getFmt : Calm held size sys.getFmt
  setFmt : ∀ c w h d i, held (sys.setFmt c w h d).2 i → held d i
  reqBufs : Calm held size sys.reqBufs
  queryBuf : ∀ i, Calm held size (sys.queryBuf i)
  length : ∀ i d n, (sys.queryBuf i d).1 = some n → size d ≤ n.toNat
  mmap : ∀ n, Calm held size (sys.mmap n)
  qBuf : ∀ i d j, held (sys.qBuf i d).2 j → j = i ∨ held d j
  qBuf_size : ∀ i d, size (sys.qBuf i d).2 = size d
  dqBuf : Calm held size sys.dqBuf
  dequeued : ∀ d i, (sys.dqBuf d).1 = some i → held d i
  streamOn : Calm held size sys.streamOn
  streamOff : ∀ d i, ¬held (sys.streamOff d).2 i
  streamOff_size : ∀ d, size (sys.streamOff d).2 = size d
  select : Calm held size sys.select
  read : ∀ n, Calm held size (sys.read n)
  read_length : ∀ n d bytes, (sys.read n d).1 = some bytes → bytes.length ≤ n
  encode24 : ∀ data w h, Calm held size (sys.encode24 data w h)

/-- The driver takes the format that it is given, whereas it may choose another one: bano_cam_open does not look. -/
def Adopts (sys : Outside δ) : Prop :=
  ∀ fmt c w h d, expandFormat fmt = some (c,w,h) → (sys.setFmt c w h d).1 = true →
    size (sys.setFmt c w h d).2 = (formatToFrameSize fmt).toNat

end

theorem Handle.fb_setFb_same {cam : Handle} (known : i < 2) (fb : Fb) : (cam.setFb i fb).fb i = some fb := by
  obtain rfl | rfl : i = 0 ∨ i = 1 := by omega
  · rfl
  · rfl

theorem Handle.fb_setFb_other (apart : j ≠ i) (cam : Handle) (fb : Fb) : (cam.setFb i fb).fb j = cam.fb j := by
  unfold setFb
  split
  · next zero =>
    subst zero
    simp [Handle.fb,apart]
  · split
    · next one =>
      subst one
      simp [Handle.fb,apart]
    · rfl

@[simp] theorem Handle.setFb_fbCount (cam : Handle) (i : Nat) (fb : Fb) : (cam.setFb i fb).fbCount = cam.fbCount := by
  unfold setFb
  split
  · rfl
  · split <;> rfl

/-- Nothing is changed but the frame buffers and what is behind them, and more frames may have been handed out. -/
structure Kept (s t : State δ) : Prop where
  same : t = { s with
    cam := { s.cam with fb0 := t.cam.fb0, fb1 := t.cam.fb1, fbCount := t.cam.fbCount }
    maps := t.maps, out := t.out, shots := t.shots }
  shots : s.shots <+: t.shots

theorem Kept.refl (s : State δ) : Kept s s := ⟨rfl,List.prefix_refl _⟩

theorem Kept.trans {s t u : State δ} (first : Kept s t) (next : Kept t u) : Kept s u := by
  refine ⟨?_,first.shots.trans next.shots⟩
  have same := first.same
  rw [next.same,same]

theorem Kept.parts {s t : State δ} (kept : Kept s t) : ∃ fb0 fb1 count maps out shots, t = { s with
    cam := { s.cam with fb0 := fb0, fb1 := fb1, fbCount := count }, maps := maps, out := out, shots := shots } :=
  ⟨_,_,_,_,_,_,kept.same⟩

theorem kept_setFb (s : State δ) (i : Nat) (fb : Fb) (maps : Heap U32) (out : δ) :
    Kept s { s with cam := s.cam.setFb i fb, maps := maps, out := out } := by
  refine ⟨?_,List.prefix_refl _⟩
  unfold Handle.setFb
  split
  · rfl
  · split <;> rfl

theorem kept_asked (s : State δ) (out : δ) : Kept s { s with out := out } := ⟨rfl,List.prefix_refl _⟩

theorem kept_counted (s : State δ) (count : Nat) (out : δ) :
    Kept s { s with cam := { s.cam with fbCount := count }, out := out } := ⟨rfl,List.prefix_refl _⟩

/-- The frame buffers from `front` on are these mappings, and there are no others. -/
structure Mapped (cam : Handle) (maps : Heap U32) (front : Nat) (ps : List (Ptr × U32)) : Prop where
  fb : ∀ k e, ps[k]? = some e → cam.fb (front + k) = some ⟨.mapped e.1,e.2.toNat⟩
  length : ∀ e ∈ ps, maps.cell e.1 = some e.2
  live : maps.Exactly (ps.map Prod.fst)

theorem Mapped.none {cam : Handle} {maps : Heap U32} (vacant : maps.Exactly []) (front : Nat) :
    Mapped cam maps front [] :=
  ⟨by simp,by simp,vacant⟩

theorem unmapFrameBuffer_yields {s : State δ} (fb : s.cam.fb i = some ⟨.mapped p,n⟩)
    (freed : s.maps.free p = some maps) :
    Yields (unmapFrameBuffer i) s fun _ t => t = { s with cam := s.cam.setFb i ⟨.mapFailed,0⟩, maps := maps } := by
  apply yields_getCam
  rw [fb]
  have unmapped : Yields (attempt fun s : State δ => do
      let maps ← s.maps.free p
      some ((),{ s with maps := maps })) s fun _ t => t = { s with maps := maps } :=
        .attempt (a := ()) (by simp [freed]) rfl
  apply unmapped.bind
  intro _ t same
  subst same
  exact .alter rfl

theorem unmapFrameBuffers_yields {s : State δ} (mapped : Mapped s.cam s.maps front ps) :
    Yields (unmapFrameBuffers ps.length front) s fun _ t => t.maps.Exactly [] ∧ Kept s t ∧ t.out = s.out := by
  induction ps generalizing s front with
  | nil => exact .pure ⟨mapped.live,.refl s,rfl⟩
  | cons e ps ih =>
    obtain ⟨freed,live⟩ := mapped.live.free
    have fb : s.cam.fb front = some ⟨.mapped e.1,e.2.toNat⟩ := mapped.fb 0 e rfl
    apply (unmapFrameBuffer_yields fb freed).bind
    intro _ t same
    subst same
    have outside := (List.nodup_cons.mp mapped.live.apart).1
    have rest : Mapped (s.cam.setFb front ⟨.mapFailed,0⟩) (s.maps.erase e.1) (front + 1) ps := by
      refine ⟨fun k d found => ?_,fun d member => ?_,live⟩
      · rw [Handle.fb_setFb_other (by omega),Nat.add_right_comm]
        exact mapped.fb (k + 1) d found
      · have other : d.1 ≠ e.1 := fun same => outside (same ▸ List.mem_map_of_mem (f := Prod.fst) member)
        rw [Heap.erase_cell_other other]
        exact mapped.length d (List.mem_cons_of_mem _ member)
    refine (ih rest).mono fun _ t ⟨vacant,kept,out⟩ => ⟨vacant,.trans ?_ kept,out⟩
    exact kept_setFb s front ⟨.mapFailed,0⟩ (s.maps.erase e.1) s.out

section
variable (held : δ → Nat → Prop) (size : δ → Nat)

/-- What is mapped for a stream. The driver hands out frames that are mapped, and a mapping has room for a frame. -/
structure Streaming (s : State δ) (ps : List (Ptr × U32)) : Prop where
  mapped : Mapped s.cam s.maps 0 ps
  count : s.cam.fbCount = ps.length
  few : ps.length ≤ 2
  held : ∀ i, held s.out i → i < ps.length
  room : ∀ e ∈ ps, size s.out ≤ e.2.toNat

end

variable {held : δ → Nat → Prop} {size : δ → Nat} {sys : Outside δ}

/-- The stream goes on when the kernel is asked something else. -/
theorem Streaming.calm {s : State δ} {f : δ → α × δ} (streaming : Streaming held size s ps)
    (calm : Calm held size f) :
    Streaming held size { s with out := (f s.out).2 } ps :=
  ⟨streaming.mapped,streaming.count,streaming.few,fun i kept => streaming.held i (calm.held _ i kept),fun e member =>
    calm.size s.out ▸ streaming.room e member⟩

theorem Streaming.remembered {s : State δ} (streaming : Streaming held size s ps) (mem : Heap (List UInt8)) :
    Streaming held size { s with mem := mem } ps :=
  ⟨streaming.mapped,streaming.count,streaming.few,streaming.held,streaming.room⟩

theorem Streaming.recorded {s : State δ} (streaming : Streaming held size s ps) (shots : List Shot) :
    Streaming held size { s with shots := shots } ps :=
  ⟨streaming.mapped,streaming.count,streaming.few,streaming.held,streaming.room⟩

theorem Streaming.queue {s : State δ} (obeys : Obeys held size sys) (streaming : Streaming held size s ps)
    (known : i < ps.length) : Streaming held size { s with out := (sys.qBuf i s.out).2 } ps := by
  refine ⟨streaming.mapped,streaming.count,streaming.few,fun j kept => ?_,fun e member => ?_⟩
  · rcases obeys.qBuf i s.out j kept with rfl | before
    · exact known
    · exact streaming.held j before
  · rw [obeys.qBuf_size]
    exact streaming.room e member

theorem stopMmapEnabled_yields {s : State δ} (obeys : Obeys held size sys) (streaming : Streaming held size s ps) :
    Yields (stopMmapEnabled sys) s fun _ t => Streaming held size t [] ∧ Kept s t ∧ size t.out = size s.out := by
  apply yields_getCam
  rw [streaming.count]
  apply (unmapFrameBuffers_yields streaming.mapped).bind
  rintro _ t ⟨vacant,kept,out⟩
  refine yields_modifyCam (yields_ask (.pure ⟨⟨.none vacant 0,rfl,by simp,?_,by simp⟩,
    kept.trans (kept_counted t 0 _),?_⟩))
  · exact fun i kept => (obeys.streamOff _ i kept).elim
  · rw [← out]
    exact obeys.streamOff_size t.out

theorem Mapped.setFb {cam : Handle} {maps : Heap U32} (mapped : Mapped cam maps 0 ps) (fb : Fb) :
    Mapped (cam.setFb ps.length fb) maps 0 ps := by
  refine ⟨fun k e found => ?_,mapped.length,mapped.live⟩
  have inside : k < ps.length := (List.getElem?_eq_some_iff.mp found).1
  rw [Handle.fb_setFb_other (by omega)]
  exact mapped.fb k e found

theorem Mapped.counted {cam : Handle} {maps : Heap U32} (mapped : Mapped cam maps front ps) (count : Nat) :
    Mapped { cam with fbCount := count } maps front ps := ⟨mapped.fb,mapped.length,mapped.live⟩

/-- One more mapping. -/
theorem Mapped.add {cam : Handle} {maps : Heap U32} (mapped : Mapped cam maps 0 ps) (free : ps.length < 2) (n : U32) :
    Mapped (cam.setFb ps.length ⟨.mapped maps.next,n.toNat⟩) (maps.alloc n) 0 (ps ++ [(maps.next,n)]) := by
  refine ⟨fun k e found => ?_,fun e member => ?_,?_⟩
  · by_cases inside : k < ps.length
    · rw [List.getElem?_append_left inside] at found
      exact (mapped.setFb _).fb k e found
    · have last : k = ps.length := by
        have bound := (List.getElem?_eq_some_iff.mp found).1
        simp only [List.length_append,List.length_singleton] at bound
        omega
      subst last
      obtain rfl : (maps.next,n) = e := by simpa using found
      rw [Nat.zero_add]
      exact Handle.fb_setFb_same free _
  · rcases List.mem_append.mp member with early | last
    · exact Heap.alloc_cell_live (mapped.length e early) n
    · obtain rfl := List.mem_singleton.mp last
      exact Heap.alloc_cell_next maps n
  · rw [List.map_append]
    exact (mapped.live.alloc n).perm (List.perm_append_singleton _ _).symm

/-- One more frame buffer is mapped, which is to be counted. -/
theorem mapFrameBuffer_yields {s : State δ} (obeys : Obeys held size sys) (streaming : Streaming held size s ps)
    (free : ps.length < 2) : Yields (mapFrameBuffer sys ps.length) s fun err t => Kept s t ∧ size t.out = size s.out ∧
      if err = 0 then ∃ e, Streaming held size { t with cam := { t.cam with fbCount := t.cam.fbCount + 1 } }
      (ps ++ [e])
      else Streaming held size t ps := by
  have spare (fb : Fb) : Streaming held size { s with cam := s.cam.setFb ps.length fb } ps :=
    ⟨streaming.mapped.setFb _,streaming.count ▸ Handle.setFb_fbCount _ _ _,streaming.few,
      streaming.held,streaming.room⟩
  refine yields_modifyCam (yields_ask ?_)
  have asked := (spare ⟨.mapFailed,0⟩).calm (obeys.queryBuf ps.length)
  have size' := (obeys.queryBuf ps.length).size s.out
  cases found : (sys.queryBuf ps.length s.out).1 with
  | none => exact .pure ⟨kept_setFb _ _ _ _ _,size',by simpa using asked⟩
  | some n =>
    have mapping := asked.calm (obeys.mmap n)
    have size'' := ((obeys.mmap n).size _).trans size'
    refine yields_ask (.ite (fun failed => .pure ⟨kept_setFb _ _ _ _ _,size'',by simpa using mapping⟩)
      fun succeeds => ?_)
    refine yields_newMapping (yields_modifyCam (.pure ⟨?_,size'',?_⟩))
    · exact .trans (kept_setFb s ps.length ⟨.mapFailed,0⟩ s.maps s.out) (kept_setFb _ ps.length _ _ _)
    · rw [if_pos rfl]
      refine ⟨(s.maps.next,n),((spare ⟨.mapFailed,0⟩).mapped.add free n).counted _,?_,?_,?_,?_⟩
      · simp [streaming.count]
      · simpa using free
      · intro i kept
        have before := mapping.held i kept
        simp only [List.length_append,List.length_singleton]
        omega
      · intro e member
        rcases List.mem_append.mp member with early | last
        · exact mapping.room e early
        · obtain rfl := List.mem_singleton.mp last
          exact size''.symm ▸ obeys.length _ _ _ found

theorem allocFrameBuffers_yields {s : State δ} (obeys : Obeys held size sys) (streaming : Streaming held size s ps)
    (few : ps.length + left ≤ 2) : Yields (allocFrameBuffers sys left ps.length) s fun _ t => Kept s t ∧
      size t.out = size s.out ∧ ∃ ps', Streaming held size t ps' := by
  induction left generalizing s ps with
  | zero => exact .pure ⟨.refl s,rfl,ps,streaming⟩
  | succ left ih =>
    refine (mapFrameBuffer_yields obeys streaming (by omega)).bind fun err t ⟨kept,same,holds⟩ =>
      .ite (fun fails => ?_) fun maps => ?_
    · rw [if_neg fails] at holds
      exact .pure ⟨kept,same,ps,holds⟩
    · rw [if_pos (not_not.mp maps)] at holds
      obtain ⟨e,counted⟩ := holds
      have more : (ps ++ [e]).length = ps.length + 1 := by simp
      have queued := counted.queue obeys (i := ps.length) (by omega)
      have same' := (obeys.qBuf_size ps.length t.out).trans same
      refine yields_modifyCam
        (yields_ask (.ite (fun _ => .pure ⟨kept.trans (kept_counted t _ _),same',_,queued⟩) fun _ => ?_))
      rw [← more]
      exact (ih queued (by omega)).mono fun _ u ⟨kept',same'',streaming'⟩ =>
        ⟨(kept.trans (kept_counted t _ _)).trans kept',
        same''.trans same',streaming'⟩

/-- Whether it fails or not, the frames that the driver has are mapped. -/
theorem startMmapEnabled_yields {s : State δ} (obeys : Obeys held size sys) (streaming : Streaming held size s []) :
    Yields (startMmapEnabled sys) s fun _ t => Kept s t ∧ size t.out = size s.out ∧ ∃ ps,
      Streaming held size t ps := by
  have asked := streaming.calm obeys.reqBufs
  have same := obeys.reqBufs.size s.out
  apply yields_ask
  cases (sys.reqBufs s.out).1 with
  | none => exact .pure ⟨kept_asked s _,same,_,asked⟩
  | some count =>
    refine .ite (fun _ => .pure ⟨kept_asked s _,same,_,asked⟩) fun range => ?_
    have few : count.toNat ≤ 2 := by
      have most : ¬fbCountMax < count := (not_or.mp range).2
      rwa [BitVec.not_lt,BitVec.le_def] at most
    apply (allocFrameBuffers_yields obeys asked (by simpa using few)).bind
    rintro err t ⟨kept,same',ps,streaming'⟩
    refine .ite (fun _ => .pure ⟨(kept_asked s _).trans kept,same'.trans same,ps,streaming'⟩) fun _ => yields_ask ?_
    have on := streaming'.calm obeys.streamOn
    have kept' : Kept s { t with out := (sys.streamOn t.out).2 } :=
      ((kept_asked s _).trans kept).trans (kept_asked t _)
    have same'' := (obeys.streamOn.size t.out).trans (same'.trans same)
    exact .ite (fun _ => .pure ⟨kept',same'',ps,on⟩) fun _ => .pure ⟨kept',same'',ps,on⟩

theorem redoSelect_yields {s : State δ} (obeys : Obeys held size sys)
    (streaming : Streaming held size s ps) (left : Nat) :
    Yields (redoSelect sys left) s fun _ t => Kept s t ∧ size t.out = size s.out ∧ ∃ ps',
      Streaming held size t ps' := by
  induction left generalizing s ps with
  | zero => exact .pure ⟨.refl s,rfl,ps,streaming⟩
  | succ left ih =>
    have asked := streaming.calm obeys.select
    have same := obeys.select.size s.out
    refine yields_ask (.ite (fun _ => .pure ⟨kept_asked s _,same,ps,asked⟩) fun _ => ?_)
    apply (stopMmapEnabled_yields obeys asked).bind
    rintro _ t ⟨stopped,kept,same'⟩
    apply (startMmapEnabled_yields obeys stopped).bind
    rintro _ u ⟨kept',same'',ps',started⟩
    refine (ih started).mono fun _ v ⟨kept'',last,streaming'⟩ =>
      ⟨?_,last.trans (same''.trans (same'.trans same)),streaming'⟩
    exact (((kept_asked s _).trans kept).trans kept').trans kept''

/-- A frame that is handed out is mapped. -/
theorem dequeue_yields {s : State δ} (obeys : Obeys held size sys) (streaming : Streaming held size s ps) :
    Yields (dequeue sys) s fun frame t => Kept s t ∧ size t.out = size s.out ∧ ∃ ps', Streaming held size t ps' ∧
      ∀ i, frame = some i → i < ps'.length ∧ (∃ d, (sys.dqBuf d).1 = some i) ∧
        t.shots.getLast? = some ⟨i,sys.memory t.out⟩ := by
  apply (redoSelect_yields obeys streaming 4).bind
  rintro selected t ⟨kept,same,ps',streaming'⟩
  refine .ite (fun _ => .pure ⟨kept,same,ps',streaming',by simp⟩) fun _ => yields_ask ?_
  have kept' := kept.trans (kept_asked t (sys.dqBuf t.out).2)
  have same' := (obeys.dqBuf.size t.out).trans same
  have calm := streaming'.calm obeys.dqBuf
  cases found : (sys.dqBuf t.out).1 with
  | none => exact .pure ⟨kept',same',ps',calm,nofun⟩
  | some i =>
    refine yields_recordShot (.pure ⟨⟨by rw [kept'.same],kept'.shots.trans (List.prefix_append _ _)⟩,same',ps',
      calm.recorded _,?_⟩)
    intro j same
    obtain rfl := Option.some.inj same
    exact ⟨streaming'.held i (obeys.dequeued t.out i found),⟨t.out,found⟩,by simp⟩

/-- A frame that is mapped can be read, and has the bytes of its format. -/
theorem frame_yields {s : State δ} (streaming : Streaming held size s ps) (known : i < ps.length) :
    Yields (frame sys i) s fun data t => t = s ∧ size s.out ≤ data.length ∧
      data = (List.range data.length).map (sys.memory s.out 0) := by
  have found : ps[i]? = some ps[i] := List.getElem?_eq_getElem known
  have fb := streaming.mapped.fb i ps[i] found
  rw [Nat.zero_add] at fb
  have cell := streaming.mapped.length ps[i] (List.getElem_mem known)
  refine .attempt (a := (List.range ps[i].2.toNat).map (sys.memory s.out 0))
    (t := s) (by simp [fb,cell]) ⟨rfl,?_,by simp⟩
  simpa using streaming.room ps[i] (List.getElem_mem known)

end Bano.Camera
