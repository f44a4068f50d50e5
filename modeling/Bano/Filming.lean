import Bano.Captures
import Bano.Lib.Handle
import Bano.Open

/-! The whole use of a camera: it is opened, any number of frames are captured, and it is closed. -/
namespace Bano.Camera

open Lib

variable {δ : Type} {held : δ → Nat → Prop} {size : δ → Nat} {sys : Outside δ} {yuvToRgb : YuvToRgb}

section
variable (sys : Outside δ) (yuvToRgb : YuvToRgb)

/-- What the last capture returns, and `err` before the first one. -/
def captures (err : Int) : Nat → Prog δ Int
  | 0 => pure err
  | n + 1 => do captures (← banoCamCapture sys yuvToRgb) n

/-- A camera that has captured, if it opens, with what the last capture returned. -/
def filming (info : BanoCamInfo) (n : Nat) : Prog δ (Int × Int) := do
  let err ← banoCamOpen sys info
  if err ≠ 0 then pure (err,-1)
  else do
    let last ← captures sys yuvToRgb (-1) n
    pure (0,last)

def session (info : BanoCamInfo) (n : Nat) : Prog δ Int := do
  let err ← banoCamOpen sys info
  if err ≠ 0 then pure err
  else do
    let _ ← captures sys yuvToRgb (-1) n
    banoCamClose sys

end

theorem captures_yields {s : State δ} (obeys : Obeys held size sys) (opened : Opened held size s own) (n : Nat) :
    Yields (captures sys yuvToRgb err n) s fun last t => Opened held size t own ∧
      (own = none → Served sys yuvToRgb s → (err = 0 → ShowsLast sys yuvToRgb s) →
        Served sys yuvToRgb t ∧ (last = 0 → ShowsLast sys yuvToRgb t)) := by
  induction n generalizing s err with
  | zero => exact .pure ⟨opened,fun _ served last => ⟨served,last⟩⟩
  | succ n ih =>
    apply (banoCamCapture_yields obeys opened).bind
    rintro err' t ⟨opened',shows⟩
    refine (ih opened').mono fun _ u ⟨opened'',shows'⟩ => ⟨opened'',fun streams served _ => ?_⟩
    obtain ⟨served',last⟩ := shows streams served
    exact shows' streams served' last

/-- A dummy captures nothing. -/
theorem captures_dummy {s : State δ} (dummy : s.cam.isDummy = true) (n : Nat) :
    Yields (captures sys yuvToRgb err n) s fun _ t => t = s := by
  induction n generalizing err with
  | zero => exact .pure rfl
  | succ n ih =>
    have none : Yields (banoCamCapture sys yuvToRgb) s fun _ t => t = s :=
      yields_getCam (.ite (fun _ => .pure rfl) fun real => absurd dummy real)
    apply none.bind
    intro _ t same
    subst same
    exact ih

/-- The camera of a base, which is told in one answer how far its device gets, and this one: they
return the same, are dummies together, and hold a bmp and a descriptor together. -/
structure SameOpening (answer : CamAnswer) (info : BanoCamInfo) (err : Int) (t : State δ) : Prop where
  result : ∀ cam, (Bano.banoCamOpen answer info cam .empty).1 = err
  dummy : ∀ cam, err = 0 → (Bano.banoCamOpen answer info cam .empty).2.1.isDummy = t.cam.isDummy
  bmp : ∀ cam, (Bano.banoCamOpen answer info cam .empty).2.2.bmps.Vacant ↔ t.mem.Exactly []
  fd : ∀ cam, (Bano.banoCamOpen answer info cam .empty).2.2.fds.Vacant ↔ t.fds.Exactly []

theorem not_exactly_nil {h : Heap α} (live : h.Exactly (p :: ps)) : ¬h.Exactly [] := fun empty => by
  obtain ⟨a,cell⟩ := (live.live p).mpr List.mem_cons_self
  exact nomatch (empty.vacant p).symm.trans cell

theorem not_vacant_alloc (h : Heap α) (a : α) : ¬(h.alloc a).Vacant := fun vacant =>
  nomatch (vacant h.next).symm.trans (Heap.alloc_cell_next h a)

theorem vacant_alloc_erase (a : α) : ((Heap.empty.alloc a).erase 0).Vacant :=
  fun p => Heap.alloc_erase_cell .empty a p

/-- Where allocations succeed, the two models of bano_cam_open agree. -/
theorem OpenResult.agrees {t : State δ} (mallocs : ∀ n d, (sys.malloc n d).1 ≠ none)
    (result : OpenResult held size sys info err t) : ∃ answer, SameOpening answer info err t := by
  cases result with
  | refused err failed why =>
    rcases why with invalid | ⟨n,d,none⟩
    · refine ⟨.noDevice,fun _ => ?_,fun _ zero => ?_,fun _ => ?_,fun _ => ?_⟩
      · simp [Bano.banoCamOpen,invalid,err]
      · exact absurd (err ▸ zero) (by decide)
      · exact iff_of_true (by simp [Bano.banoCamOpen,invalid,Devices.empty,Heap.vacant_empty]) failed.mem
      · exact iff_of_true (by simp [Bano.banoCamOpen,invalid,Devices.empty,Heap.vacant_empty]) failed.fds
    · exact absurd none (mallocs n d)
  | dummy err valid dummy real png fds maps mem =>
    have dummy : ¬info.flags &&& camFlagDummy = 0#32 := dummy
    refine ⟨.noDevice,fun _ => ?_,fun _ _ => ?_,fun _ => ?_,fun _ => ?_⟩
    · simp [Bano.banoCamOpen,valid,dummy,err]
    · simp [Bano.banoCamOpen,valid,dummy,real]
    · exact iff_of_false (by simp [Bano.banoCamOpen,valid,dummy,not_vacant_alloc]) (not_exactly_nil mem)
    · exact iff_of_true (by simp [Bano.banoCamOpen,valid,dummy,Devices.empty,Heap.vacant_empty]) fds
  | arranged asks arranged =>
    obtain ⟨valid,real⟩ := asks
    cases arranged with
    | failed err failed =>
      refine ⟨.noDevice,fun _ => ?_,fun _ zero => ?_,fun _ => ?_,fun _ => ?_⟩
      · simp [Bano.banoCamOpen,valid,real,err]
      · exact absurd (err ▸ zero) (by decide)
      · exact iff_of_true (by simp [Bano.banoCamOpen,valid,real,Devices.empty,vacant_alloc_erase]) failed.mem
      · exact iff_of_true (by simp [Bano.banoCamOpen,valid,real,Devices.empty,Heap.vacant_empty]) failed.fds
    | opened own err png opened =>
      obtain ⟨p,_,fd⟩ := opened.fd
      refine ⟨.streams,fun _ => ?_,fun _ _ => ?_,fun _ => ?_,fun _ => ?_⟩
      · simp [Bano.banoCamOpen,valid,real,err]
      · simp [Bano.banoCamOpen,valid,real,opened.real]
      · exact iff_of_false (by simp [Bano.banoCamOpen,valid,real,not_vacant_alloc]) (not_exactly_nil opened.mem)
      · exact iff_of_false (by simp [Bano.banoCamOpen,valid,real,not_vacant_alloc]) (not_exactly_nil fd)

theorem banoCamOpen_agrees {s : State δ} (obeys : Obeys held size sys) (adopts : Adopts size sys) (bare : Bare s)
    (info : BanoCamInfo)
    (mallocs : ∀ n d, (sys.malloc n d).1 ≠ none) :
    Yields (banoCamOpen sys info) s fun err t => ∃ answer, SameOpening answer info err t :=
  (banoCamOpen_yields obeys adopts bare info).mono fun _ _ result => result.agrees mallocs

/-- Whether the buffer of a driver is queued, how many frames it has handed out, and their size. -/
structure Webcam where
  queued : Bool
  handed : Nat
  size : Nat

def frameSize : Fourcc → U32 → U32 → Nat
  | .yuv420, w, h => w.toNat * h.toNat * 3 / 2
  | .yuyv, w, h => 2 * w.toNat * h.toNat

/-- A driver with one buffer, which tells its frames apart. -/
def webcam : Outside Webcam where
  malloc n d := (some (List.replicate n 0),d)
  openDev _ d := (true,{ d with queued := false })
  queryCap d := (some ⟨true,true⟩,d)
  getFmt d := (true,d)
  setFmt c w h d := (true,{ d with size := frameSize c w h })
  reqBufs d := (some 1,d)
  queryBuf _ d := if d.size < 2 ^ 32 then (some (BitVec.ofNat 32 d.size),d) else (none,d)
  mmap _ d := (true,d)
  qBuf i d := if i = 0 then (true,{ d with queued := true }) else (false,d)
  dqBuf d := if d.queued then (some 0,{ d with queued := false, handed := d.handed + 1 }) else (none,d)
  streamOn d := (true,d)
  streamOff d := (true,{ d with queued := false })
  select d := (if d.queued then .ready else .timeout,d)
  read n d := (some (List.replicate n 0),d)
  close d := d
  memory d _ i := UInt8.ofNat (d.handed + i)
  encode24 data _ _ d := (some (literal "png" ++ data),d)

def inQueue (d : Webcam) (i : Nat) : Prop := i = 0 ∧ d.queued = true

theorem calm_id {α : Type} (f : Webcam → α) : Calm inQueue Webcam.size fun d => (f d,d) :=
  ⟨fun _ _ => id,fun _ => rfl⟩

theorem webcam_obeys : Obeys inQueue Webcam.size webcam where
  malloc n := calm_id _
  block n d b found := by
    obtain rfl := Option.some.inj found
    simp
  openDev := by simp [inQueue,webcam]
  queryCap := calm_id _
  getFmt := calm_id _
  setFmt _ _ _ _ _ := id
  reqBufs := calm_id _
  queryBuf i := by
    refine ⟨fun d j => ?_,fun d => ?_⟩
    · simp only [webcam]
      split <;> exact id
    · simp only [webcam]
      split <;> rfl
  length i d n found := by
    simp only [webcam] at found
    split at found
    · next fits =>
      obtain rfl := Option.some.inj found
      rw [BitVec.toNat_ofNat,Nat.mod_eq_of_lt fits]
    · exact nomatch found
  mmap n := calm_id _
  qBuf i d j := by
    simp only [inQueue,webcam]
    split
    · next zero => exact fun kept => .inl (kept.1.trans zero.symm)
    · exact .inr
  qBuf_size i d := by
    simp only [webcam]
    split <;> rfl
  dqBuf := by
    refine ⟨fun d j => ?_,fun d => ?_⟩
    · simp only [inQueue,webcam]
      split
      · exact fun kept => absurd kept.2 Bool.false_ne_true
      · exact id
    · simp only [webcam]
      split <;> rfl
  dequeued d i found := by
    simp only [webcam] at found
    split at found
    · next queued => exact ⟨(Option.some.inj found).symm,queued⟩
    · exact nomatch found
  streamOn := calm_id _
  streamOff := by simp [inQueue,webcam]
  streamOff_size _ := rfl
  select := calm_id _
  read n := calm_id _
  read_length n d bytes found := by
    obtain rfl := Option.some.inj found
    simp
  encode24 _ _ _ := calm_id _

theorem webcam_adopts : Adopts Webcam.size webcam := by
  intro fmt c w h d found _
  rw [(expandFormat_size found).size]
  show frameSize c w h = _
  cases c <;> rfl

theorem webcam_oneBuffer : OneBuffer webcam := fun d i found => (webcam_obeys.dequeued d i found).1

def unplugged : State Webcam :=
  ⟨⟨none,.invalid,false,false,⟨.junk,0⟩,⟨.junk,0⟩,0,⟨0,0,0,0⟩,none,0⟩,.empty,.empty,
    .empty,⟨false,0,0⟩,[]⟩

theorem unplugged_bare : Bare unplugged := ⟨.empty,.empty,.empty⟩

/-- There is an image to be sent. Where frames are streamed, it is empty or shows one that was
handed out, and the last one if the last capture succeeded; a dummy has none. -/
def Sends (sys : Outside δ) (yuvToRgb : YuvToRgb) (last : Int) (t : State δ) : Prop :=
  ∃ image, banoCamGetImage t = some (image,literal "image/png") ∧ (t.cam.isDummy = true → image = []) ∧
    (t.cam.isDummy = false → t.cam.isMmapEnabled = true →
      (image = [] ∨ ∃ shot ∈ t.shots, Renders sys yuvToRgb t.cam shot image) ∧
      (last = 0 → ∃ shot, t.shots.getLast? = some shot ∧ Renders sys yuvToRgb t.cam shot image))

/-- The image of an open camera. -/
theorem Opened.sends {s : State δ} (opened : Opened held size s own) (served : own = none → Served sys yuvToRgb s)
    (shows : own = none → last = 0 → ShowsLast sys yuvToRgb s) : Sends sys yuvToRgb last s := by
  have streams : s.cam.isMmapEnabled = true → own = none := by
    intro enabled
    cases own with
    | none => rfl
    | some q => simp [(opened.reads q rfl).1] at enabled
  cases image : s.cam.pngBuf with
  | none =>
    refine ⟨[],by simp [banoCamGetImage,image],fun _ => rfl,fun _ enabled => ⟨.inl rfl,fun zero => ?_⟩⟩
    obtain ⟨_,_,_,mine,_⟩ := shows (streams enabled) zero
    exact nomatch image.symm.trans mine
  | some p =>
    obtain ⟨block,cell,length⟩ := opened.png p image
    refine ⟨block,by simp [banoCamGetImage,image,cell,← length],
      fun dummy => by simp [opened.real] at dummy,fun _ enabled => ⟨.inr ?_,?_⟩⟩
    · obtain ⟨block',cell',shot⟩ := served (streams enabled) p image
      obtain rfl := Option.some.inj (cell.symm.trans cell')
      exact shot
    · intro zero
      obtain ⟨q,block',shot,mine,cell',rest⟩ := shows (streams enabled) zero
      obtain rfl := Option.some.inj (image.symm.trans mine)
      obtain rfl := Option.some.inj (cell.symm.trans cell')
      exact ⟨shot,rest⟩

/-- At any time between captures of an open camera. -/
theorem filming_sends {s : State δ} (obeys : Obeys held size sys) (adopts : Adopts size sys) (bare : Bare s)
    (info : BanoCamInfo)
    (n : Nat) : Yields (filming sys yuvToRgb info n) s fun r t => r.1 = 0 → Sends sys yuvToRgb r.2 t := by
  apply (banoCamOpen_yields obeys adopts bare info).bind
  intro err t result
  have fails : err = -1 → Yields (if err ≠ 0 then pure (err,-1) else do
      let last ← captures sys yuvToRgb (-1) n
      pure (0,last)) t fun r t => r.1 = 0 → Sends sys yuvToRgb r.2 t :=
    fun err => .ite (fun failed => .pure fun fine => absurd fine failed) fun fine => absurd (err ▸ fine) (by decide)
  cases result with
  | refused err _ _ => exact fails err
  | dummy err _ _ dummy png fds maps mem =>
    refine .ite (fun failed => absurd err failed) fun _ => (captures_dummy dummy n).bind fun _ u same => ?_
    subst same
    exact .pure fun _ => ⟨[],by simp [banoCamGetImage,png],fun _ => rfl,fun real => by simp [dummy] at real⟩
  | arranged _ arranged =>
    cases arranged with
    | failed err _ => exact fails err
    | opened own err png opened =>
      refine .ite (fun failed => absurd err failed) fun _ =>
        (captures_yields obeys opened n).bind fun _ u ⟨opened',shows⟩ => ?_
      have before : Served sys yuvToRgb t := fun q mine => nomatch png.symm.trans mine
      have after : own = none → _ := fun streams => shows streams before fun zero => absurd zero (by decide)
      exact .pure fun _ => opened'.sends (fun streams => (after streams).1) fun streams => (after streams).2

theorem filming_sends_webcam : OneBuffer webcam ∧
    Yields (filming webcam (fun y cr cb => (y,cr,cb)) ⟨camFlagFmt,0,.yuyv_320_240⟩ 2) unplugged
      fun r t => r.1 = 0 → Sends webcam (fun y cr cb => (y,cr,cb)) r.2 t :=
  ⟨webcam_oneBuffer,filming_sends webcam_obeys webcam_adopts unplugged_bare _ 2⟩

end Bano.Camera
