import Bano.Pictures

/-! A camera from its opening to its closing, whatever is captured between: what it
holds is what its handle names, and what it shows is a frame. -/
namespace Bano.Camera

open Lib

variable {δ : Type} {held : δ → Nat → Prop} {size : δ → Nat} {sys : Outside δ} {yuvToRgb : YuvToRgb}

theorem store_yields {s : State δ} (cell : s.mem.cell p = some block) (room : off + values.length ≤ block.length) :
    Yields (store p off values) s fun _ t => ∃ block', block'.length = block.length ∧
      t = { s with mem := s.mem.modify p fun _ => block' } := by
  have stored := store_eq room
  exact .attempt (a := ()) (by simp [cell,stored]) ⟨_,store_length stored,rfl⟩

theorem freeMem_yields {s : State δ} (freed : s.mem.free p = some mem) :
    Yields (freeMem p) s fun _ t => t = { s with mem := mem } := .attempt (a := ()) (by simp [freed]) rfl

theorem load_yields {s : State δ} (cell : s.mem.cell p = some block) :
    Yields (load p) s fun data t => data = block ∧ t = s := .attempt (by simp [cell]) ⟨rfl,rfl⟩

theorem closeFd_yields {s : State δ} (fd : s.cam.fd = some p) (freed : s.fds.free p = some fds) :
    Yields (closeFd sys) s fun _ t => t = { s with fds := fds, out := sys.close s.out } :=
  .attempt (a := ()) (by simp [fd,freed]) rfl

/-- The picture has the place that a frame of the format needs. -/
structure Ready (s : State δ) : Prop where
  fmt : ∃ c, expandFormat s.cam.fmt = some (c,s.cam.bmp.width,s.cam.bmp.height)
  bmp : ∃ block, s.mem.cell s.cam.bmp.memBuf = some block ∧
    block.length = fileHeaderSize + bmpDataSize s.cam.bmp.width s.cam.bmp.height

theorem Ready.kept {s t : State δ} (ready : Ready s) (kept : Kept s t) : Ready t := by
  obtain ⟨_,_,_,_,_,_,rfl⟩ := kept.parts
  exact ⟨ready.fmt,ready.bmp⟩

/-- The driver has the one buffer that it is asked for, and hands out no other. -/
def OneBuffer (sys : Outside δ) : Prop := ∀ d i, (sys.dqBuf d).1 = some i → i = 0

/-- The bytes of the first buffer as they were when a frame was handed
out: those of the frame, where there is one buffer. -/
structure Shot.Gives (sys : Outside δ) (shot : Shot) (data : List UInt8) : Prop where
  bytes : data = (List.range data.length).map (shot.memory 0)
  own : OneBuffer sys → data = (List.range data.length).map (shot.memory shot.index)

theorem transFrame_yields {s : State δ} (ready : Ready s)
    (enough : (formatToFrameSize s.cam.fmt).toNat ≤ data.length) :
    Yields (transFrame yuvToRgb data) s fun _ t => ∃ block,
      block.length = fileHeaderSize + bmpDataSize s.cam.bmp.width s.cam.bmp.height ∧
      Shows yuvToRgb s.cam.fmt data (block.drop fileHeaderSize) ∧
      t = { s with mem := s.mem.modify s.cam.bmp.memBuf fun _ => block } := by
  obtain ⟨c,found⟩ := ready.fmt
  obtain ⟨block,cell,whole⟩ := ready.bmp
  obtain ⟨drawn,converted,draws⟩ : ∃ drawn, convert yuvToRgb _ _ _ data = _ ∧ _ := convert_draws found enough
  obtain ⟨block',painted,length,shows⟩ := paint_shows found draws whole
  refine ⟨(),_,?_,block',length.trans whole,shows,rfl⟩
  simp [transFrame,converted,cell,painted]

/-- What a capture does to a stream: it may fail, or it paints a frame. -/
structure Filmed (held : δ → Nat → Prop) (size : δ → Nat) (sys : Outside δ) (yuvToRgb : YuvToRgb)
    (s : State δ) (err : Int)
    (t : State δ) : Prop where
  stream : ∃ ps, Streaming held size t ps
  size : size t.out = size s.out
  picture : err ≠ 0 ∧ Kept s t ∨ ∃ block data,
    Kept { s with mem := s.mem.modify s.cam.bmp.memBuf fun _ => block } t ∧
    block.length = fileHeaderSize + bmpDataSize s.cam.bmp.width s.cam.bmp.height ∧
    Shows yuvToRgb s.cam.fmt data (block.drop fileHeaderSize) ∧ ∃ shot, t.shots.getLast? = some shot ∧
      shot.Gives sys data

theorem Filmed.after {s t u : State δ} (kept : Kept s t) (same : size t.out = size s.out)
    (filmed : Filmed held size sys yuvToRgb t err u) : Filmed held size sys yuvToRgb s err u := by
  refine ⟨filmed.stream,filmed.size.trans same,?_⟩
  rcases filmed.picture with ⟨failed,later⟩ | ⟨block,data,later,length,shows,shot⟩
  · exact .inl ⟨failed,kept.trans later⟩
  · have grown := kept.shots
    obtain ⟨_,_,_,_,_,_,rfl⟩ := kept.parts
    refine .inr ⟨block,data,Kept.trans ?_ later,length,shows,shot⟩
    exact ⟨rfl,grown⟩

theorem redoCap_yields {s : State δ} (obeys : Obeys held size sys)
    (streaming : Streaming held size s ps) (ready : Ready s)
    (sized : size s.out = (formatToFrameSize s.cam.fmt).toNat) (left : Nat) :
    Yields (redoCap sys yuvToRgb left) s (Filmed held size sys yuvToRgb s) := by
  induction left generalizing s ps with
  | zero =>
    apply (dequeue_yields obeys streaming).bind
    rintro found t ⟨kept,same,ps',streaming',dequeued⟩
    cases found with
    | none => exact .pure ⟨⟨ps',streaming'⟩,same,.inl ⟨by decide,kept⟩⟩
    | some i =>
      obtain ⟨known,⟨d,found⟩,last⟩ := dequeued i rfl
      have format : t.cam.fmt = s.cam.fmt := by obtain ⟨_,_,_,_,_,_,rfl⟩ := kept.parts; rfl
      apply (frame_yields streaming' known).bind
      rintro data u ⟨rfl,enough,bytes⟩
      have whole : (formatToFrameSize u.cam.fmt).toNat ≤ data.length := by rw [format,← sized,← same]; exact enough
      apply (transFrame_yields (ready.kept kept) whole).bind
      rintro _ v ⟨block,length,shows,painted⟩
      subst painted
      have filmed (err : Int) : Filmed held size sys yuvToRgb u err
          { u with mem := u.mem.modify u.cam.bmp.memBuf fun _ => block, out := (sys.qBuf i u.out).2 } :=
        ⟨⟨ps',(streaming'.queue obeys known).remembered _⟩,obeys.qBuf_size i u.out,
          .inr ⟨block,data,⟨rfl,List.prefix_refl _⟩,length,shows,_,last,bytes,
            fun one => by rw [one d i found]; exact bytes⟩⟩
      exact yields_ask (.ite (fun _ => .pure ((filmed (-1)).after kept same))
        fun _ => .pure ((filmed 0).after kept same))
  | succ left ih =>
    apply (dequeue_yields obeys streaming).bind
    rintro found t ⟨kept,same,ps',streaming',dequeued⟩
    cases found with
    | none => exact .pure ⟨⟨ps',streaming'⟩,same,.inl ⟨by decide,kept⟩⟩
    | some i =>
      have queued := streaming'.queue obeys (dequeued i rfl).1
      have kept' := kept.trans (kept_asked t (sys.qBuf i t.out).2)
      have same' := (obeys.qBuf_size i t.out).trans same
      have sized' : size (sys.qBuf i t.out).2 = (formatToFrameSize t.cam.fmt).toNat := by
        rw [same',sized]
        obtain ⟨_,_,_,_,_,_,rfl⟩ := kept.parts
        rfl
      exact yields_ask ((ih queued (ready.kept kept') sized').mono fun err u filmed => filmed.after kept' same')

/-- An open camera that is no dummy: `own` is the buffer that frames are read into where they are not streamed. -/
structure Opened (held : δ → Nat → Prop) (size : δ → Nat) (s : State δ) (own : Option Ptr) :
    Prop extends Ready s where
  real : s.cam.isDummy = false
  fd : ∃ p, s.cam.fd = some p ∧ s.fds.Exactly [p]
  mem : s.mem.Exactly (s.cam.bmp.memBuf :: (own.toList ++ s.cam.pngBuf.toList))
  streams : own = none → s.cam.isMmapEnabled = true ∧ (∃ ps, Streaming held size s ps) ∧
    size s.out = (formatToFrameSize s.cam.fmt).toNat
  reads : ∀ p, own = some p → s.cam.isMmapEnabled = false ∧
    s.cam.fb0 = ⟨.owned p,(formatToFrameSize s.cam.fmt).toNat⟩ ∧
    s.cam.fbCount = 1 ∧ s.maps.Exactly [] ∧
    ∃ block, s.mem.cell p = some block ∧ block.length = (formatToFrameSize s.cam.fmt).toNat
  png : ∀ p, s.cam.pngBuf = some p → ∃ png, s.mem.cell p = some png ∧ png.length = s.cam.pngSize

/-- The png of a picture that shows a frame. -/
def Renders (sys : Outside δ) (yuvToRgb : YuvToRgb) (cam : Handle) (shot : Shot) (png : List UInt8) : Prop :=
  ∃ picture data d, (sys.encode24 picture cam.bmp.width cam.bmp.height d).1 = some png ∧
    Shows yuvToRgb cam.fmt data picture ∧
    shot.Gives sys data

/-- What the png, if there is one, was encoded from: a picture that shows a frame. -/
def Served (sys : Outside δ) (yuvToRgb : YuvToRgb) (s : State δ) : Prop :=
  ∀ p, s.cam.pngBuf = some p → ∃ png, s.mem.cell p = some png ∧ ∃ shot ∈ s.shots,
    Renders sys yuvToRgb s.cam shot png

/-- There is a png, and it shows the last frame. -/
def ShowsLast (sys : Outside δ) (yuvToRgb : YuvToRgb) (s : State δ) : Prop :=
  ∃ p png shot, s.cam.pngBuf = some p ∧ s.mem.cell p = some png ∧ s.shots.getLast? = some shot ∧
    Renders sys yuvToRgb s.cam shot png

theorem ShowsLast.served {s : State δ} (last : ShowsLast sys yuvToRgb s) : Served sys yuvToRgb s := by
  obtain ⟨p,png,shot,mine,cell,latest,renders⟩ := last
  intro q mine'
  obtain rfl := Option.some.inj (mine.symm.trans mine')
  exact ⟨png,cell,shot,List.mem_of_getLast? latest,renders⟩

theorem modify_length {mem : Heap (List UInt8)} (cell : mem.cell p = some block) (same : block'.length = block.length)
    (other : ∃ b, mem.cell q = some b ∧ b.length = n) : ∃ b, (mem.modify p fun _ => block').cell q = some b ∧
    b.length = n := by
  obtain ⟨b,live,length⟩ := other
  by_cases here : q = p
  · subst here
    obtain rfl := Option.some.inj (cell.symm.trans live)
    exact ⟨block',by simp [live],same.trans length⟩
  · exact ⟨b,by rw [Heap.modify_cell_other here,live],length⟩

/-- A block that keeps its length is written. -/
theorem Opened.modify {s : State δ} (opened : Opened held size s own) (cell : s.mem.cell p = some block)
    (same : block'.length = block.length) :
    Opened held size { s with mem := s.mem.modify p fun _ => block' } own := by
  refine ⟨⟨opened.fmt,modify_length cell same opened.bmp⟩,opened.real,opened.fd,opened.mem.modify p _,
    fun none => ?_,fun q mine => ?_,
    fun q mine => modify_length cell same (opened.png q mine)⟩
  · obtain ⟨enabled,⟨ps,streaming⟩,sized⟩ := opened.streams none
    exact ⟨enabled,⟨ps,streaming.remembered _⟩,sized⟩
  · obtain ⟨disabled,fb,count,maps,buffer⟩ := opened.reads q mine
    exact ⟨disabled,fb,count,maps,modify_length cell same buffer⟩

/-- The kernel is asked by a camera that reads. -/
theorem Opened.asked {s : State δ} (opened : Opened held size s (some p)) (out : δ) :
    Opened held size { s with out := out } (some p) :=
  ⟨⟨opened.fmt,opened.bmp⟩,opened.real,opened.fd,opened.mem,fun none => (nomatch none),opened.reads,opened.png⟩

theorem Opened.kept {s t : State δ} (opened : Opened held size s none) (kept : Kept s t)
    (stream : ∃ ps, Streaming held size t ps)
    (same : size t.out = size s.out) : Opened held size t none := by
  obtain ⟨enabled,_,sized⟩ := opened.streams rfl
  obtain ⟨_,_,_,_,_,_,rfl⟩ := kept.parts
  exact ⟨⟨opened.fmt,opened.bmp⟩,opened.real,opened.fd,opened.mem,fun _ => ⟨enabled,stream,same.trans sized⟩,
    fun _ mine => (nomatch mine),opened.png⟩

theorem captureMmapDisabled_yields {s : State δ} (obeys : Obeys held size sys)
    (opened : Opened held size s (some p)) :
    Yields (captureMmapDisabled sys yuvToRgb) s fun _ t => Opened held size t (some p) := by
  obtain ⟨_,fb,_⟩ := opened.reads p rfl
  apply yields_ask
  have asked := opened.asked (sys.select s.out).2
  cases (sys.select s.out).1 with
  | failed => exact .pure asked
  | interrupted => exact .pure asked
  | timeout => exact .pure asked
  | ready =>
    apply yields_getCam
    simp only [fb]
    apply yields_ask
    have read := asked.asked (sys.read (formatToFrameSize s.cam.fmt).toNat (sys.select s.out).2).2
    cases answer : (sys.read (formatToFrameSize s.cam.fmt).toNat (sys.select s.out).2).1 with
    | none => exact .pure read
    | some bytes =>
      obtain ⟨_,_,_,_,block,cell,length⟩ := read.reads p rfl
      have room : 0 + bytes.length ≤ block.length := by
        rw [Nat.zero_add,length]
        exact obeys.read_length _ _ _ answer
      apply (store_yields cell room).bind
      rintro _ t ⟨block',same,stored⟩
      subst stored
      have stored := read.modify cell same
      refine .ite (fun _ => .pure stored) fun _ => ?_
      have changed := (Heap.modify_cell_same _ p fun _ => block').trans (congrArg (Option.map fun _ => block') cell)
      apply (load_yields changed).bind
      rintro data u ⟨same',unchanged⟩
      subst same' unchanged
      apply (transFrame_yields stored.toReady (by rw [same,length])).bind
      rintro _ v ⟨picture,whole,_,painted⟩
      subst painted
      obtain ⟨block'',cell',whole'⟩ := stored.bmp
      exact .pure (stored.modify cell' (whole.trans whole'.symm))

/-- The old png is released. -/
theorem releasePng_yields {s : State δ} (opened : Opened held size s own) :
    Yields releasePng s fun _ t => ∃ mem, t = { s with mem := mem } ∧ mem.Exactly (s.cam.bmp.memBuf :: own.toList) ∧
        ∀ q ∈ s.cam.bmp.memBuf :: own.toList, mem.cell q = s.mem.cell q := by
  have mem := opened.mem
  apply yields_getCam
  cases png : s.cam.pngBuf with
  | none =>
    rw [png,Option.toList_none,List.append_nil] at mem
    exact .pure ⟨s.mem,rfl,mem,fun _ _ => rfl⟩
  | some p =>
    rw [png,Option.toList_some,← List.cons_append] at mem
    have first := mem.perm (List.perm_append_singleton p _)
    obtain ⟨freed,rest⟩ := first.free
    refine (freeMem_yields freed).mono fun _ t same => ⟨_,same,rest,fun q member => Heap.erase_cell_other ?_ _⟩
    rintro rfl
    exact (List.nodup_cons.mp first.apart).1 member

/-- Another png, or none. -/
theorem Opened.renew {s : State δ} {png : Option Ptr} {heap : Heap (List UInt8)} {α : Type} {f : δ → α × δ}
    (opened : Opened held size s own) (live : heap.Exactly (s.cam.bmp.memBuf :: (own.toList ++ png.toList)))
    (cells : ∀ q ∈ s.cam.bmp.memBuf :: own.toList, heap.cell q = s.mem.cell q) (calm : Calm held size f)
    (encoded : ∀ p, png = some p → ∃ b, heap.cell p = some b ∧ b.length = n) :
    Opened held size { s with cam := { s.cam with pngBuf := png, pngSize := n }, mem := heap, out := (f s.out).2 }
      own := by
  have bmp := cells _ List.mem_cons_self
  refine ⟨⟨opened.fmt,bmp ▸ opened.bmp⟩,opened.real,opened.fd,live,fun none => ?_,fun q mine => ?_,encoded⟩
  · obtain ⟨enabled,⟨ps,streaming⟩,sized⟩ := opened.streams none
    have kept := (streaming.calm calm).remembered heap
    exact ⟨enabled,⟨ps,⟨kept.mapped.fb,kept.mapped.length,kept.mapped.live⟩,kept.count,kept.few,
      kept.held,kept.room⟩,
      (calm.size s.out).trans sized⟩
  · obtain ⟨disabled,fb,count,maps,buffer⟩ := opened.reads q mine
    have same := cells q (by simp [mine])
    exact ⟨disabled,fb,count,maps,same ▸ buffer⟩

/-- The picture is encoded, or there is no png any more. -/
theorem encodePng_yields {s : State δ} (yuvToRgb : YuvToRgb) (obeys : Obeys held size sys)
    (opened : Opened held size s own)
    (cell : s.mem.cell s.cam.bmp.memBuf = some block) : Yields (encodePng sys) s fun err t => Opened held size t own ∧
      ∀ data shot, Shows yuvToRgb s.cam.fmt data (block.drop fileHeaderSize) → s.shots.getLast? = some shot →
        shot.Gives sys data →
        Served sys yuvToRgb t ∧ (err = 0 → ShowsLast sys yuvToRgb t) := by
  refine yields_getCam ((releasePng_yields opened).bind fun _ t ⟨mem,released,live,cells⟩ => ?_)
  subst released
  apply (load_yields ((cells _ List.mem_cons_self).trans cell)).bind
  rintro bmp u ⟨same,unchanged⟩
  subst same unchanged
  apply yields_ask
  have calm := obeys.encode24 (bmp.drop fileHeaderSize) s.cam.bmp.width s.cam.bmp.height
  cases encoded : (sys.encode24 (bmp.drop fileHeaderSize) s.cam.bmp.width s.cam.bmp.height s.out).1 with
  | none =>
    refine yields_modifyCam (.pure ⟨opened.renew (by simpa using live)
      cells calm fun _ png => (nomatch png),fun _ _ _ _ _ => ?_⟩)
    exact ⟨fun _ png => (nomatch png),fun zero => absurd zero (by decide)⟩
  | some png =>
    have more : (mem.alloc png).Exactly (s.cam.bmp.memBuf :: (own.toList ++ (some mem.next).toList)) :=
      (live.alloc png).perm (List.perm_append_singleton mem.next (s.cam.bmp.memBuf :: own.toList)).symm
    have cells' : ∀ q ∈ s.cam.bmp.memBuf :: own.toList, (mem.alloc png).cell q = s.mem.cell q := by
      intro q member
      rw [← cells q member]
      obtain ⟨b,known⟩ := (live.live q).mpr member
      exact (Heap.alloc_cell_live known png).trans known.symm
    refine yields_alloc (yields_modifyCam
      (.pure ⟨opened.renew more cells' calm fun p mine => ?_,fun data shot shows last gives => ?_⟩))
    · obtain rfl := Option.some.inj mine
      exact ⟨png,Heap.alloc_cell_next mem png,rfl⟩
    · have latest :
        ShowsLast sys yuvToRgb (State.mk { s.cam with pngBuf := some mem.next, pngSize := png.length } s.fds s.maps
          (mem.alloc png) (sys.encode24 (bmp.drop fileHeaderSize) s.cam.bmp.width s.cam.bmp.height
            s.out).2 s.shots) :=
        ⟨mem.next,png,shot,rfl,Heap.alloc_cell_next mem png,last,_,data,s.out,encoded,shows,gives⟩
      exact ⟨latest.served,fun _ => latest⟩

theorem captureMmapEnabled_yields {s : State δ} (obeys : Obeys held size sys) (opened : Opened held size s none) :
    Yields (captureMmapEnabled sys yuvToRgb) s (Filmed held size sys yuvToRgb s) := by
  obtain ⟨_,⟨ps,streaming⟩,sized⟩ := opened.streams rfl
  exact redoCap_yields obeys streaming opened.toReady sized 1

/-- Whatever the kernel answers, a capture leaves an open camera; where frames are streamed, its
png comes from one of them, and from the last one if the capture succeeds. -/
theorem banoCamCapture_yields {s : State δ} (obeys : Obeys held size sys) (opened : Opened held size s own) :
    Yields (banoCamCapture sys yuvToRgb) s fun err t => Opened held size t own ∧
      (own = none → Served sys yuvToRgb s → Served sys yuvToRgb t ∧ (err = 0 → ShowsLast sys yuvToRgb t)) := by
  refine yields_getCam (.ite (fun dummy => by simp [opened.real] at dummy) fun _ => ?_)
  cases own with
  | some p =>
    rw [(opened.reads p rfl).1,if_neg (by decide)]
    apply (captureMmapDisabled_yields obeys opened).bind
    intro err t after
    refine .ite (fun _ => ?_) fun _ => .pure ⟨after,fun none => (nomatch none)⟩
    obtain ⟨block,cell,_⟩ := after.bmp
    exact (encodePng_yields yuvToRgb obeys after cell).mono fun _ u holds => ⟨holds.1,fun none => nomatch none⟩
  | none =>
    rw [(opened.streams rfl).1,if_pos rfl]
    apply (captureMmapEnabled_yields obeys opened).bind
    intro err t filmed
    rcases filmed.picture with ⟨failed,kept⟩ | ⟨block,data,kept,length,shows,shot,last,gives⟩
    · refine .ite (fun none => absurd none failed) fun _ => ?_
      refine .pure ⟨opened.kept kept filmed.stream filmed.size,fun _ served => ⟨?_,fun zero => absurd zero failed⟩⟩
      have grown := kept.shots
      obtain ⟨_,_,_,_,_,_,rfl⟩ := kept.parts
      intro p mine
      obtain ⟨png,cell,shot,known,renders⟩ := served p mine
      exact ⟨png,cell,shot,grown.subset known,renders⟩
    · obtain ⟨block',cell,whole⟩ := opened.bmp
      have painted := opened.modify cell (length.trans whole.symm)
      have after := painted.kept kept filmed.stream filmed.size
      have grown := kept.shots
      obtain ⟨_,_,_,_,_,_,rfl⟩ := kept.parts
      have now := (Heap.modify_cell_same _ _ fun _ => block).trans (congrArg (Option.map fun _ => block) cell)
      refine .ite (fun _ => ?_) fun failed => .pure ⟨after,fun _ served => ⟨?_,fun zero => absurd zero failed⟩⟩
      · exact (encodePng_yields yuvToRgb obeys after now).mono fun _ u holds =>
          ⟨holds.1,fun _ _ => holds.2 data shot shows last gives⟩
      · intro p mine
        obtain ⟨png,cell',shot',known,renders⟩ := served p mine
        have apart : p ≠ s.cam.bmp.memBuf := by
          rintro rfl
          exact (List.nodup_cons.mp opened.mem.apart).1
            (by simp [show s.cam.pngBuf = some s.cam.bmp.memBuf from mine])
        exact ⟨png,(Heap.modify_cell_other apart _ _).trans cell',shot',grown.subset known,renders⟩

/-- Nothing is open, mapped or allocated. -/
structure Bare (s : State δ) : Prop where
  fds : s.fds.Exactly []
  maps : s.maps.Exactly []
  mem : s.mem.Exactly []

theorem banoBmpClose_yields {s : State δ} (mem : s.mem.Exactly (s.cam.bmp.memBuf :: rest)) :
    Yields banoBmpClose s fun _ t => ∃ heap, t = { s with mem := heap } ∧ heap.Exactly rest := by
  obtain ⟨freed,live⟩ := mem.free
  exact yields_getCam ((freeMem_yields freed).mono fun _ t same => ⟨_,same,live⟩)

/-- The bmp of a camera, with its place for the picture. -/
theorem banoBmpOpen_yields {s : State δ} (obeys : Obeys held size sys) (mem : s.mem.Exactly []) (w h : U32) :
    Yields (banoBmpOpen sys w h) s fun err t =>
      t = { s with cam := { s.cam with bmp := t.cam.bmp }, mem := t.mem, out := t.out } ∧
      if err = 0 then t.cam.bmp.width = w ∧ t.cam.bmp.height = h ∧ t.mem.Exactly [t.cam.bmp.memBuf] ∧
        ∃ block, t.mem.cell t.cam.bmp.memBuf = some block ∧ block.length = fileHeaderSize + bmpDataSize w h
      else t.mem.Exactly [] ∧ ∃ n d, (sys.malloc n d).1 = none := by
  apply yields_ask
  cases block : (sys.malloc (fileHeaderSize + bmpDataSize w h) s.out).1 with
  | none => exact .pure ⟨rfl,mem,_,s.out,block⟩
  | some block' =>
    have length := obeys.block _ _ _ block
    have header : (fileHeader bmpBpp w.toNat h.toNat (bmpDataSize w h)).length = fileHeaderSize := rfl
    refine yields_alloc (yields_modifyCam ?_)
    apply (store_yields (Heap.alloc_cell_next s.mem block') (by rw [header,length]; omega)).bind
    rintro _ t ⟨written,same,stored⟩
    subst stored
    refine .pure ⟨rfl,rfl,rfl,(mem.alloc block').modify _ _,written,?_,same.trans length⟩
    exact (Heap.modify_cell_same _ _ _).trans (congrArg _ (Heap.alloc_cell_next s.mem block'))

/-- A device that is open, before its frames are arranged for. -/
structure Begun (held : δ → Nat → Prop) (s : State δ) : Prop extends Ready s where
  real : s.cam.isDummy = false
  fd : ∃ p, s.cam.fd = some p ∧ s.fds.Exactly [p]
  mem : s.mem.Exactly [s.cam.bmp.memBuf]
  png : s.cam.pngBuf = none
  maps : s.maps.Exactly []
  count : s.cam.fbCount = 0
  held : ∀ i, ¬held s.out i

theorem giveUp_yields {s : State δ} (fd : ∃ p, s.cam.fd = some p ∧ s.fds.Exactly [p])
    (mem : s.mem.Exactly [s.cam.bmp.memBuf]) :
    Yields (giveUp sys) s fun err t => err = -1 ∧ t.fds.Exactly [] ∧ t.mem.Exactly [] ∧ t.maps = s.maps ∧
    t.cam = s.cam := by
  obtain ⟨p,fd,live⟩ := fd
  obtain ⟨freed,closed⟩ := live.free
  apply (closeFd_yields fd freed).bind
  intro _ t same
  subst same
  have closes := banoBmpClose_yields (s := { s with fds := s.fds.erase p, out := sys.close s.out }) mem
  apply closes.bind
  rintro _ u ⟨heap,same,empty⟩
  subst same
  exact .pure ⟨rfl,closed,empty,rfl,rfl⟩

theorem Begun.streams {s t : State δ} (begun : Begun held s) (enabled : s.cam.isMmapEnabled = true) (kept : Kept s t)
    (streaming : Streaming held size t ps) (sized : size t.out = (formatToFrameSize s.cam.fmt).toNat) :
    Opened held size t none := by
  have mem := begun.mem
  have png := begun.png
  obtain ⟨_,_,_,_,_,_,rfl⟩ := kept.parts
  exact ⟨⟨begun.fmt,begun.bmp⟩,begun.real,begun.fd,by simpa [png] using mem,
    fun _ => ⟨enabled,⟨ps,streaming⟩,sized⟩,
    fun _ mine => (nomatch mine),fun p mine => nomatch png.symm.trans mine⟩

theorem startMmapDisabled_yields {s : State δ} (obeys : Obeys held size sys) (begun : Begun held s)
    (disabled : s.cam.isMmapEnabled = false) : Yields (startMmapDisabled sys) s fun err t =>
      if err = 0 then t.cam.pngBuf = none ∧ ∃ p, Opened held size t (some p)
      else t = { s with cam := { s.cam with fb0 := t.cam.fb0 }, out := t.out } := by
  refine yields_getCam (yields_modifyCam (.ite (fun _ => .pure rfl) fun _ => yields_ask ?_))
  cases block : (sys.malloc (formatToFrameSize s.cam.fmt).toNat s.out).1 with
  | none => exact .pure rfl
  | some block' =>
    have length := obeys.block _ _ _ block
    obtain ⟨picture,cell,whole⟩ := begun.bmp
    have live := (begun.mem.alloc block').perm (List.Perm.swap s.cam.bmp.memBuf s.mem.next [])
    have mem : (s.mem.alloc block').Exactly
        (s.cam.bmp.memBuf :: ((some s.mem.next).toList ++ s.cam.pngBuf.toList)) := by
      rw [begun.png]
      exact live
    refine yields_alloc (yields_modifyCam (.pure ⟨begun.png,s.mem.next,?_⟩))
    refine ⟨⟨begun.fmt,picture,Heap.alloc_cell_live cell block',whole⟩,begun.real,begun.fd,mem,
      fun none => (nomatch none),?_,
      fun p mine => nomatch begun.png.symm.trans mine⟩
    rintro p mine
    obtain rfl := Option.some.inj mine
    exact ⟨disabled,rfl,rfl,begun.maps,block',Heap.alloc_cell_next s.mem block',length⟩

/-- What is still mapped when bano_cam_open has failed: the frame buffers that it has counted. -/
structure Failed (t : State δ) : Prop where
  fds : t.fds.Exactly []
  mem : t.mem.Exactly []
  maps : ∃ ps, t.maps.Exactly ps ∧ (ps = [] ∨ ps.length = t.cam.fbCount)

/-- What comes of a device that could be opened. -/
inductive Arranged (held : δ → Nat → Prop) (size : δ → Nat) (err : Int) (t : State δ) : Prop where
  | failed : err = -1 → Failed t → Arranged held size err t
  | opened (own : Option Ptr) : err = 0 → t.cam.pngBuf = none → Opened held size t own → Arranged held size err t

theorem setFormat_yields {s : State δ} (obeys : Obeys held size sys) (fourcc : Fourcc) (w h : U32)
    (held' : ∀ i, ¬held s.out i) :
    Yields (setFormat sys fourcc w h) s fun err t => t = { s with out := t.out } ∧ (∀ i, ¬held t.out i) ∧
      (err = 0 → ∃ d, (sys.setFmt fourcc w h d).1 = true ∧ t.out = (sys.setFmt fourcc w h d).2) := by
  have asked : ∀ i, ¬held (sys.getFmt s.out).2 i := fun i kept => held' i (obeys.getFmt.held _ i kept)
  refine yields_ask (.ite (fun _ => .pure ⟨rfl,asked,fun zero => absurd zero (by decide)⟩) fun _ => yields_ask ?_)
  have set : ∀ i, ¬held (sys.setFmt fourcc w h (sys.getFmt s.out).2).2 i := fun i kept =>
    asked i (obeys.setFmt _ _ _ _ i kept)
  refine .ite (fun _ => .pure ⟨rfl,set,fun zero => absurd zero (by decide)⟩) fun taken =>
    .pure ⟨rfl,set,fun _ => ⟨_,?_,rfl⟩⟩
  simpa using taken

/-- The stream of a device is started, or frames are to be read from it. -/
theorem begin_yields {s : State δ} {streaming : Bool} (obeys : Obeys held size sys) (begun : Begun held s)
    (sized : size s.out = (formatToFrameSize s.cam.fmt).toNat) (enabled : s.cam.isMmapEnabled = streaming) :
    Yields (do
      let err ← if streaming then startMmapEnabled sys else startMmapDisabled sys
      if err ≠ 0 then giveUp sys else pure 0) s (Arranged held size) := by
  cases streaming with
  | true =>
    have streaming : Streaming held size s [] :=
      ⟨.none begun.maps 0,begun.count,by decide,fun i kept => (begun.held i kept).elim,by simp⟩
    refine (startMmapEnabled_yields obeys streaming).bind fun err t ⟨kept,same,ps,started⟩ =>
      .ite (fun _ => ?_) fun _ => ?_
    · have fd := begun.fd
      have mem := begun.mem
      have rest : Yields (giveUp sys) t _ := giveUp_yields (by obtain ⟨_,_,_,_,_,_,rfl⟩ := kept.parts; exact fd)
        (by obtain ⟨_,_,_,_,_,_,rfl⟩ := kept.parts; exact mem)
      refine rest.mono fun err u ⟨failed,fds,mem,maps,cam⟩ => .failed failed ⟨fds,mem,ps.map Prod.fst,?_,.inr ?_⟩
      · rw [maps]
        exact started.mapped.live
      · rw [cam,started.count,List.length_map]
    · refine .pure (.opened none rfl ?_ (begun.streams enabled kept started (same.trans sized)))
      have png := begun.png
      obtain ⟨_,_,_,_,_,_,rfl⟩ := kept.parts
      exact png
  | false =>
    refine (startMmapDisabled_yields obeys begun enabled).bind fun err t started =>
      .ite (fun failed => ?_) fun fine => ?_
    · rw [if_neg failed] at started
      have fd := begun.fd
      have mem := begun.mem
      have maps := begun.maps
      have rest : Yields (giveUp sys) t _ := giveUp_yields (by rw [started]; exact fd) (by rw [started]; exact mem)
      refine rest.mono fun err u ⟨failed,fds,mem,same,_⟩ => .failed failed ⟨fds,mem,[],?_,.inl rfl⟩
      rw [same,started]
      exact maps
    · rw [if_pos (not_not.mp fine)] at started
      obtain ⟨png,p,opened⟩ := started
      exact .pure (.opened (some p) rfl png opened)

theorem giveUp_arranged {s : State δ} (fd : ∃ p, s.cam.fd = some p ∧ s.fds.Exactly [p])
    (mem : s.mem.Exactly [s.cam.bmp.memBuf])
    (maps : s.maps.Exactly []) : Yields (giveUp sys) s (Arranged held size) :=
  (giveUp_yields fd mem).mono fun _ _ ⟨failed,fds,empty,same,_⟩ =>
    .failed failed ⟨fds,empty,[],same ▸ maps,.inl rfl⟩

theorem arrange_yields {s : State δ} (obeys : Obeys held size sys) (adopts : Adopts size sys)
    (found : expandFormat fmt = some (c,s.cam.bmp.width,s.cam.bmp.height)) (real : s.cam.isDummy = false)
    (fd : ∃ p, s.cam.fd = some p ∧ s.fds.Exactly [p]) (mem : s.mem.Exactly [s.cam.bmp.memBuf])
    (png : s.cam.pngBuf = none)
    (maps : s.maps.Exactly []) (bmp : ∃ block, s.mem.cell s.cam.bmp.memBuf = some block ∧
      block.length = fileHeaderSize + bmpDataSize s.cam.bmp.width s.cam.bmp.height) (held' : ∀ i, ¬held s.out i) :
    Yields (arrange sys fmt c s.cam.bmp.width s.cam.bmp.height) s (Arranged held size) := by
  apply yields_ask
  have asked : ∀ i, ¬held (sys.queryCap s.out).2 i := fun i kept => held' i (obeys.queryCap.held _ i kept)
  cases (sys.queryCap s.out).1 with
  | none => exact giveUp_arranged fd mem maps
  | some cap =>
    refine .ite (fun _ => giveUp_arranged fd mem maps) fun _ => yields_modifyCam ?_
    have sets := setFormat_yields (s := { s with
      cam := { s.cam with fmt := fmt, isMmapEnabled := false, fbCount := 0 }
      out := (sys.queryCap s.out).2 }) obeys c s.cam.bmp.width s.cam.bmp.height asked
    refine sets.bind fun err t ⟨same,held'',set⟩ => .ite (fun _ => ?_) fun fine => yields_modifyCam ?_
    · rw [same]
      exact giveUp_arranged fd mem maps
    · obtain ⟨d,taken,out⟩ := set (not_not.mp fine)
      have sized : size t.out = (formatToFrameSize fmt).toNat := out ▸ adopts fmt c _ _ d found taken
      generalize t.out = o at same held'' sized
      subst same
      exact begin_yields obeys ⟨⟨⟨c,found⟩,bmp⟩,real,fd,mem,png,maps,rfl,held''⟩ sized rfl

/-- A device is asked for, and not a dummy. -/
def Asks (info : BanoCamInfo) : Prop := info.fmt ≠ .invalid ∧ info.flags &&& camFlagDummy = 0

inductive OpenResult (held : δ → Nat → Prop) (size : δ → Nat) (sys : Outside δ) (info : BanoCamInfo)
    (err : Int) (t : State δ) : Prop where
  | refused : err = -1 → Failed t → info.fmt = .invalid ∨ (∃ n d, (sys.malloc n d).1 = none) →
      OpenResult held size sys info err t
  | dummy : err = 0 → info.fmt ≠ .invalid → info.flags &&& camFlagDummy ≠ 0 → t.cam.isDummy = true →
      t.cam.pngBuf = none →
      t.fds.Exactly [] → t.maps.Exactly [] → t.mem.Exactly [t.cam.bmp.memBuf] → OpenResult held size sys info err t
  | arranged : Asks info → Arranged held size err t → OpenResult held size sys info err t

theorem banoCamOpen_yields {s : State δ} (obeys : Obeys held size sys) (adopts : Adopts size sys) (bare : Bare s)
    (info : BanoCamInfo) : Yields (banoCamOpen sys info) s (OpenResult held size sys info) := by
  apply yields_modifyCam
  cases found : expandFormat info.fmt with
  | none =>
    have invalid : info.fmt = .invalid := by
      cases fmt : info.fmt with
      | invalid => rfl
      | _ => simp [fmt,expandFormat] at found
    exact .pure (.refused rfl ⟨bare.fds,bare.mem,[],bare.maps,.inl rfl⟩ (.inl invalid))
  | some f =>
    obtain ⟨c,w,h⟩ := f
    have valid : info.fmt ≠ .invalid := fun invalid => by simp [invalid,expandFormat] at found
    have starts :=
      banoBmpOpen_yields (s := { s with cam := { s.cam with pngBuf := none, pngSize := 0 } }) obeys bare.mem w h
    apply starts.bind
    rintro err t ⟨same,holds⟩
    have fds : t.fds.Exactly [] := by rw [same]; exact bare.fds
    have maps : t.maps.Exactly [] := by rw [same]; exact bare.maps
    have png : t.cam.pngBuf = none := by rw [same]
    refine .ite (fun failed => ?_) fun fine => ?_
    · rw [if_neg failed] at holds
      exact .pure (.refused rfl ⟨fds,holds.1,[],maps,.inl rfl⟩ (.inr holds.2))
    rw [if_pos (not_not.mp fine)] at holds
    obtain ⟨rfl,rfl,mem,bmp⟩ := holds
    refine .ite (fun dummy => yields_modifyCam (.pure (.dummy rfl valid dummy rfl png fds maps mem))) fun real => ?_
    have asks : Asks info := ⟨valid,not_not.mp real⟩
    refine yields_modifyCam (yields_ask ?_)
    generalize deviceName _ = name
    have held' := obeys.openDev name t.out
    generalize (sys.openDev name t.out).2 = d at held'
    refine .ite (fun _ => yields_modifyCam ?_) fun _ => ?_
    · have closes :=
        banoBmpClose_yields (s := { t with cam := { t.cam with isDummy := false, fd := none }, out := d }) mem
      apply closes.bind
      rintro _ u ⟨heap,same,empty⟩
      subst same
      exact .pure (.arranged asks (.failed rfl ⟨fds,empty,[],maps,.inl rfl⟩))
    · have rest := arrange_yields obeys adopts found (s := { t with
        cam := { t.cam with isDummy := false, fd := some t.fds.next }, fds := t.fds.alloc (), out := d })
        rfl ⟨_,rfl,fds.alloc ()⟩ mem png maps bmp held'
      exact yields_openFd (rest.mono fun _ _ => .arranged asks)

end Bano.Camera
