import Bano.Forms
import Bano.Lib.Heap
import Bano.Lib.Writes
import Bano.Lib.Yields
import Bano.Pixels

/-! The camera of bano_cam.c: its device is opened, streams frames through mapped buffers or is read, and a
capture converts a frame for the picture. What the kernel, the allocator and the png encoder do is a parameter. -/
namespace Bano.Camera

open Lib

structure Capability where
  videoCapture : Bool
  streaming : Bool

/-- What select comes to. -/
inductive Selected where
  | ready
  | timeout
  | interrupted
  | failed
  deriving DecidableEq

/-- The outside, `δ` being its state. Each ioctl tells whether it succeeds,
and `memory` is what each of the driver's buffers holds. -/
structure Outside (δ : Type) where
  malloc : Nat → δ → Option (List UInt8) × δ
  openDev : Token → δ → Bool × δ
  queryCap : δ → Option Capability × δ
  getFmt : δ → Bool × δ
  setFmt : Fourcc → U32 → U32 → δ → Bool × δ
  reqBufs : δ → Option U32 × δ
  queryBuf : Nat → δ → Option U32 × δ
  mmap : U32 → δ → Bool × δ
  qBuf : Nat → δ → Bool × δ
  dqBuf : δ → Option Nat × δ
  streamOn : δ → Bool × δ
  streamOff : δ → Bool × δ
  select : δ → Selected × δ
  read : Nat → δ → Option (List UInt8) × δ
  close : δ → δ
  memory : δ → Nat → Nat → UInt8
  encode24 : List UInt8 → U32 → U32 → δ → Option (List UInt8) × δ

/-- What fb_data holds: whatever was there before, MAP_FAILED, a mapping, or a block of malloc. -/
inductive FbData where
  | junk
  | mapFailed
  | mapped (p : Ptr)
  | owned (p : Ptr)

structure Fb where
  data : FbData
  size : Nat

structure BmpHandle where
  width : U32
  height : U32
  memBuf : Ptr
  memSize : Nat

/-- bano_cam_handle_t; there are BANO_CAM_FB_COUNT frame buffers. -/
structure Handle where
  fd : Option Ptr
  fmt : CamFmt
  isMmapEnabled : Bool
  isDummy : Bool
  fb0 : Fb
  fb1 : Fb
  fbCount : Nat
  bmp : BmpHandle
  pngBuf : Option Ptr
  pngSize : Nat

/-- A frame that the driver has handed out: the index of its buffer, and what the buffers held then. -/
structure Shot where
  index : Nat
  memory : Nat → Nat → UInt8

/-- The handle with what is open, mapped and allocated. No function reads
`shots`, the frames that were handed out so far. -/
structure State (δ : Type) where
  cam : Handle
  fds : Heap Unit
  maps : Heap U32
  mem : Heap (List UInt8)
  out : δ
  shots : List Shot

abbrev Prog (δ α : Type) := StateT (State δ) Outcome α

variable {δ : Type}

def ask (f : δ → α × δ) : Prog δ α := fun s => .done ((f s.out).1,{ s with out := (f s.out).2 })

def getCam : Prog δ Handle := fun s => .done (s.cam,s)

def modifyCam (f : Handle → Handle) : Prog δ Unit := alter fun s => { s with cam := f s.cam }

def alloc (block : List UInt8) : Prog δ Ptr := fun s => .done (s.mem.next,{ s with mem := s.mem.alloc block })

def newMapping (length : U32) : Prog δ Ptr := fun s => .done (s.maps.next,{ s with maps := s.maps.alloc length })

def freeMem (p : Ptr) : Prog δ Unit := attempt fun s => do
  let mem ← s.mem.free p
  some ((),{ s with mem := mem })

def load (p : Ptr) : Prog δ (List UInt8) := attempt fun s => do
  let block ← s.mem.cell p
  some (block,s)

def store (p : Ptr) (off : Nat) (values : List UInt8) : Prog δ Unit := attempt fun s => do
  let block ← s.mem.cell p
  let block ← Lib.store block off values
  some ((),{ s with mem := s.mem.modify p fun _ => block })

def closeFd (sys : Outside δ) : Prog δ Unit := attempt fun s => do
  let fd ← s.cam.fd
  let fds ← s.fds.free fd
  some ((),{ s with fds := fds, out := sys.close s.out })

namespace Handle

def fb (cam : Handle) (i : Nat) : Option Fb := if i = 0 then some cam.fb0 else if i = 1 then some cam.fb1 else none

def setFb (cam : Handle) (i : Nat) (fb : Fb) : Handle :=
  if i = 0 then { cam with fb0 := fb } else if i = 1 then { cam with fb1 := fb } else cam

end Handle

def fbCountMax : U32 := 2

/-- The bytes of a number, the lowest first. -/
def le : Nat → Nat → List UInt8
  | 0, _ => []
  | size + 1, n => UInt8.ofNat n :: le size (n / 256)

/-- sizeof(struct file_header) -/
def fileHeaderSize : Nat := 54

def fileHeader (bpp w h dataSize : Nat) : List UInt8 :=
  -- bmp header
  le 2 0x4d42 ++ le 4 (fileHeaderSize + dataSize) ++ le 4 0 ++ le 4 fileHeaderSize ++
  -- dib header
  le 4 0x28 ++ le 4 w ++ le 4 h ++ le 2 1 ++ le 2 (bpp * 8) ++ le 4 0 ++ le 4 dataSize ++ le 4 0 ++
    le 4 0 ++ le 4 0 ++ le 4 0

def bmpBpp : Nat := 3

def bmpDataSize (w h : U32) : Nat := bmpBpp * w.toNat * h.toNat

section
variable (sys : Outside δ)

def banoBmpOpen (w h : U32) : Prog δ Int := do
  let dataSize := bmpDataSize w h
  let memSize := fileHeaderSize + dataSize
  match ← ask (sys.malloc memSize) with
  | none => pure (-1)
  | some block => do
    let p ← alloc block
    modifyCam fun cam => { cam with bmp := ⟨w,h,p,memSize⟩ }
    store p 0 (fileHeader bmpBpp w.toNat h.toNat dataSize)
    pure 0

def banoBmpClose : Prog δ Unit := do
  let cam ← getCam
  freeMem cam.bmp.memBuf

/-- The pixels that a conversion writes, one after the other. -/
def paint (off : Nat) (drawn : List (Nat × Rgb)) (block : List UInt8) : Option (List UInt8) :=
  storeAll (drawn.map fun (k,r,g,b) => (off + k,[r,g,b])) block

variable (yuvToRgb : YuvToRgb)

/-- What the converter of the format writes; a line has fewer turns than pixels. -/
def convert (fmt : CamFmt) (w h : U32) (data : List UInt8) : Outcome (List (Nat × Rgb)) :=
  match expandFormat fmt with
  | some (.yuv420,_) => .ofOption (transYuv420ToRgb24 yuvToRgb data w h)
  | some (.yuyv,_) => transYuyvToRgb24 yuvToRgb data (w.toNat + 1) w h
  | none => .done []

/-- With BANO_CONFIG_PNG, the picture is not flipped. -/
def transFrame (data : List UInt8) : Prog δ Unit := fun s => do
  let bmp := s.cam.bmp
  let drawn ← convert yuvToRgb s.cam.fmt bmp.width bmp.height data
  let block ← .ofOption (s.mem.cell bmp.memBuf)
  let block ← .ofOption (paint fileHeaderSize drawn block)
  .done ((),{ s with mem := s.mem.modify bmp.memBuf fun _ => block })

def setFormat (fourcc : Fourcc) (w h : U32) : Prog δ Int := do
  if !(← ask sys.getFmt) then pure (-1)
  else if !(← ask (sys.setFmt fourcc w h)) then pure (-1)
  else pure 0

/-- The lines on O_NONBLOCK give fcntl the flags as its command, which sets nothing. -/
def startMmapDisabled : Prog δ Int := do
  let cam ← getCam
  let size := (formatToFrameSize cam.fmt).toNat
  modifyCam fun cam => cam.setFb 0 ⟨cam.fb0.data,size⟩
  if size = 0 then pure (-1)
  else
    match ← ask (sys.malloc size) with
    | none => pure (-1)
    | some block => do
      let p ← alloc block
      modifyCam fun cam => { cam.setFb 0 ⟨.owned p,size⟩ with fbCount := 1 }
      pure 0

def stopMmapDisabled : Prog δ Unit := do
  let cam ← getCam
  if cam.fbCount = 0 then pure ()
  else
    match cam.fb0.data with
    | .owned p => do
      freeMem p
      modifyCam fun cam => { cam with fbCount := 0 }
    | _ => attempt fun _ => none

def captureMmapDisabled : Prog δ Int := do
  match ← ask sys.select with
  | .failed => pure (-1)
  | .ready => do
    let cam ← getCam
    match cam.fb0.data with
    | .owned p =>
      match ← ask (sys.read cam.fb0.size) with
      | none => pure (-1)
      | some bytes => do
        store p 0 bytes
        -- nread > 0
        if bytes.isEmpty then pure 0
        else do
          let data ← load p
          transFrame yuvToRgb data
          pure 0
    | _ => attempt fun _ => none
  | .interrupted | .timeout => pure 0

def mapFrameBuffer (i : Nat) : Prog δ Int := do
  modifyCam fun cam => cam.setFb i ⟨.mapFailed,0⟩
  match ← ask (sys.queryBuf i) with
  | none => pure (-1)
  | some length =>
    if !(← ask (sys.mmap length)) then pure (-1)
    else do
      let p ← newMapping length
      modifyCam fun cam => cam.setFb i ⟨.mapped p,length.toNat⟩
      pure 0

/-- Where nothing is mapped, munmap fails, and what else it may take away is not known. -/
def unmapFrameBuffer (i : Nat) : Prog δ Unit := do
  let cam ← getCam
  match cam.fb i with
  | some ⟨.mapFailed,_⟩ => pure ()
  | some ⟨.mapped p,_⟩ => do
    attempt fun s => do
      let maps ← s.maps.free p
      some ((),{ s with maps := maps })
    modifyCam fun cam => cam.setFb i ⟨.mapFailed,0⟩
  | _ => attempt fun _ => none

/-- The loop on i, with the buffers that are left. -/
def allocFrameBuffers : Nat → Nat → Prog δ Int
  | 0, _ => pure 0
  | left + 1, i => do
    if (← mapFrameBuffer sys i) ≠ 0 then pure (-1)
    else do
      modifyCam fun cam => { cam with fbCount := cam.fbCount + 1 }
      -- queue buffer
      if !(← ask (sys.qBuf i)) then pure (-1)
      else allocFrameBuffers left (i + 1)

def startMmapEnabled : Prog δ Int := do
  -- request buffers
  match ← ask sys.reqBufs with
  | none => pure (-1)
  | some count =>
    if count < 1 ∨ fbCountMax < count then pure (-1)
    else if (← allocFrameBuffers sys count.toNat 0) ≠ 0 then pure (-1)
    -- start streaming
    else if !(← ask sys.streamOn) then pure (-1)
    else pure 0

def unmapFrameBuffers : Nat → Nat → Prog δ Unit
  | 0, _ => pure ()
  | left + 1, i => do
    unmapFrameBuffer i
    unmapFrameBuffers left (i + 1)

def stopMmapEnabled : Prog δ Unit := do
  let cam ← getCam
  unmapFrameBuffers cam.fbCount 0
  modifyCam fun cam => { cam with fbCount := 0 }
  let _ ← ask sys.streamOff
  pure ()

/-- redo_select, with the failures that are left: the stream is restarted on each of them. -/
def redoSelect : Nat → Prog δ Bool
  | 0 => pure false
  | left + 1 => do
    if (← ask sys.select) = .ready then pure true
    else do
      stopMmapEnabled sys
      let _ ← startMmapEnabled sys
      redoSelect left

/-- What there is to read of a frame. Each buffer was mapped from offset 0 on, where the first one is. -/
def frame (i : Nat) : Prog δ (List UInt8) := attempt fun s => do
  match ← s.cam.fb i with
  | ⟨.mapped p,_⟩ => do
    let length ← s.maps.cell p
    some ((List.range length.toNat).map (sys.memory s.out 0),s)
  | _ => none

def recordShot (i : Nat) : Prog δ Unit := alter fun s => { s with shots := s.shots ++ [⟨i,sys.memory s.out⟩] }

/-- A frame that is ready is taken from its queue. -/
def dequeue : Prog δ (Option Nat) := do
  if !(← redoSelect sys 4) then pure none
  else
    match ← ask sys.dqBuf with
    | none => pure none
    | some i => do
      recordShot sys i
      pure (some i)

/-- redo_cap, with the frames that are left to be passed over. -/
def redoCap : Nat → Prog δ Int
  | 0 => do
    match ← dequeue sys with
    | none => pure (-1)
    | some i => do
      let data ← frame sys i
      transFrame yuvToRgb data
      if !(← ask (sys.qBuf i)) then pure (-1) else pure 0
  | left + 1 => do
    match ← dequeue sys with
    | none => pure (-1)
    | some i => do
      let _ ← ask (sys.qBuf i)
      redoCap left

/-- The first frame is that of before. -/
def captureMmapEnabled : Prog δ Int := redoCap sys yuvToRgb 1

/-- The name of the device, as far as it fits its array. -/
def deviceName (id : U32) : Token :=
  let digits := if id.toInt < 0 then literal "-" ++ decText id.toInt.natAbs else decText id.toNat
  (literal "/dev/video" ++ digits).take 13

def openFd : Prog δ Unit := alter fun s =>
  { s with cam := { s.cam with fd := some s.fds.next }, fds := s.fds.alloc () }

/-- on_error_2 -/
def giveUp : Prog δ Int := do
  closeFd sys
  banoBmpClose
  pure (-1)

/-- What bano_cam_open does with the device once it is open. -/
def arrange (fmt : CamFmt) (fourcc : Fourcc) (w h : U32) : Prog δ Int := do
  match ← ask sys.queryCap with
  | none => giveUp sys
  | some cap =>
    if !cap.videoCapture then giveUp sys
    else do
      modifyCam fun cam => { cam with fmt := fmt, isMmapEnabled := false, fbCount := 0 }
      -- set format
      if (← setFormat sys fourcc w h) ≠ 0 then giveUp sys
      else do
        modifyCam fun cam => { cam with isMmapEnabled := cap.streaming }
        let err ← if cap.streaming then startMmapEnabled sys else startMmapDisabled sys
        if err ≠ 0 then giveUp sys else pure 0

def banoCamOpen (info : BanoCamInfo) : Prog δ Int := do
  modifyCam fun cam => { cam with pngBuf := none, pngSize := 0 }
  -- extract format info
  match expandFormat info.fmt with
  | none => pure (-1)
  | some (fourcc,w,h) =>
    -- create output bmp
    if (← banoBmpOpen sys w h) ≠ 0 then pure (-1)
    else if info.flags &&& camFlagDummy ≠ 0 then do
      modifyCam fun cam => { cam with isDummy := true }
      pure 0
    else do
      modifyCam fun cam => { cam with isDummy := false }
      if !(← ask (sys.openDev (deviceName (if info.flags &&& camFlagId = 0 then 0 else info.id)))) then do
        modifyCam fun cam => { cam with fd := none }
        banoBmpClose
        pure (-1)
      else do
        openFd
        arrange sys info.fmt fourcc w h

def releasePng : Prog δ Unit := do
  let cam ← getCam
  match cam.pngBuf with
  | some p => freeMem p
  | none => pure ()

def stopMmap : Prog δ Unit := do
  let cam ← getCam
  if cam.isMmapEnabled then stopMmapEnabled sys else stopMmapDisabled

def banoCamClose : Prog δ Int := do
  let cam ← getCam
  releasePng
  banoBmpClose
  if cam.isDummy then pure 0
  else do
    stopMmap sys
    closeFd sys
    pure 0

/-- What follows a capture with BANO_CONFIG_PNG. -/
def encodePng : Prog δ Int := do
  let cam ← getCam
  releasePng
  let bmp ← load cam.bmp.memBuf
  match ← ask (sys.encode24 (bmp.drop fileHeaderSize) cam.bmp.width cam.bmp.height) with
  | none => do
    modifyCam fun cam => { cam with pngBuf := none, pngSize := 0 }
    pure (-1)
  | some png => do
    let p ← alloc png
    modifyCam fun cam => { cam with pngBuf := some p, pngSize := png.length }
    pure 0

def banoCamCapture : Prog δ Int := do
  let cam ← getCam
  if cam.isDummy then pure 0
  else do
    let err ← if cam.isMmapEnabled then captureMmapEnabled sys yuvToRgb else captureMmapDisabled sys yuvToRgb
    if err = 0 then encodePng sys else pure err

end

/-- The picture that on_event sends for ob=cam, with its type. -/
def banoCamGetImage (s : State δ) : Option (List UInt8 × Token) := do
  let image ← match s.cam.pngBuf with
    | none => some []
    | some p => do
      let block ← s.mem.cell p
      if s.cam.pngSize ≤ block.length then some (block.take s.cam.pngSize) else none
  some (image,literal "image/png")

end Bano.Camera
