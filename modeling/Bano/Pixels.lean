import Bano.Lib.Run
import Bano.Flip
import Bano.Conf

/-! The conversions of camera frames to rgb. The input is what there is to read of a frame, and pointers are
offsets into the input and the output; of the output it is known which pixel is written where. -/
namespace Bano

open Lib

abbrev Rgb := UInt8 × UInt8 × UInt8

/-- What yuv_to_rgb writes for y, cr and cb. -/
abbrev YuvToRgb := UInt8 → UInt8 → UInt8 → Rgb

inductive Fourcc where
  | yuv420
  | yuyv

/-- The pixel format with the width and the height. -/
def expandFormat : CamFmt → Option (Fourcc × U32 × U32)
  | .yuv420_160_120 => some (.yuv420,160,120)
  | .yuv420_320_240 => some (.yuv420,320,240)
  | .yuv420_640_480 => some (.yuv420,640,480)
  | .yuyv_160_120 => some (.yuyv,160,120)
  | .yuyv_320_240 => some (.yuyv,320,240)
  | .yuyv_640_480 => some (.yuyv,640,480)
  | .invalid => none

def formatToFrameSize (format : CamFmt) : U32 :=
  match expandFormat format with
  | none => 0
  | some (.yuv420,w,h) => w * h + w * h / 2
  -- bits per pixel = 16
  | some (.yuyv,w,h) => w * h * 2

structure Yuv420 where
  outData : Nat
  yPlane : Nat
  crPlane : Nat
  cbPlane : Nat
  drawn : List (Nat × Rgb)

structure Yuyv where
  outData : Nat
  p : Nat
  drawn : List (Nat × Rgb)

section
variable (yuvToRgb : YuvToRgb) (inData : List UInt8)

/-- A pixel of the line and the one below it. The planes are of int8_t, which yuv_to_rgb takes as uint8_t. -/
def yuv420Column (m l : U32) (cr cb : Int8) (s : Yuv420) : Option Yuv420 := do
  let upper ← inData[s.yPlane]?
  let lower ← inData[s.yPlane + m.toNat]?
  some { s with
    outData := s.outData + 3
    yPlane := s.yPlane + 1
    drawn := s.drawn ++ [(s.outData,yuvToRgb upper cr.toUInt8 cb.toUInt8),
      (s.outData + l.toNat,yuvToRgb lower cr.toUInt8 cb.toUInt8)] }

def yuv420Square (m l : U32) (s : Yuv420) : Option Yuv420 := do
  let cr ← inData[s.crPlane]?
  let cb ← inData[s.cbPlane]?
  let s ← yuv420Column yuvToRgb inData m l cr.toInt8 cb.toInt8 s
  let s ← yuv420Column yuvToRgb inData m l cr.toInt8 cb.toInt8 s
  some { s with crPlane := s.crPlane + 1, cbPlane := s.cbPlane + 1 }

def yuv420Lines (m l : U32) (s : Yuv420) : Option Yuv420 := do
  let w := m / 2
  let s ← times (yuv420Square yuvToRgb inData m l) w.toNat s
  -- skip line
  some { s with yPlane := s.yPlane + m.toNat, outData := s.outData + l.toNat }

def transYuv420ToRgb24 (w h : U32) : Option (List (Nat × Rgb)) := do
  let crPlane := (w * h).toNat
  let cbPlane := crPlane + (w * h / 4).toNat
  let m := w
  let l := w * 3
  let h := h / 2
  let s ← times (yuv420Lines yuvToRgb inData m l) h.toNat ⟨0,0,crPlane,cbPlane,[]⟩
  some s.drawn

/-- y0 u0 y1 v0 -/
def yuyvPair (s : Yuyv) : Option Yuyv := do
  let y0 ← inData[s.p]?
  let cr ← inData[s.p + 1]?
  let y1 ← inData[s.p + 2]?
  let cb ← inData[s.p + 3]?
  some ⟨s.outData + 6,s.p + 4,s.drawn ++ [(s.outData,yuvToRgb y0 cr cb),(s.outData + 3,yuvToRgb y1 cr cb)]⟩

/-- The loop on i, which an odd width never ends; each turn takes one of the fuel. -/
def yuyvLine : Nat → U32 → Yuyv → Outcome Yuyv
  | 0, _, _ => .running
  | fuel + 1, i, s =>
    if i = 0 then .done s
    else do
      let s ← .ofOption (yuyvPair yuvToRgb inData s)
      yuyvLine fuel (i - 2) s

def yuyvLines (fuel : Nat) (w : U32) : Nat → Yuyv → Outcome Yuyv
  | 0, s => .done s
  | j + 1, s => do
    let s ← yuyvLine yuvToRgb inData fuel w s
    yuyvLines fuel w j s

def transYuyvToRgb24 (fuel : Nat) (w h : U32) : Outcome (List (Nat × Rgb)) := do
  let s ← yuyvLines yuvToRgb inData fuel w h.toNat ⟨0,0,[]⟩
  .done s.drawn

/-- Where the pixel belongs, and what it is. -/
def yuv420Pixel (w h r c : Nat) : Nat × Rgb :=
  (3 * (r * w + c),yuvToRgb inData[r * w + c]! inData[w * h + r / 2 * (w / 2) + c / 2]!
    inData[w * h + w * h / 4 + r / 2 * (w / 2) + c / 2]!)

def yuyvPixel (w r c : Nat) : Nat × Rgb :=
  (3 * (r * w + c),yuvToRgb inData[2 * (r * w + c)]! inData[4 * ((r * w + c) / 2) + 1]!
    inData[4 * ((r * w + c) / 2) + 3]!)

/-- Two lines of squares after R pairs of lines and C squares; the frame has 2 W columns and q squares. -/
def yuv420At (W q R C : Nat) (drawn : List (Nat × Rgb)) : Yuv420 where
  outData := 3 * (4 * (R * W) + 2 * C)
  yPlane := 4 * (R * W) + 2 * C
  crPlane := 4 * q + R * W + C
  cbPlane := 5 * q + R * W + C
  drawn := drawn

def yuv420SquareOf (W H R C : Nat) : List (Nat × Rgb) :=
  let f := yuv420Pixel yuvToRgb inData (2 * W) (2 * H)
  [f (2 * R) (2 * C),f (2 * R + 1) (2 * C),f (2 * R) (2 * C + 1),f (2 * R + 1) (2 * C + 1)]

theorem read_byte {inData : List UInt8} (inside : i < inData.length) : inData[i]? = some inData[i]! := by
  rw [List.getElem?_eq_getElem inside,List.getElem!_eq_getElem?_getD,List.getElem?_eq_getElem inside]
  rfl

theorem yuv420Square_at {inData : List UInt8} {m l : U32} (width : m.toNat = 2 * W) (line : l.toNat = 6 * W)
    (enough : 6 * (W * H) ≤ inData.length) (inR : R < H) (inC : C < W) (drawn : List (Nat × Rgb)) :
    yuv420Square yuvToRgb inData m l (yuv420At W (W * H) R C drawn) =
      some (yuv420At W (W * H) R (C + 1) (drawn ++ yuv420SquareOf yuvToRgb inData W H R C)) := by
  have rowsBelow : (R + 1) * W ≤ W * H := by
    rw [Nat.mul_comm W]
    exact Nat.mul_le_mul_right W inR
  rw [Nat.succ_mul] at rowsBelow
  have upper : 2 * R * (2 * W) = 4 * (R * W) := by
    rw [Nat.mul_mul_mul_comm]
  have lower : (2 * R + 1) * (2 * W) = 4 * (R * W) + 2 * W := by
    rw [Nat.succ_mul,upper]
  have area : 2 * W * (2 * H) = 4 * (W * H) := by
    rw [Nat.mul_mul_mul_comm]
  have halves : 2 * R / 2 = R ∧ (2 * R + 1) / 2 = R ∧ 2 * C / 2 = C ∧ (2 * C + 1) / 2 = C ∧ 2 * W / 2 = W ∧
      4 * (W * H) / 4 = W * H := by omega
  simp only [yuv420Square,yuv420Column,yuv420At,yuv420SquareOf,yuv420Pixel,upper,lower,area,halves,width,line]
  generalize R * W = a at *
  generalize W * H = q at *
  simp (disch := omega) only [read_byte,Option.bind_eq_bind,Option.bind_some,UInt8.toUInt8_toInt8,Option.some.injEq]
  -- the same indices, written as either side has them
  have second : 4 * a + 2 * W + 2 * C = 4 * a + 2 * C + 2 * W := by omega
  have third : 4 * a + (2 * C + 1) = 4 * a + 2 * C + 1 := rfl
  have fourth : 4 * a + 2 * W + (2 * C + 1) = 4 * a + 2 * C + 1 + 2 * W := by omega
  have plane : 4 * q + q + a + C = 5 * q + a + C := by omega
  rw [second,third,fourth,plane]
  simp only [Yuv420.mk.injEq,List.append_assoc,List.cons_append,List.nil_append,
    List.append_cancel_left_eq,List.cons.injEq,
    Prod.mk.injEq,and_true,true_and]
  omega

theorem yuv420Lines_at {inData : List UInt8} {m l : U32} (width : m.toNat = 2 * W) (line : l.toNat = 6 * W)
    (enough : 6 * (W * H) ≤ inData.length) (inR : R < H) (drawn : List (Nat × Rgb)) :
    yuv420Lines yuvToRgb inData m l (yuv420At W (W * H) R 0 drawn) =
      some (yuv420At W (W * H) (R + 1) 0 (drawn ++ (List.range W).flatMap
        (yuv420SquareOf yuvToRgb inData W H R))) := by
  have half : (m / 2).toNat = W := by
    rw [BitVec.toNat_udiv,width]
    exact Nat.mul_div_cancel_left W (by decide)
  have columns := times_eq (yuv420Square yuvToRgb inData m l)
    (fun C => yuv420At W (W * H) R C (drawn ++ (List.range C).flatMap (yuv420SquareOf yuvToRgb inData W H R))) W
        fun C inC => by
      rw [yuv420Square_at yuvToRgb width line enough inR inC,List.range_succ,List.flatMap_append,List.append_assoc]
      simp
  simp only [List.range_zero,List.flatMap_nil,List.append_nil] at columns
  simp only [yuv420Lines,half]
  rw [columns]
  simp only [Option.bind_eq_bind,Option.bind_some,yuv420At,width,line,Nat.succ_mul,Option.some.injEq,
    Yuv420.mk.injEq,and_true]
  omega

theorem transYuv420ToRgb24_squares {inData : List UInt8} {w h : U32} (width : w.toNat = 2 * W)
    (height : h.toNat = 2 * H)
    (fits : 3 * w.toNat * h.toNat < 2 ^ 32) (enough : 6 * (W * H) ≤ inData.length) :
    transYuv420ToRgb24 yuvToRgb inData w h = some (squares W H (yuv420Pixel yuvToRgb inData w.toNat h.toNat)) := by
  have area : (w * h).toNat = 4 * (W * H) := by
    rw [BitVec.toNat_mul,Nat.mod_eq_of_lt (by rw [Nat.mul_assoc] at fits; omega),width,height,Nat.mul_mul_mul_comm]
  have quarter : (w * h / 4).toNat = W * H := by
    rw [BitVec.toNat_udiv,area]
    exact Nat.mul_div_cancel_left _ (by decide)
  have line : 0 < H → (w * 3).toNat = 6 * W := by
    intro pos
    have one : 3 * w.toNat * 1 ≤ 3 * w.toNat * h.toNat := Nat.mul_le_mul_left _ (by omega)
    rw [BitVec.toNat_mul,Nat.mod_eq_of_lt (by simp; omega),width]
    simp
    omega
  have half : (h / 2).toNat = H := by
    rw [BitVec.toNat_udiv,height]
    exact Nat.mul_div_cancel_left H (by decide)
  have lines := times_eq (yuv420Lines yuvToRgb inData w (w * 3))
    (fun R => yuv420At W (W * H) R 0 ((List.range R).flatMap fun r =>
      (List.range W).flatMap (yuv420SquareOf yuvToRgb inData W H r))) H fun R inR => by
        rw [yuv420Lines_at yuvToRgb width (line (Nat.zero_lt_of_lt inR)) enough inR,List.range_succ,
          List.flatMap_append]
        simp
  have start : (⟨0,0,4 * (W * H),4 * (W * H) + W * H,[]⟩ : Yuv420) = yuv420At W (W * H) 0 0 [] := by
    simp only [yuv420At,Yuv420.mk.injEq,and_true]
    omega
  simp only [transYuv420ToRgb24,area,quarter,half,start]
  rw [show yuv420At W (W * H) 0 0 [] = yuv420At W (W * H) 0 0 ((List.range 0).flatMap fun r =>
    (List.range W).flatMap (yuv420SquareOf yuvToRgb inData W H r)) from rfl,lines]
  simp only [Option.bind_eq_bind,Option.bind_some,yuv420At,squares,width,height]
  rfl

/-- The k-th pixel of a yuyv frame. -/
def yuyvAt (k : Nat) : Nat × Rgb := (3 * k,yuvToRgb inData[2 * k]! inData[4 * (k / 2) + 1]! inData[4 * (k / 2) + 3]!)

/-- A line of pairs, from the pair at index b of the frame. -/
theorem yuyvLine_pairs {inData : List UInt8} {i : U32} (even : i.toNat = 2 * n) (enough : n < fuel)
    (inside : 4 * (b + n) ≤ inData.length) (drawn : List (Nat × Rgb)) :
    yuyvLine yuvToRgb inData fuel i ⟨6 * b,4 * b,drawn⟩ =
      .done ⟨6 * (b + n),4 * (b + n),drawn ++ (List.range (2 * n)).map fun c => yuyvAt yuvToRgb inData
        (2 * b + c)⟩ := by
  induction n generalizing fuel i b drawn with
  | zero =>
    obtain ⟨fuel,rfl⟩ : ∃ m, fuel = m + 1 := ⟨fuel - 1,by omega⟩
    have none : i = 0 := BitVec.eq_of_toNat_eq even
    rw [yuyvLine,if_pos none]
    simp
  | succ n ih =>
    obtain ⟨fuel,rfl⟩ : ∃ m, fuel = m + 1 := ⟨fuel - 1,by omega⟩
    have some' : i ≠ 0 := by
      rintro rfl
      simp at even
    have fewer : (i - 2).toNat = 2 * n := by
      rw [BitVec.toNat_sub_of_le (by rw [BitVec.le_def]; simp; omega),even]
      rfl
    have left : yuyvAt yuvToRgb inData (2 * b) =
        (6 * b,yuvToRgb inData[4 * b]! inData[4 * b + 1]! inData[4 * b + 3]!) := by
      rw [yuyvAt,show 3 * (2 * b) = 6 * b by omega,show 2 * (2 * b) = 4 * b by omega,show 2 * b / 2 = b by omega]
    have right : yuyvAt yuvToRgb inData (2 * b + 1) =
        (6 * b + 3,yuvToRgb inData[4 * b + 2]! inData[4 * b + 1]! inData[4 * b + 3]!) := by
      rw [yuyvAt,show 3 * (2 * b + 1) = 6 * b + 3 by omega,show 2 * (2 * b + 1) = 4 * b + 2 by omega,
        show (2 * b + 1) / 2 = b by omega]
    have step : yuyvPair yuvToRgb inData ⟨6 * b,4 * b,drawn⟩ = some ⟨6 * (b + 1),4 * (b + 1),
        drawn ++ [yuyvAt yuvToRgb inData (2 * b),yuyvAt yuvToRgb inData (2 * b + 1)]⟩ := by
      rw [left,right]
      simp (disch := omega) only [yuyvPair,read_byte,Option.bind_eq_bind,Option.bind_some]
      rfl
    have rest := ih (b := b + 1) fewer (by omega : n < fuel) (by omega)
      (drawn ++ [yuyvAt yuvToRgb inData (2 * b),yuyvAt yuvToRgb inData (2 * b + 1)])
    rw [yuyvLine,if_neg some',step,Outcome.ofOption_some,Outcome.bind_done,rest]
    have count : b + 1 + n = b + (n + 1) := by omega
    have places : ∀ c, 2 * (b + 1) + c = 2 * b + (2 + c) := fun c => by omega
    rw [count,show 2 * (n + 1) = 2 + 2 * n by omega,List.range_add,List.map_append,List.map_map,List.append_assoc]
    simp only [places]
    rfl

theorem yuyvLines_pairs {inData : List UInt8} {w : U32} (even : w.toNat = 2 * n) (enough : n < fuel)
    (inside : 4 * (b + n * j) ≤ inData.length) (drawn : List (Nat × Rgb)) :
    yuyvLines yuvToRgb inData fuel w j ⟨6 * b,4 * b,drawn⟩ = .done ⟨6 * (b + n * j),4 * (b + n * j),
      drawn ++ (List.range (2 * (n * j))).map fun c => yuyvAt yuvToRgb inData (2 * b + c)⟩ := by
  induction j generalizing b drawn with
  | zero => simp [yuyvLines]
  | succ j ih =>
    rw [Nat.mul_succ] at inside ⊢
    have line := yuyvLine_pairs yuvToRgb even enough (by omega : 4 * (b + n) ≤ inData.length) drawn
    have rest := ih (b := b + n) (by omega) (drawn ++ (List.range (2 * n)).map fun c => yuyvAt yuvToRgb
      inData (2 * b + c))
    rw [yuyvLines,line,Outcome.bind_done,rest]
    have count : b + n + n * j = b + (n * j + n) := by omega
    have places : ∀ c, 2 * (b + n) + c = 2 * b + (2 * n + c) := fun c => by omega
    rw [count,show 2 * (n * j + n) = 2 * n + 2 *
      (n * j) by omega,List.range_add,List.map_append,List.map_map,List.append_assoc]
    simp only [places]
    rfl

theorem transYuyvToRgb24_pixels {inData : List UInt8} {w : U32} (even : w.toNat % 2 = 0) (h : U32)
    (enough : 2 * w.toNat * h.toNat ≤ inData.length) :
    transYuyvToRgb24 yuvToRgb inData (w.toNat + 1) w h =
      .done (pixels w.toNat h.toNat (yuyvPixel yuvToRgb inData w.toNat)) := by
  obtain ⟨n,width⟩ : ∃ n, w.toNat = 2 * n := ⟨w.toNat / 2,by omega⟩
  have area : 2 * (n * h.toNat) = w.toNat * h.toNat := by rw [width,Nat.mul_assoc]
  rw [Nat.mul_assoc,← area] at enough
  have lines := yuyvLines_pairs yuvToRgb width (by omega : n < w.toNat + 1)
    (by omega : 4 * (0 + n * h.toNat) ≤ inData.length) []
  have order := pixels_places w.toNat h.toNat (yuyvAt yuvToRgb inData)
  simp only [Nat.mul_zero,Nat.zero_add,List.nil_append,area] at lines
  rw [transYuyvToRgb24,lines,Outcome.bind_done]
  exact congrArg Outcome.done order.symm

/-- Every pixel is written once, where it belongs and with the samples that are its own. -/
structure Draws (w h : U32) (pixel : Nat → Nat → Nat × Rgb) (drawn : List (Nat × Rgb)) : Prop where
  pixels : drawn.Perm (pixels w.toNat h.toNat pixel)
  once : (drawn.map Prod.fst).Perm ((List.range (w.toNat * h.toNat)).map fun k => 3 * k)

theorem Draws.of_perm {w h : U32} {pixel : Nat → Nat → Nat × Rgb}
    (perm : drawn.Perm (Lib.pixels w.toNat h.toNat pixel))
    (place : ∀ r c, (pixel r c).1 = 3 * (r * w.toNat + c)) : Draws w h pixel drawn where
  pixels := perm
  once := by
    have places := pixels_places w.toNat h.toNat fun k => 3 * k
    simp only [← place] at places
    rw [← places,← pixels_map]
    exact perm.map Prod.fst

/-- What is read lies in a frame of this length, and there may be nothing behind it. -/
theorem transYuv420ToRgb24_draws {w h : U32} (evenW : w.toNat % 2 = 0) (evenH : h.toNat % 2 = 0)
    (fits : 3 * w.toNat * h.toNat < 2 ^ 32) {inData : List UInt8}
    (enough : w.toNat * h.toNat * 3 / 2 ≤ inData.length) :
    ∃ drawn, transYuv420ToRgb24 yuvToRgb inData w h = some drawn ∧
      Draws w h (yuv420Pixel yuvToRgb inData w.toNat h.toNat) drawn := by
  obtain ⟨W,width⟩ : ∃ n, w.toNat = 2 * n := ⟨w.toNat / 2,by omega⟩
  obtain ⟨H,height⟩ : ∃ n, h.toNat = 2 * n := ⟨h.toNat / 2,by omega⟩
  have area : w.toNat * h.toNat = 4 * (W * H) := by rw [width,height,Nat.mul_mul_mul_comm]
  refine ⟨_,transYuv420ToRgb24_squares yuvToRgb width height fits (by omega),Draws.of_perm ?_ fun _ _ => rfl⟩
  have perm := squares_perm W H (yuv420Pixel yuvToRgb inData w.toNat h.toNat)
  rwa [← width,← height] at perm

theorem transYuyvToRgb24_draws {w : U32} (even : w.toNat % 2 = 0) (h : U32) {inData : List UInt8}
    (enough : 2 * w.toNat * h.toNat ≤ inData.length) : ∃ fuel drawn,
      transYuyvToRgb24 yuvToRgb inData fuel w h = .done drawn ∧
      Draws w h (yuyvPixel yuvToRgb inData w.toNat) drawn :=
  ⟨_,_,transYuyvToRgb24_pixels yuvToRgb even h enough,Draws.of_perm (.refl _) fun _ _ => rfl⟩

/-- What the formats have in common. -/
structure FrameSize (c : Fourcc) (w h : U32) (size : Nat) : Prop where
  words : w.toNat % 4 = 0
  wide : w ≠ 0
  even : h.toNat % 2 = 0
  high : 2 ≤ h.toNat
  fits : 3 * w.toNat * h.toNat < 2 ^ 32
  size : size = match c with
    | .yuv420 => w.toNat * h.toNat * 3 / 2
    | .yuyv => 2 * w.toNat * h.toNat

theorem expandFormat_size (found : expandFormat format = some (c,w,h)) :
    FrameSize c w h (formatToFrameSize format).toNat := by
  cases format <;> cases found <;> exact ⟨by decide,by decide,by decide,by decide,by decide,by decide⟩

/-- A frame of a format has the bytes that its conversion reads. -/
theorem formatToFrameSize_draws (found : expandFormat format = some (c,w,h)) (inData : List UInt8)
    (whole : inData.length = (formatToFrameSize format).toNat) :
    match c with
    | .yuv420 => ∃ drawn, transYuv420ToRgb24 yuvToRgb inData w h = some drawn ∧
        Draws w h (yuv420Pixel yuvToRgb inData w.toNat h.toNat) drawn
    | .yuyv => ∃ fuel drawn, transYuyvToRgb24 yuvToRgb inData fuel w h = .done drawn ∧
        Draws w h (yuyvPixel yuvToRgb inData w.toNat) drawn := by
  have size := expandFormat_size found
  have words := size.words
  have enough := whole.trans size.size
  cases c with
  | yuv420 => exact transYuv420ToRgb24_draws yuvToRgb (by omega) size.even size.fits (Nat.le_of_eq enough.symm)
  | yuyv => exact transYuyvToRgb24_draws yuvToRgb (by omega) h (Nat.le_of_eq enough.symm)

end

/-- No format has an image that the flip leaves right. -/
theorem expandFormat_flip (found : expandFormat format = some (c,w,h)) (image : List UInt8)
    (whole : image.length = 3 * w.toNat * h.toNat) : ¬FlipsVertically w h image := by
  have size := expandFormat_size found
  rintro ⟨_,flips,_⟩
  exact not_flipsTo_words size.fits whole size.words size.wide size.high flips

theorem pixelAddressing (yuvToRgb : YuvToRgb) (w h : U32) (even : w.toNat % 2 = 0) :
    (h.toNat % 2 = 0 → 3 * w.toNat * h.toNat < 2 ^ 32 → ∀ inData : List UInt8,
      w.toNat * h.toNat * 3 / 2 ≤ inData.length →
      ∃ drawn, transYuv420ToRgb24 yuvToRgb inData w h = some drawn ∧
        Draws w h (yuv420Pixel yuvToRgb inData w.toNat h.toNat) drawn) ∧
    ∀ inData : List UInt8, 2 * w.toNat * h.toNat ≤ inData.length →
      ∃ fuel drawn, transYuyvToRgb24 yuvToRgb inData fuel w h = .done drawn ∧
        Draws w h (yuyvPixel yuvToRgb inData w.toNat) drawn :=
  ⟨fun evenH fits _ enough => transYuv420ToRgb24_draws yuvToRgb even evenH fits enough,
    fun _ enough => transYuyvToRgb24_draws yuvToRgb even h enough⟩

/-- A frame of two lines of two pixels, whose samples are its offsets. -/
theorem pixelAddressing_two : ∃ drawn, transYuv420ToRgb24 (fun y cr cb => (y,cr,cb)) [0,1,2,3,4,5] 2 2 = some drawn ∧
    Draws 2 2 (yuv420Pixel (fun y cr cb => (y,cr,cb)) [0,1,2,3,4,5] 2 2) drawn :=
  (pixelAddressing (fun y cr cb => (y,cr,cb)) 2 2 (by decide)).1 (by decide) (by decide) [0,1,2,3,4,5] (by decide)

end Bano
