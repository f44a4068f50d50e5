import Bano.Streams

/-! What a capture makes of a frame: the picture of the camera, whose pixels are those of the frame, and its png. -/
namespace Bano.Camera

open Lib

variable {δ : Type} (yuvToRgb : YuvToRgb)

/-- Where a pixel of a frame belongs, and what it is. -/
def pixel (c : Fourcc) (w h : U32) (data : List UInt8) (row col : Nat) : Nat × Rgb :=
  match c with
  | .yuv420 => yuv420Pixel yuvToRgb data w.toNat h.toNat row col
  | .yuyv => yuyvPixel yuvToRgb data w.toNat row col

def rgbBytes (rgb : Rgb) : List UInt8 := [rgb.1,rgb.2.1,rgb.2.2]

/-- Each pixel of the image is that of the frame. -/
structure Shows (fmt : CamFmt) (data image : List UInt8) : Prop where
  length : ∀ c w h, expandFormat fmt = some (c,w,h) → image.length = bmpDataSize w h
  pixels : ∀ c w h, expandFormat fmt = some (c,w,h) → ∀ row < h.toNat, ∀ col < w.toNat,
    (image.drop (3 * (row * w.toNat + col))).take 3 = rgbBytes (pixel yuvToRgb c w h data row col).2

theorem pixel_place (c : Fourcc) (w h : U32) (data : List UInt8) (row col : Nat) :
    (pixel yuvToRgb c w h data row col).1 = 3 * (row * w.toNat + col) := by
  cases c <;> rfl

variable {yuvToRgb}

/-- A frame of the format is converted, pixel by pixel. -/
theorem convert_draws (found : expandFormat fmt = some (c,w,h))
    (enough : (formatToFrameSize fmt).toNat ≤ data.length) :
    ∃ drawn, convert yuvToRgb fmt w h data = .done drawn ∧ Draws w h (pixel yuvToRgb c w h data) drawn := by
  have size := expandFormat_size found
  have words := size.words
  have even : w.toNat % 2 = 0 := by omega
  rw [size.size] at enough
  unfold convert
  rw [found]
  cases c with
  | yuv420 =>
    obtain ⟨drawn,converted,draws⟩ := transYuv420ToRgb24_draws yuvToRgb even size.even size.fits enough
    exact ⟨drawn,by rw [converted]; rfl,draws⟩
  | yuyv => exact ⟨_,transYuyvToRgb24_pixels yuvToRgb even h enough,Draws.of_perm (.refl _) fun _ _ => rfl⟩

/-- The writes of a conversion, at some offset. -/
def strokes (off : Nat) (drawn : List (Nat × Rgb)) : List (Nat × List UInt8) := drawn.map fun e =>
    (off + e.1,rgbBytes e.2)

theorem draws_place (draws : Draws w h f drawn) (member : e ∈ drawn) : ∃ k < w.toNat * h.toNat, e.1 = 3 * k := by
  have place := draws.once.mem_iff.mp (List.mem_map_of_mem (f := Prod.fst) member)
  obtain ⟨k,inside,same⟩ := List.mem_map.mp place
  exact ⟨k,List.mem_range.mp inside,same.symm⟩

theorem strokes_apart (draws : Draws w h f drawn) (off : Nat) : (strokes off drawn).Pairwise Separate := by
  have nodup : (drawn.map Prod.fst).Nodup := by
    refine draws.once.nodup_iff.mpr (List.Nodup.map (fun a b same => ?_) List.nodup_range)
    have triple : 3 * a = 3 * b := same
    omega
  rw [strokes,List.pairwise_map]
  refine (List.pairwise_map.mp nodup).imp_of_mem fun {a b} left right apart => ?_
  obtain ⟨i,_,place⟩ := draws_place draws left
  obtain ⟨j,_,place'⟩ := draws_place draws right
  simp only [Separate,rgbBytes,List.length_cons,List.length_nil]
  omega

/-- The pixels are painted behind the header. -/
theorem paint_shows (found : expandFormat fmt = some (c,w,h)) (draws : Draws w h (pixel yuvToRgb c w h data) drawn)
    (whole : block.length = fileHeaderSize + bmpDataSize w h) :
    ∃ block', paint fileHeaderSize drawn block = some block' ∧ block'.length = block.length ∧
      Shows yuvToRgb fmt data (block'.drop fileHeaderSize) := by
  have area : bmpDataSize w h = 3 * (w.toNat * h.toNat) := Nat.mul_assoc _ _ _
  have fits : ∀ e ∈ strokes fileHeaderSize drawn, e.1 + e.2.length ≤ block.length := by
    intro e member
    obtain ⟨d,listed,rfl⟩ := List.mem_map.mp member
    obtain ⟨k,inside,place⟩ := draws_place draws listed
    simp only [rgbBytes,List.length_cons,List.length_nil]
    omega
  obtain ⟨block',painted⟩ := storeAll_some fits
  have length := storeAll_length painted
  refine ⟨block',painted,length,fun c' w' h' found' => ?_,fun c' w' h' found' row below col left => ?_⟩
  · obtain ⟨rfl,rfl,rfl⟩ : c = c' ∧ w = w' ∧ h = h' := by simpa using found.symm.trans found'
    rw [List.length_drop,length,whole]
    omega
  · obtain ⟨rfl,rfl,rfl⟩ : c = c' ∧ w = w' ∧ h = h' := by simpa using found.symm.trans found'
    have drawn' : pixel yuvToRgb c w h data row col ∈ drawn := draws.pixels.mem_iff.mpr
      (List.mem_flatMap.mpr ⟨row,List.mem_range.mpr below,List.mem_map.mpr ⟨col,List.mem_range.mpr left,rfl⟩⟩)
    have stroke := List.mem_map_of_mem (f := fun e : Nat × Rgb => (fileHeaderSize + e.1,rgbBytes e.2)) drawn'
    rw [pixel_place] at stroke
    have cells (j : Nat) (inside : j < 3) := storeAll_inside (j := j) painted (strokes_apart draws _) stroke inside
    refine List.ext_getElem? fun j => ?_
    rw [List.getElem?_take,List.drop_drop,List.getElem?_drop]
    split
    · next inside => rw [← cells j inside,Nat.add_assoc]
    · next outside => simp [rgbBytes,outside]

end Bano.Camera
