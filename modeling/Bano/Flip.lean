import Mathlib.Algebra.GroupWithZero.Nat
import Bano.Lib.Bytes
import Bano.Lib.Outcome
import Bano.Lib.Raster
import Bano.BanoList

/-! The vertical flip of bano_cam.c, in memory that starts at `data`: an access beyond it is a fault.
Lines are exchanged by words of four bytes, and what is left of them by a switch. -/
namespace Bano

open Lib

/-- `w` words of a line. -/
def swapWords : Nat → Nat → Nat → List UInt8 → Option (List UInt8)
  | 0, _, _, mem => some mem
  | w + 1, a, b, mem => (exchange 4 a b mem).bind (swapWords w (a + 4) (b + 4))

/-- The switch on what is left of a line. The default is case 1: it is also taken when nothing is left. -/
def swapRest (n a b : Nat) (mem : List UInt8) : Option (List UInt8) :=
  -- passthru
  if n = 3 then (exchange 1 a b mem).bind (exchange 2 (a + 1) (b + 1))
  else if n = 2 then exchange 2 a b mem
  else exchange 1 a b mem

def swapLines (w : U32) (a b : Nat) (mem : List UInt8) : Option (List UInt8) :=
  let n := w &&& (4 - 1)
  let w := w / 4
  (swapWords w.toNat a b mem).bind (swapRest n.toNat (a + 4 * w.toNat) (b + 4 * w.toNat))

/-- The loop on j and k; each turn takes one of the fuel. -/
def vflipFrom (l : U32) : Nat → U32 → U32 → List UInt8 → Outcome (List UInt8)
  | 0, _, _, _ => .running
  | fuel + 1, j, k, data =>
    if j < k then do
      let data ← .ofOption (swapLines l j.toNat k.toNat data)
      vflipFrom l fuel (j + l) (k - l) data
    else .done data

def transVflipRgb24 (fuel : Nat) (data : List UInt8) (w h : U32) : Outcome (List UInt8) :=
  let l := w * 3
  vflipFrom l fuel 0 ((h - 1) * l) data

/-- What a flip leaves of an image, whatever memory there is behind it: if
there is none, an access outside the image is a fault. -/
structure FlipsTo (w h : U32) (image out : List UInt8) : Prop where
  result : ∀ rest, ∃ fuel, transVflipRgb24 fuel (image ++ rest) w h = .done (out ++ rest)
  length : out.length = image.length
  rows : ∀ r < h.toNat, row (3 * w.toNat) r out = row (3 * w.toNat) (h.toNat - 1 - r) image

/-- The image is flipped, and flipped back by a second call. -/
def FlipsVertically (w h : U32) (image : List UInt8) : Prop := ∃ out, FlipsTo w h image out ∧ FlipsTo w h out image

theorem swapWords_exchanges (w : Nat) : Exchanges (4 * w) (swapWords w) := by
  induction w with
  | zero => exact .none
  | succ w ih =>
    have step := (exchange_exchanges 4).then ih
    rwa [show 4 + 4 * w = 4 * (w + 1) by omega] at step

theorem swapRest_exchanges (one : 0 < n) (few : n < 4) : Exchanges n (swapRest n) := by
  obtain rfl | rfl | rfl : n = 1 ∨ n = 2 ∨ n = 3 := by omega
  · exact exchange_exchanges 1
  · exact exchange_exchanges 2
  · exact (exchange_exchanges 1).then (exchange_exchanges 2)

theorem rest_toNat (l : U32) : (l &&& (4 - 1)).toNat = l.toNat % 4 := by
  rw [BitVec.toNat_and]
  exact Nat.and_two_pow_sub_one_eq_mod l.toNat 2

/-- Lines are exchanged unless they consist of words only. -/
theorem swapLines_exchanges (odd : l.toNat % 4 ≠ 0) : Exchanges l.toNat (swapLines l) := by
  have both := (swapWords_exchanges (l.toNat / 4)).then (swapRest_exchanges (n := l.toNat % 4) (by omega) (by omega))
  rw [Nat.div_add_mod] at both
  have words : (l / 4).toNat = l.toNat / 4 := BitVec.toNat_udiv
  intro front x mid y back lengthX lengthY
  rw [swapLines,rest_toNat,words]
  exact both front x mid y back lengthX lengthY

/-- The rows from j to k are the ones still to be exchanged; there is no row left when j has passed k. -/
theorem vflipFrom_rows {xs : List (List UInt8)} (odd : l.toNat % 4 ≠ 0) (lengths : ∀ x ∈ xs, x.length = l.toNat)
    (low : j.toNat = front.length) (high : k.toNat + l.toNat = front.length + xs.length * l.toNat)
    (fits : front.length + xs.length * l.toNat < 2 ^ 32) (enough : xs.length < fuel) :
    vflipFrom l fuel j k (front ++ xs.flatten ++ back) = .done (front ++ xs.reverse.flatten ++ back) := by
  induction fuel generalizing j k front xs back with
  | zero => omega
  | succ fuel ih =>
    have pos : 0 < l.toNat := by omega
    match xs, lengths with
    | [], _ =>
      have crossed : ¬j < k := by
        rw [BitVec.lt_def]
        simp at high
        omega
      rw [vflipFrom,if_neg crossed]
      rfl
    | [x], _ =>
      have met : ¬j < k := by
        rw [BitVec.lt_def]
        simp at high
        omega
      rw [vflipFrom,if_neg met]
      rfl
    | x :: x' :: xs, lengths =>
      obtain ⟨mid,y,split⟩ : ∃ mid y, x' :: xs = mid ++ [y] := by
        rcases List.eq_nil_or_concat (x' :: xs) with none | ⟨mid,y,split⟩
        · cases none
        · exact ⟨mid,y,by simpa using split⟩
      rw [split] at lengths high fits enough ⊢
      have lengthX := lengths x (by simp)
      have lengthY := lengths y (by simp)
      have lengthMid : mid.flatten.length = mid.length * l.toNat := flatten_lengths fun z member =>
        lengths z (by simp [member])
      have size : (x :: (mid ++ [y])).length * l.toNat = mid.length * l.toNat + 2 * l.toNat := by
        rw [← Nat.add_mul]
        simp
      rw [size] at high fits
      simp only [List.length_cons,List.length_append,List.length_nil] at enough
      have below : j < k := by
        rw [BitVec.lt_def]
        omega
      have place : k.toNat = (front ++ x ++ mid.flatten).length := by
        rw [List.length_append,List.length_append,lengthX,lengthMid]
        omega
      have swapped := swapLines_exchanges odd front x mid.flatten y back lengthX lengthY
      rw [← low,← place] at swapped
      have next : (j + l).toNat = (front ++ y).length := by
        rw [BitVec.toNat_add,List.length_append,lengthY,← low]
        exact Nat.mod_eq_of_lt (by omega)
      have before : (k - l).toNat = k.toNat - l.toNat := BitVec.toNat_sub_of_le (by rw [BitVec.le_def]; omega)
      have rest : vflipFrom l fuel (j + l) (k - l) (front ++ y ++ mid.flatten ++ (x ++ back)) =
          .done (front ++ y ++ mid.reverse.flatten ++ (x ++ back)) := by
        apply ih
        · exact fun z member => lengths z (by simp [member])
        · exact next
        · rw [before,List.length_append,lengthY]
          omega
        · rw [List.length_append,lengthY]
          omega
        · omega
      have start : front ++ (x :: (mid ++ [y])).flatten ++ back = front ++ x ++ mid.flatten ++ y ++ back := by simp
      have finish : front ++ (x :: (mid ++ [y])).reverse.flatten ++ back = front ++ y ++
          mid.reverse.flatten ++ (x ++ back) := by
        simp
      rw [vflipFrom,if_pos below,start,finish,swapped,Outcome.ofOption_some,Outcome.bind_done,← rest]
      simp

section
variable {w h : U32}

/-- The offset of the last line, in 32 bits. -/
theorem lastLine_toNat (pos : 1 ≤ h.toNat) (fits : 3 * w.toNat * h.toNat < 2 ^ 32) :
    (w * 3).toNat = 3 * w.toNat ∧ ((h - 1) * (w * 3)).toNat = (h.toNat - 1) * (3 * w.toNat) := by
  have below : 3 * w.toNat * 1 ≤ 3 * w.toNat * h.toNat := Nat.mul_le_mul_left _ pos
  have fewer : 3 * w.toNat * (h.toNat - 1) ≤ 3 * w.toNat * h.toNat := Nat.mul_le_mul_left _ (Nat.sub_le _ _)
  have line : (w * 3).toNat = 3 * w.toNat := by
    rw [BitVec.toNat_mul,Nat.mul_comm]
    exact Nat.mod_eq_of_lt (by simp; omega)
  have lines : (h - 1).toNat = h.toNat - 1 := BitVec.toNat_sub_of_le (by rw [BitVec.le_def]; exact pos)
  refine ⟨line,?_⟩
  rw [BitVec.toNat_mul,line,lines,Nat.mod_eq_of_lt (by rw [Nat.mul_comm]; omega)]

theorem transVflipRgb24_rows {xs : List (List UInt8)} (pos : 1 ≤ h.toNat) (fits : 3 * w.toNat * h.toNat < 2 ^ 32)
    (odd : w.toNat % 4 ≠ 0) (count : xs.length = h.toNat) (lengths : ∀ x ∈ xs, x.length = 3 * w.toNat)
    (rest : List UInt8) :
    transVflipRgb24 (h.toNat + 1) (xs.flatten ++ rest) w h = .done (xs.reverse.flatten ++ rest) := by
  obtain ⟨line,last⟩ := lastLine_toNat pos fits
  have odd' : (w * 3).toNat % 4 ≠ 0 := by
    rw [line]
    omega
  have flipped : vflipFrom (w * 3) (h.toNat + 1) 0 ((h - 1) * (w * 3)) ([] ++ xs.flatten ++ rest) =
      .done ([] ++ xs.reverse.flatten ++ rest) := by
    apply vflipFrom_rows odd'
    · rwa [line]
    · rfl
    · rw [last,line,count,← Nat.succ_mul,Nat.succ_eq_add_one,Nat.sub_add_cancel pos]
      simp
    · rw [count,line,Nat.mul_comm h.toNat]
      simpa using fits
    · omega
  exact flipped

/-- One row, or rows of nothing. -/
theorem transVflipRgb24_still (single : w = 0 ∨ h = 1) (data : List UInt8) :
    transVflipRgb24 1 data w h = .done data := by
  have stops : ¬(0 : U32) < (h - 1) * (w * 3) := by
    rcases single with rfl | rfl <;> simp
  rw [transVflipRgb24,vflipFrom,if_neg stops]

/-- The image as its rows, from the first or from the last. -/
theorem flipsTo_rows {xs : List (List UInt8)} (pos : 1 ≤ h.toNat) (fits : 3 * w.toNat * h.toNat < 2 ^ 32)
    (fine : w = 0 ∨ h = 1 ∨ w.toNat % 4 ≠ 0) (count : xs.length = h.toNat)
    (lengths : ∀ x ∈ xs, x.length = 3 * w.toNat) :
    FlipsTo w h xs.flatten xs.reverse.flatten where
  result := by
    intro rest
    by_cases odd : w.toNat % 4 = 0
    · have single : w = 0 ∨ h = 1 := by
        rcases fine with empty | one | other
        · exact .inl empty
        · exact .inr one
        · exact absurd odd other
      have same : xs.reverse.flatten = xs.flatten := by
        rcases single with rfl | rfl
        · have none : ∀ ys : List (List UInt8), (∀ y ∈ ys, y ∈ xs) → ys.flatten = [] := by
            intro ys inside
            exact List.flatten_eq_nil_iff.mpr fun y member => List.length_eq_zero_iff.mp (lengths y (inside y member))
          rw [none xs fun _ => id,none xs.reverse fun _ => List.mem_reverse.mp]
        · obtain ⟨x,rfl⟩ := List.length_eq_one_iff.mp count
          rfl
      rw [same]
      exact ⟨1,transVflipRgb24_still single _⟩
    · exact ⟨_,transVflipRgb24_rows pos fits odd count lengths rest⟩
  length := by simp
  rows := by
    intro r inside
    have lengths' : ∀ x ∈ xs.reverse, x.length = 3 * w.toNat := fun x member => lengths x (List.mem_reverse.mp member)
    rw [row_flatten lengths' (by rwa [List.length_reverse,count]),row_flatten lengths (by omega),List.getElem_reverse]
    simp only [count]

theorem flipsVertically_image {image : List UInt8} (pos : 1 ≤ h.toNat) (fits : 3 * w.toNat * h.toNat < 2 ^ 32)
    (whole : image.length = 3 * w.toNat * h.toNat) (fine : w = 0 ∨ h = 1 ∨ w.toNat % 4 ≠ 0) :
    FlipsVertically w h image := by
  rw [Nat.mul_comm] at whole
  have lengths := rows_lengths whole
  have count : (rows (3 * w.toNat) h.toNat image).length = h.toNat := by simp [rows]
  have joined : (rows (3 * w.toNat) h.toNat image).flatten = image := by rw [rows_flatten,← whole,List.take_length]
  have once := flipsTo_rows pos fits fine count lengths
  have twice := flipsTo_rows pos fits fine ((List.length_reverse).trans count) fun x member =>
    lengths x (List.mem_reverse.mp member)
  rw [List.reverse_reverse,joined] at twice
  rw [joined] at once
  exact ⟨_,once,twice⟩

/-- Lines of words only: one byte more is exchanged, and the one of the last line is behind the image. -/
theorem swapLines_words {l : U32} (words : l.toNat % 4 = 0) {x mid y : List UInt8} (lengthX : x.length = l.toNat)
    (lengthY : y.length = l.toNat) : swapLines l 0 (x ++ mid).length (x ++ mid ++ y) = none := by
  have swapped := swapWords_exchanges (l.toNat / 4) [] x mid y [] (by omega) (by omega)
  have quotient : (l / 4).toNat = l.toNat / 4 := BitVec.toNat_udiv
  simp only [List.nil_append,List.append_nil,List.length_nil] at swapped
  rw [swapLines,rest_toNat,quotient,swapped,Option.bind_some,words,swapRest,if_neg (by decide),if_neg (by decide)]
  apply exchange_beyond
  simp only [List.length_append]
  omega

theorem not_flipsTo_words {image out : List UInt8} (fits : 3 * w.toNat * h.toNat < 2 ^ 32)
    (whole : image.length = 3 * w.toNat * h.toNat) (words : w.toNat % 4 = 0) (wide : w ≠ 0) (high : 2 ≤ h.toNat) :
    ¬FlipsTo w h image out := by
  intro flips
  obtain ⟨line,last⟩ := lastLine_toNat (by omega) fits
  obtain ⟨fuel,done⟩ := flips.result []
  cases fuel with
  | zero => exact nomatch done
  | succ fuel =>
    have positive : 0 < w.toNat := Nat.pos_of_ne_zero fun zero => wide (BitVec.eq_of_toNat_eq zero)
    have split : image.length = (h.toNat - 1) * (3 * w.toNat) + 3 * w.toNat := by
      rw [whole,← Nat.succ_mul,Nat.succ_eq_add_one,Nat.sub_add_cancel (by omega),Nat.mul_comm]
    have several : 3 * w.toNat ≤ (h.toNat - 1) * (3 * w.toNat) := Nat.le_mul_of_pos_left _ (by omega)
    -- the first line, the last, and what is between them
    generalize (h.toNat - 1) * (3 * w.toNat) = k at last split several
    obtain ⟨mid,front⟩ : ∃ mid, image.take (3 * w.toNat) ++ mid = image.take k :=
      ⟨(image.drop (3 * w.toNat)).take (k - 3 * w.toNat),by rw [← List.take_add,Nat.add_sub_cancel' several]⟩
    have stuck : swapLines (w * 3) 0 (image.take (3 * w.toNat) ++ mid).length
        (image.take (3 * w.toNat) ++ mid ++ image.drop k) = none := by
      apply swapLines_words
      · rw [line]
        omega
      · rw [line,List.length_take]
        omega
      · rw [line,List.length_drop]
        omega
    rw [front,List.take_append_drop,List.length_take,Nat.min_eq_left (by omega)] at stuck
    have below : (0 : U32) < (h - 1) * (w * 3) := by
      rw [BitVec.lt_def,last]
      exact Nat.lt_of_lt_of_le (by simpa using positive) several
    rw [List.append_nil,transVflipRgb24,vflipFrom,if_pos below,last] at done
    have fault : Outcome.ofOption (swapLines (w * 3) (0 : U32).toNat k image) = .fault := by
      rw [show (0 : U32).toNat = 0 from rfl,stuck]
      rfl
    rw [fault] at done
    exact nomatch done

/-- An image is flipped unless it has several lines and they consist of words only. -/
theorem flipsVertically_iff (w h : U32) (pos : 1 ≤ h.toNat) (fits : 3 * w.toNat * h.toNat < 2 ^ 32)
    (image : List UInt8)
    (whole : image.length = 3 * w.toNat * h.toNat) : FlipsVertically w h image ↔ w = 0 ∨ h = 1 ∨ w.toNat % 4 ≠ 0 := by
  constructor
  · rintro ⟨out,flips,_⟩
    by_contra other
    push Not at other
    obtain ⟨wide,several,words⟩ := other
    have high : h.toNat ≠ 1 := fun one => several (BitVec.eq_of_toNat_eq one)
    exact not_flipsTo_words fits whole words wide (by omega) flips
  · exact flipsVertically_image pos fits whole

end

/-- One pixel wide, two lines high. -/
theorem flipsVertically_iff_one : FlipsVertically 1 2 [1,2,3,4,5,6] :=
  (flipsVertically_iff 1 2 (by decide) (by decide) _ rfl).mpr (by decide)

/-- Four pixels wide, two lines high: the byte behind the image is exchanged with the first of the second line. -/
theorem flipsVertically_four : ¬∀ (w h : U32) (image : List UInt8), 1 ≤ h.toNat → 3 * w.toNat * h.toNat < 2 ^ 32 →
    image.length = 3 * w.toNat * h.toNat → FlipsVertically w h image := by
  intro all
  have flips : FlipsVertically 4 2 (List.replicate 24 0) := all 4 2 _ (by decide) (by decide) (by simp)
  obtain ⟨out,flips,_⟩ := flips
  exact not_flipsTo_words (by decide) (by simp) (by decide) (by decide) (by decide) flips

end Bano
