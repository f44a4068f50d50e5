import Mathlib.Data.List.TakeWhile
import Bano.Numerals

/-! Arrays where they lie in a file: what is behind a token matters only if its last number
has no byte but white ones, for then strtoul goes on to what comes next. -/
namespace Bano

open Lib

/-- What is behind the token is white, or nothing. -/
def Text.Ended (s : Text) : Prop := ∀ c ∈ s.after.head?, isWhite c

/-- The last of n numbers is white all through: strtoul takes a vertical tab
or a form feed for a space, and next_token does not. -/
def ReadsOn (n : Nat) (s : Token) : Prop := s.length = n * 5 - 1 ∧ ∀ c ∈ s.drop ((n - 1) * 5), isCSpace c

theorem digitsVal_stops {s after : List UInt8} (stop : ∀ c ∈ after.head?, base ≤ digitVal c) :
    digitsVal base (s ++ after) = digitsVal base s := by
  have nothing : after.takeWhile (fun c => digitVal c < base) = [] := by
    cases after with
    | nil => rfl
    | cons c after =>
      have large := stop c rfl
      simp [Nat.not_lt.mpr large]
  rw [digitsVal,digitsVal,List.takeWhile_append,nothing,List.append_nil]
  split
  · next whole =>
    have all : s.takeWhile (fun c => digitVal c < base) = s := (List.takeWhile_prefix _).eq_of_length whole
    rw [all]
  · rfl

/-- No prefix is completed by a white byte. -/
theorem skipHex_stops {s after : List UInt8} (stop : ∀ c ∈ after.head?, isWhite c) :
    digitsVal 16 (skipHex (s ++ after)) = digitsVal 16 (skipHex s) := by
  have stop' : ∀ c ∈ after.head?, 16 ≤ digitVal c := fun c head => white_stops (stop c head)
  have plain : ∀ c ∈ after.head?, c ≠ 48 ∧ c ≠ 120 ∧ c ≠ 88 := by
    intro c head
    have white := stop c head
    refine ⟨?_,?_,?_⟩ <;> rintro rfl <;> exact absurd white (by decide)
  match s with
  | [] =>
    have kept : skipHex after = after := by
      match after with
      | [] => rfl
      | [_] => rfl
      | c :: _ :: _ => simp [skipHex,(plain c rfl).1]
    rw [List.nil_append,kept]
    exact digitsVal_stops (s := []) stop'
  | [c] =>
    have kept : skipHex (c :: after) = c :: after := by
      match after with
      | [] => rfl
      | x :: _ => simp [skipHex,(plain x rfl).2.1,(plain x rfl).2.2]
    show digitsVal 16 (skipHex (c :: after)) = digitsVal 16 [c]
    rw [kept]
    exact digitsVal_stops (s := [c]) stop'
  | c :: x :: s =>
    simp only [List.cons_append,skipHex]
    split
    · exact digitsVal_stops stop'
    · exact digitsVal_stops (s := c :: x :: s) stop'

/-- A number that begins in the token is read from the token. -/
theorem strtoul_stops {s after : List UInt8} (begins : ¬∀ c ∈ s, isCSpace c) (stop : ∀ c ∈ after.head?, isWhite c) :
    strtoul (s ++ after) 16 = strtoul s 16 := by
  have rest : s.dropWhile isCSpace ≠ [] := by
    rw [ne_eq,List.dropWhile_eq_nil_iff]
    exact begins
  have skipped : (s ++ after).dropWhile isCSpace = s.dropWhile isCSpace ++ after := by
    rw [List.dropWhile_append,if_neg (by simpa using rest)]
  cases tail : s.dropWhile isCSpace with
  | nil => exact absurd tail rest
  | cons c t =>
    have sign : skipSign (c :: t ++ after) = ((skipSign (c :: t)).1,(skipSign (c :: t)).2 ++ after) := by
      simp only [List.cons_append,skipSign]
      split
      · rfl
      split <;> rfl
    have digits := skipHex_stops (s := (skipSign (c :: t)).2) stop
    simp only [strtoul,skipped,tail,sign,if_true,digits]

theorem item_begins (short : s.length = n * 5 - 1) (ends : ¬ReadsOn n s) (item : i < n) :
    i * 5 ≤ s.length ∧ ¬∀ c ∈ s.drop (i * 5), isCSpace c := by
  refine ⟨by omega,fun white => ends ⟨short,fun c member => ?_⟩⟩
  have later : s.drop ((n - 1) * 5) = (s.drop (i * 5)).drop ((n - 1 - i) * 5) := by
    rw [List.drop_drop]
    congr 1
    omega
  rw [later] at member
  exact white c (List.mem_of_mem_drop member)

/-- An array is read from its token, unless it reads on. -/
theorem banoStringToArray_ended {s : Text} (ended : s.Ended) (ends : ¬ReadsOn n s.token) :
    banoStringToArray s n = banoStringToArray ⟨s.token,[]⟩ n := by
  unfold banoStringToArray
  split
  · rfl
  · next length =>
    refine congrArg some (List.map_congr_left fun i member => ?_)
    obtain ⟨inside,begins⟩ := item_begins (not_not.mp length) ends (List.mem_range.mp member)
    rw [List.append_nil,List.drop_append_of_le_length inside,strtoul_stops begins ended]

theorem banoStringToArray_none (s : Text) (n : Nat) : banoStringToArray s n = none ↔
    banoStringToArray ⟨s.token,[]⟩ n = none := by
  unfold banoStringToArray
  split <;> simp

end Bano
