import Bano.SizeT

/-! What the scanning loops find in a buffer that holds given bytes: the tokens of the list model, every sum
and difference of sizes being that of numbers. No loop is ever at a place behind the end. -/
namespace Bano.SizeT

open Lib

abbrev size (n : Nat) : Size := BitVec.ofNat 64 n

theorem size_inj (fits : a < 2 ^ 64) (fits' : b < 2 ^ 64) : size a = size b ↔ a = b := by
  constructor
  · intro same
    have same := congrArg BitVec.toNat same
    rwa [BitVec.toNat_ofNat,BitVec.toNat_ofNat,Nat.mod_eq_of_lt fits,Nat.mod_eq_of_lt fits'] at same
  · exact congrArg size

theorem size_add (a b : Nat) : size a + size b = size (a + b) := BitVec.ofNat_add_ofNat a b

theorem size_succ (a : Nat) : size a + 1#64 = size (a + 1) := size_add a 1

theorem size_sub (fits : a < 2 ^ 64) (within : b ≤ a) : size a - size b = size (a - b) :=
  BitVec.ofNat_sub_ofNat_of_le a b (Nat.lt_of_le_of_lt within fits) within

theorem size_toNat (fits : a < 2 ^ 64) : (size a).toNat = a := by
  rw [BitVec.toNat_ofNat,Nat.mod_eq_of_lt fits]

theorem size_of_toNat (s : Size) : size s.toNat = s := by rw [size,BitVec.ofNat_toNat,BitVec.setWidth_eq]

/-- The bytes at `s`. -/
structure Holds (region : Region) (s : Size) (data : List UInt8) : Prop where
  fits : data.length < 2 ^ 64
  byte : ∀ i c, data[i]? = some c → region (s + size i) = some c

section scanning

variable {region : Region} {s : Size} {data : List UInt8}

theorem Holds.drop (holds : Holds region s data) (i : Nat) : Holds region (s + size i) (data.drop i) where
  fits := Nat.lt_of_le_of_lt (List.length_drop ▸ Nat.sub_le _ _) holds.fits
  byte := by
    intro j c found
    rw [List.getElem?_drop] at found
    rw [BitVec.add_assoc,size_add]
    exact holds.byte _ _ found

theorem Holds.rest (holds : Holds region s data) (within : i ≤ data.length) :
    size data.length - size i = size (data.drop i).length := by
  rw [size_sub holds.fits within,List.length_drop]

theorem Holds.read (holds : Holds region s data) (found : data[i]? = some c) :
    SizeT.read region (s + size i) = .done c := by
  rw [SizeT.read,holds.byte i c found,Outcome.ofOption_some]

theorem Holds.size_eq (holds : Holds region s data) (within : i ≤ data.length) : size i = size data.length ↔
    i = data.length :=
  size_inj (Nat.lt_of_le_of_lt within holds.fits) holds.fits

theorem Holds.size_le (holds : Holds region s data) (within : k ≤ data.length) : size k ≤ size data.length := by
  have fits := holds.fits
  rw [BitVec.le_def,size_toNat (by omega),size_toNat fits]
  exact within

/-- The number of bytes before one that stops a loop. -/
def run (stops : UInt8 → Bool) (s : List UInt8) : Nat := (s.takeWhile fun c => !stops c).length

theorem run_le (stops : UInt8 → Bool) (s : List UInt8) : run stops s ≤ s.length :=
  (List.takeWhile_sublist _).length_le

theorem run_cons (stops : UInt8 → Bool) (c : UInt8) (s : List UInt8) :
    run stops (c :: s) = if stops c then 0 else run stops s + 1 := by
  cases stopped : stops c <;> simp [run,stopped]

theorem skipWhites_run (s : List UInt8) : Bano.skipWhites s = run (fun c => !isWhite c) s := by
  induction s with
  | nil => rfl
  | cons c s ih =>
    rw [run_cons,Bano.skipWhites,ih]
    cases isWhite c <;> rfl

theorem tokenSize_run (s : List UInt8) : tokenSize s = run (fun c => isSpace c || isNl c) s := by
  induction s with
  | nil => rfl
  | cons c s ih => rw [run_cons,tokenSize,ih]

theorem skipComment_run (s : List UInt8) :
    Bano.skipComment s = if run isNl s = s.length then run isNl s else run isNl s + 1 := by
  induction s with
  | nil => rfl
  | cons c s ih =>
    rw [run_cons,Bano.skipComment,ih,List.length_cons]
    split <;> split <;> simp_all

theorem seekTurn_cases (holds : Holds region s data) (stops : UInt8 → Bool) (within : k ≤ data.length) :
    run stops (data.drop k) = 0 ∧ seekTurn region s (size data.length) stops (size k) = .done (.stop (size k)) ∨
    k < data.length ∧ run stops (data.drop k) = run stops (data.drop (k + 1)) + 1 ∧
      seekTurn region s (size data.length) stops (size k) = .done (.next (size (k + 1))) := by
  rcases Nat.eq_or_lt_of_le within with rfl | before
  · exact .inl ⟨by simp [run],by simp [seekTurn]⟩
  · have byte := holds.read (List.getElem?_eq_getElem before)
    have differs : size k ≠ size data.length := fun same => Nat.ne_of_lt before ((holds.size_eq within).mp same)
    rw [List.drop_eq_getElem_cons before,run_cons,seekTurn,if_neg differs,byte]
    cases stopped : stops data[k] with
    | true => exact .inl ⟨rfl,by simp [stopped]⟩
    | false => exact .inr ⟨before,rfl,by simp [stopped,size_succ]⟩

theorem seek_loop (holds : Holds region s data) (stops : UInt8 → Bool) (fuel : Nat) (within : k ≤ data.length)
    (enough : data.length - k < fuel) :
    loop (seekTurn region s (size data.length) stops) fuel (size k) = .done (size (k + run stops (data.drop k))) := by
  induction fuel generalizing k with
  | zero => omega
  | succ fuel ih =>
    rcases seekTurn_cases holds stops within with ⟨none,stop⟩ | ⟨before,more,next⟩
    · rw [loop_stop stop,none,Nat.add_zero]
    · rw [loop_next next,ih (k := k + 1) before (by omega),more,Nat.add_right_comm,Nat.add_assoc]

theorem seek_spec (holds : Holds region s data) (stops : UInt8 → Bool) (within : k ≤ data.length) :
    seek region s (size data.length) stops (size k) = .done (size (k + run stops (data.drop k))) := by
  apply seek_loop holds stops _ within
  rw [size_toNat holds.fits]
  omega

/-- A place of a loop that is not behind `n`. -/
def Inside (data : List UInt8) (i : Size) : Prop := ∃ m ≤ data.length, i = size m

theorem seek_starts (holds : Holds region s data) (stops : UInt8 → Bool) (inside : Inside data i)
    (starts : Starts (seekTurn region s (size data.length) stops) i j) : Inside data j := by
  have turns : ∀ i, Inside data i →
      Ends (Inside data) (fun _ => True) (seekTurn region s (size data.length) stops i) := by
    rintro _ ⟨k,within,rfl⟩
    rcases seekTurn_cases holds stops within with ⟨_,stop⟩ | ⟨before,_,next⟩
    · exact stop ▸ .stop trivial
    · exact next ▸ .next ⟨k + 1,before,rfl⟩
  exact starts.invariant (Inside data) inside turns

theorem skipWhites_spec (holds : Holds region s data) :
    skipWhites region s (size data.length) = .done (size (Bano.skipWhites data)) := by
  have found := seek_spec holds (fun c => !isWhite c) (Nat.zero_le _)
  rw [List.drop_zero,Nat.zero_add,← skipWhites_run] at found
  exact found

theorem skipComment_spec (holds : Holds region s data) :
    skipComment region s (size data.length) = .done (size (Bano.skipComment data)) := by
  have found := seek_spec holds isNl (Nat.zero_le _)
  have within := run_le isNl data
  rw [List.drop_zero,Nat.zero_add] at found
  have started : seek region s (size data.length) isNl 0 = .done (size (run isNl data)) := found
  rw [skipComment,started,Outcome.bind_done,skipComment_run]
  by_cases atEnd : run isNl data = data.length
  · rw [if_pos atEnd,if_neg (not_not.mpr ((holds.size_eq within).mpr atEnd))]
  · rw [if_neg atEnd,if_pos fun same => atEnd ((holds.size_eq within).mp same)]
    exact congrArg Outcome.done (size_succ _)

theorem skipWhites_at (holds : Holds region s data) (within : k ≤ data.length) :
    skipWhites region (s + size k) (size data.length - size k) = .done (size (Bano.skipWhites (data.drop k))) := by
  rw [holds.rest within]
  exact skipWhites_spec (holds.drop k)

theorem skipComment_at (holds : Holds region s data) (within : k ≤ data.length) :
    skipComment region (s + size k) (size data.length - size k) = .done (size (Bano.skipComment (data.drop k))) := by
  rw [holds.rest within]
  exact skipComment_spec (holds.drop k)

theorem skipWhites_within (within : k ≤ data.length) : k + Bano.skipWhites (data.drop k) ≤ data.length := by
  have most := skipWhites_le (data.drop k)
  rw [List.length_drop] at most
  omega

/-- A turn skips the blanks at `k` and, if there is one, the comment after them. -/
theorem skipTurn_cases (holds : Holds region s data) (within : k ≤ data.length) :
    ((∀ c rest, data.drop (k + Bano.skipWhites (data.drop k)) = c :: rest → isComment c = false) ∧
      skipTurn region s (size data.length) (size k) = .done (.stop (size (k + Bano.skipWhites (data.drop k))))) ∨
    ∃ c rest, data.drop (k + Bano.skipWhites (data.drop k)) = c :: rest ∧ isComment c = true ∧
      skipTurn region s (size data.length) (size k) =
        .done (.next (size (k + Bano.skipWhites (data.drop k) + Bano.skipComment (c :: rest)))) := by
  rcases Nat.eq_or_lt_of_le within with rfl | before
  · refine .inl ⟨fun c rest at' => ?_,by simp [skipTurn,Bano.skipWhites]⟩
    rw [List.drop_length,Bano.skipWhites,Nat.add_zero,List.drop_length] at at'
    cases at'
  have differs : size k ≠ size data.length := fun same => Nat.ne_of_lt before ((holds.size_eq within).mp same)
  have blanks : skipIfWhite region s (size data.length) (size k) data[k] =
      .done (size (k + Bano.skipWhites (data.drop k))) := by
    cases white : isWhite data[k] with
    | true => rw [skipIfWhite,if_pos white,skipWhites_at holds within,Outcome.bind_done,size_add]
    | false =>
      have none : Bano.skipWhites (data.drop k) = 0 := by
        rw [List.drop_eq_getElem_cons before,Bano.skipWhites,white]
        rfl
      rw [skipIfWhite,white,none]
      rfl
  have inside := skipWhites_within within
  rw [skipTurn,if_neg differs,holds.read (List.getElem?_eq_getElem before),Outcome.bind_done,blanks,Outcome.bind_done]
  generalize k + Bano.skipWhites (data.drop k) = m at inside
  rcases Nat.eq_or_lt_of_le inside with rfl | before
  · exact .inl ⟨fun c rest at' => by simp at at',if_pos rfl⟩
  have differs : size m ≠ size data.length := fun same => Nat.ne_of_lt before ((holds.size_eq inside).mp same)
  have rest := List.drop_eq_getElem_cons before
  rw [if_neg differs,holds.read (List.getElem?_eq_getElem before),Outcome.bind_done]
  cases comment : isComment data[m] with
  | false =>
    refine .inl ⟨fun c t at' => ?_,rfl⟩
    obtain ⟨rfl,_⟩ := List.cons.inj (rest.symm.trans at')
    exact comment
  | true =>
    refine .inr ⟨data[m],data.drop (m + 1),rest,comment,?_⟩
    rw [if_pos rfl,skipComment_at holds inside,Outcome.bind_done,size_add,rest]

theorem skip_loop (holds : Holds region s data) (fuel : Nat) (within : k ≤ data.length)
    (enough : data.length - k < fuel) :
    loop (skipTurn region s (size data.length)) fuel (size k) = .done (size (k + skipTurns fuel (data.drop k))) := by
  induction fuel generalizing k with
  | zero => omega
  | succ fuel ih =>
    have inside := skipWhites_within within
    simp only [skipTurns,List.drop_drop]
    rcases skipTurn_cases holds within with ⟨none,stop⟩ | ⟨c,rest,found,comment,next⟩
    · rw [loop_stop stop]
      split
      · rfl
      · next c rest found => rw [none c rest found,if_neg Bool.false_ne_true]
    · have pos := skipComment_pos c rest
      have most := skipComment_le (c :: rest)
      have left := congrArg List.length found
      rw [List.length_drop] at left
      rw [loop_next next,ih (by omega) (by omega),found]
      simp only [comment,if_true]
      rw [← found,List.drop_drop]
      congr 2
      omega

theorem skipCommentsAndWhites_size (holds : Holds region s data) :
    skipCommentsAndWhites region s (size data.length) = .done (size (Bano.skipCommentsAndWhites data)) := by
  have found := skip_loop holds (data.length + 1) (Nat.zero_le _) (Nat.lt_succ_self _)
  rw [List.drop_zero,Nat.zero_add] at found
  rw [skipCommentsAndWhites,size_toNat holds.fits]
  exact found

theorem skip_starts (holds : Holds region s data) (inside : Inside data i)
    (starts : Starts (skipTurn region s (size data.length)) i j) : Inside data j := by
  have turns : ∀ i, Inside data i → Ends (Inside data) (fun _ => True) (skipTurn region s (size data.length) i) := by
    rintro _ ⟨k,within,rfl⟩
    rcases skipTurn_cases holds within with ⟨_,stop⟩ | ⟨c,rest,found,_,next⟩
    · exact stop ▸ .stop trivial
    · have most := skipComment_le (c :: rest)
      have left := congrArg List.length found
      have inside := skipWhites_within within
      rw [List.length_drop] at left
      exact next ▸ .next ⟨_,by omega,rfl⟩
  exact starts.invariant (Inside data) inside turns

/-- next_token finds the token of the list model. -/
theorem nextToken_size (holds : Holds region s data) :
    nextToken region s (size data.length) = .done (size (Bano.nextToken data).1,size (Bano.nextToken data).2) := by
  have within := (skipCommentsAndWhites_spec data).1
  have most := nextToken_le data
  have length := size_sub (Nat.lt_of_le_of_lt most holds.fits) (Nat.le_add_right _ _)
  rw [Nat.add_sub_cancel_left] at length
  rw [nextToken,skipCommentsAndWhites_size holds,Outcome.bind_done,seek_spec holds _ within,← tokenSize_run,
    Outcome.bind_done]
  exact congrArg (fun j => Outcome.done (size (Bano.nextToken data).1,j)) length

theorem nextToken_at (holds : Holds region s data) (within : k ≤ data.length) :
    nextToken region (s + size k) (size data.length - size k) =
      .done (size (Bano.nextToken (data.drop k)).1,size (Bano.nextToken (data.drop k)).2) := by
  rw [holds.rest within]
  exact nextToken_size (holds.drop k)

theorem size_eq_zero (fits : a < 2 ^ 64) : size a = 0 ↔ a = 0 := size_inj fits (Nat.two_pow_pos 64)

theorem size_eq_one (fits : a < 2 ^ 64) : size a = 1 ↔ a = 1 := size_inj fits (Nat.one_lt_two_pow (by decide))

theorem size_place (place : size start = s) (k : Nat) : size (start + k) = s + size k := by
  rw [← size_add,place]

end scanning

section token

variable {s : List UInt8}

theorem skipWhites_before (before : m < Bano.skipWhites s) : ∃ c, s[m]? = some c ∧ isWhite c = true := by
  induction s generalizing m with
  | nil => exact nomatch before
  | cons c s ih =>
    rw [Bano.skipWhites] at before
    split at before
    · next white =>
      cases m with
      | zero => exact ⟨c,rfl,white⟩
      | succ m => exact ih (by omega)
    · omega

/-- A comment that does not go on to the end of the input ends with its line. -/
theorem skipComment_before (more : Bano.skipComment s < s.length) :
    ∃ c, s[Bano.skipComment s - 1]? = some c ∧ isWhite c = true := by
  induction s with
  | nil => cases more
  | cons c s ih =>
    rw [Bano.skipComment] at more ⊢
    cases nl : isNl c with
    | true => exact ⟨c,rfl,by simp [isWhite,nl]⟩
    | false =>
      rw [nl,if_neg Bool.false_ne_true,List.length_cons] at more
      obtain ⟨d,found,white⟩ := ih (by omega)
      refine ⟨d,?_,white⟩
      cases s with
      | nil => cases found
      | cons e s =>
        obtain ⟨k,pos⟩ := Nat.exists_eq_add_of_lt (skipComment_pos e s)
        rw [Nat.zero_add] at pos
        rw [pos] at found ⊢
        exact found

theorem skipTurns_before (fuel : Nat) (more : skipTurns fuel s < s.length) (pos : 0 < skipTurns fuel s) :
    ∃ c, s[skipTurns fuel s - 1]? = some c ∧ isWhite c = true := by
  induction fuel generalizing s with
  | zero => exact nomatch pos
  | succ fuel ih =>
    cases rest : s.drop (Bano.skipWhites s) with
    | nil =>
      simp only [skipTurns,rest] at more
      rw [List.drop_eq_nil_iff] at rest
      omega
    | cons c t =>
      simp only [skipTurns,rest] at more pos ⊢
      have lengths := congrArg List.length rest
      rw [List.length_drop] at lengths
      -- A byte of what follows the blanks.
      have later : ∀ m, s[Bano.skipWhites s + m]? = (c :: t)[m]? := fun m => by rw [← rest,List.getElem?_drop]
      cases comment : isComment c with
      | false =>
        simp only [comment,Bool.false_eq_true,if_false] at more pos ⊢
        exact skipWhites_before (by omega)
      | true =>
        simp only [comment,if_true] at more pos ⊢
        have some := skipComment_pos c t
        by_cases last : skipTurns fuel ((c :: t).drop (Bano.skipComment (c :: t))) = 0
        · rw [last,Nat.add_zero] at more ⊢
          obtain ⟨d,found,white⟩ := skipComment_before (s := c :: t) (by omega)
          refine ⟨d,?_,white⟩
          rw [Nat.add_sub_assoc some,later,found]
        · obtain ⟨d,found,white⟩ := ih (s := (c :: t).drop (Bano.skipComment (c :: t)))
            (by rw [List.length_drop]; omega) (by omega)
          refine ⟨d,?_,white⟩
          rw [Nat.add_assoc,Nat.add_sub_assoc (by omega),later,← found,List.getElem?_drop]
          congr 1
          omega

theorem tokenSize_inside (inside : m < tokenSize s) : ∃ c, s[m]? = some c ∧ isWhite c = false := by
  induction s generalizing m with
  | nil => cases inside
  | cons c s ih =>
    have same : (isSpace c || isNl c) = isWhite c := Bool.or_comm _ _
    rw [tokenSize,same] at inside
    cases white : isWhite c with
    | true => rw [white,if_pos rfl] at inside; cases inside
    | false =>
      rw [white,if_neg Bool.false_ne_true] at inside
      cases m with
      | zero => exact ⟨c,rfl,white⟩
      | succ m => exact ih (by omega)

theorem tokenSize_after (more : tokenSize s < s.length) : ∃ c, s[tokenSize s]? = some c ∧ isWhite c = true := by
  induction s with
  | nil => exact nomatch more
  | cons c s ih =>
    have same : (isSpace c || isNl c) = isWhite c := Bool.or_comm _ _
    rw [tokenSize,same] at more ⊢
    cases white : isWhite c with
    | true => exact ⟨c,rfl,white⟩
    | false =>
      rw [white,if_neg Bool.false_ne_true,List.length_cons] at more
      exact ih (by omega)

/-- A maximal run of bytes that are not white, which does not start with '#'; none at the end of the input.
What stands before it is white or in comments, and a comment that goes on to the end leaves no token. -/
structure IsToken (data : List UInt8) (o z : Nat) : Prop where
  skipped : Blank (data.take o) ∨ z = 0 ∧ EndsInComment data
  inside : o + z ≤ data.length
  none : z = 0 → o = data.length
  solid : ∀ i, o ≤ i → i < o + z → ∃ c, data[i]? = some c ∧ isWhite c = false
  start : z ≠ 0 → ∃ c, data[o]? = some c ∧ isComment c = false
  before : z ≠ 0 → 0 < o → ∃ c, data[o - 1]? = some c ∧ isWhite c = true
  after : o + z < data.length → ∃ c, data[o + z]? = some c ∧ isWhite c = true

theorem nextToken_isToken (data : List UInt8) : IsToken data (Bano.nextToken data).1 (Bano.nextToken data).2 := by
  have bound := nextToken_le data
  have rest : ∀ m, data[(Bano.nextToken data).1 + m]? = (data.drop (Bano.nextToken data).1)[m]? := fun m =>
    List.getElem?_drop.symm
  refine ⟨?_,bound,nextToken_end,?_,?_,?_,?_⟩
  · refine (skipTurns_blank _ data).imp_right fun ⟨atEnd,ends⟩ => ⟨?_,ends⟩
    have at' : (Bano.nextToken data).1 = data.length := atEnd
    exact Nat.eq_zero_of_le_zero (Nat.le_of_add_le_add_left (at' ▸ bound))
  · intro i from' below
    obtain ⟨c,found,solid⟩ := tokenSize_inside (s := data.drop (Bano.nextToken data).1)
      (m := i - (Bano.nextToken data).1)
      (Nat.sub_lt_left_of_lt_add from' below)
    rw [← rest,Nat.add_sub_cancel' from'] at found
    exact ⟨c,found,solid⟩
  · intro some
    obtain ⟨c,found⟩ := token_live some
    refine ⟨c,found,?_⟩
    obtain ⟨bound,rfl⟩ := List.getElem?_eq_some_iff.mp found
    exact ((skipCommentsAndWhites_spec data).2 _ _ (List.drop_eq_getElem_cons bound)).2
  · exact fun some pos =>
      skipTurns_before _ (Nat.lt_of_lt_of_le (Nat.lt_add_of_pos_right (Nat.pos_of_ne_zero some)) bound) pos
  · intro more
    obtain ⟨c,found,white⟩ := tokenSize_after (s := data.drop (Bano.nextToken data).1)
      (by rw [List.length_drop]; exact Nat.lt_sub_of_add_lt (Nat.add_comm _ _ ▸ more))
    rw [← rest] at found
    exact ⟨c,found,white⟩

end token

end Bano.SizeT
