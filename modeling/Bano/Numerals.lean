import Bano.Keyval
import Bano.Lib.Digits

/-! Numbers and arrays of bytes in a configuration: what a well-formed token denotes, and that the
functions of bano_string.c read it so. They read every other token too, unless it is too long. -/
namespace Bano

open Lib

def decimalDigit (c : UInt8) : Option Nat := if 48 ≤ c ∧ c ≤ 57 then some (c.toNat - 48) else none

/-- In upper or lower case. -/
def hexDigit (c : UInt8) : Option Nat :=
  if 48 ≤ c ∧ c ≤ 57 then some (c.toNat - 48)
  else if 65 ≤ c ∧ c ≤ 70 then some (c.toNat - 55)
  else if 97 ≤ c ∧ c ≤ 102 then some (c.toNat - 87)
  else none

/-- A well-formed numeral and its value. -/
inductive Numeral : Token → Nat → Prop where
  | decimal : s ≠ [] → Spells decimalDigit s ds → Numeral s (positional 10 ds)
  | hex : s ≠ [] → Spells hexDigit s ds → Numeral (literal "0x" ++ s) (positional 16 ds)

theorem hexDigit_some (digit : hexDigit c = some d) : digitVal c = d ∧ d < 16 := by
  simp only [hexDigit,digitVal,UInt8.le_iff_toNat_le,Bool.and_eq_true,decide_eq_true_eq] at *
  split_ifs at * <;> simp at * <;> omega

theorem decimalDigit_some (digit : decimalDigit c = some d) : digitVal c = d ∧ d < 10 ∧ hexDigit c = some d := by
  simp only [decimalDigit,hexDigit,digitVal,UInt8.le_iff_toNat_le,Bool.and_eq_true,decide_eq_true_eq] at *
  split_ifs at *
  simp at *
  omega

/-- A digit is no space, no sign and no x. -/
theorem hexDigit_plain (digit : hexDigit c = some d) : isCSpace c = false ∧ c ≠ 43 ∧ c ≠ 45 ∧
    c ≠ 120 ∧ c ≠ 88 := by
  simp only [hexDigit,isCSpace,UInt8.le_iff_toNat_le,← UInt8.toNat_inj] at *
  split_ifs at * <;> simp [← UInt8.toNat_inj] at * <;> omega

/-- A scan stops where no digit follows. -/
theorem digitsVal_spells (spells : Spells digit s ds) (value : ∀ c d, digit c = some d → digitVal c = d ∧ d < base)
    (stop : ∀ c ∈ after.head?, base ≤ digitVal c) : digitsVal base (s ++ after) = positional base ds := by
  have scanned : (s ++ after).takeWhile (fun c => digitVal c < base) = s :=
    spells.takeWhile (fun c d found => by simp [value c d found]) (fun c head => by simpa using stop c head)
  rw [digitsVal,scanned,positional_eq_foldl]
  exact spells.foldl (fun c d found => (value c d found).1) base 0

/-- Neither space nor sign comes before the digits. -/
theorem strtoul_plain (plain : isCSpace c = false ∧ c ≠ 43 ∧ c ≠ 45)
    (value : digitsVal base (if base = 16 then skipHex (c :: s) else c :: s) = n) (fits : n ≤ ulongMax) :
    strtoul (c :: s) base = n := by
  obtain ⟨space,plus,minus⟩ := plain
  have start : skipSign ((c :: s).dropWhile isCSpace) = (false,c :: s) := by simp [space,skipSign,plus,minus]
  simp only [strtoul,start,value]
  rw [if_neg (Nat.not_lt.mpr fits)]
  rfl

theorem strtoul_decimal (nonempty : s ≠ []) (spells : Spells decimalDigit s ds) (fits : positional 10 ds ≤ ulongMax) :
    strtoul s (getBase s) = positional 10 ds := by
  have value : digitsVal 10 (s ++ []) = positional 10 ds :=
    digitsVal_spells spells (fun c d found => ⟨(decimalDigit_some found).1,(decimalDigit_some found).2.1⟩) (by simp)
  rw [List.append_nil] at value
  cases spells with
  | nil => exact absurd rfl nonempty
  | @cons c d s ds head rest =>
    have plain := hexDigit_plain (decimalDigit_some head).2.2
    have base : getBase (c :: s) = 10 := by
      cases rest with
      | nil => rfl
      | cons next _ => simp [getBase,(hexDigit_plain (decimalDigit_some next).2.2).2.2.2.1]
    rw [base]
    exact strtoul_plain ⟨plain.1,plain.2.1,plain.2.2.1⟩ value fits

/-- What follows the digits is not read. -/
theorem strtoul_hex (spells : Spells hexDigit s ds) (stop : ∀ c ∈ after.head?, 16 ≤ digitVal c)
    (fits : positional 16 ds ≤ ulongMax) :
    strtoul (literal "0x" ++ s ++ after) 16 = positional 16 ds := by
  have value := digitsVal_spells spells (fun _ _ => hexDigit_some) stop
  show strtoul (48 :: 120 :: (s ++ after)) 16 = positional 16 ds
  exact strtoul_plain (by decide) value fits

theorem strtoul_numeral (numeral : Numeral s n) (fits : n ≤ ulongMax) : strtoul s (getBase s) = n := by
  cases numeral with
  | decimal nonempty spells => exact strtoul_decimal nonempty spells fits
  | @hex s ds _ spells =>
    have read : strtoul (literal "0x" ++ s ++ []) 16 = positional 16 ds := strtoul_hex spells (by simp) fits
    rw [List.append_nil] at read
    exact read

theorem banoStringToUint32_numeral (numeral : Numeral s n) (short : s.length ≤ 31) (fits : n < 2 ^ 32) :
    banoStringToUint32 s = some (BitVec.ofNat 32 n) := by
  have read := strtoul_numeral numeral (Nat.le_of_lt (Nat.lt_of_lt_of_le fits (by decide)))
  rw [banoStringToUint32,if_neg (by omega),read]

theorem banoStringToUint16_numeral (numeral : Numeral s n) (short : s.length ≤ 31) (fits : n < 2 ^ 16) :
    banoStringToUint16 s = some (BitVec.ofNat 16 n) := by
  rw [banoStringToUint16,banoStringToUint32_numeral numeral short (by omega),Option.map_some]
  exact congrArg some (BitVec.setWidth_ofNat_of_le (by decide) n)

/-- The number is read as the numeral denotes it, or the token is refused. -/
def ReadsExactly (read : Option (BitVec w)) (s : Token) : Prop :=
  ∀ x, read = some x ↔ s.length ≤ 31 ∧ Numeral s x.toNat

/-- A function that takes every short token is exact on the numerals, and on the tokens that it refuses. -/
theorem readsExactly_iff {read : Token → Option (BitVec w)} (refuses : ∀ s, 32 ≤ s.length → read s = none)
    (takes : ∀ s, s.length ≤ 31 → (read s).isSome)
    (numerals : ∀ s n, Numeral s n → s.length ≤ 31 → n < 2 ^ w → read s = some (BitVec.ofNat w n)) (s : Token) :
    ReadsExactly (read s) s ↔ 32 ≤ s.length ∨ ∃ n < 2 ^ w, Numeral s n := by
  by_cases long : 32 ≤ s.length
  · refine iff_of_true (fun x => ?_) (.inl long)
    rw [refuses s long]
    exact iff_of_false (fun some => nomatch some) fun short => by omega
  have short : s.length ≤ 31 := by omega
  constructor
  · intro exactly
    obtain ⟨x,found⟩ := Option.isSome_iff_exists.mp (takes s short)
    exact .inr ⟨x.toNat,x.isLt,((exactly x).mp found).2⟩
  · rintro (tooLong | ⟨n,fits,numeral⟩)
    · exact absurd tooLong long
    · intro x
      constructor
      · intro found
        obtain rfl := Option.some.inj ((numerals s n numeral short fits).symm.trans found)
        rw [BitVec.toNat_ofNat,Nat.mod_eq_of_lt fits]
        exact ⟨short,numeral⟩
      · rintro ⟨_,same⟩
        rw [numerals s _ same short x.isLt,BitVec.ofNat_toNat,BitVec.setWidth_eq]

theorem numerals_iff (s : Token) :
    (ReadsExactly (banoStringToUint32 s) s ↔ 32 ≤ s.length ∨ ∃ n < 2 ^ 32, Numeral s n) ∧
    (ReadsExactly (banoStringToUint16 s) s ↔ 32 ≤ s.length ∨ ∃ n < 2 ^ 16, Numeral s n) := by
  have long : ∀ s : Token, 32 ≤ s.length → banoStringToUint32 s = none := fun s long => if_pos long
  have short : ∀ s : Token, s.length ≤ 31 → ∃ x, banoStringToUint32 s = some x := by
    intro s short
    exact ⟨_,if_neg (by omega)⟩
  constructor
  · exact readsExactly_iff long (fun s few => Option.isSome_iff_exists.mpr (short s few))
      (fun s n => banoStringToUint32_numeral) s
  · refine readsExactly_iff (fun s many => ?_) (fun s few => ?_) (fun s n => banoStringToUint16_numeral) s
    · rw [banoStringToUint16,long s many,Option.map_none]
    · obtain ⟨x,read⟩ := short s few
      rw [banoStringToUint16,read]
      rfl

/-- A number is read up to the first byte that is no digit. -/
theorem numerals_prefix : banoStringToUint32 (literal "12z") = some 12 ∧
    ¬ReadsExactly (banoStringToUint32 (literal "12z")) (literal "12z") := by
  have read : banoStringToUint32 (literal "12z") = some 12 := by decide
  refine ⟨read,fun exactly => ?_⟩
  obtain ⟨n,numeral⟩ : ∃ n, Numeral (literal "12z") n := ⟨_,((exactly 12).mp read).2⟩
  generalize token : literal "12z" = s at numeral
  cases numeral with
  | decimal _ spells =>
    subst token
    obtain _ | ⟨_,_ | ⟨_,_ | ⟨last,_⟩⟩⟩ := spells
    exact nomatch last
  | hex _ _ => exact absurd (List.cons.inj token).1 (by decide)

/-- 0x and two digits. -/
inductive ArrayItem : List UInt8 → UInt8 → Prop where
  | item : hexDigit hi = some h → hexDigit lo = some l →
      ArrayItem (literal "0x" ++ [hi,lo]) (UInt8.ofNat (h * 16 + l))

/-- Items with a comma between them. -/
inductive ArrayText : Token → List UInt8 → Prop where
  | last : ArrayItem item b → ArrayText item [b]
  | more : ArrayItem item b → ArrayText s bytes → ArrayText (item ++ 44 :: s) (b :: bytes)

/-- What sms_creds prints: a comma after each byte, and a newline after the last. -/
def printCreds (creds : List UInt8) : List UInt8 :=
  creds.zipIdx.flatMap fun (b,i) => literal "0x" ++ hexText 2 b.toNat ++ [if i = smsCredsSize - 1 then 10 else 44]

theorem ArrayItem.length (item : ArrayItem s b) : s.length = 4 := by
  cases item
  rfl

theorem ArrayText.length (text : ArrayText s bytes) : s.length = bytes.length * 5 - 1 ∧ bytes ≠ [] := by
  induction text with
  | last item => exact ⟨item.length,by simp⟩
  | @more item b s bytes here _ ih =>
    have items := List.length_pos_iff.mpr ih.2
    refine ⟨?_,by simp⟩
    simp only [List.length_append,List.length_cons,here.length,ih.1]
    omega

theorem ArrayItem.read (item : ArrayItem s b) (stop : ∀ c ∈ after.head?, 16 ≤ digitVal c) :
    UInt8.ofNat (strtoul (s ++ after) 16) = b := by
  cases item with
  | @item hi h lo l high low =>
    have spells : Spells hexDigit [hi,lo] [h,l] := .cons high (.cons low .nil)
    have value : positional 16 [h,l] = h * 16 + l := by
      rw [positional_eq_foldl]
      simp
    have bounds := And.intro (hexDigit_some high).2 (hexDigit_some low).2
    have fits : positional 16 [h,l] ≤ ulongMax := by
      rw [value,ulongMax]
      omega
    rw [strtoul_hex spells stop fits,value]

/-- The items are read one by one, whatever follows the last. -/
theorem ArrayText.read (text : ArrayText s bytes) (stop : ∀ c ∈ after.head?, 16 ≤ digitVal c) :
    (List.range bytes.length).map (fun i => UInt8.ofNat (strtoul ((s ++ after).drop (i * 5)) 16)) = bytes := by
  induction text with
  | last item => simpa using item.read stop
  | @more item b s bytes here _ ih =>
    have comma : ∀ c ∈ (44 :: (s ++ after)).head?, 16 ≤ digitVal c := by
      intro c head
      obtain rfl := Option.some.inj head
      decide
    have first := here.read comma
    have later : ∀ i, ((item ++ 44 :: s) ++ after).drop ((i + 1) * 5) = (s ++ after).drop (i * 5) := by
      intro i
      rw [show (i + 1) * 5 = (item ++ [44]).length + i * 5 by simp [here.length]; omega,← List.drop_drop]
      congr 1
      simp
    rw [List.length_cons,List.range_succ_eq_map,List.map_cons,List.map_map]
    simp only [Function.comp_def,Nat.succ_eq_add_one,later,ih]
    congr 1
    simpa using first

theorem banoStringToArray_text (text : ArrayText s bytes) (stop : ∀ c ∈ after.head?, 16 ≤ digitVal c) :
    banoStringToArray ⟨s,after⟩ bytes.length = some bytes := by
  rw [banoStringToArray,if_neg (not_not.mpr text.length.1),text.read stop]

theorem hexDigit_hexText : ∀ d < 16, hexDigit (UInt8.ofNat (if d < 10 then 48 + d else 87 + d)) = some d := by decide

theorem hexText_item (b : UInt8) : ArrayItem (literal "0x" ++ hexText 2 b.toNat) b := by
  have bound := b.toNat_lt
  have value : UInt8.ofNat (b.toNat / 16 ^ 1 % 16 * 16 + b.toNat / 16 ^ 0 % 16) = b := by
    rw [show b.toNat / 16 ^ 1 % 16 * 16 + b.toNat / 16 ^ 0 % 16 = b.toNat by omega,UInt8.ofNat_toNat]
  have item : ArrayItem (literal "0x" ++ hexText 2 b.toNat)
      (UInt8.ofNat (b.toNat / 16 ^ 1 % 16 * 16 + b.toNat / 16 ^ 0 % 16)) :=
    .item (hexDigit_hexText _ (Nat.mod_lt _ (by decide))) (hexDigit_hexText _ (Nat.mod_lt _ (by decide)))
  rwa [value] at item

/-- The bytes from some place to the last. -/
theorem printCreds_from (i : Nat) (nonempty : creds ≠ []) (last : i + creds.length = smsCredsSize) :
    ∃ text, ArrayText text creds ∧ (creds.zipIdx i).flatMap (fun (b,i) =>
      literal "0x" ++ hexText 2 b.toNat ++ [if i = smsCredsSize - 1 then 10 else 44]) = text ++ [10] := by
  induction creds generalizing i with
  | nil => exact absurd rfl nonempty
  | cons b creds ih =>
    rw [List.zipIdx_cons,List.flatMap_cons]
    by_cases final : creds = []
    · subst final
      have here : i = smsCredsSize - 1 := by
        rw [← last]
        rfl
      exact ⟨_,.last (hexText_item b),by simp [here]⟩
    · obtain ⟨text,rest,printed⟩ := ih (i + 1) final (by simp at last; omega)
      have more := List.length_pos_iff.mpr final
      have here : i ≠ smsCredsSize - 1 := by
        simp at last
        omega
      refine ⟨_,.more (hexText_item b) rest,?_⟩
      rw [printed]
      simp [here]

theorem printCreds_text (whole : creds.length = smsCredsSize) : ArrayText (printCreds creds).dropLast creds := by
  have nonempty : creds ≠ [] := by
    rintro rfl
    exact absurd whole (by decide)
  obtain ⟨text,listed,printed⟩ := printCreds_from 0 nonempty (by rw [whole,Nat.zero_add])
  rwa [printCreds,printed,List.dropLast_concat]

theorem white_stops (white : isWhite c) : 16 ≤ digitVal c := by
  simp only [isWhite,isNl,isSpace,Bool.or_eq_true,decide_eq_true_eq] at white
  rcases white with (rfl | rfl) | rfl | rfl <;> decide

/-- The bytes are those of the text, or the token is refused. -/
def ArrayExactly (read : Option (List UInt8)) (s : Token) (n : Nat) : Prop :=
  ∀ bytes, read = some bytes ↔ bytes.length = n ∧ ArrayText s bytes

/-- A token is read as it is written, or refused, if and only if it
is well formed or has not the length of n items. -/
theorem arrays_iff (n : Nat) (items : 0 < n) (s after : List UInt8) (white : ∃ c ∈ after.head?, isWhite c) :
    (ArrayExactly (banoStringToArray ⟨s,after⟩ n) s n ↔
      s.length ≠ n * 5 - 1 ∨ ∃ bytes, bytes.length = n ∧ ArrayText s bytes) ∧
    ∀ creds, creds.length = smsCredsSize →
      banoStringToArray ⟨(printCreds creds).dropLast,after⟩ smsCredsSize = some creds := by
  have stop : ∀ c ∈ after.head?, 16 ≤ digitVal c := by
    obtain ⟨c,head,isWhite⟩ := white
    intro c' head'
    obtain rfl := Option.some.inj (head.symm.trans head')
    exact white_stops isWhite
  constructor
  · by_cases long : s.length = n * 5 - 1
    · constructor
      · intro exactly
        exact .inr ⟨_,(exactly _).mp (if_neg (not_not.mpr long))⟩
      · rintro (wrong | ⟨bytes,rfl,text⟩)
        · exact absurd long wrong
        · intro bytes'
          have read := banoStringToArray_text text stop
          constructor
          · intro read'
            obtain rfl := Option.some.inj (read.symm.trans read')
            exact ⟨rfl,text⟩
          · rintro ⟨same,text'⟩
            rw [← same]
            exact banoStringToArray_text text' stop
    · refine iff_of_true (fun bytes => ?_) (.inl long)
      rw [banoStringToArray,if_pos long]
      apply iff_of_false (fun some => nomatch some)
      rintro ⟨rfl,text⟩
      exact long text.length.1
  · intro creds whole
    have read := banoStringToArray_text (printCreds_text whole) stop
    rwa [whole] at read

theorem arrays_one : ArrayExactly (banoStringToArray ⟨literal "0x1f",literal " "⟩ 1) (literal "0x1f") 1 := by
  have text : ArrayText (literal "0x1f") [31] :=
    .last (.item (show hexDigit 49 = some 1 from rfl) (show hexDigit 102 = some 15 from rfl))
  exact ((arrays_iff 1 (by decide) (literal "0x1f") [32] ⟨32,rfl,by decide⟩).1).mpr (.inr ⟨[31],rfl,text⟩)

/-- Nothing looks at what stands between the numbers. -/
theorem arrays_separator : banoStringToArray ⟨literal "0x01;0x02",literal " "⟩ 2 = some [1,2] ∧
    ¬ArrayExactly (banoStringToArray ⟨literal "0x01;0x02",literal " "⟩ 2) (literal "0x01;0x02") 2 := by
  have read : banoStringToArray ⟨literal "0x01;0x02",literal " "⟩ 2 = some [1,2] := by decide
  refine ⟨read,fun exactly => ?_⟩
  obtain ⟨_,text⟩ := (exactly [1,2]).mp read
  generalize token : literal "0x01;0x02" = s at text
  cases text with
  | more item _ =>
    have comma := congrArg (fun s => s[4]?) token
    rw [List.getElem?_append_right (by rw [item.length]),item.length] at comma
    exact absurd (show some (59 : UInt8) = some 44 from comma) (by decide)

end Bano
