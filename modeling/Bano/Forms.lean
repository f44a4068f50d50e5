import Mathlib.Data.Nat.Digits.Lemmas
import Bano.Answers
import Bano.Numerals

/-! The forms of a page, and what on_event makes of the variables that a browser sends back. The printer is in
bano_base.c and the reader in bano_httpd.c; each chooses the base of a number by itself. -/
namespace Bano

open Lib

/-- The conversion %u. -/
def decText (n : Nat) : List UInt8 :=
  if n = 0 then literal "0" else (Nat.digits 10 n).reverse.map fun d => UInt8.ofNat (48 + d)

def formatTime (tmNow tmMod : Nat) : List UInt8 :=
  let d := if tmNow ≤ tmMod then 0 else tmNow - tmMod
  if d > 60 * 60 * 24 then decText (d / (60 * 60 * 24)) ++ literal " d"
  else if d > 60 * 60 then decText (d / (60 * 60)) ++ literal " h"
  else if d > 60 then decText (d / 60) ++ literal " m"
  else decText d ++ literal " s"

/-- The texts that stand for the variables of a form: three in its action, one in its input field. -/
structure PairForm where
  naddr : List UInt8
  key : List UInt8
  isAck : List UInt8
  val : List UInt8

def KeyvalInfo.has (kv : KeyvalInfo) (flag : U32) : Bool := kv.flags &&& flag ≠ 0

/-- What is shown of a key: the value that is stored, or all ones. -/
def shownVal (keyvalPairs : Store NodeVal) (key : U16) : U32 :=
  match keyvalPairs.lookup (key.setWidth 32) with
  | some v => v.val
  | none => 0xffffffff

def pairForm (naddr : U32) (kv : KeyvalInfo) (val : U32) : PairForm where
  naddr := literal "0x" ++ hexText 8 naddr.toNat
  key := literal "0x" ++ hexText 4 kv.key.toNat
  isAck := decText (if kv.has nodlFlagAck then 1 else 0)
  val := if kv.has nodlFlagBaseDec then decText val.toNat else literal "0x" ++ hexText 8 val.toNat

def PairForm.action (form : PairForm) : List UInt8 :=
  literal "<form action='/?naddr=" ++ form.naddr ++ literal "&key=" ++ form.key ++ literal "&is_ack=" ++ form.isAck ++
    literal "' method='post'>\n"

/-- A keyval without any of these flags is readonly. -/
def KeyvalInfo.hasForm (kv : KeyvalInfo) : Bool := kv.has nodlFlagSet || kv.has nodlFlagGet || kv.has nodlFlagRst

/-- The texts of the calls of bano_html_printf, one after the other. -/
def genPairHtml (tmNow : Nat) (node : BanoNode) (kv : KeyvalInfo) : List (List UInt8) :=
  let form := pairForm node.addr kv (shownVal node.keyvalPairs kv.key)
  let mtime := match node.keyvalPairs.lookup (kv.key.setWidth 32) with
    | some v => if kv.has nodlFlagMtime then formatTime tmNow v.mtime else literal "na"
    | none => literal "na"
  let submit (flag : U32) (op : String) : List (List UInt8) :=
    if kv.has flag then [literal "<input type='submit' name='op' value='" ++ literal op ++ literal "' />\n"] else []
  if kv.hasForm then
    [form.action,
      literal "<div class='bano_mtime'> " ++ mtime ++ literal " </div>\n",
      literal "<div class='bano_key'> " ++ kv.name ++ literal " </div>",
      literal "<input type='text' name='val' value='",
      form.val,
      literal "' />\n"] ++
    submit nodlFlagSet "set" ++ submit nodlFlagGet "get" ++ submit nodlFlagRst "rst" ++
    [literal "</form>\n"]
  else
    [literal "<div class='bano_mtime'> " ++ mtime ++ literal " </div>\n",
      literal "<div class='bano_key'> " ++ kv.name ++ literal " </div>\n",
      literal "<div class='bano_val'> ",
      form.val,
      literal " </div>\n",
      literal "<br/>\n"]

/-- What mg_get_var leaves in the buffer for a variable, up to the NUL. -/
abbrev HttpVars := String → List UInt8

def strToUint16 (s : List UInt8) : U16 := BitVec.ofNat 16 (strtoul s (getBase s))

def strToUint32 (s : List UInt8) : U32 := BitVec.ofNat 32 (strtoul s (getBase s))

/-- The message that on_event writes to its pipe, unless a specific object is requested. -/
def onEvent (var : HttpVars) (conn complErr : Ptr) : Option ClientMsg :=
  if var "ob" = literal "cam" then none
  else some {
    op :=
      if var "op" = literal "get" then .get
      else if var "op" = literal "set" then .set
      else if var "op" = literal "rst" then .rst
      else if var "op" = literal "cam" then .cam
      else .invalid
    fmt := if var "fmt" = literal "plain" then .plain else .html
    naddr := strToUint32 (var "naddr")
    key := strToUint16 (var "key")
    val := strToUint32 (var "val")
    isAck := strToUint32 (var "is_ack")
    conn := conn
    complErr := complErr }

/-- The variables of a form that was submitted with a button. A variable that is not sent reads as an empty text. -/
def PairForm.vars (form : PairForm) (op : List UInt8) : HttpVars
  | "naddr" => form.naddr
  | "key" => form.key
  | "is_ack" => form.isAck
  | "val" => form.val
  | "op" => op
  | _ => []

theorem decText_spells (n : Nat) : ∃ ds, decText n ≠ [] ∧ Spells decimalDigit (decText n) ds ∧
    positional 10 ds = n := by
  have digit : ∀ d < 10, decimalDigit (UInt8.ofNat (48 + d)) = some d := by decide
  by_cases zero : n = 0
  · subst zero
    exact ⟨[0],by decide,.cons (digit 0 (by decide)) .nil,rfl⟩
  · refine ⟨(Nat.digits 10 n).reverse,?_,?_,positional_digits 10 n⟩
    · simp [decText,zero,Nat.digits_ne_nil_iff_ne_zero]
    · rw [decText,if_neg zero]
      apply Spells.map
      intro d member
      exact digit d (Nat.digits_lt_base (by decide) (List.mem_reverse.mp member))

theorem decText_numeral (n : Nat) : Numeral (decText n) n := by
  obtain ⟨ds,nonempty,spells,value⟩ := decText_spells n
  have numeral := Numeral.decimal nonempty spells
  rwa [value] at numeral

theorem hexText_spells (k n : Nat) : ∃ ds, Spells hexDigit (hexText k n) ds ∧ positional 16 ds = n % 16 ^ k ∧
    ds.length = k := by
  induction k with
  | zero => exact ⟨[],.nil,by simp [positional,Nat.mod_one],rfl⟩
  | succ k ih =>
    obtain ⟨ds,spells,value,length⟩ := ih
    refine ⟨n / 16 ^ k % 16 :: ds,?_,?_,by simp [length]⟩
    · exact .cons (hexDigit_hexText _ (Nat.mod_lt _ (by decide))) spells
    · rw [positional_cons,value,length,Nat.pow_succ,Nat.mod_mul,Nat.mul_comm,Nat.add_comm]

theorem hexText_numeral (pos : 0 < k) (bound : n < 16 ^ k) : Numeral (literal "0x" ++ hexText k n) n := by
  obtain ⟨ds,spells,value,length⟩ := hexText_spells k n
  have nonempty : hexText k n ≠ [] := by
    intro empty
    have same := spells.length
    rw [empty,length] at same
    exact absurd same (Nat.ne_of_lt pos)
  have numeral := Numeral.hex nonempty spells
  rwa [value,Nat.mod_eq_of_lt bound] at numeral

theorem strToUint32_numeral (numeral : Numeral s x.toNat) : strToUint32 s = x := by
  have fits : x.toNat ≤ ulongMax := Nat.le_of_lt (Nat.lt_of_lt_of_le x.isLt (by decide))
  rw [strToUint32,strtoul_numeral numeral fits,BitVec.ofNat_toNat,BitVec.setWidth_eq]

theorem strToUint16_numeral (numeral : Numeral s x.toNat) : strToUint16 s = x := by
  have fits : x.toNat ≤ ulongMax := Nat.le_of_lt (Nat.lt_of_lt_of_le x.isLt (by decide))
  rw [strToUint16,strtoul_numeral numeral fits,BitVec.ofNat_toNat,BitVec.setWidth_eq]

theorem pairForm_numerals (naddr : U32) (kv : KeyvalInfo) (val : U32) :
    Numeral (pairForm naddr kv val).naddr naddr.toNat ∧ Numeral (pairForm naddr kv val).key kv.key.toNat ∧
    Numeral (pairForm naddr kv val).isAck (if kv.has nodlFlagAck then (1 : U32) else 0).toNat ∧
    Numeral (pairForm naddr kv val).val val.toNat := by
  refine ⟨hexText_numeral (by decide) naddr.isLt,hexText_numeral (by decide) kv.key.isLt,?_,?_⟩
  · rw [show (if kv.has nodlFlagAck then (1 : U32) else 0).toNat = if kv.has nodlFlagAck then 1 else
      0 by split <;> rfl]
    exact decText_numeral _
  · simp only [pairForm]
    split
    · exact decText_numeral _
    · exact hexText_numeral (by decide) val.isLt

theorem hexText_length (k n : Nat) : (hexText k n).length = k := by
  induction k with
  | zero => rfl
  | succ k ih => simp [hexText,ih]

theorem decText_length (bound : n < 10 ^ 10) : (decText n).length ≤ 10 := by
  by_cases zero : n = 0
  · subst zero
    decide
  · rw [decText,if_neg zero,List.length_map,List.length_reverse]
    exact (Nat.digits_length_le_iff (by decide) n).mpr bound

/-- Every text fits in the buffer of on_event. -/
def PairForm.Fits (form : PairForm) : Prop :=
  form.naddr.length < 32 ∧ form.key.length < 32 ∧ form.isAck.length < 32 ∧ form.val.length < 32

theorem pairForm_fits (naddr : U32) (kv : KeyvalInfo) (val : U32) : (pairForm naddr kv val).Fits := by
  have zeroX : (literal "0x").length = 2 := rfl
  have bound := val.isLt
  refine ⟨?_,?_,?_,?_⟩
  · simp [pairForm,hexText_length,zeroX]
  · simp [pairForm,hexText_length,zeroX]
  · simp only [pairForm]
    split <;> decide
  · simp only [pairForm]
    split
    · exact Nat.lt_of_le_of_lt (decText_length (by omega)) (by decide)
    · simp [hexText_length,zeroX]

theorem genPairHtml_texts (tmNow : Nat) (node : BanoNode) (kv : KeyvalInfo) :
    let form := pairForm node.addr kv (shownVal node.keyvalPairs kv.key)
    form.val ∈ genPairHtml tmNow node kv ∧ (kv.hasForm = true → form.action ∈ genPairHtml tmNow node kv) := by
  unfold genPairHtml
  cases form : kv.hasForm <;> simp

/-- The page shows the texts of the form, and a message made of them is about what they were printed from. -/
theorem forms_round_trip (tmNow : Nat) (node : BanoNode) (kv : KeyvalInfo) (op : List UInt8) (conn complErr : Ptr) :
    let val := shownVal node.keyvalPairs kv.key
    let form := pairForm node.addr kv val
    form.val ∈ genPairHtml tmNow node kv ∧
    (kv.hasForm = true → form.action ∈ genPairHtml tmNow node kv) ∧ form.Fits ∧
    ∃ msg, onEvent (form.vars op) conn complErr = some msg ∧ msg.naddr = node.addr ∧ msg.key = kv.key ∧
      msg.isAck = (if kv.has nodlFlagAck then 1 else 0) ∧ msg.val = val := by
  obtain ⟨shown,offered⟩ := genPairHtml_texts tmNow node kv
  obtain ⟨naddr,key,isAck,val⟩ := pairForm_numerals node.addr kv (shownVal node.keyvalPairs kv.key)
  refine ⟨shown,offered,pairForm_fits _ _ _,_,rfl,?_,?_,?_,?_⟩
  · exact strToUint32_numeral naddr
  · exact strToUint16_numeral key
  · exact strToUint32_numeral isAck
  · exact strToUint32_numeral val

/-- A value in decimal that can be set. -/
def setKeyval : KeyvalInfo := (banoNodlKeyvalInit.put nodlFlagSet).put nodlFlagBaseDec

theorem forms_round_trip_set : ∃ (form : PairForm) (msg : ClientMsg),
    form.action ∈ genPairHtml 0 (banoNodeAlloc 5 0) setKeyval ∧
    onEvent (form.vars (literal "set")) 0 0 = some msg ∧ msg.naddr = 5 := by
  obtain ⟨_,offered,_,msg,sent,naddr,_⟩ := forms_round_trip 0 (banoNodeAlloc 5 0) setKeyval (literal "set") 0 0
  exact ⟨_,msg,offered (by decide),sent,naddr⟩

end Bano
