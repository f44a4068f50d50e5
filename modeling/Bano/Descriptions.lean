import Bano.Entries
import Bano.Keyval

/-! What a file describes: load_nodl_file enters the keyvals of its
structs in their order, up to a struct that fails. -/
namespace Bano

open Lib

def ConfStruct.isKeyval (strukt : ConfStruct) : Bool := isWord strukt.name "keyval"

/-- What the pairs of a keyval struct describe, if none of them fails. -/
def ConfStruct.keyval (strukt : ConfStruct) : Option KeyvalInfo :=
  let (err,kv) := banoParserForeachPair applyNodlKeyvalPair strukt.pairs banoNodlKeyvalInit
  if err = 0 then some kv.named else none

/-- There is memory for the entry. -/
def KeyvalMemory.holds (m : KeyvalMemory) : Bool := m.mallocPair && m.mallocItem

/-- What a struct returns and what it enters. -/
def structKeyvals (strukt : ConfStruct) (m : KeyvalMemory) : Int × List KeyvalInfo :=
  if strukt.isKeyval then
    match strukt.keyval with
    | none => (-1,[])
    | some kv => (0,if m.holds then [kv] else [])
  else (0,[])

/-- What the structs up to one that fails return and enter. -/
def fileKeyvals : List (ConfStruct × KeyvalMemory) → Int × List KeyvalInfo
  | [] => (0,[])
  | (strukt,m) :: structs =>
    let (err,here) := structKeyvals strukt m
    if err ≠ 0 then (err,here) else ((fileKeyvals structs).1,here ++ (fileKeyvals structs).2)

def keyvalPair (kv : KeyvalInfo) : DictPair KeyvalInfo := ⟨kv.key.setWidth 32,kv⟩

@[simp] theorem named_key (kv : KeyvalInfo) : kv.named.key = kv.key := by
  rw [KeyvalInfo.named]
  split <;> rfl

/-- The entries of `d'` are those of `d` and after them the keyvals. -/
def FiledAfter (d' : Dict KeyvalInfo) (es : List (Ptr × DictPair KeyvalInfo)) (kvs : List KeyvalInfo) : Prop :=
  ∃ more, Filed d' (es ++ more) ∧ more.map Prod.snd = kvs.map keyvalPair

theorem applyNodlStruct_filed (filed : Filed d es) (strukt : ConfStruct) (m : KeyvalMemory) :
    ∃ d', applyNodlStruct strukt m d = some ((structKeyvals strukt m).1,d') ∧
      FiledAfter d' es (structKeyvals strukt m).2 := by
  have unchanged : FiledAfter d es [] := ⟨[],by simpa using filed,rfl⟩
  cases kind : strukt.isKeyval with
  | false =>
    have passed : applyNodlStruct strukt m d = some (0,d) := if_neg (by simpa [ConfStruct.isKeyval] using kind)
    simpa [structKeyvals,kind] using ⟨d,passed,unchanged⟩
  | true =>
    have taken : isWord strukt.name "keyval" = true := kind
    obtain ⟨err,kv,applied⟩ : ∃ err kv,
        banoParserForeachPair applyNodlKeyvalPair strukt.pairs banoNodlKeyvalInit = (err,kv) := ⟨_,_,rfl⟩
    by_cases fine : err = 0
    · subst fine
      have described : strukt.keyval = some kv.named := by simp [ConfStruct.keyval,applied]
      cases memory : m.holds with
      | false =>
        have missed := banoDictAdd_fails filed memory m.junk (kv.key.setWidth 32)
        refine ⟨d,?_,?_⟩
        · simp [applyNodlStruct,structKeyvals,taken,kind,applied,described,missed]
        · simpa [structKeyvals,kind,described,memory] using unchanged
      | true =>
        obtain ⟨pair,item⟩ := Bool.and_eq_true_iff.mp memory
        obtain ⟨mid,added,filed'⟩ := banoDictAdd_filed filed m.junk (kv.key.setWidth 32)
        obtain ⟨stored,filed''⟩ := filed'.store kv.named
        have entries : FiledAfter _ es [kv.named] :=
          ⟨[(d.pairs.next,keyvalPair kv.named)],by simpa [keyvalPair] using filed'',rfl⟩
        have result : structKeyvals strukt m = (0,[kv.named]) := by simp [structKeyvals,kind,described,memory]
        rw [result]
        exact ⟨_,by simp [applyNodlStruct,taken,applied,pair,item,added,stored],entries⟩
    · have failed : strukt.keyval = none := by simp [ConfStruct.keyval,applied,fine]
      refine ⟨d,?_,?_⟩
      · simp [applyNodlStruct,structKeyvals,taken,kind,applied,failed,fine]
      · simpa [structKeyvals,kind,failed] using unchanged

theorem applyNodlStructs_filed (filed : Filed d es) (structs : List (ConfStruct × KeyvalMemory)) :
    ∃ d', applyNodlStructs structs d = some ((fileKeyvals structs).1,d') ∧
      FiledAfter d' es (fileKeyvals structs).2 := by
  induction structs generalizing d es with
  | nil => exact ⟨d,rfl,[],by simpa using filed,rfl⟩
  | cons x structs ih =>
    obtain ⟨strukt,m⟩ := x
    obtain ⟨mid,applied,more,filed',pairs⟩ := applyNodlStruct_filed filed strukt m
    by_cases fine : (structKeyvals strukt m).1 = 0
    · obtain ⟨d',rest,more',filed'',pairs'⟩ := ih filed'
      refine ⟨d',?_,more ++ more',by simpa using filed'',?_⟩
      · simp [applyNodlStructs,applied,fileKeyvals,fine,rest]
      · simp [fileKeyvals,fine,pairs,pairs']
    · exact ⟨mid,by simp [applyNodlStructs,applied,fileKeyvals,fine],more,filed',by simp [fileKeyvals,fine,pairs]⟩

end Bano
