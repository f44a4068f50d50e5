import Bano.Descriptions

/-! The two ways to look for a key in a description: bano_nodl_find_key goes over all lists and compares the
keys of the keyvals, bano_dict_get over the list of the hash and compares the keys of the pairs. -/
namespace Bano

open Lib

/-- The callback of bano_nodl_find_key. -/
def findKeyval (d : Dict KeyvalInfo) (key : U16) (_ data : Ptr) (found : Option Ptr) : Option (Int × Option Ptr) := do
  let pair ← d.pairs.cell data
  if pair.val.key ≠ key then some (0,found) else some (-1,some data)

/-- bano_nodl_find_key on what load_nodl_file fills: the pair that it finds. -/
def nodlFindKey (keyvals : Dict KeyvalInfo) (key : U16) : Option (Option Ptr) := do
  let (_,found) ← banoDictForeach keyvals (findKeyval keyvals key) none
  some found

/-- The keyvals of the file in their order, and whether there is memory for their entries. -/
def keyvalsOf (structs : List (ConfStruct × KeyvalMemory)) : List (KeyvalInfo × Bool) :=
  structs.filterMap fun (strukt,m) => if strukt.isKeyval then strukt.keyval.map fun kv => (kv,m.holds) else none

/-- The first keyval of the key. -/
def firstKeyval (structs : List (ConfStruct × KeyvalMemory)) (key : U16) : Option (KeyvalInfo × Bool) :=
  (keyvalsOf structs).find? fun x => x.1.key = key

/-- The first keyval of the key that gets an entry. -/
def firstEntered (structs : List (ConfStruct × KeyvalMemory)) (key : U16) : Option (KeyvalInfo × Bool) :=
  (keyvalsOf structs).find? fun x => x.1.key = key && x.2

/-- A pair is filed under the key of its keyval. -/
def KeyedAlike (es : List (Ptr × DictPair KeyvalInfo)) : Prop := ∀ e ∈ es, ∃ kv, e.2 = keyvalPair kv

theorem setWidth_inj (a b : U16) : a.setWidth 32 = b.setWidth 32 ↔ a = b := by
  constructor
  · intro same
    have values := congrArg BitVec.toNat same
    simp only [BitVec.toNat_setWidth] at values
    apply BitVec.eq_of_toNat_eq
    have := a.isLt
    have := b.isLt
    omega
  · exact congrArg _

/-- The scan of all lists finds what the search of one list finds. -/
theorem nodlFindKey_filed {d : Dict KeyvalInfo} (filed : Filed d es) (alike : KeyedAlike es) (key : U16) :
    nodlFindKey d key = some ((entryOf es (key.setWidth 32)).map Prod.fst) := by
  have searches : Searches d (fun kv => kv.key = key) (findKeyval d key) := by
    intro it p found pair cell
    by_cases own : pair.val.key = key <;> simp [findKeyval,cell,own]
  have keys : ∀ e ∈ es, (e.2.val.key = key ↔ e.2.key = key.setWidth 32) := by
    intro e member
    obtain ⟨kv,same⟩ := alike e member
    rw [same]
    exact (setWidth_inj kv.key key).symm
  have together : ∀ e ∈ es, decide (e.2.val.key = key) = true → getHash d e.2.key = getHash d (key.setWidth 32) := by
    intro e member own
    rw [(keys e member).mp (of_decide_eq_true own)]
  have scanned := searches.foreach filed (key.setWidth 32) together
  have found : es.find? (fun e => e.2.val.key = key) = entryOf es (key.setWidth 32) :=
    find?_members fun e member => decide_eq_decide.mpr (keys e member)
  rw [nodlFindKey,scanned,found]
  cases entryOf es (key.setWidth 32) <;> rfl

theorem fileKeyvals_loaded (loaded : (fileKeyvals structs).1 = 0) :
    (fileKeyvals structs).2 = ((keyvalsOf structs).filter Prod.snd).map Prod.fst := by
  induction structs with
  | nil => rfl
  | cons x structs ih =>
    obtain ⟨strukt,m⟩ := x
    have fine : (structKeyvals strukt m).1 = 0 := by
      by_contra failed
      simp [fileKeyvals,failed] at loaded
    have rest := ih (by simpa [fileKeyvals,fine] using loaded)
    simp only [fileKeyvals,fine,ne_eq,not_true_eq_false,if_false,rest]
    cases kind : strukt.isKeyval with
    | false => simp [structKeyvals,keyvalsOf,kind]
    | true =>
      cases described : strukt.keyval with
      | none => simp [structKeyvals,kind,described] at fine
      | some kv => cases memory : m.holds <;> simp [structKeyvals,keyvalsOf,kind,described,memory]

/-- Both lookups meet the first entry of the key. -/
theorem valueOf_loaded {d : Dict KeyvalInfo} (filedAfter : FiledAfter d [] (fileKeyvals structs).2)
    (loaded : (fileKeyvals structs).1 = 0) (key : U16) :
    valueOf d (key.setWidth 32) = some ((firstEntered structs key).map Prod.fst) := by
  obtain ⟨es,filed,pairs⟩ := filedAfter
  rw [fileKeyvals_loaded loaded] at pairs
  rw [valueOf_filed filed,List.nil_append]
  have values : (entryOf es (key.setWidth 32)).map (fun e => e.2.val) =
      ((es.map Prod.snd).find? fun pair => pair.key = key.setWidth 32).map DictPair.val := by
    rw [List.find?_map,Option.map_map]
    rfl
  have pick : ((fun pair : DictPair KeyvalInfo => decide (pair.key = key.setWidth 32)) ∘ keyvalPair) ∘ Prod.fst =
      fun x : KeyvalInfo × Bool => decide (x.1.key = key) := by
    funext x
    exact decide_eq_decide.mpr (setWidth_inj x.1.key key)
  rw [values,pairs,List.find?_map,List.find?_map,pick,List.find?_filter,firstEntered,Option.map_map,Option.map_map]
  simp [Function.comp_def,keyvalPair,Bool.and_comm]

/-- Either lookup meets the same entry. It is the one of the first keyval of the file that has the key, if
and only if that keyval gets its entry or the first one that does describes the same. -/
theorem keyLookups_iff (structs : List (ConfStruct × KeyvalMemory)) (key : U16) :
    ∃ err d, applyNodlStructs structs (banoDictInit true).2 = some (err,d) ∧
      nodlFindKey d key = banoDictGet d (key.setWidth 32) ∧
      (err = 0 → (valueOf d (key.setWidth 32) = some ((firstKeyval structs key).map Prod.fst) ↔
        ∀ kv, firstKeyval structs key = some (kv,false) → (firstEntered structs key).map Prod.fst = some kv)) := by
  obtain ⟨d,loaded,es,filed,pairs⟩ := applyNodlStructs_filed banoDictInit_filed structs
  have alike : KeyedAlike es := by
    intro e member
    have inside : e.2 ∈ (fileKeyvals structs).2.map keyvalPair := pairs ▸ List.mem_map_of_mem member
    obtain ⟨kv,_,same⟩ := List.mem_map.mp inside
    exact ⟨kv,same.symm⟩
  have agree : nodlFindKey d key = banoDictGet d (key.setWidth 32) :=
    (nodlFindKey_filed filed alike key).trans (banoDictGet_filed filed (key.setWidth 32)).symm
  refine ⟨_,d,loaded,agree,fun fine => ?_⟩
  rw [valueOf_loaded ⟨es,filed,pairs⟩ fine,Option.some_inj]
  -- if the first keyval of the key gets an entry, it is also the first that does
  have first : ∀ kv, firstKeyval structs key = some (kv,true) → firstEntered structs key = some (kv,true) := by
    intro kv found
    obtain ⟨own,before,after,split,earlier⟩ := List.find?_eq_some_iff_append.mp found
    refine List.find?_eq_some_iff_append.mpr ⟨by simpa using own,before,after,split,fun x member => ?_⟩
    simp only [Bool.not_eq_true',decide_eq_false_iff_not] at earlier
    simp [earlier x member]
  have nothing : firstKeyval structs key = none → firstEntered structs key = none := by
    intro missing
    refine List.find?_eq_none.mpr fun x member => ?_
    have other := List.find?_eq_none.mp missing x member
    simp only [decide_eq_true_eq] at other
    simp [other]
  cases found : firstKeyval structs key with
  | none => simp [nothing found]
  | some x =>
    obtain ⟨kv,_ | _⟩ := x
    · simp
    · simp [first kv found]

/-- A file with one keyval, for whose entry there is no memory. -/
def lostFile : List (ConfStruct × KeyvalMemory) :=
  [(⟨literal "keyval",[(literal "key",literal "3")]⟩,⟨false,true,banoNodlKeyvalInit⟩)]

/-- The file is loaded, and its key is not found. -/
theorem keyLookups_lost : ¬∀ (structs : List (ConfStruct × KeyvalMemory)) (key : U16) (d : Dict KeyvalInfo),
    applyNodlStructs structs (banoDictInit true).2 = some (0,d) →
    nodlFindKey d key = banoDictGet d (key.setWidth 32) ∧
      valueOf d (key.setWidth 32) = some ((firstKeyval structs key).map Prod.fst) := by
  intro agree
  have loaded : applyNodlStructs lostFile (banoDictInit true).2 = some (0,(banoDictInit true).2) := rfl
  have missed : valueOf (banoDictInit true : Int × Dict KeyvalInfo).2 ((3 : U16).setWidth 32) = some none := rfl
  have described : ((firstKeyval lostFile 3).map Prod.fst).isSome = true := by decide
  have found := (agree lostFile 3 _ loaded).2
  rw [missed,Option.some_inj] at found
  rw [← found] at described
  exact absurd described (by decide)

end Bano
