import Bano.NodlFile
import Bano.Numerals

/-! load_nodl_dir: each file of the pattern is entered in the
dictionary, and what it describes is read into the new entry. -/
namespace Bano

open Lib

/-- A name in a directory, and what becomes of the three allocations made for it. -/
structure Dirent where
  name : List UInt8
  mallocPair : Bool
  mallocItem : Bool
  mallocLists : Bool
  junk : Dict KeyvalInfo

/-- The file system, with the memory for the keyvals of each file. A directory is read to its end. -/
structure NodlFiles where
  mallocName : Bool
  opendir : List UInt8 → Option (List Dirent)
  files : FileSystem
  memory : List UInt8 → Nat → KeyvalMemory

def NodlFiles.loadFile (env : NodlFiles) (fuel : Nat) (path : List UInt8) (keyvals : Dict KeyvalInfo) :
    Outcome (Int × Dict KeyvalInfo) :=
  loadNodlFile env.files (env.memory path) fuel path keyvals

/-- What a file describes, or that it cannot be loaded. -/
def NodlFiles.Describes (env : NodlFiles) (path : List UInt8) (described : Option (Dict KeyvalInfo)) : Prop :=
  FileDescribes env.files (env.memory path) path described

def isHex (c : UInt8) : Bool := 48 ≤ c && c ≤ 57 || 97 ≤ c && c ≤ 102

/-- pattern: dirname/00000000.nodl -/
def isNodlName (name : List UInt8) : Bool := (name.take 8).all isHex && name.drop 8 = literal ".nodl"

def nodlId (name : List UInt8) : U32 := BitVec.ofNat 32 (strtoul name 16)

def nodlPath (dirname : Token) (name : List UInt8) : List UInt8 := cstr (dirname ++ literal "/" ++ name)

/-- The turn of the loop for one name. -/
def loadNodlDirent (env : NodlFiles) (fuel : Nat) (dirname : Token) (dirent : Dirent)
    (nodls : Dict (Dict KeyvalInfo)) :
    Outcome (Int × Dict (Dict KeyvalInfo)) :=
  if isNodlName dirent.name then do
    let (added,nodls) ← .ofOption (banoDictAdd dirent.mallocPair dirent.mallocItem dirent.junk nodls
      (nodlId dirent.name))
    match added with
    | none => .done (-1,nodls)
    | some p =>
      let (err,nodl) ← env.loadFile fuel (nodlPath dirname dirent.name) (banoDictInit dirent.mallocLists).2
      let pairs ← .ofOption (nodls.pairs.update p fun pair => { pair with val := nodl })
      if err ≠ 0 then
        let (_,nodls) ← .ofOption (banoDictDel { nodls with pairs := pairs } (nodlId dirent.name))
        .done (0,nodls)
      else .done (0,{ nodls with pairs := pairs })
  else .done (0,nodls)

def loadNodlDirents (env : NodlFiles) (fuel : Nat) (dirname : Token) :
    List Dirent → Dict (Dict KeyvalInfo) → Outcome (Int × Dict (Dict KeyvalInfo))
  | [], nodls => .done (0,nodls)
  | dirent :: dirents, nodls => do
    let (err,nodls) ← loadNodlDirent env fuel dirname dirent nodls
    if err ≠ 0 then .done (err,nodls) else loadNodlDirents env fuel dirname dirents nodls

def loadNodlDir (env : NodlFiles) (fuel : Nat) (dirname : Token) (nodls : Dict (Dict KeyvalInfo)) :
    Outcome (Int × Dict (Dict KeyvalInfo)) :=
  if env.mallocName then
    match env.opendir (cstr dirname) with
    | none => .done (-1,nodls)
    | some dirents => loadNodlDirents env fuel dirname dirents nodls
  else .done (-1,nodls)

theorem isHex_digit (hex : isHex c = true) : hexDigit c = some (digitVal c) := by
  simp only [isHex,hexDigit,digitVal,UInt8.le_iff_toNat_le,Bool.and_eq_true,Bool.or_eq_true,decide_eq_true_eq] at *
  split_ifs <;> simp at * <;> omega

theorem digitVal_inj (hex : isHex c = true) (hex' : isHex c' = true) (same : digitVal c = digitVal c') : c = c' := by
  simp only [isHex,digitVal,UInt8.le_iff_toNat_le,Bool.and_eq_true,Bool.or_eq_true,decide_eq_true_eq,
    ← UInt8.toNat_inj] at *
  split_ifs at same <;> simp at * <;> omega

theorem digits_inj {s t : List UInt8} (hex : ∀ c ∈ s, isHex c = true) (hex' : ∀ c ∈ t, isHex c = true)
    (same : s.map digitVal = t.map digitVal) :
    s = t := by
  induction s generalizing t with
  | nil => exact (List.map_eq_nil_iff.mp same.symm).symm
  | cons c s ih =>
    cases t with
    | nil => simp at same
    | cons c' t =>
      obtain ⟨first,rest⟩ := List.cons.inj same
      obtain ⟨here,later⟩ := List.forall_mem_cons.mp hex
      obtain ⟨here',later'⟩ := List.forall_mem_cons.mp hex'
      rw [digitVal_inj here here' first,ih later later' rest]

/-- The digits of a name that matches. -/
theorem isNodlName_digits (hex : isNodlName name = true) :
    ∃ s, name = s ++ literal ".nodl" ∧ s.length = 8 ∧ ∀ c ∈ s, isHex c = true := by
  obtain ⟨digits,suffix⟩ := Bool.and_eq_true_iff.mp hex
  have rest : name.drop 8 = literal ".nodl" := of_decide_eq_true suffix
  have size := congrArg List.length rest
  refine ⟨name.take 8,?_,?_,by simpa using digits⟩
  · rw [← rest,List.take_append_drop]
  · rw [List.length_drop,show (literal ".nodl").length = 5 from rfl] at size
    rw [List.length_take]
    omega

theorem strtoul_nodl {s : List UInt8} (length : s.length = 8) (hex : ∀ c ∈ s, isHex c = true) :
    strtoul (s ++ literal ".nodl") 16 = positional 16 (s.map digitVal) ∧ positional 16 (s.map digitVal) < 2 ^ 32 := by
  have spells : Spells hexDigit s (s.map digitVal) :=
    List.forall₂_map_right_iff.mpr (List.forall₂_same.mpr fun c member => isHex_digit (hex c member))
  have bound : positional 16 (s.map digitVal) < 16 ^ (s.map digitVal).reverse.length := by
    apply Nat.ofDigits_lt_base_pow_length (by decide)
    intro d member
    obtain ⟨c,inside,rfl⟩ := List.mem_map.mp (List.mem_reverse.mp member)
    exact (hexDigit_some (isHex_digit (hex c inside))).2
  have below : positional 16 (s.map digitVal) < 2 ^ 32 := by simpa [length] using bound
  refine ⟨?_,below⟩
  have stop : ∀ c ∈ (literal ".nodl").head?, 16 ≤ digitVal c := by
    intro c head
    have dot : (literal ".nodl").head? = some 46 := by decide
    rw [dot] at head
    obtain rfl := Option.some.inj head
    decide
  have value := digitsVal_spells spells (fun _ _ => hexDigit_some) stop
  cases s with
  | nil => simp at length
  | cons c s =>
    have plain := hexDigit_plain (isHex_digit (hex c List.mem_cons_self))
    refine strtoul_plain ⟨plain.1,plain.2.1,plain.2.2.1⟩ ?_ (Nat.le_of_lt (Nat.lt_of_lt_of_le below (by decide)))
    cases s with
    | nil => simp at length
    | cons x s =>
      have other := hexDigit_plain (isHex_digit (hex x (by simp)))
      simpa [skipHex,other.2.2.2.1,other.2.2.2.2] using value

/-- Two files of a directory have two identifiers. -/
theorem nodlId_inj (one : isNodlName a = true) (other : isNodlName b = true)
    (same : nodlId a = nodlId b) : a = b := by
  obtain ⟨s,rfl,length,hex⟩ := isNodlName_digits one
  obtain ⟨t,rfl,length',hex'⟩ := isNodlName_digits other
  obtain ⟨value,below⟩ := strtoul_nodl length hex
  obtain ⟨value',below'⟩ := strtoul_nodl length' hex'
  have numbers := congrArg BitVec.toNat same
  rw [nodlId,nodlId,value,value',BitVec.toNat_ofNat,BitVec.toNat_ofNat,Nat.mod_eq_of_lt below,
    Nat.mod_eq_of_lt below'] at numbers
  have small : ∀ u : List UInt8, (∀ c ∈ u, isHex c = true) → ∀ d ∈ (u.map digitVal).reverse, d < 16 := by
    intro u all d member
    obtain ⟨c,inside,rfl⟩ := List.mem_map.mp (List.mem_reverse.mp member)
    exact (hexDigit_some (isHex_digit (all c inside))).2
  have digits := Nat.ofDigits_inj_of_len_eq (by decide) (by simp [length,length']) (small s hex)
    (small t hex') numbers
  rw [digits_inj hex hex' (List.reverse_injective digits)]

/-- The memory for a file is there. -/
def Dirent.holds (dirent : Dirent) : Prop := dirent.mallocPair = true ∧ dirent.mallocItem = true ∧
    dirent.mallocLists = true

/-- The entries after a turn: a new one, unless the first one of the identifier is taken out. -/
theorem loadNodlDirent_filed (env : NodlFiles) (dirname : Token) {d : Dict (Dict KeyvalInfo)} (filed : Filed d es)
    (hex : isNodlName dirent.name = true) (memory : dirent.holds)
    (returned : env.loadFile fuel (nodlPath dirname dirent.name) (banoDictInit true).2 = .done r) :
    ∃ d' es' p, loadNodlDirent env fuel dirname dirent d = .done (0,d') ∧ Filed d' es' ∧ (∀ e ∈ es, e.1 ≠ p) ∧
      match descriptionOf r with
      | some nodl => es' = es ++ [(p,DictPair.mk (nodlId dirent.name) nodl)]
      | none => ∃ nodl, es' = (es ++ [(p,DictPair.mk (nodlId dirent.name) nodl)]).eraseP fun e =>
        e.2.key = nodlId dirent.name := by
  obtain ⟨pair,item,lists⟩ := memory
  obtain ⟨mid,added,filed'⟩ := banoDictAdd_filed filed dirent.junk (nodlId dirent.name)
  obtain ⟨err,nodl⟩ := r
  obtain ⟨stored,written⟩ := filed'.store nodl
  have fresh : ∀ e ∈ es, e.1 ≠ d.pairs.next := fun e member => Heap.next_ne (filed.cell e member)
  by_cases fine : err = 0
  · refine ⟨_,_,d.pairs.next,?_,written,fresh,?_⟩
    · simp [loadNodlDirent,hex,pair,item,lists,added,returned,stored,fine]
    · simp [descriptionOf,fine]
  · have held : entryOf (es ++ [(d.pairs.next,DictPair.mk (nodlId dirent.name) nodl)])
        (nodlId dirent.name) ≠ none := by
      rw [entryOf_append]
      simp [entryOf]
    obtain ⟨d',deleted,remaining⟩ := banoDictDel_filed written held
    refine ⟨d',_,d.pairs.next,?_,remaining,fresh,?_⟩
    · simp [loadNodlDirent,hex,pair,item,lists,added,returned,stored,fine,deleted]
    · rw [descriptionOf,if_neg fine]
      exact ⟨nodl,rfl⟩

/-- What a turn does to the entry of its file: it is found as before, unless there was none, or it is lost. -/
structure Turned (k : U32) (described : Option (Dict KeyvalInfo))
    (before after : Option (Ptr × DictPair (Dict KeyvalInfo))) : Prop where
  read : ∀ nodl, described = some nodl → ∃ p, after = before.or (some (p,⟨k,nodl⟩))
  unread : described = none → before = none → after = none
  lost : described = none → ∀ e, before = some e → ∀ e', after = some e' → e'.1 ≠ e.1

theorem entryOf_eraseP {id k : U32} (other : k ≠ id) (es : List (Ptr × DictPair β)) :
    entryOf (es.eraseP fun e => e.2.key = id) k = entryOf es k := by
  have same := filter_eraseP (r := fun e : Ptr × DictPair β => e.2.key = id) (q := fun e => e.2.key = k)
    (fun e own => by simpa [of_decide_eq_true own] using Ne.symm other) es
  rw [entryOf,entryOf,← List.head?_filter,← List.head?_filter,same]

theorem entryOf_last {id k : U32} (other : k ≠ id) (es : List (Ptr × DictPair β)) (p : Ptr) (v : β) :
    entryOf (es ++ [(p,⟨id,v⟩)]) k = entryOf es k := by
  rw [entryOf_append]
  simp [entryOf,Ne.symm other]

theorem loadNodlDirent_turned (env : NodlFiles) (dirname : Token) {d : Dict (Dict KeyvalInfo)} (filed : Filed d es)
    (hex : isNodlName dirent.name = true) (memory : dirent.holds)
    (returned : env.loadFile fuel (nodlPath dirname dirent.name) (banoDictInit true).2 = .done r) :
    ∃ d' es', loadNodlDirent env fuel dirname dirent d = .done (0,d') ∧ Filed d' es' ∧
      (∀ k, k ≠ nodlId dirent.name → entryOf es' k = entryOf es k) ∧
      Turned (nodlId dirent.name) (descriptionOf r) (entryOf es (nodlId dirent.name)) (entryOf es' (nodlId dirent.name)) := by
  obtain ⟨d',es',p,turn,filed',fresh,made⟩ := loadNodlDirent_filed env dirname filed hex memory returned
  refine ⟨d',es',turn,filed',?_⟩
  cases described : descriptionOf r with
  | some nodl =>
    rw [described] at made
    subst made
    refine ⟨fun k other => entryOf_last other es p nodl,?_,by rintro ⟨⟩,by rintro ⟨⟩⟩
    intro nodl' same
    obtain rfl := Option.some.inj same
    refine ⟨p,?_⟩
    rw [entryOf_append]
    simp [entryOf]
  | none =>
    rw [described] at made
    obtain ⟨nodl,rfl⟩ := made
    refine ⟨fun k other => (entryOf_eraseP other _).trans (entryOf_last other es p nodl),by rintro _ ⟨⟩,?_,?_⟩
    · intro _ absent
      have none : ∀ e ∈ es, ¬decide (e.2.key = nodlId dirent.name) = true := List.find?_eq_none.mp absent
      rw [List.eraseP_append_right _ none]
      simpa using absent
    · intro _ e found e' found'
      obtain ⟨own,as,bs,rfl,before⟩ := List.find?_eq_some_iff_append.mp found
      have erased : ((as ++ e :: bs) ++ [(p,DictPair.mk (nodlId dirent.name) nodl)]).eraseP
          (fun e => e.2.key = nodlId dirent.name) = as ++ (bs ++ [(p,⟨nodlId dirent.name,nodl⟩)]) := by
        rw [List.append_assoc,List.eraseP_append_right _ fun e member => by simpa using before e member]
        simp [of_decide_eq_true own]
      have member := List.mem_of_find?_eq_some found'
      rw [erased] at member
      have apart := filed.apart
      rw [List.map_append,List.map_cons,List.nodup_middle,List.nodup_cons] at apart
      rcases List.mem_append.mp member with old | later
      · exact fun same => apart.1 (List.mem_append_left _ (List.mem_map.mpr ⟨e',old,same⟩))
      · rcases List.mem_append.mp later with old | new
        · exact fun same => apart.1 (List.mem_append_right _ (List.mem_map.mpr ⟨e',old,same⟩))
        · obtain rfl := List.mem_singleton.mp new
          exact (fresh e (by simp)).symm

/-- The names of a directory differ, so the turns of the other files leave the entry of a file alone. -/
theorem loadNodlDirents_turned (env : NodlFiles) (dirname : Token) {d : Dict (Dict KeyvalInfo)} (filed : Filed d es)
    (memory : ∀ dirent ∈ dirents, dirent.holds) (names : (dirents.map Dirent.name).Nodup)
    (returned : ∀ dirent ∈ dirents, isNodlName dirent.name = true →
      ∃ r, env.loadFile fuel (nodlPath dirname dirent.name) (banoDictInit true).2 = .done r) :
    ∃ d' es', loadNodlDirents env fuel dirname dirents d = .done (0,d') ∧ Filed d' es' ∧
      (∀ k, (∀ dirent ∈ dirents, isNodlName dirent.name = true → nodlId dirent.name ≠ k) →
        entryOf es' k = entryOf es k) ∧
      ∀ dirent ∈ dirents, isNodlName dirent.name = true → ∀ r,
        env.loadFile fuel (nodlPath dirname dirent.name) (banoDictInit true).2 = .done r →
        Turned (nodlId dirent.name) (descriptionOf r) (entryOf es (nodlId dirent.name))
        (entryOf es' (nodlId dirent.name)) := by
  induction dirents generalizing d es with
  | nil => exact ⟨d,es,rfl,filed,fun k _ => rfl,nofun⟩
  | cons dirent dirents ih =>
    obtain ⟨here,later⟩ := List.forall_mem_cons.mp memory
    obtain ⟨new,rest⟩ := List.nodup_cons.mp names
    obtain ⟨comes,comes'⟩ := List.forall_mem_cons.mp returned
    cases hex : isNodlName dirent.name with
    | false =>
      have passed : loadNodlDirent env fuel dirname dirent d = .done (0,d) := if_neg (by simp [hex])
      obtain ⟨d',es',loaded,filed',kept,turned⟩ := ih filed later rest comes'
      refine ⟨d',es',by simp [loadNodlDirents,passed,loaded],filed',fun k apart => ?_,fun other member named => ?_⟩
      · exact kept k fun other member => apart other (List.mem_cons_of_mem _ member)
      · rcases List.mem_cons.mp member with rfl | inside
        · simp [hex] at named
        · exact turned other inside named
    | true =>
      obtain ⟨r,loads⟩ := comes hex
      obtain ⟨mid,fs,turn,filed',others,turned⟩ := loadNodlDirent_turned env dirname filed hex here loads
      obtain ⟨d',es',loaded,filed'',kept,turned'⟩ := ih filed' later rest comes'
      have apart : ∀ other ∈ dirents, isNodlName other.name = true → nodlId other.name ≠ nodlId dirent.name :=
        fun other member named same => new (List.mem_map.mpr ⟨other,member,nodlId_inj named hex same⟩)
      refine ⟨d',es',by simp [loadNodlDirents,turn,loaded],filed'',fun k clear => ?_,
        fun other member named r' loads' => ?_⟩
      · obtain ⟨first,after⟩ := List.forall_mem_cons.mp clear
        exact (kept k after).trans (others k (first hex).symm)
      · rcases List.mem_cons.mp member with rfl | inside
        · obtain rfl := Outcome.done.inj (loads.symm.trans loads')
          rwa [kept _ apart]
        · have same := others _ (apart other inside named)
          rw [← same]
          exact turned' other inside named r' loads'

/-- A directory is loaded only if each of its files returns. -/
theorem loadNodlDirents_returned {env : NodlFiles} {d : Dict (Dict KeyvalInfo)}
    (memory : ∀ dirent ∈ dirents, dirent.holds)
    (loaded : loadNodlDirents env fuel dirname dirents d = .done (0,d')) : ∀ dirent ∈ dirents,
      isNodlName dirent.name = true →
      ∃ r, env.loadFile fuel (nodlPath dirname dirent.name) (banoDictInit true).2 = .done r := by
  induction dirents generalizing d with
  | nil => nofun
  | cons dirent dirents ih =>
    obtain ⟨here,later⟩ := List.forall_mem_cons.mp memory
    rw [loadNodlDirents] at loaded
    cases turn : loadNodlDirent env fuel dirname dirent d with
    | running => simp [turn] at loaded
    | fault => simp [turn] at loaded
    | done result =>
      obtain ⟨err,mid⟩ := result
      rw [turn,Outcome.bind_done] at loaded
      by_cases fine : err = 0
      · obtain rfl := fine
        refine List.forall_mem_cons.mpr ⟨fun hex => ?_,ih later loaded⟩
        rw [loadNodlDirent,if_pos hex,here.2.2] at turn
        cases added : banoDictAdd dirent.mallocPair dirent.mallocItem dirent.junk d (nodlId dirent.name) with
        | none => simp [added,Outcome.ofOption] at turn
        | some result =>
          obtain ⟨_ | p,nodls⟩ := result
          · simp [added] at turn
          · cases comes : env.loadFile fuel (nodlPath dirname dirent.name) (banoDictInit true).2 with
            | running => simp [added,comes] at turn
            | fault => simp [added,comes] at turn
            | done r => exact ⟨r,rfl⟩
      · simp only [if_pos fine] at loaded
        exact absurd (Prod.mk.inj (Outcome.done.inj loaded)).1 fine

/-- The file is loaded entirely, or leaves no trace. -/
def AllOrNothing (d d' : Dict (Dict KeyvalInfo)) (id : U32) : Option (Dict KeyvalInfo) → Prop
  | some nodl => valueOf d' id = some (some nodl)
  | none => banoDictGet d' id = banoDictGet d id ∧ valueOf d' id = valueOf d id

/-- No entry has the identifier, or the file loads and the first one that has it tells the same. -/
def Unshadowed (d : Dict (Dict KeyvalInfo)) (id : U32) (described : Option (Dict KeyvalInfo)) : Prop :=
  valueOf d id = some none ∨ ∃ nodl, described = some nodl ∧ valueOf d id = some (some nodl)

theorem Turned.allOrNothing_iff {id : U32} (turned : Turned id described (entryOf es id) (entryOf es' id))
    (filed : Filed d es)
    (filed' : Filed d' es') : AllOrNothing d d' id described ↔ Unshadowed d id described := by
  cases described with
  | some nodl =>
    obtain ⟨p,after⟩ := turned.read nodl rfl
    rw [AllOrNothing,Unshadowed,valueOf_filed filed,valueOf_filed filed',after]
    cases entryOf es id with
    | none => simp
    | some e => simp
  | none =>
    rw [AllOrNothing,Unshadowed,banoDictGet_filed filed,banoDictGet_filed filed',valueOf_filed filed,
      valueOf_filed filed']
    cases found : entryOf es id with
    | none => simp [turned.unread rfl found]
    | some e =>
      have lost := turned.lost rfl e found
      cases found' : entryOf es' id with
      | none => simp
      | some e' => simp [lost e' found']

/-- The directory is loaded, each file that matches entirely or without a trace, and nothing else is changed. -/
def LoadsEach (env : NodlFiles) (dirname : Token) (dirents : List Dirent) (d : Dict (Dict KeyvalInfo)) : Prop :=
  ∃ fuel d', loadNodlDir env fuel dirname d = .done (0,d') ∧
    (∀ dirent ∈ dirents, isNodlName dirent.name = true → ∃ described,
      env.Describes (nodlPath dirname dirent.name) described ∧
      AllOrNothing d d' (nodlId dirent.name) described) ∧
    ∀ k, (∀ dirent ∈ dirents, isNodlName dirent.name = true → nodlId dirent.name ≠ k) →
      banoDictGet d' k = banoDictGet d k ∧ valueOf d' k = valueOf d k

/-- The bound that is enough for each file. -/
theorem files_returned {env : NodlFiles} {dirents : List Dirent}
    (clean : ∀ dirent ∈ dirents, isNodlName dirent.name = true →
    Clean env.files (nodlPath dirname dirent.name)) : ∃ fuel, ∀ dirent ∈ dirents, isNodlName dirent.name = true →
      ∃ r, env.loadFile fuel (nodlPath dirname dirent.name) (banoDictInit true).2 = .done r := by
  induction dirents with
  | nil => exact ⟨0,nofun⟩
  | cons dirent dirents ih =>
    obtain ⟨here,later⟩ := List.forall_mem_cons.mp clean
    obtain ⟨fuel,comes⟩ := ih later
    cases hex : isNodlName dirent.name with
    | false => exact ⟨fuel,List.forall_mem_cons.mpr ⟨fun named => by simp [hex] at named,comes⟩⟩
    | true =>
      obtain ⟨fuel',r,loads⟩ := loadNodlFile_clean (here hex) (env.memory (nodlPath dirname dirent.name))
        banoDictInit_filed
      refine ⟨max fuel fuel',List.forall_mem_cons.mpr ⟨fun _ => ⟨r,?_⟩,fun other member named => ?_⟩⟩
      · exact (loadNodlFile_below _ _ _ (Nat.le_max_right fuel fuel')).done loads
      · obtain ⟨r',loads'⟩ := comes other member named
        exact ⟨r',(loadNodlFile_below _ _ _ (Nat.le_max_left fuel fuel')).done loads'⟩

/-- A directory that is loaded. A file that matches does what it
should if and only if no earlier entry is in the way. -/
theorem loadNodlDir_loaded (env : NodlFiles) (dirname : Token) (filed : Filed d es) (named : env.mallocName = true)
    (opened : env.opendir (cstr dirname) = some dirents) (names : (dirents.map Dirent.name).Nodup)
    (memory : ∀ dirent ∈ dirents, dirent.holds) (loaded : loadNodlDir env fuel dirname d = .done (0,d')) :
    (∀ dirent ∈ dirents, isNodlName dirent.name = true → ∃ described,
      env.Describes (nodlPath dirname dirent.name) described ∧
      (AllOrNothing d d' (nodlId dirent.name) described ↔ Unshadowed d (nodlId dirent.name) described)) ∧
    ∀ k, (∀ dirent ∈ dirents, isNodlName dirent.name = true → nodlId dirent.name ≠ k) →
      banoDictGet d' k = banoDictGet d k ∧ valueOf d' k = valueOf d k := by
  simp only [loadNodlDir,named,opened,if_true] at loaded
  have returned := loadNodlDirents_returned memory loaded
  obtain ⟨d'',es',loaded',filed',kept,turned⟩ := loadNodlDirents_turned env dirname filed memory names returned
  obtain rfl : d' = d'' := (Prod.mk.inj (Outcome.done.inj (loaded.symm.trans loaded'))).2
  constructor
  · intro dirent member hex
    obtain ⟨r,comes⟩ := returned dirent member hex
    exact ⟨descriptionOf r,fileDescribes_told comes,(turned dirent member hex r comes).allOrNothing_iff filed filed'⟩
  · intro k apart
    rw [banoDictGet_filed filed,banoDictGet_filed filed',valueOf_filed filed,valueOf_filed filed',kept k apart]
    exact ⟨rfl,rfl⟩

/-- A directory is loaded as it should be if and only if each file that matches is parsed to its end
or cannot be mapped, and no earlier entry is in the way of what it describes. Whenever a directory is
loaded, that no earlier entry is in the way decides it for each file. -/
theorem loadNodlDir_iff (env : NodlFiles) (dirname : Token) (filed : Filed d es) (named : env.mallocName = true)
    (opened : env.opendir (cstr dirname) = some dirents) (names : (dirents.map Dirent.name).Nodup)
    (memory : ∀ dirent ∈ dirents, dirent.holds) :
    (LoadsEach env dirname dirents d ↔ ∀ dirent ∈ dirents, isNodlName dirent.name = true →
      Clean env.files (nodlPath dirname dirent.name) ∧
      ∃ described, env.Describes (nodlPath dirname dirent.name) described ∧
        Unshadowed d (nodlId dirent.name) described) ∧
    ∀ fuel d', loadNodlDir env fuel dirname d = .done (0,d') →
      (∀ dirent ∈ dirents, isNodlName dirent.name = true → ∃ described,
        env.Describes (nodlPath dirname dirent.name) described ∧
        (AllOrNothing d d' (nodlId dirent.name) described ↔ Unshadowed d (nodlId dirent.name) described)) ∧
      ∀ k, (∀ dirent ∈ dirents, isNodlName dirent.name = true → nodlId dirent.name ≠ k) →
        banoDictGet d' k = banoDictGet d k ∧ valueOf d' k = valueOf d k := by
  have each : ∀ fuel d', loadNodlDir env fuel dirname d = .done (0,d') → _ :=
    fun fuel d' loaded => loadNodlDir_loaded env dirname filed named opened names memory loaded
  refine ⟨?_,each⟩
  constructor
  · rintro ⟨fuel,d',loaded,settled,_⟩ dirent member hex
    have loaded' : loadNodlDirents env fuel dirname dirents d = .done (0,d') := by
      simpa only [loadNodlDir,named,opened,if_true] using loaded
    obtain ⟨r,comes⟩ := loadNodlDirents_returned memory loaded' dirent member hex
    obtain ⟨described,describes,whole⟩ := settled dirent member hex
    obtain ⟨_,describes',whole_iff⟩ := (each fuel d' loaded).1 dirent member hex
    obtain rfl := (describes.told comes).trans (describes'.told comes).symm
    exact ⟨clean_loadNodlFile comes,described,describes,whole_iff.mp whole⟩
  · intro clear
    obtain ⟨fuel,returned⟩ := files_returned fun dirent member hex => (clear dirent member hex).1
    obtain ⟨d',_,loaded,_⟩ := loadNodlDirents_turned env dirname filed memory names returned
    have loaded' : loadNodlDir env fuel dirname d = .done (0,d') := by
      simpa only [loadNodlDir,named,opened,if_true] using loaded
    refine ⟨fuel,d',loaded',fun dirent member hex => ?_,(each fuel d' loaded').2⟩
    obtain ⟨r,comes⟩ := returned dirent member hex
    obtain ⟨_,described,describes,unshadowed⟩ := clear dirent member hex
    obtain ⟨_,describes',whole_iff⟩ := (each fuel d' loaded').1 dirent member hex
    obtain rfl := (describes.told comes).trans (describes'.told comes).symm
    exact ⟨described,describes,whole_iff.mpr unshadowed⟩

def firstDirent : Dirent := ⟨literal "00000001.nodl",true,true,true,(banoDictInit true).2⟩

/-- One directory, with one file. -/
def oneFile (file : Option (List UInt8)) : NodlFiles where
  mallocName := true
  opendir _ := some [firstDirent]
  files path := if path = nodlPath (literal "nodl") firstDirent.name then file else none
  memory _ _ := ⟨true,true,banoNodlKeyvalInit⟩

theorem firstDirent_nodl : isNodlName firstDirent.name = true ∧ nodlId firstDirent.name = 1 := by decide

def doorFile : List UInt8 := literal "keyval { name = door key = 3 fmt = uint32 }"

theorem loadNodlDir_one : LoadsEach (oneFile (some doorFile)) (literal "nodl") [firstDirent]
    (banoDictInit true).2 := by
  have memory : ∀ dirent ∈ [firstDirent], dirent.holds := fun dirent member => by
    rw [List.mem_singleton.mp member]
    exact ⟨rfl,rfl,rfl⟩
  refine (loadNodlDir_iff (oneFile (some doorFile)) (literal "nodl") banoDictInit_filed rfl rfl
    (List.nodup_singleton _) memory).1.mpr
    fun dirent member _ => ?_
  obtain rfl := List.mem_singleton.mp member
  have clean : Clean (oneFile (some doorFile)).files (nodlPath (literal "nodl") firstDirent.name) :=
    .inr ⟨literal "nodl/",doorFile,by decide,by decide,scan_accepted (show scan _ _ 3 _ _ = .done true by decide)⟩
  obtain ⟨fuel,r,returned⟩ := loadNodlFile_clean clean ((oneFile (some doorFile)).memory _) banoDictInit_filed
  exact ⟨clean,_,fileDescribes_told returned,.inl (valueOf_filed banoDictInit_filed _)⟩

/-- The entry of an earlier file is lost when a later one of its identifier cannot be mapped. -/
theorem loadNodlDir_lost : ¬∀ (env : NodlFiles) (dirname : Token) (dirents : List Dirent) (d : Dict (Dict KeyvalInfo))
    (es : List (Ptr × DictPair (Dict KeyvalInfo))), Filed d es → env.mallocName = true →
    env.opendir (cstr dirname) = some dirents →
    (dirents.map Dirent.name).Nodup → (∀ dirent ∈ dirents, dirent.holds) → LoadsEach env dirname dirents d := by
  intro all
  have memory : ∀ dirent ∈ [firstDirent], dirent.holds := fun dirent member => by
    rw [List.mem_singleton.mp member]
    exact ⟨rfl,rfl,rfl⟩
  obtain ⟨d,_,filed⟩ := banoDictAdd_filed banoDictInit_filed (banoDictInit true).2 1
  obtain ⟨fuel,d',loaded,settled,_⟩ :=
    all (oneFile none) (literal "nodl") [firstDirent] d _ filed rfl rfl (List.nodup_singleton _) memory
  have unmapped : loadNodlFile (oneFile none).files
    ((oneFile none).memory (nodlPath (literal "nodl") firstDirent.name)) fuel
      (nodlPath (literal "nodl") firstDirent.name) (banoDictInit true).2 = .done (-1,(banoDictInit true).2) := rfl
  obtain ⟨_,describes,whole⟩ := settled firstDirent List.mem_cons_self firstDirent_nodl.1
  obtain ⟨_,describes',whole_iff⟩ :=
    (loadNodlDir_loaded (oneFile none) (literal "nodl") filed rfl rfl (List.nodup_singleton _) memory loaded).1
      firstDirent List.mem_cons_self firstDirent_nodl.1
  obtain rfl := describes.told unmapped
  obtain rfl := describes'.told unmapped
  rcases whole_iff.mp whole with absent | ⟨_,described,_⟩
  · rw [valueOf_filed filed,firstDirent_nodl.2] at absent
    simp [entryOf] at absent
  · cases described

end Bano
