import Bano.Descriptions
import Bano.KeyvalSettings
import Bano.Numerals

/-! The keyvals that a file may describe, against what is made of them. -/
namespace Bano

open Lib

def KeyvalSwitch.word : KeyvalSwitch → String
  | .mtime => "mtime"
  | .get => "get"
  | .set => "set"
  | .ack => "ack"
  | .rst => "rst"
  | .notif => "notif"

/-- The words of a truth value. -/
inductive Truth : Token → Bool → Prop where
  | yes : word ∈ ["yes","true","1"] → Truth (literal word) true
  | no : word ∈ ["no","false","0"] → Truth (literal word) false

/-- The pairs that a keyval struct may have. -/
inductive ValidPair : Token × Token → Prop where
  | name (s : Token) : ValidPair (literal "name",s)
  | key : Numeral s n → n < 2 ^ 16 → ValidPair (literal "key",s)
  | fmt : word ∈ ["bool","uint8","uint16","uint32"] → ValidPair (literal "fmt",literal word)
  | base : word ∈ ["dec","bin"] → ValidPair (literal "base",literal word)
  | switch (which : KeyvalSwitch) : Truth s on → ValidPair (literal which.word,s)

def KeyvalSwitch.all : List KeyvalSwitch := [.mtime,.get,.set,.ack,.rst,.notif]

/-- The flag that a pair gives: of its format, of its base, or of a truth value that is true. -/
def givenFlag (pair : Token × Token) : U32 :=
  if pair.1 = literal "fmt" then
    if pair.2 = literal "bool" then nodlFlagFmtBool
    else if pair.2 = literal "uint8" then nodlFlagFmtUint8
    else if pair.2 = literal "uint16" then nodlFlagFmtUint16
    else if pair.2 = literal "uint32" then nodlFlagFmtUint32
    else 0
  else if pair.1 = literal "base" then
    if pair.2 = literal "dec" then nodlFlagBaseDec
    else if pair.2 = literal "bin" then nodlFlagBaseBin
    else 0
  else if pair.2 ∈ ["yes","true","1"].map literal then
    ((KeyvalSwitch.all.find? fun which => pair.1 = literal which.word).map KeyvalSwitch.flag).getD 0
  else 0

/-- The keyval is the one that the pairs describe. -/
structure Describes (pairs : List (Token × Token)) (kv : KeyvalInfo) : Prop where
  flags : ∀ i, kv.flags.getLsbD i = true ↔ ∃ pair ∈ pairs, (givenFlag pair).getLsbD i = true
  key : ∀ s, (literal "key",s) ∈ pairs → Numeral s kv.key.toNat
  keyless : (∀ s, (literal "key",s) ∉ pairs) → kv.key = 0
  name : ∀ s, (literal "name",s) ∈ pairs → kv.name = cstr (s.take (keyvalNameSize - 1))
  nameless : (∀ s, (literal "name",s) ∉ pairs) → kv.name = literal "0x" ++ hexText 8 kv.key.toNat

/-- The struct is applied, and one entry is added: what the pairs describe, under its key. -/
def LoadsAsDescribed (strukt : ConfStruct) : Prop :=
  ∀ d es m, Filed d es → m.holds = true → ∃ d' p kv, applyNodlStruct strukt m d = some (0,d') ∧
    Filed d' (es ++ [(p,keyvalPair kv)]) ∧ Describes strukt.pairs kv

/-- The pairs that are read as they are written: no format but uint32, no long
numeral, and a name that is not empty as a C string. -/
structure Plainly (pairs : List (Token × Token)) : Prop where
  fmt : ∀ s, (literal "fmt",s) ∈ pairs → s = literal "uint32"
  key : ∀ s, (literal "key",s) ∈ pairs → s.length ≤ 31
  name : ∀ s, (literal "name",s) ∈ pairs → ∃ c ∈ s.head?, c ≠ 0

/-- The file has a keyval struct with a pair that it may not have. -/
def HasInvalidPair (structs : List (ConfStruct × KeyvalMemory)) : Prop :=
  ∃ x ∈ structs, x.1.name = literal "keyval" ∧ ∃ pair ∈ x.1.pairs, ¬ValidPair pair

/-- Some pair of a struct that passes for a keyval is refused. -/
def HasRefusedPair (structs : List (ConfStruct × KeyvalMemory)) : Prop :=
  ∃ x ∈ structs, x.1.isKeyval = true ∧ ∃ pair ∈ x.1.pairs, readKeyval pair = none

/-- Such a file is not loaded. -/
def FailsIfInvalid (structs : List (ConfStruct × KeyvalMemory)) : Prop :=
  HasInvalidPair structs → ∀ d es, Filed d es → ∃ err d', applyNodlStructs structs d = some (err,d') ∧ err ≠ 0

/-- The flags that a setting adds. -/
def KeyvalSetting.adds : KeyvalSetting → U32
  | .mark flags => flags
  | .switch which true => which.flag
  | _ => 0

/-- The flags that a setting clears. -/
def KeyvalSetting.clears : KeyvalSetting → U32
  | .switch which false => which.flag
  | _ => 0

theorem write_flags (s : KeyvalSetting) (kv : KeyvalInfo) :
    (s.write kv).flags = (kv.flags &&& ~~~s.clears) ||| s.adds := by
  have kept : ∀ flags : U32, flags &&& ~~~(0 : U32) = flags := fun flags => BitVec.and_allOnes
  cases s with
  | name | key => exact ((BitVec.or_zero).trans (kept _)).symm
  | mark flags => exact congrArg (· ||| flags) (kept _).symm
  | switch which on =>
    cases on with
    | true => exact congrArg (· ||| which.flag) (kept _).symm
    | false => exact (BitVec.or_zero).symm

/-- Where no flag is cleared that is set, the flags are those that are added. -/
theorem writeAll_flags {ts : List KeyvalSetting}
    (apart : ts.Pairwise fun s t => s.adds &&& t.clears = 0) (kv : KeyvalInfo)
    (clear : ∀ t ∈ ts, kv.flags &&& t.clears = 0) (i : Nat) :
    (writeAll KeyvalSetting.write ts kv).flags.getLsbD i = true ↔
      kv.flags.getLsbD i = true ∨ ∃ t ∈ ts, t.adds.getLsbD i = true := by
  induction ts generalizing kv with
  | nil => simp
  | cons s ts ih =>
    obtain ⟨here,later⟩ := List.pairwise_cons.mp apart
    have kept : (s.write kv).flags = kv.flags ||| s.adds := by
      rw [write_flags]
      congr 1
      have none := clear s List.mem_cons_self
      apply BitVec.eq_of_getElem_eq
      intro j bound
      have bit := congrArg (fun x : U32 => x[j]) none
      simp at bit ⊢
      grind
    have clear' : ∀ t ∈ ts, (s.write kv).flags &&& t.clears = 0 := by
      intro t member
      have old := clear t (List.mem_cons_of_mem _ member)
      have new := here t member
      rw [kept,BitVec.and_or_distrib_right,old,new]
      rfl
    rw [writeAll_cons,ih later _ clear',kept]
    simp [or_assoc]

theorem writeAll_key (ts : List KeyvalSetting) (kv : KeyvalInfo) :
    (∃ x, .key x ∈ ts ∧ (writeAll KeyvalSetting.write ts kv).key = x) ∨
      (∀ x, .key x ∉ ts) ∧ (writeAll KeyvalSetting.write ts kv).key = kv.key := by
  induction ts generalizing kv with
  | nil => simp
  | cons s ts ih =>
    rw [writeAll_cons]
    rcases ih (s.write kv) with ⟨x,member,same⟩ | ⟨absent,same⟩
    · exact .inl ⟨x,List.mem_cons_of_mem _ member,same⟩
    · rw [same]
      cases s with
      | key x => exact .inl ⟨x,List.mem_cons_self,rfl⟩
      | name | mark | switch => exact .inr ⟨by simpa using absent,rfl⟩

theorem writeAll_name (ts : List KeyvalSetting) (kv : KeyvalInfo) :
    (∃ s, .name s ∈ ts ∧ (writeAll KeyvalSetting.write ts kv).name = s) ∨
      (∀ s, .name s ∉ ts) ∧ (writeAll KeyvalSetting.write ts kv).name = kv.name := by
  induction ts generalizing kv with
  | nil => simp
  | cons s ts ih =>
    rw [writeAll_cons]
    rcases ih (s.write kv) with ⟨x,member,same⟩ | ⟨absent,same⟩
    · exact .inl ⟨x,List.mem_cons_of_mem _ member,same⟩
    · rw [same]
      cases s with
      | name x => exact .inl ⟨x,List.mem_cons_self,rfl⟩
      | key | mark | switch => exact .inr ⟨by simpa using absent,rfl⟩

/-- What a valid pair means, if it is taken. -/
inductive Means : Token × Token → KeyvalSetting → Prop where
  | name (s : Token) : Means (literal "name",s) (.name (cstr (s.take (keyvalNameSize - 1))))
  | key : Numeral s n → n < 2 ^ 16 → Means (literal "key",s) (.key (BitVec.ofNat 16 n))
  | fmt : Means (literal "fmt",literal "uint32") (.mark nodlFlagFmtUint32)
  | dec : Means (literal "base",literal "dec") (.mark nodlFlagBaseDec)
  | bin : Means (literal "base",literal "bin") (.mark nodlFlagBaseBin)
  | switch (which : KeyvalSwitch) : Truth s on → Means (literal which.word,s) (.switch which on)

theorem Truth.read (truth : Truth s on) : banoStringToBool s = some on := by
  cases truth with
  | yes known =>
    simp only [List.mem_cons,List.not_mem_nil,or_false] at known
    rcases known with rfl | rfl | rfl <;> decide
  | no known =>
    simp only [List.mem_cons,List.not_mem_nil,or_false] at known
    rcases known with rfl | rfl | rfl <;> decide

theorem readKeyval_switch (which : KeyvalSwitch) (s : Token) :
    readKeyval (literal which.word,s) = readSwitch which s := by
  cases which <;> rfl

theorem readKeyval_key (s : Token) : readKeyval (literal "key",s) = (banoStringToUint16 s).map .key := rfl

theorem banoStringToUint16_long (long : 32 ≤ s.length) : banoStringToUint16 s = none := by
  rw [banoStringToUint16,banoStringToUint32,if_pos long,Option.map_none]

/-- A valid pair is taken for what it means, or it is refused. -/
theorem ValidPair.means (valid : ValidPair pair) (read : readKeyval pair = some setting) : Means pair setting := by
  cases valid with
  | name s =>
    obtain rfl := Option.some.inj read
    exact .name s
  | @key s n numeral fits =>
    rw [readKeyval_key] at read
    by_cases long : 32 ≤ s.length
    · rw [banoStringToUint16_long long] at read
      exact nomatch read
    · rw [banoStringToUint16_numeral numeral (by omega) fits] at read
      obtain rfl := Option.some.inj read
      exact .key numeral fits
  | fmt known =>
    simp only [List.mem_cons,List.not_mem_nil,or_false] at known
    rcases known with rfl | rfl | rfl | rfl
    · exact nomatch read
    · exact nomatch read
    · exact nomatch read
    · obtain rfl := Option.some.inj read
      exact .fmt
  | base known =>
    simp only [List.mem_cons,List.not_mem_nil,or_false] at known
    rcases known with rfl | rfl
    · obtain rfl := Option.some.inj read
      exact .dec
    · obtain rfl := Option.some.inj read
      exact .bin
  | @switch s on which truth =>
    rw [readKeyval_switch,readSwitch,truth.read] at read
    obtain rfl := Option.some.inj read
    exact .switch which truth

theorem Means.read (means : Means pair setting) (short : pair.1 = literal "key" → pair.2.length ≤ 31) :
    readKeyval pair = some setting := by
  cases means with
  | name s => rfl
  | key numeral fits => rw [readKeyval_key,banoStringToUint16_numeral numeral (short rfl) fits,Option.map_some]
  | fmt => rfl
  | dec => rfl
  | bin => rfl
  | switch which truth =>
    rw [readKeyval_switch,readSwitch,truth.read,Option.map_some]

/-- A name and a key give no flag. -/
theorem givenFlag_none (plain : word = "name" ∨ word = "key") (s : Token) : givenFlag (literal word,s) = 0 := by
  unfold givenFlag
  have fmt : literal word ≠ literal "fmt" := by rcases plain with rfl | rfl <;> decide
  have base : literal word ≠ literal "base" := by rcases plain with rfl | rfl <;> decide
  have switch : (KeyvalSwitch.all.find? fun which => literal word = literal which.word) = none := by
    rcases plain with rfl | rfl <;> decide
  rw [if_neg fmt,if_neg base,switch]
  exact ite_self _

theorem givenFlag_switch (which : KeyvalSwitch) (truth : Truth s on) :
    givenFlag (literal which.word,s) = if on then which.flag else 0 := by
  cases truth with
  | yes known =>
    simp only [List.mem_cons,List.not_mem_nil,or_false] at known
    rcases known with rfl | rfl | rfl <;> cases which <;> decide
  | no known =>
    simp only [List.mem_cons,List.not_mem_nil,or_false] at known
    rcases known with rfl | rfl | rfl <;> cases which <;> decide

theorem Means.adds (means : Means pair setting) : setting.adds = givenFlag pair := by
  cases means with
  | name s => exact (givenFlag_none (.inl rfl) s).symm
  | key numeral fits => exact (givenFlag_none (.inr rfl) _).symm
  | fmt | dec | bin => decide
  | @switch s on which truth =>
    rw [givenFlag_switch which truth]
    cases on <;> rfl

/-- Pairs of different keys have nothing to do with each other's flags. -/
theorem Means.apart (means : Means pair s) (means' : Means pair' t) (other : pair.1 ≠ pair'.1) :
    s.adds &&& t.clears = 0 := by
  cases means' with
  | @switch v on which truth =>
    cases on with
    | true => exact BitVec.and_zero
    | false =>
      cases means with
      | name | key => exact BitVec.zero_and
      | fmt | dec | bin => cases which <;> decide
      | @switch v' on' which' truth' =>
        cases on' with
        | false => exact BitVec.zero_and
        | true =>
          exact KeyvalSwitch.flag_apart fun same => other (congrArg (fun which => literal which.word) same)
  | name | key | fmt | dec | bin => exact BitVec.and_zero

theorem named_flags (kv : KeyvalInfo) : kv.named.flags = kv.flags := by
  rw [KeyvalInfo.named]
  split <;> rfl

theorem named_given {kv : KeyvalInfo} (given : kv.name ≠ []) : kv.named.name = kv.name := by
  rw [KeyvalInfo.named,if_neg given]

theorem named_hex {kv : KeyvalInfo} (nameless : kv.name = []) :
    kv.named.name = literal "0x" ++ hexText 8 kv.key.toNat := by
  rw [KeyvalInfo.named,if_pos nameless]

/-- Two pairs of one key are one. -/
theorem pair_unique {pairs : List (Token × Token)} (distinct : (pairs.map Prod.fst).Nodup) (one : (k,v) ∈ pairs)
    (other : (k,w) ∈ pairs) : v = w :=
  congrArg Prod.snd (List.inj_on_of_nodup_map distinct one other rfl)

/-- What the pairs of a struct describe, once none is refused. -/
theorem describes_written {pairs : List (Token × Token)} (distinct : (pairs.map Prod.fst).Nodup)
    (valid : ∀ pair ∈ pairs, ValidPair pair) (taken : ∀ pair ∈ pairs, readKeyval pair ≠ none)
    (nonempty : ∀ s, (literal "name",s) ∈ pairs → cstr (s.take (keyvalNameSize - 1)) ≠ []) :
    Describes pairs (writeAll KeyvalSetting.write (pairs.filterMap readKeyval) banoNodlKeyvalInit).named := by
  have back : ∀ t ∈ pairs.filterMap readKeyval, ∃ pair ∈ pairs, Means pair t := by
    intro t member
    obtain ⟨pair,inside,read⟩ := List.mem_filterMap.mp member
    exact ⟨pair,inside,(valid pair inside).means read⟩
  have names : ∀ s, (literal "name",s) ∈ pairs →
      .name (cstr (s.take (keyvalNameSize - 1))) ∈ pairs.filterMap readKeyval :=
    fun s inside => List.mem_filterMap.mpr ⟨_,inside,rfl⟩
  have keys : ∀ s, (literal "key",s) ∈ pairs → ∃ x, .key x ∈ pairs.filterMap readKeyval := by
    intro s inside
    obtain ⟨t,read⟩ := Option.ne_none_iff_exists'.mp (taken _ inside)
    rw [readKeyval_key,Option.map_eq_some_iff] at read
    obtain ⟨x,number,_⟩ := read
    exact ⟨x,List.mem_filterMap.mpr ⟨_,inside,by rw [readKeyval_key,number,Option.map_some]⟩⟩
  have name := writeAll_name (pairs.filterMap readKeyval) banoNodlKeyvalInit
  have key := writeAll_key (pairs.filterMap readKeyval) banoNodlKeyvalInit
  refine ⟨fun i => ?_,fun s inside => ?_,fun absent => ?_,fun s inside => ?_,fun absent => ?_⟩
  · have apart : (pairs.filterMap readKeyval).Pairwise fun s t => s.adds &&& t.clears = 0 := by
      rw [List.pairwise_filterMap]
      apply (List.pairwise_map.mp distinct).imp_of_mem
      intro pair pair' member member' other s read t read'
      exact ((valid pair member).means read).apart ((valid pair' member').means read') other
    rw [named_flags,writeAll_flags apart banoNodlKeyvalInit (fun t _ => BitVec.zero_and) i]
    constructor
    · rintro (initial | ⟨t,member,bit⟩)
      · exact absurd initial (by simp [banoNodlKeyvalInit])
      · obtain ⟨pair,inside,means⟩ := back t member
        exact ⟨pair,inside,means.adds ▸ bit⟩
    · rintro ⟨pair,inside,bit⟩
      obtain ⟨t,read⟩ := Option.ne_none_iff_exists'.mp (taken pair inside)
      refine .inr ⟨t,List.mem_filterMap.mpr ⟨pair,inside,read⟩,?_⟩
      rwa [((valid pair inside).means read).adds]
  · rw [named_key]
    rcases key with ⟨x,member,same⟩ | ⟨missing,_⟩
    · rw [same]
      obtain ⟨pair,inside',means⟩ := back _ member
      cases means with
      | @key s' n numeral fits =>
        rw [BitVec.toNat_ofNat,Nat.mod_eq_of_lt fits,pair_unique distinct inside inside']
        exact numeral
    · obtain ⟨x,member⟩ := keys s inside
      exact absurd member (missing x)
  · rw [named_key]
    rcases key with ⟨x,member,_⟩ | ⟨_,same⟩
    · obtain ⟨pair,inside,means⟩ := back _ member
      cases means
      exact absurd inside (absent _)
    · exact same
  · rcases name with ⟨x,member,same⟩ | ⟨missing,_⟩
    · obtain ⟨pair,inside',means⟩ := back _ member
      cases means with
      | name s' =>
        rw [pair_unique distinct inside inside'] at *
        rw [named_given (same ▸ nonempty s' inside'),same]
    · exact absurd (names s inside) (missing _)
  · rw [named_key]
    rcases name with ⟨x,member,_⟩ | ⟨_,same⟩
    · obtain ⟨pair,inside,means⟩ := back _ member
      cases means
      exact absurd inside (absent _)
    · exact named_hex same

theorem keyval_taken {strukt : ConfStruct} (taken : ∀ pair ∈ strukt.pairs, readKeyval pair ≠ none) :
    strukt.keyval = some (writeAll KeyvalSetting.write (strukt.pairs.filterMap readKeyval)
      banoNodlKeyvalInit).named := by
  simp [ConfStruct.keyval,applyNodlKeyvalPair_settles.foreachPair_written taken]

theorem keyval_refused {strukt : ConfStruct} (member : pair ∈ strukt.pairs) (none : readKeyval pair = none) :
    strukt.keyval = .none := by
  have failed := applyNodlKeyvalPair_settles.foreachPair_refused member none banoNodlKeyvalInit
  unfold yields at failed
  have err : (banoParserForeachPair applyNodlKeyvalPair strukt.pairs banoNodlKeyvalInit).1 ≠ 0 := by
    intro fine
    rw [if_pos fine] at failed
    exact nomatch failed
  exact if_neg err

theorem Plainly.taken {pairs : List (Token × Token)} (plain : Plainly pairs)
    (valid : ∀ pair ∈ pairs, ValidPair pair) :
    ∀ pair ∈ pairs, readKeyval pair ≠ none := by
  intro pair member
  cases valid pair member with
  | name s => exact nofun
  | @key s n numeral fits =>
    rw [readKeyval_key,banoStringToUint16_numeral numeral (plain.key s member) fits]
    exact nofun
  | fmt _ =>
    rw [plain.fmt _ member]
    exact nofun
  | base known =>
    simp only [List.mem_cons,List.not_mem_nil,or_false] at known
    rcases known with rfl | rfl <;> exact nofun
  | switch which truth =>
    rw [readKeyval_switch,readSwitch,truth.read]
    exact nofun

theorem cstr_start_iff (s : Token) : cstr (s.take (keyvalNameSize - 1)) ≠ [] ↔ ∃ c ∈ s.head?, c ≠ 0 := by
  cases s with
  | nil => simp [cstr]
  | cons d s => by_cases zero : d = 0 <;> simp [keyvalNameSize,cstr,zero]

theorem named_nonempty (kv : KeyvalInfo) : kv.named.name ≠ [] := by
  by_cases nameless : kv.name = []
  · rw [named_hex nameless]
    exact List.append_ne_nil_of_left_ne_nil (by decide) _
  · rwa [named_given nameless]

theorem ValidPair.fmt_word (valid : ValidPair pair) (fmt : pair.1 = literal "fmt") :
    ∃ word ∈ ["bool","uint8","uint16","uint32"], pair.2 = literal word := by
  cases valid with
  | name => exact absurd (show literal "name" = literal "fmt" from fmt) (by decide)
  | key => exact absurd (show literal "key" = literal "fmt" from fmt) (by decide)
  | fmt known => exact ⟨_,known,rfl⟩
  | base => exact absurd (show literal "base" = literal "fmt" from fmt) (by decide)
  | switch which =>
    have other : literal which.word ≠ literal "fmt" := by cases which <;> decide
    exact absurd fmt other

/-- A valid pair that is taken is read as it is written. -/
theorem plainly_taken {pairs : List (Token × Token)} (valid : ∀ pair ∈ pairs, ValidPair pair)
    (taken : ∀ pair ∈ pairs, readKeyval pair ≠ none) (named : ∀ s, (literal "name",s) ∈ pairs →
      ∃ c ∈ s.head?, c ≠ 0) :
    Plainly pairs := by
  refine ⟨fun s member => ?_,fun s member => ?_,named⟩
  · obtain ⟨word,known,rfl⟩ := (valid _ member).fmt_word rfl
    simp only [List.mem_cons,List.not_mem_nil,or_false] at known
    rcases known with rfl | rfl | rfl | rfl
    · exact absurd rfl (taken _ member)
    · exact absurd rfl (taken _ member)
    · exact absurd rfl (taken _ member)
    · rfl
  · by_contra long
    exact taken _ member (by rw [readKeyval_key,banoStringToUint16_long (by omega),Option.map_none])

/-- One entry is one keyval. -/
theorem entered_one {d : Dict KeyvalInfo} (one : Filed d [(p,keyvalPair kv)])
    (other : Filed d [(p',keyvalPair kv')]) : kv = kv' := by
  have value := valueOf_filed one (kv.key.setWidth 32)
  rw [valueOf_filed other] at value
  by_cases same : kv'.key.setWidth 32 = kv.key.setWidth 32
  · simp [entryOf,keyvalPair,same] at value
    exact value.symm
  · simp [entryOf,keyvalPair,same] at value

theorem loadsAsDescribed_iff {strukt : ConfStruct} (keyval : strukt.name = literal "keyval")
    (distinct : (strukt.pairs.map Prod.fst).Nodup) (valid : ∀ pair ∈ strukt.pairs, ValidPair pair) :
    LoadsAsDescribed strukt ↔ Plainly strukt.pairs := by
  have kind : strukt.isKeyval = true := by
    rw [ConfStruct.isKeyval,keyval]
    decide
  constructor
  · intro loads
    obtain ⟨d',p,kv,applied,filed,described⟩ :=
      loads _ [] ⟨true,true,banoNodlKeyvalInit⟩ banoDictInit_filed rfl
    obtain ⟨d,result,more,filed',pairs⟩ :=
      applyNodlStruct_filed banoDictInit_filed strukt ⟨true,true,banoNodlKeyvalInit⟩
    obtain ⟨fine,rfl⟩ := Prod.mk.inj (Option.some.inj (result.symm.trans applied))
    have taken : ∀ pair ∈ strukt.pairs, readKeyval pair ≠ none := by
      intro pair member none
      simp [structKeyvals,kind,keyval_refused member none] at fine
    have made : structKeyvals strukt ⟨true,true,banoNodlKeyvalInit⟩ =
        (0,[(writeAll KeyvalSetting.write (strukt.pairs.filterMap readKeyval) banoNodlKeyvalInit).named]) := by
      simp [structKeyvals,kind,keyval_taken taken,KeyvalMemory.holds]
    rw [made] at pairs
    obtain ⟨⟨p',pair⟩,rfl,same⟩ := List.map_eq_singleton_iff.mp pairs
    obtain rfl : pair = keyvalPair _ := same
    obtain rfl := entered_one filed filed'
    apply plainly_taken valid taken
    intro s member
    rw [← cstr_start_iff,← described.name s member]
    exact named_nonempty _
  · intro plain d es m filed memory
    have taken := plain.taken valid
    obtain ⟨d',applied,more,filed',pairs⟩ := applyNodlStruct_filed filed strukt m
    have result : structKeyvals strukt m =
        (0,[(writeAll KeyvalSetting.write (strukt.pairs.filterMap readKeyval) banoNodlKeyvalInit).named]) := by
      simp [structKeyvals,kind,keyval_taken taken,memory]
    rw [result] at applied pairs
    obtain ⟨⟨p,pair⟩,rfl,same⟩ := List.map_eq_singleton_iff.mp pairs
    obtain rfl : pair = keyvalPair _ := same
    exact ⟨d',p,_,applied,filed',describes_written distinct valid taken fun s member =>
      (cstr_start_iff s).mpr (plain.name s member)⟩

theorem fileKeyvals_fails (structs : List (ConfStruct × KeyvalMemory)) : (fileKeyvals structs).1 ≠ 0 ↔
    HasRefusedPair structs := by
  induction structs with
  | nil => simp [fileKeyvals,HasRefusedPair]
  | cons x structs ih =>
    obtain ⟨strukt,m⟩ := x
    have here : (structKeyvals strukt m).1 ≠ 0 ↔ strukt.isKeyval = true ∧ ∃ pair ∈ strukt.pairs,
        readKeyval pair = none := by
      cases kind : strukt.isKeyval with
      | false => simp [structKeyvals,kind]
      | true =>
        by_cases refused : ∃ pair ∈ strukt.pairs, readKeyval pair = none
        · obtain ⟨pair,member,none⟩ := refused
          simp [structKeyvals,kind,keyval_refused member none]
          exact ⟨_,_,member,none⟩
        · have taken : ∀ pair ∈ strukt.pairs, readKeyval pair ≠ none := fun pair member none =>
            refused ⟨pair,member,none⟩
          simpa [structKeyvals,kind,keyval_taken taken] using taken
    have split : HasRefusedPair ((strukt,m) :: structs) ↔
        (strukt.isKeyval = true ∧ ∃ pair ∈ strukt.pairs, readKeyval pair = none) ∨ HasRefusedPair structs := by
      simp [HasRefusedPair]
    rw [split,← here,← ih]
    by_cases fine : (structKeyvals strukt m).1 = 0 <;> simp [fileKeyvals,fine]

/-- What comes of a keyval struct, and of a file. -/
theorem nodlLoading_iff (structs : List (ConfStruct × KeyvalMemory)) :
    (∀ strukt : ConfStruct, strukt.name = literal "keyval" → (strukt.pairs.map Prod.fst).Nodup →
      (∀ pair ∈ strukt.pairs, ValidPair pair) → (LoadsAsDescribed strukt ↔ Plainly strukt.pairs)) ∧
    (FailsIfInvalid structs ↔ (HasInvalidPair structs → HasRefusedPair structs)) := by
  refine ⟨fun strukt => loadsAsDescribed_iff,?_⟩
  constructor
  · intro fails invalid
    obtain ⟨err,d',loaded,failed⟩ := fails invalid _ [] banoDictInit_filed
    obtain ⟨d,result,_⟩ := applyNodlStructs_filed banoDictInit_filed structs
    obtain ⟨rfl,_⟩ := Prod.mk.inj (Option.some.inj (result.symm.trans loaded))
    exact (fileKeyvals_fails structs).mp failed
  · intro refused invalid d es filed
    obtain ⟨d',result,_⟩ := applyNodlStructs_filed filed structs
    exact ⟨_,d',result,(fileKeyvals_fails structs).mpr (refused invalid)⟩

def doorKeyval : ConfStruct :=
  ⟨literal "keyval",[(literal "name",literal "door"),(literal "key",literal "3"),(literal "fmt",literal "uint32")]⟩

theorem nodlLoading_door : LoadsAsDescribed doorKeyval ↔ Plainly doorKeyval.pairs := by
  have three : Numeral (literal "3") (positional 10 [3]) :=
    .decimal (by decide) (.cons (show decimalDigit 51 = some 3 from rfl) .nil)
  apply (nodlLoading_iff []).1 doorKeyval rfl (by decide)
  intro pair member
  simp only [doorKeyval,List.mem_cons,List.not_mem_nil,or_false] at member
  rcases member with rfl | rfl | rfl
  · exact .name _
  · exact .key three (by decide)
  · exact .fmt (by decide)

/-- No format but uint32 is taken. -/
theorem nodlLoading_bool : ¬∀ strukt : ConfStruct, strukt.name = literal "keyval" →
    (strukt.pairs.map Prod.fst).Nodup →
    (∀ pair ∈ strukt.pairs, ValidPair pair) → LoadsAsDescribed strukt := by
  intro loads
  have valid : ∀ pair ∈ [(literal "fmt",literal "bool")], ValidPair pair := by
    intro pair member
    rw [List.mem_singleton.mp member]
    exact .fmt (by decide)
  obtain ⟨_,_,_,applied,_⟩ := loads ⟨literal "keyval",[(literal "fmt",literal "bool")]⟩ rfl (by decide) valid _ []
    ⟨true,true,banoNodlKeyvalInit⟩ banoDictInit_filed rfl
  have failed : applyNodlStruct ⟨literal "keyval",[(literal "fmt",literal "bool")]⟩ ⟨true,true,banoNodlKeyvalInit⟩
      (banoDictInit true).2 = some (-1,(banoDictInit true).2) := rfl
  rw [failed] at applied
  exact absurd (Prod.mk.inj (Option.some.inj applied)).1 (by decide)

end Bano
