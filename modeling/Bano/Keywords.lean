import Bano.Keyval
import Bano.Open

/-! Keywords: the functions that take a pair, a section or a truth value compare a token with one keyword
after the other, and bano_string_cmp_cstr lets every prefix of a keyword pass for it. -/
namespace Bano

open Lib

/-- The chains of comparisons: the keys of each section and of a
keyval, the names of the sections, the truth values. -/
inductive Chain where
  | base
  | socket
  | node
  | httpServer
  | cam
  | sms
  | keyval
  | strukt
  | bool

namespace Chain

/-- The keywords of the chain, in the order of the comparisons. -/
def words : Chain → List String
  | .base => ["addr","nodl_dir","cipher_alg","cipher_key","new_nodes"]
  | .socket => ["type","dev_path"]
  | .node => ["addr","name","seed","nodl_id","cipher"]
  | .httpServer => ["port","auth"]
  | .cam => ["id","fmt","dummy"]
  | .sms => ["https_addr","https_port","https_creds"]
  | .keyval => ["name","key","fmt","base","mtime","get","set","ack","rst","notif"]
  | .strukt => ["base","socket","node","http_server","cam","sms"]
  | .bool => ["yes","true","1","no","false","0"]

/-- The keyword whose branch is taken, if one is. -/
def branch (chain : Chain) (t : Token) : Option String := chain.words.find? (isWord t)

/-- The function of the chain does with `t` what it does with `t'`. -/
def Alike (t t' : Token) : Chain → Prop
  | .base => ∀ env v s, applyBasePair env (t,v) s = applyBasePair env (t',v) s
  | .socket => ∀ addr v sinfo, applySocketPair addr (t,v) sinfo = applySocketPair addr (t',v) sinfo
  | .node => ∀ v ninfo, applyNodePair (t,v) ninfo = applyNodePair (t',v) ninfo
  | .httpServer => ∀ v info, applyHttpdPair (t,v) info = applyHttpdPair (t',v) info
  | .cam => ∀ v info, applyCamPair (t,v) info = applyCamPair (t',v) info
  | .sms => ∀ v info, applySmsPair (t,v) info = applySmsPair (t',v) info
  | .keyval => ∀ v kv, applyNodlKeyvalPair (t,v) kv = applyNodlKeyvalPair (t',v) kv
  | .strukt => ∀ env pairs a s, applyStruct env ⟨t,pairs⟩ a s = applyStruct env ⟨t',pairs⟩ a s
  | .bool => banoStringToBool t = banoStringToBool t'

/-- The function of the chain takes no branch for `t`: a key is an error, a section is passed over. -/
def Rejects (t : Token) : Chain → Prop
  | .base => ∀ env v s, applyBasePair env (t,v) s = (-1,s)
  | .socket => ∀ addr v sinfo, applySocketPair addr (t,v) sinfo = (-1,sinfo)
  | .node => ∀ v ninfo, applyNodePair (t,v) ninfo = (-1,ninfo)
  | .httpServer => ∀ v info, applyHttpdPair (t,v) info = (-1,info)
  | .cam => ∀ v info, applyCamPair (t,v) info = (-1,info)
  | .sms => ∀ v info, applySmsPair (t,v) info = (-1,info)
  | .keyval => ∀ v kv, applyNodlKeyvalPair (t,v) kv = (-1,kv)
  | .strukt => ∀ env pairs a s, applyStruct env ⟨t,pairs⟩ a s = some (0,s)
  | .bool => banoStringToBool t = none

/-- What the function of the chain does with a token: what it does
with the keyword whose branch is taken, or nothing. -/
def Does (chain : Chain) (t : Token) : Prop :=
  match chain.branch t with
  | some word => chain.Alike t (literal word)
  | none => chain.Rejects t

/-- No configuration is loaded that has a section of this name with the key. -/
def RefusesSection (name : String) (key : Token) : Prop :=
  ∀ env junk info conf strukt a v s, info.flags &&& baseFlagConf ≠ 0 → (strukt,a) ∈ conf →
    strukt.name = literal name →
    (key,v) ∈ strukt.pairs → BanoBase.banoOpen env junk info (some conf) ≠ some (0,s)

/-- No description is loaded that has a keyval with the key. -/
def RefusesKeyval (key : Token) : Prop :=
  ∀ structs strukt m v d d', (strukt,m) ∈ structs → strukt.name = literal "keyval" → (key,v) ∈ strukt.pairs →
    applyNodlStructs structs d ≠ some (0,d')

/-- The load fails on the key, where the chain is one of keys. -/
def Refuses (key : Token) : Chain → Prop
  | .base => RefusesSection "base" key
  | .socket => RefusesSection "socket" key
  | .node => RefusesSection "node" key
  | .httpServer => RefusesSection "http_server" key
  | .cam => RefusesSection "cam" key
  | .sms => RefusesSection "sms" key
  | .keyval => RefusesKeyval key
  | .strukt => True
  | .bool => True

/-- A branch is taken for its own keyword only, and whatever is no keyword is rejected. -/
structure Exact (chain : Chain) (t : Token) : Prop where
  branch : ∀ word, chain.branch t = some word → t = literal word
  other : (∀ word ∈ chain.words, t ≠ literal word) → chain.Rejects t ∧ chain.Refuses t

end Chain

/-- No byte is negative as a plain char. -/
def Ascii (s : List UInt8) : Prop := ∀ c ∈ s, c < 128

theorem plainChar_eq (c d : UInt8) : (c.toNat : Int) = plainChar d ↔ c = d ∧ c < 128 := by
  have bound := c.toNat_lt
  have bound' := d.toNat_lt
  simp only [plainChar,BitVec.toInt_eq_toNat_cond,UInt8.toNat_toBitVec,UInt8.lt_iff_toNat_lt,← UInt8.toNat_inj]
  split <;> simp <;> omega

theorem banoStringCmpCstr_zero (a b : List UInt8) : banoStringCmpCstr a b = 0 ↔ a <+: b ∧ Ascii a := by
  induction a generalizing b with
  | nil => simp [banoStringCmpCstr,Ascii]
  | cons c a ih =>
    cases b with
    | nil => simp [banoStringCmpCstr]
    | cons d b =>
      rw [banoStringCmpCstr,List.cons_prefix_cons,Ascii,List.forall_mem_cons]
      have same := plainChar_eq c d
      split
      · next differ =>
        have apart : ¬(c = d ∧ c < 128) := fun both => differ (same.mpr both)
        refine iff_of_false (by decide) fun ⟨⟨equal,_⟩,small,_⟩ => apart ⟨equal,small⟩
      · next equal =>
        obtain ⟨rfl,small⟩ := same.mp (not_not.mp equal)
        rw [ih b,Ascii]
        simp [small]

theorem isWord_iff (t : Token) (word : String) : isWord t word = true ↔ t <+: literal word ∧ Ascii t := by
  rw [isWord,decide_eq_true_iff,banoStringCmpCstr_zero]

/-- The shape of a chain of comparisons: one branch a keyword, and what is left. -/
inductive Compares {β : Type} (rest : β) : List String → (Token → β) → Prop where
  | nil : Compares rest [] fun _ => rest
  | cons : Compares rest words f → Compares rest (word :: words) fun t => if isWord t word then body else f t

/-- Each keyword passes for itself, and no later one for an earlier one. -/
def Unmistaken (words : List String) : Prop :=
  words.Pairwise (fun word word' => isWord (literal word') word = false) ∧ ∀ word ∈ words,
    isWord (literal word) word = true

/-- The branch that is taken is the one of the keyword itself. -/
theorem Compares.find {f : Token → β} (compares : Compares rest words f) (unmistaken : Unmistaken words) (t : Token) :
    f t = match words.find? (isWord t) with
      | none => rest
      | some word => f (literal word) := by
  induction compares with
  | nil => rfl
  | @cons words f word body _ ih =>
    obtain ⟨⟨here,later⟩,itself,others⟩ := And.imp List.pairwise_cons.mp List.forall_mem_cons.mp unmistaken
    have left := ih ⟨later,others⟩
    by_cases own : isWord t word
    · simp [own,itself]
    · cases found : words.find? (isWord t) with
      | none => simpa [own,found] using left
      | some word' => simpa [own,found,here word' (List.mem_of_find?_eq_some found)] using left

theorem applyBasePair_compares (env : OpenEnv) (v : Text) (s : BanoBase) :
    Compares (-1,s) Chain.base.words fun t => applyBasePair env (t,v) s := by
  dsimp +instances only [applyBasePair,Chain.words]
  exact .cons (.cons (.cons (.cons (.cons .nil))))

theorem applySocketPair_compares (addr : U32) (v : Text) (sinfo : BanoSocketInfo) :
    Compares (-1,sinfo) Chain.socket.words fun t => applySocketPair addr (t,v) sinfo := by
  dsimp +instances only [applySocketPair,Chain.words]
  exact .cons (.cons .nil)

theorem applyNodePair_compares (v : Text) (ninfo : NodeInfo) :
    Compares (-1,ninfo) Chain.node.words fun t => applyNodePair (t,v) ninfo := by
  dsimp +instances only [applyNodePair,Chain.words]
  exact .cons (.cons (.cons (.cons (.cons .nil))))

theorem applyHttpdPair_compares (v : Text) (info : BanoHttpdInfo) :
    Compares (-1,info) Chain.httpServer.words fun t => applyHttpdPair (t,v) info := by
  dsimp +instances only [applyHttpdPair,Chain.words]
  exact .cons (.cons .nil)

theorem applyCamPair_compares (v : Text) (info : BanoCamInfo) :
    Compares (-1,info) Chain.cam.words fun t => applyCamPair (t,v) info := by
  dsimp +instances only [applyCamPair,Chain.words]
  exact .cons (.cons (.cons .nil))

theorem applySmsPair_compares (v : Text) (info : BanoSmsInfo) :
    Compares (-1,info) Chain.sms.words fun t => applySmsPair (t,v) info := by
  dsimp +instances only [applySmsPair,Chain.words]
  exact .cons (.cons (.cons .nil))

theorem applyNodlKeyvalPair_compares (v : Token) (kv : KeyvalInfo) :
    Compares (-1,kv) Chain.keyval.words fun t => applyNodlKeyvalPair (t,v) kv := by
  dsimp +instances only [applyNodlKeyvalPair,Chain.words]
  exact .cons (.cons (.cons (.cons (.cons (.cons (.cons (.cons (.cons (.cons .nil)))))))))

theorem applyStruct_compares (env : OpenEnv) (pairs : List (Token × Text)) (a : Answers) (s : BanoBase) :
    Compares (some (0,s)) Chain.strukt.words fun t => applyStruct env ⟨t,pairs⟩ a s := by
  dsimp +instances only [applyStruct,Chain.words]
  exact .cons (.cons (.cons (.cons (.cons (.cons .nil)))))

theorem banoStringToBool_compares : Compares none Chain.bool.words banoStringToBool := by
  show Compares none Chain.bool.words fun t => banoStringToBool t
  dsimp only [banoStringToBool,Chain.words]
  exact .cons (.cons (.cons (.cons (.cons (.cons .nil)))))

theorem Compares.alike {f : Token → β} (compares : Compares rest words f) (unmistaken : Unmistaken words)
    (found : words.find? (isWord t) = some word) : f t = f (literal word) := by
  rw [compares.find unmistaken t,found]

theorem Compares.rejects {f : Token → β} (compares : Compares rest words f) (unmistaken : Unmistaken words)
    (found : words.find? (isWord t) = none) : f t = rest := by
  rw [compares.find unmistaken t,found]

namespace Chain

theorem unmistaken (chain : Chain) : Unmistaken chain.words := by
  cases chain <;> exact (by unfold Unmistaken; decide)

theorem alike (chain : Chain) (taken : chain.branch t = some word) : chain.Alike t (literal word) := by
  cases chain with
  | base => exact fun env v s => (applyBasePair_compares env v s).alike (unmistaken _) taken
  | socket => exact fun addr v sinfo => (applySocketPair_compares addr v sinfo).alike (unmistaken _) taken
  | node => exact fun v ninfo => (applyNodePair_compares v ninfo).alike (unmistaken _) taken
  | httpServer => exact fun v info => (applyHttpdPair_compares v info).alike (unmistaken _) taken
  | cam => exact fun v info => (applyCamPair_compares v info).alike (unmistaken _) taken
  | sms => exact fun v info => (applySmsPair_compares v info).alike (unmistaken _) taken
  | keyval => exact fun v kv => (applyNodlKeyvalPair_compares v kv).alike (unmistaken _) taken
  | strukt => exact fun env pairs a s => (applyStruct_compares env pairs a s).alike (unmistaken _) taken
  | bool => exact banoStringToBool_compares.alike (unmistaken _) taken

theorem rejects (chain : Chain) (untaken : chain.branch t = none) : chain.Rejects t := by
  cases chain with
  | base => exact fun env v s => (applyBasePair_compares env v s).rejects (unmistaken _) untaken
  | socket => exact fun addr v sinfo => (applySocketPair_compares addr v sinfo).rejects (unmistaken _) untaken
  | node => exact fun v ninfo => (applyNodePair_compares v ninfo).rejects (unmistaken _) untaken
  | httpServer => exact fun v info => (applyHttpdPair_compares v info).rejects (unmistaken _) untaken
  | cam => exact fun v info => (applyCamPair_compares v info).rejects (unmistaken _) untaken
  | sms => exact fun v info => (applySmsPair_compares v info).rejects (unmistaken _) untaken
  | keyval => exact fun v kv => (applyNodlKeyvalPair_compares v kv).rejects (unmistaken _) untaken
  | strukt => exact fun env pairs a s => (applyStruct_compares env pairs a s).rejects (unmistaken _) untaken
  | bool => exact banoStringToBool_compares.rejects (unmistaken _) untaken

end Chain

/-- A pair that is an error in any state fails the section. -/
theorem foreachPair_fails (fn : π → σ → Int × σ) (bad : ∀ info, (fn pair info).1 ≠ 0)
    (member : pair ∈ pairs) (info : σ) :
    (banoParserForeachPair fn pairs info).1 ≠ 0 := by
  induction pairs generalizing info with
  | nil => exact nomatch member
  | cons pair' pairs ih =>
    rw [banoParserForeachPair]
    dsimp only
    split
    · next failed => exact failed
    · next fine =>
      rcases List.mem_cons.mp member with rfl | later
      · exact absurd fine (not_not.mpr (bad info))
      · exact ih later _

theorem onPairs_fails {pairs : Int × σ} (failed : pairs.1 ≠ 0) (s : BanoBase)
    (go : σ → Option (Int × BanoBase)) (s' : BanoBase) :
    onPairs pairs s go ≠ some (0,s') := by
  rw [onPairs,if_pos failed]
  exact fun same => failed (Prod.mk.inj (Option.some.inj same)).1

/-- A section that fails in any state fails the load. -/
theorem applyStructs_fails (bad : ∀ s s', applyStruct env strukt a s ≠ some (0,s')) (member : (strukt,a) ∈ conf)
    (s s' : BanoBase) :
    applyStructs env conf s ≠ some (0,s') := by
  induction conf generalizing s with
  | nil => exact nomatch member
  | cons x conf ih =>
    intro loaded
    rw [applyStructs] at loaded
    obtain ⟨⟨err,t⟩,applied,loaded⟩ := Option.bind_eq_some_iff.mp loaded
    dsimp only at loaded
    split at loaded
    · next failed => exact failed (Prod.mk.inj (Option.some.inj loaded)).1
    · next fine =>
      obtain rfl := not_not.mp fine
      rcases List.mem_cons.mp member with rfl | later
      · exact bad s t applied
      · exact ih later t loaded

theorem banoOpen_fails (bad : ∀ s s', applyStruct env strukt a s ≠ some (0,s'))
    (fromConf : info.flags &&& baseFlagConf ≠ 0)
    (member : (strukt,a) ∈ conf) (junk s : BanoBase) : BanoBase.banoOpen env junk info (some conf) ≠ some (0,s) := by
  intro opened
  rcases BanoBase.banoOpen_applied opened with ⟨_,applied⟩ | ⟨unread,_⟩
  · exact applyStructs_fails bad member _ s applied
  · exact fromConf unread

namespace Chain

theorem refusesSection (bad : ∀ env pairs a s s', (∃ v, (key,v) ∈ pairs) →
    applyStruct env ⟨literal name,pairs⟩ a s ≠ some (0,s')) :
    RefusesSection name key := by
  intro env junk info conf strukt a v s fromConf member named pair
  refine banoOpen_fails (fun s s' => ?_) fromConf member junk s
  obtain ⟨_,pairs⟩ := strukt
  obtain rfl := named
  exact bad env pairs a s s' ⟨v,pair⟩

theorem applyNodlStruct_fails {strukt : ConfStruct} (rejects : Chain.keyval.Rejects key)
    (named : strukt.name = literal "keyval") (pair : (key,v) ∈ strukt.pairs) (m : KeyvalMemory)
    (d d' : Dict KeyvalInfo) :
    applyNodlStruct strukt m d ≠ some (0,d') := by
  have failed := foreachPair_fails applyNodlKeyvalPair (fun kv => by simp [rejects v kv]) pair banoNodlKeyvalInit
  have passes : isWord (literal "keyval") "keyval" = true := by decide
  rw [applyNodlStruct,named,if_pos passes]
  dsimp only
  rw [if_pos failed]
  exact fun same => absurd (Prod.mk.inj (Option.some.inj same)).1 (by decide)

theorem refusesKeyval (rejects : Chain.keyval.Rejects key) : RefusesKeyval key := by
  intro structs strukt m v d d' member named pair
  induction structs generalizing d with
  | nil => exact nomatch member
  | cons x structs ih =>
    intro loaded
    rw [applyNodlStructs] at loaded
    obtain ⟨⟨err,t⟩,applied,loaded⟩ := Option.bind_eq_some_iff.mp loaded
    dsimp only at loaded
    split at loaded
    · next failed => exact failed (Prod.mk.inj (Option.some.inj loaded)).1
    · next fine =>
      obtain rfl := not_not.mp fine
      rcases List.mem_cons.mp member with rfl | later
      · exact applyNodlStruct_fails rejects named pair m d t applied
      · exact ih t later loaded

/-- The key is an error of the function that takes the pairs. -/
theorem refuses (chain : Chain) (rejects : chain.Rejects key) : chain.Refuses key := by
  cases chain with
  | base =>
    apply refusesSection
    rintro env pairs a s s' ⟨v,pair⟩ same
    have failed := foreachPair_fails (applyBasePair env) (fun t => by simp [rejects env v t]) pair s
    exact failed (congrArg Prod.fst (Option.some.inj same))
  | socket =>
    apply refusesSection
    rintro env pairs a s s' ⟨v,pair⟩
    exact onPairs_fails (foreachPair_fails (applySocketPair s.addr)
      (fun info => by simp [rejects s.addr v info]) pair _) s _ s'
  | node =>
    apply refusesSection
    rintro env pairs a s s' ⟨v,pair⟩ same
    have words : isWord (literal "node") "base" = false ∧ isWord (literal "node") "socket" = false ∧
      isWord (literal "node") "node" = true := by decide
    simp only [applyStruct,words,Bool.false_eq_true,if_false,if_true] at same
    split at same
    · exact absurd (Prod.mk.inj (Option.some.inj same)).1 (by decide)
    · obtain ⟨socket,_,same⟩ := Option.bind_eq_some_iff.mp same
      exact onPairs_fails (foreachPair_fails applyNodePair (fun info => by simp [rejects v info]) pair _) s _ s' same
  | httpServer =>
    apply refusesSection
    rintro env pairs a s s' ⟨v,pair⟩
    exact onPairs_fails (foreachPair_fails applyHttpdPair (fun info => by simp [rejects v info]) pair _) s _ s'
  | cam =>
    apply refusesSection
    rintro env pairs a s s' ⟨v,pair⟩
    show onPairs _ s (fun info => some (s.openCam a.cam info)) ≠ some (0,s')
    exact onPairs_fails (foreachPair_fails applyCamPair (fun info => by simp [rejects v info]) pair _) s _ s'
  | sms =>
    apply refusesSection
    rintro env pairs a s s' ⟨v,pair⟩
    exact onPairs_fails (foreachPair_fails applySmsPair (fun info => by simp [rejects v info]) pair _) s _ s'
  | keyval => exact refusesKeyval rejects
  | strukt => trivial
  | bool => trivial

theorem branch_starts {chain : Chain} (taken : chain.branch t = some word) :
    word ∈ chain.words ∧ t <+: literal word ∧ Ascii t :=
  ⟨List.mem_of_find?_eq_some taken,(isWord_iff _ _).mp (List.find?_some taken)⟩

/-- The keywords are ASCII. -/
theorem words_ascii (chain : Chain) : ∀ word ∈ chain.words, Ascii (literal word) := by
  have itself : ∀ word ∈ chain.words, isWord (literal word) word = true := chain.unmistaken.2
  exact fun word member => ((isWord_iff _ _).mp (itself word member)).2

theorem passes_iff {chain : Chain} (member : word ∈ chain.words) : isWord t word = true ↔ t <+: literal word := by
  rw [isWord_iff]
  exact and_iff_left_of_imp fun starts c inside => chain.words_ascii word member c (starts.subset inside)

/-- No keyword is the beginning of another one of its chain. -/
theorem words_apart (chain : Chain) : ∀ word ∈ chain.words, ∀ word' ∈ chain.words,
    literal word <+: literal word' → word = word' := by
  have apart : ∀ word ∈ chain.words, ∀ word' ∈ chain.words, isWord (literal word) word' = true → word = word' := by
    cases chain <;> decide
  exact fun word member word' member' starts => apart word member word' member' ((passes_iff member').mpr starts)

theorem exact_iff (chain : Chain) (t : Token) :
    chain.Exact t ↔ ∀ word ∈ chain.words, t <+: literal word → t = literal word := by
  constructor
  · intro exact word member starts
    have passes : (chain.branch t).isSome := by
      rw [branch,List.find?_isSome]
      exact ⟨word,member,(passes_iff member).mpr starts⟩
    obtain ⟨word',taken⟩ := Option.isSome_iff_exists.mp passes
    obtain rfl := exact.branch word' taken
    rw [chain.words_apart word' (branch_starts taken).1 word member starts]
  · intro whole
    refine ⟨fun word taken => ?_,fun other => ?_⟩
    · obtain ⟨member,starts,_⟩ := branch_starts taken
      exact whole word member starts
    · have untaken : chain.branch t = none := by
        rw [branch,List.find?_eq_none]
        exact fun word member passes => other word member (whole word member ((passes_iff member).mp passes))
      exact ⟨chain.rejects untaken,chain.refuses (chain.rejects untaken)⟩

theorem does (chain : Chain) (t : Token) : chain.Does t := by
  unfold Does
  split
  · next word taken => exact chain.alike taken
  · next untaken => exact chain.rejects untaken

end Chain

/-- A string of ASCII bytes is equal to the C string it passes for unless it is a proper prefix
of it; with another byte it passes for none, not even for its own. The chains that compare are
exact for a token that is a proper prefix of none of their keywords. -/
theorem keywords_iff (a b : Token) (chain : Chain) (t : Token) :
    ((banoStringCmpCstr a b = 0 ↔ a = b) ↔ ¬(a <+: b ∧ a ≠ b ∧ Ascii a) ∧ ¬(a = b ∧ ¬Ascii a)) ∧
    chain.Does t ∧ (chain.Exact t ↔ ¬∃ word ∈ chain.words, t <+: literal word ∧ t ≠ literal word) := by
  constructor
  · rw [banoStringCmpCstr_zero]
    constructor
    · refine fun exact => ⟨fun proper => proper.2.1 (exact.mp ⟨proper.1,proper.2.2⟩),fun negative => negative.2 ?_⟩
      exact (exact.mpr negative.1).2
    · rintro ⟨whole,plain⟩
      constructor
      · exact fun passes => not_not.mp fun differ => whole ⟨passes.1,differ,passes.2⟩
      · intro same
        exact ⟨same ▸ List.prefix_refl a,not_not.mp fun negative => plain ⟨same,negative⟩⟩
  · refine ⟨chain.does t,(chain.exact_iff t).trans ?_⟩
    simp only [not_exists,not_and,not_not]

/-- The key a sets the address. -/
theorem keywords_prefix : banoStringCmpCstr (literal "a") (literal "addr") = 0 ∧ literal "a" ≠ literal "addr" ∧
    ¬(∀ a b, banoStringCmpCstr a b = 0 ↔ a = b) ∧ ¬Chain.base.Exact (literal "a") := by
  have passes : banoStringCmpCstr (literal "a") (literal "addr") = 0 := by decide
  have differ : literal "a" ≠ literal "addr" := by decide
  refine ⟨passes,differ,fun exact => differ ((exact _ _).mp passes),fun exact => ?_⟩
  exact differ (exact.branch "addr" (by decide))

end Bano
