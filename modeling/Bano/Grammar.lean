import Mathlib.Data.List.Flatten
import Bano.Tokens

/-! What parse_buf accepts. The token between a key and its value is not looked at, so the
buffers accepted are those of a larger grammar than the one of the configuration files. -/
namespace Bano

open Lib

/-- No key is taken for the closing accolade. -/
def RawStruct.Keyed (strukt : RawStruct) : Prop := ∀ pair ∈ strukt.pairs, pair.1 ≠ closeToken

/-- An equal stands between each key and its value. -/
def RawStruct.Separated (strukt : RawStruct) : Prop := ∀ pair ∈ strukt.pairs, pair.2.1 = equalToken

/-- (NAME "{" (KEY "=" VALUE)* "}")* -/
def Grammar (ts : List Token) : Prop :=
  ∃ structs : List RawStruct, (∀ strukt ∈ structs, strukt.Keyed ∧ strukt.Separated) ∧
    ts = structs.flatMap RawStruct.tokens

/-- (NAME "{" (KEY X VALUE)* "}")*, for any X -/
def Structs (structs : List RawStruct) (ts : List Token) : Prop :=
  (∀ strukt ∈ structs, strukt.Keyed) ∧ ts = structs.flatMap RawStruct.tokens

/-- Where `ts` has structs with any tokens between keys and values, these tokens are equals. -/
def EqualSigns (ts : List Token) : Prop :=
  ∀ structs, Structs structs ts → ∀ strukt ∈ structs, strukt.Separated

/-- The tokens left when parse_buf starts a struct, from those it is called on. -/
inductive AtStruct : List Token → List Token → Prop where
  | start : AtStruct ts ts
  | next : takeStruct ts = some (strukt,rest) → AtStruct rest left → AtStruct ts left

/-- No token at the position of a struct starts with a dot. -/
def NoDirective (ts : List Token) : Prop :=
  ∀ name rest, AtStruct ts (name :: rest) → name.head? ≠ some '.'.toUInt8

/-- Parsing a buffer succeeds exactly on the grammar, and returns (size_t)-1 elsewhere. -/
structure AcceptsGrammar (fs : FileSystem) (parser : BanoParser) (buf : Ptr) (s : List UInt8) : Prop where
  accepts : Grammar (tokens s) → ∀ fuel, s.length < fuel →
    ∃ parser', parseBuf fs fuel parser buf s = .done (some s.length,parser')
  rejects : ¬Grammar (tokens s) → ∀ fuel, s.length < fuel →
    ∃ parser', parseBuf fs fuel parser buf s = .done (none,parser')

theorem takePairs_tokens {pairs : List (Token × Token × Token)} (keyed : ∀ pair ∈ pairs, pair.1 ≠ closeToken)
    (rest : List Token) : takePairs (pairs.flatMap pairTokens ++ closeToken :: rest) = some (pairs,rest) := by
  induction pairs with
  | nil => exact takePairs_close rest
  | cons pair pairs ih =>
    have later := ih fun p member => keyed p (List.mem_cons_of_mem _ member)
    simp [List.flatMap_cons,pairTokens,keyed pair (List.mem_cons_self ..),later]

theorem takeStruct_tokens {strukt : RawStruct} (keyed : strukt.Keyed) (rest : List Token) :
    takeStruct (strukt.tokens ++ rest) = some (strukt,rest) := by
  simp [RawStruct.tokens,takeStruct,takePairs_tokens keyed rest]

theorem takePairs_some (took : takePairs ts = some (pairs,rest)) :
    ts = pairs.flatMap pairTokens ++ closeToken :: rest ∧ ∀ pair ∈ pairs, pair.1 ≠ closeToken := by
  induction pairs generalizing ts with
  | nil =>
    unfold takePairs at took
    split at took
    · cases took
    · split at took
      · next key rest' closing =>
        obtain ⟨_,rfl⟩ := Prod.mk.inj (Option.some.inj took)
        exact ⟨congrArg (· :: rest') closing,by simp⟩
      · split at took
        · obtain ⟨_,_,same⟩ := Option.map_eq_some_iff.mp took
          exact absurd (congrArg Prod.fst same) (List.cons_ne_nil _ _)
        · cases took
  | cons pair pairs ih =>
    unfold takePairs at took
    split at took
    · cases took
    · split at took
      · obtain ⟨same,_⟩ := Prod.mk.inj (Option.some.inj took)
        exact absurd same.symm (List.cons_ne_nil _ _)
      · next key rest' notClosing =>
        split at took
        · next equal val rest'' =>
          obtain ⟨⟨more,left⟩,later,same⟩ := Option.map_eq_some_iff.mp took
          obtain ⟨heads,rfl⟩ := Prod.mk.inj same
          obtain ⟨rfl,rfl⟩ := List.cons.inj heads
          obtain ⟨tail,keyed⟩ := ih later
          refine ⟨by simp [pairTokens,tail],fun p member => ?_⟩
          rcases List.mem_cons.mp member with rfl | member
          · exact notClosing
          · exact keyed p member
        · cases took

theorem takeStruct_some (took : takeStruct ts = some (strukt,rest)) :
    ts = strukt.tokens ++ rest ∧ strukt.Keyed := by
  unfold takeStruct at took
  split at took
  · next name brace left =>
    split at took
    · next opening =>
      obtain ⟨⟨pairs,rest'⟩,pairsTook,same⟩ := Option.map_eq_some_iff.mp took
      obtain ⟨rfl,rfl⟩ := Prod.mk.inj same
      obtain ⟨tail,keyed⟩ := takePairs_some pairsTook
      exact ⟨by simp [RawStruct.tokens,opening,tail],keyed⟩
    · exact nomatch took
  · exact nomatch took

theorem structs_nil : Structs [] [] := ⟨by simp,rfl⟩

theorem structs_cons (took : takeStruct ts = some (strukt,rest)) :
    Structs (strukt :: structs) ts ↔ Structs structs rest := by
  obtain ⟨rfl,keyed⟩ := takeStruct_some took
  simp [Structs,keyed]

/-- What the parser takes first is the first struct. -/
theorem structs_take (written : Structs structs ts) (some' : ts ≠ []) :
    ∃ strukt rest left, takeStruct ts = some (strukt,rest) ∧ structs = strukt :: left ∧ Structs left rest := by
  cases structs with
  | nil => exact absurd written.2 some'
  | cons strukt left =>
    have took : takeStruct ts = some (strukt,left.flatMap RawStruct.tokens) := by
      rw [written.2]
      exact takeStruct_tokens (written.1 strukt (List.mem_cons_self ..)) _
    exact ⟨strukt,_,left,took,rfl,(structs_cons took).mp written⟩

theorem structs_unique (one : Structs structs ts) (other : Structs structs' ts) : structs = structs' := by
  induction structs generalizing ts structs' with
  | nil =>
    cases structs' with
    | nil => rfl
    | cons => exact absurd (one.2.symm.trans other.2) (by simp [RawStruct.tokens])
  | cons strukt structs ih =>
    have some' : ts ≠ [] := by simp [one.2,RawStruct.tokens]
    obtain ⟨_,rest,left,took,same,written⟩ := structs_take one some'
    obtain ⟨rfl,rfl⟩ := List.cons.inj same
    obtain ⟨_,_,left',took',rfl,written'⟩ := structs_take other some'
    obtain ⟨rfl,rfl⟩ := Prod.mk.inj (Option.some.inj (took.symm.trans took'))
    rw [ih written written']

/-- The call at the position of a struct, when no directive stands there. -/
theorem parseDirectiveOrStruct_struct (fs : FileSystem)
    (nested : BanoParser → Ptr → List UInt8 → Outcome (Option Nat × BanoParser)) (parser : BanoParser) (buf : Ptr)
    (place : s = data.drop start) (inside : start ≤ data.length) (token : (nextToken s).2 ≠ 0)
    (noDot : (tokenAt s).head? ≠ some '.'.toUInt8) : ∃ r, ReadsStruct buf data s r ∧
      (∀ n strukt, r = some (n,strukt) → 0 < n ∧ n ≤ s.length) ∧
      parseDirectiveOrStruct fs nested parser buf start s = .done (match r with
        | none => (none,parser)
        | some (n,strukt) => (some n,{ parser with structs := parser.structs ++ [strukt] })) := by
  obtain ⟨size,range,ran⟩ := parseStruct_size s
  obtain ⟨r,read,same⟩ := ran buf start
  obtain ⟨c,live⟩ := token_live token
  have notDirective : isDirective c = false := by
    have head : (tokenAt s).head? = some c := by
      rw [tokenAt,List.head?_take,if_neg token,List.head?_drop,live]
    rw [head] at noDot
    simpa [isDirective] using noDot
  refine ⟨r,parseStruct_reads place inside read,?_,?_⟩
  · intro n strukt found
    subst found
    exact range n same.symm
  · cases r <;> simp [parseDirectiveOrStruct,token,live,notDirective,read]

/-- From a position on, parse_buf reads the structs of the tokens left, or fails where there is none. -/
theorem parseBufFrom_structs (inside : i ≤ s.length) (enough : s.length - i < fuel)
    (noDirective : NoDirective (tokens (s.drop i))) :
    (∃ structs more, Structs structs (tokens (s.drop i)) ∧
      parseBufFrom fs fuel parser buf s i = .done (some s.length,{ parser with structs := parser.structs ++ more }) ∧
      (∀ strukt ∈ more, strukt.Inside buf s.length) ∧
      more.map (ParserStruct.content s) = structs.map RawStruct.content) ∨
    ((¬∃ structs, Structs structs (tokens (s.drop i))) ∧
      ∃ parser', parseBufFrom fs fuel parser buf s i = .done (none,parser')) := by
  induction fuel generalizing i parser with
  | zero => omega
  | succ fuel ih =>
    by_cases atEnd : i = s.length
    · subst atEnd
      refine .inl ⟨[],[],?_,by simp [parseBufFrom],by simp,rfl⟩
      rw [List.drop_length]
      exact structs_nil
    by_cases blank : (nextToken (s.drop i)).2 = 0
    · have last : i + (nextToken (s.drop i)).1 = s.length := by
        rw [nextToken_end blank,List.length_drop]
        omega
      have called : parseDirectiveOrStruct fs (fun parser buf data => parseBufFrom fs fuel parser buf data 0)
          parser buf i (s.drop i) = .done (some (nextToken (s.drop i)).1,parser) := by
        simp [parseDirectiveOrStruct,blank]
      cases fuel with
      | zero => omega
      | succ fuel =>
        refine .inl ⟨[],[],?_,?_,by simp,rfl⟩
        · rw [tokens_none blank]
          exact structs_nil
        · rw [parseBufFrom,if_neg atEnd]
          simp only [called,Outcome.bind_done]
          rw [last]
          simp [parseBufFrom]
    have first := tokens_some blank
    have noDot : (tokenAt (s.drop i)).head? ≠ some '.'.toUInt8 := by
      rw [first] at noDirective
      exact noDirective _ _ .start
    obtain ⟨r,reads,range,called⟩ := parseDirectiveOrStruct_struct fs
      (fun parser buf data => parseBufFrom fs fuel parser buf data 0) parser buf rfl inside blank noDot
    cases r with
    | none =>
      have stuck : takeStruct (tokens (s.drop i)) = none := reads
      refine .inr ⟨?_,parser,by simp [parseBufFrom,atEnd,called]⟩
      intro written
      obtain ⟨structs,written⟩ := written
      obtain ⟨_,_,_,took,_⟩ := structs_take written (by simp [first])
      simp [stuck] at took
    | some found =>
      obtain ⟨n,strukt⟩ := found
      obtain ⟨taken,took,struktInside,content⟩ := reads
      obtain ⟨pos,le⟩ := range n strukt rfl
      rw [List.length_drop] at le
      rw [List.drop_drop] at took
      have later := @ih (i + n) { parser with structs := parser.structs ++ [strukt] } (by omega) (by omega)
        fun name rest left => noDirective name rest (.next took left)
      rcases later with ⟨structs,more,written,ran,moreInside,contents⟩ | ⟨noStructs,parser',ran⟩
      · refine .inl ⟨taken :: structs,strukt :: more,(structs_cons took).mpr written,?_,?_,by simp [content,contents]⟩
        · simp [parseBufFrom,atEnd,called,ran]
        · intro other member
          rcases List.mem_cons.mp member with rfl | member
          · exact struktInside
          · exact moreInside other member
      · refine .inr ⟨?_,parser',by simp [parseBufFrom,atEnd,called,ran]⟩
        intro written
        obtain ⟨structs,written⟩ := written
        obtain ⟨_,_,left,took',rfl,writtenLeft⟩ := structs_take written (by simp [first])
        obtain ⟨rfl,rfl⟩ := Prod.mk.inj (Option.some.inj (took.symm.trans took'))
        exact noStructs ⟨left,writtenLeft⟩

theorem structs_noDirective (written : Structs structs ts)
    (names : ∀ strukt ∈ structs, strukt.name.head? ≠ some '.'.toUInt8) : NoDirective ts := by
  intro name rest position
  generalize left : name :: rest = us at position
  induction position generalizing structs with
  | @start ts =>
    obtain ⟨strukt,rest',_,took,rfl,_⟩ := structs_take written (by simp [← left])
    have same := (takeStruct_some took).1
    rw [← left] at same
    exact (List.cons.inj same).1 ▸ names strukt (List.mem_cons_self ..)
  | @next ts _ _ _ took _ ih =>
    have some' : ts ≠ [] := by
      intro empty
      simp [empty,takeStruct] at took
    obtain ⟨_,_,structs',took',rfl,written'⟩ := structs_take written some'
    obtain ⟨rfl,rfl⟩ := Prod.mk.inj (Option.some.inj (took.symm.trans took'))
    exact ih written' (fun strukt member => names strukt (List.mem_cons_of_mem _ member)) left

theorem AcceptsGrammar.equalSigns (accepts : AcceptsGrammar fs parser buf s) (noDirective : NoDirective (tokens s)) :
    EqualSigns (tokens s) := by
  intro structs written strukt member
  rcases parseBufFrom_structs (Nat.zero_le s.length) (Nat.lt_succ_self _) noDirective with
    ⟨_,_,_,succeeds,_⟩ | ⟨noStructs,_⟩
  · by_cases grammar : Grammar (tokens s)
    · obtain ⟨structs',fine,same⟩ := grammar
      obtain rfl := structs_unique written ⟨fun strukt member => (fine strukt member).1,same⟩
      exact (fine strukt member).2
    · obtain ⟨_,fails⟩ := accepts.rejects grammar _ (Nat.lt_succ_self _)
      exact absurd (succeeds.symm.trans fails) (by simp)
  · exact absurd ⟨structs,written⟩ noStructs

/-- Parsing is acceptance of the grammar exactly on the buffers where each pair has its equal. -/
theorem acceptsGrammar_iff (fs : FileSystem) (parser : BanoParser) (buf : Ptr) (s : List UInt8)
    (noDirective : NoDirective (tokens s)) : AcceptsGrammar fs parser buf s ↔ EqualSigns (tokens s) := by
  constructor
  · intro accepts
    exact accepts.equalSigns noDirective
  · intro equalSigns
    constructor
    · intro grammar fuel enough
      obtain ⟨structs,fine,same⟩ := grammar
      rcases parseBufFrom_structs (Nat.zero_le s.length) enough noDirective with
        ⟨_,_,_,succeeds,_⟩ | ⟨noStructs,_⟩
      · exact ⟨_,succeeds⟩
      · exact absurd ⟨structs,fun strukt member => (fine strukt member).1,same⟩ noStructs
    · intro noGrammar fuel enough
      rcases parseBufFrom_structs (Nat.zero_le s.length) enough noDirective with
        ⟨structs,_,written,_⟩ | ⟨_,fails⟩
      · refine absurd ⟨structs,fun strukt member => ?_,written.2⟩ noGrammar
        exact ⟨written.1 strukt member,equalSigns structs written strukt member⟩
      · exact fails

/-- The buffer `a { k x v }`. -/
def unequalBuffer : List UInt8 := "a { k x v }".toList.map Char.toUInt8

def unequalStruct : RawStruct := ⟨['a'.toUInt8],[(['k'.toUInt8],['x'.toUInt8],['v'.toUInt8])]⟩

theorem unequal_structs : Structs [unequalStruct] (tokens unequalBuffer) := by
  refine ⟨?_,by decide⟩
  intro strukt member pair pairMember
  obtain rfl := List.mem_singleton.mp member
  obtain rfl := List.mem_singleton.mp pairMember
  decide

theorem unequal_noDirective : NoDirective (tokens unequalBuffer) := by
  apply structs_noDirective unequal_structs
  intro strukt member
  obtain rfl := List.mem_singleton.mp member
  decide

theorem acceptsGrammar_iff_unequal : AcceptsGrammar (fun _ => none) ⟨[],[],[],Heap.empty⟩ 0 unequalBuffer ↔
    EqualSigns (tokens unequalBuffer) := acceptsGrammar_iff _ _ _ _ unequal_noDirective

theorem unequal_accepted : ¬∀ fs parser buf s, NoDirective (tokens s) → AcceptsGrammar fs parser buf s := by
  intro always
  have accepts := always (fun _ => none) ⟨[],[],[],Heap.empty⟩ 0 unequalBuffer unequal_noDirective
  have separated := accepts.equalSigns unequal_noDirective _ unequal_structs _ (List.mem_singleton_self _)
  exact absurd (separated _ (List.mem_singleton_self _)) (by decide)

end Bano
