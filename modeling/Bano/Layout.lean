import Bano.Grammar

/-! Configuration files as they are written: tokens laid out with white bytes and comments between
them, and what parse_buf makes of them. -/
namespace Bano

open Lib

/-- A buffer with the given tokens, a white byte and a blank between consecutive ones. A line end
may follow the last, as print_struct_item writes it. -/
inductive Layout : List Token → List UInt8 → Prop where
  | nil : Layout [] []
  | last (token : Token) : Layout [token] token
  | line : isWhite c = true → Blank gap → Layout [token] (token ++ c :: gap)
  | more : isWhite c = true → Blank gap → Layout (next :: rest) s →
      Layout (token :: next :: rest) (token ++ c :: (gap ++ s))

/-- A token is read as it is written: it has bytes, none is white, and it does not start a comment. -/
structure Readable (token : Token) : Prop where
  some' : token ≠ []
  white : ∀ c ∈ token, isWhite c = false
  comment : ∀ c, token.head? = some c → isComment c = false

structure ConfStruct.WellFormed (strukt : ConfStruct) : Prop where
  name : Readable strukt.name
  noDot : strukt.name.head? ≠ some '.'.toUInt8
  key : ∀ pair ∈ strukt.pairs, Readable pair.1 ∧ pair.1 ≠ closeToken
  val : ∀ pair ∈ strukt.pairs, Readable pair.2

/-- The struct as print_struct_item writes it. -/
def ConfStruct.raw (strukt : ConfStruct) : RawStruct :=
  ⟨strukt.name,strukt.pairs.map fun pair => (pair.1,equalToken,pair.2)⟩

def ConfStruct.tokens (strukt : ConfStruct) : List Token := strukt.raw.tokens

theorem tokensFrom_comment {body : List UInt8} (line : ∀ c ∈ body, isNl c = false) (nl : isNl c = true)
    (s : List UInt8) : tokensFrom .comment (body ++ c :: s) = tokensFrom .blank s := by
  induction body with
  | nil => simp [tokensFrom,nl]
  | cons d body ih =>
    have here := line d (List.mem_cons_self ..)
    have later := ih fun e member => line e (List.mem_cons_of_mem _ member)
    simpa [tokensFrom,here] using later

theorem tokens_blank (blank : Blank gap) (s : List UInt8) : tokensFrom .blank (gap ++ s) = tokensFrom .blank s := by
  induction blank with
  | nil => rfl
  | white white _ ih => simpa [tokensFrom,white] using ih
  | comment mark line nl _ ih =>
    have later := tokensFrom_comment line nl
    simp [tokensFrom,comment_not_white mark,mark,later,ih]

theorem tokensFrom_run {run : Token} (white : ∀ c ∈ run, isWhite c = false) (read : Token) (s : List UInt8) :
    tokensFrom (.word read) (run ++ s) = tokensFrom (.word (read ++ run)) s := by
  induction run generalizing read with
  | nil => simp
  | cons c run ih =>
    have here := white c (List.mem_cons_self ..)
    have later := ih (fun d member => white d (List.mem_cons_of_mem _ member)) (read ++ [c])
    simpa [tokensFrom,here] using later

theorem Readable.read (readable : Readable token) (s : List UInt8) :
    tokensFrom .blank (token ++ s) = tokensFrom (.word token) s := by
  cases token with
  | nil => exact absurd rfl readable.some'
  | cons c run =>
    have white := readable.white c (List.mem_cons_self ..)
    have comment := readable.comment c rfl
    have later := tokensFrom_run (fun d member => readable.white d (List.mem_cons_of_mem _ member)) [c] s
    simpa [tokensFrom,white,comment] using later

theorem Readable.followed (readable : Readable token) (white : isWhite c = true) (s : List UInt8) :
    tokensFrom .blank (token ++ c :: s) = token :: tokensFrom .blank s := by
  rw [readable.read]
  simp [tokensFrom,white]

/-- The tokens read are the tokens laid out. -/
theorem tokens_layout (layout : Layout ts s) (readable : ∀ token ∈ ts, Readable token) : tokens s = ts := by
  induction layout with
  | nil => rfl
  | last token =>
    have read := (readable token (List.mem_cons_self ..)).read []
    rw [List.append_nil] at read
    exact read
  | line white blank =>
    have gap := tokens_blank blank []
    rw [List.append_nil] at gap
    rw [tokens,(readable _ (List.mem_cons_self ..)).followed white,gap]
    rfl
  | more white blank _ ih =>
    rw [tokens,(readable _ (List.mem_cons_self ..)).followed white,tokens_blank blank]
    exact congrArg _ (ih fun token member => readable token (List.mem_cons_of_mem _ member))

theorem readable_mark {c : UInt8} (white : isWhite c = false) (comment : isComment c = false) : Readable [c] where
  some' := by simp
  white := by simpa using white
  comment := by simpa using comment

theorem ConfStruct.WellFormed.readable {strukt : ConfStruct} (fine : strukt.WellFormed) :
    ∀ token ∈ strukt.tokens, Readable token := by
  intro token member
  simp only [ConfStruct.tokens,ConfStruct.raw,RawStruct.tokens,List.mem_cons,List.mem_append,List.mem_flatMap,
    List.mem_map,List.not_mem_nil,or_false] at member
  rcases member with rfl | rfl | ⟨_,⟨pair,inPairs,rfl⟩,part⟩ | rfl
  · exact fine.name
  · exact readable_mark rfl rfl
  · simp only [pairTokens,List.mem_cons,List.not_mem_nil,or_false] at part
    rcases part with rfl | rfl | rfl
    · exact (fine.key pair inPairs).1
    · exact readable_mark rfl rfl
    · exact fine.val pair inPairs
  · exact readable_mark rfl rfl

theorem ConfStruct.raw_content (strukt : ConfStruct) : strukt.raw.content = strukt := by
  simp [ConfStruct.raw,RawStruct.content,Function.comp_def]

theorem ConfStruct.WellFormed.keyed {strukt : ConfStruct} (fine : strukt.WellFormed) : strukt.raw.Keyed := by
  intro pair member
  obtain ⟨p,inPairs,rfl⟩ := List.mem_map.mp member
  exact (fine.key p inPairs).2

theorem wellFormed_structs {conf : List ConfStruct} (fine : ∀ strukt ∈ conf, strukt.WellFormed) :
    Structs (conf.map ConfStruct.raw) (conf.flatMap ConfStruct.tokens) := by
  refine ⟨?_,by rw [List.flatMap_map]; rfl⟩
  intro raw member
  obtain ⟨strukt,inConf,rfl⟩ := List.mem_map.mp member
  exact (fine strukt inConf).keyed

/-- A configuration that is written with any layout is read back: parse_buf adds its structs, in
order, with strings that point at their bytes in the buffer. -/
theorem parse_layout {conf : List ConfStruct} (fine : ∀ strukt ∈ conf, strukt.WellFormed)
    (layout : Layout (conf.flatMap ConfStruct.tokens) s) (fs : FileSystem) (parser : BanoParser) (buf : Ptr)
    (fuel : Nat) (enough : s.length < fuel) : ∃ more : List ParserStruct,
      parseBuf fs fuel parser buf s = .done (some s.length,{ parser with structs := parser.structs ++ more }) ∧
      (∀ strukt ∈ more, strukt.Inside buf s.length) ∧ more.map (ParserStruct.content s) = conf := by
  have readable : ∀ token ∈ conf.flatMap ConfStruct.tokens, Readable token := by
    intro token member
    obtain ⟨strukt,inConf,inStruct⟩ := List.mem_flatMap.mp member
    exact (fine strukt inConf).readable token inStruct
  have written := wellFormed_structs fine
  rw [← tokens_layout layout readable] at written
  have noDirective : NoDirective (tokens s) := by
    apply structs_noDirective written
    intro raw member
    obtain ⟨strukt,inConf,rfl⟩ := List.mem_map.mp member
    exact (fine strukt inConf).noDot
  rcases parseBufFrom_structs (Nat.zero_le s.length) enough noDirective with
    ⟨structs,more,written',parsed,inside,contents⟩ | ⟨noStructs,_⟩
  · refine ⟨more,parsed,inside,contents.trans ?_⟩
    obtain rfl := structs_unique written written'
    simp [Function.comp_def,ConfStruct.raw_content]
  · exact absurd ⟨_,written⟩ noStructs

/-- A node struct with one pair. -/
def nodeStruct : ConfStruct := ⟨"node".toList.map Char.toUInt8,[("addr".toList.map Char.toUInt8,['1'.toUInt8])]⟩

/-- The struct on one line, with a comment after its name. -/
def nodeBuffer : List UInt8 := "node #n\n { addr = 1 }".toList.map Char.toUInt8

set_option maxRecDepth 4000 in
theorem nodeStruct_wellFormed : nodeStruct.WellFormed where
  name := ⟨by decide,by decide,by rintro _ ⟨⟩; decide⟩
  noDot := by decide
  key := by
    intro pair member
    obtain rfl := List.mem_singleton.mp member
    exact ⟨⟨by decide,by decide,by rintro _ ⟨⟩; decide⟩,by decide⟩
  val := by
    intro pair member
    obtain rfl := List.mem_singleton.mp member
    exact ⟨by decide,by decide,by rintro _ ⟨⟩; decide⟩

set_option maxRecDepth 4000 in
theorem nodeBuffer_layout : Layout nodeStruct.tokens nodeBuffer := by
  have space : isWhite ' '.toUInt8 = true := by decide
  have line : ∀ c ∈ ['n'.toUInt8], isNl c = false := by decide
  have nl : isNl '\n'.toUInt8 = true := by decide
  have comment : Blank ('#'.toUInt8 :: (['n'.toUInt8] ++ '\n'.toUInt8 :: [' '.toUInt8])) :=
    .comment (by decide) line nl (.white space .nil)
  exact .more space comment (.more space .nil (.more space .nil (.more space .nil (.more space .nil (.last _)))))

theorem parse_layout_node : ∃ more : List ParserStruct,
    parseBuf (fun _ => none) 22 ⟨[],[],[],Heap.empty⟩ 0 nodeBuffer =
      .done (some nodeBuffer.length,{ (⟨[],[],[],Heap.empty⟩ : BanoParser) with structs := [] ++ more }) ∧
    (∀ strukt ∈ more, strukt.Inside 0 nodeBuffer.length) ∧
    more.map (ParserStruct.content nodeBuffer) = [nodeStruct] := by
  have fine : ∀ strukt ∈ [nodeStruct], strukt.WellFormed := by
    intro strukt member
    obtain rfl := List.mem_singleton.mp member
    exact nodeStruct_wellFormed
  exact parse_layout fine nodeBuffer_layout _ _ 0 22 (by decide)

end Bano
