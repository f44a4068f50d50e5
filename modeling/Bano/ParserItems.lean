import Mathlib.Data.List.Basic
import Bano.Parser

/-! What parse_directive_or_struct meets at a position, and the part of the parser that decides
whether a load returns: `scan` keeps no strings and no buffers, and the parser follows it. -/
namespace Bano

open Lib

theorem skipWhites_le (s : List UInt8) : skipWhites s ≤ s.length := by
  induction s with
  | nil => exact Nat.le_refl _
  | cons c s ih =>
    simp only [skipWhites,List.length_cons]
    split <;> omega

theorem skipWhites_stops {s : List UInt8} (rest : s.drop (skipWhites s) = c :: t) : isWhite c = false := by
  induction s with
  | nil => simp at rest
  | cons d s ih =>
    cases white : isWhite d with
    | true =>
      simp only [skipWhites,white,if_true,List.drop_succ_cons] at rest
      exact ih rest
    | false =>
      simp only [skipWhites,white,Bool.false_eq_true,if_false,List.drop_zero] at rest
      exact (List.cons.inj rest).1 ▸ white

theorem skipComment_le (s : List UInt8) : skipComment s ≤ s.length := by
  induction s with
  | nil => exact Nat.le_refl _
  | cons c s ih =>
    simp only [skipComment,List.length_cons]
    split <;> omega

theorem skipComment_pos (c : UInt8) (s : List UInt8) : 0 < skipComment (c :: s) := by
  simp only [skipComment]
  split <;> omega

/-- White bytes and comments that end with their line. -/
inductive Blank : List UInt8 → Prop where
  | nil : Blank []
  | white : isWhite c = true → Blank gap → Blank (c :: gap)
  | comment : isComment mark = true → (∀ c ∈ body, isNl c = false) → isNl nl = true → Blank gap →
      Blank (mark :: (body ++ nl :: gap))

theorem Blank.append (blank : Blank gap) (rest : Blank gap') : Blank (gap ++ gap') := by
  induction blank with
  | nil => exact rest
  | white white _ ih => exact .white white ih
  | comment mark line nl _ ih =>
    rw [List.cons_append,List.append_assoc,List.cons_append]
    exact .comment mark line nl ih

theorem skipWhites_blank (s : List UInt8) : Blank (s.take (skipWhites s)) := by
  induction s with
  | nil => exact .nil
  | cons c s ih =>
    cases white : isWhite c with
    | true =>
      rw [skipWhites,if_pos white,List.take_succ_cons]
      exact .white white ih
    | false => simpa [skipWhites,white] using Blank.nil

/-- A comment ends with its line, or with the input. -/
theorem skipComment_cases (s : List UInt8) : (∀ c ∈ s, isNl c = false) ∧ skipComment s = s.length ∨
    ∃ body nl rest, s = body ++ nl :: rest ∧ (∀ c ∈ body, isNl c = false) ∧ isNl nl = true ∧
      skipComment s = body.length + 1 := by
  induction s with
  | nil => exact .inl ⟨nofun,rfl⟩
  | cons c s ih =>
    cases nl : isNl c with
    | true => exact .inr ⟨[],c,s,rfl,nofun,nl,by simp [skipComment,nl]⟩
    | false =>
      rcases ih with ⟨line,size⟩ | ⟨body,d,rest,rfl,line,nl',size⟩
      · exact .inl ⟨List.forall_mem_cons.mpr ⟨nl,line⟩,by simp [skipComment,nl,size]⟩
      · exact .inr ⟨c :: body,d,rest,rfl,List.forall_mem_cons.mpr ⟨nl,line⟩,nl',by simp [skipComment,nl,size]⟩

/-- A blank, and then a comment that goes on to the end of the input. -/
def EndsInComment (s : List UInt8) : Prop :=
  ∃ gap mark body, s = gap ++ mark :: body ∧ Blank gap ∧ isComment mark = true ∧ ∀ c ∈ body, isNl c = false

theorem EndsInComment.append (blank : Blank gap) (ends : EndsInComment s) : EndsInComment (gap ++ s) := by
  obtain ⟨gap',mark,body,rfl,blank',comment,line⟩ := ends
  exact ⟨gap ++ gap',mark,body,(List.append_assoc ..).symm,blank.append blank',comment,line⟩

theorem comment_not_white (comment : isComment c = true) : isWhite c = false := by
  have hash : c = '#'.toUInt8 := by simpa [isComment] using comment
  subst hash
  decide

theorem comment_not_nl (comment : isComment c = true) : isNl c = false := by
  have white := comment_not_white comment
  simp only [isWhite,Bool.or_eq_false_iff] at white
  exact white.1

/-- A comment ends with its line, which is then blank, or goes on to the end of the input. -/
theorem skipComment_blank {s : List UInt8} (comment : isComment mark = true) :
    EndsInComment (mark :: s) ∧ skipComment (mark :: s) = (mark :: s).length ∨ ∃ line rest,
      mark :: s = line ++ rest ∧ skipComment (mark :: s) = line.length ∧ Blank line := by
  rcases skipComment_cases (mark :: s) with ⟨line,all⟩ | ⟨body,nl,rest,written,line,isLine,size⟩
  · exact .inl ⟨⟨[],mark,s,rfl,.nil,comment,fun c member => line c (List.mem_cons_of_mem _ member)⟩,all⟩
  · cases body with
    | nil =>
      obtain ⟨rfl,rfl⟩ := List.cons.inj written
      exact absurd isLine (by simp [comment_not_nl comment])
    | cons c body =>
      obtain ⟨rfl,rfl⟩ := List.cons.inj written
      refine .inr ⟨mark :: (body ++ [nl]),rest,by simp,size.trans (by simp),?_⟩
      exact .comment comment (fun d member => line d (List.mem_cons_of_mem _ member)) isLine .nil

/-- What the turns skip is blank, but for a comment that goes on to the end. -/
theorem skipTurns_blank (fuel : Nat) (s : List UInt8) :
    Blank (s.take (skipTurns fuel s)) ∨ skipTurns fuel s = s.length ∧ EndsInComment s := by
  induction fuel generalizing s with
  | zero => exact .inl .nil
  | succ fuel ih =>
    have blank := skipWhites_blank s
    simp only [skipTurns]
    split
    · exact .inl blank
    · next mark rest stopped =>
      cases comment : isComment mark with
      | false => exact .inl blank
      | true =>
        have parts := List.take_append_drop (skipWhites s) s
        have size := List.length_take_of_le (skipWhites_le s)
        rw [stopped] at parts
        rw [if_pos rfl,← size]
        generalize s.take (skipWhites s) = gap at blank parts
        subst parts
        rcases skipComment_blank (s := rest) comment with ⟨ends,all⟩ | ⟨line,after,written,turns,blank'⟩
        · have none : skipTurns fuel [] = 0 := by cases fuel <;> rfl
          refine .inr ⟨?_,ends.append blank⟩
          rw [all,List.drop_length,none,List.length_append,Nat.add_zero]
        · rw [turns,written,List.drop_left]
          rcases ih after with later | ⟨size',ends⟩
          · left
            rw [Nat.add_assoc,List.take_length_add_append,List.take_length_add_append]
            exact blank.append (blank'.append later)
          · refine .inr ⟨?_,(ends.append blank').append blank⟩
            rw [size',List.length_append,List.length_append,Nat.add_assoc]

/-- Enough turns reach a byte that is neither white nor the start of a comment, or the end. -/
theorem skipTurns_spec (enough : s.length < fuel) : skipTurns fuel s ≤ s.length ∧
    ∀ c t, s.drop (skipTurns fuel s) = c :: t → isWhite c = false ∧ isComment c = false := by
  induction fuel generalizing s with
  | zero => omega
  | succ fuel ih =>
    have white := skipWhites_le s
    have lengths := List.length_drop (i := skipWhites s) (l := s)
    simp only [skipTurns]
    split
    · next atEnd => exact ⟨white,fun c t rest => by simp [atEnd] at rest⟩
    · next c rest stopped =>
      have notWhite := skipWhites_stops stopped
      rw [stopped,List.length_cons] at lengths
      cases comment : isComment c with
      | false =>
        simp only [Bool.false_eq_true,if_false]
        refine ⟨white,fun d t at' => ?_⟩
        obtain ⟨rfl,_⟩ := List.cons.inj (at'.symm.trans stopped)
        exact ⟨notWhite,comment⟩
      | true =>
        simp only [if_true]
        have pos := skipComment_pos c rest
        have bound := skipComment_le (c :: rest)
        have dropped := List.length_drop (i := skipComment (c :: rest)) (l := c :: rest)
        simp only [List.length_cons] at bound dropped
        obtain ⟨le,stops⟩ := ih (s := (c :: rest).drop (skipComment (c :: rest))) (by omega)
        refine ⟨by omega,fun d t at' => stops d t ?_⟩
        rw [← at',← stopped,List.drop_drop,List.drop_drop]
        rw [Nat.add_assoc]

theorem skipCommentsAndWhites_spec (s : List UInt8) : skipCommentsAndWhites s ≤ s.length ∧
    ∀ c t, s.drop (skipCommentsAndWhites s) = c :: t → isWhite c = false ∧ isComment c = false :=
  skipTurns_spec (Nat.lt_add_one _)

theorem tokenSize_le (s : List UInt8) : tokenSize s ≤ s.length := by
  induction s with
  | nil => exact Nat.le_refl _
  | cons c s ih =>
    simp only [tokenSize,List.length_cons]
    split <;> omega

theorem nextToken_le (s : List UInt8) : (nextToken s).1 + (nextToken s).2 ≤ s.length := by
  have skipped := (skipCommentsAndWhites_spec s).1
  have size := tokenSize_le (s.drop (skipCommentsAndWhites s))
  rw [List.length_drop] at size
  simp only [nextToken]
  omega

/-- Only at the end of the buffer is there no token. -/
theorem nextToken_end {s : List UInt8} (empty : (nextToken s).2 = 0) : (nextToken s).1 = s.length := by
  obtain ⟨le,stops⟩ := skipCommentsAndWhites_spec s
  by_contra before
  have lt : skipCommentsAndWhites s < s.length := Nat.lt_of_le_of_ne le before
  cases rest : s.drop (skipCommentsAndWhites s) with
  | nil => rw [List.drop_eq_nil_iff] at rest; omega
  | cons c t =>
    have white := (stops c t rest).1
    simp only [isWhite,Bool.or_eq_false_iff] at white
    simp [nextToken,rest,tokenSize,white] at empty

theorem byte_live {s : List UInt8} (bound : i < s.length) : ∃ c, s[i]? = some c :=
  ⟨_,List.getElem?_eq_getElem bound⟩

theorem token_live {s : List UInt8} (token : (nextToken s).2 ≠ 0) : ∃ c, s[(nextToken s).1]? = some c := by
  have bound := nextToken_le s
  exact byte_live (by omega)

theorem token_drop {s : List UInt8} (inside : i ≤ s.length) :
    i + (nextToken (s.drop i)).1 + (nextToken (s.drop i)).2 ≤ s.length := by
  have bound := nextToken_le (s.drop i)
  rw [List.length_drop] at bound
  omega

/-- The size of a pair does not depend on where the buffer lies. -/
theorem parsePair_size (s : List UInt8) : ∃ size : Option Nat,
    (∀ j, size = some j → 0 < j ∧ j ≤ s.length) ∧
    ∀ buf start, (parsePair buf start s).map Prod.fst = size := by
  have key := nextToken_le s
  have equal := token_drop key
  have val := token_drop equal
  refine ⟨(parsePair 0 0 s).map Prod.fst,?_,?_⟩
  · intro j size
    simp only [parsePair] at size
    split_ifs at size <;> simp only [Option.map_some,Option.map_none,Option.some.injEq,reduceCtorEq] at size
    omega
  · intro buf start
    simp only [parsePair]
    split_ifs <;> rfl

theorem parsePairs_close {s : List UInt8} (token : (nextToken (s.drop i)).2 ≠ 0)
    (live : s[i + (nextToken (s.drop i)).1]? = some c)
    (closing : (nextToken (s.drop i)).2 = 1 ∧ c = '}'.toUInt8) (buf : Ptr) (start fuel : Nat) (pairs :
    List ParserPair) :
    parsePairs buf start s (fuel + 1) i pairs = .done (some ((nextToken (s.drop i)).1 + i + 1,pairs)) := by
  simp only [parsePairs,if_neg token,live,Outcome.ofOption_some,Outcome.bind_done,if_pos closing]

/-- A token other than the closing accolade starts a pair. -/
theorem parsePairs_turn {s : List UInt8} (token : (nextToken (s.drop i)).2 ≠ 0)
    (live : s[i + (nextToken (s.drop i)).1]? = some c)
    (opens : ¬((nextToken (s.drop i)).2 = 1 ∧ c = '}'.toUInt8)) (buf : Ptr) (start fuel : Nat) (pairs :
    List ParserPair) :
    parsePairs buf start s (fuel + 1) i pairs =
      match parsePair buf (start + i) (s.drop i) with
      | none => .done none
      | some (j,pair) => parsePairs buf start s fuel (i + j) (pairs ++ [pair]) := by
  cases pair : parsePair buf (start + i) (s.drop i) <;>
    simp only [parsePairs,if_neg token,live,Outcome.ofOption_some,Outcome.bind_done,if_neg opens,pair]

theorem parsePairs_size {s : List UInt8} (fuel : Nat) (inside : i ≤ s.length) (enough : s.length - i < fuel) :
    ∃ size : Option Nat, (∀ n, size = some n → i < n ∧ n ≤ s.length) ∧
    ∀ buf start pairs, ∃ r, parsePairs buf start s fuel i pairs = .done r ∧ r.map Prod.fst = size := by
  induction fuel generalizing i with
  | zero => omega
  | succ fuel ih =>
    by_cases atEnd : (nextToken (s.drop i)).2 = 0
    · exact ⟨none,by simp,fun buf start pairs => ⟨none,by simp [parsePairs,atEnd],rfl⟩⟩
    have bound := token_drop inside
    obtain ⟨c,live⟩ := byte_live (s := s) (i := i + (nextToken (s.drop i)).1) (by omega)
    by_cases closing : (nextToken (s.drop i)).2 = 1 ∧ c = '}'.toUInt8
    · refine ⟨some ((nextToken (s.drop i)).1 + i + 1),?_,fun buf start pairs => ⟨some (_,pairs),?_,rfl⟩⟩
      · rintro n ⟨⟩
        omega
      · exact parsePairs_close atEnd live closing buf start fuel pairs
    obtain ⟨size,range,same⟩ := parsePair_size (s.drop i)
    cases size with
    | none =>
      refine ⟨none,by simp,fun buf start pairs => ⟨none,?_,rfl⟩⟩
      have missing := same buf (start + i)
      rw [Option.map_eq_none_iff] at missing
      rw [parsePairs_turn atEnd live closing,missing]
    | some j =>
      obtain ⟨pos,le⟩ := range j rfl
      rw [List.length_drop] at le
      obtain ⟨size,later,ran⟩ := ih (i := i + j) (by omega) (by omega)
      refine ⟨size,fun n found => ⟨?_,(later n found).2⟩,fun buf start pairs => ?_⟩
      · have := (later n found).1
        omega
      · have found := same buf (start + i)
        rw [Option.map_eq_some_iff] at found
        obtain ⟨⟨_,pair⟩,read,rfl⟩ := found
        rw [parsePairs_turn atEnd live closing,read]
        exact ran buf start _

theorem parseStruct_size (s : List UInt8) : ∃ size : Option Nat,
    (∀ n, size = some n → 0 < n ∧ n ≤ s.length) ∧
    ∀ buf start, ∃ r, parseStruct buf start s = .done r ∧ r.map Prod.fst = size := by
  by_cases noName : (nextToken s).2 = 0
  · exact ⟨none,by simp,fun buf start => ⟨none,by simp [parseStruct,noName],rfl⟩⟩
  have name := nextToken_le s
  have opening := token_drop name
  by_cases one : (nextToken (s.drop ((nextToken s).1 + (nextToken s).2))).2 = 1
  · obtain ⟨c,live⟩ := byte_live (s := s) (i := (nextToken s).1 + (nextToken s).2 +
      (nextToken (s.drop ((nextToken s).1 + (nextToken s).2))).1) (by omega)
    by_cases brace : c = '{'.toUInt8
    · obtain ⟨size,range,ran⟩ := parsePairs_size (s := s) (i := (nextToken s).1 + (nextToken s).2 +
        (nextToken (s.drop ((nextToken s).1 + (nextToken s).2))).1 + 1) (s.length + 1) (by omega) (by omega)
      refine ⟨size,fun n found => ⟨?_,(range n found).2⟩,fun buf start => ?_⟩
      · have := (range n found).1
        omega
      · obtain ⟨r,read,same⟩ := ran buf start []
        refine ⟨r.map fun q => (q.1,⟨⟨buf,start + (nextToken s).1,(nextToken s).2⟩,q.2⟩),
          by simp [parseStruct,noName,one,live,brace,read],?_⟩
        rw [Option.map_map,← same]
        rfl
    · exact ⟨none,by simp,fun buf start => ⟨none,by simp [parseStruct,noName,one,live,brace],rfl⟩⟩
  · exact ⟨none,by simp,fun buf start => ⟨none,by simp [parseStruct,noName,one],rfl⟩⟩

/-- What stands at a position: blanks or a struct, an include of a path, another directive,
or an error; with the size consumed. -/
inductive Item where
  | skip (size : Nat)
  | incl (path : List UInt8) (size : Nat)
  | other
  | bad
  deriving DecidableEq

def itemOf (dir s : List UInt8) : Item :=
  let tok := nextToken s
  if tok.2 = 0 then .skip tok.1
  else if (s[tok.1]?.map isDirective).getD false then
    if isIncludeDirective ((s.drop tok.1).take tok.2) then
      let i := tok.1 + tok.2
      let tok := nextToken (s.drop i)
      if tok.2 = 0 ∨ dir.length + tok.2 ≥ parserPathlen then .bad
      else .incl (cstr (dir ++ (s.drop (i + tok.1)).take tok.2)) (i + tok.1 + tok.2)
    else .other
  else
    match parseStruct 0 0 s with
    | .done (some (n,_)) => .skip n
    | _ => .bad

/-- The bytes of a file that can be mapped. -/
def opens (fs : FileSystem) (path : List UInt8) : Option (List UInt8) :=
  match fs path with
  | some (c :: data) => some (c :: data)
  | _ => none

/-- The loop of parse_buf, telling only whether it succeeds. -/
def scan (fs : FileSystem) (dir : List UInt8) : Nat → List UInt8 → Nat → Outcome Bool
  | 0, _, _ => .running
  | fuel + 1, s, i =>
    if i = s.length then .done true
    else
      match itemOf dir (s.drop i) with
      | .skip n => scan fs dir fuel s (i + n)
      | .other => scan fs dir fuel s i
      | .bad => .done false
      | .incl path n =>
        match opens fs path with
        | none => .done false
        | some data =>
          match scan fs dir fuel data 0 with
          | .done true => scan fs dir fuel s (i + n)
          | r => r

theorem itemOf_skip (item : itemOf dir s = .skip n) (inside : s ≠ []) : 0 < n ∧ n ≤ s.length := by
  have length := List.length_pos_iff.mpr inside
  obtain ⟨size,range,ran⟩ := parseStruct_size s
  obtain ⟨r,read,same⟩ := ran 0 0
  simp only [itemOf,read] at item
  split_ifs at item with empty
  · obtain rfl := Item.skip.inj item
    rw [nextToken_end empty]
    exact ⟨length,Nat.le_refl _⟩
  · split at item
    · next n' _ found =>
      obtain rfl := Item.skip.inj item
      obtain rfl := Outcome.done.inj found
      exact range _ same.symm
    · exact Item.noConfusion item

theorem itemOf_incl (item : itemOf dir s = .incl path n) :
    0 < n ∧ n ≤ s.length ∧ path.length < parserPathlen := by
  have first := nextToken_le s
  have second := token_drop first
  simp only [itemOf] at item
  split_ifs at item with empty directive known tooLong
  · obtain ⟨rfl,rfl⟩ := Item.incl.inj item
    refine ⟨by omega,second,?_⟩
    have cut : ∀ t : List UInt8, (cstr t).length ≤ t.length := fun t =>
      (List.takeWhile_sublist _).length_le
    apply Nat.lt_of_le_of_lt (cut _)
    rw [List.length_append,List.length_take]
    omega
  · split at item <;> exact Item.noConfusion item

/-- A call leaves the directory and the buffers that were mapped before. -/
structure Keeps (parser parser' : BanoParser) : Prop where
  topDir : parser'.topDir = parser.topDir
  next : parser.mapped.next ≤ parser'.mapped.next
  cell : ∀ p, p < parser.mapped.next → parser'.mapped.cell p = parser.mapped.cell p

theorem Keeps.rfl : Keeps parser parser := ⟨.refl _,Nat.le_refl _,fun _ _ => .refl _⟩

theorem Keeps.trans (one : Keeps a b) (other : Keeps b c) : Keeps a c :=
  ⟨other.topDir.trans one.topDir,Nat.le_trans one.next other.next,fun p below =>
    (other.cell p (Nat.lt_of_lt_of_le below one.next)).trans (one.cell p below)⟩

/-- The parser returns what `scan` tells, `n` being the size of a success. -/
def Agrees (parser : BanoParser) (n : Nat) : Outcome Bool → Outcome (Option Nat × BanoParser) → Prop
  | .running, r => r = .running
  | .fault, _ => False
  | .done ok, r => ∃ parser', r = .done (if ok then some n else none,parser') ∧ Keeps parser parser'

theorem Agrees.mono (agrees : Agrees parser n o r) (kept : Keeps start parser) : Agrees start n o r := by
  cases o with
  | running => exact agrees
  | fault => exact agrees
  | done ok =>
    obtain ⟨parser',same,keeps⟩ := agrees
    exact ⟨parser',same,kept.trans keeps⟩

/-- The parser with a file mapped. -/
def mapFile (parser : BanoParser) (data : List UInt8) : BanoParser :=
  { parser with mapped := parser.mapped.alloc data }

theorem allocMmapBuf_opens (fs : FileSystem) (parser : BanoParser) (path : List UInt8) :
    allocMmapBuf fs parser path =
      (opens fs path).map fun data => (parser.mapped.next,data,mapFile parser data) := by
  cases file : fs path with
  | none => simp [allocMmapBuf,opens,file]
  | some data => cases data <;> simp [allocMmapBuf,opens,file,mapFile]

theorem mapFile_keeps (parser : BanoParser) (data : List UInt8) : Keeps parser (mapFile parser data) :=
  ⟨rfl,Nat.le_succ _,fun _ below => Heap.alloc_cell_other (Nat.ne_of_lt below) _⟩

/-- The included buffer is still mapped when the call on it fails, and is released. -/
theorem freeBuf_mapFile (kept : Keeps (mapFile parser data) parser') :
    ∃ parser'', freeBuf parser' parser.mapped.next = .done parser'' ∧ Keeps parser parser'' := by
  have live : parser'.mapped.cell parser.mapped.next = some data := by
    rw [kept.cell _ (Nat.lt_succ_self _)]
    exact Heap.alloc_cell_next _ _
  have before := (mapFile_keeps parser data).trans kept
  refine ⟨{ parser' with mapped := parser'.mapped.erase parser.mapped.next },
    by simp [freeBuf,Heap.free_live live],before.topDir,before.next,fun p below => ?_⟩
  rw [← before.cell p below]
  exact Heap.erase_cell_other (Nat.ne_of_lt below) _

/-- An include adds its buffer to those released by bano_parser_fini. -/
theorem parseDirective_incl {nested : BanoParser → Ptr → List UInt8 → Outcome (Option Nat × BanoParser)}
    (opened : opens fs path = some data)
    (agrees : Agrees (mapFile parser data) data.length o (nested (mapFile parser data) parser.mapped.next data))
    (item : itemOf parser.topDir s = .incl path n) :
    Agrees parser n o (parseDirectiveOrStruct fs nested parser buf start s) := by
  simp only [itemOf] at item
  split_ifs at item with empty directive known tooLong
  · obtain ⟨rfl,rfl⟩ := Item.incl.inj item
    obtain ⟨c,live⟩ := token_live empty
    have dot : isDirective c = true := by simpa [live] using directive
    cases o with
    | running =>
      have running : nested (mapFile parser data) parser.mapped.next data = .running := agrees
      simp [Agrees,parseDirectiveOrStruct,parseDirective,empty,live,dot,known,tooLong,allocMmapBuf_opens,
        opened,running]
    | fault => exact agrees
    | done ok =>
      obtain ⟨parser',returned,kept⟩ := agrees
      cases ok with
      | false =>
        obtain ⟨parser'',freed,kept'⟩ := freeBuf_mapFile kept
        refine ⟨parser'',?_,kept'⟩
        simp [parseDirectiveOrStruct,parseDirective,empty,live,dot,known,tooLong,allocMmapBuf_opens,
          opened,returned,freed]
      | true =>
        have kept' := (mapFile_keeps parser data).trans kept
        refine ⟨{ parser' with bufs := parser'.bufs ++ [parser.mapped.next] },?_,kept'.topDir,kept'.next,kept'.cell⟩
        simp [parseDirectiveOrStruct,parseDirective,empty,live,dot,known,tooLong,allocMmapBuf_opens,
          opened,returned]
  · split at item <;> exact Item.noConfusion item

theorem parseDirectiveOrStruct_skip {nested : BanoParser → Ptr → List UInt8 → Outcome (Option Nat × BanoParser)}
    (item : itemOf parser.topDir s = .skip n) :
    ∃ parser', parseDirectiveOrStruct fs nested parser buf start s = .done (some n,parser') ∧
      Keeps parser parser' := by
  simp only [itemOf] at item
  split_ifs at item with empty directive
  · obtain rfl := Item.skip.inj item
    exact ⟨parser,by simp [parseDirectiveOrStruct,empty],.rfl⟩
  · obtain ⟨c,live⟩ := token_live empty
    have dot : isDirective c = false := by simpa [live] using directive
    obtain ⟨size,_,ran⟩ := parseStruct_size s
    obtain ⟨r,read,same⟩ := ran 0 0
    obtain ⟨r',read',same'⟩ := ran buf start
    split at item
    · next n' strukt found =>
      obtain rfl := Item.skip.inj item
      obtain rfl := Outcome.done.inj (read.symm.trans found)
      rw [← same,Option.map_some,Option.map_eq_some_iff] at same'
      obtain ⟨⟨_,strukt'⟩,rfl,rfl⟩ := same'
      exact ⟨{ parser with structs := parser.structs ++ [strukt'] },
        by simp [parseDirectiveOrStruct,empty,live,dot,read'],rfl,Nat.le_refl _,fun _ _ => rfl⟩
    · exact Item.noConfusion item

theorem parseDirectiveOrStruct_other {nested : BanoParser → Ptr → List UInt8 → Outcome (Option Nat × BanoParser)}
    (item : itemOf parser.topDir s = .other) :
    parseDirectiveOrStruct fs nested parser buf start s = .done (some 0,parser) := by
  simp only [itemOf] at item
  split_ifs at item with empty directive known
  · obtain ⟨c,live⟩ := token_live empty
    have dot : isDirective c = true := by simpa [live] using directive
    simp [parseDirectiveOrStruct,parseDirective,empty,live,dot,known]
  · split at item <;> exact Item.noConfusion item

theorem parseDirectiveOrStruct_bad {nested : BanoParser → Ptr → List UInt8 → Outcome (Option Nat × BanoParser)}
    (item : itemOf parser.topDir s = .bad) :
    parseDirectiveOrStruct fs nested parser buf start s = .done (none,parser) := by
  simp only [itemOf] at item
  split_ifs at item with empty directive known tooLong
  · obtain ⟨c,live⟩ := token_live empty
    have dot : isDirective c = true := by simpa [live] using directive
    simp [parseDirectiveOrStruct,parseDirective,empty,live,dot,known,tooLong]
  · obtain ⟨c,live⟩ := token_live empty
    have dot : isDirective c = false := by simpa [live] using directive
    obtain ⟨size,_,ran⟩ := parseStruct_size s
    obtain ⟨r,read,same⟩ := ran 0 0
    obtain ⟨r',read',same'⟩ := ran buf start
    cases r with
    | some found => simp [read] at item
    | none =>
      rw [← same,Option.map_none,Option.map_eq_none_iff] at same'
      simp [parseDirectiveOrStruct,empty,live,dot,read',same']

theorem parseDirectiveOrStruct_missing {nested : BanoParser → Ptr → List UInt8 → Outcome (Option Nat × BanoParser)}
    (item : itemOf parser.topDir s = .incl path n) (closed : opens fs path = none) :
    parseDirectiveOrStruct fs nested parser buf start s = .done (none,parser) := by
  simp only [itemOf] at item
  split_ifs at item with empty directive known tooLong
  · obtain ⟨rfl,rfl⟩ := Item.incl.inj item
    obtain ⟨c,live⟩ := token_live empty
    have dot : isDirective c = true := by simpa [live] using directive
    simp [parseDirectiveOrStruct,parseDirective,empty,live,dot,known,tooLong,allocMmapBuf_opens,closed]
  · split at item <;> exact Item.noConfusion item

/-- The parser follows `scan`, whatever strings and buffers it holds. -/
theorem parseBufFrom_scan (inside : i ≤ s.length) : Agrees parser s.length
    (scan fs parser.topDir fuel s i) (parseBufFrom fs fuel parser buf s i) := by
  induction fuel generalizing parser buf s i with
  | zero => exact rfl
  | succ fuel ih =>
    by_cases atEnd : i = s.length
    · subst atEnd
      simp only [scan,parseBufFrom,if_true]
      exact ⟨parser,rfl,.rfl⟩
    have rest : s.drop i ≠ [] := by
      rw [ne_eq,List.drop_eq_nil_iff]
      omega
    -- The call at `i` returned a size: the loop goes on from there.
    have goOn : ∀ {j parser'}, parseDirectiveOrStruct fs (fun parser buf data => parseBufFrom fs fuel
      parser buf data 0)
        parser buf i (s.drop i) = .done (some j,parser') → Keeps parser parser' → i + j ≤ s.length →
        Agrees parser s.length (scan fs parser.topDir fuel s (i + j))
          (parseBufFrom fs (fuel + 1) parser buf s i) := by
      intro j parser' called kept within
      have here : Agrees parser' s.length (scan fs parser'.topDir fuel s (i + j))
          (parseBufFrom fs fuel parser' buf s (i + j)) :=
        ih within
      have later := here.mono kept
      rw [kept.topDir] at later
      simpa only [parseBufFrom,if_neg atEnd,called,Outcome.bind_done] using later
    simp only [scan,if_neg atEnd]
    cases item : itemOf parser.topDir (s.drop i) with
    | skip n =>
      obtain ⟨_,bound⟩ := itemOf_skip item rest
      rw [List.length_drop] at bound
      obtain ⟨parser',called,kept⟩ := parseDirectiveOrStruct_skip item
      exact goOn called kept (by omega)
    | other => exact goOn (parseDirectiveOrStruct_other item) .rfl inside
    | bad =>
      simp only [parseBufFrom,if_neg atEnd,parseDirectiveOrStruct_bad item,Outcome.bind_done]
      exact ⟨parser,rfl,.rfl⟩
    | incl path n =>
      obtain ⟨_,bound,_⟩ := itemOf_incl item
      rw [List.length_drop] at bound
      cases opened : opens fs path with
      | none =>
        simp only [parseBufFrom,if_neg atEnd,parseDirectiveOrStruct_missing item opened,Outcome.bind_done,opened]
        exact ⟨parser,rfl,.rfl⟩
      | some data =>
        have inner : Agrees (mapFile parser data) data.length (scan fs parser.topDir fuel data 0)
            (parseBufFrom fs fuel (mapFile parser data) parser.mapped.next data 0) := ih (Nat.zero_le data.length)
        have agrees : Agrees parser n (scan fs parser.topDir fuel data 0) (parseDirectiveOrStruct fs
            (fun parser buf data => parseBufFrom fs fuel parser buf data 0) parser buf i (s.drop i)) :=
          parseDirective_incl opened inner item
        simp only [opened]
        cases result : scan fs parser.topDir fuel data 0 with
        | running =>
          rw [result] at agrees
          have running : parseDirectiveOrStruct fs (fun parser buf data => parseBufFrom fs fuel parser buf data 0)
            parser buf i (s.drop i) = .running := agrees
          simp only [parseBufFrom,if_neg atEnd,running,Outcome.bind_running]
          rfl
        | fault =>
          rw [result] at agrees
          exact agrees
        | done ok =>
          rw [result] at agrees
          obtain ⟨parser',called,kept⟩ := agrees
          cases ok with
          | true => exact goOn called kept (by omega)
          | false =>
            simp only [parseBufFrom,if_neg atEnd,called,Outcome.bind_done]
            exact ⟨parser',rfl,kept⟩

end Bano
