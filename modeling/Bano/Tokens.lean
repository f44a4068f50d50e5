import Bano.ParserItems

/-! The tokens of a buffer, and what the parser reads as a sequence of tokens. A struct is taken
from the tokens without looking at the token between a key and its value, as parse_pair does. -/
namespace Bano

open Lib

abbrev Token := List UInt8

/-- Where a reader that goes over a buffer once stands. -/
inductive Reading where
  | blank
  | comment
  | word (read : Token)

def tokensFrom : Reading → List UInt8 → List Token
  | .blank, [] => []
  | .comment, [] => []
  | .word read, [] => [read]
  | .blank, c :: s =>
    if isWhite c then tokensFrom .blank s
    else if isComment c then tokensFrom .comment s
    else tokensFrom (.word [c]) s
  | .comment, c :: s => if isNl c then tokensFrom .blank s else tokensFrom .comment s
  | .word read, c :: s =>
    if isWhite c then read :: tokensFrom .blank s else tokensFrom (.word (read ++ [c])) s

/-- The maximal runs of bytes that are not white, comments at the start of a token skipped. -/
def tokens (s : List UInt8) : List Token := tokensFrom .blank s

def openToken : Token := ['{'.toUInt8]

def closeToken : Token := ['}'.toUInt8]

def equalToken : Token := ['='.toUInt8]

/-- The tokens of a struct; a pair has a key, the token that stands for the equal, and a value. -/
structure RawStruct where
  name : Token
  pairs : List (Token × Token × Token)
  deriving DecidableEq

def pairTokens (pair : Token × Token × Token) : List Token := [pair.1,pair.2.1,pair.2.2]

def RawStruct.tokens (strukt : RawStruct) : List Token :=
  strukt.name :: openToken :: (strukt.pairs.flatMap pairTokens ++ [closeToken])

/-- The pairs up to the closing accolade, and the tokens after it. -/
def takePairs : List Token → Option (List (Token × Token × Token) × List Token)
  | [] => none
  | key :: rest =>
    if key = closeToken then some ([],rest)
    else
      match rest with
      | equal :: val :: rest => (takePairs rest).map fun (pairs,rest) => ((key,equal,val) :: pairs,rest)
      | _ => none

@[simp] theorem takePairs_close (rest : List Token) : takePairs (closeToken :: rest) = some ([],rest) := by
  unfold takePairs
  exact if_pos rfl

@[simp] theorem takePairs_pair (notClosing : key ≠ closeToken) (equal val : Token) (rest : List Token) :
    takePairs (key :: equal :: val :: rest) =
      (takePairs rest).map fun (pairs,rest) => ((key,equal,val) :: pairs,rest) := by
  rw [takePairs,if_neg notClosing]

def takeStruct : List Token → Option (RawStruct × List Token)
  | name :: brace :: rest =>
    if brace = openToken then (takePairs rest).map fun (pairs,rest) => (⟨name,pairs⟩,rest) else none
  | _ => none

/-- The bytes of a string that points into `data`. -/
def BanoString.bytes (data : List UInt8) (string : BanoString) : Token :=
  (data.drop string.data).take string.size

/-- The string lies in a buffer of `size` bytes. -/
def BanoString.Inside (buf : Ptr) (size : Nat) (string : BanoString) : Prop :=
  string.buf = buf ∧ string.data + string.size ≤ size

def ParserPair.Inside (buf : Ptr) (size : Nat) (pair : ParserPair) : Prop :=
  pair.key.Inside buf size ∧ pair.val.Inside buf size

def ParserStruct.Inside (buf : Ptr) (size : Nat) (strukt : ParserStruct) : Prop :=
  strukt.name.Inside buf size ∧ ∀ pair ∈ strukt.pairs, pair.Inside buf size

theorem tokens_skipWhites (s : List UInt8) : tokens (s.drop (skipWhites s)) = tokens s := by
  induction s with
  | nil => rfl
  | cons c s ih =>
    cases white : isWhite c with
    | true => simpa [skipWhites,tokens,tokensFrom,white] using ih
    | false => simp [skipWhites,white]

theorem tokens_skipComment (s : List UInt8) : tokens (s.drop (skipComment s)) = tokensFrom .comment s := by
  induction s with
  | nil => rfl
  | cons c s ih =>
    cases nl : isNl c with
    | true => simp [skipComment,tokens,tokensFrom,nl]
    | false => simpa [skipComment,tokens,tokensFrom,nl] using ih

theorem nl_white (nl : isNl c = true) : isWhite c = true := by simp [isWhite,nl]

theorem tokens_skipTurns (fuel : Nat) (s : List UInt8) : tokens (s.drop (skipTurns fuel s)) = tokens s := by
  induction fuel generalizing s with
  | zero => rfl
  | succ fuel ih =>
    simp only [skipTurns]
    split
    · exact tokens_skipWhites s
    · next c rest stopped =>
      split
      · next comment =>
        have white := comment_not_white comment
        have body : isNl c = false := by
          cases nl : isNl c with
          | true => rw [nl_white nl] at white; exact absurd white (by decide)
          | false => rfl
        calc tokens (s.drop (skipWhites s + skipComment (c :: rest) +
              skipTurns fuel ((c :: rest).drop (skipComment (c :: rest)))))
            = tokens (((c :: rest).drop (skipComment (c :: rest))).drop
                (skipTurns fuel ((c :: rest).drop (skipComment (c :: rest))))) := by
              simp only [← stopped,List.drop_drop]
          _ = tokens ((c :: rest).drop (skipComment (c :: rest))) := ih _
          _ = tokensFrom .comment (c :: rest) := tokens_skipComment _
          _ = tokens (c :: rest) := by simp [tokens,tokensFrom,white,comment,body]
          _ = tokens s := by rw [← stopped,tokens_skipWhites]
      · exact tokens_skipWhites s

theorem tokensFrom_word (read : Token) (s : List UInt8) : tokensFrom (.word read) s =
    (read ++ s.take (tokenSize s)) :: tokens (s.drop (tokenSize s)) := by
  induction s generalizing read with
  | nil => simp [tokensFrom,tokenSize,tokens]
  | cons c s ih =>
    have same : (isSpace c || isNl c) = isWhite c := Bool.or_comm _ _
    cases white : isWhite c with
    | true => simp [tokensFrom,tokenSize,same,white,tokens]
    | false => simp [tokensFrom,tokenSize,same,white,ih]

/-- The token that next_token finds. -/
def tokenAt (s : List UInt8) : Token := (s.drop (nextToken s).1).take (nextToken s).2

theorem tokens_skip (s : List UInt8) : tokens (s.drop (nextToken s).1) = tokens s :=
  tokens_skipTurns (s.length + 1) s

theorem tokens_none (empty : (nextToken s).2 = 0) : tokens s = [] := by
  have skipped := tokens_skip s
  rw [List.drop_eq_nil_of_le (Nat.le_of_eq (nextToken_end empty).symm)] at skipped
  exact skipped.symm

theorem tokens_some (found : (nextToken s).2 ≠ 0) :
    tokens s = tokenAt s :: tokens (s.drop ((nextToken s).1 + (nextToken s).2)) := by
  obtain ⟨_,stops⟩ := skipCommentsAndWhites_spec s
  cases rest : s.drop (skipCommentsAndWhites s) with
  | nil => simp [nextToken,rest,tokenSize] at found
  | cons c t =>
    obtain ⟨white,comment⟩ := stops c t rest
    have size : (nextToken s).2 = tokenSize t + 1 := by
      have same : (isSpace c || isNl c) = isWhite c := Bool.or_comm _ _
      simp [nextToken,rest,tokenSize,same,white]
    have off : s.drop (nextToken s).1 = c :: t := rest
    calc tokens s = tokens (c :: t) := (tokens_skip s).symm.trans (congrArg tokens rest)
      _ = tokensFrom (.word [c]) t := by simp [tokens,tokensFrom,white,comment]
      _ = ([c] ++ t.take (tokenSize t)) :: tokens (t.drop (tokenSize t)) := tokensFrom_word _ _
      _ = tokenAt s :: tokens (s.drop ((nextToken s).1 + (nextToken s).2)) := by
        rw [tokenAt,← List.drop_drop,off,size]
        rfl

/-- A token of one byte. -/
theorem tokenAt_single (one : (nextToken s).2 = 1) (live : s[(nextToken s).1]? = some c) : tokenAt s = [c] := by
  obtain ⟨bound,rfl⟩ := List.getElem?_eq_some_iff.mp live
  rw [tokenAt,one,List.drop_eq_getElem_cons bound]
  rfl

theorem tokenAt_length (s : List UInt8) : (tokenAt s).length = (nextToken s).2 := by
  have bound := nextToken_le s
  rw [tokenAt,List.length_take,List.length_drop]
  omega

/-- A string made of a token lies in its buffer and has the token's bytes. -/
theorem token_string {data : List UInt8} (place : s = data.drop start) (inside : start ≤ data.length)
    (within : i ≤ s.length) (buf : Ptr) :
    (BanoString.mk buf (start + i + (nextToken (s.drop i)).1) (nextToken (s.drop i)).2).bytes data =
        tokenAt (s.drop i) ∧
      (BanoString.mk buf (start + i + (nextToken (s.drop i)).1) (nextToken (s.drop i)).2).Inside buf data.length := by
  have bound := token_drop within
  have length : s.length = data.length - start := by rw [place,List.length_drop]
  refine ⟨?_,rfl,?_⟩
  · simp [place,BanoString.bytes,tokenAt,List.drop_drop,Nat.add_assoc]
  · show start + i + (nextToken (s.drop i)).1 + (nextToken (s.drop i)).2 ≤ data.length
    omega

/-- Three tokens make a pair, whatever the second is. -/
theorem parsePair_some {data : List UInt8} (place : s = data.drop start) (inside : start ≤ data.length)
    (found : parsePair buf start s = some (j,pair)) :
    (∃ equal, tokens s = pair.key.bytes data :: equal :: pair.val.bytes data :: tokens (s.drop j)) ∧
      pair.Inside buf data.length := by
  have key := nextToken_le s
  have equal := token_drop key
  have keyString : (BanoString.mk buf (start + (nextToken s).1) (nextToken s).2).bytes data = tokenAt s ∧ _ :=
    token_string place inside (Nat.zero_le _) buf
  have valString := token_string place inside equal buf
  simp only [parsePair] at found
  split_ifs at found with noKey noEqual noVal
  obtain ⟨rfl,rfl⟩ := Prod.mk.inj (Option.some.inj found)
  have second := tokens_some noEqual
  have third := tokens_some noVal
  rw [List.drop_drop,← Nat.add_assoc] at second third
  refine ⟨⟨tokenAt (s.drop ((nextToken s).1 + (nextToken s).2)),?_⟩,keyString.2,valString.2⟩
  simp only [keyString.1,valString.1]
  rw [tokens_some noKey,second,third]

theorem parsePair_none (failed : parsePair buf start s = none) : (tokens s).length < 3 := by
  simp only [parsePair] at failed
  split_ifs at failed with noKey noEqual noVal
  · simp [tokens_none noKey]
  · simp [tokens_some noKey,tokens_none noEqual]
  · rw [tokens_some noKey,tokens_some noEqual,List.drop_drop,← Nat.add_assoc,tokens_none noVal]
    exact Nat.lt_succ_self 2

theorem closing_iff (live : s[(nextToken s).1]? = some c) :
    ((nextToken s).2 = 1 ∧ c = '}'.toUInt8) ↔ tokenAt s = closeToken := by
  constructor
  · intro closing
    rw [tokenAt_single closing.1 live,closing.2]
    rfl
  · intro same
    have one : (nextToken s).2 = 1 := by rw [← tokenAt_length,same]; rfl
    rw [tokenAt_single one live] at same
    exact ⟨one,(List.cons.inj same).1⟩

/-- Less than three tokens, not starting with a closing accolade, hold no pairs. -/
theorem takePairs_short (short : ts.length < 3) (key : ts.head? ≠ some closeToken) : takePairs ts = none := by
  match ts with
  | [] => rfl
  | [key'] =>
    have open' : key' ≠ closeToken := fun same => key (congrArg some same)
    simp [takePairs,open']
  | [key',_] =>
    have open' : key' ≠ closeToken := fun same => key (congrArg some same)
    simp [takePairs,open']
  | _ :: _ :: _ :: _ =>
    simp only [List.length_cons] at short
    omega

/-- Strings of `pair` in `data`. -/
def ParserPair.content (data : List UInt8) (pair : ParserPair) : Token × Token :=
  (pair.key.bytes data,pair.val.bytes data)

/-- The pairs read from the tokens at `i`, `pairs` being read already. -/
def ReadsPairs (buf : Ptr) (data s : List UInt8) (i : Nat) (pairs : List ParserPair) :
    Option (Nat × List ParserPair) → Prop
  | none => takePairs (tokens (s.drop i)) = none
  | some (n,all) => ∃ more taken, takePairs (tokens (s.drop i)) = some (taken,tokens (s.drop n)) ∧
      all = pairs ++ more ∧ (∀ pair ∈ more, pair.Inside buf data.length) ∧
      more.map (ParserPair.content data) = taken.map fun pair => (pair.1,pair.2.2)

theorem parsePairs_reads {data : List UInt8} (place : s = data.drop start) (inside : start ≤ data.length)
    (within : i ≤ s.length) (returned : parsePairs buf start s fuel i pairs = .done r) :
    ReadsPairs buf data s i pairs r := by
  induction fuel generalizing i pairs with
  | zero => simp [parsePairs] at returned
  | succ fuel ih =>
    by_cases atEnd : (nextToken (s.drop i)).2 = 0
    · simp only [parsePairs,if_pos atEnd,Outcome.done.injEq] at returned
      subst returned
      simp [ReadsPairs,tokens_none atEnd,takePairs]
    obtain ⟨c,live⟩ := token_live atEnd
    have live' : s[i + (nextToken (s.drop i)).1]? = some c := by rwa [List.getElem?_drop] at live
    by_cases closing : (nextToken (s.drop i)).2 = 1 ∧ c = '}'.toUInt8
    · rw [parsePairs_close atEnd live' closing] at returned
      obtain rfl := Outcome.done.inj returned
      refine ⟨[],[],?_,(List.append_nil _).symm,by simp,rfl⟩
      have after : (s.drop i).drop ((nextToken (s.drop i)).1 + 1) = s.drop ((nextToken (s.drop i)).1 + i + 1) := by
        rw [List.drop_drop]
        congr 1
        omega
      rw [tokens_some atEnd,(closing_iff live).mp closing,closing.1,after]
      exact takePairs_close _
    have notClosing : tokenAt (s.drop i) ≠ closeToken := fun same => closing ((closing_iff live).mpr same)
    rw [parsePairs_turn atEnd live' closing] at returned
    have place' : s.drop i = data.drop (start + i) := by rw [place,List.drop_drop]
    have inside' : start + i ≤ data.length := by
      have length : s.length = data.length - start := by rw [place,List.length_drop]
      omega
    cases read : parsePair buf (start + i) (s.drop i) with
    | none =>
      rw [read] at returned
      obtain rfl := Outcome.done.inj returned
      apply takePairs_short (parsePair_none read)
      simpa [tokens_some atEnd] using notClosing
    | some found =>
      obtain ⟨j,pair⟩ := found
      obtain ⟨size,range,same⟩ := parsePair_size (s.drop i)
      have bound := (range j (by rw [← same buf (start + i),read]; rfl)).2
      rw [List.length_drop] at bound
      obtain ⟨⟨equal,ts⟩,pairInside⟩ := parsePair_some place' inside' read
      have open' : pair.key.bytes data ≠ closeToken := by
        rw [tokens_some atEnd] at ts
        exact (List.cons.inj ts).1 ▸ notClosing
      rw [read] at returned
      have later := ih (by omega) returned
      rw [List.drop_drop] at ts
      cases r with
      | none =>
        have stuck : takePairs (tokens (s.drop (i + j))) = none := later
        simp [ReadsPairs,ts,open',stuck]
      | some found =>
        obtain ⟨more,taken,took,all,moreInside,reads⟩ := later
        refine ⟨pair :: more,(pair.key.bytes data,equal,pair.val.bytes data) :: taken,?_,by simp [all],?_,
          by simp [reads,ParserPair.content]⟩
        · simp [ts,open',took]
        · intro p member
          rcases List.mem_cons.mp member with rfl | member
          · exact pairInside
          · exact moreInside p member

/-- The name and the pairs of a struct, as bytes. -/
structure ConfStruct where
  name : Token
  pairs : List (Token × Token)
  deriving DecidableEq

def ParserStruct.content (data : List UInt8) (strukt : ParserStruct) : ConfStruct :=
  ⟨strukt.name.bytes data,strukt.pairs.map (ParserPair.content data)⟩

/-- The struct without the tokens between keys and values. -/
def RawStruct.content (strukt : RawStruct) : ConfStruct :=
  ⟨strukt.name,strukt.pairs.map fun pair => (pair.1,pair.2.2)⟩

def ReadsStruct (buf : Ptr) (data s : List UInt8) : Option (Nat × ParserStruct) → Prop
  | none => takeStruct (tokens s) = none
  | some (n,strukt) => ∃ taken, takeStruct (tokens s) = some (taken,tokens (s.drop n)) ∧
      strukt.Inside buf data.length ∧ strukt.content data = taken.content

theorem takeStruct_other (other : ts.tail.head? ≠ some openToken) : takeStruct ts = none := by
  match ts with
  | [] => rfl
  | [_] => rfl
  | _ :: brace :: _ =>
    have differs : brace ≠ openToken := fun same => other (congrArg some same)
    simp [takeStruct,differs]

theorem parseStruct_reads {data : List UInt8} (place : s = data.drop start) (inside : start ≤ data.length)
    (returned : parseStruct buf start s = .done r) : ReadsStruct buf data s r := by
  by_cases noName : (nextToken s).2 = 0
  · simp only [parseStruct,if_pos noName,Outcome.done.injEq] at returned
    subst returned
    exact takeStruct_other (by simp [tokens_none noName])
  have name := nextToken_le s
  have nameString : (BanoString.mk buf (start + (nextToken s).1) (nextToken s).2).bytes data = tokenAt s ∧ _ :=
    token_string place inside (Nat.zero_le _) buf
  have opening := token_drop name
  simp only [parseStruct,if_neg noName] at returned
  by_cases one : (nextToken (s.drop ((nextToken s).1 + (nextToken s).2))).2 = 1
  · obtain ⟨c,live⟩ := token_live (s := s.drop ((nextToken s).1 + (nextToken s).2)) (by omega)
    have live' := live
    rw [List.getElem?_drop] at live'
    have brace : tokenAt (s.drop ((nextToken s).1 + (nextToken s).2)) = [c] := tokenAt_single one live
    have second := tokens_some (s := s.drop ((nextToken s).1 + (nextToken s).2)) (by omega)
    have ts := tokens_some noName
    rw [second,brace,one,List.drop_drop,← Nat.add_assoc] at ts
    simp only [one,live',ne_eq,not_true_eq_false,if_false,Outcome.ofOption_some,Outcome.bind_done] at returned
    split at returned
    · next differs =>
      obtain rfl := Outcome.done.inj returned
      apply takeStruct_other
      simpa [ts,openToken] using differs
    · next same =>
      obtain rfl : c = '{'.toUInt8 := Decidable.not_not.mp same
      have within : (nextToken s).1 + (nextToken s).2 +
          (nextToken (s.drop ((nextToken s).1 + (nextToken s).2))).1 + 1 ≤ s.length := by omega
      obtain ⟨_,_,ran⟩ := parsePairs_size (s.length + 1) within (by omega)
      obtain ⟨r',read,_⟩ := ran buf start []
      have reads := parsePairs_reads place inside within read
      rw [read] at returned
      obtain rfl := Outcome.done.inj returned
      cases r' with
      | none =>
        have stuck : takePairs _ = none := reads
        simp [ReadsStruct,ts,takeStruct,openToken,stuck]
      | some found =>
        obtain ⟨more,taken,took,all,pairsInside,contents⟩ := reads
        refine ⟨⟨tokenAt s,taken⟩,by simp [ts,takeStruct,openToken,took],⟨nameString.2,?_⟩,?_⟩
        · simpa [all] using pairsInside
        · simp [ParserStruct.content,RawStruct.content,nameString.1,all,contents]
  · simp only [ne_eq,one,not_false_eq_true,if_true] at returned
    obtain rfl := Outcome.done.inj returned
    apply takeStruct_other
    rw [tokens_some noName]
    by_cases none' : (nextToken (s.drop ((nextToken s).1 + (nextToken s).2))).2 = 0
    · simp [tokens_none none']
    · intro same
      have brace : tokenAt (s.drop ((nextToken s).1 + (nextToken s).2)) = openToken := by
        simpa [tokens_some none'] using same
      exact one (by rw [← tokenAt_length,brace]; rfl)

end Bano
