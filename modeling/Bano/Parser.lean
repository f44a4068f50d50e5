import Bano.Lib.Outcome
import Bano.BanoList

/-! The parser of bano_parser.c. A buffer position is given by its bytes from there to the end,
and by its offset where a string has to point into the buffer. Allocations succeed. -/
namespace Bano

open Lib

/-- `size` bytes at an offset of a mapped buffer. -/
structure BanoString where
  buf : Ptr
  data : Nat
  size : Nat
  deriving DecidableEq

structure ParserPair where
  key : BanoString
  val : BanoString
  deriving DecidableEq

structure ParserStruct where
  name : BanoString
  pairs : List ParserPair
  deriving DecidableEq

/-- `mapped` holds the buffers that are not released yet. -/
structure BanoParser where
  topDir : List UInt8
  bufs : List Ptr
  structs : List ParserStruct
  mapped : Heap (List UInt8)

/-- What reading a file gives, for the paths that can be opened. -/
abbrev FileSystem := List UInt8 → Option (List UInt8)

def parserPathlen : Nat := 256

def isSpace (c : UInt8) : Bool := c = ' '.toUInt8 || c = '\t'.toUInt8

def isNl (c : UInt8) : Bool := c = '\r'.toUInt8 || c = '\n'.toUInt8

def isWhite (c : UInt8) : Bool := isNl c || isSpace c

def isComment (c : UInt8) : Bool := c = '#'.toUInt8

def isDirective (c : UInt8) : Bool := c = '.'.toUInt8

def includeString : List UInt8 := ".include".toList.map Char.toUInt8

def isIncludeDirective (token : List UInt8) : Bool := token = includeString

def skipWhites : List UInt8 → Nat
  | [] => 0
  | c :: s => if isWhite c then skipWhites s + 1 else 0

/-- The rest of the line, with its end. -/
def skipComment : List UInt8 → Nat
  | [] => 0
  | c :: s => if isNl c then 1 else skipComment s + 1

/-- The loop of skip_comments_and_whites; each turn but the last consumes a byte. -/
def skipTurns : Nat → List UInt8 → Nat
  | 0, _ => 0
  | fuel + 1, s =>
    let i := skipWhites s
    match s.drop i with
    | [] => i
    | c :: rest =>
      if isComment c then
        let j := skipComment (c :: rest)
        i + j + skipTurns fuel ((c :: rest).drop j)
      else i

def skipCommentsAndWhites (s : List UInt8) : Nat := skipTurns (s.length + 1) s

def tokenSize : List UInt8 → Nat
  | [] => 0
  | c :: s => if isSpace c || isNl c then 0 else tokenSize s + 1

/-- Offset and size of the next token. -/
def nextToken (s : List UInt8) : Nat × Nat :=
  let offset := skipCommentsAndWhites s
  (offset,tokenSize (s.drop offset))

/-- The pair and the size consumed, or none for (size_t)-1; `start` is the offset of `s`. -/
def parsePair (buf : Ptr) (start : Nat) (s : List UInt8) : Option (Nat × ParserPair) :=
  -- key
  let tok := nextToken s
  if tok.2 = 0 then none
  else
    let key : BanoString := ⟨buf,start + tok.1,tok.2⟩
    let i := tok.1 + tok.2
    -- equal
    let tok := nextToken (s.drop i)
    if tok.2 = 0 then none
    else
      let i := i + tok.1 + tok.2
      -- value
      let tok := nextToken (s.drop i)
      if tok.2 = 0 then none
      else
        let val : BanoString := ⟨buf,start + i + tok.1,tok.2⟩
        some (i + tok.1 + tok.2,⟨key,val⟩)

/-- The pairs up to the closing accolade. -/
def parsePairs (buf : Ptr) (start : Nat) (s : List UInt8) : Nat → Nat → List ParserPair →
    Outcome (Option (Nat × List ParserPair))
  | 0, _, _ => .running
  | fuel + 1, i, pairs =>
    -- one token look ahead
    let tok := nextToken (s.drop i)
    if tok.2 = 0 then .done none
    else do
      let c ← .ofOption s[i + tok.1]?
      if tok.2 = 1 ∧ c = '}'.toUInt8 then .done (some (tok.1 + i + 1,pairs))
      else
        match parsePair buf (start + i) (s.drop i) with
        | none => .done none
        | some (j,pair) => parsePairs buf start s fuel (i + j) (pairs ++ [pair])

def parseStruct (buf : Ptr) (start : Nat) (s : List UInt8) : Outcome (Option (Nat × ParserStruct)) :=
  -- name
  let tok := nextToken s
  if tok.2 = 0 then .done none
  else
    let name : BanoString := ⟨buf,start + tok.1,tok.2⟩
    let i := tok.1 + tok.2
    -- opening accolade
    let tok := nextToken (s.drop i)
    if tok.2 ≠ 1 then .done none
    else do
      let c ← .ofOption s[i + tok.1]?
      if c ≠ '{'.toUInt8 then .done none
      else
        let found ← parsePairs buf start s (s.length + 1) (i + tok.1 + 1) []
        .done (found.map fun (size,pairs) => (size,⟨name,pairs⟩))

/-- Mapping an empty file fails. -/
def allocMmapBuf (fs : FileSystem) (parser : BanoParser) (path : List UInt8) :
    Option (Ptr × List UInt8 × BanoParser) :=
  match fs path with
  | none | some [] => none
  | some (c :: data) =>
    some (parser.mapped.next,c :: data,{ parser with mapped := parser.mapped.alloc (c :: data) })

def freeBuf (parser : BanoParser) (buf : Ptr) : Outcome BanoParser := do
  let mapped ← .ofOption (parser.mapped.free buf)
  .done { parser with mapped := mapped }

/-- The bytes of a C string end at the first NUL. -/
def cstr (s : List UInt8) : List UInt8 := s.takeWhile (· ≠ 0)

/-- `parseBuf` is called on the included file. -/
def parseDirective (fs : FileSystem)
    (parseBuf : BanoParser → Ptr → List UInt8 → Outcome (Option Nat × BanoParser))
    (parser : BanoParser) (s : List UInt8) : Outcome (Option Nat × BanoParser) :=
  let tok := nextToken s
  if tok.2 = 0 then .done (none,parser)
  else do
    let c ← .ofOption s[tok.1]?
    if isDirective c = false then .done (none,parser)
    else if isIncludeDirective ((s.drop tok.1).take tok.2) then
      let i := tok.1 + tok.2
      let tok := nextToken (s.drop i)
      if tok.2 = 0 ∨ parser.topDir.length + tok.2 ≥ parserPathlen then .done (none,parser)
      else
        let path := cstr (parser.topDir ++ (s.drop (i + tok.1)).take tok.2)
        match allocMmapBuf fs parser path with
        | none => .done (none,parser)
        | some (buf,data,parser) =>
          match ← parseBuf parser buf data with
          | (none,parser) =>
            let parser ← freeBuf parser buf
            .done (none,parser)
          | (some _,parser) => .done (some (i + tok.1 + tok.2),{ parser with bufs := parser.bufs ++ [buf] })
    else .done (some 0,parser)

def parseDirectiveOrStruct (fs : FileSystem)
    (parseBuf : BanoParser → Ptr → List UInt8 → Outcome (Option Nat × BanoParser))
    (parser : BanoParser) (buf : Ptr) (start : Nat) (s : List UInt8) : Outcome (Option Nat × BanoParser) :=
  let tok := nextToken s
  if tok.2 = 0 then .done (some tok.1,parser)
  else do
    let c ← .ofOption s[tok.1]?
    if isDirective c then parseDirective fs parseBuf parser s
    else
      match ← parseStruct buf start s with
      | none => .done (none,parser)
      | some (i,strukt) => .done (some i,{ parser with structs := parser.structs ++ [strukt] })

/-- The loop of parse_buf at offset `i`; the fuel bounds its turns and the depth of includes. -/
def parseBufFrom (fs : FileSystem) : Nat → BanoParser → Ptr → List UInt8 → Nat →
    Outcome (Option Nat × BanoParser)
  | 0, _, _, _, _ => .running
  | fuel + 1, parser, buf, s, i =>
    if i = s.length then .done (some i,parser)
    else do
      let nested (parser : BanoParser) (buf : Ptr) (data : List UInt8) := parseBufFrom fs fuel parser buf data 0
      match ← parseDirectiveOrStruct fs nested parser buf i (s.drop i) with
      | (none,parser) => .done (none,parser)
      | (some j,parser) => parseBufFrom fs fuel parser buf s (i + j)

def parseBuf (fs : FileSystem) (fuel : Nat) (parser : BanoParser) (buf : Ptr) (s : List UInt8) :
    Outcome (Option Nat × BanoParser) := parseBufFrom fs fuel parser buf s 0

/-- The position of the last slash, or 0, in a path from its i-th byte on. -/
def lastSlash : List UInt8 → Nat → Nat → Option Nat
  | [], _, j => some j
  | c :: path, i, j =>
    if i = parserPathlen then none
    else lastSlash path (i + 1) (if c = '/'.toUInt8 then i else j)

/-- The bytes copied to `top_dir`, or none for -1. -/
def getDirname (path : List UInt8) : Option (List UInt8) :=
  (lastSlash path 0 0).map fun j => (path ++ [0]).take (j + 1)

def freeBufs : List Ptr → BanoParser → Outcome BanoParser
  | [], parser => .done { parser with bufs := [] }
  | buf :: bufs, parser => do
    let parser ← freeBuf parser buf
    freeBufs bufs parser

def banoParserFini (parser : BanoParser) : Outcome BanoParser :=
  freeBufs parser.bufs { parser with structs := [] }

def banoParserLoadFile (fs : FileSystem) (fuel : Nat) (path : List UInt8) : Outcome (Int × BanoParser) :=
  let parser : BanoParser := ⟨[],[],[],Heap.empty⟩
  match getDirname path with
  | none => .done (-1,parser)
  | some dir =>
    let parser := { parser with topDir := dir }
    match allocMmapBuf fs parser path with
    | none => .done (-1,parser)
    | some (buf,data,parser) => do
      match ← parseBuf fs fuel { parser with bufs := [buf] } buf data with
      | (none,parser) =>
        -- on_error_2, on_error_1
        let parser ← banoParserFini parser
        let parser ← freeBuf parser buf
        .done (-1,parser)
      | (some _,parser) => .done (0,parser)

end Bano
