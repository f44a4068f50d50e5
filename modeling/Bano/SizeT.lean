import Mathlib.Algebra.GroupWithZero.Nat
import Bano.ParserItems
import Bano.Lib.Turns

/-! The parser of bano_parser.c as it goes over memory. Sizes and pointers are size_t numbers, whose sums and
differences wrap; a byte is read where one is mapped, or the outcome is a fault; allocations may fail. -/
namespace Bano.SizeT

open Lib

/-- A size_t, also as a pointer into a buffer. -/
abbrev Size := BitVec 64

/-- What can be read of a buffer. -/
abbrev Region := Size → Option UInt8

/-- (size_t)-1 -/
def failed : Size := -1

def read (region : Region) (p : Size) : Outcome UInt8 := .ofOption (region p)

/-- A turn of a loop over s[i] that goes on until `n` or a byte that stops it. -/
def seekTurn (region : Region) (s n : Size) (stops : UInt8 → Bool) (i : Size) : Outcome (Turn Size Size) :=
  if i = n then .done (.stop i)
  else do
    let c ← read region (s + i)
    .done (if stops c then .stop i else .next (i + 1))

/-- From 0 to `n` there are `n` turns and the last test. -/
def seek (region : Region) (s n : Size) (stops : UInt8 → Bool) (i : Size) : Outcome Size :=
  loop (seekTurn region s n stops) (n.toNat + 1) i

def skipWhites (region : Region) (s n : Size) : Outcome Size := seek region s n (fun c => !isWhite c) 0

def skipComment (region : Region) (s n : Size) : Outcome Size := do
  -- parser one line
  let i ← seek region s n isNl 0
  .done (if i ≠ n then i + 1 else i)

/-- if (is_white(s[i])) -/
def skipIfWhite (region : Region) (s n i : Size) (c : UInt8) : Outcome Size :=
  if isWhite c then do
    let j ← skipWhites region (s + i) (n - i)
    .done (i + j)
  else .done i

/-- A turn of the loop of skip_comments_and_whites. -/
def skipTurn (region : Region) (s n i : Size) : Outcome (Turn Size Size) :=
  if i = n then .done (.stop i)
  else do
    let c ← read region (s + i)
    let i ← skipIfWhite region s n i c
    if i = n then .done (.stop i)
    else do
      let c ← read region (s + i)
      if isComment c then do
        let j ← skipComment region (s + i) (n - i)
        .done (.next (i + j))
      else .done (.stop i)

def skipCommentsAndWhites (region : Region) (s n : Size) : Outcome Size := loop (skipTurn region s n) (n.toNat + 1) 0

/-- Token offset and token size. -/
def nextToken (region : Region) (s n : Size) : Outcome (Size × Size) := do
  let offset ← skipCommentsAndWhites region s n
  let i ← seek region s n (fun c => isSpace c || isNl c) offset
  .done (offset,i - offset)

/-- `data` is NULL or a place in a buffer. -/
structure BanoString where
  data : Option (Ptr × Size)
  size : Size
  deriving DecidableEq

def banoStringInit : BanoString := ⟨none,0⟩

structure ParserPair where
  key : BanoString
  val : BanoString
  deriving DecidableEq

structure ParserStruct where
  name : BanoString
  pairs : List ParserPair
  deriving DecidableEq

/-- Which allocations are granted, and how many were asked for. -/
structure Allocs where
  grants : Nat → Bool
  asked : Nat

/-- malloc -/
def Allocs.ask (allocs : Allocs) : Bool × Allocs :=
  (allocs.grants allocs.asked,{ allocs with asked := allocs.asked + 1 })

/-- Something is allocated and then its list item, or a buffer and then its mapping. -/
def Allocs.askTwice (allocs : Allocs) : Bool × Allocs :=
  match allocs.ask with
  | (false,allocs) => (false,allocs)
  | (true,allocs) => allocs.ask

/-- What alloc_pair initialises. -/
def pairInit : ParserPair := ⟨banoStringInit,banoStringInit⟩

/-- What alloc_struct initialises. -/
def structInit : ParserStruct := ⟨banoStringInit,[]⟩

/-- The size consumed or (size_t)-1, and the pair as far as it was read. -/
def parsePair (region : Region) (buf : Ptr) (pair : ParserPair) (s n : Size) : Outcome (Size × ParserPair) := do
  -- key
  let tok ← nextToken region s n
  if tok.2 = 0 then .done (failed,pair)
  else do
    let i := tok.1
    let pair := { pair with key := ⟨some (buf,s + i),tok.2⟩ }
    let i := i + tok.2
    -- equal
    let tok ← nextToken region (s + i) (n - i)
    if tok.2 = 0 then .done (failed,pair)
    else do
      let i := i + (tok.1 + tok.2)
      -- value
      let tok ← nextToken region (s + i) (n - i)
      if tok.2 = 0 then .done (failed,pair)
      else
        let i := i + tok.1
        let pair := { pair with val := ⟨some (buf,s + i),tok.2⟩ }
        .done (i + tok.2,pair)

/-- The token at `p` is a closing accolade. -/
def isClosing (region : Region) (p tokSize : Size) : Outcome Bool :=
  if tokSize = 1 then do
    let c ← read region p
    .done (decide (c = '}'.toUInt8))
  else .done false

/-- A turn of the loop of parse_struct, from `i` on. -/
def pairTurn (region : Region) (buf : Ptr) (s n : Size) :
    Size × List ParserPair × Allocs →
    Outcome (Turn (Size × List ParserPair × Allocs) (Size × List ParserPair × Allocs))
  | (i,pairs,allocs) => do
    -- one token look ahead
    let tok ← nextToken region (s + i) (n - i)
    if tok.2 = 0 then .done (.stop (failed,pairs,allocs))
    else do
      -- closing accolade
      let closing ← isClosing region (s + (i + tok.1)) tok.2
      if closing then .done (.stop (tok.1 + i + 1,pairs,allocs))
      else
        -- new pair
        match allocs.askTwice with
        | (false,allocs) => .done (.stop (failed,pairs,allocs))
        | (true,allocs) => do
          let (j,pair) ← parsePair region buf pairInit (s + i) (n - i)
          let pairs := pairs ++ [pair]
          .done (if j = failed then .stop (failed,pairs,allocs) else .next (i + j,pairs,allocs))

def parseStruct (region : Region) (buf : Ptr) (allocs : Allocs) (strukt : ParserStruct) (s n : Size) :
    Outcome (Size × ParserStruct × Allocs) := do
  -- name
  let tok ← nextToken region s n
  if tok.2 = 0 then .done (failed,strukt,allocs)
  else do
    let i := tok.1
    let strukt := { strukt with name := ⟨some (buf,s + i),tok.2⟩ }
    let i := i + tok.2
    -- opening accolade
    let tok ← nextToken region (s + i) (n - i)
    if tok.2 ≠ 1 then .done (failed,strukt,allocs)
    else do
      let c ← read region (s + (i + tok.1))
      if c ≠ '{'.toUInt8 then .done (failed,strukt,allocs)
      else do
        let i := i + (tok.1 + 1)
        let (ret,pairs,allocs) ← loop (pairTurn region buf s n) (n.toNat + 1) (i,strukt.pairs,allocs)
        .done (ret,{ strukt with pairs := pairs },allocs)

/-- A mapped file: `live` until it is unmapped. -/
structure Mapping where
  size : Size
  region : Region
  live : Bool

structure BanoParser where
  topDir : List UInt8
  bufs : List Ptr
  structs : List ParserStruct
  mapped : Heap Mapping
  allocs : Allocs

/-- st_size is a signed 64-bit number. -/
structure File where
  data : List UInt8
  fits : data.length < 2 ^ 63

/-- What opening a path gives. -/
abbrev Files := List UInt8 → Option File

def fileRegion (data : List UInt8) : Region := fun i => data[i.toNat]?

/-- The buffer that a pointer designates, while it is mapped. -/
def BanoParser.region (parser : BanoParser) (buf : Ptr) : Outcome Region :=
  match parser.mapped.cell buf with
  | some m => if m.live then .done m.region else .fault
  | none => .fault

/-- The parser with a file mapped. -/
def BanoParser.map (parser : BanoParser) (data : List UInt8) (allocs : Allocs) : BanoParser :=
  { parser with mapped := parser.mapped.alloc ⟨BitVec.ofNat 64 data.length,fileRegion data,true⟩, allocs := allocs }

/-- malloc or mmap may fail, and mapping an empty file does. -/
def allocMmapBuf (files : Files) (parser : BanoParser) (path : List UInt8) : Option (Ptr × Size) × BanoParser :=
  match files path with
  | none => (none,parser)
  | some file =>
    match parser.allocs.askTwice with
    | (false,allocs) => (none,{ parser with allocs := allocs })
    | (true,allocs) =>
      if file.data = [] then (none,{ parser with allocs := allocs })
      else (some (parser.mapped.next,BitVec.ofNat 64 file.data.length),parser.map file.data allocs)

/-- The parser with a buffer unmapped. -/
def BanoParser.unmap (parser : BanoParser) (buf : Ptr) : BanoParser :=
  { parser with mapped := parser.mapped.modify buf fun m => { m with live := false } }

def freeBuf (parser : BanoParser) (buf : Ptr) : Outcome BanoParser := do
  let _ ← parser.region buf
  .done (parser.unmap buf)

/-- The bytes that memcmp and memcpy read. -/
def readBytes (region : Region) (p : Size) : Nat → Outcome (List UInt8)
  | 0 => .done []
  | n + 1 => do
    let c ← read region p
    let cs ← readBytes region (p + 1) n
    .done (c :: cs)

def isIncludeDirective (region : Region) (s n : Size) : Outcome Bool :=
  if n ≠ BitVec.ofNat 64 includeString.length then .done false
  else do
    let bytes ← readBytes region s includeString.length
    .done (decide (bytes = includeString))

/-- parse_buf, on a buffer from `s` on. -/
abbrev ParseBuf := BanoParser → Ptr → Size → Size → Outcome (Size × BanoParser)

/-- What follows the directive .include, `i` being its end. -/
def parseInclude (files : Files) (parseBuf : ParseBuf) (parser : BanoParser) (region : Region) (s n i : Size) :
    Outcome (Size × BanoParser) := do
  let tok ← nextToken region (s + i) (n - i)
  if tok.2 = 0 ∨ BitVec.ofNat 64 parserPathlen ≤ BitVec.ofNat 64 parser.topDir.length + tok.2
    then .done (failed,parser)
  else do
    let name ← readBytes region (s + (i + tok.1)) tok.2.toNat
    match allocMmapBuf files parser (cstr (parser.topDir ++ name)) with
    | (none,parser) => .done (failed,parser)
    | (some (file,size),parser) => do
      let (ret,parser) ← parseBuf parser file 0 size
      if ret = failed then do
        let parser ← freeBuf parser file
        .done (failed,parser)
      else
        match parser.allocs.ask with
        | (false,allocs) => do
          let parser ← freeBuf { parser with allocs := allocs } file
          .done (failed,parser)
        | (true,allocs) => .done (i + (tok.1 + tok.2),{ parser with bufs := parser.bufs ++ [file], allocs := allocs })

def parseDirective (files : Files) (parseBuf : ParseBuf) (parser : BanoParser) (buf : Ptr) (s n : Size) :
    Outcome (Size × BanoParser) := do
  let region ← parser.region buf
  let tok ← nextToken region s n
  if tok.2 = 0 then .done (failed,parser)
  else do
    let c ← read region (s + tok.1)
    if isDirective c = false then .done (failed,parser)
    else do
      let known ← isIncludeDirective region (s + tok.1) tok.2
      if known then parseInclude files parseBuf parser region s n (tok.1 + tok.2)
      else .done (0,parser)

def parseDirectiveOrStruct (files : Files) (parseBuf : ParseBuf) (parser : BanoParser) (buf : Ptr) (s n : Size) :
    Outcome (Size × BanoParser) := do
  let region ← parser.region buf
  let tok ← nextToken region s n
  if tok.2 = 0 then .done (tok.1,parser)
  else do
    let c ← read region (s + tok.1)
    if isDirective c then parseDirective files parseBuf parser buf s n
    else
      match parser.allocs.askTwice with
      | (false,allocs) => .done (failed,{ parser with allocs := allocs })
      | (true,allocs) => do
        -- the struct is in the list while it is parsed
        let (i,strukt,allocs) ← parseStruct region buf allocs structInit s n
        .done (i,{ parser with structs := parser.structs ++ [strukt], allocs := allocs })

/-- A turn of the loop of parse_buf. -/
def parseBufTurn (files : Files) (parseBuf : ParseBuf) (buf : Ptr) (s n : Size) :
    Size × BanoParser → Outcome (Turn (Size × BanoParser) (Size × BanoParser))
  | (i,parser) =>
    if i = n then .done (.stop (i,parser))
    else do
      let (j,parser) ← parseDirectiveOrStruct files parseBuf parser buf (s + i) (n - i)
      .done (if j = failed then .stop (failed,parser) else .next (i + j,parser))

/-- The fuel bounds the turns and the depth of includes. -/
def parseBufFrom (files : Files) : Nat → BanoParser → Ptr → Size → Size → Size → Outcome (Size × BanoParser)
  | 0, _, _, _, _, _ => .running
  | fuel + 1, parser, buf, s, n, i => do
    let nested (parser : BanoParser) (buf : Ptr) (s n : Size) := parseBufFrom files fuel parser buf s n 0
    match ← parseBufTurn files nested buf s n (i,parser) with
    | .stop result => .done result
    | .next (i,parser) => parseBufFrom files fuel parser buf s n i

def parseBuf (files : Files) (fuel : Nat) (parser : BanoParser) (buf : Ptr) (s n : Size) :
    Outcome (Size × BanoParser) :=
  parseBufFrom files fuel parser buf s n 0

end Bano.SizeT
