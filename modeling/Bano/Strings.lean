import Bano.Cipher
import Bano.Tokens

/-! What bano_string.c makes of a token: a keyword, a truth value, a number or an array of bytes. A plain
char is signed, an unsigned long has 64 bits, and the byte after a token is white. -/
namespace Bano

/-- The bytes of a C string, without the NUL. -/
def literal (s : String) : List UInt8 := s.toList.map Char.toUInt8

/-- A byte as a plain char. -/
def plainChar (c : UInt8) : Int := c.toBitVec.toInt

/-- The bytes of the string are unsigned, those of the C string are plain chars. -/
def banoStringCmpCstr : Token → List UInt8 → Int
  | [], _ => 0
  | _ :: _, [] => -1
  | c :: a, d :: b => if (c.toNat : Int) ≠ plainChar d then -1 else banoStringCmpCstr a b

/-- The token passes for the keyword. -/
def isWord (token : Token) (word : String) : Bool := banoStringCmpCstr token (literal word) = 0

/-- yes or no, true or false, 1 or 0 -/
def banoStringToBool (s : Token) : Option Bool :=
  if isWord s "yes" then some true
  else if isWord s "true" then some true
  else if isWord s "1" then some true
  else if isWord s "no" then some false
  else if isWord s "false" then some false
  else if isWord s "0" then some false
  else none

def ulongMax : Nat := 2 ^ 64 - 1

/-- isspace, in the C locale. -/
def isCSpace (c : UInt8) : Bool := c = 32 || 9 ≤ c && c ≤ 13

def digitVal (c : UInt8) : Nat :=
  if 48 ≤ c && c ≤ 57 then c.toNat - 48
  else if 65 ≤ c && c ≤ 90 then c.toNat - 55
  else if 97 ≤ c && c ≤ 122 then c.toNat - 87
  else 36

def digitsVal (base : Nat) (s : List UInt8) : Nat :=
  (s.takeWhile fun c => digitVal c < base).foldl (fun n c => n * base + digitVal c) 0

/-- A prefix 0x or 0X. -/
def skipHex : List UInt8 → List UInt8
  | c :: x :: s => if c = 48 && (x = 120 || x = 88) then s else c :: x :: s
  | s => s

/-- Whether the number is negated, and what follows the sign. -/
def skipSign : List UInt8 → Bool × List UInt8
  | c :: s => if c = 43 then (false,s) else if c = 45 then (true,s) else (false,c :: s)
  | [] => (false,[])

def strtoul (s : List UInt8) (base : Nat) : Nat :=
  let (neg,s) := skipSign (s.dropWhile isCSpace)
  let n := digitsVal base (if base = 16 then skipHex s else s)
  if ulongMax < n then ulongMax
  else if neg then (ulongMax + 1 - n) % (ulongMax + 1)
  else n

def getBase : List UInt8 → Nat
  | c :: x :: _ => if c = 48 && x = 120 then 16 else 10
  | _ => 10

def banoStringToUint32 (s : Token) : Option U32 :=
  if 32 ≤ s.length then none else some (BitVec.ofNat 32 (strtoul s (getBase s)))

def banoStringToUint16 (s : Token) : Option U16 := (banoStringToUint32 s).map (BitVec.setWidth 16)

/-- A string where it lies: its bytes, and what its buffer holds behind them, which strtoul may read too. -/
structure Text where
  token : Token
  after : List UInt8

/-- format: 0x00,0x01.. An array of n bytes is in memory, so n * 5 is a size_t. -/
def banoStringToArray (s : Text) (n : Nat) : Option (List UInt8) :=
  if s.token.length ≠ n * 5 - 1 then none
  else some ((List.range n).map fun i => UInt8.ofNat (strtoul ((s.token ++ s.after).drop (i * 5)) 16))

/-- The first byte is the lowest. -/
def keyOfBytes (bytes : List UInt8) : BitVec 128 := BitVec.ofNat 128 (bytes.foldr (fun b n => n * 256 + b.toNat) 0)

def banoStringToCipherKey (s : Text) : Option (BitVec 128) := (banoStringToArray s 16).map keyOfBytes

end Bano
