import Bano.Conf

/-! The file of a description: what apply_nodl_keyval_pair makes of the pairs
of a keyval struct, and apply_nodl_struct of the structs. -/
namespace Bano

open Lib

/-- All of bano_nodl_keyval_t. -/
structure KeyvalInfo extends NodlKeyval where
  name : Token

/-- The name array holds 32 bytes. -/
def keyvalNameSize : Nat := 32

def nodlFlagFmtBool : U32 := 1 <<< 0

def nodlFlagFmtUint8 : U32 := 1 <<< 1

def nodlFlagFmtUint16 : U32 := 1 <<< 2

def nodlFlagFmtUint32 : U32 := 1 <<< 3

def nodlFlagBaseBin : U32 := 1 <<< 4

def nodlFlagBaseDec : U32 := 1 <<< 5

def nodlFlagMtime : U32 := 1 <<< 6

def nodlFlagGet : U32 := 1 <<< 7

def nodlFlagSet : U32 := 1 <<< 8

def nodlFlagRst : U32 := 1 <<< 9

def nodlFlagAck : U32 := 1 <<< 10

def banoNodlKeyvalInit : KeyvalInfo := ⟨⟨0,0⟩,[]⟩

namespace KeyvalInfo

def put (kv : KeyvalInfo) (flag : U32) : KeyvalInfo := { kv with flags := kv.flags ||| flag }

/-- A pair whose value is a truth value. -/
def switch (kv : KeyvalInfo) (val : Token) (flag : U32) : Int × KeyvalInfo :=
  putFlag val kv.flags flag kv fun flags => { kv with flags := flags }

end KeyvalInfo

def applyNodlKeyvalPair (pair : Token × Token) (kv : KeyvalInfo) : Int × KeyvalInfo :=
  if isWord pair.1 "name" then (0,{ kv with name := cstr (pair.2.take (keyvalNameSize - 1)) })
  else if isWord pair.1 "key" then
    match banoStringToUint16 pair.2 with
    | none => (-1,kv)
    | some x => (0,{ kv with key := x })
  else if isWord pair.1 "fmt" then
    let kv :=
      if isWord pair.2 "bool" then kv.put nodlFlagFmtBool
      else if isWord pair.2 "uint8" then kv.put nodlFlagFmtUint8
      else kv
    -- no else: whatever is not uint32 ends in the error
    let kv := if isWord pair.2 "uint16" then kv.put nodlFlagFmtUint16 else kv
    if isWord pair.2 "uint32" then (0,kv.put nodlFlagFmtUint32) else (-1,kv)
  else if isWord pair.1 "base" then
    if isWord pair.2 "dec" then (0,kv.put nodlFlagBaseDec)
    else if isWord pair.2 "bin" then (0,kv.put nodlFlagBaseBin)
    else (-1,kv)
  else if isWord pair.1 "mtime" then kv.switch pair.2 nodlFlagMtime
  else if isWord pair.1 "get" then kv.switch pair.2 nodlFlagGet
  else if isWord pair.1 "set" then kv.switch pair.2 nodlFlagSet
  else if isWord pair.1 "ack" then kv.switch pair.2 nodlFlagAck
  else if isWord pair.1 "rst" then kv.switch pair.2 nodlFlagRst
  else if isWord pair.1 "notif" then kv.switch pair.2 nodlFlagNotif
  else (-1,kv)

/-- The last digits of a number, as %0x prints them. -/
def hexText : Nat → Nat → List UInt8
  | 0, _ => []
  | digits + 1, n =>
    let d := n / 16 ^ digits % 16
    UInt8.ofNat (if d < 10 then 48 + d else 87 + d) :: hexText digits n

/-- A keyval without a name is named after its key. -/
def KeyvalInfo.named (kv : KeyvalInfo) : KeyvalInfo :=
  if kv.name = [] then { kv with name := literal "0x" ++ hexText 8 kv.key.toNat } else kv

/-- The two allocations of bano_dict_add, and what malloc left in the value. -/
structure KeyvalMemory where
  mallocPair : Bool
  mallocItem : Bool
  junk : KeyvalInfo

/-- Only the pairs can fail a struct: `err` stays as it was when there is no memory. -/
def applyNodlStruct (strukt : ConfStruct) (m : KeyvalMemory) (keyvals : Dict KeyvalInfo) :
    Option (Int × Dict KeyvalInfo) :=
  if isWord strukt.name "keyval" then
    let (err,kv) := banoParserForeachPair applyNodlKeyvalPair strukt.pairs banoNodlKeyvalInit
    if err ≠ 0 then some (-1,keyvals)
    else do
      let (added,keyvals) ← banoDictAdd m.mallocPair m.mallocItem m.junk keyvals (kv.key.setWidth 32)
      match added with
      | none => some (0,keyvals)
      | some p =>
        let pairs ← keyvals.pairs.update p fun pair => { pair with val := kv.named }
        some (0,{ keyvals with pairs := pairs })
  else some (0,keyvals)

def applyNodlStructs : List (ConfStruct × KeyvalMemory) → Dict KeyvalInfo → Option (Int × Dict KeyvalInfo)
  | [], keyvals => some (0,keyvals)
  | (strukt,m) :: structs, keyvals => do
    let (err,keyvals) ← applyNodlStruct strukt m keyvals
    if err ≠ 0 then some (err,keyvals) else applyNodlStructs structs keyvals

end Bano
