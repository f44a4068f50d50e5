import Bano.Settings

/-! What the pairs of a keyval struct say. -/
namespace Bano

open Lib

inductive KeyvalSwitch where
  | mtime
  | get
  | set
  | ack
  | rst
  | notif
  deriving DecidableEq

def KeyvalSwitch.flag : KeyvalSwitch → U32
  | .mtime => nodlFlagMtime
  | .get => nodlFlagGet
  | .set => nodlFlagSet
  | .ack => nodlFlagAck
  | .rst => nodlFlagRst
  | .notif => nodlFlagNotif

theorem KeyvalSwitch.flag_apart {which which' : KeyvalSwitch} (differ : which ≠ which') :
    which.flag &&& which'.flag = 0 := by
  revert differ
  cases which <;> cases which' <;> decide

/-- What a pair says: a format and a base add flags, a truth value sets or clears one. -/
inductive KeyvalSetting where
  | name (s : Token)
  | key (x : U16)
  | mark (flags : U32)
  | switch (which : KeyvalSwitch) (on : Bool)

/-- The flags of a format that passes for uint32, and maybe for others. -/
def fmtFlags (val : Token) : U32 :=
  (if isWord val "bool" then nodlFlagFmtBool else if isWord val "uint8" then nodlFlagFmtUint8 else 0) |||
    (if isWord val "uint16" then nodlFlagFmtUint16 else 0) ||| nodlFlagFmtUint32

def readSwitch (which : KeyvalSwitch) (val : Token) : Option KeyvalSetting :=
  (banoStringToBool val).map (.switch which)

def readKeyval (pair : Token × Token) : Option KeyvalSetting :=
  if isWord pair.1 "name" then some (.name (cstr (pair.2.take (keyvalNameSize - 1))))
  else if isWord pair.1 "key" then (banoStringToUint16 pair.2).map .key
  else if isWord pair.1 "fmt" then if isWord pair.2 "uint32" then some (.mark (fmtFlags pair.2)) else none
  else if isWord pair.1 "base" then
    if isWord pair.2 "dec" then some (.mark nodlFlagBaseDec)
    else if isWord pair.2 "bin" then some (.mark nodlFlagBaseBin)
    else none
  else if isWord pair.1 "mtime" then readSwitch .mtime pair.2
  else if isWord pair.1 "get" then readSwitch .get pair.2
  else if isWord pair.1 "set" then readSwitch .set pair.2
  else if isWord pair.1 "ack" then readSwitch .ack pair.2
  else if isWord pair.1 "rst" then readSwitch .rst pair.2
  else if isWord pair.1 "notif" then readSwitch .notif pair.2
  else none

def KeyvalSetting.write : KeyvalSetting → KeyvalInfo → KeyvalInfo
  | .name s, kv => { kv with name := s }
  | .key x, kv => { kv with key := x }
  | .mark flags, kv => kv.put flags
  | .switch which on, kv => { kv with flags := setFlag on which.flag kv.flags }

/-- What is set before the format turns out to be uint32. -/
theorem fmt_written (val : Token) (kv : KeyvalInfo) :
    Written KeyvalSetting.write kv (if isWord val "uint32" then some (.mark (fmtFlags val)) else none)
      (let kv :=
        if isWord val "bool" then kv.put nodlFlagFmtBool
        else if isWord val "uint8" then kv.put nodlFlagFmtUint8
        else kv
      let kv := if isWord val "uint16" then kv.put nodlFlagFmtUint16 else kv
      if isWord val "uint32" then (0,kv.put nodlFlagFmtUint32) else (-1,kv)) := by
  by_cases uint32 : isWord val "uint32"
  · simp only [uint32,if_true,Written,KeyvalSetting.write,fmtFlags,KeyvalInfo.put]
    split_ifs <;> simp [BitVec.or_assoc]
  · simp [uint32,Written]

theorem switch_written (which : KeyvalSwitch) (val : Token) (kv : KeyvalInfo) :
    Written KeyvalSetting.write kv (readSwitch which val) (kv.switch val which.flag) :=
  .putFlag fun _ => rfl

theorem applyNodlKeyvalPair_settles : Settles applyNodlKeyvalPair readKeyval KeyvalSetting.write := by
  refine .of_written fun pair kv => ?_
  unfold applyNodlKeyvalPair readKeyval
  refine .ite rfl
    (.ite ?_ (.ite (fmt_written _ _) (.ite ?_ (.ite (switch_written .mtime _ _) (.ite (switch_written .get _ _)
    (.ite (switch_written .set _ _) (.ite (switch_written .ack _ _) (.ite (switch_written .rst _ _)
    (.ite (switch_written .notif _ _) ?_)))))))))
  · cases banoStringToUint16 pair.2 <;> simp [Written,KeyvalSetting.write]
  · exact .ite rfl (.ite rfl (by simp [Written]))
  · simp [Written]

end Bano
