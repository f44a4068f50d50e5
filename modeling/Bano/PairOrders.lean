import Bano.KeyvalSettings
import Bano.Open
import Bano.Texts

/-! Which sections come to the same whatever the order of their pairs is,
as they lie in the file and wherever they are written. -/
namespace Bano

open Lib

inductive NodeSetting where
  | addr (x : U32)
  | name (s : Token)
  | seed (x : U32)
  | nodlId (x : U32)
  | cipher (on : Bool)

namespace NodeSetting

def write : NodeSetting → NodeInfo → NodeInfo
  | .addr x, ninfo => { ninfo with addr := x, flags := setFlag true nodeFlagAddr ninfo.flags }
  | .name s, ninfo => { ninfo with name := s, flags := setFlag true nodeFlagName ninfo.flags }
  | .seed x, ninfo => { ninfo with seed := x, flags := setFlag true nodeFlagSeed ninfo.flags }
  | .nodlId x, ninfo => { ninfo with nodlId := x, flags := setFlag true nodeFlagNodlId ninfo.flags }
  | .cipher on, ninfo => { ninfo with flags := setFlag on nodeFlagCipher ninfo.flags }

end NodeSetting

inductive HttpdSetting where
  | port (x : U16)
  | auth (on : Bool)

namespace HttpdSetting

def write : HttpdSetting → BanoHttpdInfo → BanoHttpdInfo
  | .port x, info => { info with port := x, flags := setFlag true httpdFlagPort info.flags }
  | .auth on, info => { info with flags := setFlag on httpdFlagAuth info.flags }

end HttpdSetting

inductive CamSetting where
  | id (x : U32)
  | fmt (x : CamFmt)
  | dummy (on : Bool)

namespace CamSetting

def write : CamSetting → BanoCamInfo → BanoCamInfo
  | .id x, info => { info with id := x, flags := setFlag true camFlagId info.flags }
  | .fmt x, info => { info with fmt := x, flags := setFlag true camFlagFmt info.flags }
  | .dummy on, info => { info with flags := setFlag on camFlagDummy info.flags }

end CamSetting

inductive SmsSetting where
  | addr (s : Token)
  | port (s : Token)
  | creds (bytes : List UInt8)

def readSms (pair : Token × Text) : Option SmsSetting :=
  if isWord pair.1 "https_addr" then some (.addr (cstr pair.2.token))
  else if isWord pair.1 "https_port" then some (.port (cstr pair.2.token))
  else if isWord pair.1 "https_creds" then (banoStringToArray pair.2 smsCredsSize).map .creds
  else none

namespace SmsSetting

def write : SmsSetting → BanoSmsInfo → BanoSmsInfo
  | .addr s, info => { info with addr := some s }
  | .port s, info => { info with port := some s }
  | .creds bytes, info => { info with creds := bytes }

end SmsSetting

theorem applySmsPair_settles : Settles applySmsPair readSms SmsSetting.write := by
  refine .of_written fun pair info => ?_
  unfold applySmsPair readSms
  refine .ite rfl (.ite rfl (.ite ?_ (.refused _)))
  cases banoStringToArray pair.2 smsCredsSize with
  | none => exact .refused _
  | some creds => rfl

namespace KeyvalSetting

/-- A mark has no flag of a switch. -/
def Apart : KeyvalSetting → Prop
  | .mark flags => ∀ which : KeyvalSwitch, which.flag &&& flags = 0
  | _ => True

end KeyvalSetting

/-- The type of a socket sets its other fields, and a path is taken only once the type is known. -/
inductive SocketSetting where
  | snrf
  | other
  | devPath (s : Token)
  deriving DecidableEq

def snrfDevPath : Token := literal "/dev/ttyUSB0"

def SocketSetting.write (addr : U32) : SocketSetting → BanoSocketInfo → BanoSocketInfo
  | .snrf, _ => ⟨some .snrf,snrfDevPath,4,addr⟩
  | .other, sinfo => sinfo
  | .devPath s, sinfo => if sinfo.type = some .snrf then { sinfo with devPath := s } else sinfo

inductive BaseSetting where
  | addr (x : U32)
  | cipherAlg (x : CipherAlg)
  | cipherKey (key : BitVec 128)
  | newNodes (on : Bool)

namespace BaseSetting

def write : BaseSetting → BanoBase → BanoBase
  | .addr x, s => { s with addr := x }
  | .cipherAlg x, s => { s with base := { s.base with cipher := { s.base.cipher with alg := x } } }
  | .cipherKey key, s => { s with base := { s.base with cipher := { s.base.cipher with key := key } } }
  | .newNodes on, s => { s with base := { s.base with flags := setFlag on baseFlagNewNodes s.base.flags } }

end BaseSetting

def BanoBase.withNodls (s : BanoBase) (nodls : Store Nodl) : BanoBase :=
  { s with base := { s.base with nodls := nodls } }

@[simp] theorem BanoBase.withNodls_nodls (s : BanoBase) (nodls : Store Nodl) :
    (s.withNodls nodls).base.nodls = nodls := rfl

@[simp] theorem BanoBase.withNodls_twice (s : BanoBase) (nodls nodls' : Store Nodl) :
    (s.withNodls nodls).withNodls nodls' = s.withNodls nodls' := rfl

def bare (pair : Token × Text) : Token × Token := (pair.1,pair.2.token)

/-- A pair with nothing behind its value. -/
def alone (pair : Token × Token) : Token × Text := (pair.1,⟨pair.2,[]⟩)

/-- The pairs come to the same in any order, wherever they are
written: something else may be behind each of the values. -/
def PlaceFree (fn : Token × Text → σ → Int × σ) (written : List (Token × Token)) (info : σ) : Prop :=
  ∀ pairs pairs', (pairs.map bare).Perm written → (pairs'.map bare).Perm written →
    (∀ pair ∈ pairs, pair.2.Ended) → (∀ pair ∈ pairs', pair.2.Ended) →
    yields (banoParserForeachPair fn pairs info) = yields (banoParserForeachPair fn pairs' info)

theorem bare_alone (written : List (Token × Token)) : (written.map alone).map bare = written := by
  simp [Function.comp_def,alone,bare]

section
variable {fn : Token × Text → σ → Int × σ} {read : Token × Text → Option τ}
  {written : List (Token × Token)} {info : σ}

theorem bare_last {pair : Token × Token} (member : pair ∈ written) (after : List UInt8) :
    (((written.erase pair).map alone ++ [(pair.1,Text.mk pair.2 after)]).map bare).Perm written := by
  rw [List.map_append,bare_alone]
  exact (List.perm_append_singleton pair _).trans (List.perm_cons_erase member).symm

/-- The last pair, with one thing and with another behind its value. -/
theorem PlaceFree.last {pair : Token × Token} (free : PlaceFree fn written info) (member : pair ∈ written)
    (after after' : List UInt8)
    (white : ∀ c ∈ after.head?, isWhite c) (white' : ∀ c ∈ after'.head?, isWhite c) :
    yields (banoParserForeachPair fn ((written.erase pair).map alone ++ [(pair.1,⟨pair.2,after⟩)]) info) =
      yields (banoParserForeachPair fn ((written.erase pair).map alone ++ [(pair.1,⟨pair.2,after'⟩)]) info) := by
  have ended : ∀ after : List UInt8, (∀ c ∈ after.head?, isWhite c) →
      ∀ p ∈ (written.erase pair).map alone ++ [(pair.1,Text.mk pair.2 after)], p.2.Ended := by
    intro after white p inside
    rcases List.mem_append.mp inside with front | last
    · obtain ⟨_,_,rfl⟩ := List.mem_map.mp front
      exact nofun
    · obtain rfl := List.mem_singleton.mp last
      exact white
  exact free _ _ (bare_last member after) (bare_last member after') (ended after white) (ended after' white')

end

/-- What is behind a value is read of arrays of n bytes only. -/
def ReadsArrays (read : Token × Text → Option τ) (n : Nat) (setting : List UInt8 → τ) : Prop :=
  ∀ key : Token, (∀ val : Text, read (key,val) = read (key,⟨val.token,[]⟩) ∧ ∀ bytes,
    read (key,val) ≠ some (setting bytes)) ∨
    ∀ val, read (key,val) = (banoStringToArray val n).map setting

namespace ReadsArrays

variable {read : Token × Text → Option τ} {n : Nat} {setting : List UInt8 → τ}

theorem ended (arrays : ReadsArrays read n setting) {pair : Token × Text} (ended : pair.2.Ended)
    (ends : ∀ bytes, read (alone (bare pair)) = some (setting bytes) → ¬ReadsOn n pair.2.token) :
    read pair = read (alone (bare pair)) := by
  obtain ⟨key,val⟩ := pair
  rcases arrays key with same | array
  · exact (same val).1
  · rw [alone,bare,array] at ends ⊢
    rw [array]
    cases decoded : banoStringToArray ⟨val.token,[]⟩ n with
    | none => rw [(banoStringToArray_none _ _).mpr decoded]
    | some bytes => rw [banoStringToArray_ended ended (ends bytes (by rw [decoded]; rfl)),decoded]

end ReadsArrays

end Bano
