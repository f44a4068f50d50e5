import Mathlib.Logic.Equiv.Defs
import Bano.Lib.Bytes
import Bano.Numerals
import Bano.Open

/-! bano_sms.c and the tool that makes its credentials. AES is a parameter: for each key schedule a permutation of
the blocks of 16 bytes. A remainder by zero, a NULL string and a write that leaves its array have no result. -/
namespace Bano

open Lib

/-- An array of n bytes. -/
abbrev Bytes (n : Nat) := { s : List UInt8 // s.length = n }

def arrayOf (n : Nat) (s : List UInt8) : Option (Bytes n) := if size : s.length = n then some ⟨s,size⟩ else none

def Bytes.put (a : Bytes n) (off : Nat) (values : List UInt8) : Option (Bytes n) :=
  match stored : store a.1 off values with
  | none => none
  | some s => some ⟨s,(store_length stored).trans a.2⟩

/-- psAesInitKey, and psAesEncryptBlock with its inverse psAesDecryptBlock. -/
structure Aes where
  Key : Type
  initKey : List UInt8 → Option Key
  block : Key → Equiv.Perm (Bytes 16)

def smsLoginSize : Nat := 8

def smsPassSize : Nat := 14

structure SmsHandle (aes : Aes) where
  aesKey : aes.Key
  login : Bytes (smsLoginSize + 1)
  pass : Bytes (smsPassSize + 1)
  sinPort : U16
  sinAddr : U32
  addrString : Bytes smsAddrSize

/-- BANO_SMS_KEY, whether matrixSslOpen succeeds, and what the C library makes of a port and an address. -/
structure SmsEnv where
  sslOpens : Bool
  smsKey : Option (List UInt8)
  atoi : List UInt8 → U32
  inetAddr : List UInt8 → U32

def htons (x : U16) : U16 := x <<< 8 ||| x >>> 8

/-- The key repeated up to 32 bytes; i % len has no value if the key is empty. -/
def stretchKey (k : List UInt8) : Option (Bytes 32) :=
  if k.length = 0 then none else some ⟨(List.range 32).map fun i => k.getD (i % k.length) 0,by simp⟩

def firstBlock (x : Bytes smsCredsSize) : Bytes 16 := ⟨x.1.take 16,by simp [x.2,smsCredsSize]⟩

def secondBlock (x : Bytes smsCredsSize) : Bytes 16 := ⟨x.1.drop 16,by simp [x.2,smsCredsSize]⟩

namespace SmsHandle

variable {aes : Aes}

/-- x the encrypted buffer, l the login, p the password -/
def banoSmsEncryptCreds (sms : SmsHandle aes) (x : Bytes smsCredsSize) (l p : List UInt8) :
    Option (Bytes smsCredsSize) := do
  let x ← x.put 0 (← load l 0 smsLoginSize)
  let x ← x.put smsLoginSize (← load p 0 smsPassSize)
  let i := smsLoginSize + smsPassSize
  let x ← x.put i (List.replicate (smsCredsSize - i) 0)
  let x ← x.put 0 (aes.block sms.aesKey (firstBlock x)).1
  x.put 16 (aes.block sms.aesKey (secondBlock x)).1

def banoSmsDecryptCreds (sms : SmsHandle aes) (l : Bytes (smsLoginSize + 1)) (p : Bytes (smsPassSize + 1))
    (x : Bytes smsCredsSize) : Option (Bytes (smsLoginSize + 1) × Bytes (smsPassSize + 1)) := do
  let xx := ((aes.block sms.aesKey).symm (firstBlock x)).1 ++ ((aes.block sms.aesKey).symm (secondBlock x)).1
  let l ← l.put 0 (← load xx 0 smsLoginSize)
  let l ← l.put smsLoginSize [0]
  let p ← p.put 0 (← load xx smsLoginSize smsPassSize)
  let p ← p.put smsPassSize [0]
  some (l,p)

/-- get server socket address -/
def setAddress (sms : SmsHandle aes) (env : SmsEnv) (info : BanoSmsInfo) : Option (SmsHandle aes) :=
  match info.addr with
  | none => some sms
  | some addr => do
    let port ← info.port
    let addrString ← sms.addrString.put 0 (addr ++ [0])
    some { sms with
      sinPort := htons ((env.atoi port).setWidth 16), sinAddr := env.inetAddr addr, addrString := addrString }

/-- The handle is what memory held before; matrixSslClose follows every failure but the first. -/
def banoSmsOpen (sms : SmsHandle aes) (env : SmsEnv) (info : BanoSmsInfo) : Option (Int × SmsHandle aes) :=
  if env.sslOpens = false then some (-1,sms)
  else
    match env.smsKey with
    | none => some (-1,sms)
    | some k => do
      let buf ← stretchKey k
      match aes.initKey buf.1 with
      | none => some (-1,sms)
      | some key => do
        let sms := { sms with aesKey := key }
        -- decrypt creds
        let creds ← arrayOf smsCredsSize info.creds
        let (login,pass) ← sms.banoSmsDecryptCreds sms.login sms.pass creds
        let sms ← { sms with login := login, pass := pass }.setAddress env info
        some (0,sms)

end SmsHandle

/-- What the memory of util/sms_creds holds at its start. -/
structure SmsCredsMemory (aes : Aes) where
  sms : SmsHandle aes
  infoCreds : Bytes smsCredsSize
  creds : Bytes smsCredsSize
  l : Bytes (smsLoginSize + 1)
  p : Bytes (smsPassSize + 1)

/-- The exit code and the output of the tool. An argument that is missing is NULL. -/
def smsCreds {aes : Aes} (env : SmsEnv) (m : SmsCredsMemory aes) (av : List (List UInt8)) :
    Option (Int × List UInt8) := do
  let (err,sms) ← m.sms.banoSmsOpen env ⟨none,none,m.infoCreds.1⟩
  if err ≠ 0 then some (-1,[])
  else do
    let mode ← av[1]?
    if mode = literal "-d" then do
      let s ← av[2]?
      match banoStringToArray ⟨s,[0]⟩ smsCredsSize with
      | none => some (-1,[])
      | some creds => do
        let (l,p) ← sms.banoSmsDecryptCreds m.l m.p (← arrayOf smsCredsSize creds)
        some (0,literal "l=" ++ cstr l.1 ++ literal ", p=" ++ cstr p.1 ++ literal "\n")
    else if mode = literal "-e" then do
      let login ← av[2]?
      if login.length ≠ smsLoginSize then some (-1,[])
      else do
        let pass ← av[3]?
        if pass.length ≠ smsPassSize then some (-1,[])
        else do
          let l ← m.l.put 0 (login ++ [0])
          let p ← m.p.put 0 (pass ++ [0])
          let creds ← sms.banoSmsEncryptCreds m.creds l.1 p.1
          some (0,printCreds creds.1)
    else some (0,[])

end Bano
