import Bano.Setup

/-! The node of bano_node.c: waiting for a message, its main loop and what it sends. The library of its
cipher and its handlers are parameters. -/
namespace Bano

open Lib

/-- The routines of the cipher library, the key first. -/
structure CryptoLib where
  xteaEnc : BitVec 128 → BitVec 64 → BitVec 64
  xteaDec : BitVec 128 → BitVec 64 → BitVec 64
  aes128Dec : BitVec 128 → BitVec 128 → BitVec 128

/-- Its XTEA is the standard one. -/
structure CryptoLib.Standard (lib : CryptoLib) : Prop where
  enc : ∀ key v, lib.xteaEnc key v = Xtea.enc key v
  dec : ∀ key v, lib.xteaDec key v = Xtea.dec key v

/-- What BANO_CONFIG_NODE_ADDR, BANO_CONFIG_CIPHER_ALG and BANO_CONFIG_CIPHER_KEY say. -/
structure Firmware where
  addr : U32
  alg : CipherAlg
  key : BitVec 128
  lib : CryptoLib

namespace Firmware

def cipherEnc (fw : Firmware) (data : BitVec 128) : BitVec 128 :=
  match fw.alg with
  | .none => data
  | .xtea => eachHalf (fw.lib.xteaEnc fw.key) data
  -- cipher_enc calls aes128_dec
  | .aes => fw.lib.aes128Dec fw.key data

def cipherDec (fw : Firmware) (data : BitVec 128) : BitVec 128 :=
  match fw.alg with
  | .none => data
  | .xtea => eachHalf (fw.lib.xteaDec fw.key) data
  | .aes => fw.lib.aes128Dec fw.key data

/-- What send_msg gives to the radio. -/
def sendMsg (fw : Firmware) (msg : BanoMsg) : BanoMsg :=
  let msg := { msg with saddr := fw.addr }
  if fw.alg ≠ .none then
    let e := msg.withBody (fw.cipherEnc msg.body)
    { e with flags := e.flags ||| msgFlagEnc }
  else msg

end Firmware

def makeSetMsg (msg : BanoMsg) (key : U16) (val : U32) : BanoMsg :=
  { msg with op := msgOpSet, flags := 0, key := key, val := val }

def makeGetMsg (msg : BanoMsg) (key : U16) : BanoMsg := { msg with op := msgOpGet, flags := 0, key := key }

def keyNextMsg : U16 := 3 ||| 1 <<< 15

/-- The flags that bano_set_handler returns, and the flags and the value of bano_get_handler. -/
structure Handlers where
  set : U16 → U32 → BitVec 8
  get : U16 → BitVec 8 × U32

/-- A call of a handler, with the value that the get handler yields. -/
inductive HandlerCall where
  | set (key : U16) (val : U32)
  | get (key : U16) (val : U32)
  deriving DecidableEq

namespace Firmware

/-- `junk` is what the stack held. -/
def banoSendSet (fw : Firmware) (junk : BanoMsg) (key : U16) (val : U32) : BanoMsg :=
  fw.sendMsg (makeSetMsg junk key val)

/-- What a node that polls sends when its timer expires. -/
def pollMsg (fw : Firmware) (junk : BanoMsg) : BanoMsg := fw.sendMsg (makeGetMsg junk keyNextMsg)

/-- The message that bano_wait_event yields for a payload. -/
def banoWaitEvent (fw : Firmware) (payload : BanoMsg) : BanoMsg := payload.withBody (fw.cipherDec payload.body)

/-- What bano_loop does with a message: the handler that it calls, and what it sends. -/
def banoLoop (fw : Firmware) (handlers : Handlers) (msg : BanoMsg) : Option HandlerCall × Option BanoMsg :=
  if msg.op = msgOpSet then
    let flags := handlers.set msg.key msg.val
    let sent := if flags &&& msgFlagReply.setWidth 8 ≠ 0
      then some (fw.sendMsg { msg with flags := flags.setWidth 6 }) else none
    (some (.set msg.key msg.val),sent)
  else if msg.op = msgOpGet then
    let (flags,val) := handlers.get msg.key
    let msg := makeSetMsg msg msg.key val
    (some (.get msg.key val),some (fw.sendMsg { msg with flags := (msgFlagReply.setWidth 8 ||| flags).setWidth 6 }))
  else (none,none)

end Firmware

/-- The base and the node read the same operation, key and value, from bytes that are deciphered exactly
when the clear byte says so. -/
structure ReadsAlike (b : Base) (fw : Firmware) (frame : BanoMsg) : Prop where
  op : (fw.banoWaitEvent frame).op = (decMsg b frame).op
  key : (fw.banoWaitEvent frame).key = (decMsg b frame).key
  val : (fw.banoWaitEvent frame).val = (decMsg b frame).val
  body : (fw.banoWaitEvent frame).body =
    if frame.has msgFlagEnc then eachHalf (Xtea.dec fw.key) frame.body else frame.body

theorem CryptoLib.Standard.cipherDec {fw : Firmware} (standard : fw.lib.Standard) (alg : fw.alg = .xtea)
    (data : BitVec 128) :
    fw.cipherDec data = eachHalf (Xtea.dec fw.key) data := by
  rw [Firmware.cipherDec,alg]
  simp only [eachHalf,standard.dec]

theorem CryptoLib.Standard.cipherEnc {fw : Firmware} (standard : fw.lib.Standard) (alg : fw.alg = .xtea)
    (data : BitVec 128) :
    fw.cipherEnc data = eachHalf (Xtea.enc fw.key) data := by
  rw [Firmware.cipherEnc,alg]
  simp only [eachHalf,standard.enc]

theorem banoCipherDec_xtea (key : BitVec 128) (data : BitVec 128) :
    (banoCipherDec ⟨.xtea,key⟩ data).2 = eachHalf (Xtea.dec key) data := by
  simp only [banoCipherDec,eachHalf,xteaDec_eq]

theorem banoCipherEnc_xtea (key : BitVec 128) (data : BitVec 128) :
    (banoCipherEnc ⟨.xtea,key⟩ data).2 = eachHalf (Xtea.enc key) data := by
  simp only [banoCipherEnc,eachHalf,xteaEnc_eq]

/-- The node deciphers whatever it receives. -/
theorem readsAlike_iff {b : Base} {fw : Firmware} (cipher : b.cipher = ⟨.xtea,key⟩) (alg : fw.alg = .xtea)
    (shared : fw.key = key) (standard : fw.lib.Standard) (frame : BanoMsg) :
    ReadsAlike b fw frame ↔ frame.has msgFlagEnc = true ∨ eachHalf (Xtea.dec key) frame.body = frame.body := by
  subst shared
  have node : fw.banoWaitEvent frame = frame.withBody (eachHalf (Xtea.dec fw.key) frame.body) := by
    rw [Firmware.banoWaitEvent,standard.cipherDec alg]
  by_cases enc : frame.has msgFlagEnc = true
  · have base : decMsg b frame = frame.withBody (eachHalf (Xtea.dec fw.key) frame.body) := by
      rw [decMsg,if_pos enc,cipher,banoCipherDec_xtea]
    have alike : ReadsAlike b fw frame := by
      constructor
      · rw [node,base]
      · rw [node,base]
      · rw [node,base]
      · rw [node,if_pos enc,body_withBody]
    simp [alike,enc]
  · have base : decMsg b frame = frame := by rw [decMsg,if_neg enc]
    constructor
    · intro alike
      have body := alike.body
      rw [node,if_neg enc,body_withBody] at body
      exact .inr body
    · intro fixed
      have same := fixed.resolve_left enc
      have read : fw.banoWaitEvent frame = frame := by
        rw [node,same]
        exact withBody_body frame frame
      constructor
      · rw [read,base]
      · rw [read,base]
      · rw [read,base]
      · rw [read,if_neg enc]

def standardLib : CryptoLib := ⟨Xtea.enc,Xtea.dec,fun _ data => data⟩

theorem standardLib_standard : standardLib.Standard := ⟨fun _ _ => rfl,fun _ _ => rfl⟩

def keyedBase : Base := { banoOpen 0 with cipher := ⟨.xtea,0⟩ }

def keyedNode : Firmware := ⟨0xa5a5a5a5,.xtea,0,standardLib⟩

/-- A GET of key 1, sent to a node whose entry does not say that it ciphers. -/
def clearGet : BanoMsg := ⟨msgOpGet,0,0,0,0,1,0⟩

theorem readsAlike_iff_clear : ReadsAlike keyedBase keyedNode clearGet ↔
    clearGet.has msgFlagEnc = true ∨ eachHalf (Xtea.dec 0) clearGet.body = clearGet.body :=
  readsAlike_iff (show keyedBase.cipher = ⟨.xtea,0⟩ from rfl) (show keyedNode.alg = .xtea from rfl) rfl
    standardLib_standard clearGet

/-- The node reads another key and another value. -/
theorem clearGet_misread : ¬∀ (b : Base) (fw : Firmware) (key : BitVec 128) (frame : BanoMsg),
    b.cipher = ⟨.xtea,key⟩ →
    fw.alg = .xtea → fw.key = key → fw.lib.Standard → ReadsAlike b fw frame := by
  intro allAlike
  have alike := allAlike keyedBase keyedNode 0 clearGet rfl rfl rfl standardLib_standard
  exact absurd alike.key (by decide +kernel)

/-- Under each key the library deciphers what it enciphers, and the
other way round; `aes128Enc` is its other AES routine. -/
structure CryptoLib.Inverse (lib : CryptoLib) (aes128Enc : BitVec 128 → BitVec 128 → BitVec 128) : Prop where
  xteaDecEnc : ∀ key v, lib.xteaDec key (lib.xteaEnc key v) = v
  xteaEncDec : ∀ key v, lib.xteaEnc key (lib.xteaDec key v) = v
  aesDecEnc : ∀ key data, lib.aes128Dec key (aes128Enc key data) = data
  aesEncDec : ∀ key data, aes128Enc key (lib.aes128Dec key data) = data

/-- The library's encryption of a block by the algorithm of the build. -/
def Firmware.encryption (fw : Firmware) (aes128Enc : BitVec 128 → BitVec 128 → BitVec 128)
    (data : BitVec 128) : BitVec 128 :=
  match fw.alg with
  | .none => data
  | .xtea => eachHalf (fw.lib.xteaEnc fw.key) data
  | .aes => aes128Enc fw.key data

/-- A block is enciphered by the library, and deciphered again, unless
AES deciphers it otherwise than it enciphers it. -/
theorem cipher_invertible_iff {fw : Firmware} (inverse : fw.lib.Inverse aes128Enc) (data : BitVec 128) :
    (fw.cipherDec (fw.cipherEnc data) = data ∧ fw.cipherEnc data = fw.encryption aes128Enc data) ↔
      (fw.alg = .aes → fw.lib.aes128Dec fw.key data = aes128Enc fw.key data) := by
  cases alg : fw.alg with
  | none => simp [Firmware.cipherDec,Firmware.cipherEnc,Firmware.encryption,alg]
  | xtea =>
    have back : fw.cipherDec (fw.cipherEnc data) = data := by
      simp only [Firmware.cipherDec,Firmware.cipherEnc,alg]
      exact eachHalf_inverse (inverse.xteaDecEnc fw.key) data
    have right : fw.cipherEnc data = fw.encryption aes128Enc data := by
      simp [Firmware.cipherEnc,Firmware.encryption,alg]
    exact iff_of_true ⟨back,right⟩ nofun
  | aes =>
    have enc : ∀ block, fw.cipherEnc block = fw.lib.aes128Dec fw.key block := fun block => by
      simp [Firmware.cipherEnc,alg]
    have dec : ∀ block, fw.cipherDec block = fw.lib.aes128Dec fw.key block := fun block => by
      simp [Firmware.cipherDec,alg]
    have right : fw.encryption aes128Enc data = aes128Enc fw.key data := by simp [Firmware.encryption,alg]
    rw [dec,enc,right]
    constructor
    · exact fun both _ => both.2
    · intro same
      have equal := same rfl
      refine ⟨?_,equal⟩
      rw [equal]
      exact inverse.aesDecEnc fw.key data

theorem cipher_invertible_keyed : (keyedNode.cipherDec (keyedNode.cipherEnc 7) = 7 ∧
    keyedNode.cipherEnc 7 = keyedNode.encryption (fun _ data => data) 7) ↔
      (keyedNode.alg = .aes → (7 : BitVec 128) = 7) :=
  @cipher_invertible_iff (fun _ data => data) keyedNode
    ⟨Xtea.dec_enc,Xtea.enc_dec,fun _ _ => rfl,fun _ _ => rfl⟩ 7

/-- A library that counts up and down stands for AES. -/
def countingNode : Firmware := ⟨1,.aes,0,⟨Xtea.enc,Xtea.dec,fun _ data => data - 1⟩⟩

/-- cipher_enc deciphers. -/
theorem cipher_aes_inverted : ¬∀ (fw : Firmware) (aes128Enc : BitVec 128 → BitVec 128 → BitVec 128)
    (data : BitVec 128),
    fw.lib.Inverse aes128Enc → fw.cipherDec (fw.cipherEnc data) = data ∧
    fw.cipherEnc data = fw.encryption aes128Enc data := by
  intro invertible
  have inverse : countingNode.lib.Inverse fun _ data => data + 1 :=
    ⟨Xtea.dec_enc,Xtea.enc_dec,fun _ data => BitVec.add_sub_cancel data 1,fun _ data => BitVec.sub_add_cancel data 1⟩
  exact absurd (invertible countingNode _ 0 inverse).1 (by decide)

end Bano
