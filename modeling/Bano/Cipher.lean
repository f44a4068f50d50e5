import Mathlib.Logic.Function.Iterate
import Bano.Lib.Xtea
import Bano.Message

/-! The ciphers of bano_cipher.c: XTEA on each half of the 16 ciphered bytes. Words are read
little-endian, the first of them from the lowest bits. -/
namespace Bano

open Lib

inductive CipherAlg where
  | none
  | xtea
  | aes
  deriving DecidableEq

structure BanoCipher where
  alg : CipherAlg
  key : BitVec 128

def xteaDelta : U32 := 0x9E3779B9

/-- The i-th word of the key. -/
def keyWord (k : BitVec 128) (i : U32) : U32 := k.extractLsb' (32 * i.toNat) 32

def mix (v : U32) : U32 := ((v <<< 4) ^^^ (v >>> 5)) + v

structure XteaState where
  v0 : U32
  v1 : U32
  sum : U32

def xteaEncRound (k : BitVec 128) (s : XteaState) : XteaState :=
  let v0 := s.v0 + (mix s.v1 ^^^ (s.sum + keyWord k (s.sum &&& 3)))
  let sum := s.sum + xteaDelta
  let v1 := s.v1 + (mix v0 ^^^ (sum + keyWord k ((sum >>> 11) &&& 3)))
  ⟨v0,v1,sum⟩

def xteaDecRound (k : BitVec 128) (s : XteaState) : XteaState :=
  let v1 := s.v1 - (mix s.v0 ^^^ (s.sum + keyWord k ((s.sum >>> 11) &&& 3)))
  let sum := s.sum - xteaDelta
  let v0 := s.v0 - (mix v1 ^^^ (sum + keyWord k (sum &&& 3)))
  ⟨v0,v1,sum⟩

def xteaEnc (k : BitVec 128) (v : BitVec 64) : BitVec 64 :=
  let s := (xteaEncRound k)^[32] ⟨v.extractLsb' 0 32,v.extractLsb' 32 32,0⟩
  s.v1 ++ s.v0

def xteaDec (k : BitVec 128) (v : BitVec 64) : BitVec 64 :=
  let s := (xteaDecRound k)^[32] ⟨v.extractLsb' 0 32,v.extractLsb' 32 32,0xC6EF3720⟩
  s.v1 ++ s.v0

/-- The blocks at `data + 0` and `data + 8`. -/
def eachHalf (f : BitVec 64 → BitVec 64) (data : BitVec 128) : BitVec 128 :=
  f (data.extractLsb' 64 64) ++ f (data.extractLsb' 0 64)

def banoCipherEnc (cipher : BanoCipher) (data : BitVec 128) : Int × BitVec 128 :=
  match cipher.alg with
  | .none => (0,data)
  | .xtea => (0,eachHalf (xteaEnc cipher.key) data)
  | .aes => (-1,data)

def banoCipherDec (cipher : BanoCipher) (data : BitVec 128) : Int × BitVec 128 :=
  match cipher.alg with
  | .none => (0,data)
  | .xtea => (0,eachHalf (xteaDec cipher.key) data)
  | .aes => (-1,data)

/-- The rounds are the cycles of the library's cipher, under its sums. -/
theorem xteaEncRound_iterate (k : BitVec 128) (v : U32 × U32) (n : Nat) : (xteaEncRound k)^[n] ⟨v.1,v.2,Xtea.sum 0⟩ =
    ⟨(Feistel.encipher (Xtea.first k) (Xtea.second k) n v).1,(Feistel.encipher (Xtea.first k) (Xtea.second k) n v).2,
      Xtea.sum n⟩ := by
  induction n with
  | zero => rfl
  | succ n ih =>
    have round : ∀ w : U32 × U32, xteaEncRound k ⟨w.1,w.2,Xtea.sum n⟩ =
        ⟨(Feistel.cycle (Xtea.first k n) (Xtea.second k n) w).1,
          (Feistel.cycle (Xtea.first k n) (Xtea.second k n) w).2,Xtea.sum n + xteaDelta⟩ := by
      intro w
      simp only [Feistel.cycle,Xtea.second,Xtea.sum_succ]
      rfl
    rw [Function.iterate_succ_apply',ih,round,Xtea.sum_succ]
    rfl

theorem xteaDecRound_iterate (k : BitVec 128) (v : U32 × U32) (n : Nat) : (xteaDecRound k)^[n] ⟨v.1,v.2,Xtea.sum n⟩ =
    ⟨(Feistel.decipher (Xtea.first k) (Xtea.second k) n v).1,(Feistel.decipher (Xtea.first k) (Xtea.second k) n v).2,
      Xtea.sum 0⟩ := by
  induction n generalizing v with
  | zero => rfl
  | succ n ih =>
    have back : Xtea.sum (n + 1) - xteaDelta = Xtea.sum n := by
      rw [Xtea.sum_succ]
      exact BitVec.add_sub_cancel _ _
    have round : xteaDecRound k ⟨v.1,v.2,Xtea.sum (n + 1)⟩ =
        ⟨(Feistel.uncycle (Xtea.first k n) (Xtea.second k n) v).1,
          (Feistel.uncycle (Xtea.first k n) (Xtea.second k n) v).2,Xtea.sum n⟩ := by
      simp only [xteaDecRound,back]
      rfl
    rw [Function.iterate_succ_apply,round,ih]
    rfl

theorem xteaEnc_eq (k : BitVec 128) (v : BitVec 64) : xteaEnc k v = Xtea.enc k v := by
  have rounds := xteaEncRound_iterate k (v.extractLsb' 0 32,v.extractLsb' 32 32) 32
  have start : Xtea.sum 0 = 0 := by decide
  simp only [start] at rounds
  simp only [xteaEnc,rounds,Xtea.enc,Xtea.cycles,Xtea.block,Xtea.words]

theorem xteaDec_eq (k : BitVec 128) (v : BitVec 64) : xteaDec k v = Xtea.dec k v := by
  have rounds := xteaDecRound_iterate k (v.extractLsb' 0 32,v.extractLsb' 32 32) 32
  have last : Xtea.sum 32 = 0xC6EF3720 := by decide
  simp only [last] at rounds
  simp only [xteaDec,rounds,Xtea.dec,Xtea.cycles,Xtea.block,Xtea.words]

theorem xteaDec_enc (k : BitVec 128) (v : BitVec 64) : xteaDec k (xteaEnc k v) = v := by
  rw [xteaDec_eq,xteaEnc_eq,Xtea.dec_enc]

theorem xteaEnc_dec (k : BitVec 128) (v : BitVec 64) : xteaEnc k (xteaDec k v) = v := by
  rw [xteaDec_eq,xteaEnc_eq,Xtea.enc_dec]

theorem eachHalf_inverse {f g : BitVec 64 → BitVec 64} (inverse : ∀ v, g (f v) = v) (data : BitVec 128) :
    eachHalf g (eachHalf f data) = data := by
  have low : (eachHalf f data).extractLsb' 0 64 = f (data.extractLsb' 0 64) := by
    apply BitVec.eq_of_getLsbD_eq
    intro i bound
    simp only [eachHalf,BitVec.getLsbD_extractLsb',BitVec.getLsbD_append]
    grind
  have high : (eachHalf f data).extractLsb' 64 64 = f (data.extractLsb' 64 64) := by
    apply BitVec.eq_of_getLsbD_eq
    intro i bound
    simp only [eachHalf,BitVec.getLsbD_extractLsb',BitVec.getLsbD_append]
    grind
  unfold eachHalf at low high ⊢
  rw [low,high,inverse,inverse]
  apply BitVec.eq_of_getLsbD_eq
  intro i bound
  simp only [BitVec.getLsbD_extractLsb',BitVec.getLsbD_append]
  grind

theorem banoCipherDec_enc (cipher : BanoCipher) (data : BitVec 128) :
    (banoCipherDec cipher (banoCipherEnc cipher data).2).2 = data := by
  cases alg : cipher.alg with
  | none => simp [banoCipherDec,banoCipherEnc,alg]
  | xtea => simpa [banoCipherDec,banoCipherEnc,alg] using eachHalf_inverse (xteaDec_enc cipher.key) data
  | aes => simp [banoCipherDec,banoCipherEnc,alg]

theorem banoCipherEnc_dec (cipher : BanoCipher) (data : BitVec 128) :
    (banoCipherEnc cipher (banoCipherDec cipher data).2).2 = data := by
  cases alg : cipher.alg with
  | none => simp [banoCipherDec,banoCipherEnc,alg]
  | xtea => simpa [banoCipherDec,banoCipherEnc,alg] using eachHalf_inverse (xteaEnc_dec cipher.key) data
  | aes => simp [banoCipherDec,banoCipherEnc,alg]

/-- Under XTEA either function undoes the other, whatever the key and the block. -/
theorem xtea_inverse (key : BitVec 128) (data : BitVec 128) :
    banoCipherDec ⟨.xtea,key⟩ (banoCipherEnc ⟨.xtea,key⟩ data).2 = (0,data) ∧
    banoCipherEnc ⟨.xtea,key⟩ (banoCipherDec ⟨.xtea,key⟩ data).2 = (0,data) := by
  constructor
  · exact Prod.ext rfl (banoCipherDec_enc ⟨.xtea,key⟩ data)
  · exact Prod.ext rfl (banoCipherEnc_dec ⟨.xtea,key⟩ data)

end Bano
