import Mathlib.Algebra.Group.Basic
import Mathlib.Data.BitVec

/-! Feistel networks that add to one half and then to the other, over any additive group, and
the cipher XTEA with 32 cycles on blocks of two little-endian words. -/
namespace Lib

namespace Feistel

section

variable {α : Type*} [AddGroup α]

/-- Each half is changed by a function of the other. -/
def cycle (f g : α → α) (v : α × α) : α × α := (v.1 + f v.2,v.2 + g (v.1 + f v.2))

def uncycle (f g : α → α) (v : α × α) : α × α := (v.1 - f (v.2 - g v.1),v.2 - g v.1)

theorem uncycle_cycle (f g : α → α) (v : α × α) : uncycle f g (cycle f g v) = v := by
  simp [cycle,uncycle]

theorem cycle_uncycle (f g : α → α) (v : α × α) : cycle f g (uncycle f g v) = v := by
  simp [cycle,uncycle]

/-- The first cycles, `f i` and `g i` being those of the i-th. -/
def encipher (f g : Nat → α → α) : Nat → α × α → α × α
  | 0, v => v
  | n + 1, v => cycle (f n) (g n) (encipher f g n v)

/-- The first cycles taken back, the last of them first. -/
def decipher (f g : Nat → α → α) : Nat → α × α → α × α
  | 0, v => v
  | n + 1, v => decipher f g n (uncycle (f n) (g n) v)

theorem decipher_encipher (f g : Nat → α → α) (n : Nat) (v : α × α) : decipher f g n (encipher f g n v) = v := by
  induction n with
  | zero => rfl
  | succ n ih => rw [decipher,encipher,uncycle_cycle,ih]

theorem encipher_decipher (f g : Nat → α → α) (n : Nat) (v : α × α) : encipher f g n (decipher f g n v) = v := by
  induction n generalizing v with
  | zero => rfl
  | succ n ih => rw [decipher,encipher,ih,cycle_uncycle]

end
end Feistel

namespace Xtea

abbrev Word := BitVec 32

def delta : Word := 0x9E3779B9

def mixed (v : Word) : Word := ((v <<< 4) ^^^ (v >>> 5)) + v

/-- The sum before the i-th cycle. -/
def sum (i : Nat) : Word := BitVec.ofNat 32 i * delta

/-- The words of a key of 16 bytes. -/
def keyWord (key : BitVec 128) (i : Nat) : Word := key.extractLsb' (32 * i) 32

def first (key : BitVec 128) (i : Nat) (v : Word) : Word := mixed v ^^^ (sum i + keyWord key (sum i &&& 3).toNat)

def second (key : BitVec 128) (i : Nat) (v : Word) : Word :=
  mixed v ^^^ (sum (i + 1) + keyWord key ((sum (i + 1) >>> 11) &&& 3).toNat)

def words (v : BitVec 64) : Word × Word := (v.extractLsb' 0 32,v.extractLsb' 32 32)

def block (v : Word × Word) : BitVec 64 := v.2 ++ v.1

def cycles : Nat := 32

def enc (key : BitVec 128) (v : BitVec 64) : BitVec 64 :=
  block (Feistel.encipher (first key) (second key) cycles (words v))

def dec (key : BitVec 128) (v : BitVec 64) : BitVec 64 :=
  block (Feistel.decipher (first key) (second key) cycles (words v))

theorem sum_succ (i : Nat) : sum (i + 1) = sum i + delta := by
  rw [sum,sum,BitVec.ofNat_add,BitVec.add_mul]
  simp

theorem words_block (v : Word × Word) : words (block v) = v := by
  obtain ⟨low,high⟩ := v
  simp only [words,block,Prod.mk.injEq]
  constructor <;>
  · apply BitVec.eq_of_getLsbD_eq
    intro i bound
    simp only [BitVec.getLsbD_extractLsb',BitVec.getLsbD_append]
    grind

theorem block_words (v : BitVec 64) : block (words v) = v := by
  apply BitVec.eq_of_getLsbD_eq
  intro i bound
  simp only [words,block,BitVec.getLsbD_extractLsb',BitVec.getLsbD_append]
  grind

theorem dec_enc (key : BitVec 128) (v : BitVec 64) : dec key (enc key v) = v := by
  rw [dec,enc,words_block,Feistel.decipher_encipher,block_words]

theorem enc_dec (key : BitVec 128) (v : BitVec 64) : enc key (dec key v) = v := by
  rw [dec,enc,words_block,Feistel.encipher_decipher,block_words]

end Xtea
end Lib
