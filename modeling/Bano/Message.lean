import Bano.BanoList

/-! The 17 bytes of bano_common.h: a clear first byte holding `op` and `flags`, then 16 bytes
that may be ciphered. Integers are little-endian on the air and on both hosts. -/
namespace Bano

abbrev U16 := BitVec 16

structure BanoMsg where
  op : BitVec 2
  flags : BitVec 6
  saddr : U32
  csum : U16
  token : U32
  key : U16
  val : U32
  deriving DecidableEq

def msgOpSet : BitVec 2 := 0

def msgOpGet : BitVec 2 := 1

def msgFlagReply : BitVec 6 := 1

def msgFlagErr : BitVec 6 := 2

def msgFlagEnc : BitVec 6 := 4

def BanoMsg.has (m : BanoMsg) (flag : BitVec 6) : Bool := m.flags &&& flag ≠ 0

/-- The bytes from BANO_MSG_ENC_OFF on, the first of them lowest. -/
def BanoMsg.body (m : BanoMsg) : BitVec 128 := m.val ++ m.key ++ m.token ++ m.csum ++ m.saddr

def BanoMsg.withBody (m : BanoMsg) (b : BitVec 128) : BanoMsg where
  op := m.op
  flags := m.flags
  saddr := b.extractLsb' 0 32
  csum := b.extractLsb' 32 16
  token := b.extractLsb' 48 32
  key := b.extractLsb' 80 16
  val := b.extractLsb' 96 32

/-- The whole frame, the clear byte lowest. -/
def BanoMsg.bytes (m : BanoMsg) : BitVec 136 := m.body ++ m.flags ++ m.op

@[simp] theorem withBody_op (m : BanoMsg) (b : BitVec 128) : (m.withBody b).op = m.op := rfl

@[simp] theorem withBody_flags (m : BanoMsg) (b : BitVec 128) : (m.withBody b).flags = m.flags := rfl

@[simp] theorem withBody_has (m : BanoMsg) (b : BitVec 128) (flag : BitVec 6) :
    (m.withBody b).has flag = m.has flag := rfl

@[simp] theorem body_withBody (m : BanoMsg) (b : BitVec 128) : (m.withBody b).body = b := by
  apply BitVec.eq_of_getLsbD_eq
  intro i bound
  simp only [BanoMsg.body,BanoMsg.withBody,BitVec.getLsbD_append,BitVec.getLsbD_extractLsb']
  grind

theorem withBody_body (m other : BanoMsg) :
    other.withBody m.body = { m with op := other.op, flags := other.flags } := by
  have field : ∀ start len (x : BitVec len), (∀ i, i < len → m.body.getLsbD (start + i) = x.getLsbD i) →
      m.body.extractLsb' start len = x := by
    intro start len x same
    apply BitVec.eq_of_getLsbD_eq
    intro i bound
    rw [BitVec.getLsbD_extractLsb',same i bound]
    simp [bound]
  simp only [BanoMsg.withBody,BanoMsg.mk.injEq,true_and]
  refine ⟨?_,?_,?_,?_,?_⟩ <;>
  · apply field
    intro i bound
    simp only [BanoMsg.body,BitVec.getLsbD_append]
    grind

end Bano
