import PulseCounter.RPiInterface
import Mathlib.Data.List.Basic

/-!
# Register words and their bits

A register word holds the level of 32 GPIO pins. `bit g w` is the level of GPIO number `g`; the
source reaches it through shifts, `1 << g` when it builds the channel mask and `1 << (g & 31)` when
it tests a pin. For the GPIO numbers `0, …, 31` both shifts give the one word with bit `g` set.
-/

namespace PulseCounter

/-- The GPIO numbers that are bit positions of a register word. -/
def GpioBit (g : Int32) : Prop := 0 ≤ g ∧ g ≤ 31

instance (g : Int32) : Decidable (GpioBit g) := inferInstanceAs (Decidable (_ ∧ _))

/-- The level of GPIO number `g` in a register word. -/
def bit (g : Int32) (w : UInt32) : Bool := w.toBitVec.getLsbD g.toNatClampNeg

/-- `1 << amount` for an `int` amount: undefined unless the amount is a bit position of the word. -/
def shiftOne (amount : Int32) : Except Fault UInt32 :=
  if GpioBit amount then .ok (1 <<< amount.toUInt32) else .error (.shift amount)

@[simp] theorem bit_zero (g : Int32) : bit g 0 = false := by
  unfold bit
  exact BitVec.getLsbD_zero

theorem bit_and (g : Int32) (v w : UInt32) : bit g (v &&& w) = (bit g v && bit g w) := by
  unfold bit
  rw [UInt32.toBitVec_and, BitVec.getLsbD_and]

theorem bit_or (g : Int32) (v w : UInt32) : bit g (v ||| w) = (bit g v || bit g w) := by
  unfold bit
  rw [UInt32.toBitVec_or, BitVec.getLsbD_or]

/-- Two words with the same 32 bits are the same. -/
theorem eq_of_bit {v w : UInt32} (h : ∀ g, GpioBit g → bit g v = bit g w) : v = w := by
  apply UInt32.toBitVec_inj.mp
  apply BitVec.eq_of_getLsbD_eq
  intro k hk
  have hpos : ∀ k < 32, GpioBit (Int32.ofNat k) ∧ (Int32.ofNat k).toNatClampNeg = k := by decide
  obtain ⟨hbit, hval⟩ := hpos k hk
  have hk' := h (Int32.ofNat k) hbit
  unfold bit at hk'
  rw [hval] at hk'
  exact hk'

namespace GpioBit

variable {g : Int32} (h : GpioBit g)

include h

/-- A bit position is the same number as an `int` and as an `unsigned int`. -/
theorem toNat : g.toNatClampNeg < 32 ∧ g.toUInt32.toNat = g.toNatClampNeg := by
  have hlow : (0 : Int32).toInt ≤ g.toBitVec.toInt := Int32.le_iff_toInt_le.mp h.1
  have hhigh : g.toBitVec.toInt ≤ (31 : Int32).toInt := Int32.le_iff_toInt_le.mp h.2
  have hzero : (0 : Int32).toInt = 0 := rfl
  have hmax : (31 : Int32).toInt = 31 := rfl
  have hunsigned : g.toUInt32.toNat = g.toBitVec.toNat := rfl
  have hclamp : g.toNatClampNeg = g.toBitVec.toInt.toNat := rfl
  have hcond := BitVec.toInt_eq_toNat_cond g.toBitVec
  have hlt := g.toBitVec.isLt
  split at hcond <;> omega

/-- The shifted one is the word with just bit `g` set. -/
theorem toBitVec_shift :
    (1 <<< g.toUInt32 : UInt32).toBitVec = BitVec.twoPow 32 g.toNatClampNeg := by
  obtain ⟨hlt, he⟩ := h.toNat
  have hmod : (g.toUInt32 % 32).toNat = g.toNatClampNeg := by
    rw [UInt32.toNat_mod, he]
    exact Nat.mod_eq_of_lt hlt
  have hamount : (g.toUInt32.toBitVec % 32).toNat = g.toNatClampNeg := hmod
  have hone : (1 : UInt32).toBitVec = 1#32 := rfl
  rw [UInt32.toBitVec_shiftLeft, BitVec.twoPow, hone, BitVec.shiftLeft_eq', hamount]

/-- Masking the amount with 31, as the pin test does, changes nothing. -/
theorem and_31 : g.toUInt32 &&& 31 = g.toUInt32 := by
  obtain ⟨hlt, he⟩ := h.toNat
  have hmask : (31 : UInt32).toNat = 2 ^ 5 - 1 := rfl
  apply UInt32.toNat_inj.mp
  rw [UInt32.toNat_and, hmask, Nat.and_two_pow_sub_one_eq_mod]
  omega

theorem shiftOne_eq : shiftOne g = .ok (1 <<< g.toUInt32) := if_pos h

/-- Bit `b` of the shifted one. -/
theorem bit_shift {b : Int32} (hb : GpioBit b) : bit b (1 <<< g.toUInt32) = decide (b = g) := by
  unfold bit
  rw [h.toBitVec_shift, BitVec.getLsbD_twoPow]
  have hinj : g.toNatClampNeg = b.toNatClampNeg ↔ b = g := by
    constructor
    · intro he
      have hval : b.toUInt32.toNat = g.toUInt32.toNat := by rw [hb.toNat.2, h.toNat.2, he]
      have hbits : b.toBitVec.toNat = g.toBitVec.toNat := hval
      exact Int32.toBitVec.inj (BitVec.eq_of_toNat_eq hbits)
    · rintro rfl
      rfl
  simp [h.toNat.1, hinj]

/-- Testing a word against the shifted one reads bit `g`. -/
theorem and_shift_eq_zero (w : UInt32) : w &&& (1 <<< g.toUInt32) = 0 ↔ bit g w = false := by
  have hlt := h.toNat.1
  unfold bit
  rw [← UInt32.toBitVec_inj, UInt32.toBitVec_and, h.toBitVec_shift, BitVec.and_twoPow]
  cases hb : w.toBitVec.getLsbD g.toNatClampNeg with
  | false => simp
  | true =>
    have hne : BitVec.twoPow 32 g.toNatClampNeg ≠ 0#32 := by
      intro h0
      have hget := congrArg (fun x => x.getLsbD g.toNatClampNeg) h0
      simp [hlt] at hget
    simpa using hne

theorem and_shift_ne_zero (w : UInt32) : w &&& (1 <<< g.toUInt32) ≠ 0 ↔ bit g w = true := by
  rw [ne_eq, h.and_shift_eq_zero, Bool.not_eq_false]

end GpioBit

end PulseCounter
