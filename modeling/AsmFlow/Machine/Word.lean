import Mathlib.Data.Nat.Bitwise
import Mathlib.Tactic

/-!
# Machine words

Every counter, deadline and ceiling of the daemon is a 64-bit register or a
quad-word field. The model keeps them as `UInt64`, whose arithmetic wraps as
`inc`, `dec`, `add` and `imul` do; the two flags the code tests after an
arithmetic instruction are predicates on the operands.
-/

namespace AsmFlow

abbrev Word := UInt64

namespace Word

/-- The carry flag of `add a, b`. -/
def addCarries (a b : Word) : Bool := decide (2 ^ 64 ≤ a.toNat + b.toNat)

/-- The overflow flag of the two- and three-operand `imul`, which is signed. -/
def imulOverflows (a b : Word) : Bool :=
  let product := a.toInt64.toInt * b.toInt64.toInt
  decide (product < -2 ^ 63 ∨ 2 ^ 63 ≤ product)

theorem toNat_add_one {a : Word} (h : a.toNat + 1 < 2 ^ 64) : (a + 1).toNat = a.toNat + 1 := by
  rw [UInt64.toNat_add]
  exact Nat.mod_eq_of_lt h

theorem toNat_sub_one {a : Word} (h : 0 < a.toNat) : (a - 1).toNat = a.toNat - 1 := by
  have ha := a.toNat_lt
  rw [UInt64.toNat_sub]
  simp only [UInt64.toNat_one]
  omega

theorem toNat_pos_of_ne_zero {a : Word} (h : a ≠ 0) : 0 < a.toNat := by
  rw [Nat.pos_iff_ne_zero]
  intro h0
  exact h (UInt64.toNat_inj.mp h0)

theorem eq_zero_of_toNat_eq_zero {a : Word} (h : a.toNat = 0) : a = 0 :=
  UInt64.toNat_inj.mp h

theorem toNat_bit {i : ℕ} (hi : i < 64) : ((1 : Word) <<< UInt64.ofNat i).toNat = 2 ^ i := by
  have hsize : i < UInt64.size := lt_trans hi (by decide)
  have hlt : 2 ^ i < 2 ^ 64 := Nat.pow_lt_pow_right (by decide) hi
  rw [UInt64.toNat_shiftLeft, UInt64.toNat_ofNat_of_lt' hsize, UInt64.toNat_one,
    Nat.mod_eq_of_lt hi, Nat.shiftLeft_eq, one_mul, Nat.mod_eq_of_lt hlt]

/-- Testing a word against a shifted one reads a bit. -/
theorem and_bit_ne_zero_iff (m : Word) (i : ℕ) (hi : i < 64) :
    m &&& ((1 : Word) <<< UInt64.ofNat i) ≠ 0 ↔ m.toNat.testBit i = true := by
  rw [ne_eq, ← UInt64.toNat_inj, UInt64.toNat_and, toNat_bit hi, UInt64.toNat_zero,
    Nat.and_two_pow]
  cases m.toNat.testBit i <;> simp

/-- A mask covers another when every bit of that one is set in it. -/
theorem and_eq_right_iff (m n : Word) :
    m &&& n = n ↔ ∀ i < 64, n.toNat.testBit i = true → m.toNat.testBit i = true := by
  rw [← UInt64.toNat_inj, UInt64.toNat_and]
  constructor
  · intro h i _ hi
    have hbit : (m.toNat &&& n.toNat).testBit i = true := by rw [h, hi]
    rw [Nat.testBit_and, Bool.and_eq_true] at hbit
    exact hbit.1
  · intro h
    apply Nat.eq_of_testBit_eq
    intro i
    rw [Nat.testBit_and]
    cases hn : n.toNat.testBit i with
    | false => simp
    | true =>
      have hi : i < 64 := by
        by_contra hge
        have hle : 2 ^ 64 ≤ 2 ^ i := Nat.pow_le_pow_right (by decide) (not_lt.mp hge)
        have hsmall : n.toNat < 2 ^ i := lt_of_lt_of_le n.toNat_lt hle
        rw [Nat.testBit_lt_two_pow hsmall] at hn
        simp at hn
      simp [h i hi hn]

end Word
end AsmFlow
