import AsmFlow.Routing.Health

/-!
# The latency average between its inputs

`af_health_ewma` tests its products with the flag of a signed multiplication, on words that
count microseconds. Where three times the average before passes that test though it has
wrapped, the sum is far below both inputs or between them.
-/

namespace AsmFlow.Routing

/-- An observation of at least a microsecond. -/
def clamped (observedUs : Word) : ℕ := max observedUs.toNat 1

/-- The new average lies between the old one and the observation, and is known. -/
def Averages (oldUs observedUs : Word) : Prop :=
  min oldUs.toNat (clamped observedUs) ≤ (healthEwma oldUs observedUs).toNat ∧
    (healthEwma oldUs observedUs).toNat ≤ max oldUs.toNat (clamped observedUs) ∧
    healthEwma oldUs observedUs ≠ latencyUnknown

/-- How far below the first power that no word reaches. -/
def fromTop (us : Word) : ℕ := 2 ^ 64 - us.toNat

/-- Three times the old average has lost a multiple of the word size that the overflow flag does
not report; what it lost exceeds the observation, so the sum does not carry either; and the
observation is more than a third of what is left. -/
def Undercounted (oldUs observedUs : Word) : Prop :=
  3 * fromTop oldUs ≤ 2 ^ 63 ∧ clamped observedUs < 3 * fromTop oldUs ∧
    2 ^ 64 < 3 * (fromTop oldUs + clamped observedUs)

instance (oldUs observedUs : Word) : Decidable (Undercounted oldUs observedUs) :=
  inferInstanceAs (Decidable (_ ∧ _))

/-! ## The flags -/

theorem toInt_word (us : Word) :
    us.toInt64.toInt = if us.toNat < 2 ^ 63 then (us.toNat : ℤ) else us.toNat - 2 ^ 64 := by
  have hcond : us.toInt64.toInt = us.toBitVec.toInt := rfl
  rw [hcond, BitVec.toInt_eq_toNat_cond]
  have hnat : us.toBitVec.toNat = us.toNat := rfl
  rw [hnat]
  by_cases h : us.toNat < 2 ^ 63
  · rw [if_pos h, if_pos (by omega)]
  · rw [if_neg h, if_neg (by omega)]
    rfl

/-- Multiplying by one overflows nowhere. -/
theorem imulOverflows_num (us : Word) : Word.imulOverflows us ewmaAlphaNum = false := by
  have hone : ewmaAlphaNum.toInt64.toInt = 1 := rfl
  have hus := us.toNat_lt
  unfold Word.imulOverflows
  dsimp only
  rw [hone, toInt_word, decide_eq_false_iff_not]
  split_ifs <;> omega

/-- Multiplying by three passes for the lower third of the positive words and of the negative. -/
theorem imulOverflows_rest (us : Word) :
    Word.imulOverflows us (ewmaAlphaDen - ewmaAlphaNum) = false ↔
      3 * us.toNat < 2 ^ 63 ∨ 3 * fromTop us ≤ 2 ^ 63 := by
  have hthree : (ewmaAlphaDen - ewmaAlphaNum).toInt64.toInt = 3 := rfl
  have hus := us.toNat_lt
  unfold Word.imulOverflows fromTop
  dsimp only
  rw [hthree, toInt_word, decide_eq_false_iff_not]
  split_ifs <;> omega

theorem clamped_toNat (observedUs : Word) :
    (if observedUs = 0 then 1 else observedUs).toNat = clamped observedUs := by
  unfold clamped
  by_cases h : observedUs = 0
  · rw [if_pos h, h]
    rfl
  · have hpos := Word.toNat_pos_of_ne_zero h
    rw [if_neg h]
    omega

theorem clamped_lt (observedUs : Word) : clamped observedUs < 2 ^ 64 := by
  have hlt := observedUs.toNat_lt
  unfold clamped
  omega

/-! ## The value -/

/-- The average as a number: the observation where a flag is set, and otherwise a quarter of the
observation and what is left of three times the old average. -/
theorem healthEwma_toNat {oldUs : Word} (observedUs : Word) (hold : oldUs ≠ 0) :
    (healthEwma oldUs observedUs).toNat =
      if (3 * oldUs.toNat < 2 ^ 63 ∨ 3 * fromTop oldUs ≤ 2 ^ 63) ∧
          clamped observedUs + 3 * oldUs.toNat % 2 ^ 64 < 2 ^ 64 then
        max ((clamped observedUs + 3 * oldUs.toNat % 2 ^ 64) / 4) 1
      else clamped observedUs := by
  have hobs := clamped_toNat observedUs
  have hlt := clamped_lt observedUs
  unfold healthEwma
  generalize hob : (if observedUs = 0 then (1 : Word) else observedUs) = observed at hobs ⊢
  dsimp only
  rw [if_neg hold, imulOverflows_num, if_neg Bool.false_ne_true]
  have hfresh : (observed * ewmaAlphaNum).toNat = clamped observedUs := by
    rw [UInt64.toNat_mul, hobs]
    exact (congrArg (· % 2 ^ 64) (Nat.mul_one _)).trans (Nat.mod_eq_of_lt hlt)
  have hkept : (oldUs * (ewmaAlphaDen - ewmaAlphaNum)).toNat = 3 * oldUs.toNat % 2 ^ 64 := by
    rw [UInt64.toNat_mul, Nat.mul_comm]
    rfl
  cases hover : Word.imulOverflows oldUs (ewmaAlphaDen - ewmaAlphaNum) with
  | true =>
    have hnone := mt (imulOverflows_rest oldUs).mpr (by rw [hover]; decide)
    rw [if_pos rfl, if_neg (fun h => hnone h.1), hobs]
  | false =>
    have hpass := (imulOverflows_rest oldUs).mp hover
    rw [if_neg Bool.false_ne_true]
    have hadd : Word.addCarries (observed * ewmaAlphaNum) (oldUs * (ewmaAlphaDen - ewmaAlphaNum)) =
        decide (2 ^ 64 ≤ clamped observedUs + 3 * oldUs.toNat % 2 ^ 64) := by
      unfold Word.addCarries
      rw [hfresh, hkept]
    rw [hadd]
    by_cases hcarry : clamped observedUs + 3 * oldUs.toNat % 2 ^ 64 < 2 ^ 64
    · rw [if_neg (by simpa only [decide_eq_true_eq, not_le] using hcarry),
        if_pos (And.intro hpass hcarry)]
      have haverage : ((observed * ewmaAlphaNum + oldUs * (ewmaAlphaDen - ewmaAlphaNum)) /
          ewmaAlphaDen).toNat = (clamped observedUs + 3 * oldUs.toNat % 2 ^ 64) / 4 := by
        rw [UInt64.toNat_div, UInt64.toNat_add, hfresh, hkept, Nat.mod_eq_of_lt hcarry]
        rfl
      by_cases hzero : (observed * ewmaAlphaNum + oldUs * (ewmaAlphaDen - ewmaAlphaNum)) /
          ewmaAlphaDen = 0
      · rw [if_pos hzero, ← haverage, hzero]
        rfl
      · rw [if_neg hzero, haverage]
        have hpos := Word.toNat_pos_of_ne_zero hzero
        omega
    · rw [if_pos (by simpa only [decide_eq_true_eq, not_lt] using hcarry),
        if_neg (fun h => hcarry h.2), hobs]

theorem healthEwma_pos {oldUs : Word} (observedUs : Word) (hold : oldUs ≠ 0) :
    0 < (healthEwma oldUs observedUs).toNat := by
  have hclamped : 0 < clamped observedUs := by
    unfold clamped
    omega
  rw [healthEwma_toNat observedUs hold]
  split_ifs
  · omega
  · exact hclamped

/-- The average lies between its inputs but where the old one is undercounted. -/
theorem healthEwma_averages_iff {oldUs : Word} (observedUs : Word) (hold : oldUs ≠ 0) :
    Averages oldUs observedUs ↔ ¬ Undercounted oldUs observedUs := by
  have hknown : healthEwma oldUs observedUs ≠ latencyUnknown := by
    intro h
    have hpos := healthEwma_pos observedUs hold
    rw [h] at hpos
    exact absurd hpos (by decide)
  have hpos := Word.toNat_pos_of_ne_zero hold
  have hlt := oldUs.toNat_lt
  have hobs := clamped_lt observedUs
  have hone : 1 ≤ clamped observedUs := le_max_right _ _
  unfold Averages Undercounted
  rw [healthEwma_toNat observedUs hold, and_iff_left hknown]
  by_cases hsmall : 3 * oldUs.toNat < 2 ^ 63
  · -- the product is exact
    have htop : ¬ 3 * fromTop oldUs ≤ 2 ^ 63 := by
      unfold fromTop
      omega
    rw [Nat.mod_eq_of_lt (by omega : 3 * oldUs.toNat < 2 ^ 64)]
    split_ifs <;> omega
  · by_cases htop : 3 * fromTop oldUs ≤ 2 ^ 63
    · -- the product has wrapped, and is far below the word size still
      have hkept : 3 * oldUs.toNat % 2 ^ 64 = 2 ^ 64 - 3 * fromTop oldUs := by
        unfold fromTop at htop ⊢
        omega
      have hold' : oldUs.toNat = 2 ^ 64 - fromTop oldUs := by
        unfold fromTop
        omega
      rw [hkept, hold']
      generalize clamped observedUs = observed at *
      generalize fromTop oldUs = top at *
      split_ifs <;> omega
    · rw [if_neg (fun h => h.1.elim hsmall htop)]
      omega

theorem healthEwma_averages_iff_small :
    (1000 : Word) ≠ 0 ∧ (Averages 1000 200 ↔ ¬ Undercounted 1000 200) :=
  ⟨by decide, healthEwma_averages_iff 200 (by decide)⟩

/-- A wrapped sum below both inputs. -/
theorem healthEwma_below :
    ¬ ∀ oldUs observedUs : Word, oldUs ≠ 0 → Averages oldUs observedUs := by
  intro h
  exact absurd (h (0 - 0x2000000000000000) 0x5FFFFFFFFFFFFFFF (by decide)).1 (by decide)

end AsmFlow.Routing
