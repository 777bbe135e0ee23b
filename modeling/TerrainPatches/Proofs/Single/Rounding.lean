import TerrainPatches.Proofs.Single.Parts

/-!
# Rounding respects order

An exact result is rounded to a number that is written with twenty-four bits.  Rounding respects
the order to the numbers that can be written (`RoundsTo`): what is not above the exact result is not
above the rounded one, and what is not below is not below.  So a result that can be written is not
changed (`RoundsTo.eq`).  That it is also rounded to the nearest is used only where a result just
above a number must not be rounded down to it (`RoundsUp`).

On its way a result is kept as a mantissa with two bits that say whether anything is left over
(`Near`), and whether it is more than a half (`Marked`); this survives every shift
(`Near.shiftRightOne`, `Marked.shiftRight`), and rounding the mantissa respects the order to whole
mantissas (`Near.rounded`).
-/

namespace TerrainPatches

open Float.Model Float.Model.UnpackedFloat

/-! ## mantissas and exponents -/

/-- what a mantissa and an exponent stand for -/
def amount (m : Nat) (e : ℤ) : ℚ := m * 2 ^ e

section
variable {m m' : Nat} {e e' : ℤ}

theorem amount_zero (e : ℤ) : amount 0 e = 0 := by rw [amount, Nat.cast_zero, zero_mul]

theorem amount_nonneg (m : Nat) (e : ℤ) : 0 ≤ amount m e := by
  unfold amount
  positivity

theorem amount_pos (h : 0 < m) (e : ℤ) : 0 < amount m e := by
  unfold amount
  have : (0 : ℚ) < m := by exact_mod_cast h
  positivity

theorem amount_le_iff : amount m e ≤ amount m' e ↔ m ≤ m' := by
  unfold amount
  rw [mul_le_mul_iff_left₀ (by positivity), Nat.cast_le]

theorem amount_lt_iff : amount m e < amount m' e ↔ m < m' := by
  unfold amount
  rw [mul_lt_mul_iff_left₀ (by positivity), Nat.cast_lt]

theorem amount_add (m : Nat) (e : ℤ) (k : Nat) : amount m (e + k) = amount (m * 2 ^ k) e := by
  unfold amount
  rw [zpow_add₀ (by norm_num), zpow_natCast]
  push_cast
  ring

theorem amount_of_le (h : e ≤ e') (m : Nat) : ∃ n, amount m e' = amount n e := by
  refine ⟨m * 2 ^ (e' - e).toNat, ?_⟩
  rw [← amount_add, Int.toNat_of_nonneg (by omega), add_sub_cancel]

/-- a mantissa with all its bits outweighs every mantissa with a lesser exponent, and the one that
follows it -/
theorem amount_le_of_lt (hm : m ≤ 2 ^ 24) (hm' : 2 ^ 23 ≤ m') (h : e < e') :
    amount m e ≤ amount m' e' := by
  obtain ⟨k, rfl⟩ : ∃ k : Nat, e' = e + k := ⟨(e' - e).toNat, by omega⟩
  rw [amount_add, amount_le_iff]
  have hk : 2 ^ 1 ≤ 2 ^ k := Nat.pow_le_pow_right (by norm_num) (by omega)
  calc m ≤ 2 ^ 23 * 2 ^ 1 := hm
    _ ≤ m' * 2 ^ k := Nat.mul_le_mul hm' hk

theorem amount_lt_of_lt (hm : m < 2 ^ 24) (hm' : 2 ^ 23 ≤ m') (h : e < e') :
    amount m e < amount m' e' :=
  (amount_lt_iff.mpr (Nat.lt_succ_self m)).trans_le (amount_le_of_lt hm hm' h)

end

/-! ## what can be written -/

/-- can be written with twenty-four bits, however large -/
def Writable (c : ℚ) : Prop := c = 0 ∨ ∃ m e, Written m e ∧ c = amount m e

/-- twenty-four bits suffice, also if there are fewer -/
theorem writable_of_lt {n : Nat} (hn : n < 2 ^ 24) (k : Nat) : Writable (amount n (-149 + k)) := by
  by_cases h0 : n = 0
  · exact .inl (by rw [h0, amount_zero])
  · induction k generalizing n with
    | zero => exact .inr ⟨n, -149, ⟨Nat.pos_of_ne_zero h0, hn, le_rfl, .inr rfl⟩, rfl⟩
    | succ k ih =>
      by_cases hfull : 2 ^ 23 ≤ n
      · exact .inr ⟨n, _, ⟨Nat.pos_of_ne_zero h0, hn, by omega, .inl hfull⟩, rfl⟩
      -- with a bit to spare, the exponent can be lowered
      · rw [Nat.cast_succ, ← add_assoc, ← Nat.cast_one, amount_add]
        exact ih (by omega) (by omega)

theorem writable_of_le {n : Nat} {e : ℤ} (hn : n ≤ 2 ^ 24) (he : -149 ≤ e) :
    Writable (amount n e) := by
  obtain ⟨k, rfl⟩ : ∃ k : Nat, e = -149 + k := ⟨(e + 149).toNat, by omega⟩
  rcases hn.lt_or_eq with hn | rfl
  · exact writable_of_lt hn k
  · have carried : amount (2 ^ 24) (-149 + k) = amount (2 ^ 23) (-149 + (k + 1 : Nat)) := by
      rw [Nat.cast_succ, ← add_assoc]
      exact (amount_add (2 ^ 23) _ 1).symm
    rw [carried]
    exact writable_of_lt (by norm_num) (k + 1)

theorem amount_one (j : Nat) : amount 1 j = 2 ^ j := by
  rw [amount, Nat.cast_one, one_mul, zpow_natCast]

theorem writable_two_pow (j : Nat) : Writable (2 ^ j) := by
  rw [← amount_one]
  exact writable_of_le (by norm_num) (by omega)

theorem Writable.two_mul {c : ℚ} (h : Writable c) : Writable (2 * c) := by
  rcases h with rfl | ⟨m, e, hw, rfl⟩
  · exact .inl (mul_zero 2)
  · have hdouble : 2 * amount m e = amount m (e + 1) := by
      unfold amount
      rw [zpow_add_one₀ (by norm_num)]
      ring
    rw [hdouble]
    have := hw.least
    exact writable_of_le hw.lt.le (by omega)

theorem Writable.two_pow_mul {c : ℚ} (h : Writable c) (j : Nat) : Writable (2 ^ j * c) := by
  induction j with
  | zero => rwa [pow_zero, one_mul]
  | succ j ih =>
    rw [pow_succ', mul_assoc]
    exact ih.two_mul

/-- numbers that can be written keep a distance of more than the last of twenty-four bits -/
theorem Writable.gap {c d : ℚ} (hc : Writable c) (hd : Writable d) (h : c < d) :
    c * (1 + 1 / 2 ^ 24) < d := by
  have step {m : Nat} {e : ℤ} (hm : m < 2 ^ 24) :
      amount m e * (1 + 1 / 2 ^ 24) < amount (m + 1) e := by
    have small : (m : ℚ) < 2 ^ 24 := by exact_mod_cast hm
    have next : (m : ℚ) * (1 + 1 / 2 ^ 24) < (m + 1 : Nat) := by
      push_cast
      linarith
    unfold amount
    rw [mul_right_comm]
    exact mul_lt_mul_of_pos_right next (by positivity)
  rcases hc with rfl | ⟨m, e, hw, rfl⟩
  · rwa [zero_mul]
  · rcases hd with rfl | ⟨m', e', hw', rfl⟩
    · exact absurd h (amount_nonneg m e).not_gt
    -- both are taken to the lesser exponent, where the mantissa of the lesser number is short
    · by_cases he : e ≤ e'
      · obtain ⟨n, hn⟩ := amount_of_le he m'
        rw [hn] at h ⊢
        exact (step hw.lt).trans_le (amount_le_iff.mpr (amount_lt_iff.mp h))
      · obtain ⟨n, hn⟩ := amount_of_le (not_le.mp he).le m
        rw [hn] at h ⊢
        have hlt := amount_lt_iff.mp h
        exact (step (hlt.trans hw'.lt)).trans_le (amount_le_iff.mpr hlt)

/-! ## order -/

/-- `v` respects the order of `q` to all that can be written -/
def RoundsTo (q v : ℚ) : Prop := ∀ c, Writable c → (c ≤ q → c ≤ v) ∧ (q ≤ c → v ≤ c)

theorem RoundsTo.refl (q : ℚ) : RoundsTo q q := fun _ _ => ⟨id, id⟩

/-- **What can be written is not changed by rounding.** -/
theorem RoundsTo.eq {q v : ℚ} (h : RoundsTo q v) (hq : Writable q) : v = q :=
  le_antisymm ((h q hq).2 le_rfl) ((h q hq).1 le_rfl)

/-- `v` is not below the number that follows another one if `q` is more than halfway to it -/
def RoundsUp (q v : ℚ) : Prop :=
  ∀ m e, Written m e → amount (2 * m + 1) (e - 1) < q → amount (m + 1) e ≤ v

/-- `v` is what `q` is rounded to -/
structure Rounds (q v : ℚ) : Prop where
  order : RoundsTo q v
  up : RoundsUp q v

theorem rounds_zero : Rounds 0 0 := by
  refine ⟨.refl 0, ?_⟩
  intro m e _ h
  exact absurd h (amount_nonneg _ _).not_gt

theorem amount_half (m : Nat) (e : ℤ) : amount (2 * m) (e - 1) = amount m e := by
  have h := amount_add m (e - 1) 1
  rw [Nat.cast_one, sub_add_cancel, pow_one, Nat.mul_comm] at h
  exact h.symm

theorem amount_lt_half (m : Nat) (e : ℤ) : amount m e < amount (2 * m + 1) (e - 1) := by
  rw [← amount_half]
  exact amount_lt_iff.mpr (Nat.lt_succ_self _)

/-- what is a little above a power of two is not rounded down to it -/
theorem Rounds.lt_two_pow {q v : ℚ} (h : Rounds q v) {j : Nat}
    (hq : 2 ^ j * (1 + 1 / 2 ^ 24) < q) : 2 ^ j < v := by
  have power : (2 : ℚ) ^ j = amount (2 ^ 23) ((j : ℤ) - 23) := by
    rw [← amount_one, show (j : ℤ) = (j : ℤ) - 23 + (23 : Nat) by omega, amount_add, one_mul]
    norm_num
  have halfway : amount (2 * 2 ^ 23 + 1) ((j : ℤ) - 23 - 1) = 2 ^ j * (1 + 1 / 2 ^ 24) := by
    have split : amount (2 * 2 ^ 23 + 1) ((j : ℤ) - 23 - 1)
        = amount (2 * 2 ^ 23) ((j : ℤ) - 23 - 1) * (1 + 1 / 2 ^ 24) := by
      unfold amount
      norm_num
      ring
    rw [split, amount_half, ← power]
  have written : Written (2 ^ 23) ((j : ℤ) - 23) :=
    ⟨by norm_num, by norm_num, by omega, .inl le_rfl⟩
  have next := h.up _ _ written (halfway.trans_lt hq)
  rw [power]
  exact (amount_lt_iff.mpr (Nat.lt_succ_self _)).trans_le next

/-! ## mantissas with what is left over -/

/-- `q` begins with the mantissa, and is equal to it only if the two bits say so -/
structure Near (q : ℚ) (em : ExtendedMantissa) (e : ℤ) : Prop where
  lower : amount em.mantissa e ≤ q
  upper : q < amount (em.mantissa + 1) e
  nothing : q = amount em.mantissa e → em.roundBit = false ∧ em.stickyBit = false

section
variable {q : ℚ} {em : ExtendedMantissa} {e : ℤ}

theorem Near.shiftRightOne (h : Near q em e) : Near q em.shiftRightOne (e + 1) := by
  have next (m : Nat) : amount m (e + 1) = amount (m * 2) e := amount_add m e 1
  refine ⟨?_, ?_, ?_⟩
  · show amount (em.mantissa / 2) (e + 1) ≤ q
    rw [next]
    exact (amount_le_iff.mpr (by omega)).trans h.lower
  · show q < amount (em.mantissa / 2 + 1) (e + 1)
    rw [next]
    exact h.upper.trans_le (amount_le_iff.mpr (by omega))
  · intro hq
    replace hq : q = amount (em.mantissa / 2 * 2) e := hq.trans (next _)
    have heven : em.mantissa = em.mantissa / 2 * 2 := by
      have := amount_le_iff.mp (h.lower.trans_eq hq)
      omega
    rw [← heven] at hq
    obtain ⟨hround, hsticky⟩ := h.nothing hq
    have hmod : em.mantissa % 2 = 0 := by omega
    exact ⟨by simp [ExtendedMantissa.shiftRightOne, hmod],
      by simp [ExtendedMantissa.shiftRightOne, hround, hsticky]⟩

theorem mantissa_shiftRight (em : ExtendedMantissa) (k : Nat) :
    (em >>> k).mantissa = em.mantissa / 2 ^ k := by
  induction k with
  | zero => exact (Nat.div_one _).symm
  | succ k ih =>
    show (em >>> k).mantissa / 2 = _
    rw [ih, Nat.div_div_eq_div_mul, Nat.pow_succ]

theorem mantissa_ofMantissaAndAccuracy (m : Nat) (accuracy : Accuracy) :
    (ExtendedMantissa.ofMantissaAndAccuracy m accuracy).mantissa = m := by
  cases accuracy with
  | exact => rfl
  | inexact o => cases o <;> rfl

theorem roundedMantissa_bounds (em : ExtendedMantissa) :
    em.mantissa ≤ em.roundedMantissa ∧ em.roundedMantissa ≤ em.mantissa + 1 := by
  obtain ⟨m, round, sticky⟩ := em
  have hmod : m % 2 < 2 := Nat.mod_lt _ (by decide)
  cases round <;> cases sticky <;>
    simp only [ExtendedMantissa.roundedMantissa, ExtendedMantissa.accuracy,
      Accuracy.roundToNearestEven] <;> omega

theorem roundedMantissa_of_nothing (hround : em.roundBit = false) (hsticky : em.stickyBit = false) :
    em.roundedMantissa = em.mantissa := by
  obtain ⟨m, round, sticky⟩ := em
  cases hround
  cases hsticky
  rfl

/-- rounding a mantissa respects the order to whole mantissas -/
theorem Near.rounded (h : Near q em e) (n : Nat) :
    (amount n e ≤ q → n ≤ em.roundedMantissa) ∧ (q ≤ amount n e → em.roundedMantissa ≤ n) := by
  obtain ⟨hle, hge⟩ := roundedMantissa_bounds em
  constructor
  · intro hn
    have := amount_lt_iff.mp (hn.trans_lt h.upper)
    omega
  · intro hn
    have hm := amount_le_iff.mp (h.lower.trans hn)
    by_cases hq : q = amount em.mantissa e
    · obtain ⟨hround, hsticky⟩ := h.nothing hq
      rw [roundedMantissa_of_nothing hround hsticky]
      exact hm
    · have hlt := (lt_of_le_of_ne h.lower (Ne.symm hq)).trans_le hn
      have := amount_lt_iff.mp hlt
      omega

theorem roundedMantissa_of_both (hround : em.roundBit = true) (hsticky : em.stickyBit = true) :
    em.roundedMantissa = em.mantissa + 1 := by
  obtain ⟨m, round, sticky⟩ := em
  cases hround
  cases hsticky
  rfl

/-- **Rounding a mantissa with enough bits respects order.** -/
theorem Near.roundsTo (h : Near q em e) (full : 2 ^ 23 ≤ em.mantissa ∨ e = -149) :
    RoundsTo q (amount em.roundedMantissa e) := by
  intro c hc
  rcases hc with rfl | ⟨m', e', hw, rfl⟩
  · have hzero := (h.rounded 0).2
    rw [amount_zero] at hzero
    refine ⟨fun _ => amount_nonneg _ _, fun hq => ?_⟩
    rw [Nat.le_zero.mp (hzero hq), amount_zero]
  · by_cases he : e ≤ e'
    · obtain ⟨n, hn⟩ := amount_of_le he m'
      rw [hn, amount_le_iff, amount_le_iff]
      exact h.rounded n
    -- a lesser exponent than that of the mantissa lies below all of its numbers
    · have hfull : 2 ^ 23 ≤ em.mantissa := by
        refine full.resolve_right ?_
        have := hw.least
        omega
      have hlt := amount_lt_of_lt hw.lt hfull (not_le.mp he)
      refine ⟨fun _ => hlt.le.trans (amount_le_iff.mpr (roundedMantissa_bounds em).1), ?_⟩
      intro hq
      exact absurd (hlt.trans_le (h.lower.trans hq)) (lt_irrefl _)

/-- nothing is left over if the two bits say so, and both are set if it is more than a half -/
structure Marked (q : ℚ) (em : ExtendedMantissa) (e : ℤ) : Prop extends Near q em e where
  exact : em.roundBit = false → em.stickyBit = false → q = amount em.mantissa e
  half : amount (2 * em.mantissa + 1) (e - 1) < q → em.roundBit = true ∧ em.stickyBit = true

theorem Marked.shiftRightOne (h : Marked q em e) : Marked q em.shiftRightOne (e + 1) := by
  have next (m : Nat) : amount m (e + 1) = amount (m * 2) e := amount_add m e 1
  refine ⟨h.toNear.shiftRightOne, ?_, ?_⟩
  · intro hround hsticky
    have heven : em.mantissa % 2 = 0 := by simpa [ExtendedMantissa.shiftRightOne] using hround
    obtain ⟨hround, hsticky⟩ := Bool.or_eq_false_iff.mp hsticky
    show q = amount (em.mantissa / 2) (e + 1)
    rw [next, Nat.div_mul_cancel (Nat.dvd_of_mod_eq_zero heven)]
    exact h.exact hround hsticky
  · intro hq
    replace hq : amount (2 * (em.mantissa / 2) + 1) e < q := by
      rwa [add_sub_cancel_right] at hq
    -- more than a half is left over only if the bit that goes was set, and was not all
    have hodd : em.mantissa % 2 = 1 := by
      have := amount_lt_iff.mp (hq.trans h.upper)
      omega
    have hmantissa : 2 * (em.mantissa / 2) + 1 = em.mantissa := by omega
    rw [hmantissa] at hq
    have hsticky : (em.roundBit || em.stickyBit) = true := by
      by_contra hnone
      obtain ⟨hround, hsticky⟩ := Bool.or_eq_false_iff.mp (Bool.not_eq_true _ ▸ hnone)
      exact absurd (h.exact hround hsticky) hq.ne'
    exact ⟨by simp [ExtendedMantissa.shiftRightOne, hodd], hsticky⟩

theorem Marked.shiftRight (h : Marked q em e) (k : Nat) : Marked q (em >>> k) (e + k) := by
  induction k with
  | zero =>
    rw [Nat.cast_zero, add_zero]
    exact h
  | succ k ih =>
    rw [Nat.cast_succ, ← add_assoc]
    exact ih.shiftRightOne

/-- what is more than halfway from a whole mantissa to the next is rounded up -/
theorem Marked.rounded_up (h : Marked q em e) {n : Nat} (hn : amount (2 * n + 1) (e - 1) < q) :
    n + 1 ≤ em.roundedMantissa := by
  have hle := amount_lt_iff.mp ((amount_lt_half n e).trans (hn.trans h.upper))
  by_cases hm : n = em.mantissa
  · subst hm
    obtain ⟨hround, hsticky⟩ := h.half hn
    exact (roundedMantissa_of_both hround hsticky).ge
  · have := (roundedMantissa_bounds em).1
    omega

/-- **Rounding a mantissa with twenty-four bits goes to the nearest.** -/
theorem Marked.rounds (h : Marked q em e) (lt : em.mantissa < 2 ^ 24)
    (full : 2 ^ 23 ≤ em.mantissa ∨ e = -149) (least : -149 ≤ e) :
    Rounds q (amount em.roundedMantissa e) := by
  refine ⟨h.toNear.roundsTo full, ?_⟩
  intro m e' hw hq
  rcases lt_trichotomy e' e with he | rfl | he
  -- a number with a lesser exponent lies below the mantissa, and so does the one that follows it
  · have hfull : 2 ^ 23 ≤ em.mantissa := full.resolve_right (by have := hw.least; omega)
    exact (amount_le_of_lt hw.lt hfull he).trans
      (amount_le_iff.mpr (roundedMantissa_bounds em).1)
  · exact amount_le_iff.mpr (h.rounded_up hq)
  -- and one with a greater exponent does not
  · have hfull : 2 ^ 23 ≤ m := hw.full.resolve_right (by omega)
    have above := h.upper.trans_le (amount_le_of_lt lt hfull he)
    exact absurd ((amount_lt_half m e').trans hq) above.not_gt

end

/-! ## the exponent that is aimed at -/

/-- the exponent with which a mantissa has twenty-four bits, if it is not below the least -/
def target (m : Nat) (e : ℤ) : ℤ := max (m.log2 + 1 + e - 24) (-149)

section
variable {m : Nat} {e : ℤ}

theorem least_le_target (m : Nat) (e : ℤ) : -149 ≤ target m e := le_max_right _ _

theorem shiftToTargetExponent_eq (accuracy : Accuracy) (h : e ≤ target m e) :
    shiftToTargetExponent .binary32 m e accuracy
      = (ExtendedMantissa.ofMantissaAndAccuracy m accuracy >>> (target m e - e).toNat,
          target m e) := by
  show (_, e + ((target m e - e).toNat : ℤ)) = _
  rw [Int.toNat_of_nonneg (by omega), add_sub_cancel]
  rfl

/-- shifted to the exponent that is aimed at, a mantissa has no more than twenty-four bits -/
theorem shifted_lt {k : Nat} (h : e + k = target m e) : m / 2 ^ k < 2 ^ 24 := by
  refine (Nat.div_lt_iff_lt_mul (by positivity)).mpr ?_
  have hk : m.log2 + 1 ≤ 24 + k := by
    have := le_max_left ((m.log2 : ℤ) + 1 + e - 24) (-149)
    unfold target at h
    omega
  calc m < 2 ^ (m.log2 + 1) := Nat.lt_log2_self
    _ ≤ 2 ^ (24 + k) := Nat.pow_le_pow_right (by norm_num) hk
    _ = 2 ^ 24 * 2 ^ k := pow_add _ _ _

/-- and no fewer, unless its exponent is the least -/
theorem shifted_full {k : Nat} (h : e + k = target m e) :
    2 ^ 23 ≤ m / 2 ^ k ∨ target m e = -149 := by
  by_cases hleast : target m e = -149
  · exact .inr hleast
  · have hk : (m.log2 : ℤ) + 1 + e - 24 = target m e := by
      unfold target at hleast ⊢
      omega
    have hm : m ≠ 0 := by
      rintro rfl
      simp only [Nat.log2_zero] at hk
      omega
    refine .inl ((Nat.le_div_iff_mul_le (by positivity)).mpr ?_)
    calc 2 ^ 23 * 2 ^ k = 2 ^ (23 + k) := (pow_add _ _ _).symm
      _ = 2 ^ m.log2 := by congr 1; omega
      _ ≤ m := Nat.log2_self_le hm

end

/-! ## rounding -/

/-- the sign, and the amount as it is written -/
def Stands (s : Sign) (v : ℚ) (u : UnpackedFloat) : Prop :=
  (v = 0 ∧ u = .zero s) ∨ ∃ m e h, Written m e ∧ v = amount m e ∧ u = .finite s m e h

/-- a mantissa of at most twenty-four bits is at the exponent that is aimed at -/
theorem target_of_lt {r : Nat} {t : ℤ} (least : -149 ≤ t) (hr : r < 2 ^ 24)
    (full : 2 ^ 23 ≤ r ∨ t = -149) : target r t = t := by
  have upper : r.log2 ≤ 23 := by
    by_cases h0 : r = 0
    · rw [h0]
      exact Nat.zero_le _
    · exact Nat.le_of_lt_succ ((Nat.log2_lt h0).mpr hr)
  unfold target
  cases full with
  | inl full =>
    have lower : 23 ≤ r.log2 := (Nat.le_log2 (by omega)).mpr full
    omega
  | inr full => omega

theorem target_carried {t : ℤ} (least : -149 ≤ t) : target (2 ^ 24) t = t + 1 := by
  unfold target
  rw [Nat.log2_two_pow]
  omega

/-- a rounded mantissa is shifted once more if it has been carried to a twenty-fifth bit -/
theorem stands_carried {s : Sign} {r : Nat} {t : ℤ} (least : -149 ≤ t) (hr : r ≤ 2 ^ 24)
    (full : 2 ^ 23 ≤ r ∨ t = -149) :
    Stands s (amount r t) (
      if h : (shiftToTargetExponent .binary32 r t .exact).1.mantissa = 0 then .zero s
      else .finite s _ (shiftToTargetExponent .binary32 r t .exact).2 (Nat.pos_of_ne_zero h)) := by
  rcases hr.lt_or_eq with hr | rfl
  · have ht := target_of_lt least hr full
    have shifted : shiftToTargetExponent .binary32 r t .exact = (⟨r, false, false⟩, t) := by
      rw [shiftToTargetExponent_eq _ ht.ge, ht, sub_self]
      rfl
    rw [shifted]
    by_cases h0 : r = 0
    · exact .inl ⟨by rw [h0, amount_zero], dif_pos h0⟩
    · exact .inr ⟨r, t, Nat.pos_of_ne_zero h0, ⟨Nat.pos_of_ne_zero h0, hr, least, full⟩, rfl,
        dif_neg h0⟩
  · have ht := target_carried least
    have shifted : shiftToTargetExponent .binary32 (2 ^ 24) t .exact
        = (⟨2 ^ 23, false, false⟩, t + 1) := by
      rw [shiftToTargetExponent_eq _ (by omega), ht, add_sub_cancel_left]
      rfl
    rw [shifted]
    refine .inr ⟨2 ^ 23, t + 1, by norm_num, ⟨by norm_num, by norm_num, by omega, .inl le_rfl⟩, ?_,
      dif_neg (by norm_num)⟩
    exact (amount_add (2 ^ 23) t 1).symm

/-- **Rounding respects order and goes to the nearest.** -/
theorem roundWithAccuracy_spec {q : ℚ} {s : Sign} {m : Nat} {e : ℤ} {accuracy : Accuracy}
    (marked : Marked q (.ofMantissaAndAccuracy m accuracy) e) (h : e ≤ target m e) :
    ∃ v, Rounds q v ∧ Stands s v (roundWithAccuracy .binary32 s m e accuracy) := by
  obtain ⟨k, hk⟩ : ∃ k : Nat, e + k = target m e :=
    ⟨(target m e - e).toNat, by rw [Int.toNat_of_nonneg (by omega), add_sub_cancel]⟩
  let em := ExtendedMantissa.ofMantissaAndAccuracy m accuracy >>> k
  have hem : em.mantissa = m / 2 ^ k := by
    rw [mantissa_shiftRight, mantissa_ofMantissaAndAccuracy]
  have hmarked : Marked q em (target m e) := hk ▸ marked.shiftRight k
  have hlt : em.mantissa < 2 ^ 24 := hem ▸ shifted_lt hk
  have hfull : 2 ^ 23 ≤ em.mantissa ∨ target m e = -149 := hem ▸ shifted_full hk
  have hbounds := roundedMantissa_bounds em
  refine ⟨amount em.roundedMantissa (target m e),
    hmarked.rounds hlt hfull (least_le_target m e), ?_⟩
  have first : shiftToTargetExponent .binary32 m e accuracy = (em, target m e) := by
    rw [shiftToTargetExponent_eq accuracy h, ← hk, add_sub_cancel_left, Int.toNat_natCast]
  have second := stands_carried (s := s) (least_le_target m e)
    (show em.roundedMantissa ≤ 2 ^ 24 by omega) (by omega)
  unfold roundWithAccuracy
  rw [first]
  exact second

/-- what is exact leaves nothing over -/
theorem marked_exact (m : Nat) (e : ℤ) :
    Marked (amount m e) (.ofMantissaAndAccuracy m .exact) e := by
  refine ⟨⟨le_rfl, amount_lt_iff.mpr (Nat.lt_succ_self m), fun _ => ⟨rfl, rfl⟩⟩, fun _ _ => rfl, ?_⟩
  intro h
  exact absurd (amount_lt_half m e) h.not_gt

theorem log2_mul_two_pow {m : Nat} (hm : m ≠ 0) (k : Nat) : (m * 2 ^ k).log2 = m.log2 + k := by
  rw [Nat.log2_eq_iff (by positivity)]
  constructor
  · rw [pow_add]
    exact Nat.mul_le_mul_right _ (Nat.log2_self_le hm)
  · rw [show m.log2 + k + 1 = (m.log2 + 1) + k by omega, pow_add]
    exact Nat.mul_lt_mul_of_pos_right Nat.lt_log2_self (by positivity)

theorem decreaseExponent_eq {m k : Nat} {e t : ℤ} (hk : (k : ℤ) = max (e - t) 0) :
    decreaseExponent m e t = (m * 2 ^ k, e - k) := by
  have : (e - t).toNat = k := by omega
  show (m <<< (e - t).toNat, e - ((e - t).toNat : ℤ)) = _
  rw [this, Nat.shiftLeft_eq]

/-- **Rounding an exact number respects order.** -/
theorem round_spec {s : Sign} {m : Nat} (hm : m ≠ 0) (e : ℤ) :
    ∃ v, RoundsTo (amount m e) v ∧ Stands s v (UnpackedFloat.round .binary32 s m e) := by
  obtain ⟨k, hk⟩ : ∃ k : Nat, (k : ℤ) = max (e - target m e) 0 :=
    ⟨(e - target m e).toNat, by omega⟩
  have same : target (m * 2 ^ k) (e - k) = target m e := by
    unfold target
    rw [log2_mul_two_pow hm]
    push_cast
    congr 1
    ring
  have hamount : amount m e = amount (m * 2 ^ k) (e - k) := by
    rw [← amount_add, sub_add_cancel]
  show ∃ v, _ ∧ Stands s v (roundWithAccuracy .binary32 s (decreaseExponent m e (target m e)).1
    (decreaseExponent m e (target m e)).2 .exact)
  rw [decreaseExponent_eq hk, hamount]
  obtain ⟨v, hv, hstands⟩ := roundWithAccuracy_spec (s := s) (marked_exact (m * 2 ^ k) (e - k))
    (by rw [same]; omega)
  exact ⟨v, hv.order, hstands⟩

/-! ## quotients -/

section
variable {m₁ m₂ : Nat}

/-- a quotient of mantissas begins with the whole quotient -/
theorem near_quotient (h₂ : 0 < m₂) (m₁ : Nat) (e : ℤ) :
    Near ((m₁ : ℚ) / m₂ * 2 ^ e)
      (.ofMantissaAndAccuracy (m₁ / m₂) (accuracyOfFraction (m₁ % m₂) m₂)) e := by
  have hpos : (0 : ℚ) < m₂ := by exact_mod_cast h₂
  have hmantissa := mantissa_ofMantissaAndAccuracy (m₁ / m₂) (accuracyOfFraction (m₁ % m₂) m₂)
  have hpow : (0 : ℚ) < 2 ^ e := by positivity
  refine ⟨?_, ?_, ?_⟩
  · rw [hmantissa]
    exact mul_le_mul_of_nonneg_right Nat.cast_div_le hpow.le
  · rw [hmantissa]
    refine mul_lt_mul_of_pos_right ?_ hpow
    rw [div_lt_iff₀ hpos]
    exact_mod_cast Nat.lt_mul_of_div_lt (Nat.lt_succ_self _) h₂
  · intro hq
    rw [hmantissa] at hq
    have hdiv : (m₁ : ℚ) / m₂ = (m₁ / m₂ : Nat) := mul_right_cancel₀ hpow.ne' hq
    have hmod : m₁ % m₂ = 0 := by
      rw [div_eq_iff hpos.ne'] at hdiv
      have hmul : m₁ = m₁ / m₂ * m₂ := by exact_mod_cast hdiv
      have := Nat.div_add_mod' m₁ m₂
      omega
    rw [hmod]
    exact ⟨rfl, rfl⟩

/-- and the two bits say what is left over -/
theorem marked_quotient (h₂ : 0 < m₂) (m₁ : Nat) (e : ℤ) :
    Marked ((m₁ : ℚ) / m₂ * 2 ^ e)
      (.ofMantissaAndAccuracy (m₁ / m₂) (accuracyOfFraction (m₁ % m₂) m₂)) e := by
  have hpos : (0 : ℚ) < m₂ := by exact_mod_cast h₂
  have hdiv := Nat.div_add_mod' m₁ m₂
  refine ⟨near_quotient h₂ m₁ e, ?_, ?_⟩
  · intro hround hsticky
    have hmod : m₁ % m₂ = 0 := by
      by_contra hmod
      rw [accuracyOfFraction, if_neg hmod] at hround hsticky
      cases hc : compare (2 * (m₁ % m₂)) m₂ <;> rw [hc] at hround hsticky
      · cases hsticky
      · cases hround
      · cases hround
    have whole : (m₁ : ℚ) / m₂ = (m₁ / m₂ : Nat) := by
      rw [div_eq_iff hpos.ne']
      exact_mod_cast (by omega : m₁ = m₁ / m₂ * m₂)
    rw [mantissa_ofMantissaAndAccuracy, whole]
    rfl
  · intro hq
    have halfway : amount (2 * (m₁ / m₂) + 1) (e - 1) = ((m₁ / m₂ : Nat) + 1 / 2) * 2 ^ e := by
      unfold amount
      rw [zpow_sub_one₀ (by norm_num)]
      push_cast
      ring
    rw [mantissa_ofMantissaAndAccuracy, halfway, mul_lt_mul_iff_left₀ (by positivity),
      lt_div_iff₀ hpos] at hq
    have doubled : 2 * (m₁ / m₂ * m₂) + m₂ < 2 * m₁ := by
      exact_mod_cast (by linarith : 2 * (((m₁ / m₂ : Nat) : ℚ) * m₂) + m₂ < 2 * m₁)
    have more : m₂ < 2 * (m₁ % m₂) := by omega
    rw [accuracyOfFraction, if_neg (by omega), Nat.compare_eq_gt.mpr more]
    exact ⟨rfl, rfl⟩

/-- a quotient is taken far enough down to have twenty-four bits -/
theorem le_target_quotient {k : Nat} {t : ℤ} (h₁ : 0 < m₁) (h₂ : 0 < m₂)
    (hk : -149 < t → (24 : ℤ) + m₂.log2 ≤ m₁.log2 + k) : t ≤ target (m₁ * 2 ^ k / m₂) t := by
  by_cases ht : t ≤ -149
  · exact ht.trans (least_le_target _ _)
  · have hbits : 24 + m₂.log2 ≤ m₁.log2 + k := by
      have := hk (by omega)
      omega
    have hquotient : 2 ^ 23 ≤ m₁ * 2 ^ k / m₂ := by
      refine (Nat.le_div_iff_mul_le h₂).mpr ?_
      calc 2 ^ 23 * m₂ ≤ 2 ^ 23 * 2 ^ (m₂.log2 + 1) :=
            Nat.mul_le_mul_left _ Nat.lt_log2_self.le
        _ = 2 ^ (24 + m₂.log2) := by rw [← pow_add]; congr 1; omega
        _ ≤ 2 ^ (m₁.log2 + k) := Nat.pow_le_pow_right (by norm_num) hbits
        _ = 2 ^ m₁.log2 * 2 ^ k := pow_add _ _ _
        _ ≤ m₁ * 2 ^ k := Nat.mul_le_mul_right _ (Nat.log2_self_le h₁.ne')
    have hlog : 23 ≤ (m₁ * 2 ^ k / m₂).log2 := (Nat.le_log2 (by omega)).mpr hquotient
    unfold target
    omega

/-- **Rounding a quotient respects order and goes to the nearest.** -/
theorem div_spec {s : Sign} (h₁ : 0 < m₁) (h₂ : 0 < m₂) (e₁ e₂ : ℤ) : ∃ v,
    Rounds (amount m₁ e₁ / amount m₂ e₂) v ∧
      Stands s v (roundWithAccuracy .binary32 s (divCore .binary32 m₁ e₁ m₂ e₂).1
        (divCore .binary32 m₁ e₁ m₂ e₂).2.1 (divCore .binary32 m₁ e₁ m₂ e₂).2.2) := by
  -- the exponent of the quotient, and by how many bits the dividend is shifted for it
  obtain ⟨t, ht⟩ : ∃ t : ℤ, t = min (e₁ - e₂) (max
      ((m₁.log2 + 1 + e₁ - (m₂.log2 + 1 + e₂)) - 24) (-149)) := ⟨_, rfl⟩
  obtain ⟨k, hk⟩ : ∃ k : Nat, (k : ℤ) = e₁ - e₂ - t := ⟨(e₁ - e₂ - t).toNat, by omega⟩
  have core : divCore .binary32 m₁ e₁ m₂ e₂
      = (m₁ * 2 ^ k / m₂, t, accuracyOfFraction (m₁ * 2 ^ k % m₂) m₂) := by
    have hshift : (e₁ - e₂ - t).toNat = k := by omega
    have unfolded : divCore .binary32 m₁ e₁ m₂ e₂ = (m₁ <<< (e₁ - e₂ - t).toNat / m₂, t,
        accuracyOfFraction (m₁ <<< (e₁ - e₂ - t).toNat % m₂) m₂) := by
      rw [ht]
      rfl
    rw [unfolded, hshift, Nat.shiftLeft_eq]
  have hquotient : amount m₁ e₁ / amount m₂ e₂ = ((m₁ * 2 ^ k : Nat) : ℚ) / m₂ * 2 ^ t := by
    have he : e₁ = t + k + e₂ := by omega
    have hpos : (m₂ : ℚ) ≠ 0 := by exact_mod_cast h₂.ne'
    unfold amount
    rw [he, zpow_add₀ (by norm_num), zpow_add₀ (by norm_num), zpow_natCast]
    push_cast
    field_simp
  rw [core, hquotient]
  refine roundWithAccuracy_spec (marked_quotient h₂ _ t) (le_target_quotient h₁ h₂ ?_)
  intro hlt
  replace hlt : -149 < t := hlt
  omega

end

end TerrainPatches
