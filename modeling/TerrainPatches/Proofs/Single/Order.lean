import TerrainPatches.FloatOrder
import TerrainPatches.Proofs.Single.Arithmetic

/-!
# The total order of patterns and the order of numbers

The rank of a pattern goes up with its magnitude if it is positive and down if it is negative
(`Pattern.rank_eq`), and magnitudes are compared by exponents and then by fractions, like the
numbers.  So a smaller number has a smaller rank (`Pattern.rank_lt_of_lt`).  What is undefined is
neither smaller nor greater than a number; in the total order it is beyond all of them, on the side
of its sign (`Pattern.rank_of_isNaN`).
-/

namespace TerrainPatches

open Float.Model Float.Model.UnpackedFloat

namespace FloatParts

/-- a pattern without its sign, as a number -/
def magnitude (f : FloatParts) : Nat := leadingOne * f.exponent + f.fraction

/-- how far a pattern is above the middle of the order -/
def offset (f : FloatParts) : ℤ := if f.negative then -1 - f.magnitude else f.magnitude

/-- as the parts of a pattern are -/
structure Proper (f : FloatParts) : Prop where
  exponent_lt : f.exponent < 256
  fraction_lt : f.fraction < leadingOne

theorem proper_ofBits (bits : UInt32) : (ofBits bits).Proper :=
  ⟨Nat.mod_lt _ (by decide), Nat.mod_lt _ (by decide)⟩

variable {f g : FloatParts}

/-- finite magnitudes are compared by exponents first -/
theorem magnitude_lt (hf : f.Proper) (hg : g.Proper)
    (h : (compare ((f.shift : ℤ) - 149) (g.shift - 149)).then
      (compare f.mantissa g.mantissa) = .lt) : f.magnitude < g.magnitude := by
  have fraction := hf.fraction_lt
  have fraction' := hg.fraction_lt
  rw [Ordering.then_eq_lt, compare_lt_iff_lt, compare_eq_iff_eq, compare_lt_iff_lt] at h
  unfold shift mantissa at h
  unfold magnitude leadingOne at *
  split at h <;> split at h <;> omega

/-- what is calculated with, by the magnitude: the greatest exponent has the greatest ones -/
theorem unpacked_cases (hf : f.Proper) :
    (f.unpacked = .notANumber ∧ 255 * leadingOne < f.magnitude) ∨
    (f.unpacked = .infinity f.sign ∧ f.magnitude = 255 * leadingOne) ∨
    (f.unpacked = .zero f.sign ∧ f.magnitude = 0) ∨
    ∃ h, f.unpacked = .finite f.sign f.mantissa (f.shift - 149) h ∧
      0 < f.magnitude ∧ f.magnitude < 255 * leadingOne := by
  have exponent := hf.exponent_lt
  have fraction := hf.fraction_lt
  unfold unpacked magnitude
  by_cases he : f.exponent = 255
  · rw [if_pos he, he]
    by_cases h0 : f.fraction = 0
    · rw [if_pos h0, h0]
      exact .inr (.inl ⟨rfl, by omega⟩)
    · rw [if_neg h0]
      exact .inl ⟨rfl, by omega⟩
  · rw [if_neg he]
    by_cases hm : f.mantissa = 0
    · rw [dif_pos hm]
      unfold mantissa leadingOne at *
      split at hm
      · exact .inr (.inr (.inl ⟨rfl, by omega⟩))
      · omega
    · rw [dif_neg hm]
      unfold mantissa leadingOne at *
      exact .inr (.inr (.inr ⟨_, rfl, by split at hm <;> omega, by omega⟩))

/-- positive numbers have greater magnitudes if they are greater -/
theorem magnitude_lt_of_positive (hf : f.Proper) (hg : g.Proper) (sf : f.sign = .positive)
    (sg : g.sign = .positive) (h : f.unpacked.compare g.unpacked = some .lt) :
    f.magnitude < g.magnitude := by
  have infinite : 0 < 255 * leadingOne := by decide
  rcases unpacked_cases hf with ⟨uf, -⟩ | ⟨uf, mf⟩ | ⟨uf, mf⟩ | ⟨_, uf, -, mf⟩ <;>
    rcases unpacked_cases hg with ⟨ug, -⟩ | ⟨ug, mg⟩ | ⟨ug, mg⟩ | ⟨_, ug, mg, -⟩ <;>
    simp only [uf, ug, sf, sg] at h
  -- zero and what is above it, a finite number and infinity, two finite numbers
  all_goals try cases h
  · omega
  · omega
  · omega
  · exact magnitude_lt hf hg (Option.some.inj h)

/-- negative ones if they are less -/
theorem magnitude_lt_of_negative (hf : f.Proper) (hg : g.Proper) (sf : f.sign = .negative)
    (sg : g.sign = .negative) (h : f.unpacked.compare g.unpacked = some .lt) :
    g.magnitude < f.magnitude := by
  have infinite : 0 < 255 * leadingOne := by decide
  rcases unpacked_cases hf with ⟨uf, -⟩ | ⟨uf, mf⟩ | ⟨uf, mf⟩ | ⟨_, uf, mf, -⟩ <;>
    rcases unpacked_cases hg with ⟨ug, -⟩ | ⟨ug, mg⟩ | ⟨ug, mg⟩ | ⟨_, ug, -, mg⟩ <;>
    simp only [uf, ug, sf, sg] at h
  all_goals try cases h
  · omega
  · omega
  · omega
  · refine magnitude_lt hg hf ?_
    have swapped : ((compare ((f.shift : ℤ) - 149) (g.shift - 149)).then
      (compare f.mantissa g.mantissa)).swap = .lt := Option.some.inj h
    rwa [Ordering.swap_then, ← Std.OrientedOrd.eq_swap, ← Std.OrientedOrd.eq_swap] at swapped

theorem not_lt_of_signs (hf : f.Proper) (hg : g.Proper) (sf : f.sign = .positive)
    (sg : g.sign = .negative) : f.unpacked.compare g.unpacked ≠ some .lt := by
  intro h
  rcases unpacked_cases hf with ⟨uf, -⟩ | ⟨uf, -⟩ | ⟨uf, -⟩ | ⟨_, uf, -, -⟩ <;>
    rcases unpacked_cases hg with ⟨ug, -⟩ | ⟨ug, -⟩ | ⟨ug, -⟩ | ⟨_, ug, -, -⟩ <;>
    simp only [uf, ug, sf, sg] at h <;> cases h

theorem offset_lt (hf : f.Proper) (hg : g.Proper)
    (h : f.unpacked.compare g.unpacked = some .lt) : f.offset < g.offset := by
  have positive : ∀ f : FloatParts, f.negative = false → f.sign = .positive := by
    intro f hn
    rw [sign, hn]
    rfl
  have negative : ∀ f : FloatParts, f.negative = true → f.sign = .negative := fun f hn => if_pos hn
  unfold offset
  cases hn : f.negative <;> cases hn' : g.negative
  · have := magnitude_lt_of_positive hf hg (positive f hn) (positive g hn') h
    simpa using this
  · exact absurd h (not_lt_of_signs hf hg (positive f hn) (negative g hn'))
  · show (-1 - f.magnitude : ℤ) < g.magnitude
    omega
  · have := magnitude_lt_of_negative hf hg (negative f hn) (negative g hn') h
    show (-1 - f.magnitude : ℤ) < -1 - g.magnitude
    omega

end FloatParts

namespace Pattern

variable {p q : Pattern}

/-- sign, exponent and fraction of a pattern -/
def parts (p : Pattern) : FloatParts := .ofBits p.bits

theorem unpack_number (p : Pattern) : p.number.toModel.unpack = p.parts.unpacked :=
  unpack_ofBits p.bits

theorem number_lt_iff :
    p.number < q.number ↔ p.parts.unpacked.compare q.parts.unpacked = some .lt := by
  rw [lt_eq, unpack_number, unpack_number, beq_iff_eq]

/-- the rank counts from the middle of the order -/
theorem rank_eq (p : Pattern) : (p.rank : ℤ) = signBit + p.parts.offset := by
  have bound := p.bits.toNat_lt
  have negative : p.parts.negative = decide (256 * FloatParts.leadingOne ≤ p.bits.toNat) := rfl
  have magnitude : p.parts.magnitude = FloatParts.leadingOne *
    (p.bits.toNat / FloatParts.leadingOne % 256) + p.bits.toNat % FloatParts.leadingOne := rfl
  unfold FloatParts.leadingOne at negative magnitude
  unfold rank FloatParts.offset signBit
  by_cases h : 256 * 8388608 ≤ p.bits.toNat
  · rw [if_neg (by omega), negative, if_pos (decide_eq_true h)]
    omega
  · rw [if_pos (by omega), negative, if_neg (by simpa using h)]
    omega

/-- **Numbers in order have their patterns in order.** -/
theorem rank_lt_of_lt (h : p.number < q.number) : p.rank < q.rank := by
  have := FloatParts.offset_lt (FloatParts.proper_ofBits _) (FloatParts.proper_ofBits _)
    (number_lt_iff.mp h)
  have hp := p.rank_eq
  have hq := q.rank_eq
  unfold parts at hp hq
  omega

/-- what is undefined has a magnitude above that of the infinite -/
theorem isNaN_iff : p.number.isNaN = true ↔ 255 * FloatParts.leadingOne < p.parts.magnitude := by
  have proper : p.parts.Proper := FloatParts.proper_ofBits p.bits
  have isNaN : p.number.isNaN = p.parts.unpacked.isNaN :=
    congrArg UnpackedFloat.isNaN p.unpack_number
  rw [isNaN]
  rcases FloatParts.unpacked_cases proper with ⟨u, m⟩ | ⟨u, m⟩ | ⟨u, m⟩ | ⟨_, u, -, m⟩
  · rw [u]
    exact ⟨fun _ => m, fun _ => rfl⟩
  all_goals
    rw [u]
    exact ⟨fun h => absurd h Bool.false_ne_true, fun h => by omega⟩

/-- **What is undefined is beyond all numbers**, on the side of its sign. -/
theorem rank_of_isNaN (hp : p.number.isNaN = true) (hq : ¬ q.number.isNaN = true) :
    if p.parts.negative then p.rank < q.rank else q.rank < p.rank := by
  have hp' := p.rank_eq
  have hq' := q.rank_eq
  rw [isNaN_iff] at hp hq
  unfold FloatParts.offset at hp' hq'
  by_cases negative : p.parts.negative = true
  · rw [if_pos negative] at hp' ⊢
    split at hq' <;> omega
  · rw [if_neg negative] at hp' ⊢
    split at hq' <;> omega

/-- the two undefined patterns of greatest and least magnitude, on both sides -/
example : ([0xffffffff, 0xff800001, 0xff800000, 0xbf800000, 0x80000000, 0, 0x3f800000, 0x7f800000,
    0x7f800001, 0x7fffffff].map fun bits => (Pattern.mk bits).rank).Pairwise (· < ·) := by decide

end Pattern

end TerrainPatches
