import Mathlib

/-! # The bits of a float

The number that the bits of a binary float stand for, and that it is not the number the
same bits are as an integer, nought apart.
-/
namespace Stout.FloatBits

/-- The absolute value of a finite float with the exponent `x` of `e` bits and the fraction `m`
of `w` bits. -/
def magnitude (e w x m : ℕ) : ℚ :=
  let scale := 2 ^ (e - 1) - 1 + w
  if x = 0 then m / 2 ^ (scale - 1)
  else if scale ≤ x then (2 ^ w + m) * 2 ^ (x - scale)
  else (2 ^ w + m) / 2 ^ (scale - x)

/-- The number that the bits stand for: the sign, the exponent and the fraction. An exponent of
ones, which a finite float does not have, is read as any other. -/
def value (e w n : ℕ) : ℚ :=
  if n / 2 ^ (e + w) % 2 = 0 then magnitude e w (n / 2 ^ w % 2 ^ e) (n % 2 ^ w)
  else -magnitude e w (n / 2 ^ w % 2 ^ e) (n % 2 ^ w)

section Magnitude
variable {e w x m a : ℕ}

theorem twice_le {j c : ℕ} (hj : 0 < j) (h : a * 2 ^ j = c) : a * 2 ≤ c := by
  rw [← h]
  exact Nat.mul_le_mul_left a (Nat.le_self_pow hj.ne' 2)

/-- A natural number that is a magnitude: either the exponent is large enough for the number to
be a shifted fraction, or the number is less than half of the fraction. -/
theorem magnitude_cases (hscale : 1 < 2 ^ (e - 1) - 1 + w) (h : (a : ℚ) = magnitude e w x m) :
    (x = 0 ∧ a * 2 ≤ m) ∨ (∃ k, x = 2 ^ (e - 1) - 1 + w + k ∧ a = (2 ^ w + m) * 2 ^ k) ∨
      (0 < x ∧ x < 2 ^ (e - 1) - 1 + w ∧ a * 2 ≤ 2 ^ w + m) := by
  unfold magnitude at h
  generalize 2 ^ (e - 1) - 1 + w = scale at h hscale ⊢
  dsimp only at h
  split at h
  · rename_i hx
    rw [eq_div_iff (by positivity)] at h
    exact Or.inl ⟨hx,twice_le (Nat.sub_pos_of_lt hscale) (by exact_mod_cast h)⟩
  · rename_i hx
    split at h
    · rename_i hs
      exact Or.inr (Or.inl ⟨x - scale,by omega,by exact_mod_cast h⟩)
    · rename_i hs
      rw [eq_div_iff (by positivity)] at h
      refine Or.inr (Or.inr ⟨Nat.pos_of_ne_zero hx,by omega,twice_le (Nat.sub_pos_of_lt (Nat.lt_of_not_le hs)) ?_⟩)
      exact_mod_cast h

theorem linear_le_pow {k : ℕ} (h : 11 ≤ k) : 2048 * (k - 10) ≤ 2 ^ k := by
  induction k, h using Nat.le_induction with
  | base => decide
  | succ k hk ih =>
    rw [pow_succ]
    omega

theorem shifted_le {k : ℕ} (h : ¬k ≤ 10) : 2 ^ w * (2048 * (k - 10)) ≤ (2 ^ w + m) * 2 ^ k :=
  Nat.mul_le_mul (Nat.le_add_right ..) (linear_le_pow (Nat.lt_of_not_le h))

end Magnitude

section Formats
variable {x m a : ℕ}

/-- No double is the integer with the same bits. -/
theorem double_ne (hm : m < 2 ^ 52) (ha : a = x * 2 ^ 52 + m) (hpos : 0 < a) : (a : ℚ) ≠ magnitude 11 52 x m := by
  intro h
  rcases magnitude_cases (by decide) h with ⟨hx,h⟩ | ⟨k,hx,h⟩ | ⟨hx,-,h⟩
  · omega
  · by_cases hk : k ≤ 10
    · interval_cases k <;> omega
    · have := shifted_le (w := 52) (m := m) hk
      omega
  · omega

theorem negative_double_ne (hm : m < 2 ^ 52) (ha : a + (x * 2 ^ 52 + m) = 2 ^ 63) : (a : ℚ) ≠ magnitude 11 52 x m := by
  intro h
  rcases magnitude_cases (by decide) h with ⟨hx,h⟩ | ⟨k,hx,h⟩ | ⟨hx,hs,h⟩
  · omega
  · by_cases hk : k ≤ 10
    · interval_cases k <;> omega
    · have := shifted_le (w := 52) (m := m) hk
      omega
  · omega

theorem single_ne (hm : m < 2 ^ 23) (ha : a = x * 2 ^ 23 + m) (hpos : 0 < a) : (a : ℚ) ≠ magnitude 8 23 x m := by
  intro h
  rcases magnitude_cases (by decide) h with ⟨hx,h⟩ | ⟨k,hx,h⟩ | ⟨hx,-,h⟩
  · omega
  · by_cases hk : k ≤ 10
    · interval_cases k <;> omega
    · have := shifted_le (w := 23) (m := m) hk
      omega
  · omega

end Formats

theorem magnitude_zero (e w : ℕ) : magnitude e w 0 0 = 0 := by
  simp [magnitude]

theorem magnitude_nonneg (e w x m : ℕ) : 0 ≤ magnitude e w x m := by
  unfold magnitude
  dsimp only
  split
  · positivity
  · split <;> positivity

/-- The bits of a double as a signed integer are the number it stands for only for nought. -/
theorem double_eq_iff {n : ℕ} (hn : n < 2 ^ 64) :
    ((if n < 2 ^ 63 then (n : ℤ) else (n : ℤ) - 2 ^ 64 : ℤ) : ℚ) = value 11 52 n ↔ n = 0 := by
  constructor
  · intro h
    by_contra hne
    have hm : n % 2 ^ 52 < 2 ^ 52 := Nat.mod_lt _ (by decide)
    unfold value at h
    split at h
    · rename_i hlt
      rw [if_pos (by omega), Int.cast_natCast] at h
      exact double_ne hm (by omega) (Nat.pos_of_ne_zero hne) h
    · rename_i hge
      rw [if_neg (by omega)] at h
      refine negative_double_ne (x := n / 2 ^ 52 % 2 ^ 11) (a := 2 ^ 64 - n) hm (by omega) ?_
      rw [Nat.cast_sub hn.le, ← neg_eq_iff_eq_neg.mpr h]
      push_cast
      ring
  · rintro rfl
    simp [value, magnitude_zero]

theorem single_eq_iff {n : ℕ} (hn : n < 2 ^ 32) : (n : ℚ) = value 8 23 n ↔ n = 0 := by
  constructor
  · intro h
    by_contra hne
    have hpos : (0 : ℚ) < n := Nat.cast_pos.mpr (Nat.pos_of_ne_zero hne)
    unfold value at h
    split at h
    · exact single_ne (Nat.mod_lt _ (by decide)) (by omega) (Nat.pos_of_ne_zero hne) h
    · have := magnitude_nonneg 8 23 (n / 2 ^ 23 % 2 ^ 8) (n % 2 ^ 23)
      linarith
  · rintro rfl
    simp [value, magnitude_zero]

end Stout.FloatBits
