import Mathlib.Tactic.Ring

/-! Remainders by a reciprocal that is rounded up.

    Multiplying by `(W - 1) / d + 1` and keeping the part below `W` gives, up to an error that is too small
    to count, the remainder as a fraction of `W`. -/

namespace FlakeWm.Reciprocal

/-- The reciprocal of `d` in units of `1 / W`, rounded up. -/
def reciprocal (W d : ℕ) : ℕ := (W - 1) / d + 1

/-- The reciprocal overshoots by less than one unit. -/
theorem reciprocal_mul {W d : ℕ} (hW : 0 < W) (hd : 0 < d) : ∃ e, e < d ∧ reciprocal W d * d = W + e := by
  have hdiv : d * ((W - 1) / d) + (W - 1) % d = W - 1 := Nat.div_add_mod _ _
  have hmod : (W - 1) % d < d := Nat.mod_lt _ hd
  refine ⟨d - 1 - (W - 1) % d, by omega, ?_⟩
  rw [reciprocal, Nat.add_mul, Nat.mul_comm _ d]
  omega

/-- Multiplying back the low part of the product with the reciprocal gives the remainder. -/
theorem reciprocal_mod {W d n : ℕ} (hd : 0 < d) (hn : n * d ≤ W) (hW : 0 < W) :
    reciprocal W d * n % W * d / W = n % d := by
  obtain ⟨e, he, hmul⟩ := reciprocal_mul hW hd
  have hr : n % d < d := Nat.mod_lt _ hd
  have hn' : d * (n / d) + n % d = n := Nat.div_add_mod _ _
  have herror : e * n < W := by
    rcases Nat.eq_zero_or_pos n with rfl | hpos
    · simpa using hW
    · calc e * n < d * n := Nat.mul_lt_mul_of_pos_right he hpos
        _ ≤ W := by rwa [Nat.mul_comm]
  -- the low part is the product less the multiples of `W` that come from the quotient
  have hproduct : reciprocal W d * n = (e * (n / d) + reciprocal W d * (n % d)) + W * (n / d) := by
    calc reciprocal W d * n = reciprocal W d * (d * (n / d) + n % d) := by rw [hn']
      _ = reciprocal W d * d * (n / d) + reciprocal W d * (n % d) := by ring
      _ = (e * (n / d) + reciprocal W d * (n % d)) + W * (n / d) := by rw [hmul]; ring
  have hback : (e * (n / d) + reciprocal W d * (n % d)) * d = W * (n % d) + e * n := by
    calc (e * (n / d) + reciprocal W d * (n % d)) * d = e * (d * (n / d)) + reciprocal W d * d * (n % d) := by ring
      _ = W * (n % d) + e * (d * (n / d) + n % d) := by rw [hmul]; ring
      _ = W * (n % d) + e * n := by rw [hn']
  have hlow : e * (n / d) + reciprocal W d * (n % d) < W := by
    refine Nat.lt_of_mul_lt_mul_right (a := d) ?_
    calc (e * (n / d) + reciprocal W d * (n % d)) * d = W * (n % d) + e * n := hback
      _ < W * (n % d) + W := Nat.add_lt_add_left herror _
      _ = W * (n % d + 1) := by ring
      _ ≤ W * d := Nat.mul_le_mul_left W hr
  rw [hproduct, Nat.add_mul_mod_self_left, Nat.mod_eq_of_lt hlow, hback, Nat.mul_add_div hW, Nat.div_eq_of_lt herror,
    Nat.add_zero]

/-- The high word of a product of two words of two halves, without the low product's own low half. -/
theorem high_of_halves (B d b₀ b₁ : ℕ) (hB : 0 < B) : (d * b₀ / B + d * b₁) / B = (b₁ * B + b₀) * d / (B * B) := by
  rw [← Nat.div_div_eq_div_mul, ← Nat.add_mul_div_right _ _ hB]
  congr 2
  ring

/-- The sum of the parts of such a product fits in a word. -/
theorem halves_lt {B d b₀ b₁ : ℕ} (hd : d < B) (h₀ : b₀ < B) (h₁ : b₁ < B) : d * b₀ / B + d * b₁ < B * B := by
  have hlow : d * b₀ / B < B := Nat.div_lt_of_lt_mul (Nat.mul_lt_mul'' hd h₀)
  calc d * b₀ / B + d * b₁ < B + d * b₁ := Nat.add_lt_add_right hlow _
    _ ≤ B + (B - 1) * b₁ := Nat.add_le_add_left (Nat.mul_le_mul_right _ (Nat.le_sub_one_of_lt hd)) _
    _ ≤ B + (B - 1) * B := Nat.add_le_add_left (Nat.mul_le_mul_left _ h₁.le) _
    _ = B * B := by
      obtain ⟨c, rfl⟩ : ∃ c, B = c + 1 := ⟨B - 1, by omega⟩
      rw [Nat.add_sub_cancel]
      ring

end FlakeWm.Reciprocal
