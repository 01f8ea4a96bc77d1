import Mathlib.Algebra.Order.BigOperators.Group.List
import Mathlib.Tactic.Linarith
import Mathlib.Tactic.LinearCombination

/-! # What rounding down loses

A sum of quotients falls short of the quotient of the sum by the quotient of the
remainders. A weight kept near a fixed ratio of an amount drifts from it by less
than one unit at each rounding: down when the amount grows, up when a part of it
is taken out and the weight is reduced in proportion.
-/
namespace Foundation
variable {d : ℤ}

theorem sum_ediv (hd : d ≠ 0) (l : List ℤ) :
    l.sum / d = (l.map (· / d)).sum + (l.map (· % d)).sum / d := by
  have hsplit : l.sum = d * (l.map (· / d)).sum + (l.map (· % d)).sum := by
    induction l with
    | nil => simp
    | cons a l ih =>
      have ha : d * (a / d) + a % d = a := Int.mul_ediv_add_emod a d
      simp only [List.map_cons, List.sum_cons, ih]
      linarith
  rw [hsplit, Int.mul_add_ediv_left _ _ hd]

theorem sum_emod_nonneg (hd : d ≠ 0) (l : List ℤ) : 0 ≤ (l.map (· % d)).sum := by
  apply List.sum_nonneg
  intro x hx
  obtain ⟨a, _, rfl⟩ := List.mem_map.mp hx
  exact Int.emod_nonneg a hd

/-- Rounding down once loses nothing against rounding down each term exactly when the remainders
stay below the divisor. -/
theorem sum_ediv_le_iff (hd : 0 < d) (l : List ℤ) :
    l.sum / d ≤ (l.map (· / d)).sum ↔ (l.map (· % d)).sum < d := by
  have hrem := sum_emod_nonneg hd.ne' l
  rw [sum_ediv hd.ne' l]
  constructor
  · intro h
    have hz : (l.map (· % d)).sum / d ≤ 0 := by omega
    by_contra hge
    have hone : 1 ≤ (l.map (· % d)).sum / d := Int.le_ediv_of_mul_le hd (by omega)
    omega
  · intro h
    rw [Int.ediv_eq_zero_of_lt hrem h]
    omega

section Drift
variable {m w b x : ℤ}

def drift (d m w b : ℤ) : ℤ := d * w - m * b

theorem drift_grow (hd : 0 < d) (m w b x : ℤ) :
    drift d m w b - d < drift d m (w + x * m / d) (b + x) ∧
      drift d m (w + x * m / d) (b + x) ≤ drift d m w b := by
  have hsplit := Int.mul_ediv_add_emod (x * m) d
  have h0 := Int.emod_nonneg (x * m) hd.ne'
  have hlt := Int.emod_lt_of_pos (x * m) hd
  unfold drift
  constructor <;> linarith

/-- Taking out the part `x` of the amount and the rounded proportion of the weight scales the drift
by what is left and adds less than one unit. -/
theorem drift_shrink (m w x : ℤ) (b : ℤ) :
    b * drift d m (w - w * x / b) (b - x) = (b - x) * drift d m w b + d * (w * x % b) := by
  have hsplit := Int.mul_ediv_add_emod (w * x) b
  unfold drift
  linear_combination -d * hsplit

theorem drift_shrink_le {n : ℤ} (hd : 0 < d) (hb : 0 < b) (h0 : 0 ≤ x) (hx : x < b) (hn : 0 ≤ n)
    (h : drift d m w b ≤ n * d) : drift d m (w - w * x / b) (b - x) ≤ (n + 1) * d := by
  have hrem := Int.emod_lt_of_pos (w * x) hb
  have hscale : (b - x) * drift d m w b ≤ b * (n * d) := by nlinarith [Int.mul_nonneg hn hd.le]
  have hprod : b * drift d m (w - w * x / b) (b - x) ≤ b * ((n + 1) * d) := by
    rw [drift_shrink]
    nlinarith
  exact le_of_mul_le_mul_left hprod hb

theorem drift_shrink_gt {k : ℤ} (hd : 0 < d) (hb : 0 < b) (h0 : 0 ≤ x) (hx : x < b) (hk : 0 ≤ k)
    (h : -k * d < drift d m w b) : -k * d < drift d m (w - w * x / b) (b - x) := by
  have hrem := Int.emod_nonneg (w * x) hb.ne'
  have hscale : b * (-k * d) < (b - x) * drift d m w b := by nlinarith [Int.mul_nonneg hk hd.le]
  have hprod : b * (-k * d) < b * drift d m (w - w * x / b) (b - x) := by
    rw [drift_shrink]
    nlinarith
  exact lt_of_mul_lt_mul_left hprod hb.le

end Drift
end Foundation
