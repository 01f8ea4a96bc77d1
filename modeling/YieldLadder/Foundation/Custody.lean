import YieldLadder.Foundation.Store

/-! # A custodian of one asset

A custodian holds one asset and owes each holder a claim on it. A move changes
one claim and the holding; the surplus of the holding over all claims moves by
the difference, and the claims of the other holders stay.
-/
namespace Foundation
variable {H : Type*}

structure Custody (H : Type*) where
  holding : ℤ
  claim : H → ℤ
  finite : claim.support.Finite

namespace Custody

noncomputable def owed (c : Custody H) : ℤ := ∑ᶠ h, c.claim h

noncomputable def surplus (c : Custody H) : ℤ := c.holding - c.owed

def Solvent (c : Custody H) : Prop := c.owed ≤ c.holding

/-- The claim of `h` changes by `x` and the holding by `y`. -/
structure Move [DecidableEq H] (c : Custody H) (h : H) (x y : ℤ) (c' : Custody H) : Prop where
  holding : c'.holding = c.holding + y
  claim : ∀ j, c'.claim j = if j = h then c.claim h + x else c.claim j

theorem solvent_iff_surplus {c : Custody H} : c.Solvent ↔ 0 ≤ c.surplus := by
  unfold Solvent surplus
  omega

noncomputable def owedOthers [DecidableEq H] (c : Custody H) (h : H) : ℤ :=
  ∑ᶠ j, if j = h then 0 else c.claim j

variable [DecidableEq H] {c c' : Custody H} {h : H} {x y : ℤ}

theorem Move.owed (hm : c.Move h x y c') : c'.owed = c.owed + x := by
  have hclaim : c'.claim = Function.update c.claim h (c.claim h + x) := by
    funext j
    rw [hm.claim, Function.update_apply]
  unfold Custody.owed
  rw [hclaim, finsum_update c.finite]
  omega

theorem Move.surplus (hm : c.Move h x y c') : c'.surplus = c.surplus + (y - x) := by
  unfold Custody.surplus
  rw [hm.owed, hm.holding]
  omega

theorem Move.owedOthers (hm : c.Move h x y c') : c'.owedOthers h = c.owedOthers h := by
  unfold Custody.owedOthers
  congr 1
  funext j
  by_cases hj : j = h
  · rw [if_pos hj, if_pos hj]
  · rw [if_neg hj, if_neg hj, hm.claim, if_neg hj]

theorem Move.solvent (hm : c.Move h x y c') (hxy : x ≤ y) (hc : c.Solvent) : c'.Solvent := by
  rw [solvent_iff_surplus] at hc ⊢
  rw [hm.surplus]
  omega

theorem Move.of_eq (h : H) (hh : c'.holding = c.holding) (hc : c'.claim = c.claim) :
    c.Move h 0 0 c' := by
  constructor
  · omega
  · intro j
    rw [hc]
    split
    · next hj => rw [hj, add_zero]
    · rfl

end Custody
end Foundation
