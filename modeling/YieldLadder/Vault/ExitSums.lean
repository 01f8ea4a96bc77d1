import YieldLadder.Foundation.Book
import YieldLadder.Vault.Interface

/-! # The sums of an exit

Every vault makes the same checked sums for an exit, in the same order, and differs only
in what it records afterwards. A full exit takes the shares and the principal off the
totals; a partial one burns its part of the shares first.
-/
namespace YieldLadder
open Foundation

/-- The values a partial exit computes all fit in an `i128`. -/
structure Fits (b : Book Key) (k : Key) (amount : ℤ) : Prop where
  product : InI128 (b.shares.getD k 0 * amount)
  burned : InI128 (b.burned k amount)
  balance : InI128 (b.principal.getD k 0 - amount)
  shares : InI128 (b.shares.getD k 0 - b.burned k amount)
  totalShares : InI128 (b.totalShares - b.burned k amount)
  totalBalance : InI128 (b.totalPrincipal - amount)

variable {α : Type} {b : Book Key} {k : Key} {amount : ℤ} {a : α}
variable {full : ℤ → ℤ → α} {rest : ℤ → ℤ → ℤ → ℤ → α}

/-- The sums of an exit; `full` and `rest` are what the vault goes on with. -/
def exitSums (b : Book Key) (k : Key) (amount : ℤ) (full : ℤ → ℤ → α) (rest : ℤ → ℤ → ℤ → ℤ → α) :
    Except Fault α :=
  let balance := b.principal.getD k 0
  let userShares := b.shares.getD k 0
  if amount ≥ balance then do
    let totalShares ← subI128 b.totalShares userShares
    let totalBalance ← subI128 b.totalPrincipal balance
    pure (full totalShares totalBalance)
  else do
    let product ← mulI128 userShares amount
    let sharesToBurn ← divI128 product balance
    let newBalance ← subI128 balance amount
    let newShares ← subI128 userShares sharesToBurn
    let totalShares ← subI128 b.totalShares sharesToBurn
    let totalBalance ← subI128 b.totalPrincipal amount
    pure (rest newBalance newShares totalShares totalBalance)

theorem exitSums_full (hfull : b.principal.getD k 0 ≤ amount) : exitSums b k amount full rest = .ok a ↔
    (InI128 (b.totalShares - b.shares.getD k 0) ∧ InI128 (b.totalPrincipal - b.principal.getD k 0)) ∧
      a = full (b.totalShares - b.shares.getD k 0) (b.totalPrincipal - b.principal.getD k 0) := by
  unfold exitSums
  dsimp only
  rw [if_pos hfull]
  simp only [bind_eq_ok, subI128_eq_ok, pure_eq_ok]
  constructor
  · rintro ⟨_, ⟨hs, rfl⟩, _, ⟨hb, rfl⟩, rfl⟩
    exact ⟨⟨hs, hb⟩, rfl⟩
  · rintro ⟨⟨hs, hb⟩, rfl⟩
    exact ⟨_, ⟨hs, rfl⟩, _, ⟨hb, rfl⟩, rfl⟩

theorem exitSums_part (hlt : amount < b.principal.getD k 0) : exitSums b k amount full rest = .ok a ↔
    (b.principal.getD k 0 ≠ 0 ∧ Fits b k amount) ∧
      a = rest (b.principal.getD k 0 - amount) (b.shares.getD k 0 - b.burned k amount)
        (b.totalShares - b.burned k amount) (b.totalPrincipal - amount) := by
  unfold exitSums
  dsimp only
  rw [if_neg (not_le.mpr hlt)]
  simp only [bind_eq_ok, subI128_eq_ok, mulI128_eq_ok, divI128_eq_ok, pure_eq_ok]
  constructor
  · rintro ⟨_, ⟨hp, rfl⟩, _, ⟨h0, hd, rfl⟩, _, ⟨hb, rfl⟩, _, ⟨hs, rfl⟩, _, ⟨hts, rfl⟩, _, ⟨htb, rfl⟩, rfl⟩
    exact ⟨⟨h0, hp, hd, hb, hs, hts, htb⟩, rfl⟩
  · rintro ⟨⟨h0, hp, hd, hb, hs, hts, htb⟩, rfl⟩
    exact ⟨_, ⟨hp, rfl⟩, _, ⟨h0, hd, rfl⟩, _, ⟨hb, rfl⟩, _, ⟨hs, rfl⟩, _, ⟨hts, rfl⟩, _, ⟨htb, rfl⟩, rfl⟩

theorem exitSums_full_iff (hfull : b.principal.getD k 0 ≤ amount) : (∃ a, exitSums b k amount full rest = .ok a) ↔
    InI128 (b.totalShares - b.shares.getD k 0) ∧ InI128 (b.totalPrincipal - b.principal.getD k 0) := by
  simp only [exitSums_full hfull, exists_and_left, exists_eq, and_true]

theorem exitSums_part_iff (hlt : amount < b.principal.getD k 0) :
    (∃ a, exitSums b k amount full rest = .ok a) ↔ b.principal.getD k 0 ≠ 0 ∧ Fits b k amount := by
  simp only [exitSums_part hlt, exists_and_left, exists_eq, and_true]

/-- Whatever an exit records, its totals were checked. -/
theorem exitSums_post {P : α → Prop} (h : exitSums b k amount full rest = .ok a)
    (hclose : ∀ totalShares totalBalance, InI128 totalShares → InI128 totalBalance →
      P (full totalShares totalBalance))
    (hreduce : ∀ balance shares totalShares totalBalance, InI128 totalShares → InI128 totalBalance →
      P (rest balance shares totalShares totalBalance)) : P a := by
  by_cases hfull : b.principal.getD k 0 ≤ amount
  · obtain ⟨⟨hs, hb⟩, rfl⟩ := (exitSums_full hfull).mp h
    exact hclose _ _ hs hb
  · obtain ⟨⟨_, hfits⟩, rfl⟩ := (exitSums_part (not_le.mp hfull)).mp h
    exact hreduce _ _ _ _ hfits.totalShares hfits.totalBalance

end YieldLadder
