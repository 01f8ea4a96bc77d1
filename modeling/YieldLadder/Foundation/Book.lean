import Mathlib.Tactic.Linarith
import YieldLadder.Foundation.Store

/-! # A book of positions with principal, shares and running totals

Each holder has a principal and a number of shares, and the book carries both
totals as separate numbers. A deposit adds to both, a partial exit takes out
principal and burns shares in proportion, rounded toward zero, and a full exit
closes the position and clamps the total at zero. The book is coherent when the
totals are the sums, every entry is positive and both stores have the same keys;
every move keeps that, also a partial exit of a negative amount.
-/
namespace Foundation
variable {K : Type*} [DecidableEq K]

structure Book (K : Type*) where
  principal : Store K ℤ
  shares : Store K ℤ
  totalPrincipal : ℤ
  totalShares : ℤ

namespace Book

def empty : Book K := ⟨.empty, .empty, 0, 0⟩

def add (b : Book K) (k : K) (x sh : ℤ) : Book K where
  principal := b.principal.set k (b.principal.getD k 0 + x)
  shares := b.shares.set k (b.shares.getD k 0 + sh)
  totalPrincipal := b.totalPrincipal + x
  totalShares := b.totalShares + sh

/-- The shares a partial exit of `x` burns. -/
def burned (b : Book K) (k : K) (x : ℤ) : ℤ :=
  (b.shares.getD k 0 * x).tdiv (b.principal.getD k 0)

def reduce (b : Book K) (k : K) (x : ℤ) : Book K where
  principal := b.principal.set k (b.principal.getD k 0 - x)
  shares := b.shares.set k (b.shares.getD k 0 - b.burned k x)
  totalPrincipal := b.totalPrincipal - x
  totalShares := b.totalShares - b.burned k x

def close (b : Book K) (k : K) : Book K where
  principal := b.principal.remove k
  shares := b.shares.remove k
  totalPrincipal := max (b.totalPrincipal - b.principal.getD k 0) 0
  totalShares := b.totalShares - b.shares.getD k 0

/-- An exit of `x`: all that is there closes the position, less reduces it. -/
def takeOut (b : Book K) (k : K) (x : ℤ) : Book K :=
  if b.principal.getD k 0 ≤ x then b.close k else b.reduce k x

inductive Step : Book K → Book K → Prop
  | idle (b : Book K) : Step b b
  | add (b : Book K) (k : K) (x sh : ℤ) (hx : 0 < x) (hsh : 0 < sh) : Step b (b.add k x sh)
  | takeOut (b : Book K) (k : K) (x : ℤ)
      (h0 : x < b.principal.getD k 0 → b.principal.getD k 0 ≠ 0) : Step b (b.takeOut k x)

structure Coherent (b : Book K) : Prop where
  totalPrincipal_eq : b.totalPrincipal = b.principal.sumOver id
  totalShares_eq : b.totalShares = b.shares.sumOver id
  principal_pos : ∀ k x, b.principal.get k = some x → 0 < x
  shares_pos : ∀ k x, b.shares.get k = some x → 0 < x
  same_keys : ∀ k, b.principal.get k = none ↔ b.shares.get k = none

omit [DecidableEq K] in
theorem coherent_empty : (empty : Book K).Coherent := by
  constructor <;> simp [empty]

variable {b b' : Book K} {k : K} {x sh : ℤ}

omit [DecidableEq K] in
theorem Coherent.principal_nonneg (h : b.Coherent) (k : K) : 0 ≤ b.principal.getD k 0 := by
  cases hk : b.principal.get k with
  | none => rw [Store.getD_of_none hk]
  | some x =>
    rw [Store.getD_of_get hk]
    exact (h.principal_pos k x hk).le

omit [DecidableEq K] in
theorem Coherent.shares_nonneg (h : b.Coherent) (k : K) : 0 ≤ b.shares.getD k 0 := by
  cases hk : b.shares.get k with
  | none => rw [Store.getD_of_none hk]
  | some x =>
    rw [Store.getD_of_get hk]
    exact (h.shares_pos k x hk).le

omit [DecidableEq K] in
theorem Coherent.shares_getD_pos (h : b.Coherent) (hk : b.principal.getD k 0 ≠ 0) :
    0 < b.shares.getD k 0 := by
  cases hs : b.shares.get k with
  | none => exact absurd (Store.getD_of_none ((h.same_keys k).mpr hs) 0) hk
  | some x =>
    rw [Store.getD_of_get hs]
    exact h.shares_pos k x hs

omit [DecidableEq K] in
theorem Coherent.shares_pos_iff (h : b.Coherent) (k : K) : 0 < b.shares.getD k 0 ↔ 0 < b.principal.getD k 0 := by
  constructor
  · intro hpos
    cases hk : b.principal.get k with
    | none =>
      rw [Store.getD_of_none ((h.same_keys k).mp hk)] at hpos
      exact absurd hpos (lt_irrefl 0)
    | some x =>
      rw [Store.getD_of_get hk]
      exact h.principal_pos k x hk
  · intro hpos
    exact h.shares_getD_pos hpos.ne'

omit [DecidableEq K] in
theorem Coherent.principal_le_total (h : b.Coherent) (k : K) :
    b.principal.getD k 0 ≤ b.totalPrincipal := by
  rw [h.totalPrincipal_eq]
  exact Store.getD_le_sumOver Function.injective_id h.principal_nonneg k

omit [DecidableEq K] in
theorem Coherent.totalPrincipal_eq_zero (h : b.Coherent) :
    b.totalPrincipal = 0 ↔ ∀ k, b.principal.getD k 0 = 0 := by
  constructor
  · intro h0 k
    have hle := h.principal_le_total k
    rw [h0] at hle
    exact le_antisymm hle (h.principal_nonneg k)
  · intro hall
    rw [h.totalPrincipal_eq]
    exact finsum_eq_zero_of_forall_eq_zero hall

omit [DecidableEq K] in
theorem Coherent.shares_le_total (h : b.Coherent) (k : K) : b.shares.getD k 0 ≤ b.totalShares := by
  rw [h.totalShares_eq]
  exact Store.getD_le_sumOver Function.injective_id h.shares_nonneg k

/-- On a coherent book the clamp of a full exit does nothing. -/
theorem Coherent.close_totalPrincipal (h : b.Coherent) (k : K) :
    (b.close k).totalPrincipal = b.totalPrincipal - b.principal.getD k 0 := by
  have := h.principal_le_total k
  exact max_eq_left (by omega)

theorem Coherent.add (h : b.Coherent) (hx : 0 < x) (hsh : 0 < sh) : (b.add k x sh).Coherent where
  totalPrincipal_eq := by
    have := Store.sumOver_set b.principal Function.injective_id k (b.principal.getD k 0 + x)
    have := h.totalPrincipal_eq
    simp only [Book.add, id_eq] at *
    omega
  totalShares_eq := by
    have := Store.sumOver_set b.shares Function.injective_id k (b.shares.getD k 0 + sh)
    have := h.totalShares_eq
    simp only [Book.add, id_eq] at *
    omega
  principal_pos j y hj := by
    simp only [Book.add, Store.get_set] at hj
    split at hj
    · have := h.principal_nonneg k
      cases hj
      omega
    · exact h.principal_pos j y hj
  shares_pos j y hj := by
    simp only [Book.add, Store.get_set] at hj
    split at hj
    · have := h.shares_nonneg k
      cases hj
      omega
    · exact h.shares_pos j y hj
  same_keys j := by
    simp only [Book.add, Store.get_set]
    split
    · simp
    · exact h.same_keys j

omit [DecidableEq K] in
/-- A partial exit never burns every share: what is burned stays below the holding,
and a negative amount burns a negative number. -/
theorem burned_lt (hs : 0 < b.shares.getD k 0) (hp : 0 < b.principal.getD k 0)
    (hx : x < b.principal.getD k 0) : b.burned k x < b.shares.getD k 0 := by
  unfold burned
  generalize b.shares.getD k 0 = s at *
  generalize b.principal.getD k 0 = p at *
  by_cases hneg : x < 0
  · have hn : 0 ≤ (s * -x).tdiv p := Int.tdiv_nonneg (Int.mul_nonneg hs.le (by omega)) hp.le
    rw [Int.mul_neg, Int.neg_tdiv] at hn
    omega
  · have hsx : 0 ≤ s * x := Int.mul_nonneg hs.le (by omega)
    rw [Int.tdiv_eq_ediv_of_nonneg hsx]
    exact Int.ediv_lt_of_lt_mul hp (by nlinarith)

omit [DecidableEq K] in
theorem burned_nonneg (h : b.Coherent) (k : K) (hx : 0 ≤ x) : 0 ≤ b.burned k x :=
  Int.tdiv_nonneg (Int.mul_nonneg (h.shares_nonneg k) hx) (h.principal_nonneg k)

theorem Coherent.reduce (h : b.Coherent) (hx : x < b.principal.getD k 0)
    (h0 : b.principal.getD k 0 ≠ 0) : (b.reduce k x).Coherent := by
  have hp : 0 < b.principal.getD k 0 := lt_of_le_of_ne (h.principal_nonneg k) (Ne.symm h0)
  have hb := burned_lt (h.shares_getD_pos h0) hp hx
  constructor
  · have := Store.sumOver_set b.principal Function.injective_id k (b.principal.getD k 0 - x)
    have := h.totalPrincipal_eq
    simp only [Book.reduce, id_eq] at *
    omega
  · have := Store.sumOver_set b.shares Function.injective_id k (b.shares.getD k 0 - b.burned k x)
    have := h.totalShares_eq
    simp only [Book.reduce, id_eq] at *
    omega
  · intro j y hj
    simp only [Book.reduce, Store.get_set] at hj
    split at hj
    · cases hj
      omega
    · exact h.principal_pos j y hj
  · intro j y hj
    simp only [Book.reduce, Store.get_set] at hj
    split at hj
    · cases hj
      omega
    · exact h.shares_pos j y hj
  · intro j
    simp only [Book.reduce, Store.get_set]
    split
    · simp
    · exact h.same_keys j

theorem Coherent.close (h : b.Coherent) (k : K) : (b.close k).Coherent := by
  constructor
  · have := Store.sumOver_remove b.principal Function.injective_id k
    have := h.close_totalPrincipal k
    have := h.totalPrincipal_eq
    simp only [Book.close, id_eq] at *
    omega
  · have := Store.sumOver_remove b.shares Function.injective_id k
    have := h.totalShares_eq
    simp only [Book.close, id_eq] at *
    omega
  · intro j y hj
    simp only [Book.close, Store.get_remove] at hj
    split at hj
    · cases hj
    · exact h.principal_pos j y hj
  · intro j y hj
    simp only [Book.close, Store.get_remove] at hj
    split at hj
    · cases hj
    · exact h.shares_pos j y hj
  · intro j
    simp only [Book.close, Store.get_remove]
    split
    · simp
    · exact h.same_keys j

theorem Coherent.takeOut (h : b.Coherent)
    (h0 : x < b.principal.getD k 0 → b.principal.getD k 0 ≠ 0) : (b.takeOut k x).Coherent := by
  unfold Book.takeOut
  split
  · exact h.close k
  · exact h.reduce (by omega) (h0 (by omega))

theorem Step.coherent (hs : Step b b') (h : b.Coherent) : b'.Coherent := by
  cases hs with
  | idle => exact h
  | add k x sh hx hsh => exact h.add hx hsh
  | takeOut k x h0 => exact h.takeOut h0

theorem takeOut_principal (hx : x ≤ b.principal.getD k 0) (j : K) :
    (b.takeOut k x).principal.getD j 0 =
      if j = k then b.principal.getD k 0 - x else b.principal.getD j 0 := by
  by_cases hj : j = k
  · subst hj
    by_cases hc : b.principal.getD j 0 ≤ x
    · simp only [takeOut, if_pos hc, close, Store.getD_remove_self, if_true]
      omega
    · simp [takeOut, if_neg hc, reduce]
  · by_cases hc : b.principal.getD k 0 ≤ x <;> simp [takeOut, hc, close, reduce, hj]

theorem takeOut_totalPrincipal (h : b.Coherent) (hx : x ≤ b.principal.getD k 0) :
    (b.takeOut k x).totalPrincipal = b.totalPrincipal - x := by
  by_cases hc : b.principal.getD k 0 ≤ x
  · have hclose : (b.close k).totalPrincipal = _ := h.close_totalPrincipal k
    rw [takeOut, if_pos hc, hclose]
    omega
  · simp [takeOut, if_neg hc, reduce]

/-- A full exit leaves what the formulas of a partial one give at the whole balance: nothing of the
position, and totals less exactly what it held. -/
theorem close_reads_reduce (h : b.Coherent) (hk : b.principal.getD k 0 ≠ 0) (j : K) :
    (b.close k).principal.getD j 0 = (b.reduce k (b.principal.getD k 0)).principal.getD j 0 ∧
      (b.close k).shares.getD j 0 = (b.reduce k (b.principal.getD k 0)).shares.getD j 0 ∧
      (b.close k).totalPrincipal = (b.reduce k (b.principal.getD k 0)).totalPrincipal ∧
      (b.close k).totalShares = (b.reduce k (b.principal.getD k 0)).totalShares := by
  have hburn : b.burned k (b.principal.getD k 0) = b.shares.getD k 0 := Int.mul_tdiv_cancel _ hk
  refine ⟨?_, ?_, h.close_totalPrincipal k, by simp only [close, reduce, hburn]⟩
  · by_cases hj : j = k
    · subst hj
      simp [close, reduce]
    · simp [close, reduce, hj]
  · by_cases hj : j = k
    · subst hj
      simp [close, reduce, hburn]
    · simp [close, reduce, hj]

theorem add_principal (j : K) :
    (b.add k x sh).principal.getD j 0 =
      if j = k then b.principal.getD k 0 + x else b.principal.getD j 0 := by
  by_cases hj : j = k
  · subst hj
    simp [add]
  · simp [add, hj]

theorem add_shares (j : K) :
    (b.add k x sh).shares.getD j 0 = if j = k then b.shares.getD k 0 + sh else b.shares.getD j 0 := by
  by_cases hj : j = k
  · subst hj
    simp [add]
  · simp [add, hj]

theorem takeOut_of_le (hx : b.principal.getD k 0 ≤ x) : b.takeOut k x = b.close k :=
  if_pos hx

theorem takeOut_of_lt (hx : x < b.principal.getD k 0) : b.takeOut k x = b.reduce k x :=
  if_neg (not_le.mpr hx)

theorem takeOut_principal_of_ne {j : K} (hj : j ≠ k) :
    (b.takeOut k x).principal.get j = b.principal.get j := by
  rcases le_or_gt (b.principal.getD k 0) x with hle | hlt
  · rw [takeOut_of_le hle]
    exact Store.get_remove_of_ne _ hj
  · rw [takeOut_of_lt hlt]
    exact Store.get_set_of_ne _ hj _

theorem takeOut_shares_of_ne {j : K} (hj : j ≠ k) :
    (b.takeOut k x).shares.get j = b.shares.get j := by
  rcases le_or_gt (b.principal.getD k 0) x with hle | hlt
  · rw [takeOut_of_le hle]
    exact Store.get_remove_of_ne _ hj
  · rw [takeOut_of_lt hlt]
    exact Store.get_set_of_ne _ hj _

end Book
end Foundation
