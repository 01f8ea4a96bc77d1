import Mathlib.Algebra.BigOperators.Finprod
import Mathlib.Algebra.Order.BigOperators.Group.Finset
import Mathlib.Data.Set.Card

/-! # Key-value stores with finitely many entries

A store is a lookup function together with the fact that only finitely many keys
are present, so two stores with the same entries are equal and the sum of all
entries is a number. The sums are taken along an injection into the keys: along
the identity it is the total, along `fun u => (u, a)` it is one column.
-/
namespace Foundation
variable {K V ι : Type*}

structure Store (K V : Type*) where
  get : K → Option V
  finite : {k | get k ≠ none}.Finite

namespace Store

@[ext] theorem ext {s t : Store K V} (h : ∀ k, s.get k = t.get k) : s = t := by
  cases s
  cases t
  simp only [Store.mk.injEq]
  exact funext h

def empty : Store K V := ⟨fun _ => none, by simp⟩

def getD (s : Store K V) (k : K) (d : V) : V := (s.get k).getD d

section Update
variable [DecidableEq K]

def set (s : Store K V) (k : K) (v : V) : Store K V :=
  ⟨fun j => if j = k then some v else s.get j, by
    refine (s.finite.insert k).subset ?_
    intro j hj
    by_cases h : j = k
    · exact Set.mem_insert_iff.mpr (.inl h)
    · exact Set.mem_insert_iff.mpr (.inr (by simpa [h] using hj))⟩

def remove (s : Store K V) (k : K) : Store K V :=
  ⟨fun j => if j = k then none else s.get j, by
    refine s.finite.subset ?_
    intro j hj
    by_cases h : j = k
    · simp [h] at hj
    · simpa [h] using hj⟩

@[simp] theorem get_set_self (s : Store K V) (k : K) (v : V) : (s.set k v).get k = some v := by
  simp [set]

@[simp] theorem get_set_of_ne (s : Store K V) {j k : K} (h : j ≠ k) (v : V) :
    (s.set k v).get j = s.get j := by
  simp [set, h]

theorem get_set (s : Store K V) (j k : K) (v : V) :
    (s.set k v).get j = if j = k then some v else s.get j := rfl

@[simp] theorem get_remove_self (s : Store K V) (k : K) : (s.remove k).get k = none := by
  simp [remove]

@[simp] theorem get_remove_of_ne (s : Store K V) {j k : K} (h : j ≠ k) :
    (s.remove k).get j = s.get j := by
  simp [remove, h]

theorem get_remove (s : Store K V) (j k : K) :
    (s.remove k).get j = if j = k then none else s.get j := rfl

theorem exists_get_set {s : Store K V} {j k : K} {v : V} :
    (∃ w, (s.set k v).get j = some w) ↔ j = k ∨ ∃ w, s.get j = some w := by
  rw [get_set]
  split
  · next h => exact iff_of_true ⟨v, rfl⟩ (.inl h)
  · next h => exact (or_iff_right h).symm

theorem exists_get_remove {s : Store K V} {j k : K} :
    (∃ w, (s.remove k).get j = some w) ↔ j ≠ k ∧ ∃ w, s.get j = some w := by
  rw [get_remove]
  split
  · next h => exact iff_of_false nofun fun hne => hne.1 h
  · next h => exact (and_iff_right h).symm

@[simp] theorem getD_set_self (s : Store K V) (k : K) (v d : V) : (s.set k v).getD k d = v := by
  simp [getD]

@[simp] theorem getD_set_of_ne (s : Store K V) {j k : K} (h : j ≠ k) (v d : V) :
    (s.set k v).getD j d = s.getD j d := by
  simp [getD, h]

@[simp] theorem getD_remove_self (s : Store K V) (k : K) (d : V) : (s.remove k).getD k d = d := by
  simp [getD]

@[simp] theorem getD_remove_of_ne (s : Store K V) {j k : K} (h : j ≠ k) (d : V) :
    (s.remove k).getD j d = s.getD j d := by
  simp [getD, h]

end Update

@[simp] theorem get_empty (k : K) : (empty : Store K V).get k = none := rfl
@[simp] theorem getD_empty (k : K) (d : V) : (empty : Store K V).getD k d = d := rfl

theorem exists_fresh_along [Infinite ι] (s : Store K V) {f : ι → K} (hf : f.Injective) :
    ∃ i, s.get (f i) = none := by
  obtain ⟨i, hi⟩ := (s.finite.preimage hf.injOn).exists_notMem
  exact ⟨i, not_not.mp hi⟩

theorem exists_fresh [Infinite K] (s : Store K V) : ∃ k, s.get k = none :=
  s.exists_fresh_along Function.injective_id

theorem getD_of_get {s : Store K V} {k : K} {v : V} (h : s.get k = some v) (d : V) :
    s.getD k d = v := by
  simp [getD, h]

theorem getD_of_none {s : Store K V} {k : K} (h : s.get k = none) (d : V) : s.getD k d = d := by
  simp [getD, h]

end Store

namespace Store
variable {s : Store K V} {k : K}

noncomputable def count (s : Store K V) (v : V) : ℕ := {k | s.get k = some v}.ncard

@[simp] theorem count_empty (v : V) : (empty : Store K V).count v = 0 := by
  simp [count]

theorem carriers_finite (s : Store K V) (v : V) : {k | s.get k = some v}.Finite := by
  refine s.finite.subset fun k hk => ?_
  have hget : s.get k = some v := hk
  simp [hget]

section Update
variable [DecidableEq K] [DecidableEq V]

theorem count_set (hnone : s.get k = none) (v w : V) :
    (s.set k v).count w = s.count w + if v = w then 1 else 0 := by
  unfold count
  by_cases hv : v = w
  · subst hv
    have hset : {j | (s.set k v).get j = some v} = insert k {j | s.get j = some v} := by
      ext j
      by_cases hj : j = k <;> simp [get_set, hj]
    have hk : k ∉ {j | s.get j = some v} := by simp [hnone]
    rw [hset, Set.ncard_insert_of_notMem hk (s.carriers_finite v), if_pos rfl]
  · have hset : {j | (s.set k v).get j = some w} = {j | s.get j = some w} := by
      ext j
      by_cases hj : j = k <;> simp [get_set, hj, hv, hnone]
    rw [hset, if_neg hv, add_zero]

theorem count_remove {v : V} (hget : s.get k = some v) (w : V) :
    s.count w = (s.remove k).count w + if v = w then 1 else 0 := by
  have hnone : (s.remove k).get k = none := get_remove_self s k
  have hback : (s.remove k).set k v = s := by
    apply Store.ext
    intro j
    rcases eq_or_ne j k with rfl | hj
    · rw [get_set_self, hget]
    · rw [get_set_of_ne _ hj, get_remove_of_ne _ hj]
  rw [← count_set hnone v w, hback]

end Update
end Store

theorem finsum_update [DecidableEq ι] {g : ι → ℤ} (hg : g.support.Finite) (i : ι) (v : ℤ) :
    ∑ᶠ j, Function.update g i v j = ∑ᶠ j, g j - g i + v := by
  have hsplit : Function.update g i v = fun j => g j + Pi.single (M := fun _ => ℤ) i (v - g i) j := by
    funext j
    by_cases h : j = i
    · subst h
      simp
    · simp [h]
  have hsingle : (Function.support fun j => Pi.single (M := fun _ => ℤ) i (v - g i) j).Finite :=
    (Set.finite_singleton i).subset Pi.support_single_subset
  have hone : ∑ᶠ j, Pi.single (M := fun _ => ℤ) i (v - g i) j = v - g i := by
    rw [finsum_eq_single _ i (fun j hj => Pi.single_eq_of_ne hj _), Pi.single_eq_same]
  rw [hsplit, finsum_add_distrib hg hsingle, hone]
  omega

namespace Store
variable {s : Store K ℤ} {f : ι → K}

noncomputable def sumOver (s : Store K ℤ) (f : ι → K) : ℤ := ∑ᶠ i, s.getD (f i) 0

theorem getD_support_finite (s : Store K ℤ) (hf : f.Injective) :
    (Function.support fun i => s.getD (f i) 0).Finite := by
  refine (s.finite.preimage hf.injOn).subset ?_
  intro i hi hnone
  exact hi (getD_of_none hnone 0)

@[simp] theorem sumOver_empty (f : ι → K) : (empty : Store K ℤ).sumOver f = 0 := by
  simp [sumOver]

section Update
variable [DecidableEq K] [DecidableEq ι]

theorem sumOver_set (s : Store K ℤ) (hf : f.Injective) (i : ι) (v : ℤ) :
    (s.set (f i) v).sumOver f = s.sumOver f - s.getD (f i) 0 + v := by
  have h : (fun j => (s.set (f i) v).getD (f j) 0) =
      Function.update (fun j => s.getD (f j) 0) i v := by
    funext j
    by_cases hj : j = i
    · subst hj
      simp
    · simp [hj, hf.ne hj]
  unfold sumOver
  rw [h, finsum_update (s.getD_support_finite hf)]

theorem sumOver_remove (s : Store K ℤ) (hf : f.Injective) (i : ι) :
    (s.remove (f i)).sumOver f = s.sumOver f - s.getD (f i) 0 := by
  have h : (fun j => (s.remove (f i)).getD (f j) 0) =
      Function.update (fun j => s.getD (f j) 0) i 0 := by
    funext j
    by_cases hj : j = i
    · subst hj
      simp
    · simp [hj, hf.ne hj]
  unfold sumOver
  rw [h, finsum_update (s.getD_support_finite hf)]
  omega

end Update

/-- When one entry along `f` moves by `x` and the others stay, the sum moves by `x`. -/
theorem sumOver_shift [DecidableEq ι] {t : Store K ℤ} (hf : f.Injective) (i : ι) (x : ℤ)
    (h : ∀ j, t.getD (f j) 0 = s.getD (f j) 0 + if j = i then x else 0) :
    t.sumOver f = s.sumOver f + x := by
  have hupdate : (fun j => t.getD (f j) 0) =
      Function.update (fun j => s.getD (f j) 0) i (s.getD (f i) 0 + x) := by
    funext j
    by_cases hj : j = i
    · subst hj
      simp [h]
    · simp [h, hj]
  unfold sumOver
  rw [hupdate, finsum_update (s.getD_support_finite hf)]
  omega

theorem sumOver_nonneg (hs : ∀ k, 0 ≤ s.getD k 0) : 0 ≤ s.sumOver f :=
  finsum_nonneg fun i => hs (f i)

theorem getD_le_sumOver (hf : f.Injective) (hs : ∀ k, 0 ≤ s.getD k 0) (i : ι) :
    s.getD (f i) 0 ≤ s.sumOver f := by
  classical
  have hfin := s.getD_support_finite hf
  have hsub : (Function.support fun j => s.getD (f j) 0) ⊆ ↑(insert i hfin.toFinset) := by
    intro j hj
    simpa using Or.inr hj
  unfold sumOver
  rw [finsum_eq_sum_of_support_subset _ hsub]
  exact Finset.single_le_sum (f := fun j => s.getD (f j) 0) (fun j _ => hs (f j)) (by simp)

end Store
end Foundation
