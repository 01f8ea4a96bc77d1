import Mathlib.Algebra.BigOperators.Group.List.Basic
import Mathlib.Algebra.Order.Ring.Int
import Mathlib.Data.List.Nodup

/-! # Maps with an order of iteration, and splitting a whole by their values

A dictionary is its list of entries, no key occurring twice. Its values can be
weights out of a denominator: each key then has the part of a whole that its
weight stands for, rounded down, and the parts never add up to more.
-/
namespace Foundation
variable {K V : Type*}

structure Dict (K V : Type*) where
  entries : List (K × V)
  nodup : (entries.map Prod.fst).Nodup

namespace Dict

def empty : Dict K V := ⟨[], List.nodup_nil⟩

section Update
variable [DecidableEq K]

def get (m : Dict K V) (k : K) : Option V := (m.entries.find? (·.1 = k)).map Prod.snd

/-- The value of a present key is replaced in place, a new key comes last. -/
def set (m : Dict K V) (k : K) (v : V) : Dict K V where
  entries := if k ∈ m.entries.map Prod.fst
    then m.entries.map fun e => if e.1 = k then (k, v) else e
    else m.entries ++ [(k, v)]
  nodup := by
    have hkeys : (m.entries.map fun e => if e.1 = k then (k, v) else e).map Prod.fst =
        m.entries.map Prod.fst := by
      rw [List.map_map]
      refine List.map_congr_left fun e _ => ?_
      by_cases he : e.1 = k <;> simp [he]
    by_cases hk : k ∈ m.entries.map Prod.fst
    · rw [if_pos hk, hkeys]
      exact m.nodup
    · rw [if_neg hk, List.map_append]
      exact m.nodup.append (List.nodup_singleton k) (by simpa using hk)

theorem mem_set {m : Dict K V} {k : K} {v : V} {e : K × V} :
    e ∈ (m.set k v).entries ↔ e = (k, v) ∨ e ∈ m.entries ∧ e.1 ≠ k := by
  unfold set
  split
  · next hk =>
    obtain ⟨x, hx, rfl⟩ := List.mem_map.mp hk
    rw [List.mem_map]
    constructor
    · rintro ⟨y, hy, rfl⟩
      by_cases hyk : y.1 = x.1
      · simp [hyk]
      · simp [hyk, hy]
    · rintro (rfl | ⟨he, hne⟩)
      · exact ⟨x, hx, by simp⟩
      · exact ⟨e, he, by simp [hne]⟩
  · next hk =>
    have hne : e ∈ m.entries → e.1 ≠ k := fun he hek => hk (hek ▸ List.mem_map_of_mem he)
    rw [List.mem_append, List.mem_singleton]
    tauto

theorem get_eq_some {m : Dict K V} {k : K} {v : V} : m.get k = some v ↔ (k, v) ∈ m.entries := by
  unfold get
  constructor
  · intro h
    obtain ⟨⟨j, x⟩, hfind, rfl⟩ := Option.map_eq_some_iff.mp h
    obtain rfl : j = k := by simpa using List.find?_some hfind
    exact List.mem_of_find?_eq_some hfind
  · intro h
    cases hfind : m.entries.find? (·.1 = k) with
    | none => simpa using List.find?_eq_none.mp hfind _ h
    | some e =>
      have hk : e.1 = k := by simpa using List.find?_some hfind
      have heq : e = (k, v) :=
        List.inj_on_of_nodup_map m.nodup (List.mem_of_find?_eq_some hfind) h hk
      simp [heq]

theorem get_set (m : Dict K V) (k j : K) (v : V) :
    (m.set k v).get j = if j = k then some v else m.get j := by
  apply Option.ext
  intro x
  have h : (m.set k v).get j = some x ↔ j = k ∧ x = v ∨ m.get j = some x ∧ j ≠ k := by
    rw [get_eq_some, get_eq_some, mem_set, Prod.mk.injEq]
  rw [h]
  by_cases hj : j = k
  · simp [hj, eq_comm]
  · simp [hj]

/-- The same keys with changed values. -/
def map {W : Type*} (f : V → W) (m : Dict K V) : Dict K W where
  entries := m.entries.map fun e => (e.1, f e.2)
  nodup := by
    rw [List.map_map]
    exact m.nodup

theorem get_map {W : Type*} (f : V → W) (m : Dict K V) (k : K) : (m.map f).get k = (m.get k).map f := by
  simp [map, get, List.find?_map, Function.comp_def]

end Update

section Total
variable [DecidableEq K] {p : K → Prop} [DecidablePred p]

def total (p : K → Prop) [DecidablePred p] (m : Dict K ℤ) : ℤ :=
  ((m.entries.filter (p ·.1)).map Prod.snd).sum

theorem total_split (m : Dict K ℤ) (k : K) :
    m.total p = m.total (fun j => p j ∧ j ≠ k) + if p k then (m.get k).getD 0 else 0 := by
  obtain ⟨l, hl⟩ := m
  unfold total get
  dsimp only
  induction l with
  | nil => simp
  | cons e l ih =>
    rw [List.map_cons, List.nodup_cons] at hl
    have hrest := ih hl.2
    by_cases he : e.1 = k
    · have hnone : (l.find? (·.1 = k)) = none := by
        rw [List.find?_eq_none]
        intro x hx
        have hne : x.1 ≠ k := fun hxk => hl.1 ((hxk.trans he.symm) ▸ List.mem_map_of_mem hx)
        simpa using hne
      rw [hnone] at hrest
      by_cases hp : p k
      · simp_all
        omega
      · simp_all
    · by_cases hp : p e.1
      · simp_all
        omega
      · simp_all

theorem total_others_set (m : Dict K ℤ) (k : K) (v : ℤ) :
    (m.set k v).total (fun j => p j ∧ j ≠ k) = m.total (fun j => p j ∧ j ≠ k) := by
  have hmap : ∀ l : List (K × ℤ), (l.map fun e => if e.1 = k then (k, v) else e).filter
      (fun e => p e.1 ∧ e.1 ≠ k) = l.filter (fun e => p e.1 ∧ e.1 ≠ k) := by
    intro l
    induction l with
    | nil => rfl
    | cons e l ih => by_cases he : e.1 = k <;> simp_all [List.filter_cons]
  unfold total set
  congr 2
  dsimp only
  split
  · exact hmap m.entries
  · simp

theorem total_set (m : Dict K ℤ) (k : K) (v : ℤ) :
    (m.set k v).total p = m.total (fun j => p j ∧ j ≠ k) + if p k then v else 0 := by
  rw [total_split (m.set k v) k, total_others_set, get_set, if_pos rfl]
  rfl

theorem total_set_sub (m : Dict K ℤ) (k : K) (v : ℤ) :
    (m.set k v).total p = m.total p + if p k then v - (m.get k).getD 0 else 0 := by
  have hsplit := total_split (p := p) m k
  rw [total_set]
  split <;> simp_all

theorem total_self (m : Dict K ℤ) (k : K) : m.total (· = k) = (m.get k).getD 0 := by
  have hnone : m.total (fun j => j = k ∧ j ≠ k) = 0 := by
    simp [total]
  rw [total_split (p := (· = k)) m k, hnone, zero_add, if_pos rfl]

end Total

section Accumulate
variable [DecidableEq K] {α : Type*} {key : α → K} {value : α → ℤ} {p : K → Prop} [DecidablePred p]

def accumulate (key : α → K) (value : α → ℤ) (l : List α) : Dict K ℤ :=
  l.foldl (fun m a => m.set (key a) ((m.get (key a)).getD 0 + value a)) .empty

theorem total_accumulate (l : List α) :
    (accumulate key value l).total p = (l.map fun a => if p (key a) then value a else 0).sum := by
  have hfold : ∀ (l : List α) (m : Dict K ℤ),
      (l.foldl (fun m a => m.set (key a) ((m.get (key a)).getD 0 + value a)) m).total p =
        m.total p + (l.map fun a => if p (key a) then value a else 0).sum := by
    intro l
    induction l with
    | nil => simp
    | cons a l ih =>
      intro m
      rw [List.foldl_cons, ih, total_set_sub, List.map_cons, List.sum_cons, add_sub_cancel_left,
        add_assoc]
  rw [accumulate, hfold l .empty]
  simp [total, empty]

theorem getD_accumulate (l : List α) (k : K) :
    ((accumulate key value l).get k).getD 0 =
      (l.map fun a => if key a = k then value a else 0).sum := by
  rw [← total_self, total_accumulate]

end Accumulate
end Dict

/-- The part of `whole` that `weight` out of `n` stands for. -/
def part (n whole weight : ℤ) : ℤ := whole * weight / n

section Part
variable {n whole weight cap : ℤ}

theorem part_nonneg (hn : 0 < n) (hwhole : 0 ≤ whole) (hweight : 0 ≤ weight) :
    0 ≤ part n whole weight :=
  Int.ediv_nonneg (Int.mul_nonneg hwhole hweight) hn.le

theorem mul_part_le (hn : 0 < n) : n * part n whole weight ≤ whole * weight :=
  Int.mul_ediv_self_le hn.ne'

theorem part_le (hn : 0 < n) (hwhole : 0 ≤ whole) (hweight : weight ≤ n) :
    part n whole weight ≤ whole :=
  Int.ediv_le_of_le_mul hn (Int.mul_le_mul_of_nonneg_left hweight hwhole)

theorem part_add_le {x : ℤ} (hn : 0 < n) (hx : 0 ≤ x) (hweight : weight ≤ n) :
    part n (whole + x) weight ≤ part n whole weight + x := by
  have hle : (whole + x) * weight ≤ whole * weight + x * n := by
    have := Int.mul_le_mul_of_nonneg_left hweight hx
    rw [Int.add_mul]
    omega
  calc part n (whole + x) weight ≤ (whole * weight + x * n) / n := Int.ediv_le_ediv hn hle
    _ = part n whole weight + x := Int.add_mul_ediv_right _ _ hn.ne'

theorem sum_part_le (hn : 0 < n) (hwhole : 0 ≤ whole) {weights : List ℤ} (hsum : weights.sum ≤ n) :
    (weights.map (part n whole)).sum ≤ whole := by
  have hle : ∀ weights : List ℤ, n * (weights.map (part n whole)).sum ≤ whole * weights.sum := by
    intro weights
    induction weights with
    | nil => simp
    | cons b weights ih =>
      have hb : n * part n whole b ≤ whole * b := mul_part_le hn
      simp only [List.map_cons, List.sum_cons, Int.mul_add]
      omega
  have hall : n * (weights.map (part n whole)).sum ≤ n * whole := by
    calc n * (weights.map (part n whole)).sum ≤ whole * weights.sum := hle weights
      _ ≤ whole * n := Int.mul_le_mul_of_nonneg_left hsum hwhole
      _ = n * whole := Int.mul_comm whole n
  exact Int.le_of_mul_le_mul_left hall hn

end Part
end Foundation
