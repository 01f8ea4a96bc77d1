import Mathlib.Algebra.Order.Archimedean.Basic
import Mathlib.Algebra.Order.Floor.Semiring
import YieldLadder.Foundation.Traced

/-! # Loops that a clock ends

A loop takes turns until one of them is the last. Nothing in the loop bounds the
number of turns: when it also ends at a deadline, and the clock moves at every turn,
the deadline does.
-/
namespace Foundation

namespace Traced
variable {E ε α : Type}

def after (events : List E) (x : Traced E ε α) : Traced E ε α := ⟨events ++ x.trace, x.result⟩

theorem after_after (es fs : List E) (x : Traced E ε α) : (x.after fs).after es = x.after (es ++ fs) := by
  simp only [after, List.append_assoc]

/-- The computation as it looks when events and errors are named otherwise. -/
def relabel {F δ : Type} (f : E → F) (g : ε → δ) (x : Traced E ε α) : Traced F δ α :=
  ⟨x.trace.map f, x.result.mapError g⟩

theorem relabel_after {F δ : Type} (f : E → F) (g : ε → δ) (events : List E) (x : Traced E ε α) :
    (x.after events).relabel f g = (x.relabel f g).after (events.map f) := by
  simp only [relabel, after, List.map_append]

theorem relabel_mapError {F ε' δ : Type} (f : E → F) (g : ε' → δ) (h : ε → ε') (x : Traced E ε α) :
    (x.mapError h).relabel f g = x.relabel f (fun e => g (h e)) := by
  obtain ⟨trace, result⟩ := x
  cases result <;> rfl

theorem relabel_bind_congr {F δ β : Type} {f : E → F} {g : ε → δ} {x y : Traced E ε α} {k l : α → Traced E ε β}
    (hx : x.relabel f g = y.relabel f g) (h : ∀ a, x.result = .ok a → (k a).relabel f g = (l a).relabel f g) :
    (x >>= k).relabel f g = (y >>= l).relabel f g := by
  have htrace : x.trace.map f = y.trace.map f := congrArg Traced.trace hx
  have hresult : x.result.mapError g = y.result.mapError g := congrArg Traced.result hx
  cases hxr : x.result with
  | ok a =>
    have hyr : y.result = .ok a := mapError_eq_ok.mp (hresult.symm.trans (congrArg (Except.mapError g) hxr))
    have hrest := h a hxr
    have htrace' : (k a).trace.map f = (l a).trace.map f := congrArg Traced.trace hrest
    have hresult' : (k a).result.mapError g = (l a).result.mapError g := congrArg Traced.result hrest
    rw [bind_of_ok hxr, bind_of_ok hyr]
    simp only [relabel, List.map_append, htrace, htrace', hresult']
  | error e =>
    cases hyr : y.result with
    | ok b =>
      rw [hxr, hyr] at hresult
      cases hresult
    | error e' =>
      rw [hxr, hyr] at hresult
      have he : g e = g e' := Except.error.inj hresult
      rw [bind_of_error hxr, bind_of_error hyr]
      simp only [relabel, htrace, Except.mapError, he]

theorem map_relabel_after {F δ : Type} (f : E → F) (g : ε → δ) (events : List E)
    (o : Option (Traced E ε α)) :
    (o.map (after events)).map (relabel f g) = (o.map (relabel f g)).map (after (events.map f)) := by
  cases o with
  | none => rfl
  | some x => simp only [Option.map_some, relabel_after]

/-- The turns from `attempt` on, until one is the last. -/
def repeatUntil (stop : ℕ → Prop) [DecidablePred stop] (last : ℕ → Traced E ε α) (turn : ℕ → List E)
    (attempt : ℕ) : ℕ → Option (Traced E ε α)
  | 0 => none
  | fuel + 1 =>
    if stop attempt then some (last attempt)
    else (repeatUntil stop last turn (attempt + 1) fuel).map (after (turn attempt))

variable {stop : ℕ → Prop} [DecidablePred stop] {last : ℕ → Traced E ε α} {turn : ℕ → List E}
variable {attempt k n fuel : ℕ}

/-- The loop is over with its first turn that may be the last, whatever fuel is left. -/
theorem repeatUntil_from (hstop : stop (attempt + k)) (hbefore : ∀ j < k, ¬stop (attempt + j))
    (hfuel : k < fuel) : repeatUntil stop last turn attempt fuel =
      some ((last (attempt + k)).after ((List.range' attempt k).flatMap turn)) := by
  induction k generalizing attempt fuel with
  | zero =>
    obtain ⟨fuel, rfl⟩ := Nat.exists_eq_succ_of_ne_zero (Nat.ne_of_gt hfuel)
    simp only [repeatUntil]
    exact if_pos hstop
  | succ k ih =>
    obtain ⟨fuel, rfl⟩ := Nat.exists_eq_succ_of_ne_zero (Nat.ne_zero_of_lt hfuel)
    have hstop' : stop (attempt + 1 + k) := (Nat.succ_add_eq_add_succ attempt k).symm ▸ hstop
    have hbefore' : ∀ j < k, ¬stop (attempt + 1 + j) := fun j hj =>
      (Nat.succ_add_eq_add_succ attempt j).symm ▸ hbefore (j + 1) (Nat.succ_lt_succ hj)
    have hturn : ¬stop attempt := hbefore 0 k.succ_pos
    simp only [repeatUntil]
    rw [if_neg hturn, ih hstop' hbefore' (Nat.lt_of_succ_lt_succ hfuel), Option.map_some, after_after,
      Nat.succ_add_eq_add_succ]
    rfl

theorem repeatUntil_relabel {F δ : Type} (f : E → F) (g : ε → δ) :
    (repeatUntil stop last turn attempt fuel).map (relabel f g) =
      repeatUntil stop (fun n => (last n).relabel f g) (fun n => (turn n).map f) attempt fuel := by
  induction fuel generalizing attempt with
  | zero => rfl
  | succ fuel ih =>
    simp only [repeatUntil]
    split
    · rfl
    · rw [map_relabel_after, ih]

theorem repeatUntil_eq_some (hstop : stop n) (hbefore : ∀ j < n, ¬stop j) (hfuel : n < fuel) :
    repeatUntil stop last turn 0 fuel = some ((last n).after ((List.range n).flatMap turn)) := by
  have hstop' : stop (0 + n) := n.zero_add.symm ▸ hstop
  have hbefore' : ∀ j < n, ¬stop (0 + j) := fun j hj => j.zero_add.symm ▸ hbefore j hj
  rw [repeatUntil_from hstop' hbefore' hfuel, Nat.zero_add, List.range_eq_range']

theorem repeatUntil_eq_none (hbefore : ∀ j < fuel, ¬stop (attempt + j)) :
    repeatUntil stop last turn attempt fuel = none := by
  induction fuel generalizing attempt with
  | zero => rfl
  | succ fuel ih =>
    have hrest : ∀ j < fuel, ¬stop (attempt + 1 + j) := fun j hj =>
      (Nat.succ_add_eq_add_succ attempt j).symm ▸ hbefore (j + 1) (Nat.succ_lt_succ hj)
    have hturn : ¬stop attempt := hbefore 0 fuel.succ_pos
    simp only [repeatUntil]
    rw [if_neg hturn, ih hrest]
    rfl

end Traced

/-- The clock is read at the start and at every turn; it never goes back, and between two turns it moves by the
pause at least. -/
structure Ticks (clock pause : ℕ → ℚ) : Prop where
  forward : Monotone clock
  pauses : ∀ n, clock (n + 1) + pause n ≤ clock (n + 2)

variable {clock pause : ℕ → ℚ} {timeout : ℚ}

theorem Ticks.elapsed (h : Ticks clock pause) (hpause : ∀ n, 1 ≤ pause n) (n : ℕ) :
    clock 0 + n ≤ clock (n + 1) := by
  induction n with
  | zero => simpa using h.forward (Nat.zero_le 1)
  | succ n ih =>
    have hturn : clock (n + 1) + 1 ≤ clock (n + 2) :=
      (add_le_add_right (hpause n) _).trans (h.pauses n)
    calc clock 0 + ((n + 1 : ℕ) : ℚ) = clock 0 + n + 1 := by push_cast; ring
      _ ≤ clock (n + 1) + 1 := by linarith only [ih]
      _ ≤ clock (n + 1 + 1) := hturn

theorem Ticks.deadline (h : Ticks clock pause) (hpause : ∀ n, 1 ≤ pause n) (htimeout : 0 ≤ timeout) :
    ∃ n : ℕ, clock 0 + timeout ≤ clock (n + 1) ∧ (n : ℚ) < timeout + 1 := by
  refine ⟨⌈timeout⌉₊, ?_, Nat.ceil_lt_add_one htimeout⟩
  have helapsed := h.elapsed hpause ⌈timeout⌉₊
  linarith only [helapsed, Nat.le_ceil timeout]

theorem exists_first {stop : ℕ → Prop} [DecidablePred stop] {m : ℕ} (h : stop m) :
    ∃ n ≤ m, stop n ∧ ∀ j < n, ¬stop j :=
  ⟨Nat.find ⟨m, h⟩, Nat.find_min' _ h, Nat.find_spec _, fun _ hj => Nat.find_min _ hj⟩

end Foundation
