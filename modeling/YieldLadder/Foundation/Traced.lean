import Mathlib.Data.List.Count
import YieldLadder.Foundation.Fallible

/-! # Computations that leave a trace

A computation calls the outside, which is recorded with what was asked and answered,
and returns or throws. What was recorded before it throws stays recorded.
-/
namespace Foundation

/-- What a computation has recorded, and how it ended. -/
structure Traced (E ε α : Type) where
  trace : List E
  result : Except ε α

namespace Traced
variable {E ε ε' α β : Type}

def ofExcept (x : Except ε α) : Traced E ε α := ⟨[], x⟩

def call (event : Except ε α → E) (answer : Except ε α) : Traced E ε α := ⟨[event answer], answer⟩

def emit (event : E) : Traced E ε Unit := ⟨[event], .ok ()⟩

def settle (x : Traced E ε α) (f : Except ε α → Traced E ε' β) : Traced E ε' β :=
  ⟨x.trace ++ (f x.result).trace, (f x.result).result⟩

/-- Rethrow what the computation throws as something else. -/
def mapError (f : ε → ε') (x : Traced E ε α) : Traced E ε' α := ⟨x.trace, x.result.mapError f⟩

instance : Monad (Traced E ε) where
  pure a := ⟨[], .ok a⟩
  bind x f := x.settle fun
    | .ok a => f a
    | .error e => ⟨[], .error e⟩

def All (P : E → Prop) (x : Traced E ε α) : Prop := ∀ e ∈ x.trace, P e

variable {x : Traced E ε α} {f : α → Traced E ε β} {a : α} {b : β} {e : ε} {P : E → Prop} {p : E → Bool}

theorem bind_of_ok (h : x.result = .ok a) : x >>= f = ⟨x.trace ++ (f a).trace, (f a).result⟩ := by
  change x.settle _ = _
  simp only [settle, h]

theorem bind_of_error (h : x.result = .error e) : x >>= f = ⟨x.trace, .error e⟩ := by
  change x.settle _ = _
  simp only [settle, h, List.append_nil]

theorem ofExcept_bind_of_ok {y : Except ε α} (h : y = .ok a) : (ofExcept y : Traced E ε α) >>= f = f a :=
  bind_of_ok h

@[simp] theorem ofExcept_result (y : Except ε α) : (ofExcept y : Traced E ε α).result = y := rfl

@[simp] theorem call_result (event : Except ε α → E) (answer : Except ε α) :
    (call event answer).result = answer := rfl

@[simp] theorem mapError_result (g : ε → ε') : (x.mapError g).result = x.result.mapError g := rfl

@[simp] theorem mapError_trace (g : ε → ε') : (x.mapError g).trace = x.trace := rfl

@[simp] theorem bind_result_eq_ok :
    (x >>= f).result = .ok b ↔ ∃ a, x.result = .ok a ∧ (f a).result = .ok b := by
  cases h : x.result with
  | ok a => simp [bind_of_ok h]
  | error e => simp [bind_of_error h]

theorem All.ofExcept (y : Except ε α) : All P (ofExcept y : Traced E ε α) := nofun

theorem All.call {event : Except ε α → E} {answer : Except ε α} (h : P (event answer)) :
    All P (call event answer) := by
  intro e he
  rw [List.mem_singleton.mp he]
  exact h

theorem All.emit {event : E} (h : P event) : All P (emit event : Traced E ε Unit) := by
  intro e he
  rw [List.mem_singleton.mp he]
  exact h

theorem All.mapError {g : ε → ε'} (h : All P x) : All P (x.mapError g) := h

theorem All.settle {g : Except ε α → Traced E ε' β} (hx : All P x) (hg : ∀ r, All P (g r)) :
    All P (x.settle g) := by
  intro e he
  rcases List.mem_append.mp he with he | he
  · exact hx e he
  · exact hg x.result e he

theorem All.bind (hx : All P x) (hf : ∀ a, x.result = .ok a → All P (f a)) : All P (x >>= f) := by
  cases h : x.result with
  | ok a =>
    rw [bind_of_ok h]
    intro e he
    rcases List.mem_append.mp he with he | he
    · exact hx e he
    · exact hf a h e he
  | error e =>
    rw [bind_of_error h]
    exact hx

theorem mem_bind {event : E} (h : event ∈ (x >>= f).trace) :
    event ∈ x.trace ∨ ∃ a, x.result = .ok a ∧ event ∈ (f a).trace := by
  cases hx : x.result with
  | ok a =>
    rw [bind_of_ok hx, List.mem_append] at h
    exact h.imp_right fun hmem => ⟨a, rfl, hmem⟩
  | error e =>
    rw [bind_of_error hx] at h
    exact .inl h

theorem mem_ofExcept_bind {event : E} {y : Except ε α} (h : event ∈ (ofExcept y >>= f).trace) :
    ∃ a, y = .ok a ∧ event ∈ (f a).trace :=
  (mem_bind h).resolve_left List.not_mem_nil

theorem All.countP_eq_zero (h : All P x) (hp : ∀ e, P e → p e = false) : x.trace.countP p = 0 := by
  apply List.countP_eq_zero.mpr
  intro e he
  rw [hp e (h e he)]
  exact Bool.false_ne_true

theorem countP_bind_le {m n : ℕ} (hx : x.trace.countP p ≤ m)
    (hf : ∀ a, x.result = .ok a → (f a).trace.countP p ≤ n) : (x >>= f).trace.countP p ≤ m + n := by
  cases h : x.result with
  | ok a =>
    rw [bind_of_ok h, List.countP_append]
    exact Nat.add_le_add hx (hf a h)
  | error e =>
    rw [bind_of_error h]
    exact Nat.le_trans hx (Nat.le_add_right m n)

end Traced
end Foundation
