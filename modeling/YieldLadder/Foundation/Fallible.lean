import Mathlib.Data.List.Forall2
import Mathlib.Logic.Basic

/-! # Success of a fallible computation, read backwards

A contract call is an `Except` computation: every check either lets the
computation go on or ends it. The lemmas turn "this computation succeeded" into
the facts its checks established, one line of the program at a time.
-/
namespace Foundation
universe u v
variable {ε : Type u} {α β : Type v}

def failIf (c : Prop) [Decidable c] (e : ε) : Except ε Unit := if c then .error e else .ok ()

/-- The value that must be there, or the fault `e`. -/
def expect (e : ε) : Option α → Except ε α
  | some a => .ok a
  | none => .error e

@[simp] theorem bind_eq_ok {x : Except ε α} {f : α → Except ε β} {b : β} :
    x >>= f = .ok b ↔ ∃ a, x = .ok a ∧ f a = .ok b := by
  cases x <;> simp [bind, Except.bind]

@[simp] theorem map_eq_ok {x : Except ε α} {f : α → β} {b : β} :
    f <$> x = .ok b ↔ ∃ a, x = .ok a ∧ f a = b := by
  cases x <;> simp [Functor.map, Except.map]

@[simp] theorem pure_eq_ok {a b : α} : (pure a : Except ε α) = .ok b ↔ a = b := by
  simp [pure, Except.pure]

@[simp] theorem mapError_ok {ε' : Type u} (f : ε → ε') (a : α) :
    (Except.ok a).mapError f = .ok a := rfl

@[simp] theorem mapError_error {ε' : Type u} (f : ε → ε') (e : ε) :
    (Except.error e : Except ε α).mapError f = .error (f e) := rfl

@[simp] theorem mapError_eq_ok {ε' : Type u} {x : Except ε α} {f : ε → ε'} {a : α} :
    x.mapError f = .ok a ↔ x = .ok a := by
  cases x <;> simp

theorem toOption_eq_some {x : Except ε α} {a : α} : x.toOption = some a ↔ x = .ok a := by
  cases x <;> simp [Except.toOption]

@[simp] theorem failIf_eq_ok {c : Prop} [Decidable c] {e : ε} {u : Unit} :
    failIf c e = .ok u ↔ ¬c := by
  unfold failIf
  split <;> simp_all

@[simp] theorem expect_eq_ok {e : ε} {o : Option α} {a : α} :
    expect e o = .ok a ↔ o = some a := by
  cases o <;> simp [expect]

theorem failIf_of_not {c : Prop} [Decidable c] {e : ε} (h : ¬c) : failIf c e = .ok () := if_neg h

theorem failIf_of {c : Prop} [Decidable c] {e : ε} (h : c) : failIf c e = .error e := if_pos h

@[simp] theorem expect_some (e : ε) (a : α) : expect e (some a) = .ok a := rfl

@[simp] theorem ok_bind (a : α) (f : α → Except ε β) : (Except.ok a >>= f) = f a := rfl

@[simp] theorem error_bind (e : ε) (f : α → Except ε β) : (Except.error e >>= f) = .error e := rfl

theorem exists_bind_pure {x : Except ε α} (f : α → β) :
    (∃ b, (do let a ← x; pure (f a)) = Except.ok b) ↔ ∃ a, x = .ok a := by
  cases x <;> simp

theorem mapM_eq_ok {f : α → Except ε β} {xs : List α} {ys : List β} :
    xs.mapM f = .ok ys ↔ List.Forall₂ (fun x y => f x = .ok y) xs ys := by
  induction xs generalizing ys with
  | nil => rw [List.mapM_nil, pure_eq_ok, eq_comm, List.forall₂_nil_left_iff]
  | cons x xs ih =>
    rw [List.mapM_cons, List.forall₂_cons_left_iff]
    simp only [bind_eq_ok, pure_eq_ok, ih]
    constructor
    · rintro ⟨y, hy, ys', hys, rfl⟩
      exact ⟨y, ys', hy, hys, rfl⟩
    · rintro ⟨y, ys', hy, hys, rfl⟩
      exact ⟨y, hy, ys', hys, rfl⟩

theorem mapM_eq_ok_map {P : α → Prop} {f : α → Except ε β} {g : α → β} {xs : List α} {ys : List β}
    (hf : ∀ x y, f x = .ok y ↔ P x ∧ y = g x) : xs.mapM f = .ok ys ↔ (∀ x ∈ xs, P x) ∧ ys = xs.map g := by
  rw [mapM_eq_ok]
  simp only [hf]
  rw [List.forall₂_and_left]
  apply and_congr_right
  intro _
  rw [eq_comm, ← List.forall₂_eq_eq_eq, List.forall₂_map_left_iff]
  simp only [eq_comm]

theorem mapM_eq_ok_of_never {f : α → Except ε β} {xs : List α} {ys : List β} (hf : ∀ x y, f x ≠ .ok y) :
    xs.mapM f = .ok ys ↔ xs = [] ∧ ys = [] := by
  rw [mapM_eq_ok]
  constructor
  · intro h
    cases h with
    | nil => exact ⟨rfl, rfl⟩
    | cons hy _ => exact absurd hy (hf _ _)
  · rintro ⟨rfl, rfl⟩
    exact .nil

/-- The only faults the computation can end with satisfy `P`. -/
def FailsOnly (P : ε → Prop) (x : Except ε α) : Prop := ∀ e, x = .error e → P e

namespace FailsOnly
variable {P Q : ε → Prop} {x : Except ε α} {f : α → Except ε β} {a : α}

theorem of_ok (h : x = .ok a) : FailsOnly P x := by
  intro e he
  rw [h] at he
  cases he

theorem bind (hx : FailsOnly P x) (hf : ∀ a, x = .ok a → FailsOnly P (f a)) :
    FailsOnly P (x >>= f) := by
  intro e he
  cases h : x with
  | ok a =>
    rw [h, ok_bind] at he
    exact hf a h e he
  | error e' =>
    rw [h, error_bind] at he
    cases he
    exact hx e h

theorem mono (hx : FailsOnly P x) (hPQ : ∀ e, P e → Q e) : FailsOnly Q x := fun e he => hPQ e (hx e he)

theorem of_failIf {c : Prop} [Decidable c] {e : ε} (he : P e) : FailsOnly P (failIf c e) := by
  intro e' h
  unfold failIf at h
  split at h <;> cases h
  exact he

theorem of_expect {e : ε} {o : Option α} (he : P e) : FailsOnly P (expect e o) := by
  intro e' h
  cases o <;> cases h
  exact he

end FailsOnly

/-- A fault that the first part cannot end with is one of the rest. -/
theorem bind_eq_error {P : ε → Prop} {x : Except ε α} {f : α → Except ε β} {e : ε} (hx : FailsOnly P x)
    (he : ¬P e) : x >>= f = .error e ↔ ∃ a, x = .ok a ∧ f a = .error e := by
  cases h : x with
  | ok a => simp
  | error e' =>
    rw [error_bind]
    refine iff_of_false (fun heq => ?_) (by simp)
    cases heq
    exact he (hx e h)

theorem bind_eq_error_of_ok {x : Except ε α} {f : α → Except ε β} {e : ε} (hf : ∀ a, ∃ b, f a = .ok b) :
    x >>= f = .error e ↔ x = .error e := by
  cases x with
  | ok a =>
    obtain ⟨b, hb⟩ := hf a
    rw [ok_bind, hb]
    exact iff_of_false (by rintro ⟨⟩) (by rintro ⟨⟩)
  | error e' =>
    rw [error_bind]
    exact ⟨fun h => by cases h; rfl, fun h => by cases h; rfl⟩

theorem failIf_bind_eq_error {γ : Type} {c : Prop} [Decidable c] {f : Unit → Except ε γ} {e e' : ε} :
    failIf c e' >>= f = .error e ↔ c ∧ e' = e ∨ ¬c ∧ f () = .error e := by
  by_cases hc : c
  · rw [failIf_of hc]
    simp [hc]
  · rw [failIf_of_not hc]
    simp [hc]

end Foundation
