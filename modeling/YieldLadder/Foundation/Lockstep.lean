import YieldLadder.Foundation.Fallible

/-! # Two fallible computations in lockstep

Two computations agree when they end with the same fault or give related values.
A shared step keeps them together, and a step on each side does when what it
gives is related, so a proof goes down both programs at once.
-/
namespace Foundation
universe u v
variable {ε : Type u} {α α' β β' : Type v}

inductive Agree (R : α → β → Prop) : Except ε α → Except ε β → Prop
  | ok {a : α} {b : β} (h : R a b) : Agree R (.ok a) (.ok b)
  | error (e : ε) : Agree R (.error e) (.error e)

namespace Agree
variable {R : β → β' → Prop} {Q : α → α' → Prop} {x : Except ε α} {y : Except ε α'}

theorem bind {f : α → Except ε β} {g : α' → Except ε β'} (hxy : Agree Q x y)
    (h : ∀ a a', x = .ok a → y = .ok a' → Q a a' → Agree R (f a) (g a')) :
    Agree R (x >>= f) (y >>= g) := by
  cases hxy with
  | ok hab => exact h _ _ rfl rfl hab
  | error e => exact .error e

theorem shared {f : α → Except ε β} {g : α → Except ε β'}
    (h : ∀ a, x = .ok a → Agree R (f a) (g a)) : Agree R (x >>= f) (x >>= g) := by
  cases hx : x with
  | ok a => exact h a hx
  | error e => exact .error e

theorem both {a : α} {a' : α'} {f : α → Except ε β} {g : α' → Except ε β'} (hx : x = .ok a)
    (hy : y = .ok a') (h : Agree R (f a) (g a')) : Agree R (x >>= f) (y >>= g) := by
  rw [hx, hy]
  exact h

theorem left {a : α} {f : α → Except ε β} {y : Except ε β'} (hx : x = .ok a) (h : Agree R (f a) y) :
    Agree R (x >>= f) y := by
  rw [hx]
  exact h

theorem pure {b : β} {b' : β'} (h : R b b') : Agree R (Pure.pure b : Except ε β) (Pure.pure b') :=
  .ok h

theorem expect {o : Option α} {o' : Option α'} {γ : Type*} {f : α → γ} {g : α' → γ} (e : ε)
    (h : o.map f = o'.map g) :
    Agree (fun a a' => f a = g a') (Foundation.expect e o) (Foundation.expect e o') := by
  cases o <;> cases o' <;> simp at h
  · exact .error e
  · exact .ok h

theorem of_ok {a : α} {a' : α'} (hx : x = .ok a) (hy : y = .ok a') (h : Q a a') : Agree Q x y := by
  rw [hx, hy]
  exact .ok h

theorem check {β β' : Type} {R : β → β' → Prop} {c d : Prop} [Decidable c] [Decidable d] {e : ε}
    {f : Unit → Except ε β} {g : Unit → Except ε β'} (hcd : c ↔ d) (h : ¬c → Agree R (f ()) (g ())) :
    Agree R (failIf c e >>= f) (failIf d e >>= g) := by
  by_cases hc : c
  · rw [failIf_of hc, failIf_of (hcd.mp hc)]
    exact .error e
  · rw [failIf_of_not hc, failIf_of_not (fun hd => hc (hcd.mpr hd))]
    exact h hc

end Agree
end Foundation
