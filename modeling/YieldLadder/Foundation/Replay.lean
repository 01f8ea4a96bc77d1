import YieldLadder.Foundation.Machine

/-! # An abstract state replayed from the log

The log of the successful calls of a machine drives a second, abstract one. When each successful
call keeps the two states related and is permitted by the abstract state it is made in, the state
of a whole run is related to the replay of its log, and every entry of the log was permitted by the
replay of the entries before it.
-/
namespace Foundation
variable {S C O E A : Type*} {apply : A → C × O → A} {permits : A → C × O → Prop} {a : A}

def replay (apply : A → C × O → A) (a : A) (l : List (C × O)) : A := l.foldl apply a

theorem replay_append (a : A) (l l' : List (C × O)) :
    replay apply a (l ++ l') = replay apply (replay apply a l) l' :=
  List.foldl_append

theorem replay_concat (a : A) (l : List (C × O)) (e : C × O) :
    replay apply a (l ++ [e]) = apply (replay apply a l) e := by
  rw [replay_append]
  rfl

theorem replay_unchanged {B : Type*} {f : A → B} (h : ∀ a e, f (apply a e) = f a) (a : A) (l : List (C × O)) :
    f (replay apply a l) = f a := by
  induction l generalizing a with
  | nil => rfl
  | cons e l ih => exact (ih (apply a e)).trans (h a e)

def Permitted (apply : A → C × O → A) (permits : A → C × O → Prop) (a : A) (l : List (C × O)) : Prop :=
  ∀ l₁ e l₂, l = l₁ ++ e :: l₂ → permits (replay apply a l₁) e

theorem permitted_nil : Permitted apply permits a [] := by
  intro l₁ e l₂ h
  cases l₁ <;> cases h

theorem permitted_concat {l : List (C × O)} {e : C × O} (hl : Permitted apply permits a l)
    (he : permits (replay apply a l) e) : Permitted apply permits a (l ++ [e]) := by
  intro l₁ d l₂ h
  rcases List.eq_nil_or_concat l₂ with rfl | ⟨l₃, f, rfl⟩
  · obtain ⟨rfl, hlast⟩ := List.append_inj' h rfl
    cases hlast
    exact he
  · have hsplit : l ++ [e] = (l₁ ++ d :: l₃) ++ [f] := by simpa using h
    obtain ⟨hfront, _⟩ := List.append_inj' hsplit rfl
    exact hl l₁ d l₃ hfront

theorem Permitted.induction {I : A → Prop} {l : List (C × O)} (hl : Permitted apply permits a l) (ha : I a)
    (hstep : ∀ a e, e ∈ l → permits a e → I a → I (apply a e)) : I (replay apply a l) := by
  induction l using List.reverseRecOn with
  | nil => exact ha
  | append_singleton l e ih =>
    have hfront : Permitted apply permits a l := by
      intro l₁ d l₂ h
      exact hl l₁ d (l₂ ++ [e]) (by simp [h])
    rw [replay_concat]
    apply hstep _ e (by simp) (hl l e [] rfl)
    exact ih hfront fun b d hd => hstep b d (by simp [hd])

variable {step : S → C → Except E (S × O)} {s : S} {cs : List C}

/-- The replay rule for runs whose calls all meet a condition. -/
theorem run_replay {P : S → C → Prop} {R : S → A → Prop}
    (hstep : ∀ s a c r, P s c → R s a → step s c = .ok r → permits a (c, r.2) ∧ R r.1 (apply a (c, r.2)))
    (hs : R s a) (hm : Meets step P s cs) :
    R (run step s cs) (replay apply a (log step s cs)) ∧ Permitted apply permits a (log step s cs) := by
  refine run_log_invariant_of_meets
    (I := fun s l => R s (replay apply a l) ∧ Permitted apply permits a l) ?_ ⟨hs, permitted_nil⟩ hm
  rintro s' l c r hc ⟨hR, hl⟩ h
  obtain ⟨he, hnext⟩ := hstep s' (replay apply a l) c r hc hR h
  rw [replay_concat]
  exact ⟨hnext, permitted_concat hl he⟩

end Foundation
