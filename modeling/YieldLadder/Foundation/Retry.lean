import YieldLadder.Foundation.Polling

/-! # Attempts that are made again

A computation is tried until it returns, fails in a way that is not retried, or has been tried a
given number of times. Between two attempts something is recorded.
-/
namespace Foundation.Traced
variable {E ε α : Type}

/-- The attempts from `attempt` on, `left` of them; `exhausted` is thrown where there is none to make. -/
def retry (exhausted : ε) (retryable : ε → Bool) (pause : ℕ → E) (fn : ℕ → Traced E ε α) (attempt : ℕ) :
    ℕ → Traced E ε α
  | 0 => .ofExcept (.error exhausted)
  | left + 1 => (fn attempt).settle fun
    | .ok a => pure a
    | .error e =>
      if ¬retryable e ∨ left = 0 then .ofExcept (.error e)
      else do
        .emit (pause attempt)
        retry exhausted retryable pause fn (attempt + 1) left

variable {exhausted : ε} {retryable : ε → Bool} {pause : ℕ → E} {fn : ℕ → Traced E ε α} {attempt left : ℕ}
variable {a : α} {e : ε}

theorem retry_of_ok (h : (fn attempt).result = .ok a) :
    retry exhausted retryable pause fn attempt (left + 1) = ⟨(fn attempt).trace, .ok a⟩ := by
  have hnil : (fn attempt).trace ++ (pure a : Traced E ε α).trace = (fn attempt).trace := List.append_nil _
  simp only [retry, settle, h, hnil]
  rfl

theorem retry_of_stop (h : (fn attempt).result = .error e) (hstop : ¬retryable e ∨ left = 0) :
    retry exhausted retryable pause fn attempt (left + 1) = ⟨(fn attempt).trace, .error e⟩ := by
  simp only [retry, settle, h, if_pos hstop, ofExcept, List.append_nil]

theorem retry_of_again (h : (fn attempt).result = .error e) (hagain : ¬(¬retryable e ∨ left = 0)) :
    retry exhausted retryable pause fn attempt (left + 1) =
      (retry exhausted retryable pause fn (attempt + 1) left).after ((fn attempt).trace ++ [pause attempt]) := by
  simp only [retry, settle, h, if_neg hagain, after, List.append_assoc]
  rfl

/-- The result is that of the last attempt: all before it failed and were retried, and it did not or was the last
there was to make. -/
theorem retry_result_iff {r : Except ε α} (hleft : 0 < left) :
    (retry exhausted retryable pause fn attempt left).result = r ↔ ∃ k < left, (fn (attempt + k)).result = r ∧
      (∀ j < k, ∃ e, (fn (attempt + j)).result = .error e ∧ retryable e = true) ∧
      ∀ e, r = .error e → retryable e = true → k + 1 = left := by
  induction left generalizing attempt with
  | zero => exact absurd hleft (Nat.lt_irrefl 0)
  | succ left ih =>
    have hfirst : ∀ {k}, (∀ j < k, ∃ e, (fn (attempt + j)).result = .error e ∧ retryable e = true) → k ≠ 0 →
        ∃ e, (fn attempt).result = .error e ∧ retryable e = true :=
      fun hbefore hk => hbefore 0 (Nat.pos_of_ne_zero hk)
    cases hattempt : (fn attempt).result with
    | ok a =>
      rw [retry_of_ok hattempt]
      constructor
      · rintro rfl
        exact ⟨0, left.succ_pos, hattempt, by simp, by simp⟩
      · rintro ⟨k, _, hk, hbefore, _⟩
        by_cases hzero : k = 0
        · subst hzero
          exact hattempt.symm.trans hk
        · obtain ⟨e, he, _⟩ := hfirst hbefore hzero
          cases hattempt.symm.trans he
    | error e =>
      by_cases hstop : ¬retryable e ∨ left = 0
      · rw [retry_of_stop hattempt hstop]
        constructor
        · rintro rfl
          refine ⟨0, left.succ_pos, hattempt, by simp, fun e' he' hretry => ?_⟩
          obtain rfl := Except.error.inj he'
          rw [hstop.resolve_left (not_not.mpr hretry)]
        · rintro ⟨k, hlt, hk, hbefore, _⟩
          by_cases hzero : k = 0
          · subst hzero
            exact hattempt.symm.trans hk
          · obtain ⟨e', he', hretry⟩ := hfirst hbefore hzero
            obtain rfl := Except.error.inj (hattempt.symm.trans he')
            have hnone : left = 0 := hstop.resolve_left (not_not.mpr hretry)
            omega
      · rw [retry_of_again hattempt hstop]
        rw [not_or, not_not] at hstop
        have hshift : ∀ k, attempt + 1 + k = attempt + (k + 1) := Nat.succ_add_eq_add_succ attempt
        refine (ih (Nat.pos_of_ne_zero hstop.2)).trans ?_
        simp only [hshift]
        constructor
        · rintro ⟨k, hlt, hk, hbefore, hlast⟩
          refine ⟨k + 1, Nat.succ_lt_succ hlt, hk, fun j hj => ?_, fun e' he' hretry => ?_⟩
          · cases j with
            | zero => exact ⟨e, hattempt, hstop.1⟩
            | succ j => exact hbefore j (Nat.lt_of_succ_lt_succ hj)
          · rw [hlast e' he' hretry]
        · rintro ⟨k, hlt, hk, hbefore, hlast⟩
          cases k with
          | zero =>
            have hnone := hlast e (hk.symm.trans hattempt) hstop.1
            exact absurd (Nat.succ.inj hnone).symm hstop.2
          | succ k =>
            refine ⟨k, Nat.lt_of_succ_lt_succ hlt, hk, fun j hj => hbefore (j + 1) (Nat.succ_lt_succ hj), ?_⟩
            exact fun e' he' hretry => Nat.succ.inj (hlast e' he' hretry)

theorem retry_all {P : E → Prop} (hpause : ∀ n, P (pause n)) (hfn : ∀ n, (fn n).All P) :
    (retry exhausted retryable pause fn attempt left).All P := by
  induction left generalizing attempt with
  | zero => exact .ofExcept _
  | succ left ih =>
    refine (hfn attempt).settle fun r => ?_
    cases r with
    | ok a => exact nofun
    | error e =>
      dsimp only
      split
      · exact .ofExcept _
      · exact .bind (.emit (hpause _)) fun _ _ => ih

/-- The attempts with their events and errors seen through `f` and `g`. -/
theorem retry_relabel {F δ : Type} {retryable' : δ → Bool} (f : E → F) (g : ε → δ)
    (h : ∀ e, retryable' (g e) = retryable e) :
    (retry exhausted retryable pause fn attempt left).relabel f g =
      retry (g exhausted) retryable' (fun n => f (pause n)) (fun n => (fn n).relabel f g) attempt left := by
  induction left generalizing attempt with
  | zero => rfl
  | succ left ih =>
    cases hattempt : (fn attempt).result with
    | ok a =>
      have hseen : ((fn attempt).relabel f g).result = .ok a := by simp [relabel, hattempt, Except.mapError]
      rw [retry_of_ok hattempt, retry_of_ok hseen]
      rfl
    | error e =>
      have hseen : ((fn attempt).relabel f g).result = .error (g e) := by simp [relabel, hattempt, Except.mapError]
      by_cases hstop : ¬retryable e ∨ left = 0
      · rw [retry_of_stop hattempt hstop, retry_of_stop hseen ((h e).symm ▸ hstop)]
        rfl
      · rw [retry_of_again hattempt hstop, retry_of_again hseen ((h e).symm ▸ hstop), relabel_after, ih]
        simp only [List.map_append, List.map_singleton]
        rfl

end Foundation.Traced
