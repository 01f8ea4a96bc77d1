import Mathlib.Data.List.Basic
import Mathlib.Data.List.Induction
import Mathlib.Tactic.Ring

/-! # Runs of a machine whose failing steps change nothing

A step takes a state and a call to a new state and a reply, or faults. A call
that faults is reverted, so a run is total. The rules below turn what one
successful step preserves into what a whole run preserves: for invariants that
hold while every call meets a condition on the state it is made in, for a measure
that each call moves by a known amount, and for facts about the log of the
successful calls, which may speak of the clock.
-/
namespace Foundation
variable {S C O E : Type*}

/-- The state after a call: the new state, or the old one when the call faults. -/
def next (step : S → C → Except E (S × O)) (s : S) (c : C) : S :=
  match step s c with
  | .ok r => r.1
  | .error _ => s

def run (step : S → C → Except E (S × O)) (s : S) (cs : List C) : S := cs.foldl (next step) s

/-- The successful calls of a run with their replies, in order. -/
def log (step : S → C → Except E (S × O)) : S → List C → List (C × O)
  | _, [] => []
  | s, c :: cs =>
    match step s c with
    | .ok r => (c, r.2) :: log step r.1 cs
    | .error _ => log step s cs

/-- Every call of the run meets `P` in the state it is made in. -/
def Meets (step : S → C → Except E (S × O)) (P : S → C → Prop) : S → List C → Prop
  | _, [] => True
  | s, c :: cs => P s c ∧ Meets step P (next step s c) cs

variable {step : S → C → Except E (S × O)} {s : S} {c : C} {cs : List C}

theorem next_ok {r : S × O} (h : step s c = .ok r) : next step s c = r.1 := by
  simp [next, h]

theorem next_error {e : E} (h : step s c = .error e) : next step s c = s := by
  simp [next, h]

@[simp] theorem run_nil : run step s [] = s := rfl

@[simp] theorem run_cons : run step s (c :: cs) = run step (next step s c) cs := rfl

theorem run_append (s : S) (cs ds : List C) : run step s (cs ++ ds) = run step (run step s cs) ds :=
  List.foldl_append

theorem run_concat (s : S) (cs : List C) (c : C) :
    run step s (cs ++ [c]) = next step (run step s cs) c := by
  simp [run_append]

theorem next_induction {I : S → Prop} (hs : I s) (h : ∀ r, step s c = .ok r → I r.1) :
    I (next step s c) := by
  cases hc : step s c with
  | ok r =>
    rw [next_ok hc]
    exact h r hc
  | error e =>
    rw [next_error hc]
    exact hs

/-- The invariant rule for runs whose calls all meet a condition. -/
theorem run_invariant_of_meets {P : S → C → Prop} {I : S → Prop}
    (hstep : ∀ s c r, P s c → I s → step s c = .ok r → I r.1)
    (hs : I s) (hm : Meets step P s cs) : I (run step s cs) := by
  induction cs generalizing s with
  | nil => exact hs
  | cons c cs ih => exact ih (next_induction hs fun r hr => hstep s c r hm.1 hs hr) hm.2

theorem meets_of_invariant {P : S → C → Prop} {Q : C → Prop} {I : S → Prop}
    (hstep : ∀ s c r, Q c → I s → step s c = .ok r → I r.1) (h : ∀ s c, Q c → I s → P s c)
    (hs : I s) (hcs : ∀ c ∈ cs, Q c) : Meets step P s cs := by
  induction cs generalizing s with
  | nil => trivial
  | cons c cs ih =>
    have hc : Q c := hcs c List.mem_cons_self
    have hnext : I (next step s c) := next_induction hs fun r hr => hstep s c r hc hs hr
    exact ⟨h s c hc hs, ih hnext fun c' hc' => hcs c' (List.mem_cons_of_mem c hc')⟩

theorem meets_of_forall {P : C → Prop} (h : ∀ c ∈ cs, P c) : Meets step (fun _ c => P c) s cs :=
  meets_of_invariant (I := fun _ => True) (fun _ _ _ _ _ _ => trivial) (fun _ _ hc _ => hc) trivial h

theorem run_invariant {I : S → Prop} (hstep : ∀ s c r, I s → step s c = .ok r → I r.1) (hs : I s)
    (cs : List C) : I (run step s cs) :=
  run_invariant_of_meets (P := fun _ _ => True) (fun s c r _ => hstep s c r) hs
    (meets_of_forall (P := fun _ => True) fun _ _ => trivial)

theorem meets_and {P Q : S → C → Prop} :
    Meets step (fun s c => P s c ∧ Q s c) s cs ↔ Meets step P s cs ∧ Meets step Q s cs := by
  induction cs generalizing s with
  | nil => simp [Meets]
  | cons c cs ih =>
    simp only [Meets, ih]
    tauto

/-- Two conditions that agree wherever an invariant holds are met by the same runs. -/
theorem meets_congr {P Q R : S → C → Prop} {I : S → Prop}
    (hstep : ∀ s c r, R s c → I s → step s c = .ok r → I r.1)
    (h : ∀ s c, R s c → I s → (P s c ↔ Q s c)) (hs : I s) (hm : Meets step R s cs) :
    Meets step P s cs ↔ Meets step Q s cs := by
  induction cs generalizing s with
  | nil => exact Iff.rfl
  | cons c cs ih =>
    exact and_congr (h s c hm.1 hs)
      (ih (next_induction hs fun r hr => hstep s c r hm.1 hs hr) hm.2)

theorem meets_append {P : S → C → Prop} (s : S) (cs ds : List C) :
    Meets step P s (cs ++ ds) ↔ Meets step P s cs ∧ Meets step P (run step s cs) ds := by
  induction cs generalizing s with
  | nil => simp [Meets]
  | cons c cs ih => simp [Meets, ih, and_assoc]

/-- A run that starts inside an invariant stays inside exactly when every call keeps it. -/
theorem forall_prefix_iff_meets {P : S → C → Prop} {Q : C → Prop} {I : S → Prop}
    (h : ∀ s c, Q c → I s → (I (next step s c) ↔ P s c)) (hs : I s) (hcs : ∀ c ∈ cs, Q c) :
    (∀ ds, ds <+: cs → I (run step s ds)) ↔ Meets step P s cs := by
  induction cs generalizing s with
  | nil => simpa [Meets] using hs
  | cons c cs ih =>
    have hrest := fun hI => ih (s := next step s c) hI fun c' hc' => hcs c' (List.mem_cons_of_mem c hc')
    have hc : I (next step s c) ↔ P s c := h s c (hcs c List.mem_cons_self) hs
    constructor
    · intro hall
      have hnext : I (next step s c) := hall [c] (List.prefix_cons_inj c |>.mpr (List.nil_prefix))
      refine ⟨hc.mp hnext, (hrest hnext).mp fun ds hds => ?_⟩
      exact hall (c :: ds) ((List.prefix_cons_inj c).mpr hds)
    · rintro ⟨hP, hm⟩ ds hds
      rcases List.prefix_cons_iff.mp hds with rfl | ⟨t, rfl, ht⟩
      · exact hs
      · exact (hrest (hc.mpr hP)).mpr hm t ht

/-- What every call keeps exactly when it meets `P`, and none restores, holds after a run exactly when all
calls of the run met `P`. -/
theorem run_iff_meets {J : S → Prop} {P : S → C → Prop} {I : S → Prop}
    (hstep : ∀ s c r, I s → step s c = .ok r → I r.1)
    (h : ∀ s c, I s → (J (next step s c) ↔ J s ∧ P s c)) (hs : I s) :
    J (run step s cs) ↔ J s ∧ Meets step P s cs := by
  induction cs generalizing s with
  | nil => simp [Meets]
  | cons c cs ih =>
    rw [run_cons, ih (next_induction hs fun r hr => hstep s c r hs hr), h s c hs]
    simp only [Meets, and_assoc]

section Tally
variable {g : S → C → ℤ} {m : S → ℤ} {I : S → Prop} {P : S → C → Prop}

/-- The sum of `g` over the successful calls of a run, each in the state it is made in. -/
def tally (step : S → C → Except E (S × O)) (g : S → C → ℤ) : S → List C → ℤ
  | _, [] => 0
  | s, c :: cs =>
    match step s c with
    | .ok r => g s c + tally step g r.1 cs
    | .error _ => tally step g s cs

/-- A measure that every successful call moves by `g` moves by the tally over a run. -/
theorem run_tally (hstep : ∀ s c r, P s c → I s → step s c = .ok r → I r.1 ∧ m r.1 = m s + g s c)
    (hs : I s) (hm : Meets step P s cs) : m (run step s cs) = m s + tally step g s cs := by
  induction cs generalizing s with
  | nil => simp [tally]
  | cons c cs ih =>
    rw [run_cons]
    cases h : step s c with
    | ok r =>
      obtain ⟨hI, hmr⟩ := hstep s c r hm.1 hs h
      have hrest := ih hI (next_ok h ▸ hm.2)
      rw [next_ok h, hrest, hmr]
      simp only [tally, h]
      ring
    | error e =>
      rw [next_error h, ih hs (next_error h ▸ hm.2)]
      simp only [tally, h]

/-- A tally of non-negative terms is zero when every successful call contributes zero. -/
theorem tally_eq_zero_iff (hstep : ∀ s c r, P s c → I s → step s c = .ok r → I r.1 ∧ 0 ≤ g s c)
    (hs : I s) (hm : Meets step P s cs) :
    0 ≤ tally step g s cs ∧ (tally step g s cs = 0 ↔
      Meets step (fun s c => ∀ r, step s c = .ok r → g s c = 0) s cs) := by
  induction cs generalizing s with
  | nil => simp [tally, Meets]
  | cons c cs ih =>
    cases h : step s c with
    | ok r =>
      obtain ⟨hI, hg⟩ := hstep s c r hm.1 hs h
      obtain ⟨h0, hiff⟩ := ih hI (next_ok h ▸ hm.2)
      simp only [tally, Meets, h, next_ok h, ← hiff, Except.ok.injEq, forall_eq']
      omega
    | error e =>
      obtain ⟨h0, hiff⟩ := ih hs (next_error h ▸ hm.2)
      simp only [tally, Meets, h, next_error h, ← hiff]
      simpa using h0

theorem tally_add {f : S → C → ℤ} (cs : List C) :
    tally step (fun s c => f s c + g s c) s cs = tally step f s cs + tally step g s cs := by
  induction cs generalizing s with
  | nil => rfl
  | cons c cs ih =>
    cases h : step s c with
    | ok r =>
      simp only [tally, h, ih]
      ring
    | error e => simp only [tally, h, ih]

end Tally

def Timed (clock : C → ℕ) : ℕ → List C → Prop
  | _, [] => True
  | t, c :: cs => t ≤ clock c ∧ Timed clock (clock c) cs

def lastClock (clock : C → ℕ) (t : ℕ) (cs : List C) : ℕ := cs.foldl (fun _ c => clock c) t

section Clock
variable {clock : C → ℕ} {t : ℕ}

theorem timed_append (t : ℕ) (cs ds : List C) :
    Timed clock t (cs ++ ds) ↔ Timed clock t cs ∧ Timed clock (lastClock clock t cs) ds := by
  induction cs generalizing t with
  | nil => simp [Timed, lastClock]
  | cons c cs ih => simp [Timed, lastClock, ih, and_assoc]

end Clock

theorem log_append (s : S) (cs ds : List C) :
    log step s (cs ++ ds) = log step s cs ++ log step (run step s cs) ds := by
  induction cs generalizing s with
  | nil => rfl
  | cons c cs ih =>
    cases h : step s c with
    | ok r => simp [log, h, ih, next_ok h]
    | error e => simp [log, h, ih, next_error h]

theorem log_concat_ok (s : S) (cs : List C) {c : C} {r : S × O}
    (h : step (run step s cs) c = .ok r) : log step s (cs ++ [c]) = log step s cs ++ [(c, r.2)] := by
  simp [log_append, log, h]

theorem log_concat_error (s : S) (cs : List C) {c : C} {e : E}
    (h : step (run step s cs) c = .error e) : log step s (cs ++ [c]) = log step s cs := by
  simp [log_append, log, h]

theorem mem_of_mem_log {e : C × O} (h : e ∈ log step s cs) : e.1 ∈ cs := by
  induction cs generalizing s with
  | nil => cases h
  | cons c cs ih =>
    cases hc : step s c with
    | ok r =>
      simp only [log, hc, List.mem_cons] at h
      rcases h with rfl | h
      · exact List.mem_cons_self
      · exact List.mem_cons_of_mem c (ih h)
    | error e =>
      simp only [log, hc] at h
      exact List.mem_cons_of_mem c (ih h)

def logSum (f : C × O → ℤ) (l : List (C × O)) : ℤ := (l.map f).sum

@[simp] theorem logSum_nil (f : C × O → ℤ) : logSum f [] = 0 := rfl

theorem logSum_concat (f : C × O → ℤ) (l : List (C × O)) (e : C × O) :
    logSum f (l ++ [e]) = logSum f l + f e := by
  simp [logSum]

/-- A sum over the log is a tally when each of its terms is known in the state it is logged from. -/
theorem log_sum {f : C × O → ℤ} {g : S → C → ℤ} {P : S → C → Prop}
    (hstep : ∀ s c r, P s c → step s c = .ok r → f (c, r.2) = g s c) (hm : Meets step P s cs) :
    ((log step s cs).map f).sum = tally step g s cs := by
  induction cs generalizing s with
  | nil => rfl
  | cons c cs ih =>
    cases h : step s c with
    | ok r =>
      have hrest := ih (next_ok h ▸ hm.2)
      simp only [log, tally, h, List.map_cons, List.sum_cons, hrest, hstep s c r hm.1 h]
    | error e =>
      have hrest := ih (next_error h ▸ hm.2)
      simp only [log, tally, h, hrest]

/-- The invariant rule for facts that relate the state to the log of the run so far. -/
theorem run_log_invariant_of_meets {P : S → C → Prop} {I : S → List (C × O) → Prop}
    (hstep : ∀ s' l c r, P s' c → I s' l → step s' c = .ok r → I r.1 (l ++ [(c, r.2)]))
    (h0 : I s []) (hm : Meets step P s cs) : I (run step s cs) (log step s cs) := by
  induction cs using List.reverseRecOn with
  | nil => exact h0
  | append_singleton cs c ih =>
    obtain ⟨hcs, hc, _⟩ := (meets_append s cs [c]).mp hm
    rw [run_concat]
    cases h : step (run step s cs) c with
    | ok r =>
      rw [next_ok h, log_concat_ok s cs h]
      exact hstep _ _ _ _ hc (ih hcs) h
    | error e =>
      rw [next_error h, log_concat_error s cs h]
      exact ih hcs

theorem run_log_invariant {I : S → List (C × O) → Prop} (h0 : I s [])
    (hstep : ∀ s' l c r, I s' l → step s' c = .ok r → I r.1 (l ++ [(c, r.2)])) (cs : List C) :
    I (run step s cs) (log step s cs) :=
  run_log_invariant_of_meets (P := fun _ _ => True) (fun s' l c r _ => hstep s' l c r) h0
    (meets_of_forall (P := fun _ => True) fun _ _ => trivial)

/-- The same for runs in clock order, the relation speaking of the time as well. -/
theorem run_log_invariant_timed_of_meets {clock : C → ℕ} {t : ℕ} {P : S → C → Prop}
    {I : ℕ → S → List (C × O) → Prop} (hwait : ∀ t t' s l, t ≤ t' → I t s l → I t' s l)
    (hstep : ∀ s' l c r, P s' c → I (clock c) s' l → step s' c = .ok r →
      I (clock c) r.1 (l ++ [(c, r.2)]))
    (h0 : I t s []) (ht : Timed clock t cs) (hm : Meets step P s cs) :
    I (lastClock clock t cs) (run step s cs) (log step s cs) := by
  induction cs using List.reverseRecOn with
  | nil => exact h0
  | append_singleton cs c ih =>
    obtain ⟨hcs, hc, _⟩ := (timed_append t cs [c]).mp ht
    obtain ⟨hmeets, hP, _⟩ := (meets_append s cs [c]).mp hm
    have hlast : lastClock clock t (cs ++ [c]) = clock c := by simp [lastClock]
    have hI := hwait _ (clock c) _ _ hc (ih hcs hmeets)
    rw [run_concat, hlast]
    cases h : step (run step s cs) c with
    | ok r =>
      rw [next_ok h, log_concat_ok s cs h]
      exact hstep _ _ _ _ hP hI h
    | error e =>
      rw [next_error h, log_concat_error s cs h]
      exact hI

theorem run_log_invariant_timed {clock : C → ℕ} {t : ℕ} {I : ℕ → S → List (C × O) → Prop}
    (hwait : ∀ t t' s l, t ≤ t' → I t s l → I t' s l)
    (hstep : ∀ s' l c r, I (clock c) s' l → step s' c = .ok r → I (clock c) r.1 (l ++ [(c, r.2)]))
    (h0 : I t s []) (ht : Timed clock t cs) :
    I (lastClock clock t cs) (run step s cs) (log step s cs) :=
  run_log_invariant_timed_of_meets (P := fun _ _ => True) hwait (fun s' l c r _ => hstep s' l c r) h0 ht
    (meets_of_forall (P := fun _ => True) fun _ _ => trivial)

end Foundation
