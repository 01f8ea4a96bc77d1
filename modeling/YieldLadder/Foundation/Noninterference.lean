import YieldLadder.Foundation.Lockstep
import YieldLadder.Foundation.Machine

/-! # What an observer sees of a run

An observer sees some of the calls of a run, with the answer each gets and a view
of the state after it. When the calls it does not see leave its view, and the
ones it sees are answered from the view alone, two runs with the same visible
calls look the same to it, whatever else they contain.
-/
namespace Foundation
variable {S C O E V : Type*}

def replyTo (step : S → C → Except E (S × O)) (s : S) (c : C) : Except E O :=
  match step s c with
  | .ok r => .ok r.2
  | .error e => .error e

/-- The visible calls of a run, each with its answer and the view it leaves. -/
def observed (step : S → C → Except E (S × O)) (vis : C → Bool) (view : S → V) :
    S → List C → List (C × Except E O × V)
  | _, [] => []
  | s, c :: cs =>
    if vis c then
      (c, replyTo step s c, view (next step s c)) :: observed step vis view (next step s c) cs
    else observed step vis view (next step s c) cs

/-- The unwinding conditions: `I` is kept, a hidden call leaves the view, and a visible one is
answered alike, and leaves the same view, wherever the view is the same. -/
structure Unwinding (step : S → C → Except E (S × O)) (P : S → C → Prop) (I : S → Prop)
    (vis : C → Bool) (view : S → V) : Prop where
  kept : ∀ s c r, P s c → I s → step s c = .ok r → I r.1
  hidden : ∀ s c r, P s c → I s → vis c = false → step s c = .ok r → view r.1 = view s
  visible : ∀ s t c, P s c → P t c → I s → I t → vis c = true → view s = view t →
    replyTo step s c = replyTo step t c ∧ view (next step s c) = view (next step t c)

variable {step : S → C → Except E (S × O)} {P : S → C → Prop} {I : S → Prop}
variable {vis : C → Bool} {view : S → V} {s t : S} {c : C} {cs ds : List C}

section Alike
universe u
variable {S S' : Type u} {step : S → C → Except E (S × O)} {step' : S' → C → Except E (S' × O)}
variable {R : S → S' → Prop} {s : S} {t : S'}

theorem alike_of_agree (hst : R s t)
    (h : Agree (fun r q => R r.1 q.1 ∧ r.2 = q.2) (step s c) (step' t c)) :
    replyTo step s c = replyTo step' t c ∧ R (next step s c) (next step' t c) := by
  unfold replyTo next
  revert h
  generalize step s c = x
  generalize step' t c = y
  intro h
  cases h with
  | ok h => exact ⟨congrArg Except.ok h.2, h.1⟩
  | error e => exact ⟨rfl, hst⟩

end Alike

namespace Unwinding

theorem next (h : Unwinding step P I vis view) (hP : P s c) (hs : I s) : I (next step s c) :=
  next_induction hs fun r hr => h.kept s c r hP hs hr

theorem next_hidden (h : Unwinding step P I vis view) (hP : P s c) (hs : I s) (hc : vis c = false) :
    view (Foundation.next step s c) = view s :=
  next_induction (I := fun x => view x = view s) rfl fun r hr => h.hidden s c r hP hs hc hr

theorem run_hidden (h : Unwinding step P I vis view) (hs : I s) (hcs : ∀ c ∈ cs, vis c = false)
    (hm : Meets step P s cs) :
    I (run step s cs) ∧ view (run step s cs) = view s ∧ observed step vis view s cs = [] := by
  induction cs generalizing s with
  | nil => exact ⟨hs, rfl, rfl⟩
  | cons c cs ih =>
    have hc : vis c = false := hcs c List.mem_cons_self
    obtain ⟨hI, hview, hobs⟩ := ih (h.next hm.1 hs) (fun d hd => hcs d (List.mem_cons_of_mem c hd)) hm.2
    refine ⟨hI, hview.trans (h.next_hidden hm.1 hs hc), ?_⟩
    simp only [observed, hc, hobs, Bool.false_eq_true, if_false]

theorem observed_append (s : S) (cs ds : List C) : observed step vis view s (cs ++ ds) =
    observed step vis view s cs ++ observed step vis view (run step s cs) ds := by
  induction cs generalizing s with
  | nil => rfl
  | cons c cs ih =>
    simp only [List.cons_append, observed, ih, run_cons]
    split <;> simp

/-- Two runs with the same visible calls, from states with the same view, look the same. -/
theorem observed_eq (h : Unwinding step P I vis view) (hs : I s) (ht : I t) (hst : view s = view t)
    (hcs : Meets step P s cs) (hds : Meets step P t ds) (hsame : cs.filter vis = ds.filter vis) :
    observed step vis view s cs = observed step vis view t ds ∧
      view (run step s cs) = view (run step t ds) := by
  induction cs generalizing s t ds with
  | nil =>
    have hall : ∀ d ∈ ds, vis d = false := by
      simpa [List.filter_eq_nil_iff] using hsame.symm
    obtain ⟨_, hview, hobs⟩ := h.run_hidden ht hall hds
    exact ⟨hobs.symm, hst.trans hview.symm⟩
  | cons c cs ih =>
    obtain ⟨hc, hcs⟩ := hcs
    cases hv : vis c with
    | false =>
      have hview := h.next_hidden hc hs hv
      rw [List.filter_cons_of_neg (by simp [hv])] at hsame
      obtain ⟨hobs, hlast⟩ := ih (h.next hc hs) ht (hview.trans hst) hcs hds hsame
      refine ⟨?_, hlast⟩
      simpa only [observed, hv, Bool.false_eq_true, if_false] using hobs
    | true =>
      -- the other run makes hidden calls, then the same visible one
      rw [List.filter_cons_of_pos hv] at hsame
      obtain ⟨pre, post, rfl, hpre, _, hrest⟩ := List.filter_eq_cons_iff.mp hsame.symm
      obtain ⟨hmpre, hd, hmpost⟩ := (meets_append t pre (c :: post)).mp hds
      have hpre : ∀ d ∈ pre, vis d = false := fun d hd => by simpa using hpre d hd
      obtain ⟨hI, hview, hnone⟩ := h.run_hidden ht hpre hmpre
      have hbefore : view s = view (run step t pre) := hst.trans hview.symm
      obtain ⟨hreply, hafter⟩ := h.visible s (run step t pre) c hc hd hs hI hv hbefore
      obtain ⟨hobs, hlast⟩ := ih (h.next hc hs) (h.next hd hI) hafter hcs hmpost hrest.symm
      constructor
      · rw [observed_append, hnone, List.nil_append]
        simp only [observed, hv, if_true, hreply, hafter, hobs]
      · rw [run_append]
        exact hlast

end Unwinding
end Foundation
