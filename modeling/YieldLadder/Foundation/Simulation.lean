import YieldLadder.Foundation.Noninterference

/-! # Two machines that answer every call alike

When each call keeps two states related and gets the same answer from both, the
two machines give the same answers, faults included, over every run.
-/
namespace Foundation
universe u
variable {S S' : Type u} {C O E : Type*}

def replies (step : S → C → Except E (S × O)) : S → List C → List (Except E O)
  | _, [] => []
  | s, c :: cs => replyTo step s c :: replies step (next step s c) cs

variable {step : S → C → Except E (S × O)} {step' : S' → C → Except E (S' × O)}
variable {R : S → S' → Prop} {s : S} {t : S'} {cs : List C}

/-- The simulation rule for runs whose calls all meet a condition. -/
theorem simulation {Q : C → Prop}
    (hstep : ∀ s t c, Q c → R s t → Agree (fun r q => R r.1 q.1 ∧ r.2 = q.2) (step s c) (step' t c))
    (hst : R s t) (hcs : ∀ c ∈ cs, Q c) :
    replies step s cs = replies step' t cs ∧ R (run step s cs) (run step' t cs) := by
  induction cs generalizing s t with
  | nil => exact ⟨rfl, hst⟩
  | cons c cs ih =>
    have hc : Q c := hcs c List.mem_cons_self
    obtain ⟨hreply, hnext⟩ := alike_of_agree hst (hstep s t c hc hst)
    obtain ⟨hreplies, hlast⟩ := ih hnext fun d hd => hcs d (List.mem_cons_of_mem c hd)
    refine ⟨?_, hlast⟩
    rw [replies, replies, hreply, hreplies]

end Foundation
