import YieldLadder.Position.Consent
import YieldLadder.Position.FreshIds

/-! # Single-use approvals

An approval of a spender stands until the next call that writes the record: another
approval, or anything that moves or ends the token. Every use of an approval goes
back to the owner's `approve` that still stands, and is itself a call that writes
the record, so each approval has one use. The expiration is not recorded, and no
check reads the ledger.
-/
namespace YieldLadder.PositionToken
open Foundation

/-- The caller and the token of a call that an approval can let through. -/
def Call.spends : Call → Option (Address × ℕ)
  | .transfer src _ id => some (src, id)
  | .transferFrom spender _ _ id => some (spender, id)
  | .burnFrom spender _ id => some (spender, id)
  | _ => none

/-- The check lets the call through as the owner's or an operator's. -/
def Entitled (s : State) : Call → Prop
  | .transfer src _ id =>
    ∃ o, s.owner.get id = some o ∧ (src = o ∨ s.operatorApproval.getD (o, src) false = true)
  | .transferFrom spender src _ _ => s.operatorApproval.getD (src, spender) false = true
  | .burnFrom spender src _ => s.operatorApproval.getD (src, spender) false = true
  | _ => False

/-- The call writes the approval of the token when it succeeds. -/
def Call.settles (id : ℕ) : Call → Prop
  | .unwrap j => j = id
  | .transfer _ _ j => j = id
  | .transferFrom _ _ _ j => j = id
  | .approve _ _ j _ => j = id
  | .burn _ j => j = id
  | .burnFrom _ _ j => j = id
  | _ => False

/-- Spender `a` moves or burns the token by nothing but an approval. -/
structure Uses (token : Address) (s : State) (c : Invocation) (a : Address) (id : ℕ) : Prop where
  succeeds : ∃ r, exec token s c = .ok r
  spends : c.call.spends = some (a, id)
  approval : ¬Entitled s c.call

/-- The call `e` made after `ds` is an approval of `a` by `o`. It still stands after `es`: no call since
has written the approval of the token, and `o` owned the token all the time. -/
structure Standing (token : Address) (ds : List Invocation) (e : Invocation) (es : List Invocation)
    (o a : Address) (id expiration : ℕ) : Prop where
  call : e.call = .approve o a id expiration
  made : ∃ r, exec token (run (exec token) .empty ds) e = .ok r
  kept : ∀ es₁ c es₂, es = es₁ ++ c :: es₂ →
    ∀ r, exec token (run (exec token) .empty (ds ++ e :: es₁)) c = .ok r → ¬c.call.settles id
  owned : ∀ es₁ es₂, es = es₁ ++ es₂ → (run (exec token) .empty (ds ++ e :: es₁)).owner.get id = some o

/-- No successful wrap lands on the token while somebody else has it and an approval for it is on record. -/
def WrapsOwn (self : Address) (id : ℕ) (s : State) (c : Invocation) : Prop :=
  ∀ user tierVault, c.call = .wrap user tierVault → c.env.Authorized user →
    c.external ⟨tierVault, user, self⟩ = .ok () → s.nextTokenId.getD 0 = id →
    s.approved.get id ≠ none → ∀ o, s.owner.get id = some o → o = user

variable {self : Address} {s s' : State} {c e : Invocation} {r : State × Value}
variable {a o : Address} {id expiration : ℕ} {cs ds es : List Invocation}

theorem checkApprovedFor_eq_ok {spender src : Address} {u : Unit} :
    checkApprovedFor s spender src id = .ok u ↔
      s.operatorApproval.getD (src, spender) false = true ∨ s.approved.get id = some spender := by
  unfold checkApprovedFor
  split_ifs with hoperator happroved
  · simp [hoperator]
  · simp [happroved]
  · simp [hoperator, happroved]

theorem settles_of_spends {call : Call} (h : call.spends = some (a, id)) : call.settles id := by
  cases call with
  | transfer => exact (Prod.mk.inj (Option.some.inj h)).2
  | transferFrom => exact (Prod.mk.inj (Option.some.inj h)).2
  | burnFrom => exact (Prod.mk.inj (Option.some.inj h)).2
  | _ => cases h

theorem Uses.approved (h : Uses self s c a id) : s.approved.get id = some a := by
  obtain ⟨⟨r, hr⟩, hspends, hno⟩ := h
  have heffect := exec_effect hr
  obtain ⟨env, external, call⟩ := c
  cases heffect with
  | transfer src dst j _ hcheck =>
    obtain ⟨rfl, rfl⟩ := Prod.mk.inj (Option.some.inj hspends)
    obtain ⟨o, ho, hself | hoperator | happroved⟩ := checkOwnerOrApproved_eq_ok.mp hcheck
    · exact absurd ⟨o, ho, .inl hself⟩ hno
    · exact absurd ⟨o, ho, .inr hoperator⟩ hno
    · exact happroved
  | transferFrom spender src dst j _ hcheck =>
    obtain ⟨rfl, rfl⟩ := Prod.mk.inj (Option.some.inj hspends)
    exact (checkApprovedFor_eq_ok.mp hcheck).resolve_left hno
  | burnFrom spender src j _ hcheck =>
    obtain ⟨rfl, rfl⟩ := Prod.mk.inj (Option.some.inj hspends)
    exact (checkApprovedFor_eq_ok.mp hcheck).resolve_left hno
  | other _ hnone =>
    cases call with
    | transfer => cases hnone
    | transferFrom => cases hnone
    | burnFrom => cases hnone
    | _ => cases hspends
  | _ => cases hspends

theorem requires_of_settles (hr : exec self s c = .ok r) (hs : c.call.settles id) :
    c.call.requires s ≠ none := by
  obtain ⟨env, external, call⟩ := c
  cases call with
  | unwrap j =>
    obtain ⟨holder, _, howner, _⟩ := exec_unwrap_iff.mp hr
    simp [Call.requires, howner]
  | transfer => simp [Call.requires]
  | transferFrom => simp [Call.requires]
  | approve => simp [Call.requires]
  | burn => simp [Call.requires]
  | burnFrom => simp [Call.requires]
  | _ => exact hs.elim

theorem approve_of_settles (hr : exec self s c = .ok r) (hs : c.call.settles id)
    (ha : r.1.approved.get id = some a) :
    ∃ o expiration, c.call = .approve o a id expiration ∧ r.1.owner.get id = some o := by
  have heffect := exec_effect hr
  have hrequires := requires_of_settles hr hs
  obtain ⟨env, external, call⟩ := c
  have hremoved : r.1.approved ≠ s.approved.remove id := by
    intro heq
    rw [heq] at ha
    simp at ha
  cases heffect with
  | unwrap j _ _ _ _ happroved => exact absurd (hs ▸ happroved) hremoved
  | transfer _ _ j _ _ hstate => exact absurd (hs ▸ congrArg State.approved hstate) hremoved
  | transferFrom _ _ _ j _ _ hstate => exact absurd (hs ▸ congrArg State.approved hstate) hremoved
  | approve owner spender j expiration _ hget hstate =>
    obtain rfl : j = id := hs
    rw [hstate] at ha
    obtain rfl : spender = a := by simpa using ha
    exact ⟨owner, expiration, rfl, by rw [hstate]; exact hget⟩
  | burn _ j _ _ hstate => exact absurd (hs ▸ congrArg State.approved hstate) hremoved
  | burnFrom _ _ j _ _ hstate => exact absurd (hs ▸ congrArg State.approved hstate) hremoved
  | other _ hnone => exact absurd hnone hrequires
  | _ => exact hs.elim

/-- An approval goes on standing after a call that writes no approval of its token and leaves the token
with its owner. -/
theorem Standing.concat (h : Standing self ds e es o a id expiration)
    (hkept : ∀ r, exec self (run (exec self) .empty (ds ++ e :: es)) c = .ok r → ¬c.call.settles id)
    (ho : (run (exec self) .empty (ds ++ e :: (es ++ [c]))).owner.get id = some o) :
    Standing self ds e (es ++ [c]) o a id expiration := by
  refine ⟨h.call, h.made, fun es₁ c' es₂ hes => ?_, fun es₁ es₂ hes => ?_⟩
  · rcases List.eq_nil_or_concat' es₂ with rfl | ⟨es₃, c'', rfl⟩
    · obtain ⟨rfl, hc⟩ := List.append_inj' hes rfl
      cases hc
      exact hkept
    · rw [← List.cons_append, ← List.append_assoc] at hes
      exact h.kept es₁ c' es₃ (List.append_inj' hes rfl).1
  · rcases List.eq_nil_or_concat' es₂ with rfl | ⟨es₃, c'', rfl⟩
    · rw [List.append_nil] at hes
      exact hes ▸ ho
    · rw [← List.append_assoc] at hes
      exact h.owned es₁ es₃ (List.append_inj' hes rfl).1

/-- Every approval on record for the token in a run is one that stands. -/
def Provided (self : Address) (id : ℕ) (cs : List Invocation) : Prop :=
  ∀ a, (run (exec self) .empty cs).approved.get id = some a →
    ∃ ds e es o expiration, cs = ds ++ e :: es ∧ Standing self ds e es o a id expiration

theorem run_approved_owned (cs : List Invocation) : ∀ id a,
    (run (exec self) .empty cs).approved.get id = some a →
      ∃ o, (run (exec self) .empty cs).owner.get id = some o :=
  run_invariant (I := fun s : State => ∀ id a, s.approved.get id = some a → ∃ o, s.owner.get id = some o)
    (fun _ _ _ h hr _ _ ha => (exec_effect hr).approved_owned h ha) (fun _ _ ha => by cases ha) cs

theorem Provided.concat (h : Provided self id cs) (hw : WrapsOwn self id (run (exec self) .empty cs) c) :
    Provided self id (cs ++ [c]) := by
  intro a ha
  cases hc : exec self (run (exec self) .empty cs) c with
  | error err =>
    have hsame : run (exec self) .empty (cs ++ [c]) = run (exec self) .empty cs := by
      rw [run_concat, next_error hc]
    rw [hsame] at ha
    obtain ⟨ds, e, es, o, expiration, rfl, hstanding⟩ := h a ha
    refine ⟨ds, e, es ++ [c], o, expiration, by simp, hstanding.concat (fun r hr => ?_) ?_⟩
    · rw [hc] at hr
      cases hr
    · have howned := hstanding.owned es [] (by simp)
      rw [← hsame] at howned
      simpa using howned
  | ok r =>
    have hnext : run (exec self) .empty (cs ++ [c]) = r.1 := by rw [run_concat, next_ok hc]
    rw [hnext] at ha
    by_cases hs : c.call.settles id
    · obtain ⟨o, expiration, hcall, ho⟩ := approve_of_settles hc hs ha
      refine ⟨cs, c, [], o, expiration, rfl, hcall, ⟨r, hc⟩, fun es₁ c' es₂ hes => ?_, fun es₁ es₂ hes => ?_⟩
      · cases es₁ <;> cases hes
      · obtain ⟨rfl, _⟩ := List.append_eq_nil_iff.mp hes.symm
        rw [hnext, ho]
    · rcases (exec_effect hc).approved hw (run_approved_owned cs) ha with ⟨ha, hkeep⟩ | ⟨o, _, hcall, _⟩
      · obtain ⟨ds, e, es, o, expiration, rfl, hstanding⟩ := h a ha
        refine ⟨ds, e, es ++ [c], o, expiration, by simp, hstanding.concat (fun _ _ => hs) ?_⟩
        have howned := hstanding.owned es [] (by simp)
        rw [← hkeep, ← hnext] at howned
        simpa using howned
      · rw [hcall] at hs
        exact absurd rfl hs

theorem run_provided (hm : Meets (exec self) (WrapsOwn self id) .empty cs) : Provided self id cs := by
  induction cs using List.reverseRecOn with
  | nil =>
    intro a ha
    cases ha
  | append_singleton cs c ih =>
    obtain ⟨hcs, hc, _⟩ := (meets_append _ cs [c]).mp hm
    exact (ih hcs).concat hc

theorem Standing.not_used (h : Standing self ds e es o a id expiration) {es₁ es₂ : List Invocation}
    (hes : es = es₁ ++ c :: es₂) : ¬Uses self (run (exec self) .empty (ds ++ e :: es₁)) c a id := by
  intro huse
  obtain ⟨r, hr⟩ := huse.succeeds
  exact h.kept es₁ c es₂ hes r hr (settles_of_spends huse.spends)

/-- An approval has one use. -/
theorem Standing.once {es₁ es₂ fs₁ fs₂ : List Invocation} {c₁ c₂ : Invocation}
    (h₁ : Standing self ds e es₁ o a id expiration) (h₂ : Standing self ds e es₂ o a id expiration)
    (hu₁ : Uses self (run (exec self) .empty (ds ++ e :: es₁)) c₁ a id)
    (hu₂ : Uses self (run (exec self) .empty (ds ++ e :: es₂)) c₂ a id)
    (hsame : es₁ ++ c₁ :: fs₁ = es₂ ++ c₂ :: fs₂) : es₁ = es₂ := by
  rcases List.append_eq_append_iff.mp hsame with ⟨gs, hes, hgs⟩ | ⟨gs, hes, hgs⟩
  · cases gs with
    | nil => simpa using hes.symm
    | cons x gs =>
      obtain ⟨rfl, _⟩ := List.cons.inj hgs
      exact absurd hu₁ (h₂.not_used hes)
  · cases gs with
    | nil => simpa using hes
    | cons x gs =>
      obtain ⟨rfl, _⟩ := List.cons.inj hgs
      exact absurd hu₂ (h₁.not_used hes)

theorem Uses.at_ledger (h : Uses self s c a id) (ledger : ℕ) :
    Uses self s { c with env.ledger := ledger } a id := by
  obtain ⟨hok, hspends, hno⟩ := h
  refine ⟨?_, hspends, hno⟩
  obtain ⟨env, external, call⟩ := c
  cases call with
  | transfer => exact hok
  | transferFrom => exact hok
  | burnFrom => exact hok
  | _ => cases hspends

/-- In every run without a wrap that lands on the token of somebody else under an approval: a use of an
approval of the token goes back to an `approve` of the owner that still stands. In every run at all no two
uses go back to the same one, and a use is one at every ledger. -/
theorem run_approvals (hm : Meets (exec self) (WrapsOwn self id) .empty cs) :
    (∀ ds c es, cs = ds ++ c :: es → ∀ a, Uses self (run (exec self) .empty ds) c a id →
      ∃ ds₁ e es₁ o expiration, ds = ds₁ ++ e :: es₁ ∧ Standing self ds₁ e es₁ o a id expiration) ∧
    (∀ ds e es, cs = ds ++ e :: es → ∀ es₁ c₁ fs₁ es₂ c₂ fs₂, es = es₁ ++ c₁ :: fs₁ →
      es = es₂ ++ c₂ :: fs₂ → ∀ o a id expiration, Standing self ds e es₁ o a id expiration →
      Standing self ds e es₂ o a id expiration →
      Uses self (run (exec self) .empty (ds ++ e :: es₁)) c₁ a id →
      Uses self (run (exec self) .empty (ds ++ e :: es₂)) c₂ a id → es₁ = es₂) ∧
    ∀ s c a id, Uses self s c a id → ∀ ledger, Uses self s { c with env.ledger := ledger } a id := by
  refine ⟨?_, ?_, fun s c a id h ledger => h.at_ledger ledger⟩
  · rintro ds c es rfl a huse
    obtain ⟨hds, _⟩ := (meets_append _ ds (c :: es)).mp hm
    exact run_provided hds a huse.approved
  · intro ds e es _ es₁ c₁ fs₁ es₂ c₂ fs₂ h₁ h₂ o a id expiration hs₁ hs₂ hu₁ hu₂
    exact hs₁.once hs₂ hu₁ hu₂ (h₁.symm.trans h₂)

/-- Account 1 wraps a position and approves account 2 until ledger 10; account 2 takes the token to
account 3 at ledger 11. -/
def lateUse : List Invocation :=
  [⟨⟨[9], none, 1⟩, fun _ => .ok (), .initialise (.account 9)⟩,
   ⟨⟨[1], none, 2⟩, fun _ => .ok (), .wrap (.account 1) (.contract 3)⟩,
   ⟨⟨[1], none, 3⟩, fun _ => .ok (), .approve (.account 1) (.account 2) 0 10⟩,
   ⟨⟨[2], none, 11⟩, fun _ => .ok (), .transferFrom (.account 2) (.account 1) (.account 3) 0⟩]

theorem lateUse_wrapsOwn : Meets (exec (.contract 7)) (WrapsOwn (.contract 7) 0) .empty lateUse := by
  simp only [lateUse, Meets, WrapsOwn, and_true]
  refine ⟨by simp, ?_, by simp, by simp⟩
  intro _ _ _ _ _ _ _ o ho
  cases ho

theorem run_approvals_lateUse :
    (∀ ds c es, lateUse = ds ++ c :: es → ∀ a,
      Uses (.contract 7) (run (exec (.contract 7)) .empty ds) c a 0 →
      ∃ ds₁ e es₁ o expiration, ds = ds₁ ++ e :: es₁ ∧
        Standing (.contract 7) ds₁ e es₁ o a 0 expiration) ∧
    (∀ ds e es, lateUse = ds ++ e :: es → ∀ es₁ c₁ fs₁ es₂ c₂ fs₂, es = es₁ ++ c₁ :: fs₁ →
      es = es₂ ++ c₂ :: fs₂ → ∀ o a id expiration, Standing (.contract 7) ds e es₁ o a id expiration →
      Standing (.contract 7) ds e es₂ o a id expiration →
      Uses (.contract 7) (run (exec (.contract 7)) .empty (ds ++ e :: es₁)) c₁ a id →
      Uses (.contract 7) (run (exec (.contract 7)) .empty (ds ++ e :: es₂)) c₂ a id → es₁ = es₂) ∧
    ∀ s c a id, Uses (.contract 7) s c a id → ∀ ledger,
      Uses (.contract 7) s { c with env.ledger := ledger } a id :=
  run_approvals lateUse_wrapsOwn

/-- The last call of the run uses the approval, one ledger after its expiration. -/
theorem lateUse_expired : ∃ ds e es c r, lateUse = ds ++ e :: es ++ [c] ∧
    e.call = .approve (.account 1) (.account 2) 0 10 ∧ 10 < c.env.ledger ∧
    Uses (.contract 7) (run (exec (.contract 7)) .empty (ds ++ e :: es)) c (.account 2) 0 ∧
    exec (.contract 7) (run (exec (.contract 7)) .empty (ds ++ e :: es)) c = .ok r ∧
    r.1.owner.get 0 = some (.account 3) := by
  refine ⟨lateUse.take 2, _, [], _, _, rfl, rfl, by decide, ⟨⟨_, rfl⟩, rfl, ?_⟩, rfl, rfl⟩
  exact fun hoperator => Bool.false_ne_true hoperator

end YieldLadder.PositionToken
