import YieldLadder.Governance.Attainable

/-! # Owners that watch

A proposal stands for a timelock before it can be executed, and the veto of an objection needs as many
owners as the threshold says. Owners that confirm every proposal they object to in that time keep the
multisig the guardian, whoever the strategist is, and nothing they object to takes effect.
-/
namespace YieldLadder.Governance
open Foundation

/-- What a successful call does to the proposals: one of them is new, vetoed or executed. -/
theorem Effect.stored {env : Env} {i : Instance} {s s' : State} {call : Call} {reply : Reply} {id : ℕ} {p : Proposal}
    (h : Effect env i s s' call reply) (hp : s'.proposals.get id = some p) :
    s.proposals.get id = some p ∨ p.status = .vetoed ∨
      (call = .propose p.action ∧ reply = ⟨.u32 id, []⟩ ∧ p.proposedAtLedger = env.ledger ∧ p.status = .pending) ∨
      (call = .execute id ∧ ∃ q, s.proposals.get id = some q ∧ q.status = .pending ∧ q.action = p.action ∧
        q.proposedAtLedger + TIMELOCK_LEDGERS ≤ env.ledger) := by
  cases h with
  | propose action _ _ hset =>
    rw [hset, Store.get_set] at hp
    split at hp
    · next hid =>
      obtain rfl := Option.some.inj hp
      exact .inr (.inr (.inl ⟨rfl, by rw [hid], rfl, rfl⟩))
    · exact .inl hp
  | veto j q _ _ _ _ hset =>
    rw [hset, Store.get_set] at hp
    split at hp
    · obtain rfl := Option.some.inj hp
      exact .inr (.inl rfl)
    · exact .inl hp
  | execute j q hget hpending htime _ hset =>
    rw [hset, Store.get_set] at hp
    split at hp
    · next hid =>
      obtain rfl := Option.some.inj hp
      have hpos : 0 < TIMELOCK_LEDGERS := by decide
      exact .inr (.inr (.inr ⟨by rw [hid], q, hid ▸ hget, hpending, rfl, by omega⟩))
    · exact .inl hp
  | read _ _ hs => exact .inl (hs ▸ hp)

/-- Only the execution of a proposal changes a role, to what its action says. -/
theorem Effect.roles {env : Env} {i : Instance} {s s' : State} {call : Call} {reply : Reply} (hi : s.inst = some i)
    (h : Effect env i s s' call reply) : ∃ i', s'.inst = some i' ∧
      (i'.guardian = i.guardian ∧ i'.strategist = i.strategist ∨
        ∃ id p, call = .execute id ∧ s.proposals.get id = some p ∧ p.status = .pending ∧
          p.proposedAtLedger + TIMELOCK_LEDGERS ≤ env.ledger ∧ i' = p.action.roles i) := by
  cases h with
  | propose _ _ hinst => exact ⟨_, hinst, .inl ⟨rfl, rfl⟩⟩
  | veto _ _ _ _ _ hinst => exact ⟨_, hinst, .inl ⟨rfl, rfl⟩⟩
  | execute id p hget hpending htime hinst =>
    have hpos : 0 < TIMELOCK_LEDGERS := by decide
    exact ⟨_, hinst, .inr ⟨id, p, rfl, hget, hpending, by omega, rfl⟩⟩
  | read _ _ hs => exact ⟨i, hs ▸ hi, .inl ⟨rfl, rfl⟩⟩

end YieldLadder.Governance

namespace YieldLadder.Council
open Foundation GuardianMultisig

/-- The call makes the proposal. -/
structure Proposes (multisig : Address) (w : Council) (c : Invocation) (t : Target)
    (action : Governance.ProposalAction) : Prop where
  call : c.call = .governance t.1 (.propose action)
  reply : ∃ w', exec multisig w c = .ok (w', .governance ⟨.u32 t.2, []⟩)

/-- As many owners as the threshold says each call the confirmation of the target. -/
def Confirmed (i : Instance) (t : Target) (cs : List Invocation) : Prop :=
  ∃ confirmers : List Address, confirmers.Nodup ∧ i.threshold ≤ confirmers.length ∧
    ∀ o ∈ confirmers, o ∈ i.owners ∧ ∃ c ∈ cs, Signs t o c

/-- Every proposal that is objected to is confirmed for a veto before the call that comes a timelock later. -/
def Watched (self : Address) (i : Instance) (objects : Address → Governance.ProposalAction → Prop) (w : Council)
    (cs : List Invocation) : Prop :=
  ∀ ds c es e fs t action, cs = ds ++ c :: (es ++ e :: fs) → Proposes self (run (exec self) w ds) c t action →
    objects t.1 action → c.env.ledger + Governance.TIMELOCK_LEDGERS ≤ e.env.ledger → Confirmed i t es

def strategistOf (w : Council) (a : Address) : Option Address :=
  (w.governances a).bind fun g => g.inst.map (·.strategist)

/-- A proposal that is objected to is vetoed, or its confirmations since it was made are in the list. -/
structure Held (multisig : Address) (i : Instance) (w₀ w : Council) (ds : List Invocation) (t : Target)
    (p : Governance.Proposal) : Prop where
  pending : p.status = .pending
  since : ∃ es c fs, ds = es ++ c :: fs ∧ Proposes multisig (run (exec multisig) w₀ es) c t p.action ∧
    p.proposedAtLedger = c.env.ledger ∧
    ∀ o ∈ i.owners, (∃ x ∈ fs, Signs t o x) → o ∈ w.multisig.confirmations.getD t []

/-- What holds after the calls `ds`, made from `w₀`, of owners that watch. -/
structure Vigil (multisig : Address) (i : Instance) (objects : Address → Governance.ProposalAction → Prop)
    (w₀ w : Council) (ds : List Invocation) : Prop where
  listed : Listed i w
  guarded : Guarded multisig w
  strategist : ∀ a, (∀ new, objects a (.updateStrategist new)) → strategistOf w a = strategistOf w₀ a
  held : ∀ t g p, w.governances t.1 = some g → g.proposals.get t.2 = some p → objects t.1 p.action →
    p.status = .vetoed ∨ Held multisig i w₀ w ds t p

variable {self : Address} {i : Instance} {objects : Address → Governance.ProposalAction → Prop}
variable {w₀ w w' : Council} {c e : Invocation} {cs ds : List Invocation} {r : Council × Value} {t : Target}
variable {p : Governance.Proposal}

theorem Watched.front (h : Watched self i objects w (cs ++ [e])) : Watched self i objects w cs := by
  intro ds c es x fs t action hcs
  refine h ds c es x (fs ++ [e]) t action ?_
  rw [hcs, List.append_assoc, List.cons_append, List.append_assoc, List.cons_append]

theorem Held.concat (h : Held self i w₀ w ds t p)
    (hlists : ∀ o ∈ w.multisig.confirmations.getD t [], o ∈ w'.multisig.confirmations.getD t [])
    (hsigns : ∀ o ∈ i.owners, Signs t o e → o ∈ w'.multisig.confirmations.getD t []) :
    Held self i w₀ w' (ds ++ [e]) t p := by
  obtain ⟨es, c, fs, rfl, hproposes, hledger, hsigned⟩ := h.since
  refine ⟨h.pending, es, c, fs ++ [e], by simp, hproposes, hledger, fun o ho hx => ?_⟩
  obtain ⟨x, hx, hsign⟩ := hx
  rcases List.mem_append.mp hx with hx | hx
  · exact hlists o (hsigned o ho ⟨x, hx, hsign⟩)
  · exact hsigns o ho (List.mem_singleton.mp hx ▸ hsign)

/-- What is objected to is not pending any more by the time it could be executed. -/
theorem Vigil.spared (h : Vigil self i objects w₀ w ds) (hwatch : Watched self i objects w₀ (ds ++ [e]))
    {g : Governance.State} (hg : w.governances t.1 = some g) (hget : g.proposals.get t.2 = some p)
    (hpending : p.status = .pending) (htime : p.proposedAtLedger + Governance.TIMELOCK_LEDGERS ≤ e.env.ledger) :
    ¬objects t.1 p.action := by
  intro hobjects
  rcases h.held t g p hg hget hobjects with hvetoed | hheld
  · rw [hpending] at hvetoed
    cases hvetoed
  · obtain ⟨es, c, fs, rfl, hproposes, hledger, hsigned⟩ := hheld.since
    obtain ⟨confirmers, hnodup, hmany, hall⟩ := hwatch es c fs e [] t p.action (by simp) hproposes hobjects
      (hledger ▸ htime)
    have hsub : confirmers ⊆ w.multisig.confirmations.getD t [] :=
      fun o ho => hsigned o (hall o ho).1 (hall o ho).2
    have hlength : confirmers.length ≤ (w.multisig.confirmations.getD t []).length :=
      (hnodup.subperm hsub).length_le
    have hshort := (h.listed.lists t).short
    omega

/-- A call that fails leaves a signature of it in the list already. -/
theorem Vigil.failed (h : Vigil self i objects w₀ w ds) {fault : Fault} (hfails : exec self w e = .error fault) :
    Vigil self i objects w₀ w (ds ++ [e]) where
  listed := h.listed
  guarded := h.guarded
  strategist := h.strategist
  held t g p hg hget hobjects := by
    refine (h.held t g p hg hget hobjects).imp_right fun hheld => ?_
    refine hheld.concat (fun o ho => ho) fun o ho hsigns => ?_
    by_contra hnew
    have hguardian : guardianOf w t.1 = some self := by
      obtain ⟨j, hj, hself⟩ := h.guarded t.1 g hg
      exact guardianOf_eq_some.mpr ⟨g, hg, j, hj, hself⟩
    have hpending : status w t = some .pending := status_eq_some.mpr ⟨g, hg, p, hget, hheld.pending⟩
    obtain ⟨r, hr⟩ := confirmVeto_goes_through h.listed hguardian hpending hsigns ho hnew
    rw [hfails] at hr
    cases hr

section Step
variable {env : Env} {external : Governance.Message → Except Fault Unit} {owner a : Address} {id : ℕ}
variable {g g' : Governance.State}

theorem guarded_update (h : Guarded self w) (hg' : ∃ j, g'.inst = some j ∧ j.guardian = self)
    (hgov : w'.governances = Function.update w.governances a (some g')) : Guarded self w' := by
  intro b k hb
  rw [hgov, Function.update_apply] at hb
  split at hb
  · exact Option.some.inj hb ▸ hg'
  · exact h b k hb

theorem strategistOf_update {b : Address} (hgov : w'.governances = Function.update w.governances a (some g')) :
    strategistOf w' b = if b = a then g'.inst.map (·.strategist) else strategistOf w b := by
  unfold strategistOf
  rw [hgov, Function.update_apply]
  split_ifs
  · rfl
  · rfl

theorem signs_confirmVeto {o : Address} (h : Signs t o ⟨env, external, .confirmVeto owner a id⟩) :
    o = owner ∧ t = (a, id) := by
  obtain ⟨rfl, rfl, rfl⟩ := Call.confirmVeto.inj h.1
  exact ⟨rfl, rfl⟩

theorem Vigil.confirm (h : Vigil self i objects w₀ w ds) (hlisted : Listed i w')
    (hadded : ∀ t, w'.multisig.confirmations.getD t [] = if t = (a, id)
      then w.multisig.confirmations.getD t [] ++ [owner] else w.multisig.confirmations.getD t [])
    (hgov : w'.governances = w.governances) :
    Vigil self i objects w₀ w' (ds ++ [⟨env, external, .confirmVeto owner a id⟩]) where
  listed := hlisted
  guarded b g hg := h.guarded b g (hgov ▸ hg)
  strategist b hnew := by
    rw [← h.strategist b hnew]
    unfold strategistOf
    rw [hgov]
  held t g p hg hget hobjects := by
    refine (h.held t g p (hgov ▸ hg) hget hobjects).imp_right fun hheld => ?_
    refine hheld.concat (fun o ho => ?_) fun o _ hsigns => ?_
    · rw [hadded]
      split
      · exact List.mem_append_left _ ho
      · exact ho
    · obtain ⟨rfl, ht⟩ := signs_confirmVeto hsigns
      rw [hadded, if_pos ht]
      exact List.mem_append_right _ List.mem_cons_self

theorem Vigil.dispatch (h : Vigil self i objects w₀ w ds) (hlisted : Listed i w') (hg : w.governances a = some g)
    (hveto : Governance.veto (env.calledBy self) g id = .ok g')
    (hremoved : ∀ t, w'.multisig.confirmations.getD t [] = if t = (a, id)
      then [] else w.multisig.confirmations.getD t [])
    (hgov : w'.governances = Function.update w.governances a (some g')) :
    Vigil self i objects w₀ w' (ds ++ [⟨env, external, .confirmVeto owner a id⟩]) := by
  obtain ⟨hinst, q, _, _, hset⟩ := veto_ok hveto
  refine ⟨hlisted, guarded_update h.guarded (hinst.symm ▸ h.guarded a g hg) hgov, fun b hnew => ?_, ?_⟩
  · rw [← h.strategist b hnew, strategistOf_update hgov]
    split_ifs with hb
    · subst hb
      rw [hinst, strategistOf, hg, Option.bind_some]
    · rfl
  · intro t k p hk hget hobjects
    -- the list of the vetoed target is gone, and all other targets are as they were
    by_cases ht : t = (a, id)
    · subst ht
      rw [hgov, Function.update_self] at hk
      obtain rfl := Option.some.inj hk
      rw [hset, Store.get_set_self] at hget
      exact .inl (congrArg _ (Option.some.inj hget)).symm
    · have hkept : ∃ k, w.governances t.1 = some k ∧ k.proposals.get t.2 = some p := by
        rw [hgov, Function.update_apply] at hk
        split at hk
        · next ha =>
          obtain rfl := Option.some.inj hk
          have hne : t.2 ≠ id := fun hid => ht (Prod.ext ha hid)
          rw [hset, Store.get_set_of_ne _ hne] at hget
          exact ⟨g, ha ▸ hg, hget⟩
        · exact ⟨k, hk, hget⟩
      obtain ⟨k, hk, hget⟩ := hkept
      refine (h.held t k p hk hget hobjects).imp_right fun hheld => ?_
      refine hheld.concat (fun o ho => ?_) fun o _ hsigns => absurd (signs_confirmVeto hsigns).2 ht
      rw [hremoved, if_neg ht]
      exact ho

/-- The roles that the action of a proposal leaves, which is not objected to. -/
theorem roles_kept {j : Governance.Instance} {action : Governance.ProposalAction}
    (hdepose : ∀ a new, new ≠ self → objects a (.updateGuardian new)) (hself : j.guardian = self)
    (hno : ¬objects a action) : (action.roles j).guardian = self ∧
      ((∀ new, objects a (.updateStrategist new)) → (action.roles j).strategist = j.strategist) := by
  cases action with
  | setAllocation pool targetBps => exact ⟨hself, fun _ => rfl⟩
  | updateStrategist new => exact ⟨hself, fun hall => absurd (hall new) hno⟩
  | updateGuardian new =>
    have hsame : new = self := by
      by_contra hne
      exact hno (hdepose a new hne)
    exact ⟨hsame, fun _ => rfl⟩
  | updateTierParam tierVault param value => exact ⟨hself, fun _ => rfl⟩

theorem Vigil.governed {c : Governance.Invocation} {q : Governance.State × Governance.Reply}
    (h : Vigil self i objects w₀ (run (exec self) w₀ ds) ds)
    (hdepose : ∀ a new, new ≠ self → objects a (.updateGuardian new))
    (hwatch : Watched self i objects w₀ (ds ++ [⟨c.env, external, .governance a c.call⟩]))
    (hg : (run (exec self) w₀ ds).governances a = some g) (hexec : Governance.exec g c = .ok q)
    (hr : exec self (run (exec self) w₀ ds) ⟨c.env, external, .governance a c.call⟩ = .ok (w', .governance q.2))
    (hgov : w' = { run (exec self) w₀ ds with
      governances := Function.update (run (exec self) w₀ ds).governances a (some q.1) }) :
    Vigil self i objects w₀ w' (ds ++ [⟨c.env, external, .governance a c.call⟩]) := by
  obtain ⟨j, hj, hself⟩ := h.guarded a g hg
  have heffect := Governance.exec_effect hj hexec
  have hupdate : w'.governances = Function.update (run (exec self) w₀ ds).governances a (some q.1) := by rw [hgov]
  have hlists : w'.multisig = (run (exec self) w₀ ds).multisig := by rw [hgov]
  have hspared : ∀ {id p}, g.proposals.get id = some p → p.status = .pending →
      p.proposedAtLedger + Governance.TIMELOCK_LEDGERS ≤ c.env.ledger → ¬objects a p.action :=
    fun hget hpending htime => h.spared (t := (a, _)) hwatch hg hget hpending htime
  obtain ⟨j', hj', hkept⟩ : ∃ j', q.1.inst = some j' ∧ j'.guardian = self ∧
      ((∀ new, objects a (.updateStrategist new)) → j'.strategist = j.strategist) := by
    obtain ⟨j', hj', ⟨hguardian, hstrategist⟩ | ⟨id, p, _, hget, hpending, htime, rfl⟩⟩ := heffect.roles hj
    · exact ⟨j', hj', hguardian.trans hself, fun _ => hstrategist⟩
    · exact ⟨_, hj', roles_kept hdepose hself (hspared hget hpending htime)⟩
  refine ⟨h.listed.exec hr, guarded_update h.guarded ⟨j', hj', hkept.1⟩ hupdate, fun b hnew => ?_, ?_⟩
  · rw [← h.strategist b hnew, strategistOf_update hupdate]
    split_ifs with hb
    · subst hb
      rw [hj', strategistOf, hg, Option.bind_some, hj, Option.map_some, Option.map_some, hkept.2 hnew]
    · rfl
  · intro t k p hk hget hobjects
    have hstill : ∀ {p}, Held self i w₀ (run (exec self) w₀ ds) ds t p →
        Held self i w₀ w' (ds ++ [⟨c.env, external, .governance a c.call⟩]) t p := by
      intro p hheld
      refine hheld.concat (fun o ho => ?_) fun o _ hsigns => ?_
      · rw [hlists]
        exact ho
      · cases hsigns.1
    rw [hupdate, Function.update_apply] at hk
    split at hk
    · next ha =>
      obtain rfl := Option.some.inj hk
      obtain ⟨b, id⟩ := t
      obtain rfl : b = a := ha
      rcases heffect.stored hget with hold | hvetoed | ⟨hcall, hreply, hledger, hpending⟩ |
        ⟨_, p', hget', hp', hact, htime⟩
      · exact (h.held (b, id) g p hg hold hobjects).imp_right hstill
      · exact .inl hvetoed
      · refine .inr ⟨hpending, ds, _, [], rfl, ⟨congrArg _ hcall, w', ?_⟩, hledger, by simp⟩
        rw [hr, hreply]
      · exact absurd (hact ▸ hobjects) (hspared hget' hp' htime)
    · exact (h.held t k p hk hget hobjects).imp_right hstill

end Step

theorem Vigil.next (h : Vigil self i objects w₀ (run (exec self) w₀ ds) ds)
    (hdepose : ∀ a new, new ≠ self → objects a (.updateGuardian new))
    (hwatch : Watched self i objects w₀ (ds ++ [e])) :
    Vigil self i objects w₀ (run (exec self) w₀ (ds ++ [e])) (ds ++ [e]) := by
  rw [run_concat]
  cases hr : exec self (run (exec self) w₀ ds) e with
  | error fault =>
    rw [next_error hr]
    exact h.failed hr
  | ok r =>
    rw [next_ok hr]
    have hlisted := h.listed.exec hr
    obtain ⟨env, external, call⟩ := e
    obtain ⟨w', value⟩ := r
    cases exec_effect h.listed.inst hr with
    | confirm owner a id _ _ _ _ _ hadded hgov => exact h.confirm hlisted hadded hgov
    | dispatch owner a id _ _ _ _ g g' hg hveto _ hremoved hgov =>
      exact h.dispatch hlisted hg hveto hremoved hgov
    | governance callee c g q henv hg hexec hgov =>
      dsimp only at henv
      subst henv
      exact h.governed hdepose hwatch hg hexec hr hgov
    | read _ _ hsame hconfirm =>
      dsimp only at hsame
      subst hsame
      refine ⟨hlisted, h.guarded, h.strategist, fun t g p hg hget hobjects => ?_⟩
      refine (h.held t g p hg hget hobjects).imp_right fun hheld => ?_
      exact hheld.concat (fun o ho => ho) fun o _ hsigns => absurd hsigns.1 (hconfirm o t.1 t.2)

theorem Vigil.run (h : Vigil self i objects w w [])
    (hdepose : ∀ a new, new ≠ self → objects a (.updateGuardian new)) (hwatch : Watched self i objects w cs) :
    Vigil self i objects w (run (exec self) w cs) cs := by
  induction cs using List.reverseRecOn with
  | nil => exact h
  | append_singleton cs c ih => exact (ih hwatch.front).next hdepose hwatch

/-- Owners that watch, from any state in which the multisig is the guardian and what they object to is vetoed: in every
run in which enough of them confirm each objection within the timelock, whoever the strategists are and whatever else
is called, the multisig stays the guardian of every governance contract, nothing they object to is ever executed, and
where they object to every new strategist the strategist stays. -/
theorem run_watched {owners : List Address} {threshold : ℕ}
    (hinit : GuardianMultisig.initialise .empty owners threshold = .ok w₀.multisig) (before : List Invocation)
    (hguarded : Guarded self (run (exec self) w₀ before))
    (hclear : ∀ a g id p, (run (exec self) w₀ before).governances a = some g → g.proposals.get id = some p →
      objects a p.action → p.status = .vetoed)
    (hdepose : ∀ a new, new ≠ self → objects a (.updateGuardian new))
    (hwatch : Watched self ⟨owners, threshold⟩ objects (run (exec self) w₀ before) cs) :
    let w := run (exec self) (run (exec self) w₀ before) cs
    Guarded self w ∧
      (∀ a g id p, w.governances a = some g → g.proposals.get id = some p → objects a p.action →
        p.status ≠ .executed) ∧
      ∀ a, (∀ new, objects a (.updateStrategist new)) →
        strategistOf w a = strategistOf (run (exec self) w₀ before) a := by
  have hlisted : Listed ⟨owners, threshold⟩ (run (exec self) w₀ before) :=
    run_invariant (fun _ _ _ hl hr => hl.exec hr) (listed_of_initialise hinit) before
  have hstart : Vigil self ⟨owners, threshold⟩ objects (run (exec self) w₀ before)
      (run (exec self) w₀ before) [] :=
    ⟨hlisted, hguarded, fun _ _ => rfl, fun t g p hg hget hobjects => .inl (hclear t.1 g t.2 p hg hget hobjects)⟩
  have hend := hstart.run hdepose hwatch
  refine ⟨hend.guarded, fun a g id p hg hget hobjects => ?_, hend.strategist⟩
  rcases hend.held (a, id) g p hg hget hobjects with hvetoed | hheld
  · rw [hvetoed]
    decide
  · rw [hheld.pending]
    decide

/-- The owners of `council` object to every guardian but the multisig. -/
def deposes : Governance.ProposalAction → Prop
  | .updateGuardian new => new ≠ .contract 7
  | _ => False

/-- The strategist of `council` tries to depose it, two owners object, and the proposal comes due. -/
def coup : List Invocation :=
  [⟨⟨[9], none, 5⟩, fun _ => .ok (), .governance (.contract 8) (.propose (.updateGuardian (.account 9)))⟩,
   ⟨⟨[1], none, 6⟩, fun _ => .ok (), .confirmVeto (.account 1) (.contract 8) 0⟩,
   ⟨⟨[3], none, 51_000⟩, fun _ => .ok (), .confirmVeto (.account 3) (.contract 8) 0⟩,
   ⟨⟨[9], none, 60_000⟩, fun _ => .ok (), .governance (.contract 8) (.execute 0)⟩]

theorem coup_watched :
    Watched (.contract 7) ⟨[.account 1, .account 2, .account 3], 2⟩ (fun _ => deposes) council coup := by
  rintro ds c es e fs ⟨a, id⟩ action hcoup hproposes _ htime
  cases ds with
  | nil =>
    obtain ⟨rfl, hrest⟩ := List.cons.inj hcoup
    obtain ⟨rfl, _⟩ := Call.governance.inj hproposes.call
    obtain ⟨w', hreply⟩ := hproposes.reply
    cases hreply
    rcases es with _ | ⟨x, _ | ⟨y, es⟩⟩
    · obtain ⟨rfl, _⟩ := List.cons.inj hrest
      exact absurd htime (by decide)
    · simp only [List.cons_append, List.nil_append, List.cons.injEq] at hrest
      obtain ⟨_, rfl, _⟩ := hrest
      exact absurd htime (by decide)
    · simp only [List.cons_append, List.cons.injEq] at hrest
      obtain ⟨rfl, rfl, _⟩ := hrest
      refine ⟨[.account 1, .account 3], by decide, by decide, ?_⟩
      simp [Signs, Env.Authorized]
  | cons d ds =>
    obtain ⟨_, hrest⟩ := List.cons.inj hcoup
    have hmem : c ∈ coup.tail := by
      rw [show coup.tail = ds ++ c :: (es ++ e :: fs) from hrest]
      simp
    have hnone : ∀ x ∈ coup.tail, ∀ a action, x.call ≠ .governance a (.propose action) := by simp [coup]
    exact absurd hproposes.call (hnone c hmem _ _)

theorem run_watched_coup : Guarded (.contract 7) (run (exec (.contract 7)) council coup) ∧
    ∀ p, (run (exec (.contract 7)) council coup).governances (.contract 8) = some p → ∀ q,
      p.proposals.get 0 = some q → deposes q.action → q.status ≠ .executed := by
  have hinit : GuardianMultisig.initialise .empty [.account 1, .account 2, .account 3] 2 = .ok council.multisig := rfl
  have hclear : ∀ a g id p, council.governances a = some g → g.proposals.get id = some p → deposes p.action →
      p.status = .vetoed := by
    intro a g id p hg hget
    simp only [council, Function.update_apply] at hg
    split at hg
    · cases hg
      cases hget
    · cases hg
  have hdepose : ∀ (a new : Address), new ≠ .contract 7 → deposes (.updateGuardian new) := fun _ _ hne => hne
  obtain ⟨hguarded, hnever, _⟩ := run_watched hinit [] council_guarded hclear hdepose coup_watched
  exact ⟨hguarded, fun p hp q hq => hnever (.contract 8) p 0 q hp hq⟩

end YieldLadder.Council
