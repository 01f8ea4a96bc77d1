import YieldLadder.Governance.Multisig

/-! # The quorum for a veto over whole runs

The log of successful calls determines the confirmation lists: the list of a target
holds the owners that confirmed it since its last dispatch. While the multisig is
the guardian of every governance contract, the vetoed proposals are the targets of
the dispatches in the log, and each is dispatched once.
-/
namespace YieldLadder.Council
open Foundation GuardianMultisig

abbrev Entry := Invocation × Value

/-- The target of a confirmation that sent the veto. -/
def dispatchOf (e : Entry) : Option Target :=
  match e.1.call, e.2 with
  | .confirmVeto _ governanceContract proposalId, .dispatched true => some (governanceContract, proposalId)
  | _, _ => none

def dispatches (l : List Entry) : List Target := l.filterMap dispatchOf

def Confirms (target : Target) (owner : Address) (e : Entry) : Prop :=
  e.1.call = .confirmVeto owner target.1 target.2 ∧ e.1.env.Authorized owner

/-- The owner confirmed the target, and no veto of it was sent then or later. -/
def ConfirmedSince (target : Target) (l : List Entry) (owner : Address) : Prop :=
  ∃ l₁ e l₂, l = l₁ ++ e :: l₂ ∧ Confirms target owner e ∧ target ∉ dispatches (e :: l₂)

def status (w : Council) (target : Target) : Option Governance.ProposalStatus :=
  (w.governances target.1).bind fun g => (g.proposals.get target.2).map (·.status)

def Guarded (self : Address) (w : Council) : Prop :=
  ∀ a g, w.governances a = some g → ∃ i, g.inst = some i ∧ i.guardian = self

/-- A call from outside: the multisig makes no call but the veto it sends. -/
def Outside (n : ℕ) (w : Council) (c : Invocation) : Prop :=
  c.env.caller ≠ some (.contract n) ∧ Guarded (.contract n) w

/-- What a successful call does once the multisig has its owners. -/
inductive Effect (self : Address) (env : Env) (i : Instance) (w w' : Council) : Call → Value → Prop
  | confirm (owner a : Address) (id : ℕ) (hauth : env.Authorized owner) (howner : owner ∈ i.owners)
      (hnew : owner ∉ w.multisig.confirmations.getD (a, id) [])
      (hlt : (w.multisig.confirmations.getD (a, id) []).length + 1 < i.threshold)
      (hinst : w'.multisig.inst = some i)
      (hadded : ∀ t, w'.multisig.confirmations.getD t [] =
        if t = (a, id) then w.multisig.confirmations.getD t [] ++ [owner]
        else w.multisig.confirmations.getD t [])
      (hw : w'.governances = w.governances) :
      Effect self env i w w' (.confirmVeto owner a id) (.dispatched false)
  | dispatch (owner a : Address) (id : ℕ) (hauth : env.Authorized owner) (howner : owner ∈ i.owners)
      (hnew : owner ∉ w.multisig.confirmations.getD (a, id) [])
      (hge : i.threshold ≤ (w.multisig.confirmations.getD (a, id) []).length + 1)
      (g g' : Governance.State) (hg : w.governances a = some g)
      (hveto : Governance.veto (env.calledBy self) g id = .ok g')
      (hinst : w'.multisig.inst = some i)
      (hremoved : ∀ t, w'.multisig.confirmations.getD t [] =
        if t = (a, id) then [] else w.multisig.confirmations.getD t [])
      (hw : w'.governances = Function.update w.governances a (some g')) :
      Effect self env i w w' (.confirmVeto owner a id) (.dispatched true)
  | governance (callee : Address) (c : Governance.Invocation) (g : Governance.State)
      (r : Governance.State × Governance.Reply) (henv : c.env = env)
      (hg : w.governances callee = some g) (hexec : Governance.exec g c = .ok r)
      (hw : w' = { w with governances := Function.update w.governances callee (some r.1) }) :
      Effect self env i w w' (.governance callee c.call) (.governance r.2)
  | read (call : Call) (value : Value) (hw : w' = w)
      (hconfirm : ∀ owner a id, call ≠ .confirmVeto owner a id) : Effect self env i w w' call value

variable {n threshold : ℕ} {self : Address} {owners : List Address} {w₀ w w' : Council} {c : Invocation}
variable {r : Council × Value} {l : List Entry} {e : Entry} {i : Instance} {t : Target} {o : Address}

theorem status_eq_some {st : Governance.ProposalStatus} : status w t = some st ↔
    ∃ g, w.governances t.1 = some g ∧ ∃ p, g.proposals.get t.2 = some p ∧ p.status = st := by
  simp [status, Option.bind_eq_some_iff, Option.map_eq_some_iff]

theorem confirmVeto_ok {env : Env} {owner a : Address} {id : ℕ} {q : Council × Bool}
    (hi : w.multisig.inst = some i) (h : confirmVeto self env w owner a id = .ok q) :
    Effect self env i w q.1 (.confirmVeto owner a id) (.dispatched q.2) := by
  simp only [confirmVeto, bind_eq_ok, Env.requireAuth_eq_ok, expect_eq_ok, failIf_eq_ok, hi,
    Option.some.injEq, not_not] at h
  obtain ⟨_, hauth, _, rfl, _, howner, _, hnew, h⟩ := h
  split at h
  · next hge =>
    simp only [sendVeto, bind_eq_ok, expect_eq_ok, pure_eq_ok] at h
    obtain ⟨_, ⟨g, hg, g', hveto, rfl⟩, rfl⟩ := h
    refine .dispatch owner a id hauth howner hnew (by simpa using hge) g g' hg hveto rfl
      (fun t => ?_) rfl
    by_cases ht : t = (a, id)
    · simp [ht]
    · simp [ht]
  · next hlt =>
    obtain rfl := pure_eq_ok.mp h
    refine .confirm owner a id hauth howner hnew (by simpa using hlt) rfl (fun t => ?_) rfl
    by_cases ht : t = (a, id)
    · simp [ht]
    · simp [ht]

theorem exec_effect (hi : w.multisig.inst = some i) (h : exec self w c = .ok r) :
    Effect self c.env i w r.1 c.call r.2 := by
  obtain ⟨env, external, call⟩ := c
  cases call with
  | initialise owners threshold =>
    simp only [exec, GuardianMultisig.initialise, bind_eq_ok, failIf_eq_ok, hi] at h
    obtain ⟨_, ⟨_, hno, _⟩, _⟩ := h
    simp at hno
  | confirmVeto owner a id =>
    simp only [exec, bind_eq_ok, pure_eq_ok] at h
    obtain ⟨q, hq, rfl⟩ := h
    exact confirmVeto_ok hi hq
  | confirmationCount a id =>
    obtain rfl := pure_eq_ok.mp h
    exact .read _ _ rfl (by simp)
  | owners =>
    simp only [exec, bind_eq_ok, pure_eq_ok] at h
    obtain ⟨_, _, rfl⟩ := h
    exact .read _ _ rfl (by simp)
  | threshold =>
    simp only [exec, bind_eq_ok, pure_eq_ok] at h
    obtain ⟨_, _, rfl⟩ := h
    exact .read _ _ rfl (by simp)
  | governance callee call =>
    simp only [exec, bind_eq_ok, expect_eq_ok, pure_eq_ok] at h
    obtain ⟨g, hg, q, hq, rfl⟩ := h
    exact .governance callee ⟨env, external, call⟩ g q rfl hg hq rfl

theorem mem_dispatches_cons : t ∈ dispatches (e :: l) ↔ dispatchOf e = some t ∨ t ∈ dispatches l := by
  simp [dispatches]

theorem mem_dispatches_concat :
    t ∈ dispatches (l ++ [e]) ↔ t ∈ dispatches l ∨ dispatchOf e = some t := by
  simp [dispatches]

theorem confirmedSince_concat : ConfirmedSince t (l ++ [e]) o ↔
    dispatchOf e ≠ some t ∧ (ConfirmedSince t l o ∨ Confirms t o e) := by
  constructor
  · rintro ⟨l₁, e', l₂, hl, hconfirms, hno⟩
    rcases List.eq_nil_or_concat' l₂ with rfl | ⟨l₃, e₃, rfl⟩
    · obtain ⟨_, he⟩ := List.append_inj' hl rfl
      cases he
      exact ⟨fun hd => hno (mem_dispatches_cons.mpr (.inl hd)), .inr hconfirms⟩
    · rw [← List.cons_append, ← List.append_assoc] at hl
      obtain ⟨rfl, he⟩ := List.append_inj' hl rfl
      cases he
      rw [← List.cons_append, mem_dispatches_concat, not_or] at hno
      exact ⟨hno.2, .inl ⟨l₁, e', l₃, rfl, hconfirms, hno.1⟩⟩
  · rintro ⟨hd, ⟨l₁, e', l₂, rfl, hconfirms, hno⟩ | hconfirms⟩
    · refine ⟨l₁, e', l₂ ++ [e], by simp, hconfirms, ?_⟩
      rw [← List.cons_append, mem_dispatches_concat, not_or]
      exact ⟨hno, hd⟩
    · exact ⟨l, e, [], rfl, hconfirms, by simpa [mem_dispatches_cons, dispatches] using hd⟩

/-- How the lists and the proposals hang on the log of a run from `w₀`. -/
structure Quorum (owners : List Address) (threshold : ℕ) (w₀ w : Council) (l : List Entry) : Prop where
  inst : w.multisig.inst = some ⟨owners, threshold⟩
  history : ∀ a g, w.governances a = some g → ∃ l, Governance.History g l
  nodup : ∀ t, (w.multisig.confirmations.getD t []).Nodup
  registered : ∀ t, ∀ o ∈ w.multisig.confirmations.getD t [], o ∈ owners
  short : ∀ t, (w.multisig.confirmations.getD t []).length < threshold
  confirmed : ∀ t o, o ∈ w.multisig.confirmations.getD t [] ↔ ConfirmedSince t l o
  once : (dispatches l).Nodup
  vetoed : ∀ t, status w t = some .vetoed ↔ status w₀ t = some .vetoed ∨ t ∈ dispatches l

/-- A call of a governance contract changes no veto, its own veto apart. -/
theorem status_vetoed_update {a : Address} {g : Governance.State} {m : List Governance.Entry}
    {c : Governance.Invocation} {q : Governance.State × Governance.Reply}
    (h : Governance.History g m) (hg : w.governances a = some g) (hc : Governance.exec g c = .ok q)
    (hw : w'.governances = Function.update w.governances a (some q.1)) :
    status w' t = some .vetoed ↔ status w t = some .vetoed ∨ t.1 = a ∧ c.call = .veto t.2 := by
  rw [status_eq_some, status_eq_some, hw]
  by_cases ht : t.1 = a
  · simp [ht, hg, h.vetoed_step hc]
  · simp [ht]

theorem veto_exec {env : Env} {g g' : Governance.State} {id : ℕ}
    (h : Governance.veto env g id = .ok g') :
    Governance.exec g ⟨env, fun _ => .ok (), .veto id⟩ = .ok (g', ⟨.unit, []⟩) := by
  simp [Governance.exec, h]

theorem history_update {a : Address} {g' : Governance.State}
    (h : ∀ a g, w.governances a = some g → ∃ l, Governance.History g l)
    (hg' : ∃ l, Governance.History g' l)
    (hw : w'.governances = Function.update w.governances a (some g')) :
    ∀ a g, w'.governances a = some g → ∃ l, Governance.History g l := by
  intro b g hb
  rw [hw, Function.update_apply] at hb
  split at hb
  · cases hb
    exact hg'
  · exact h b g hb

/-- A call that is no confirmation and vetoes nothing leaves the quorum as it is. -/
theorem Quorum.other (h : Quorum owners threshold w₀ w l) (hm : w'.multisig = w.multisig)
    (hhistory : ∀ a g, w'.governances a = some g → ∃ l, Governance.History g l)
    (hstatus : ∀ t, status w' t = some .vetoed ↔ status w t = some .vetoed)
    (hno : ∀ owner a id, e.1.call ≠ .confirmVeto owner a id) :
    Quorum owners threshold w₀ w' (l ++ [e]) := by
  have hd : dispatchOf e = none := by
    unfold dispatchOf
    split
    · next heq _ => exact absurd heq (hno _ _ _)
    · rfl
  have honce : (dispatches (l ++ [e])).Nodup := by simpa [dispatches, hd] using h.once
  refine ⟨hm ▸ h.inst, hhistory, hm ▸ h.nodup, hm ▸ h.registered, hm ▸ h.short, ?_, honce, ?_⟩
  · intro t o
    rw [hm, h.confirmed, confirmedSince_concat, hd]
    simp [Confirms, hno]
  · intro t
    rw [mem_dispatches_concat, hd, hstatus, h.vetoed]
    simp

/-- A confirmation below the threshold. -/
theorem Quorum.confirm (h : Quorum owners threshold w₀ w l) {owner a : Address} {id : ℕ}
    (hcall : e.1.call = .confirmVeto owner a id) (hsent : e.2 = .dispatched false)
    (hauth : e.1.env.Authorized owner) (howner : owner ∈ owners)
    (hnew : owner ∉ w.multisig.confirmations.getD (a, id) [])
    (hlt : (w.multisig.confirmations.getD (a, id) []).length + 1 < threshold)
    (hinst : w'.multisig.inst = some ⟨owners, threshold⟩)
    (hadded : ∀ t, w'.multisig.confirmations.getD t [] =
      if t = (a, id) then w.multisig.confirmations.getD t [] ++ [owner]
      else w.multisig.confirmations.getD t [])
    (hw : w'.governances = w.governances) : Quorum owners threshold w₀ w' (l ++ [e]) := by
  have hd : dispatchOf e = none := by simp [dispatchOf, hcall, hsent]
  have hconfirms : ∀ t o, Confirms t o e ↔ t = (a, id) ∧ o = owner := by
    intro t o
    obtain ⟨b, j⟩ := t
    simp only [Confirms, hcall, Call.confirmVeto.injEq, Prod.mk.injEq]
    constructor
    · rintro ⟨⟨rfl, rfl, rfl⟩, _⟩
      exact ⟨⟨rfl, rfl⟩, rfl⟩
    · rintro ⟨⟨rfl, rfl⟩, rfl⟩
      exact ⟨⟨rfl, rfl, rfl⟩, hauth⟩
  have honce : (dispatches (l ++ [e])).Nodup := by simpa [dispatches, hd] using h.once
  refine ⟨hinst, hw ▸ h.history, ?_, ?_, ?_, ?_, honce, ?_⟩
  · intro t
    rw [hadded]
    split
    · next ht =>
      subst ht
      exact List.concat_eq_append ▸ (h.nodup _).concat hnew
    · exact h.nodup t
  · intro t
    rw [hadded]
    split
    · intro o ho
      rcases List.mem_append.mp ho with ho | ho
      · exact h.registered t o ho
      · exact List.mem_singleton.mp ho ▸ howner
    · exact h.registered t
  · intro t
    rw [hadded]
    split
    · next ht =>
      subst ht
      simpa using hlt
    · exact h.short t
  · intro t o
    rw [hadded, confirmedSince_concat, hd, hconfirms, ← h.confirmed]
    split
    · next ht => simp [ht]
    · next ht => simp [ht]
  · intro t
    have hsame : status w' t = status w t := by simp [status, hw]
    rw [mem_dispatches_concat, hd, hsame, h.vetoed]
    simp

/-- The confirmation that reaches the threshold and sends the veto. -/
theorem Quorum.dispatch (h : Quorum owners threshold w₀ w l) {owner a : Address} {id : ℕ} {env : Env}
    {g g' : Governance.State} (hcall : e.1.call = .confirmVeto owner a id)
    (hsent : e.2 = .dispatched true) (hg : w.governances a = some g)
    (hveto : Governance.veto env g id = .ok g')
    (hinst : w'.multisig.inst = some ⟨owners, threshold⟩)
    (hremoved : ∀ t, w'.multisig.confirmations.getD t [] =
      if t = (a, id) then [] else w.multisig.confirmations.getD t [])
    (hw : w'.governances = Function.update w.governances a (some g')) :
    Quorum owners threshold w₀ w' (l ++ [e]) := by
  have hd : dispatchOf e = some (a, id) := by simp [dispatchOf, hcall, hsent]
  obtain ⟨m, hm⟩ := h.history a g hg
  have hexec := veto_exec hveto
  have hpos : 0 < threshold := Nat.lt_of_le_of_lt (Nat.zero_le _) (h.short (a, id))
  -- a proposal that can be vetoed was not vetoed before
  have hfirst : (a, id) ∉ dispatches l := by
    intro hmem
    obtain ⟨g₀, hg₀, hvetoed⟩ := status_eq_some.mp ((h.vetoed _).mpr (.inr hmem))
    obtain rfl : g = g₀ := Option.some.inj (hg.symm.trans hg₀)
    obtain ⟨_, _, _, _, _, _, _, hnot⟩ := (hm.lawful hexec).veto id rfl
    exact hnot ((hm.vetoed id).mpr hvetoed)
  refine ⟨hinst, history_update h.history ⟨_, hm.step hexec⟩ hw, ?_, ?_, ?_, ?_, ?_, ?_⟩
  · intro t
    rw [hremoved]
    split
    · exact List.nodup_nil
    · exact h.nodup t
  · intro t
    rw [hremoved]
    split
    · simp
    · exact h.registered t
  · intro t
    rw [hremoved]
    split
    · exact hpos
    · exact h.short t
  · intro t o
    rw [hremoved, confirmedSince_concat, hd]
    split
    · next ht => simp [ht]
    · next ht =>
      have hother : ¬Confirms t o e := by
        rintro ⟨hc, _⟩
        rw [hcall] at hc
        cases hc
        exact ht rfl
      simp [Ne.symm ht, hother, h.confirmed]
  · have hdispatches : dispatches (l ++ [e]) = dispatches l ++ [(a, id)] := by simp [dispatches, hd]
    rw [hdispatches]
    exact List.concat_eq_append ▸ h.once.concat hfirst
  · intro t
    rw [mem_dispatches_concat, hd, status_vetoed_update hm hg hexec hw, h.vetoed, or_assoc]
    simp [Prod.ext_iff, eq_comm]

theorem Quorum.step (h : Quorum owners threshold w₀ w l) (ho : Outside n w c)
    (hc : exec (.contract n) w c = .ok r) : Quorum owners threshold w₀ r.1 (l ++ [(c, r.2)]) := by
  obtain ⟨env, external, call⟩ := c
  obtain ⟨w', value⟩ := r
  cases exec_effect h.inst hc with
  | confirm owner a id hauth howner hnew hlt hinst hadded hw =>
    exact h.confirm rfl rfl hauth howner hnew hlt hinst hadded hw
  | dispatch owner a id _ _ _ _ g g' hg hveto hinst hremoved hw =>
    exact h.dispatch rfl rfl hg hveto hinst hremoved hw
  | governance callee gc g q henv hg hexec hw =>
    obtain ⟨m, hm⟩ := h.history callee g hg
    obtain ⟨j, hj, hguardian⟩ := ho.2 callee g hg
    -- nobody but the multisig is the guardian, and it does not make this call
    have hnoVeto : ∀ id, gc.call ≠ .veto id := by
      intro id hid
      obtain ⟨j', _, hj', hauth, _⟩ := (hm.lawful hexec).veto id hid
      obtain rfl : j = j' := Option.some.inj (hj.symm.trans hj')
      rw [hguardian, Env.authorized_contract, henv] at hauth
      exact ho.1 hauth
    dsimp only at hw
    subst hw
    refine h.other rfl (history_update h.history ⟨_, hm.step hexec⟩ rfl) (fun t => ?_) (by simp)
    rw [status_vetoed_update hm hg hexec rfl]
    exact or_iff_left fun ht => hnoVeto _ ht.2
  | read _ _ hw hconfirm =>
    dsimp only at hw
    subst hw
    exact h.other rfl h.history (fun _ => Iff.rfl) hconfirm

/-- What made a proposal vetoed: a confirmation after which exactly `threshold` owners confirmed. -/
theorem Quorum.becomes_vetoed (h : Quorum owners threshold w₀ w l) (ho : Outside n w c)
    (hc : exec (.contract n) w c = .ok r) (hnot : status w t ≠ some .vetoed)
    (hv : status r.1 t = some .vetoed) : ∃ owner, c.call = .confirmVeto owner t.1 t.2 ∧
      r.2 = .dispatched true ∧ c.env.Authorized owner ∧
      (w.multisig.confirmations.getD t [] ++ [owner]).Nodup ∧
      (∀ o ∈ w.multisig.confirmations.getD t [] ++ [owner], o ∈ owners) ∧
      (w.multisig.confirmations.getD t [] ++ [owner]).length = threshold := by
  have hstep := h.step ho hc
  obtain ⟨env, external, call⟩ := c
  obtain ⟨w', value⟩ := r
  -- the entry of the call is the only dispatch that the log can have gained
  have hd : dispatchOf (⟨env, external, call⟩, value) = some t := by
    rw [hstep.vetoed, mem_dispatches_concat, ← or_assoc, ← h.vetoed] at hv
    exact hv.resolve_left hnot
  cases exec_effect h.inst hc with
  | confirm => simp [dispatchOf] at hd
  | dispatch owner a id hauth howner hnew hge =>
    obtain rfl : (a, id) = t := by simpa [dispatchOf] using hd
    refine ⟨owner, rfl, rfl, hauth, ?_, fun o ho => ?_, ?_⟩
    · exact List.concat_eq_append ▸ (h.nodup _).concat hnew
    · rcases List.mem_append.mp ho with ho | ho
      · exact h.registered _ o ho
      · exact List.mem_singleton.mp ho ▸ howner
    · have hshort := h.short (a, id)
      dsimp only at hge
      simp only [List.length_append, List.length_singleton]
      omega
  | governance => simp [dispatchOf] at hd
  | read _ _ _ hconfirm =>
    unfold dispatchOf at hd
    split at hd
    · next heq _ => exact absurd heq (hconfirm _ _ _)
    · cases hd

theorem veto_ok_iff {env : Env} {g : Governance.State} {j : Governance.Instance} {id : ℕ}
    (hj : g.inst = some j) (hauth : env.Authorized j.guardian) :
    (∃ g', Governance.veto env g id = .ok g') ↔
      ∃ p, g.proposals.get id = some p ∧ p.status = .pending := by
  simp [Governance.veto, hj, hauth]

theorem sendVeto_ok_iff (env : Env) (hg : Guarded self w) :
    (∃ w', sendVeto (env.calledBy self) w t = .ok w') ↔ status w t = some .pending := by
  rw [status_eq_some]
  constructor
  · rintro ⟨w', h⟩
    simp only [sendVeto, bind_eq_ok, expect_eq_ok] at h
    obtain ⟨g, hgt, g', hveto, _⟩ := h
    obtain ⟨j, hj, rfl⟩ := hg _ g hgt
    exact ⟨g, hgt, (veto_ok_iff hj (env.authorized_calledBy _)).mp ⟨g', hveto⟩⟩
  · rintro ⟨g, hgt, hpending⟩
    obtain ⟨j, hj, rfl⟩ := hg _ g hgt
    obtain ⟨g', hveto⟩ := (veto_ok_iff hj (env.authorized_calledBy _)).mpr hpending
    exact ⟨_, by simp [sendVeto, hgt, hveto]; rfl⟩

/-- A confirmation succeeds exactly for an owner not in the list yet, and when it is the last one
needed, for a pending proposal. -/
theorem Quorum.confirmVeto_ok_iff (h : Quorum owners threshold w₀ w l) (hg : Guarded self w) {env : Env}
    {external : Governance.Message → Except Fault Unit} {owner a : Address} {id : ℕ} :
    (∃ r, exec self w ⟨env, external, .confirmVeto owner a id⟩ = .ok r) ↔
      env.Authorized owner ∧ owner ∈ owners ∧ owner ∉ w.multisig.confirmations.getD (a, id) [] ∧
      ((w.multisig.confirmations.getD (a, id) []).length + 1 = threshold →
        status w (a, id) = some .pending) := by
  constructor
  · rintro ⟨⟨w', value⟩, hc⟩
    cases exec_effect h.inst hc with
    | confirm _ _ _ hauth howner hnew hlt =>
      exact ⟨hauth, howner, hnew, fun heq => absurd heq (Nat.ne_of_lt hlt)⟩
    | dispatch _ _ _ hauth howner hnew _ g g' hgt hveto =>
      have hsend : ∃ w', sendVeto (env.calledBy self) w (a, id) = .ok w' :=
        ⟨_, by simp only [sendVeto, bind_eq_ok, expect_eq_ok]; exact ⟨g, hgt, g', hveto, rfl⟩⟩
      exact ⟨hauth, howner, hnew, fun _ => (sendVeto_ok_iff env hg).mp hsend⟩
    | read _ _ _ hconfirm => exact absurd rfl (hconfirm owner a id)
  · rintro ⟨hauth, howner, hnew, hlast⟩
    have hshort := h.short (a, id)
    by_cases hlt : (w.multisig.confirmations.getD (a, id) []).length + 1 < threshold
    · simp [exec, confirmVeto, Env.requireAuth, failIf, hauth, h.inst, howner, hnew,
        Nat.not_le.mpr hlt]
    · have hstored : Guarded self ⟨⟨some ⟨owners, threshold⟩, w.multisig.confirmations.set (a, id)
          (w.multisig.confirmations.getD (a, id) [] ++ [owner])⟩, w.governances⟩ := hg
      obtain ⟨w', hsend⟩ := (sendVeto_ok_iff env hstored).mpr (hlast (by omega))
      simp [exec, confirmVeto, Env.requireAuth, failIf, hauth, h.inst, howner, hnew,
        Nat.not_lt.mp hlt, hsend]

/-- The multisig right after its `initialise`, in front of governance contracts in any state that
their own runs reach. -/
structure Convened (owners : List Address) (threshold : ℕ) (w : Council) : Prop where
  multisig : GuardianMultisig.initialise .empty owners threshold = .ok w.multisig
  governances : ∀ a g, w.governances a = some g →
    ∃ s cs, Governance.Initialised s ∧ g = run Governance.exec s cs

theorem Convened.quorum (h : Convened owners threshold w) : Quorum owners threshold w w [] := by
  obtain ⟨hm, hg⟩ := h
  simp only [GuardianMultisig.initialise, bind_eq_ok, failIf_eq_ok, pure_eq_ok] at hm
  obtain ⟨_, _, _, _, _, _, _, hthreshold, hm⟩ := hm
  have hempty : ∀ t, w.multisig.confirmations.getD t [] = [] := fun t => by rw [← hm]; rfl
  refine ⟨by rw [← hm], ?_, ?_, ?_, ?_, ?_, List.nodup_nil, ?_⟩
  · intro a g ha
    obtain ⟨s, cs, hs, rfl⟩ := hg a g ha
    exact ⟨_, Governance.run_history hs cs⟩
  · intro t
    simp [hempty]
  · intro t
    simp [hempty]
  · intro t
    rw [hempty]
    exact Nat.pos_of_ne_zero fun h0 => hthreshold (.inl h0)
  · intro t o
    simp [hempty, ConfirmedSince]
  · intro t
    simp [dispatches]

theorem Guarded.exec (hi : w.multisig.inst = some i) (hg : Guarded self w)
    (hno : ∀ callee id, c.call ≠ .governance callee (.execute id)) (hc : exec self w c = .ok r) :
    r.1.multisig.inst = some i ∧ Guarded self r.1 := by
  have hupdate : ∀ {b : Address} {g g' : Governance.State} {gc : Governance.Invocation}
      {reply : Governance.Reply}, w.governances b = some g → (∀ id, gc.call ≠ .execute id) →
      Governance.exec g gc = .ok (g', reply) → ∀ w' : Council,
      w'.governances = Function.update w.governances b (some g') → Guarded self w' := by
    intro b g g' gc reply hb hne hexec w' hw a g₁ ha
    rw [hw, Function.update_apply] at ha
    split at ha
    · obtain ⟨j, hj, hguardian⟩ := hg b g hb
      cases ha
      obtain ⟨env, external, call⟩ := gc
      cases Governance.exec_effect hj hexec with
      | propose _ _ hinst => exact ⟨_, hinst, hguardian⟩
      | veto _ _ _ _ _ hinst => exact ⟨_, hinst, hguardian⟩
      | execute id => exact absurd rfl (hne id)
      | read _ _ hs => exact ⟨j, (congrArg (·.inst) hs).trans hj, hguardian⟩
    · exact hg a g₁ ha
  obtain ⟨env, external, call⟩ := c
  obtain ⟨w', value⟩ := r
  cases exec_effect hi hc with
  | confirm _ _ _ _ _ _ _ hinst _ hw => exact ⟨hinst, fun a g ha => hg a g (hw ▸ ha)⟩
  | dispatch _ _ _ _ _ _ _ g g' hgt hveto hinst _ hw =>
    exact ⟨hinst, hupdate hgt (by simp) (veto_exec hveto) _ hw⟩
  | governance callee gc g q _ hgt hexec hw =>
    dsimp only at hw
    subst hw
    exact ⟨hi, hupdate hgt (fun id hid => hno callee id (by rw [hid])) hexec _ rfl⟩
  | read _ _ hw =>
    dsimp only at hw
    subst hw
    exact ⟨hi, hg⟩

/-- Without executions the multisig stays the guardian. -/
theorem meets_outside (hi : w.multisig.inst = some i) (hg : Guarded (.contract n) w)
    {cs : List Invocation} (hcs : ∀ c ∈ cs, c.env.caller ≠ some (.contract n) ∧
      ∀ callee id, c.call ≠ .governance callee (.execute id)) :
    Meets (exec (.contract n)) (Outside n) w cs :=
  meets_of_invariant (I := fun w => w.multisig.inst = some i ∧ Guarded (.contract n) w)
    (fun _ _ _ hc hI hr => Guarded.exec hI.1 hI.2 hc.2 hr) (fun _ _ hc hI => ⟨hc.1, hI.2⟩) ⟨hi, hg⟩ hcs

theorem run_quorum_of_meets (h : Convened owners threshold w) {cs : List Invocation}
    (hm : Meets (exec (.contract n)) (Outside n) w cs) :
    Quorum owners threshold w (run (exec (.contract n)) w cs) (log (exec (.contract n)) w cs) :=
  run_log_invariant_of_meets (fun _ _ _ _ ho hq hc => hq.step ho hc) h.quorum hm

/-- What the calls made in `w` after the log `l` can do. -/
structure Lawful (n : ℕ) (owners : List Address) (threshold : ℕ) (w : Council) (l : List Entry) :
    Prop where
  /-- A proposal becomes vetoed only by a confirmation after which exactly `threshold` distinct
  owners confirmed it since its list was last cleared. -/
  vetoed : ∀ c r t, Outside n w c → exec (.contract n) w c = .ok r →
    status w t ≠ some .vetoed → status r.1 t = some .vetoed →
    ∃ owner, c.call = .confirmVeto owner t.1 t.2 ∧ r.2 = .dispatched true ∧ c.env.Authorized owner ∧
      ∃ confirmed : List Address, (∀ o, o ∈ confirmed ↔ ConfirmedSince t l o) ∧
        (confirmed ++ [owner]).Nodup ∧ (∀ o ∈ confirmed ++ [owner], o ∈ owners) ∧
        (confirmed ++ [owner]).length = threshold
  /-- A confirmation fails for a stranger, for an owner that confirmed already, and when it is the
  last one needed, for a proposal that is missing or no longer pending. -/
  confirmVeto : Guarded (.contract n) w → ∀ env external owner a id,
    (∃ r, exec (.contract n) w ⟨env, external, .confirmVeto owner a id⟩ = .ok r) ↔
      env.Authorized owner ∧ owner ∈ owners ∧ ¬ConfirmedSince (a, id) l owner ∧
      ((w.multisig.confirmations.getD (a, id) []).length + 1 = threshold →
        status w (a, id) = some .pending)
  failed : ∀ c e, exec (.contract n) w c = .error e → next (exec (.contract n)) w c = w

theorem Quorum.lawful (h : Quorum owners threshold w₀ w l) : Lawful n owners threshold w l := by
  refine ⟨?_, ?_, fun c e hc => next_error hc⟩
  · intro c r t ho hc hnot hv
    obtain ⟨owner, hcall, hsent, hauth, hnodup, howners, hlength⟩ := h.becomes_vetoed ho hc hnot hv
    exact ⟨owner, hcall, hsent, hauth, _, h.confirmed t, hnodup, howners, hlength⟩
  · intro hg env external owner a id
    rw [h.confirmVeto_ok_iff hg, h.confirmed]

/-- The quorum in every run of calls from outside in which the multisig stays the guardian: the lists
are in order and hold the owners that confirmed since the last dispatch, the proposals vetoed in the
run are those dispatched, each once, and the next call is lawful. -/
theorem run_quorum (h : Convened owners threshold w) {cs : List Invocation}
    (hm : Meets (exec (.contract n)) (Outside n) w cs) :
    Quorum owners threshold w (run (exec (.contract n)) w cs) (log (exec (.contract n)) w cs) ∧
    Lawful n owners threshold (run (exec (.contract n)) w cs) (log (exec (.contract n)) w cs) := by
  have hq := run_quorum_of_meets h hm
  exact ⟨hq, hq.lawful⟩

/-- The multisig `contract 7` with two of three owners, guardian of `contract 8`. -/
def council : Council where
  multisig := ⟨some ⟨[.account 1, .account 2, .account 3], 2⟩, .empty⟩
  governances := Function.update (fun _ => none) (.contract 8)
    (some ⟨some ⟨.account 9, .contract 7, .contract 10, 0⟩, .empty⟩)

/-- A proposal, a confirmation made twice, and one by a second owner. -/
def twoConfirm : List Invocation :=
  [⟨⟨[9], none, 5⟩, fun _ => .ok (), .governance (.contract 8) (.propose (.updateGuardian (.account 9)))⟩,
   ⟨⟨[1], none, 6⟩, fun _ => .ok (), .confirmVeto (.account 1) (.contract 8) 0⟩,
   ⟨⟨[1], none, 7⟩, fun _ => .ok (), .confirmVeto (.account 1) (.contract 8) 0⟩,
   ⟨⟨[3], none, 8⟩, fun _ => .ok (), .confirmVeto (.account 3) (.contract 8) 0⟩]

theorem council_convened : Convened [.account 1, .account 2, .account 3] 2 council := by
  refine ⟨rfl, fun a g ha => ⟨g, [], ?_, rfl⟩⟩
  simp only [council, Function.update_apply] at ha
  split at ha
  · cases ha
    exact ⟨.account 9, .contract 7, .contract 10, rfl⟩
  · cases ha

theorem council_guarded : Guarded (.contract 7) council := by
  intro a g ha
  simp only [council, Function.update_apply] at ha
  split at ha
  · cases ha
    exact ⟨_, rfl, rfl⟩
  · cases ha

theorem run_quorum_twoConfirm :
    Quorum [.account 1, .account 2, .account 3] 2 council
      (run (exec (.contract 7)) council twoConfirm) (log (exec (.contract 7)) council twoConfirm) ∧
    Lawful 7 [.account 1, .account 2, .account 3] 2
      (run (exec (.contract 7)) council twoConfirm) (log (exec (.contract 7)) council twoConfirm) :=
  run_quorum council_convened (meets_outside rfl council_guarded (by simp [twoConfirm]))

end YieldLadder.Council
