import YieldLadder.Governance.Governance

/-! # The timelock and the veto over whole runs

The log of successful calls determines the proposals: a proposal is executed or
vetoed exactly when the log has such a call for it, its action and ledger are
those of the `propose` that returned its id, and the ids count the proposals. What
a call does in a state reached then follows from its effect.
-/
namespace YieldLadder.Governance
open Foundation

abbrev Entry := Invocation × Reply

def clock (c : Invocation) : ℕ := c.env.ledger

def Call.isPropose : Call → Bool
  | .propose _ => true
  | _ => false

def proposeCount (l : List Entry) : ℕ := l.countP fun e => e.1.call.isPropose

def Called (l : List Entry) (call : Call) : Prop := ∃ e ∈ l, e.1.call = call

/-- The log has the call that made proposal `p`, which returned the id. -/
def ProposedAs (l : List Entry) (id : ℕ) (p : Proposal) : Prop :=
  ∃ e ∈ l, e.1.call = .propose p.action ∧ e.2.value = .u32 id ∧ clock e.1 = p.proposedAtLedger

variable {s s' : State} {i : Instance} {c : Invocation} {r : State × Reply} {l : List Entry}
variable {e : Entry} {call : Call} {id : ℕ} {p : Proposal}

theorem called_concat : Called (l ++ [e]) call ↔ Called l call ∨ e.1.call = call := by
  simp [Called, or_and_right, exists_or]

theorem ProposedAs.concat (h : ProposedAs l id p) : ProposedAs (l ++ [e]) id p := by
  obtain ⟨e', he', h⟩ := h
  exact ⟨e', List.mem_append_left _ he', h⟩

/-- How the state of the contract hangs on the log of a run. -/
structure History (s : State) (l : List Entry) : Prop where
  nextId : ∃ i, s.inst = some i ∧ i.nextId = proposeCount l
  absent : ∀ id, proposeCount l ≤ id → s.proposals.get id = none
  stored : ∀ id p, s.proposals.get id = some p → ProposedAs l id p
  executed : ∀ id, Called l (.execute id) ↔
    ∃ p, s.proposals.get id = some p ∧ p.status = .executed
  vetoed : ∀ id, Called l (.veto id) ↔ ∃ p, s.proposals.get id = some p ∧ p.status = .vetoed

theorem History.read (h : History s l) (hno : e.1.call.isPropose = false)
    (hveto : ∀ id, e.1.call ≠ .veto id) (hexecute : ∀ id, e.1.call ≠ .execute id) :
    History s (l ++ [e]) := by
  have hcount : proposeCount (l ++ [e]) = proposeCount l := by simp [proposeCount, hno]
  refine ⟨?_, ?_, fun id p hp => (h.stored id p hp).concat, ?_, ?_⟩
  · rw [hcount]
    exact h.nextId
  · rw [hcount]
    exact h.absent
  · intro id
    rw [called_concat, ← h.executed]
    exact or_iff_left (hexecute id)
  · intro id
    rw [called_concat, ← h.vetoed]
    exact or_iff_left (hveto id)

theorem History.propose (h : History s l) (hi : s.inst = some i)
    (hcall : e.1.call = .propose p.action) (hval : e.2.value = .u32 i.nextId)
    (hclock : clock e.1 = p.proposedAtLedger) (hpending : p.status = .pending)
    (hinst : s'.inst = some { i with nextId := i.nextId + 1 })
    (hp : s'.proposals = s.proposals.set i.nextId p) : History s' (l ++ [e]) := by
  obtain ⟨j, hj, hnext⟩ := h.nextId
  obtain rfl : i = j := Option.some.inj (hi.symm.trans hj)
  have hcount : proposeCount (l ++ [e]) = proposeCount l + 1 := by
    simp [proposeCount, hcall, Call.isPropose]
  have hnone : s.proposals.get i.nextId = none := h.absent _ hnext.ge
  -- the new proposal is pending where there was none, so no status of interest is new
  have hstatus : ∀ id status, status ≠ .pending →
      ((∃ p, s'.proposals.get id = some p ∧ p.status = status) ↔
        ∃ p, s.proposals.get id = some p ∧ p.status = status) := by
    intro id status hne
    rw [hp]
    by_cases hid : id = i.nextId
    · subst hid
      simp [hnone, hpending, Ne.symm hne]
    · rw [Store.get_set_of_ne _ hid]
  refine ⟨⟨_, hinst, by rw [hcount, ← hnext]⟩, ?_, ?_, ?_, ?_⟩
  · intro id hid
    rw [hcount] at hid
    rw [hp, Store.get_set_of_ne _ (by omega)]
    exact h.absent id (by omega)
  · intro id q hq
    rw [hp, Store.get_set] at hq
    split at hq
    · next hid =>
      cases hq
      exact ⟨e, by simp, hcall, hid ▸ hval, hclock⟩
    · exact (h.stored id q hq).concat
  · intro id
    rw [called_concat, hstatus id _ (by decide), ← h.executed]
    exact or_iff_left (by simp [hcall])
  · intro id
    rw [called_concat, hstatus id _ (by decide), ← h.vetoed]
    exact or_iff_left (by simp [hcall])

/-- Closing a pending proposal: `status` is what `call` makes of it. -/
theorem History.close (h : History s l) {status : ProposalStatus}
    (hcall : e.1.call = .execute id ∧ status = .executed ∨ e.1.call = .veto id ∧ status = .vetoed)
    (hget : s.proposals.get id = some p) (hpending : p.status = .pending)
    (hinst : ∃ i, s'.inst = some i ∧ i.nextId = proposeCount l)
    (hp : s'.proposals = s.proposals.set id { p with status := status }) : History s' (l ++ [e]) := by
  have hcount : proposeCount (l ++ [e]) = proposeCount l := by
    rcases hcall with ⟨hcall, _⟩ | ⟨hcall, _⟩ <;> simp [proposeCount, hcall, Call.isPropose]
  have hstatus : ∀ j st, st ≠ .pending →
      ((∃ q, s'.proposals.get j = some q ∧ q.status = st) ↔
        (∃ q, s.proposals.get j = some q ∧ q.status = st) ∨ j = id ∧ status = st) := by
    intro j st hne
    rw [hp]
    by_cases hj : j = id
    · subst hj
      simp [hget, hpending, Ne.symm hne]
    · rw [Store.get_set_of_ne _ hj]
      simp [hj]
  refine ⟨?_, ?_, ?_, ?_, ?_⟩
  · rw [hcount]
    exact hinst
  · intro j hj
    rw [hcount] at hj
    have hnone := h.absent j hj
    have hne : j ≠ id := by
      rintro rfl
      rw [hget] at hnone
      cases hnone
    rw [hp, Store.get_set_of_ne _ hne]
    exact hnone
  · intro j q hq
    rw [hp, Store.get_set] at hq
    split at hq
    · next hj =>
      cases hq
      exact hj ▸ (h.stored id p hget).concat
    · exact (h.stored j q hq).concat
  · intro j
    rw [called_concat, hstatus j _ (by decide), ← h.executed]
    refine or_congr_right ?_
    rcases hcall with ⟨hcall, rfl⟩ | ⟨hcall, rfl⟩ <;> simp [hcall, eq_comm]
  · intro j
    rw [called_concat, hstatus j _ (by decide), ← h.vetoed]
    refine or_congr_right ?_
    rcases hcall with ⟨hcall, rfl⟩ | ⟨hcall, rfl⟩ <;> simp [hcall, eq_comm]

theorem roles_nextId (action : ProposalAction) (i : Instance) :
    (action.roles i).nextId = i.nextId := by
  cases action <;> rfl

theorem History.step (h : History s l) (hc : exec s c = .ok r) : History r.1 (l ++ [(c, r.2)]) := by
  obtain ⟨i, hi, hnext⟩ := h.nextId
  obtain ⟨env, external, call⟩ := c
  obtain ⟨s', reply⟩ := r
  cases exec_effect hi hc with
  | propose action _ hinst hp =>
    exact h.propose (p := ⟨i.nextId, action, env.ledger, .pending⟩) hi rfl rfl rfl rfl hinst hp
  | veto id p _ hget hpending hinst hp =>
    exact h.close (.inr ⟨rfl, rfl⟩) hget hpending ⟨i, hinst, hnext⟩ hp
  | execute id p hget hpending _ hinst hp =>
    exact h.close (.inl ⟨rfl, rfl⟩) hget hpending ⟨_, hinst, (roles_nextId _ _).trans hnext⟩ hp
  | read _ _ hs _ hpropose hveto hexecute =>
    dsimp only at hs
    subst hs
    refine h.read ?_ hveto hexecute
    cases call with
    | propose action => exact absurd rfl (hpropose action)
    | _ => rfl

theorem History.vetoed_step (h : History s l) (hc : exec s c = .ok r) (id : ℕ) :
    (∃ p, r.1.proposals.get id = some p ∧ p.status = .vetoed) ↔
      (∃ p, s.proposals.get id = some p ∧ p.status = .vetoed) ∨ c.call = .veto id := by
  rw [← (h.step hc).vetoed, called_concat, h.vetoed]

def Initialised (s : State) : Prop :=
  ∃ strategist guardian strategyVault, initialise .empty strategist guardian strategyVault = .ok s

theorem Initialised.history (h : Initialised s) : History s [] := by
  obtain ⟨strategist, guardian, strategyVault, h⟩ := h
  simp only [initialise, bind_eq_ok, pure_eq_ok] at h
  obtain ⟨_, _, rfl⟩ := h
  refine ⟨⟨_, rfl, rfl⟩, fun _ _ => rfl, ?_, ?_, ?_⟩
  · intro _ _ hp
    cases hp
  · intro id
    simp [Called, State.empty]
  · intro id
    simp [Called, State.empty]

theorem run_history (h : Initialised s) (cs : List Invocation) :
    History (run exec s cs) (log exec s cs) :=
  run_log_invariant (I := History) h.history (fun _ _ _ _ hl hc => hl.step hc) cs

/-- What holds of a successful call `c` made in `s` after the calls of `l`. -/
structure Lawful (s : State) (l : List Entry) (c : Invocation) (r : State × Reply) : Prop where
  /-- An execution closes a pending proposal a timelock after the call that made it, does exactly
  the action that call stored, and comes after no other closing of it. -/
  execute : ∀ id, c.call = .execute id → ∃ i p, s.inst = some i ∧ s.proposals.get id = some p ∧
    p.status = .pending ∧ ProposedAs l id p ∧ p.proposedAtLedger + TIMELOCK_LEDGERS ≤ clock c ∧
    ¬Called l (.execute id) ∧ ¬Called l (.veto id) ∧
    r.1.inst = some (p.action.roles i) ∧ r.2.sent = p.action.messages i
  /-- A veto closes a pending proposal with the authorization of the guardian stored then. -/
  veto : ∀ id, c.call = .veto id → ∃ i p, s.inst = some i ∧ c.env.Authorized i.guardian ∧
    s.proposals.get id = some p ∧ p.status = .pending ∧
    ¬Called l (.execute id) ∧ ¬Called l (.veto id)
  /-- Only an execution sends messages or changes a role. -/
  other : (∀ id, c.call ≠ .execute id) → r.2.sent = [] ∧ ∃ i n, s.inst = some i ∧
    r.1.inst = some { i with nextId := n }
  /-- The next id is the number of proposals so far, and it is free. -/
  propose : ∀ action, c.call = .propose action →
    r.2.value = .u32 (proposeCount l) ∧ s.proposals.get (proposeCount l) = none
  /-- A closed proposal stays as it is. -/
  closed : ∀ id p, s.proposals.get id = some p → p.status ≠ .pending → r.1.proposals.get id = some p

theorem not_called (h : History s l) (hget : s.proposals.get id = some p)
    (hpending : p.status = .pending) : ¬Called l (.execute id) ∧ ¬Called l (.veto id) := by
  constructor
  · rw [h.executed, hget]
    rintro ⟨_, hq, hstatus⟩
    cases hq
    simp [hpending] at hstatus
  · rw [h.vetoed, hget]
    rintro ⟨_, hq, hstatus⟩
    cases hq
    simp [hpending] at hstatus

theorem exec_closed (hi : s.inst = some i) (hc : exec s c = .ok r) (hget : s.proposals.get id = some p)
    (hclosed : p.status ≠ .pending) (hfresh : s.proposals.get i.nextId = none) :
    r.1.proposals.get id = some p := by
  have hkeep : ∀ {j q}, r.1.proposals = s.proposals.set j q → s.proposals.get j ≠ some p →
      r.1.proposals.get id = some p := by
    intro j q hp hj
    have hne : id ≠ j := by
      rintro rfl
      exact hj hget
    rw [hp, Store.get_set_of_ne _ hne, hget]
  obtain ⟨env, external, call⟩ := c
  obtain ⟨s', reply⟩ := r
  cases exec_effect hi hc with
  | propose _ _ _ hp => exact hkeep hp (by simp [hfresh])
  | veto _ q _ hq hpending _ hp => exact hkeep hp (by rw [hq]; rintro ⟨⟩; exact hclosed hpending)
  | execute _ q hq hpending _ _ hp => exact hkeep hp (by rw [hq]; rintro ⟨⟩; exact hclosed hpending)
  | read _ _ hs => rw [hs, hget]

theorem History.lawful (h : History s l) (hc : exec s c = .ok r) : Lawful s l c r := by
  obtain ⟨i, hi, hnext⟩ := h.nextId
  have hfresh : s.proposals.get i.nextId = none := h.absent _ hnext.ge
  have hclosed : ∀ id p, s.proposals.get id = some p → p.status ≠ .pending →
      r.1.proposals.get id = some p :=
    fun id p hget hstatus => exec_closed hi hc hget hstatus hfresh
  obtain ⟨env, external, call⟩ := c
  obtain ⟨s', reply⟩ := r
  cases exec_effect hi hc with
  | propose action _ hinst hp =>
    refine ⟨by simp, by simp, fun _ => ⟨rfl, i, _, hi, hinst⟩, fun a ha => ?_, hclosed⟩
    rw [← hnext]
    exact ⟨rfl, hfresh⟩
  | veto id p hauth hget hpending hinst hp =>
    obtain ⟨hne, hnv⟩ := not_called h hget hpending
    refine ⟨by simp, fun j hj => ?_, fun _ => ⟨rfl, i, i.nextId, hi, hinst⟩, by simp, hclosed⟩
    cases hj
    exact ⟨i, p, hi, hauth, hget, hpending, hne, hnv⟩
  | execute id p hget hpending htime hinst hp =>
    obtain ⟨hne, hnv⟩ := not_called h hget hpending
    refine ⟨fun j hj => ?_, by simp, fun hno => absurd rfl (hno id), by simp, hclosed⟩
    cases hj
    have hpos : 0 < TIMELOCK_LEDGERS := by decide
    have htime' : p.proposedAtLedger + TIMELOCK_LEDGERS ≤ env.ledger := by
      dsimp only at htime
      omega
    exact ⟨i, p, hi, hget, hpending, h.stored id p hget, htime', hne, hnv, hinst, rfl⟩
  | read _ _ hs hsent hpropose hveto hexecute =>
    exact ⟨fun id hid => absurd hid (hexecute id), fun id hid => absurd hid (hveto id),
      fun _ => ⟨hsent, i, i.nextId, hi, by rw [hs, hi]⟩, fun a ha => absurd ha (hpropose a), hclosed⟩

/-- The timelock and the veto in every run after `initialise`: each successful call is lawful, the
proposals that are executed or vetoed are those with such a call in the log, closed proposals stay
closed in every continuation, and a call that faults leaves the whole state. -/
theorem run_lawful (h : Initialised s) (cs : List Invocation) :
    (∀ c r, exec (run exec s cs) c = .ok r → Lawful (run exec s cs) (log exec s cs) c r) ∧
    (∀ id, (Called (log exec s cs) (.execute id) ↔
        ∃ p, (run exec s cs).proposals.get id = some p ∧ p.status = .executed) ∧
      (Called (log exec s cs) (.veto id) ↔
        ∃ p, (run exec s cs).proposals.get id = some p ∧ p.status = .vetoed)) ∧
    (∀ ds id p, (run exec s cs).proposals.get id = some p → p.status ≠ .pending →
      (run exec s (cs ++ ds)).proposals.get id = some p) ∧
    ∀ c e, exec (run exec s cs) c = .error e → next exec (run exec s cs) c = run exec s cs := by
  have hrun := run_history h
  refine ⟨fun c r hc => (hrun cs).lawful hc, fun id => ⟨(hrun cs).executed id, (hrun cs).vetoed id⟩,
    fun ds id p hget hclosed => ?_, fun c e hc => next_error hc⟩
  induction ds using List.reverseRecOn with
  | nil => rwa [List.append_nil]
  | append_singleton ds c ih =>
    rw [← List.append_assoc, run_concat]
    exact next_induction (I := fun s => s.proposals.get id = some p) ih fun r hc =>
      ((hrun (cs ++ ds)).lawful hc).closed id p ih hclosed

def governed : State := ⟨some ⟨.account 1, .account 2, .contract 9, 0⟩, .empty⟩

def rotateGuardian : List Invocation :=
  [⟨⟨[1], none, 5⟩, fun _ => .ok (), .propose (.updateGuardian (.account 3))⟩,
   ⟨⟨[2], none, 6⟩, fun _ => .ok (), .veto 0⟩]

theorem run_lawful_rotateGuardian :
    (∀ c r, exec (run exec governed rotateGuardian) c = .ok r →
      Lawful (run exec governed rotateGuardian) (log exec governed rotateGuardian) c r) ∧
    (∀ id, (Called (log exec governed rotateGuardian) (.execute id) ↔
        ∃ p, (run exec governed rotateGuardian).proposals.get id = some p ∧ p.status = .executed) ∧
      (Called (log exec governed rotateGuardian) (.veto id) ↔
        ∃ p, (run exec governed rotateGuardian).proposals.get id = some p ∧ p.status = .vetoed)) ∧
    (∀ ds id p, (run exec governed rotateGuardian).proposals.get id = some p → p.status ≠ .pending →
      (run exec governed (rotateGuardian ++ ds)).proposals.get id = some p) ∧
    ∀ c e, exec (run exec governed rotateGuardian) c = .error e →
      next exec (run exec governed rotateGuardian) c = run exec governed rotateGuardian :=
  run_lawful ⟨.account 1, .account 2, .contract 9, rfl⟩ rotateGuardian

end YieldLadder.Governance
