import YieldLadder.Vault.Accounting

/-! # Lock safety of the locked tiers

`LockUntil` is overwritten by a deposit or a relock of the position, removed with
the position, and otherwise kept. The invariant ties it to the log: while a
position has a balance its lock is at least a lock duration after every deposit
and relock of it made so far, and no lock lies more than a lock duration ahead.
-/
namespace YieldLadder.TierVault
open Foundation

/-- The stored lock of a position, zero where the vault has none. -/
def lockUntil (v : TierVault) (k : Key) : ℕ := (v.core.map (·.lockUntil.getD k 0)).getD 0

def StampsLock (call : VaultCall) (k : Key) : Prop :=
  (∃ amount, call = .deposit k.1 k.2 amount) ∨ call = .relock k.1 k.2

def clock (c : Invocation) : ℕ := c.1.ledger

variable {env : Env} {v : TierVault} {call : VaultCall} {r : TierVault × Reply}
variable {p : TierParams} {s s' : Locked.State} {i : Locked.Instance}
variable {user asset : Address} {amount : ℤ} {reply : Reply}

theorem lockUntil_of_core (h : v.core = some s) (k : Key) : v.lockUntil k = s.lockUntil.getD k 0 := by
  simp [lockUntil, h]

/-- What one operation does to the lock of `k`: set it a duration ahead, keep it, or remove it
with the position. -/
def LockMove (p : TierParams) (env : Env) (call : VaultCall) (k : Key) (s s' : Locked.State) : Prop :=
  (StampsLock call k ∧ s'.lockUntil.getD k 0 = env.ledger + p.lockDuration) ∨
  (¬StampsLock call k ∧ s'.lockUntil.getD k 0 = s.lockUntil.getD k 0 ∧
    (s'.balance.get k ≠ none → s.balance.get k ≠ none)) ∨
  (¬StampsLock call k ∧ s'.lockUntil.getD k 0 = 0 ∧ s'.balance.get k = none)

theorem takeOut_lockMove (hi : s.inst = some i)
    (h : Locked.takeOut i s user asset amount = .ok s') {k : Key} (hc : ¬StampsLock call k) :
    LockMove p env call k s s' := by
  obtain ⟨hb, h0, _, hl, _⟩ := Locked.takeOut_ok hi h
  have hbal : s'.balance = (s.book.takeOut (user, asset) amount).principal :=
    congrArg Book.principal hb
  by_cases hk : k = (user, asset)
  · subst hk
    by_cases hfull : s.balance.getD (user, asset) 0 ≤ amount
    · rw [if_pos hfull] at hl
      refine .inr (.inr ⟨hc, by rw [hl]; simp, ?_⟩)
      rw [hbal, Book.takeOut_of_le hfull]
      exact Store.get_remove_self _ _
    · rw [if_neg hfull] at hl
      refine .inr (.inl ⟨hc, by rw [hl], fun _ hnone => ?_⟩)
      exact h0 (by omega) (Store.getD_of_none hnone 0)
  · refine .inr (.inl ⟨hc, ?_, ?_⟩)
    · rw [hl]
      split <;> simp [hk]
    · have hget : s'.balance.get k = s.balance.get k := by
        rw [hbal, Book.takeOut_principal_of_ne hk]
        rfl
      rw [hget]
      exact id

theorem operate_lockMove {emergency : Address → Bool}
    (h : Locked.operate p emergency env s call = .ok (s', reply)) (k : Key) :
    LockMove p env call k s s' := by
  cases Locked.operate_effect h with
  | deposit user asset amount i hi _ _ _ _ hb hl =>
    have hbal : s'.balance = (s.book.add (user, asset) amount (Locked.mintedShares p amount)).principal :=
      congrArg Book.principal hb
    by_cases hk : k = (user, asset)
    · subst hk
      exact .inl ⟨.inl ⟨amount, rfl⟩, by rw [hl]; simp⟩
    · refine .inr (.inl ⟨?_, by rw [hl]; simp [hk], ?_⟩)
      · rintro (⟨x, hx⟩ | hx)
        · cases hx
          exact hk rfl
        · cases hx
      · rw [hbal]
        simp [Book.add, hk, Locked.State.book]
  | withdraw user asset amount i hi _ _ _ htake =>
    exact takeOut_lockMove hi htake (by simp [StampsLock])
  | earlyExit user asset amount i hi _ _ htake =>
    exact takeOut_lockMove hi htake (by simp [StampsLock])
  | relock user asset i hi _ _ hs =>
    subst hs
    by_cases hk : k = (user, asset)
    · subst hk
      exact .inl ⟨.inr rfl, by simp⟩
    · refine .inr (.inl ⟨?_, by simp [hk], id⟩)
      rintro (⟨x, hx⟩ | hx)
      · cases hx
      · cases hx
        exact hk rfl
  | setMaxTvl newCap i hi _ hs =>
    subst hs
    exact .inr (.inl ⟨by simp [StampsLock], rfl, id⟩)
  | query q value hs =>
    subst hs
    exact .inr (.inl ⟨by simp [StampsLock], rfl, id⟩)

theorem step_lockMove (hp : v.params = some p) (hs : v.core = some s) (h : step env v call = .ok r) :
    ∃ s', r.1.core = some s' ∧ r.1.params = some p ∧ ∀ k, LockMove p env call k s s' := by
  obtain ⟨s', hs', hp', ⟨hop, _⟩ | ⟨_, _, _, _, _, _, rfl, rfl, _⟩ | ⟨hflag, rfl, _⟩⟩ :=
    step_core hp hs h
  · exact ⟨s', hs', hp', operate_lockMove hop⟩
  · exact ⟨_, hs', hp', fun k => .inr (.inl ⟨by simp [StampsLock], rfl, id⟩)⟩
  · refine ⟨_, hs', hp', fun k => .inr (.inl ⟨?_, rfl, id⟩)⟩
    rcases hflag with ⟨_, _, rfl⟩ | ⟨_, rfl⟩ <;> simp [StampsLock]

/-- A withdrawal that pays needs a balance and, without an emergency unlock, an expired lock. -/
theorem withdraw_matured (hp : v.params = some p) (hs : v.core = some s)
    (h : step env v (.withdraw user asset amount) = .ok r) (hem : v.emergency asset = false)
    {payout : ℤ} (hpay : r.2.value = .i128 payout) (hpos : 0 < payout) :
    s.balance.get (user, asset) ≠ none ∧ s.lockUntil.getD (user, asset) 0 ≤ env.ledger := by
  obtain ⟨s', _, _, ⟨hop, _⟩ | ⟨_, _, _, _, _, _, hc, _⟩ | ⟨⟨_, _, hc⟩ | ⟨_, hc⟩, _⟩⟩ :=
    step_core hp hs h
  · obtain ⟨s₁, reply⟩ := r
    cases Locked.operate_effect hop with
    | withdraw _ _ _ _ _ _ hmatured hle =>
      have hval : amount = payout := Value.i128.inj hpay
      refine ⟨?_, hmatured hem⟩
      intro hnone
      have hzero := Store.getD_of_none hnone (0 : ℤ)
      omega
  all_goals cases hc

/-- What the log of a run says about the locks at time `t`. -/
structure Locks (p : TierParams) (t : ℕ) (v : TierVault) (l : List (Invocation × Reply)) : Prop where
  params : v.params = some p
  past : ∀ e ∈ l, clock e.1 ≤ t
  ahead : ∀ k, v.lockUntil k ≤ t + p.lockDuration
  held : ∀ e ∈ l, ∀ k, StampsLock e.1.2 k → v.balances.get k ≠ none →
    clock e.1 + p.lockDuration ≤ v.lockUntil k

theorem Locks.step {c : Invocation} {l : List (Invocation × Reply)} (hl : Locks p (clock c) v l)
    (h : exec v c = .ok r) : Locks p (clock c) r.1 (l ++ [(c, r.2)]) := by
  obtain ⟨s, hs⟩ := exists_core hl.params
  obtain ⟨s', hs', hp', hmove⟩ := step_lockMove hl.params hs h
  have hpast := hl.past
  have hahead := hl.ahead
  have hheld := hl.held
  simp only [lockUntil_of_core hs, balances_of_core hs] at hahead hheld
  constructor
  · exact hp'
  · intro e he
    rcases List.mem_append.mp he with he | he
    · exact hpast e he
    · rw [List.mem_singleton.mp he]
  · intro k
    rw [lockUntil_of_core hs']
    rcases hmove k with ⟨_, hk⟩ | ⟨_, hk, _⟩ | ⟨_, hk, _⟩
    · exact hk.le
    · exact hk ▸ hahead k
    · omega
  · intro e he k hk hbal
    rw [lockUntil_of_core hs']
    rw [balances_of_core hs'] at hbal
    have hlate : clock e.1 ≤ clock c := by
      rcases List.mem_append.mp he with he | he
      · exact hpast e he
      · rw [List.mem_singleton.mp he]
    rcases hmove k with ⟨_, hnew⟩ | ⟨hnot, hkeep, hpres⟩ | ⟨_, _, hgone⟩
    · rw [hnew]
      exact Nat.add_le_add_right hlate _
    · rcases List.mem_append.mp he with he | he
      · rw [hkeep]
        exact hheld e he k hk (hpres hbal)
      · rw [List.mem_singleton.mp he] at hk
        exact absurd hk hnot
    · exact absurd hgone hbal

theorem run_locks {t : Tier} (hp : (deployed t).params = some p) {cs : List Invocation}
    (ht : Timed clock 0 cs) :
    Locks p (lastClock clock 0 cs) (run exec (deployed t) cs) (log exec (deployed t) cs) := by
  refine run_log_invariant_timed (I := Locks p) ?_ (fun v l c r hl h => hl.step h) ?_ ht
  · intro t t' v l htt hl
    exact ⟨hl.params, fun e he => (hl.past e he).trans htt,
      fun k => (hl.ahead k).trans (Nat.add_le_add_right htt _), hl.held⟩
  · refine ⟨hp, by simp, fun k => ?_, by simp⟩
    cases t <;> exact Nat.zero_le _

/-- What a user may rely on when the vault is in `v` at time `t` after the calls of `l`. -/
structure LockSafe (p : TierParams) (t : ℕ) (v : TierVault) (l : List (Invocation × Reply)) :
    Prop where
  /-- A withdrawal that pays, while the asset has no emergency unlock, comes a lock duration after
  every deposit and relock of the position. -/
  matured : ∀ env user asset amount r payout, step env v (.withdraw user asset amount) = .ok r →
    r.2.value = .i128 payout → 0 < payout → v.emergency asset = false →
    ∀ e ∈ l, StampsLock e.1.2 (user, asset) → clock e.1 + p.lockDuration ≤ env.ledger
  /-- No later call shortens the lock of a position it leaves open. -/
  kept : ∀ c r, t ≤ clock c → exec v c = .ok r →
    ∀ k, r.1.balances.get k ≠ none → v.lockUntil k ≤ r.1.lockUntil k

theorem Locks.lockSafe {t : ℕ} {l : List (Invocation × Reply)} (hl : Locks p t v l) :
    LockSafe p t v l := by
  obtain ⟨s, hs⟩ := exists_core hl.params
  constructor
  · intro env user asset amount r payout h hpay hpos hem e he hk
    obtain ⟨hbal, hlock⟩ := withdraw_matured hl.params hs h hem hpay hpos
    have hheld := hl.held e he (user, asset) hk (by rwa [balances_of_core hs])
    rw [lockUntil_of_core hs] at hheld
    exact hheld.trans hlock
  · intro c r hc h k hbal
    obtain ⟨s', hs', _, hmove⟩ := step_lockMove hl.params hs h
    have hahead := hl.ahead k
    rw [lockUntil_of_core hs] at hahead ⊢
    rw [balances_of_core hs'] at hbal
    rw [lockUntil_of_core hs']
    rcases hmove k with ⟨_, hnew⟩ | ⟨_, hkeep, _⟩ | ⟨_, _, hgone⟩
    · have hnow : t ≤ c.1.ledger := hc
      omega
    · exact hkeep.ge
    · exact absurd hgone hbal

/-- Lock safety of VaultL3, VaultL6 and VaultL12 over whole runs from deployment, later
`initialise` calls included. -/
theorem run_lockSafe {t : Tier} (hp : (deployed t).params = some p) {cs : List Invocation}
    (ht : Timed clock 0 cs) :
    LockSafe p (lastClock clock 0 cs) (run exec (deployed t) cs) (log exec (deployed t) cs) :=
  (run_locks hp ht).lockSafe

/-- An `initialise` and a deposit of 100 USDC at ledger 10. -/
def lockedRun : List Invocation :=
  [(⟨[1], none, 0⟩, .initialise (.locked (.account 1) (.account 2) (.account 4) (.account 5) 0)),
   (⟨[1], none, 10⟩, .deposit (.account 7) (.account 5) 1_000_000_000)]

theorem run_lockSafe_lockedRun :
    LockSafe VaultL6.params 10 (run exec (deployed .l6) lockedRun)
      (log exec (deployed .l6) lockedRun) := by
  have ht : Timed clock 0 lockedRun := by simp [lockedRun, Timed, clock]
  exact run_lockSafe rfl ht

end YieldLadder.TierVault
