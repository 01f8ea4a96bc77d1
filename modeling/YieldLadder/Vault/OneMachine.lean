import YieldLadder.Foundation.Simulation
import YieldLadder.Vault.Entries
import YieldLadder.Vault.Isolation

/-! # The tier vaults are one machine

The three texts of the locked vaults are copies of one text, with the tier's
numbers in place of the parameters; VaultL3 is such a copy while no emergency
unlock is active. That text computes the locked operations on the entries of their
state, so whole runs of the copies and of the specification answer alike and end
in corresponding states. VaultFlex exits as the locked vaults do.
-/
namespace YieldLadder
open Foundation

namespace Entries

/-- The entries of a state of the specification, beside the keys that only VaultL3 has. -/
def ofState (guardian : Option Address) (flags : Store Address Bool) (s : Locked.State) : Entries where
  totalShares := s.inst.map Locked.Instance.totalShares
  totalBalance := s.inst.map Locked.Instance.totalBalance
  admin := s.inst.map Locked.Instance.admin
  governance := s.inst.map Locked.Instance.governance
  guardian := guardian
  strategy := s.inst.map Locked.Instance.strategy
  usdc := s.inst.map Locked.Instance.usdc
  maxTvl := s.inst.map Locked.Instance.maxTvl
  balance := s.balance
  shares := s.shares
  lockUntil := s.lockUntil
  checkpoint := s.checkpoint
  emergencyUnlock := flags

def Matches {α : Type} (guardian : Option Address) (flags : Store Address Bool) (r : Entries × α)
    (q : Locked.State × α) : Prop := r.1 = ofState guardian flags q.1 ∧ r.2 = q.2

variable {p : TierParams} {env : Env} {s : Locked.State} {guardian : Option Address}
variable {flags : Store Address Bool} {user asset : Address} {amount : ℤ}

namespace Copied

/-- The text of the copies, with the tier's numbers as parameters and without the emergency flag. -/
def deposit (p : TierParams) (env : Env) (st : Entries) (user asset : Address) (amount : ℤ) :
    Except Fault (Entries × Reply) := do
  let admin ← expect (.panic "not initialized") st.admin
  env.requireAuth admin
  failIf (amount < p.minDeposit) VaultError.belowMinDeposit.fault
  let raised ← addI128 (st.totalBalance.getD 0) amount
  failIf (raised > st.maxTvl.getD DEFAULT_MAX_TVL) VaultError.depositCapExceeded.fault
  let newShares ← mulFp amount p.multiplierFp
  let newBalance ← addI128 (st.balance.getD (user, asset) 0) amount
  let allShares ← addI128 (st.shares.getD (user, asset) 0) newShares
  let moreShares ← addI128 (st.totalShares.getD 0) newShares
  let moreBalance ← addI128 (st.totalBalance.getD 0) amount
  let lockUntil ← addU32 env.ledger p.lockDuration
  let checkpoint ← addU32 env.ledger 1
  pure ({ st with
          totalShares := some moreShares
          totalBalance := some moreBalance
          balance := st.balance.set (user, asset) newBalance
          shares := st.shares.set (user, asset) allShares
          lockUntil := st.lockUntil.set (user, asset) lockUntil
          checkpoint := st.checkpoint.set (user, asset) checkpoint },
    ⟨.unit, [.deposit user asset amount]⟩)

/-- The two branches at the end of an exit, giving `full` or `rest`. -/
def takeOut (st : Entries) (user asset : Address) (amount full rest : ℤ) :
    Except Fault (Entries × ℤ) := do
  let balance := st.balance.getD (user, asset) 0
  let userShares := st.shares.getD (user, asset) 0
  if amount ≥ balance then do
    let lessShares ← subI128 (st.totalShares.getD 0) userShares
    let lessBalance ← subI128 (st.totalBalance.getD 0) balance
    pure ({ st with
            totalShares := some lessShares
            totalBalance := some (max lessBalance 0)
            balance := st.balance.remove (user, asset)
            shares := st.shares.remove (user, asset)
            lockUntil := st.lockUntil.remove (user, asset)
            checkpoint := st.checkpoint.remove (user, asset) }, full)
  else do
    let product ← mulI128 userShares amount
    let sharesToBurn ← divI128 product balance
    let newBalance ← subI128 balance amount
    let newShares ← subI128 userShares sharesToBurn
    let lessShares ← subI128 (st.totalShares.getD 0) sharesToBurn
    let lessBalance ← subI128 (st.totalBalance.getD 0) amount
    pure ({ st with
            totalShares := some lessShares
            totalBalance := some lessBalance
            balance := st.balance.set (user, asset) newBalance
            shares := st.shares.set (user, asset) newShares }, rest)

def doWithdraw (env : Env) (st : Entries) (user asset : Address) (amount : ℤ) :
    Except Fault (Entries × ℤ) := do
  let admin ← expect (.panic "not initialized") st.admin
  env.requireAuth admin
  failIf (env.ledger < st.lockUntil.getD (user, asset) 0) VaultError.lockNotExpired.fault
  failIf (amount > st.balance.getD (user, asset) 0) VaultError.amountExceedsBalance.fault
  takeOut st user asset amount (st.balance.getD (user, asset) 0) amount

def doEarlyExit (p : TierParams) (env : Env) (st : Entries) (user asset : Address) (amount : ℤ) :
    Except Fault (Entries × ℤ) := do
  let admin ← expect (.panic "not initialized") st.admin
  env.requireAuth admin
  failIf (amount > st.balance.getD (user, asset) 0) VaultError.amountExceedsBalance.fault
  let fee ← mulFp amount p.exitFeeFp
  let netAmount ← subI128 amount fee
  takeOut st user asset amount netAmount netAmount

def setMaxTvl (env : Env) (st : Entries) (newCap : ℤ) : Except Fault Entries := do
  let governance ← expect (.panic "called `Option::unwrap()` on a `None` value") st.governance
  env.requireAuth governance
  pure { st with maxTvl := some newCap }

def relock (p : TierParams) (env : Env) (st : Entries) (user asset : Address) :
    Except Fault (Entries × ℕ) := do
  let admin ← expect (.panic "not initialized") st.admin
  env.requireAuth admin
  failIf (env.ledger < st.lockUntil.getD (user, asset) 0) VaultError.notYetMatured.fault
  let newLockUntil ← addU32 env.ledger p.lockDuration
  pure ({ st with lockUntil := st.lockUntil.set (user, asset) newLockUntil }, newLockUntil)

def operate (p : TierParams) (env : Env) (st : Entries) : VaultCall → Except Fault (Entries × Reply)
  | .deposit user asset amount => deposit p env st user asset amount
  | .withdraw user asset amount => do
    let (st, payout) ← doWithdraw env st user asset amount
    pure (st, ⟨.i128 payout, [.withdraw user asset payout]⟩)
  | .earlyExit user asset amount => do
    let (st, netAmount) ← doEarlyExit p env st user asset amount
    pure (st, ⟨.i128 netAmount, [.earlyExit user asset netAmount]⟩)
  | .relock user asset => do
    let (st, lock) ← relock p env st user asset
    pure (st, ⟨.u32 lock, []⟩)
  | .setMaxTvl newCap => do
    let st ← setMaxTvl env st newCap
    pure (st, ⟨.unit, []⟩)
  | .query q => do
    let value ← answer st q
    pure (st, ⟨value, []⟩)
  | .initialise _ => throw .missingFunction
  | .setEmergencyUnlock _ _ => throw .missingFunction

end Copied

/-- The calls the three vaults share: the operations without those about the emergency flags. -/
def Shared (call : VaultCall) : Prop := TierVault.IsOperation call ∧ ¬TierVault.AboutFlags call

section Texts
variable {st : Entries} {call : VaultCall}

theorem l6_copied (hc : TierVault.IsOperation call) :
    VaultL6.step env st call = Copied.operate YieldLadder.VaultL6.params env st call := by
  cases call with
  | initialise args => exact absurd rfl (hc args)
  | _ => rfl

theorem l12_copied (hc : TierVault.IsOperation call) :
    VaultL12.step env st call = Copied.operate YieldLadder.VaultL12.params env st call := by
  cases call with
  | initialise args => exact absurd rfl (hc args)
  | _ => rfl

/-- While no flag is set the additional reads of VaultL3 change nothing. -/
theorem l3_copied (hcalm : ∀ asset, st.emergencyUnlock.getD asset false = false) (hc : Shared call) :
    VaultL3.step env st call = Copied.operate YieldLadder.VaultL3.params env st call := by
  cases call with
  | initialise args => exact absurd rfl (hc.1 args)
  | setEmergencyUnlock asset active => exact absurd (.inl ⟨asset, active, rfl⟩) hc.2
  | query q =>
    cases q with
    | emergencyUnlock asset => exact absurd (.inr ⟨asset, rfl⟩) hc.2
    | _ => rfl
  | withdraw user asset amount =>
    simp only [VaultL3.step, VaultL3.withdraw, VaultL3.doWithdraw, hcalm asset, Bool.false_eq_true, if_false]
    rfl
  | earlyExit user asset amount =>
    have hexit : VaultL3.doEarlyExit env st user asset amount =
        Copied.doEarlyExit YieldLadder.VaultL3.params env st user asset amount := by
      simp only [VaultL3.doEarlyExit, hcalm asset, Bool.false_eq_true, if_false]
      rfl
    simp only [VaultL3.step, VaultL3.earlyExit, hexit]
    rfl
  | _ => rfl

end Texts

theorem deposit_matches : Agree (Matches guardian flags)
    (Copied.deposit p env (ofState guardian flags s) user asset amount)
    (Locked.deposit p env s user asset amount) := by
  obtain ⟨inst, balance, shares, lockUntil, checkpoint⟩ := s
  cases inst with
  | none => exact .error _
  | some i =>
    refine .both rfl rfl (.shared fun _ _ => .shared fun _ _ => .shared fun raised hraised =>
      .shared fun _ _ => .shared fun newShares _ => .shared fun newBalance _ =>
      .shared fun allShares _ => .shared fun moreShares _ => ?_)
    -- the sum of the first check is computed again for the total
    refine .left hraised ?_
    exact .shared fun lock _ => .shared fun checkpoint _ => .pure ⟨rfl, rfl⟩

theorem takeOut_matches {i : Locked.Instance} {full rest paid : ℤ} (hi : s.inst = some i)
    (hfull : s.balance.getD (user, asset) 0 ≤ amount → full = paid)
    (hrest : amount < s.balance.getD (user, asset) 0 → rest = paid) :
    Agree (Matches guardian flags)
      (Copied.takeOut (ofState guardian flags s) user asset amount full rest)
      (do let s' ← Locked.takeOut i s user asset amount
          pure (s', paid)) := by
  obtain ⟨inst, balance, shares, lockUntil, checkpoint⟩ := s
  dsimp only at hi hfull hrest
  subst hi
  unfold Copied.takeOut Locked.takeOut
  dsimp only [ofState]
  by_cases hle : balance.getD (user, asset) 0 ≤ amount
  · rw [if_pos hle, if_pos hle, hfull hle]
    simp only [bind_assoc, pure_bind]
    exact .shared fun _ _ => .shared fun _ _ => .pure ⟨rfl, rfl⟩
  · rw [if_neg hle, if_neg hle, hrest (not_le.mp hle)]
    simp only [bind_assoc, pure_bind]
    exact .shared fun _ _ => .shared fun _ _ => .shared fun _ _ => .shared fun _ _ =>
      .shared fun _ _ => .shared fun _ _ => .pure ⟨rfl, rfl⟩

theorem doWithdraw_matches : Agree (Matches guardian flags)
    (Copied.doWithdraw env (ofState guardian flags s) user asset amount)
    (Locked.doWithdraw false env s user asset amount) := by
  obtain ⟨inst, balance, shares, lockUntil, checkpoint⟩ := s
  cases inst with
  | none => exact .error _
  | some i =>
    refine .both rfl rfl (.shared fun _ _ => .check (by simp [ofState]) fun _ => .shared fun _ _ => ?_)
    exact takeOut_matches rfl (fun hle => (if_pos hle).symm) fun hlt => (if_neg (not_le.mpr hlt)).symm

theorem doEarlyExit_matches : Agree (Matches guardian flags)
    (Copied.doEarlyExit p env (ofState guardian flags s) user asset amount)
    (Locked.doEarlyExit p false env s user asset amount) := by
  obtain ⟨inst, balance, shares, lockUntil, checkpoint⟩ := s
  cases inst with
  | none => exact .error _
  | some i =>
    refine .both rfl rfl (.shared fun _ _ => .shared fun _ _ => .shared fun fee _ =>
      .shared fun netAmount _ => ?_)
    exact takeOut_matches rfl (fun _ => rfl) fun _ => rfl

theorem relock_matches : Agree (Matches guardian flags)
    (Copied.relock p env (ofState guardian flags s) user asset) (Locked.relock p env s user asset) := by
  obtain ⟨inst, balance, shares, lockUntil, checkpoint⟩ := s
  cases inst with
  | none => exact .error _
  | some i =>
    exact .both rfl rfl (.shared fun _ _ => .shared fun _ _ => .shared fun lock _ => .pure ⟨rfl, rfl⟩)

theorem setMaxTvl_matches {newCap : ℤ} : Agree (fun st s' => st = ofState guardian flags s')
    (Copied.setMaxTvl env (ofState guardian flags s) newCap) (Locked.setMaxTvl env s newCap) := by
  obtain ⟨inst, balance, shares, lockUntil, checkpoint⟩ := s
  cases inst with
  | none => exact .error _
  | some i => exact .both rfl rfl (.shared fun _ _ => .pure rfl)

theorem answer_eq (q : Query) : answer (ofState guardian flags s) q = Locked.answer s q := by
  obtain ⟨inst, balance, shares, lockUntil, checkpoint⟩ := s
  cases q with
  | remainingCapacity =>
    simp only [answer, Locked.answer, Locked.remainingCapacity, bind_assoc, pure_bind]
    cases inst <;> rfl
  | _ => cases inst <;> rfl

theorem operate_matches (call : VaultCall) : Agree (Matches guardian flags)
    (Copied.operate p env (ofState guardian flags s) call)
    (Locked.operate p (fun _ => false) env s call) := by
  cases call with
  | initialise args => exact .error _
  | setEmergencyUnlock asset active => exact .error _
  | deposit user asset amount => exact deposit_matches
  | withdraw user asset amount =>
    refine .bind doWithdraw_matches ?_
    rintro ⟨st, payout⟩ ⟨s', payout'⟩ _ _ ⟨hst, rfl⟩
    exact .pure ⟨hst, rfl⟩
  | earlyExit user asset amount =>
    refine .bind doEarlyExit_matches ?_
    rintro ⟨st, netAmount⟩ ⟨s', netAmount'⟩ _ _ ⟨hst, rfl⟩
    exact .pure ⟨hst, rfl⟩
  | relock user asset =>
    refine .bind relock_matches ?_
    rintro ⟨st, lock⟩ ⟨s', lock'⟩ _ _ ⟨hst, rfl⟩
    exact .pure ⟨hst, rfl⟩
  | setMaxTvl newCap =>
    refine .bind setMaxTvl_matches ?_
    rintro st s' _ _ rfl
    exact .pure ⟨rfl, rfl⟩
  | query q =>
    rw [Copied.operate, Locked.operate, answer_eq]
    exact .shared fun _ _ => .pure ⟨rfl, rfl⟩

/-- The specification as a machine of its own. -/
def specified (p : TierParams) (s : Locked.State) (c : TierVault.Invocation) :
    Except Fault (Locked.State × Reply) := Locked.operate p (fun _ => false) c.1 s c.2

/-- The vault answers every run of shared calls as the specification with the numbers `p` does, call
by call, and ends in the corresponding storage, its own keys kept. -/
def RunsAs (p : TierParams) (vault : Env → Entries → VaultCall → Except Fault (Entries × Reply)) : Prop :=
  ∀ guardian flags s cs, (∀ asset, flags.getD asset false = false) → (∀ c ∈ cs, Shared c.2) →
    replies (fun st c => vault c.1 st c.2) (ofState guardian flags s) cs = replies (specified p) s cs ∧
      run (fun st (c : TierVault.Invocation) => vault c.1 st c.2) (ofState guardian flags s) cs =
        ofState guardian flags (run (specified p) s cs)

theorem runsAs_of_copied {vault : Env → Entries → VaultCall → Except Fault (Entries × Reply)}
    (h : ∀ env st call, (∀ asset, st.emergencyUnlock.getD asset false = false) → Shared call →
      vault env st call = Copied.operate p env st call) : RunsAs p vault := by
  intro guardian flags s cs hcalm hcs
  refine simulation (R := fun st s' => st = ofState guardian flags s') (fun st s' c hc hst => ?_) rfl hcs
  subst hst
  rw [h c.1 _ c.2 hcalm hc]
  exact operate_matches c.2

section Start
variable {admin governance strategy usdc : Address} {maxTvl : ℤ}

theorem l3_starts (g : Address) : Agree (fun st s' => st = ofState (some g) flags s')
    (VaultL3.initialise env (ofState guardian flags s) admin governance g strategy usdc maxTvl)
    (Locked.initialise env s admin governance strategy usdc maxTvl) :=
  .shared fun _ _ => .pure rfl

theorem l6_starts : Agree (fun st s' => st = ofState guardian flags s')
    (VaultL6.initialise env (ofState guardian flags s) admin governance strategy usdc maxTvl)
    (Locked.initialise env s admin governance strategy usdc maxTvl) :=
  .shared fun _ _ => .pure rfl

theorem l12_starts : Agree (fun st s' => st = ofState guardian flags s')
    (VaultL12.initialise env (ofState guardian flags s) admin governance strategy usdc maxTvl)
    (Locked.initialise env s admin governance strategy usdc maxTvl) :=
  .shared fun _ _ => .pure rfl

end Start

end Entries

namespace TierVault
variable {env : Env} {w : TierVault} {p : TierParams} {user asset : Address} {amount : ℤ}

/-- A book that some run of operations on some tier vault leads to. -/
def Reached (b : Book Key) : Prop :=
  ∃ t v cs, Initialised t v ∧ (∀ c ∈ cs, IsOperation c.2) ∧ (run exec v cs).book = b

theorem Reached.sound (h : Reached w.book) : w.Sound := by
  obtain ⟨t, v, cs, hv, hcs, hbook⟩ := h
  obtain ⟨hcoherent, hrange⟩ := (initialised_sound hv).run hcs
  exact ⟨hbook ▸ hcoherent, hbook ▸ hrange⟩

/-- On the same book both exits of VaultFlex go through when a matured withdrawal of a locked vault
does, pay the same and leave the same book. -/
theorem flex_exits {s : VaultFlex.State} {call : VaultCall} (hw : w.Sound)
    (hsame : (TierVault.flex s).book = w.book) (ha : (TierVault.flex s).AdminAuthorized env)
    (haw : w.AdminAuthorized env) (hpos : 0 < w.balance user asset)
    (hmatured : w.lockUntil (user, asset) ≤ env.ledger)
    (hcall : call = .withdraw user asset amount ∨ call = .earlyExit user asset amount) :
    ((∃ r, step env (.flex s) call = .ok r) ↔ ∃ q, step env w (.withdraw user asset amount) = .ok q) ∧
    ∀ r q, step env (.flex s) call = .ok r → step env w (.withdraw user asset amount) = .ok q →
      r.2.value = q.2.value ∧ r.1.book = q.1.book := by
  have hflex : (TierVault.flex s).Sound := ⟨hsame ▸ hw.coherent, hsame ▸ hw.range⟩
  have hbal : (TierVault.flex s).balance user asset = w.balance user asset :=
    congrArg (·.principal.getD (user, asset) 0) hsame
  have hshares : (TierVault.flex s).sharesOf user asset = w.sharesOf user asset :=
    congrArg (·.shares.getD (user, asset) 0) hsame
  obtain ⟨e, rfl⟩ := VaultCall.exit_cases hcall
  have hflexChecks : (TierVault.flex s).ExitChecks env.ledger user asset amount e := flex_exitChecks e
  have hchecks : w.ExitChecks env.ledger user asset amount .withdraw := .inr hmatured
  change ((∃ r, step env (.flex s) (e.call user asset amount) = .ok r) ↔
    ∃ q, step env w (Exit.withdraw.call user asset amount) = .ok q) ∧ _
  constructor
  · by_cases hlt : amount < w.balance user asset
    · have hltf : amount < (TierVault.flex s).balance user asset := hbal ▸ hlt
      rw [exit_partial_iff .withdraw hw.coherent haw hlt, exit_partial_iff e hflex.coherent ha hltf, hbal, hsame]
      simp only [hflexChecks, hchecks]
    · have h0 : 0 < amount := by omega
      rw [exit_iff .withdraw hw haw h0, exit_iff e hflex ha h0, hbal, hshares]
      simp only [hflexChecks, hchecks]
  · intro r q hr hq
    have hvalue : (TierVault.flex s).exitPayout asset amount e = amount := by
      cases e with
      | withdraw => rfl
      | early => exact sub_zero amount
    refine ⟨?_, ?_⟩
    · rw [exit_value hr, hvalue, withdraw_value hq]
    · rw [exit_book hcall hr, exit_book (.inl rfl) hq, hsame]

/-- The three locked vaults start and run as one specification with their own numbers, and VaultFlex
exits as they do from every position with principal whose lock has ended. -/
theorem one_machine :
    (∀ env guardian flags s admin governance g strategy usdc maxTvl,
      Agree (fun st s' => st = Entries.ofState (some g) flags s')
        (Entries.VaultL3.initialise env (.ofState guardian flags s) admin governance g strategy usdc maxTvl)
        (Locked.initialise env s admin governance strategy usdc maxTvl) ∧
      Agree (fun st s' => st = Entries.ofState guardian flags s')
        (Entries.VaultL6.initialise env (.ofState guardian flags s) admin governance strategy usdc maxTvl)
        (Locked.initialise env s admin governance strategy usdc maxTvl) ∧
      Agree (fun st s' => st = Entries.ofState guardian flags s')
        (Entries.VaultL12.initialise env (.ofState guardian flags s) admin governance strategy usdc maxTvl)
        (Locked.initialise env s admin governance strategy usdc maxTvl)) ∧
    Entries.RunsAs VaultL3.params Entries.VaultL3.step ∧
    Entries.RunsAs VaultL6.params Entries.VaultL6.step ∧
    Entries.RunsAs VaultL12.params Entries.VaultL12.step ∧
    ∀ env (s : VaultFlex.State) (w : TierVault) p user asset amount call, w.params = some p →
      Reached w.book → (TierVault.flex s).book = w.book →
      (TierVault.flex s).AdminAuthorized env → w.AdminAuthorized env →
      0 < w.balance user asset → w.lockUntil (user, asset) ≤ env.ledger →
      (call = .withdraw user asset amount ∨ call = .earlyExit user asset amount) →
      ((∃ r, step env (.flex s) call = .ok r) ↔
        ∃ q, step env w (.withdraw user asset amount) = .ok q) ∧
      ∀ r q, step env (.flex s) call = .ok r → step env w (.withdraw user asset amount) = .ok q →
        r.2.value = q.2.value ∧ r.1.book = q.1.book := by
  refine ⟨fun _ _ _ _ _ _ g _ _ _ => ⟨Entries.l3_starts g, Entries.l6_starts, Entries.l12_starts⟩,
    ?_, ?_, ?_, ?_⟩
  · exact Entries.runsAs_of_copied fun _ _ _ hcalm hc => Entries.l3_copied hcalm hc
  · exact Entries.runsAs_of_copied fun _ _ _ _ hc => Entries.l6_copied hc.1
  · exact Entries.runsAs_of_copied fun _ _ _ _ hc => Entries.l12_copied hc.1
  · intro env s w p user asset amount call _ hreached hsame ha haw hpos hmatured hcall
    exact flex_exits hreached.sound hsame ha haw hpos hmatured hcall

/-- VaultL3 with one position, and a VaultFlex whose book is the same. -/
def lockedOnce : TierVault :=
  run exec guarded [(⟨[1], none, 10⟩, .deposit (.account 7) (.account 5) 500_000_001)]

def mirrored : VaultFlex.State where
  inst := some ⟨.account 1, .account 4, lockedOnce.book.totalShares, lockedOnce.book.totalPrincipal⟩
  balance := lockedOnce.book.principal
  shares := lockedOnce.book.shares
  checkpoint := .empty

/-- After the lock a part of the position leaves either vault alike. -/
theorem one_machine_mirrored :
    ∃ r q, step ⟨[1], none, 4_000_000⟩ (.flex mirrored)
        (.earlyExit (.account 7) (.account 5) 300_000_000) = .ok r ∧
      step ⟨[1], none, 4_000_000⟩ lockedOnce (.withdraw (.account 7) (.account 5) 300_000_000) = .ok q ∧
      r.2.value = q.2.value ∧ r.1.book = q.1.book := by
  have hreached : Reached lockedOnce.book :=
    ⟨.l3, guarded, _, guarded_initialised, by simp [IsOperation], rfl⟩
  have hexits := one_machine.2.2.2.2 ⟨[1], none, 4_000_000⟩ mirrored lockedOnce VaultL3.params (.account 7)
    (.account 5) 300_000_000 (.earlyExit (.account 7) (.account 5) 300_000_000) rfl hreached rfl
    ⟨.account 1, rfl, by decide⟩ ⟨.account 1, rfl, by decide⟩ (by decide) (by decide) (.inr rfl)
  obtain ⟨q, hq⟩ : ∃ q, step ⟨[1], none, 4_000_000⟩ lockedOnce
      (.withdraw (.account 7) (.account 5) 300_000_000) = .ok q := ⟨_, rfl⟩
  obtain ⟨r, hr⟩ := hexits.1.mpr ⟨q, hq⟩
  exact ⟨r, q, hr, hq, hexits.2 r q hr hq⟩

end TierVault
end YieldLadder
