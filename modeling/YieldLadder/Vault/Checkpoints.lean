import YieldLadder.Vault.Records

/-! # The checkpoint of a position

A deposit stores the ledger after it as the position's checkpoint. The locked
vaults drop the checkpoint with the position; VaultFlex keeps it under the key of
the shared helper, which no exit removes, so an emptied position still counts as
eligible for yield.
-/
namespace YieldLadder.TierVault
open Foundation

def Stored (v : TierVault) : Prop := ∀ k, v.checkpoints.get k ≠ none ↔ 0 < v.balances.getD k 0

/-- What a deposit checkpoint says at the time `t`, after the calls of `l`. -/
structure Checkpointed (t : ℕ) (v : TierVault) (l : List (Invocation × Reply)) : Prop where
  stored : v.Stored
  value : ∀ k n, v.checkpoints.get k = some n → ∃ m, lastLedger (·.isDeposit k) l = some m ∧ n = m + 1
  eligible : ∀ s, v = .flex s → ∀ env user asset, t ≤ env.ledger →
    (isEligibleForYield env s.checkpoint user asset = true ↔
      0 < v.balance user asset ∧
        ∀ e ∈ l, e.1.2.isDeposit (user, asset) = true → clock e.1 ≠ env.ledger)

/-- The call takes the whole of a VaultFlex position out, and nothing refuses it. -/
def ClosesFlex (v : TierVault) (c : Invocation) : Prop :=
  v.tier = .flex ∧ v.AdminAuthorized c.1 ∧
    ∃ k, 0 < v.balances.getD k 0 ∧ ExitOf k (v.balances.getD k 0) c.2

variable {env : Env} {v v' : TierVault} {call : VaultCall} {r : TierVault × Reply} {k : Key}
variable {l : List (Invocation × Reply)} {c : Invocation} {t : ℕ}

theorem Sound.balance_pos (hv : v.Sound) (h : v.balances.getD k 0 ≠ 0) : 0 < v.balances.getD k 0 :=
  lt_of_le_of_ne (hv.coherent.principal_nonneg k) h.symm

theorem Stored.step (hs : v.Stored) (hv : v.Sound) (hc : IsOperation c.2) (hgood : ¬ClosesFlex v c)
    (h : exec v c = .ok r) : r.1.Stored := by
  intro k
  have hmove : Move c.1 k v r.1 c.2 := step_move hc h k
  obtain ⟨env, call⟩ := c
  have hkept : r.1.balances.get k = v.balances.get k → r.1.checkpoints.get k = v.checkpoints.get k →
      (r.1.checkpoints.get k ≠ none ↔ 0 < r.1.balances.getD k 0) := by
    intro hbal hcp
    rw [hcp, Store.getD, hbal]
    exact hs k
  cases hmove with
  | deposit amount _ h0 hbal _ hcp =>
    have hnonneg : 0 ≤ v.balances.getD k 0 := hv.coherent.principal_nonneg k
    rw [hcp, Store.getD_of_get hbal]
    simp only [ne_eq, reduceCtorEq, not_false_eq_true, true_iff]
    omega
  | reduce _ amount _ _ hlt hne hbal _ hcp =>
    have hstored : v.checkpoints.get k ≠ none := (hs k).mpr (hv.balance_pos hne)
    rw [hcp, Store.getD_of_get hbal]
    exact iff_of_true hstored (by omega)
  | close _ hexit hauth hflex hbal _ hcp =>
    have hlocked : v.tier ≠ .flex := fun hf => hgood ⟨hf, hauth, k, hflex hf, hexit⟩
    rw [if_neg hlocked] at hcp
    rw [hcp, Store.getD_of_none hbal]
    simp
  | relock _ _ _ _ hbal _ hcp => exact hkept hbal hcp
  | idle _ _ _ _ hbal _ hcp => exact hkept hbal hcp

theorem closesFlex_broken (hs : v.Stored) (hv : v.Sound) (h : ClosesFlex v c) :
    ¬(next exec v c).Stored := by
  obtain ⟨hflex, hauth, k, hpos, hexit⟩ := h
  obtain ⟨env, call⟩ := c
  dsimp only at hauth hexit
  have hfull : v.balances.getD k 0 < v.balance k.1 k.2 →
      InI128 (v.sharesOf k.1 k.2 * v.balances.getD k 0) := fun hlt => absurd hlt (lt_irrefl _)
  have hstep : ∃ r, exec v (env, call) = .ok r := by
    cases v with
    | flex s =>
      obtain ⟨e, rfl⟩ := VaultCall.exit_cases hexit
      exact (exit_iff e hv hauth hpos).mpr ⟨flex_exitChecks e, le_rfl, hfull⟩
    | _ => cases hflex
  obtain ⟨r, hr⟩ := hstep
  have hmove : Move env k v r.1 call := step_move hexit.isOperation hr k
  rw [next_ok hr]
  intro hafter
  cases hmove with
  | deposit => exact absurd hexit.not_deposit (by simp [VaultCall.isDeposit])
  | reduce _ amount hexit' _ hlt => exact absurd (hexit'.amount_eq hexit) hlt.ne
  | close _ _ _ _ hbal _ hcp =>
    rw [if_pos hflex] at hcp
    have hstored : v.checkpoints.get k ≠ none := (hs k).mpr hpos
    have hleft : 0 < r.1.balances.getD k 0 := (hafter k).mp (hcp ▸ hstored)
    rw [Store.getD_of_none hbal] at hleft
    exact absurd hleft (lt_irrefl 0)
  | relock => exact absurd hexit.not_relock (by simp [VaultCall.isRelock])
  | idle _ _ he => exact absurd hexit.isExit (by simp [he])

/-- What the log says of the checkpoints, whoever exits. -/
structure Dated (t : ℕ) (v : TierVault) (l : List (Invocation × Reply)) : Prop where
  past : ∀ e ∈ l, clock e.1 ≤ t
  value : ∀ k n, v.checkpoints.get k = some n → ∃ m, lastLedger (·.isDeposit k) l = some m ∧ n = m + 1
  latest : ∀ k m, lastLedger (·.isDeposit k) l = some m →
    (∃ e ∈ l, e.1.2.isDeposit k = true ∧ clock e.1 = m) ∧
      ∀ e ∈ l, e.1.2.isDeposit k = true → clock e.1 ≤ m

theorem Dated.wait {t' : ℕ} (hd : Dated t v l) (hle : t ≤ t') : Dated t' v l :=
  ⟨fun e he => (hd.past e he).trans hle, hd.value, hd.latest⟩

theorem Dated.step (hd : Dated (clock c) v l) (hc : IsOperation c.2) (h : exec v c = .ok r) :
    Dated (clock c) r.1 (l ++ [(c, r.2)]) := by
  have hpast : ∀ e ∈ l ++ [(c, r.2)], clock e.1 ≤ clock c := by
    intro e he
    rcases List.mem_append.mp he with he | he
    · exact hd.past e he
    · rw [List.mem_singleton.mp he]
  refine ⟨hpast, fun k n hn => ?_, fun k m hm => ?_⟩
  · rw [lastLedger_concat]
    have hmove : Move c.1 k v r.1 c.2 := step_move hc h k
    have hkept : c.2.isDeposit k = false → r.1.checkpoints.get k = v.checkpoints.get k →
        ∃ m, (if c.2.isDeposit k then some (clock c) else lastLedger (·.isDeposit k) l) = some m ∧
          n = m + 1 := by
      intro hno hcp
      rw [hno]
      exact hd.value k n (hcp ▸ hn)
    obtain ⟨env, call⟩ := c
    cases hmove with
    | deposit amount _ _ _ _ hcp =>
      have hyes : (VaultCall.deposit k.1 k.2 amount).isDeposit k = true := decide_eq_true rfl
      rw [hcp] at hn
      exact ⟨env.ledger, by rw [hyes]; rfl, (Option.some.inj hn).symm⟩
    | reduce _ _ hexit _ _ _ _ _ hcp => exact hkept hexit.not_deposit hcp
    | close _ hexit _ _ _ _ hcp =>
      split at hcp
      · exact hkept hexit.not_deposit hcp
      · rw [hcp] at hn
        cases hn
    | relock _ _ _ _ _ _ hcp => exact hkept rfl hcp
    | idle _ hno _ _ _ _ hcp => exact hkept hno hcp
  · rw [lastLedger_concat] at hm
    cases hdep : c.2.isDeposit k with
    | true =>
      rw [hdep] at hm
      obtain rfl : clock c = m := Option.some.inj hm
      exact ⟨⟨(c, r.2), by simp, hdep, rfl⟩, fun e he _ => hpast e he⟩
    | false =>
      rw [hdep] at hm
      obtain ⟨⟨e, he, hdeposit, hm⟩, hall⟩ := hd.latest k m hm
      refine ⟨⟨e, List.mem_append_left _ he, hdeposit, hm⟩, fun e he hdeposit => ?_⟩
      rcases List.mem_append.mp he with he | he
      · exact hall e he hdeposit
      · rw [List.mem_singleton.mp he, hdep] at hdeposit
        cases hdeposit

/-- Eligibility, read off the checkpoint and the log. -/
theorem Dated.eligible_iff {s : VaultFlex.State} {user asset : Address} (hd : Dated t (.flex s) l)
    (hs : Stored (.flex s)) (ht : t ≤ env.ledger) :
    isEligibleForYield env s.checkpoint user asset = true ↔
      0 < (TierVault.flex s).balance user asset ∧
        ∀ e ∈ l, e.1.2.isDeposit (user, asset) = true → clock e.1 ≠ env.ledger := by
  have hstored : s.checkpoint.get (user, asset) ≠ none ↔ 0 < (TierVault.flex s).balance user asset :=
    hs (user, asset)
  unfold isEligibleForYield
  cases hcp : s.checkpoint.get (user, asset) with
  | none =>
    rw [hcp] at hstored
    simp only [Bool.false_eq_true, false_iff]
    rintro ⟨hpos, _⟩
    exact hstored.mpr hpos rfl
  | some n =>
    obtain ⟨m, hm, rfl⟩ := hd.value (user, asset) n hcp
    obtain ⟨⟨e, he, hdeposit, rfl⟩, hall⟩ := hd.latest (user, asset) m hm
    have hpos : 0 < (TierVault.flex s).balance user asset := hstored.mp (by simp [hcp])
    have hpast : clock e.1 ≤ env.ledger := (hd.past e he).trans ht
    simp only [ge_iff_le, decide_eq_true_eq, hpos, true_and]
    constructor
    · intro hlate e' he' hdeposit'
      have := hall e' he' hdeposit'
      omega
    · intro hnone
      have := hnone e he hdeposit
      omega

theorem next_stored_iff (hc : IsOperation c.2) (hv : v.Sound ∧ v.Stored) :
    (next exec v c).Sound ∧ (next exec v c).Stored ↔ ¬ClosesFlex v c := by
  constructor
  · rintro ⟨_, hafter⟩ hbad
    exact closesFlex_broken hv.2 hv.1 hbad hafter
  · intro hgood
    exact next_induction (I := fun w : TierVault => w.Sound ∧ w.Stored) hv
      fun _ h => ⟨hv.1.step hc h, hv.2.step hv.1 hc hgood h⟩

/-- The checkpoints tell the positions with principal and their last deposits exactly while nobody
takes the whole of a VaultFlex position out. -/
theorem run_checkpointed_iff {tier : Tier} (hv : Initialised tier v) {cs : List Invocation}
    (hcs : ∀ c ∈ cs, IsOperation c.2) (ht : Timed clock t cs) :
    (∀ ds, ds <+: cs → Checkpointed (lastClock clock t ds) (run exec v ds) (log exec v ds)) ↔
      Meets exec (fun w c => ¬ClosesFlex w c) v cs := by
  have hempty : ∀ k, v.Untraced k := initialised_untraced hv
  have hstart : v.Sound ∧ v.Stored := by
    refine ⟨initialised_sound hv, fun k => ?_⟩
    rw [(hempty k).checkpoint, Store.getD_of_none (hempty k).balance]
    simp
  have hstored : (∀ ds, ds <+: cs → (run exec v ds).Sound ∧ (run exec v ds).Stored) ↔
      Meets exec (fun w c => ¬ClosesFlex w c) v cs :=
    forall_prefix_iff_meets (I := fun w : TierVault => w.Sound ∧ w.Stored) (fun _ _ hc hw => next_stored_iff hc hw)
      hstart hcs
  have hdated : ∀ ds, ds <+: cs → Dated (lastClock clock t ds) (run exec v ds) (log exec v ds) := by
    intro ds hds
    obtain ⟨rest, rfl⟩ := hds
    have hops : Meets exec (fun _ c => IsOperation c.2) v ds :=
      meets_of_forall fun c hc => hcs c (List.mem_append_left rest hc)
    refine run_log_invariant_timed_of_meets (I := Dated) (fun _ _ _ _ hle hd => hd.wait hle)
      (fun _ _ _ _ hc hd h => hd.step hc h) ?_ ((timed_append t ds rest).mp ht).1 hops
    refine ⟨by simp, fun k n hn => ?_, fun k m hm => by cases hm⟩
    rw [(hempty k).checkpoint] at hn
    cases hn
  rw [← hstored]
  constructor
  · intro hall ds hds
    exact ⟨hstart.1.run fun c hc => hcs c (hds.subset hc), (hall ds hds).stored⟩
  · intro hall ds hds
    have hd := hdated ds hds
    refine ⟨(hall ds hds).2, hd.value, ?_⟩
    intro s hs env user asset hlate
    rw [hs] at hd ⊢
    exact hd.eligible_iff (hs ▸ (hall ds hds).2) hlate

def flexInitialised : TierVault := .flex ⟨some ⟨.account 1, .account 4, 0, 0⟩, .empty, .empty, .empty⟩

def flexRun : List Invocation :=
  [(⟨[1], none, 10⟩, .deposit (.account 7) (.account 5) 20_000_000),
   (⟨[1], none, 12⟩, .withdraw (.account 7) (.account 5) 1)]

theorem flexInitialised_initialised : Initialised .flex flexInitialised :=
  ⟨⟨[], none, 0⟩, .flex (.account 1) (.account 4), _, rfl⟩

theorem run_checkpointed_iff_flexRun :
    Checkpointed 12 (run exec flexInitialised flexRun) (log exec flexInitialised flexRun) := by
  have hoperations : ∀ c ∈ flexRun, IsOperation c.2 := by simp [flexRun, IsOperation]
  have htimed : Timed clock 0 flexRun := ⟨by decide, by decide, trivial⟩
  have hmeets : Meets exec (fun w c => ¬ClosesFlex w c) flexInitialised flexRun := by
    refine ⟨?_, ?_, trivial⟩
    · rintro ⟨_, _, k, _, hexit | hexit⟩ <;> cases hexit
    · rintro ⟨_, _, ⟨user, asset⟩, _, hexit | hexit⟩ <;> cases hexit
  exact (run_checkpointed_iff flexInitialised_initialised hoperations htimed).mpr hmeets flexRun
    (List.prefix_refl _)

/-- An emptied position that still has its checkpoint and counts as eligible. -/
theorem emptied_eligible :
    ∃ s, run exec flexInitialised [(⟨[1], none, 10⟩, .deposit (.account 7) (.account 5) 20_000_000),
        (⟨[1], none, 12⟩, .withdraw (.account 7) (.account 5) 20_000_000)] = .flex s ∧
      s.balance.get (.account 7, .account 5) = none ∧
      s.checkpoint.get (.account 7, .account 5) = some 11 ∧
      isEligibleForYield ⟨[], none, 12⟩ s.checkpoint (.account 7) (.account 5) = true :=
  ⟨_, rfl, rfl, rfl, rfl⟩

end YieldLadder.TierVault
