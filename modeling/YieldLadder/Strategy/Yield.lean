import YieldLadder.Harvester.Cadence
import YieldLadder.Strategy.Custody

/-! # The harvester and the strategy vault together

A harvest pays into the strategy vault, whose capital goes out at the call of a registered tier vault
or of its harvester. The contracts of the protocol that are meant for these roles export nothing that
calls the strategy vault. With the roles in the hands of such contracts, what comes in to the two
contracts stays in the vault, but for the bounties.
-/
namespace YieldLadder
open Foundation
open StrategyVault (Mandate)

/-- The storage of the two contracts, and the tokens. -/
structure Yield where
  harvester : Option Harvester.Instance
  strategy : Option StrategyVault.Instance
  tokens : Tokens

namespace Yield

inductive Action
  | harvester (call : Harvester.Call)
  | strategy (call : StrategyVault.Call)
  | transfer (asset src dst : Address) (amount : ℤ)

abbrev Invocation := Env × Action

/-- A call of one of the two contracts, or a transfer, with the `harvest` events. -/
def exec (rule : TokenRule) (harvester strategy : Address) (y : Yield) (c : Invocation) :
    Except Fault (Yield × List Harvester.Event) :=
  match c.2 with
  | .harvester call => do
    let r ← Harvester.exec rule harvester ⟨y.harvester, y.tokens⟩ (c.1, .harvester call)
    pure (⟨r.1.inst, y.strategy, r.1.tokens⟩, r.2.events)
  | .strategy call => do
    let r ← StrategyVault.step rule strategy c.1 ⟨y.strategy, y.tokens⟩ call
    pure (⟨y.harvester, r.1.inst, r.1.tokens⟩, [])
  | .transfer asset src dst amount => do
    let tokens ← Tokens.transfer rule c.1 y.tokens asset src dst amount
    pure ({ y with tokens }, [])

def total (f : Harvester.Event → ℤ) : List (Invocation × List Harvester.Event) → ℤ :=
  logSum fun e => (e.2.map f).sum

def incoming (harvester strategy usdc : Address) : Action → ℤ
  | .transfer asset _ dst amount => if asset = usdc ∧ (dst = harvester ∨ dst = strategy) then amount else 0
  | _ => 0

def received (harvester strategy usdc : Address) : List (Invocation × List Harvester.Event) → ℤ :=
  logSum fun e => incoming harvester strategy usdc e.1.2

def Mute (mute : Set ℕ) (a : Address) : Prop := ∃ n ∈ mute, a = .contract n

/-- The contracts that make no calls make none, and only they are given the roles. -/
structure Admits (mute : Set ℕ) (c : Invocation) : Prop where
  caller : ∀ n ∈ mute, c.1.caller ≠ some (.contract n)
  register : ∀ vault, c.2 = .strategy (.registerTierVault vault) → Mute mute vault
  appoint : ∀ harvester, c.2 = .strategy (.setHarvester harvester) → Mute mute harvester

/-- The roles are in the hands of contracts that make no calls. -/
structure Muted (mute : Set ℕ) (k : Mandate) : Prop where
  tierVaults : ∀ vault ∈ k.tierVaults, Mute mute vault
  harvester : ∀ harvester, k.harvester = some harvester → Mute mute harvester

variable {rule : TokenRule} {m n : ℕ} {mute : Set ℕ} {y y₀ : Yield} {c : Invocation} {usdc : Address}
variable {r : Yield × List Harvester.Event} {l : List (Invocation × List Harvester.Event)} {k : Mandate}
variable {env : Env} {call : StrategyVault.Call}

theorem Admits.unauthorized {a : Address} (hc : Admits mute c) (ha : Mute mute a) : ¬c.1.Authorized a := by
  obtain ⟨n, hn, rfl⟩ := ha
  rw [Env.authorized_contract]
  exact hc.caller n hn

/-- With muted roles the calls that move capital are not within the mandate. -/
theorem Muted.within {value : StrategyVault.Value} (hk : Muted mute k) (hc : Admits mute c)
    (hcall : c.2 = .strategy call) (h : k.Within c.1 value call) :
    call ≠ .rebalance ∧ (∀ caller amount, call ≠ .depositCapital caller amount) ∧
      (∀ caller amount, call ≠ .withdrawCapital caller amount) ∧ Muted mute (k.after call) := by
  cases call with
  | rebalance =>
    obtain ⟨harvester, hharvester, hauth⟩ := h
    exact absurd hauth (hc.unauthorized (hk.harvester _ hharvester))
  | depositCapital caller amount => exact absurd h.2.1 (hc.unauthorized (hk.tierVaults _ h.1))
  | withdrawCapital caller amount => exact absurd h.2.1 (hc.unauthorized (hk.tierVaults _ h.1))
  | setHarvester harvester =>
    refine ⟨by simp, by simp, by simp, hk.tierVaults, ?_⟩
    intro a ha
    obtain rfl := Option.some.inj ha
    exact hc.appoint _ hcall
  | registerTierVault vault =>
    refine ⟨by simp, by simp, by simp, ?_, hk.harvester⟩
    rintro a (rfl | ha)
    · exact hc.register _ hcall
    · exact hk.tierVaults a ha
  | _ => exact ⟨by simp, by simp, by simp, hk.tierVaults, hk.harvester⟩

/-- What holds of the state and the log of a run from `y₀`. -/
structure Hoarded (m n : ℕ) (mute : Set ℕ) (usdc : Address) (y₀ y : Yield)
    (l : List (Invocation × List Harvester.Event)) : Prop where
  harvester : ∃ i, y.harvester = some i ∧ i.strategy = .contract n ∧ i.usdc = usdc
  mandate : ∃ k, Mandate.Held y.strategy k ∧ Muted mute k
  held : 0 ≤ y.tokens usdc (.contract m)
  conserved : y₀.tokens usdc (.contract m) + y₀.tokens usdc (.contract n) +
      received (.contract m) (.contract n) usdc l =
    y.tokens usdc (.contract m) + y.tokens usdc (.contract n) + total Harvester.Event.bounty l
  grows : ∀ asset, y₀.tokens asset (.contract n) ≤ y.tokens asset (.contract n)
  bounded : 1_000 * total Harvester.Event.bounty l ≤ total Harvester.Event.harvested l

/-- A call without `harvest` events, which adds to the two contracts what it sends there. -/
theorem Hoarded.quiet {y' : Yield} (h : Hoarded m n mute usdc y₀ y l) (hharvester : y'.harvester = y.harvester)
    (hmandate : ∃ k, Mandate.Held y'.strategy k ∧ Muted mute k)
    (hm : y.tokens usdc (.contract m) ≤ y'.tokens usdc (.contract m))
    (hn : ∀ asset, y.tokens asset (.contract n) ≤ y'.tokens asset (.contract n))
    (hsum : y'.tokens usdc (.contract m) + y'.tokens usdc (.contract n) =
      y.tokens usdc (.contract m) + y.tokens usdc (.contract n) +
        incoming (.contract m) (.contract n) usdc c.2) :
    Hoarded m n mute usdc y₀ y' (l ++ [(c, [])]) := by
  have htotal : ∀ f, total f (l ++ [(c, [])]) = total f l := by
    intro f
    rw [total, logSum_concat, List.map_nil, List.sum_nil, add_zero]
  have hreceived : received (.contract m) (.contract n) usdc (l ++ [(c, [])]) =
      received (.contract m) (.contract n) usdc l + incoming (.contract m) (.contract n) usdc c.2 :=
    logSum_concat _ _ _
  have hconserved := h.conserved
  refine ⟨hharvester ▸ h.harvester, hmandate, h.held.trans hm, ?_,
    fun asset => (h.grows asset).trans (hn asset), ?_⟩
  · rw [hreceived, htotal]
    omega
  · rw [htotal, htotal]
    exact h.bounded

/-- A harvest moves what the harvester holds into the vault, but for the bounty. -/
theorem Hoarded.harvest {caller : Address} {q : Harvester.World × Harvester.Reply}
    (h : Hoarded m n mute usdc y₀ y l) (hmn : m ≠ n) (hm : m ∈ mute) (hn : n ∈ mute)
    (hc : Admits mute (env, .harvester (.harvest caller)))
    (hq : Harvester.harvest rule (.contract m) env ⟨y.harvester, y.tokens⟩ caller = .ok q) :
    Hoarded m n mute usdc y₀ ⟨q.1.inst, y.strategy, q.1.tokens⟩
      (l ++ [((env, .harvester (.harvest caller)), q.2.events)]) := by
  obtain ⟨i, hi, hstrategy, rfl⟩ := h.harvester
  have hself : ¬env.Authorized (.contract m) := hc.unauthorized ⟨m, hm, rfl⟩
  obtain ⟨haccepts, rfl⟩ := (Harvester.harvest_iff hi hself h.held).mp hq
  have hcaller : ∀ a ∈ mute, caller ≠ .contract a := by
    rintro a ha rfl
    exact hc.unauthorized ⟨a, ha, rfl⟩ haccepts.authorized
  have hvault : i.strategy ≠ .contract m := by
    rw [hstrategy]
    intro heq
    cases heq
    exact hmn rfl
  have hpaid := Harvester.afterHarvest_paid (w := ⟨y.harvester, y.tokens⟩) (hcaller m hm) hvault env.ledger
  have hempty := hpaid.emptied
  have hn_ne : Address.contract n ≠ .contract m := hstrategy ▸ hvault
  have hgain := hpaid.paid (.contract n) hn_ne
  rw [if_neg (hcaller n hn).symm, if_pos hstrategy.symm, add_zero] at hgain
  dsimp only at hempty hgain
  have hbounty : Harvester.bountyOf (y.tokens i.usdc (.contract m)) = 10 * y.tokens i.usdc (.contract m) / 10_000 := by
    unfold Harvester.bountyOf Harvester.BOUNTY_BPS Harvester.BPS_DENOMINATOR
    rw [mul_comm]
  have hreceived : ∀ events, received (.contract m) (.contract n) i.usdc
      (l ++ [((env, .harvester (.harvest caller)), events)]) = received (.contract m) (.contract n) i.usdc l :=
    fun events => (logSum_concat _ l _).trans (add_zero _)
  have htotal : ∀ f event, total f (l ++ [((env, .harvester (.harvest caller)), [event])]) = total f l + f event := by
    intro f event
    rw [total, logSum_concat, List.map_singleton, List.sum_singleton]
  have hsmall := Harvester.bountyOf_le (y.tokens i.usdc (.contract m))
  have hheld := h.held
  have hconserved := h.conserved
  have hbounded := h.bounded
  refine ⟨⟨_, rfl, hstrategy, rfl⟩, h.mandate, hempty.ge, ?_, fun asset => ?_, ?_⟩
  · rw [hreceived, htotal]
    dsimp only
    rw [hempty, hgain]
    omega
  · refine (h.grows asset).trans ?_
    by_cases hasset : asset = i.usdc
    · subst hasset
      dsimp only
      omega
    · exact (hpaid.otherTokens asset (.contract n) hasset).ge
  · rw [htotal, htotal]
    dsimp only
    omega

/-- A call of the strategy vault that goes through leaves the tokens, the calls that move them being refused. -/
theorem Hoarded.strategy {q : StrategyVault.World × StrategyVault.Value} (h : Hoarded m n mute usdc y₀ y l)
    (hc : Admits mute (env, .strategy call))
    (hq : StrategyVault.step rule (.contract n) env ⟨y.strategy, y.tokens⟩ call = .ok q) :
    Hoarded m n mute usdc y₀ ⟨y.harvester, q.1.inst, q.1.tokens⟩ (l ++ [((env, .strategy call), [])]) := by
  obtain ⟨k, hheld, hmuted⟩ := h.mandate
  obtain ⟨hwithin, hnext⟩ := StrategyVault.step_within hheld hq
  obtain ⟨hrebalance, hdeposit, hwithdraw, hafter⟩ := hmuted.within hc rfl hwithin
  have htokens : q.1.tokens = y.tokens := StrategyVault.step_tokens hq hdeposit hwithdraw hrebalance
  rw [htokens]
  exact h.quiet rfl ⟨_, hnext, hafter⟩ le_rfl (fun _ => le_rfl) (add_zero _).symm

theorem Hoarded.transfer {asset src dst : Address} {amount : ℤ} (h : Hoarded m n mute usdc y₀ y l)
    (hmn : m ≠ n) (hm : src ≠ .contract m) (hn : src ≠ .contract n) (h0 : 0 ≤ amount) :
    Hoarded m n mute usdc y₀ { y with tokens := y.tokens.move asset src dst amount }
      (l ++ [((env, .transfer asset src dst amount), [])]) := by
  have hle : ∀ a holder, src ≠ holder → y.tokens a holder ≤ y.tokens.move asset src dst amount a holder :=
    fun a holder hne => StrategyVault.move_le hne asset dst h0
  refine h.quiet rfl h.mandate (hle usdc _ hm) (fun a => hle a _ hn) ?_
  simp only [incoming]
  by_cases ha : asset = usdc
  · subst ha
    rw [Tokens.move_of_ne_src _ _ hm.symm, Tokens.move_of_ne_src _ _ hn.symm]
    by_cases hdm : dst = .contract m
    · subst hdm
      simp [hmn.symm]
      omega
    · by_cases hdn : dst = .contract n
      · subst hdn
        simp [hmn.symm]
        omega
      · simp [hdm, hdn, Ne.symm hdm, Ne.symm hdn]
  · rw [Tokens.move_other_asset _ (Ne.symm ha), Tokens.move_other_asset _ (Ne.symm ha)]
    simp [ha]

/-- A token that lets no one else move what the two contracts hold. -/
def Guards (rule : TokenRule) (m n : ℕ) : Prop :=
  ∀ c, rule.grants c (.contract m) = false ∧ rule.grants c (.contract n) = false

theorem exec_hoarded (h : Hoarded m n mute usdc y₀ y l) (hmn : m ≠ n) (hm : m ∈ mute) (hn : n ∈ mute)
    (hg : Guards rule m n) (hc : Admits mute c) (hr : exec rule (.contract m) (.contract n) y c = .ok r) :
    Hoarded m n mute usdc y₀ r.1 (l ++ [(c, r.2)]) := by
  obtain ⟨env, action⟩ := c
  cases action with
  | harvester call =>
    simp only [exec, bind_eq_ok, pure_eq_ok] at hr
    obtain ⟨q, hq, rfl⟩ := hr
    cases call with
    | initialise strategy usdc cooldown =>
      obtain ⟨i, hi, _⟩ := h.harvester
      simp [Harvester.exec, Harvester.initialise, hi, failIf] at hq
    | harvest caller => exact h.harvest hmn hm hn hc hq
    | lastHarvest =>
      obtain rfl := pure_eq_ok.mp hq
      exact h.quiet rfl h.mandate le_rfl (fun _ => le_rfl) (add_zero _).symm
    | nextHarvestLedger =>
      obtain rfl := pure_eq_ok.mp hq
      exact h.quiet rfl h.mandate le_rfl (fun _ => le_rfl) (add_zero _).symm
  | strategy call =>
    simp only [exec, bind_eq_ok, pure_eq_ok] at hr
    obtain ⟨q, hq, rfl⟩ := hr
    exact h.strategy hc hq
  | transfer asset src dst amount =>
    simp only [exec, bind_eq_ok, Tokens.transfer_eq_ok, pure_eq_ok] at hr
    obtain ⟨_, ⟨hallow, h0, _, rfl⟩, rfl⟩ := hr
    have hmuted : ∀ a ∈ mute, (∀ b, rule.grants b (.contract a) = false) → src ≠ .contract a := by
      rintro a ha hgrants rfl
      rcases hallow with hauth | ⟨b, _, hgrant⟩
      · exact hc.unauthorized ⟨a, ha, rfl⟩ hauth
      · rw [hgrants b] at hgrant
        cases hgrant
    exact h.transfer hmn (hmuted m hm fun b => (hg b).1) (hmuted n hn fun b => (hg b).2) h0

/-- With the roles of the strategy vault in the hands of contracts that make no calls: in every run of harvests, calls
of the strategy vault and transfers, no capital is deposited, withdrawn or rebalanced; the balance of the vault never
falls; and what the two contracts had and were sent is what they have, but for the bounties, which are at most a
thousandth of what was harvested. -/
theorem run_hoarded {i : Harvester.Instance} (hmn : m ≠ n) (hm : m ∈ mute) (hn : n ∈ mute) (hg : Guards rule m n)
    (hi : y.harvester = some i) (hstrategy : i.strategy = .contract n) (hk : Mandate.Held y.strategy k)
    (hmuted : Muted mute k) (h0 : 0 ≤ y.tokens i.usdc (.contract m)) {cs : List Invocation}
    (hcs : ∀ c ∈ cs, Admits mute c) :
    let now := run (exec rule (.contract m) (.contract n)) y cs
    let l := log (exec rule (.contract m) (.contract n)) y cs
    (∀ c call, Admits mute c → c.2 = .strategy call →
      (call = .rebalance ∨ (∃ caller amount, call = .depositCapital caller amount) ∨
        ∃ caller amount, call = .withdrawCapital caller amount) →
      ∀ r, exec rule (.contract m) (.contract n) now c ≠ .ok r) ∧
    (∀ asset, y.tokens asset (.contract n) ≤ now.tokens asset (.contract n)) ∧
    y.tokens i.usdc (.contract m) + y.tokens i.usdc (.contract n) +
        received (.contract m) (.contract n) i.usdc l =
      now.tokens i.usdc (.contract m) + now.tokens i.usdc (.contract n) + total Harvester.Event.bounty l ∧
    1_000 * total Harvester.Event.bounty l ≤ total Harvester.Event.harvested l := by
  intro now l
  have hstart : Hoarded m n mute i.usdc y y [] :=
    ⟨⟨i, hi, hstrategy, rfl⟩, ⟨k, hk, hmuted⟩, h0, by simp [received, total], fun _ => le_rfl, le_rfl⟩
  have hall : Meets (exec rule (.contract m) (.contract n)) (fun _ c => Admits mute c) y cs := meets_of_forall hcs
  have hrun := run_log_invariant_of_meets (I := Hoarded m n mute i.usdc y)
    (fun _ _ _ _ hc h hr => exec_hoarded h hmn hm hn hg hc hr) hstart hall
  refine ⟨?_, hrun.grows, hrun.conserved, hrun.bounded⟩
  rintro ⟨env, action⟩ call hc rfl hmoves r hr
  obtain ⟨k', hheld, hmuted'⟩ := hrun.mandate
  simp only [exec, bind_eq_ok, pure_eq_ok] at hr
  obtain ⟨q, hq, rfl⟩ := hr
  obtain ⟨hwithin, _⟩ := StrategyVault.step_within hheld hq
  obtain ⟨hrebalance, hdeposit, hwithdraw, _⟩ := hmuted'.within hc rfl hwithin
  rcases hmoves with rfl | ⟨caller, amount, rfl⟩ | ⟨caller, amount, rfl⟩
  · exact hrebalance rfl
  · exact hdeposit caller amount rfl
  · exact hwithdraw caller amount rfl

def protocolContracts : Set ℕ := {0, 1, 2}

/-- The harvester is set up, the strategy vault is not; account 7 holds 1 USDC, the token being contract 5. -/
def deployed : Yield where
  harvester := some ⟨.contract 1, .contract 5, 0, 10⟩
  strategy := none
  tokens asset holder := if asset = .contract 5 ∧ holder = .account 7 then 10_000_000 else 0

/-- The admin gives the roles to contracts 0 and 2, account 8 harvests what account 7 sent, and the admin cannot
rebalance. -/
def harvestedOnce : List Invocation :=
  [(⟨[], none, 1⟩, .strategy (.initialise (.account 1) (.contract 5))),
   (⟨[1], none, 2⟩, .strategy (.setHarvester (.contract 0))),
   (⟨[1], none, 3⟩, .strategy (.registerTierVault (.contract 2))),
   (⟨[7], none, 4⟩, .transfer (.contract 5) (.account 7) (.contract 0) 1_000_000),
   (⟨[8], none, 12⟩, .harvester (.harvest (.account 8))),
   (⟨[1], none, 13⟩, .strategy .rebalance)]

theorem admits_harvestedOnce : ∀ c ∈ harvestedOnce, Admits protocolContracts c := by
  have hcaller : ∀ c ∈ harvestedOnce, c.1.caller = none := by decide
  intro c hc
  refine ⟨fun n _ => ?_, ?_, ?_⟩
  · rw [hcaller c hc]
    simp
  all_goals
    simp only [harvestedOnce, List.mem_cons, List.not_mem_nil, or_false] at hc
    rcases hc with rfl | rfl | rfl | rfl | rfl | rfl <;> simp [Mute, protocolContracts]

example : (log (exec .host (.contract 0) (.contract 1)) deployed harvestedOnce).length = 5 := by decide

theorem run_hoarded_harvestedOnce :
    (run (exec .host (.contract 0) (.contract 1)) deployed harvestedOnce).tokens (.contract 5) (.contract 0) +
        (run (exec .host (.contract 0) (.contract 1)) deployed harvestedOnce).tokens (.contract 5) (.contract 1) =
      999_000 := by
  have hg : Guards .host 0 1 := fun _ => ⟨rfl, rfl⟩
  have hmuted : Muted protocolContracts .blank := ⟨by simp [Mandate.blank], by simp [Mandate.blank]⟩
  obtain ⟨_, _, hconserved, _⟩ := run_hoarded (y := deployed) (by decide) (by simp [protocolContracts])
    (by simp [protocolContracts]) hg rfl rfl Mandate.held_blank hmuted le_rfl admits_harvestedOnce
  have hbounty : total Harvester.Event.bounty
      (log (exec .host (.contract 0) (.contract 1)) deployed harvestedOnce) = 1_000 := by decide
  have hreceived : received (.contract 0) (.contract 1) (.contract 5)
      (log (exec .host (.contract 0) (.contract 1)) deployed harvestedOnce) = 1_000_000 := by decide
  have hstart : deployed.tokens (.contract 5) (.contract 0) + deployed.tokens (.contract 5) (.contract 1) = 0 := rfl
  dsimp only at hconserved
  rw [hbounty, hstart, hreceived] at hconserved
  omega

end Yield
end YieldLadder
