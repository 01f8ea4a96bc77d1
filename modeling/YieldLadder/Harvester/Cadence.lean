import YieldLadder.Foundation.Machine
import YieldLadder.Harvester.Harvester

/-! # Cadence and conservation of the harvester

Over a run the log of the successful calls tells when the harvests were and what
they paid. A harvest empties the contract, so that everything ever received is
either paid out or still there.
-/
namespace YieldLadder.Harvester
open Foundation

def harvestLedger : Invocation × Reply → Option ℕ
  | ((env, .harvester (.harvest _)), _) => some env.ledger
  | _ => none

def ledgers (l : List (Invocation × Reply)) : List ℕ := l.filterMap harvestLedger

def total (f : Event → ℤ) : List (Invocation × Reply) → ℤ := logSum fun e => (e.2.events.map f).sum

def incoming (self usdc : Address) : Action → ℤ
  | .transfer asset _ dst amount => if asset = usdc ∧ dst = self then amount else 0
  | _ => 0

def received (self usdc : Address) : List (Invocation × Reply) → ℤ := logSum fun e => incoming self usdc e.1.2

/-- A token that lets no one else move what the harvester holds. -/
def Guards (rule : TokenRule) (self : Address) : Prop := ∀ c, rule.grants c self = true → c = self

def Admits (self : Address) (c : Invocation) : Prop := ¬c.1.Authorized self

/-- What one harvest paid: a tenth of a per cent to its caller, the rest to the strategy vault. -/
structure Paid (harvester strategy usdc : Address) (w w' : World) (caller : Address) (reply : Reply) : Prop where
  emptied : w'.tokens usdc harvester = 0
  paid : ∀ holder, holder ≠ harvester → w'.tokens usdc holder = w.tokens usdc holder +
    (if holder = caller then 10 * w.tokens usdc harvester / 10_000 else 0) +
    if holder = strategy then w.tokens usdc harvester - 10 * w.tokens usdc harvester / 10_000 else 0
  otherTokens : ∀ asset holder, asset ≠ usdc → w'.tokens asset holder = w.tokens asset holder
  value : reply.value = .i128 (w.tokens usdc harvester)
  event : ∃ e : Event, reply.events = [e] ∧ e.caller = caller ∧ e.harvested = w.tokens usdc harvester ∧
    e.bounty = 10 * w.tokens usdc harvester / 10_000 ∧ e.bounty + e.remainder = e.harvested

variable {rule : TokenRule} {self strategy usdc caller : Address} {c : ℕ} {env : Env} {w : World}
variable {i : Instance} {l : List (Invocation × Reply)}

/-- The ledgers are spaced by the cooldown, the deployment counting as a harvest at ledger 0. -/
def Spaced (c : ℕ) (ts : List ℕ) : Prop := (0 :: ts).IsChain fun t t' => saturatingAdd t c ≤ t'

/-- What holds of the state and the log of a run from `w₀`. -/
structure Kept (harvester strategy usdc : Address) (c : ℕ) (w₀ w : World) (l : List (Invocation × Reply)) :
    Prop where
  inst : w.inst = some ⟨strategy, usdc, (ledgers l).getLastD 0, c⟩
  held : 0 ≤ w.tokens usdc harvester
  spaced : Spaced c (ledgers l)
  conserved : w₀.tokens usdc harvester + received harvester usdc l =
    total Event.bounty l + total Event.remainder l + w.tokens usdc harvester
  split : total Event.bounty l + total Event.remainder l = total Event.harvested l
  bounded : 1_000 * total Event.bounty l ≤ total Event.harvested l

theorem afterHarvest_paid (hcaller : caller ≠ self) (hs : i.strategy ≠ self) (ledger : ℕ) :
    Paid self i.strategy i.usdc w (afterHarvest self ledger caller w i) caller
      ⟨.i128 (w.tokens i.usdc self), [⟨caller, w.tokens i.usdc self, bountyOf (w.tokens i.usdc self),
        w.tokens i.usdc self - bountyOf (w.tokens i.usdc self)⟩]⟩ := by
  have hb : bountyOf (w.tokens i.usdc self) = 10 * w.tokens i.usdc self / 10_000 := by
    unfold bountyOf BOUNTY_BPS BPS_DENOMINATOR
    rw [mul_comm]
  constructor
  · simp only [afterHarvest]
    rw [Tokens.move_src _ _ hs.symm, Tokens.move_src _ _ hcaller.symm]
    omega
  · intro holder hholder
    simp only [afterHarvest]
    rw [Tokens.move_of_ne_src _ _ hholder, Tokens.move_of_ne_src _ _ hholder, hb]
  · intro asset holder hasset
    simp only [afterHarvest]
    rw [Tokens.move_other_asset _ hasset, Tokens.move_other_asset _ hasset]
  · rfl
  · exact ⟨_, rfl, rfl, rfl, hb, by dsimp only; omega⟩

section Log
variable (l) (x : Invocation × Reply)

theorem ledgers_concat : ledgers (l ++ [x]) = ledgers l ++ (harvestLedger x).toList := by
  simp only [ledgers, List.filterMap_append]
  cases h : harvestLedger x <;> simp [h]

end Log

theorem Spaced.concat {ts : List ℕ} {t : ℕ} (h : Spaced c ts) (ht : saturatingAdd (ts.getLastD 0) c ≤ t) :
    Spaced c (ts ++ [t]) := by
  unfold Spaced
  rw [← List.cons_append, List.isChain_append]
  refine ⟨h, List.isChain_singleton t, ?_⟩
  intro x hx y hy
  rw [List.getLast?_cons, ← List.getLastD_eq_getLast?] at hx
  cases hx
  cases hy
  exact ht

variable {w₀ w' : World} {x : Invocation × Reply} {r : World × Reply} {q : Invocation}

/-- A call that is no harvest, and moves the contract's balance by what it sends there. -/
theorem Kept.quiet (hk : Kept self strategy usdc c w₀ w l) (hl : harvestLedger x = none)
    (he : x.2.events = []) (hi : w'.inst = w.inst) (h0 : 0 ≤ incoming self usdc x.1.2)
    (ht : w'.tokens usdc self = w.tokens usdc self + incoming self usdc x.1.2) :
    Kept self strategy usdc c w₀ w' (l ++ [x]) := by
  have hledgers : ledgers (l ++ [x]) = ledgers l := by rw [ledgers_concat, hl, Option.toList_none, List.append_nil]
  have htotal : ∀ f, total f (l ++ [x]) = total f l := by
    intro f
    rw [total, logSum_concat, he, List.map_nil, List.sum_nil, add_zero]
  have hreceived : received self usdc (l ++ [x]) = received self usdc l + incoming self usdc x.1.2 :=
    logSum_concat _ _ _
  have hheld := hk.held
  have hconserved := hk.conserved
  constructor
  · rw [hi, hk.inst, hledgers]
  · omega
  · exact hledgers ▸ hk.spaced
  · rw [hreceived, htotal, htotal, ht]
    omega
  · rw [htotal, htotal, htotal]
    exact hk.split
  · rw [htotal, htotal]
    exact hk.bounded

theorem harvest_kept (hk : Kept self strategy usdc c w₀ w l) (hself : ¬env.Authorized self)
    (hs : strategy ≠ self) (h : harvest rule self env w caller = .ok r) :
    Kept self strategy usdc c w₀ r.1 (l ++ [((env, .harvester (.harvest caller)), r.2)]) := by
  obtain ⟨ha, rfl⟩ := (harvest_iff hk.inst hself hk.held).mp h
  have hcaller : caller ≠ self := fun heq => hself (heq ▸ ha.authorized)
  have hpaid := afterHarvest_paid (w := w) (i := ⟨strategy, usdc, (ledgers l).getLastD 0, c⟩) hcaller hs
    env.ledger
  have hempty := hpaid.emptied
  have hb := bountyOf_le (w.tokens usdc self)
  have hconserved := hk.conserved
  have hsplit := hk.split
  have hbounded := hk.bounded
  have htotal : ∀ f, total f (l ++ [((env, .harvester (.harvest caller)), ⟨.i128 (w.tokens usdc self),
      [⟨caller, w.tokens usdc self, bountyOf (w.tokens usdc self),
        w.tokens usdc self - bountyOf (w.tokens usdc self)⟩]⟩)]) = total f l +
      f ⟨caller, w.tokens usdc self, bountyOf (w.tokens usdc self),
        w.tokens usdc self - bountyOf (w.tokens usdc self)⟩ := by
    intro f
    rw [total, logSum_concat, List.map_singleton, List.sum_singleton]
  have hreceived : ∀ reply, received self usdc (l ++ [((env, .harvester (.harvest caller)), reply)]) =
      received self usdc l := fun reply => (logSum_concat _ l _).trans (add_zero _)
  have helapsed := ha.elapsed
  rw [nextHarvestLedger_eq hk.inst] at helapsed
  simp only [lastHarvest, hk.inst, Option.map_some, Option.getD_some] at helapsed
  constructor
  · rw [ledgers_concat]
    simp [harvestLedger, afterHarvest]
  · exact hempty.ge
  · rw [ledgers_concat]
    exact hk.spaced.concat helapsed
  · rw [hreceived, htotal, htotal, hempty]
    dsimp only
    omega
  · rw [htotal, htotal, htotal]
    simp only
    omega
  · rw [htotal, htotal]
    simp only
    omega

theorem exec_kept (hk : Kept self strategy usdc c w₀ w l) (hg : Guards rule self) (hs : strategy ≠ self)
    (hq : Admits self q) (h : exec rule self w q = .ok r) :
    Kept self strategy usdc c w₀ r.1 (l ++ [(q, r.2)]) := by
  obtain ⟨env, action⟩ := q
  cases action with
  | harvester call =>
    cases call with
    | initialise _ _ _ =>
      simp [exec, initialise, hk.inst, failIf] at h
    | harvest caller => exact harvest_kept hk hq hs h
    | lastHarvest =>
      obtain rfl := pure_eq_ok.mp h
      exact hk.quiet rfl rfl rfl le_rfl (add_zero _).symm
    | nextHarvestLedger =>
      obtain rfl := pure_eq_ok.mp h
      exact hk.quiet rfl rfl rfl le_rfl (add_zero _).symm
  | transfer asset src dst amount =>
    simp only [exec, bind_eq_ok, Tokens.transfer_eq_ok, pure_eq_ok] at h
    obtain ⟨_, ⟨hallow, h0, _, rfl⟩, rfl⟩ := h
    have hsrc : self ≠ src := by
      rintro rfl
      rcases hallow with hauth | ⟨d, hd, hgrant⟩
      · exact hq hauth
      · exact hq (.inr (hg d hgrant ▸ hd))
    refine hk.quiet rfl rfl rfl ?_ ?_
    · simp only [incoming]
      split <;> omega
    · simp only [incoming]
      by_cases ha : asset = usdc
      · subst ha
        rw [Tokens.move_of_ne_src _ _ hsrc]
        simp [eq_comm]
      · simp [ha, Ne.symm ha]

/-- What holds of a harvest in one state: when it is refused for the cooldown, when it goes through,
what it pays, and that a refused one changes nothing. -/
structure Regular (rule : TokenRule) (harvester strategy usdc : Address) (w : World) : Prop where
  due : ∀ env caller, Admits harvester (env, .harvester (.harvest caller)) → env.Authorized caller →
    IsLeast {t | t < 2 ^ 32 ∧ exec rule harvester w ({ env with ledger := t }, .harvester (.harvest caller)) ≠
      .error cooldownFault} (nextHarvestLedger w)
  accepted : ∀ env caller, Admits harvester (env, .harvester (.harvest caller)) →
    ((∃ r, exec rule harvester w (env, .harvester (.harvest caller)) = .ok r) ↔
      env.Authorized caller ∧ nextHarvestLedger w ≤ env.ledger ∧ InI128 (w.tokens usdc harvester * 10))
  paid : ∀ env caller, Admits harvester (env, .harvester (.harvest caller)) → ∀ r,
    exec rule harvester w (env, .harvester (.harvest caller)) = .ok r →
      Paid harvester strategy usdc w r.1 caller r.2
  rejected : ∀ c e, exec rule harvester w c = .error e → next (exec rule harvester) w c = w

theorem Kept.regular (hk : Kept self strategy usdc c w₀ w l) (hs : strategy ≠ self) :
    Regular rule self strategy usdc w := by
  constructor
  · intro env caller hself hauth
    have hcooldown : ∀ t, exec rule self w ({ env with ledger := t }, .harvester (.harvest caller)) =
        .error cooldownFault ↔ t < nextHarvestLedger w := by
      intro t
      have hself : ¬({ env with ledger := t } : Env).Authorized self := hself
      exact cooldown_iff hk.inst hself hk.held hauth
    refine ⟨⟨?_, ?_⟩, ?_⟩
    · have hle : nextHarvestLedger w ≤ u32Max := saturatingAdd_le _ _
      exact lt_of_le_of_lt hle (by decide)
    · exact (hcooldown _).not.mpr (lt_irrefl _)
    · rintro t ⟨_, ht⟩
      exact not_lt.mp ((hcooldown t).not.mp ht)
  · intro env caller hself
    constructor
    · rintro ⟨r, h⟩
      obtain ⟨hauth, helapsed, hfits⟩ := accepts_of_ok hk.inst h
      exact ⟨hauth, helapsed, hfits⟩
    · rintro ⟨hauth, helapsed, hfits⟩
      have ha : Accepts self env w ⟨strategy, usdc, (ledgers l).getLastD 0, c⟩ caller :=
        ⟨hauth, helapsed, hfits⟩
      exact ⟨_, ha.harvest hk.inst hself hk.held⟩
  · intro env caller hself r h
    obtain ⟨ha, rfl⟩ := (harvest_iff hk.inst hself hk.held).mp h
    have hcaller : caller ≠ self := fun heq => hself (heq ▸ ha.authorized)
    exact afterHarvest_paid (i := ⟨strategy, usdc, (ledgers l).getLastD 0, c⟩) hcaller hs env.ledger
  · intro q e he
    exact next_error he

/-- In every run of a harvester that was just initialised with a cooldown of `c` ledgers: harvests are
spaced by the cooldown, what came in was paid out or is still there, the bounties are at most a
thousandth of what was harvested, and in the state reached a harvest is regular. -/
theorem run_harvests (hg : Guards rule self) (hs : strategy ≠ self) (hc : c < 2 ^ 32)
    (hinit : initialise w₀ strategy usdc c = .ok w) (h0 : 0 ≤ w.tokens usdc self) {cs : List Invocation}
    (hcs : ∀ q ∈ cs, Admits self q) :
    ((∀ t ∈ (ledgers (log (exec rule self) w cs)).head?, c ≤ t) ∧
      (ledgers (log (exec rule self) w cs)).IsChain fun t t' => min (t + c) (2 ^ 32 - 1) ≤ t') ∧
    (w.tokens usdc self + received self usdc (log (exec rule self) w cs) =
        total Event.bounty (log (exec rule self) w cs) + total Event.remainder (log (exec rule self) w cs) +
          (run (exec rule self) w cs).tokens usdc self ∧
      total Event.bounty (log (exec rule self) w cs) + total Event.remainder (log (exec rule self) w cs) =
        total Event.harvested (log (exec rule self) w cs) ∧
      1_000 * total Event.bounty (log (exec rule self) w cs) ≤
        total Event.harvested (log (exec rule self) w cs)) ∧
    Regular rule self strategy usdc (run (exec rule self) w cs) := by
  simp only [initialise, bind_eq_ok, pure_eq_ok] at hinit
  obtain ⟨_, _, rfl⟩ := hinit
  have hstart : Kept self strategy usdc c { w₀ with inst := some ⟨strategy, usdc, 0, c⟩ }
      { w₀ with inst := some ⟨strategy, usdc, 0, c⟩ } [] :=
    ⟨rfl, h0, List.isChain_singleton 0, by simp [received, total], rfl, le_rfl⟩
  have hm : Meets (exec rule self) (fun _ q => Admits self q)
      { w₀ with inst := some ⟨strategy, usdc, 0, c⟩ } cs := meets_of_forall hcs
  have hk := run_log_invariant_of_meets (I := Kept self strategy usdc c _)
    (fun _ _ _ _ hq hk h => exec_kept hk hg hs hq h) hstart hm
  have hspaced := List.isChain_cons.mp hk.spaced
  refine ⟨⟨?_, hspaced.2⟩, ⟨hk.conserved, hk.split, hk.bounded⟩, hk.regular hs⟩
  intro t ht
  have hle : min (0 + c) u32Max ≤ t := hspaced.1 t ht
  have hmin : min (0 + c) u32Max = c := by
    rw [zero_add]
    exact min_eq_left (Nat.le_of_lt_succ hc)
  exact hmin ▸ hle

/-- A harvester with a cooldown of 10 ledgers; account 7 holds 1 USDC. -/
def harvesterWorld : World where
  inst := some ⟨.contract 1, .contract 5, 0, 10⟩
  tokens asset holder := if asset = .contract 5 ∧ holder = .account 7 then 10_000_000 else 0

/-- Account 7 sends 0.1 USDC to the harvester, contract 0, and account 8 harvests, twice too early. -/
def harvesterRun : List Invocation :=
  [(⟨[7], none, 3⟩, .transfer (.contract 5) (.account 7) (.contract 0) 1_000_000),
   (⟨[8], none, 9⟩, .harvester (.harvest (.account 8))),
   (⟨[8], none, 10⟩, .harvester (.harvest (.account 8))),
   (⟨[8], none, 19⟩, .harvester (.harvest (.account 8))),
   (⟨[8], none, 20⟩, .harvester (.harvest (.account 8)))]

example : ledgers (log (exec .host (.contract 0)) harvesterWorld harvesterRun) = [10, 20] := by decide

theorem run_harvests_twice :
    1_000_000 = total Event.bounty (log (exec .host (.contract 0)) harvesterWorld harvesterRun) +
        total Event.remainder (log (exec .host (.contract 0)) harvesterWorld harvesterRun) ∧
      Regular .host (.contract 0) (.contract 1) (.contract 5)
        (run (exec .host (.contract 0)) harvesterWorld harvesterRun) := by
  have hg : Guards .host (.contract 0) := by
    intro c h
    cases h
  have hinit : initialise ⟨none, harvesterWorld.tokens⟩ (.contract 1) (.contract 5) 10 =
      .ok harvesterWorld := rfl
  have hcs : ∀ q ∈ harvesterRun, Admits (.contract 0) q := by
    simp [harvesterRun, Admits, Env.authorized_contract]
  obtain ⟨_, ⟨hconserved, _⟩, hregular⟩ :=
    run_harvests hg (by decide) (by decide) hinit (by decide) hcs
  have hreceived : received (.contract 0) (.contract 5)
      (log (exec .host (.contract 0)) harvesterWorld harvesterRun) = 1_000_000 := by decide
  have hleft : (run (exec .host (.contract 0)) harvesterWorld harvesterRun).tokens (.contract 5)
      (.contract 0) = 0 := by decide
  have hstart : harvesterWorld.tokens (.contract 5) (.contract 0) = 0 := rfl
  rw [hreceived, hleft, hstart] at hconserved
  exact ⟨by omega, hregular⟩

end YieldLadder.Harvester
