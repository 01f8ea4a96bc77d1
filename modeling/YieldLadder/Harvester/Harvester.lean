import Mathlib.Order.Bounds.Basic
import YieldLadder.Soroban.Token

/-! # The harvester

Anyone may harvest once the cooldown since the last harvest has elapsed: a tenth of
a per cent of what the contract holds goes to the caller as a bounty, the rest to
the strategy vault. The cooldown is a `u32` sum that saturates.
-/
namespace YieldLadder.Harvester
open Foundation

def BOUNTY_BPS : ℤ := 10
def BPS_DENOMINATOR : ℤ := 10_000

def u32Max : ℕ := 2 ^ 32 - 1

def saturatingAdd (a b : ℕ) : ℕ := min (a + b) u32Max

def checkedMul (a b : ℤ) : Option ℤ := if InI128 (a * b) then some (a * b) else none

/-- The instance storage `initialize` writes. -/
structure Instance where
  strategy : Address
  usdc : Address
  lastHarvestLedger : ℕ
  cooldownLedgers : ℕ
  deriving DecidableEq, Repr

structure World where
  inst : Option Instance
  tokens : Tokens

/-- The data of a `harvest` event. -/
structure Event where
  caller : Address
  harvested : ℤ
  bounty : ℤ
  remainder : ℤ
  deriving DecidableEq, Repr

inductive Value
  | unit
  | i128 (x : ℤ)
  | u32 (x : ℕ)
  deriving DecidableEq, Repr

structure Reply where
  value : Value
  events : List Event
  deriving DecidableEq, Repr

def initialise (w : World) (strategy usdc : Address) (cooldownLedgers : ℕ) : Except Fault World := do
  failIf (w.inst.isSome = true) (.panic "already initialized")
  pure { w with inst := some ⟨strategy, usdc, 0, cooldownLedgers⟩ }

def lastHarvest (w : World) : ℕ := (w.inst.map Instance.lastHarvestLedger).getD 0

def nextHarvestLedger (w : World) : ℕ :=
  saturatingAdd (lastHarvest w) ((w.inst.map Instance.cooldownLedgers).getD 0)

def cooldownFault : Fault := .panic "cooldown not elapsed"

variable (rule : TokenRule) (self : Address)

/-- Both payouts are made when they are positive. -/
def send (env : Env) (tokens : Tokens) (usdc dst : Address) (amount : ℤ) : Except Fault Tokens :=
  if amount > 0 then Tokens.transfer rule (env.calledBy self) tokens usdc self dst amount
  else pure tokens

def harvest (env : Env) (w : World) (caller : Address) : Except Fault (World × Reply) := do
  env.requireAuth caller
  let last := lastHarvest w
  let i ← expect (.panic "not initialized") w.inst
  failIf (env.ledger < saturatingAdd last i.cooldownLedgers) cooldownFault
  let harvested := w.tokens i.usdc self
  if harvested = 0 then
    pure ({ w with inst := some { i with lastHarvestLedger := env.ledger } },
      ⟨.i128 0, [⟨caller, 0, 0, 0⟩]⟩)
  else do
    let product ← expect (.panic "bounty mul overflow") (checkedMul harvested BOUNTY_BPS)
    let bounty ← divI128 product BPS_DENOMINATOR
    let remainder ← subI128 harvested bounty
    let tokens ← send rule self env w.tokens i.usdc caller bounty
    let tokens ← send rule self env tokens i.usdc i.strategy remainder
    pure (⟨some { i with lastHarvestLedger := env.ledger }, tokens⟩,
      ⟨.i128 harvested, [⟨caller, harvested, bounty, remainder⟩]⟩)

inductive Call
  | initialise (strategy usdc : Address) (cooldownLedgers : ℕ)
  | harvest (caller : Address)
  | lastHarvest
  | nextHarvestLedger
  deriving DecidableEq, Repr

/-- What can be called from outside: the harvester or a token transfer. -/
inductive Action
  | harvester (call : Call)
  | transfer (asset src dst : Address) (amount : ℤ)
  deriving DecidableEq, Repr

abbrev Invocation := Env × Action

def exec (w : World) : Invocation → Except Fault (World × Reply)
  | (_, .harvester (.initialise strategy usdc cooldownLedgers)) => do
    let w' ← initialise w strategy usdc cooldownLedgers
    pure (w', ⟨.unit, []⟩)
  | (env, .harvester (.harvest caller)) => harvest rule self env w caller
  | (_, .harvester .lastHarvest) => pure (w, ⟨.u32 (lastHarvest w), []⟩)
  | (_, .harvester .nextHarvestLedger) => pure (w, ⟨.u32 (nextHarvestLedger w), []⟩)
  | (env, .transfer asset src dst amount) => do
    let tokens ← Tokens.transfer rule env w.tokens asset src dst amount
    pure ({ w with tokens }, ⟨.unit, []⟩)

/-- The bounty on a harvest: 10 bps, rounded down. -/
def bountyOf (harvested : ℤ) : ℤ := harvested * BOUNTY_BPS / BPS_DENOMINATOR

def afterHarvest (ledger : ℕ) (caller : Address) (w : World) (i : Instance) : World where
  inst := some { i with lastHarvestLedger := ledger }
  tokens := (w.tokens.move i.usdc self caller (bountyOf (w.tokens i.usdc self))).move i.usdc self i.strategy
    (w.tokens i.usdc self - bountyOf (w.tokens i.usdc self))

variable {rule self} {env : Env} {w : World} {i : Instance} {caller : Address} {h : ℤ}

@[simp] theorem checkedMul_eq_some {a b y : ℤ} : checkedMul a b = some y ↔ InI128 (a * b) ∧ a * b = y := by
  unfold checkedMul
  split <;> simp_all

theorem saturatingAdd_le (a b : ℕ) : saturatingAdd a b ≤ u32Max := min_le_right _ _

theorem bountyOf_nonneg (h0 : 0 ≤ h) : 0 ≤ bountyOf h :=
  Int.ediv_nonneg (Int.mul_nonneg h0 (by decide)) (by decide)

theorem bountyOf_le (h : ℤ) : 1_000 * bountyOf h ≤ h := by
  unfold bountyOf BOUNTY_BPS BPS_DENOMINATOR
  omega

theorem bounty_eq (h0 : 0 ≤ h) : (h * BOUNTY_BPS).tdiv BPS_DENOMINATOR = bountyOf h :=
  Int.tdiv_eq_ediv_of_nonneg (Int.mul_nonneg h0 (by decide))

theorem send_eq_ok {tokens t' : Tokens} {usdc dst : Address} {x : ℤ} (h0 : 0 ≤ x)
    (hx : x ≤ tokens usdc self) :
    send rule self env tokens usdc dst x = .ok t' ↔ t' = tokens.move usdc self dst x := by
  have hallow : rule.Allows (env.calledBy self) self := .inl (env.authorized_calledBy self)
  unfold send
  split
  · simp only [Tokens.transfer_eq_ok, hallow, h0, hx, true_and]
    exact eq_comm
  · next hpos =>
    obtain rfl : x = 0 := le_antisymm (not_lt.mp hpos) h0
    rw [Tokens.move_zero, pure_eq_ok]
    exact eq_comm

/-- What a harvest asks: the caller's signature, the cooldown elapsed, and ten times the yield in range. -/
structure Accepts (harvester : Address) (env : Env) (w : World) (i : Instance) (caller : Address) : Prop where
  authorized : env.Authorized caller
  elapsed : nextHarvestLedger w ≤ env.ledger
  fits : InI128 (w.tokens i.usdc harvester * BOUNTY_BPS)

theorem nextHarvestLedger_eq (hi : w.inst = some i) :
    nextHarvestLedger w = saturatingAdd (lastHarvest w) i.cooldownLedgers := by
  simp [nextHarvestLedger, hi]

theorem Accepts.harvest (ha : Accepts self env w i caller) (hi : w.inst = some i)
    (hself : ¬env.Authorized self) (h0 : 0 ≤ w.tokens i.usdc self) :
    harvest rule self env w caller = .ok (afterHarvest self env.ledger caller w i,
      ⟨.i128 (w.tokens i.usdc self), [⟨caller, w.tokens i.usdc self, bountyOf (w.tokens i.usdc self),
        w.tokens i.usdc self - bountyOf (w.tokens i.usdc self)⟩]⟩) := by
  have hwait : ¬env.ledger < saturatingAdd (lastHarvest w) i.cooldownLedgers :=
    not_lt.mpr (nextHarvestLedger_eq hi ▸ ha.elapsed)
  have hcaller : self ≠ caller := fun heq => hself (heq ▸ ha.authorized)
  have hb0 := bountyOf_nonneg h0
  have hb := bountyOf_le (w.tokens i.usdc self)
  unfold Harvester.harvest
  simp only [bind_eq_ok, Env.requireAuth_eq_ok, expect_eq_ok, failIf_eq_ok]
  refine ⟨(), ha.authorized, i, hi, (), hwait, ?_⟩
  split
  · next hzero =>
    have hzero' : bountyOf 0 = 0 := rfl
    rw [pure_eq_ok, afterHarvest, hzero, hzero', sub_zero, Tokens.move_zero, Tokens.move_zero]
  · simp only [bind_eq_ok, expect_eq_ok, checkedMul_eq_some, divI128_eq_ok, subI128_eq_ok]
    have hfits := ha.fits
    unfold BOUNTY_BPS at hfits
    have hquotient : InI128 (bountyOf (w.tokens i.usdc self)) := inI128_of_le hb0 (by omega) hfits
    have hrest : InI128 (w.tokens i.usdc self - bountyOf (w.tokens i.usdc self)) :=
      inI128_of_le (by omega) (by omega) hfits
    have hleft := Tokens.move_src w.tokens i.usdc hcaller (bountyOf (w.tokens i.usdc self))
    exact ⟨_, ⟨ha.fits, rfl⟩, _, ⟨by decide, (bounty_eq h0).symm ▸ hquotient, bounty_eq h0⟩, _, ⟨hrest, rfl⟩,
      _, (send_eq_ok hb0 (by omega)).mpr rfl, _, (send_eq_ok (by omega) hleft.ge).mpr rfl, rfl⟩

theorem accepts_of_ok (hi : w.inst = some i) {r : World × Reply}
    (h : harvest rule self env w caller = .ok r) : Accepts self env w i caller := by
  simp only [harvest, bind_eq_ok, Env.requireAuth_eq_ok, expect_eq_ok, failIf_eq_ok, not_lt] at h
  obtain ⟨_, hauth, j, hj, _, hwait, h⟩ := h
  obtain rfl : i = j := Option.some.inj (hi.symm.trans hj)
  refine ⟨hauth, nextHarvestLedger_eq hi ▸ hwait, ?_⟩
  split at h
  · next hzero =>
    rw [hzero]
    decide
  · simp only [bind_eq_ok, expect_eq_ok, checkedMul_eq_some] at h
    obtain ⟨_, ⟨hfits, _⟩, _⟩ := h
    exact hfits

/-- A harvest goes through exactly when it is accepted, and leaves exactly this world. -/
theorem harvest_iff (hi : w.inst = some i) (hself : ¬env.Authorized self)
    (h0 : 0 ≤ w.tokens i.usdc self) {r : World × Reply} :
    harvest rule self env w caller = .ok r ↔ Accepts self env w i caller ∧
      r = (afterHarvest self env.ledger caller w i, ⟨.i128 (w.tokens i.usdc self),
        [⟨caller, w.tokens i.usdc self, bountyOf (w.tokens i.usdc self),
          w.tokens i.usdc self - bountyOf (w.tokens i.usdc self)⟩]⟩) := by
  constructor
  · intro h
    have ha := accepts_of_ok hi h
    exact ⟨ha, Except.ok.inj (h.symm.trans (ha.harvest hi hself h0))⟩
  · rintro ⟨ha, rfl⟩
    exact ha.harvest hi hself h0

/-- A caller who signs is refused by the cooldown check before the announced ledger, and never after. -/
theorem cooldown_iff (hi : w.inst = some i) (hself : ¬env.Authorized self)
    (h0 : 0 ≤ w.tokens i.usdc self) (hauth : env.Authorized caller) :
    harvest rule self env w caller = .error cooldownFault ↔ env.ledger < nextHarvestLedger w := by
  have hsigned : env.requireAuth caller = .ok () := Env.requireAuth_eq_ok.mpr hauth
  constructor
  · intro h
    by_contra hwait
    by_cases hfits : InI128 (w.tokens i.usdc self * BOUNTY_BPS)
    · have ha : Accepts self env w i caller := ⟨hauth, not_lt.mp hwait, hfits⟩
      rw [ha.harvest hi hself h0] at h
      cases h
    · have hne : w.tokens i.usdc self ≠ 0 := by
        intro hzero
        rw [hzero] at hfits
        exact hfits (by decide)
      have hover : checkedMul (w.tokens i.usdc self) BOUNTY_BPS = none := if_neg hfits
      rw [nextHarvestLedger_eq hi] at hwait
      simp [harvest, hsigned, hi, failIf_of_not hwait, hne, hover, expect, cooldownFault] at h
  · intro hwait
    rw [nextHarvestLedger_eq hi] at hwait
    simp [harvest, hsigned, hi, failIf_of hwait]

end YieldLadder.Harvester
