import YieldLadder.Foundation.Replay
import YieldLadder.Strategy.Allocation

/-! # Where the strategy vault's capital can go

The mandate is what the accepted calls have set up: the admin and the token, the harvester, the
registered tier vaults, the allowed pools, their targets and the buffer. The settings are always
the mandate replayed from the log. The vault holds its token itself and nobody else moves it, so
its balance falls in two ways only: a registered tier vault withdraws, or the harvester rebalances
to allowed pools.
-/
namespace YieldLadder.StrategyVault
open Foundation

/-- What `initialise` fixes for good. -/
structure Office where
  admin : Address
  usdc : Address

structure Mandate where
  office : Option Office
  harvester : Option Address
  tierVaults : Set Address
  pools : Set Address
  targets : Dict Address ℤ
  bufferBps : ℤ

/-- A call of the vault, or a transfer of any token. -/
inductive Action
  | vault (call : Call)
  | transfer (asset src dst : Address) (amount : ℤ)

def act (rule : TokenRule) (self : Address) (w : World) (c : Env × Action) : Except Fault (World × Value) :=
  match c.2 with
  | .vault call => step rule self c.1 w call
  | .transfer asset src dst amount => do
    let tokens ← Tokens.transfer rule c.1 w.tokens asset src dst amount
    pure ({ w with tokens }, .unit)

namespace Mandate

def blank : Mandate := ⟨none, none, ∅, ∅, .empty, DEFAULT_BUFFER_BPS⟩

/-- What an accepted call makes of the mandate. -/
def after (k : Mandate) : Call → Mandate
  | .initialise admin usdcToken => { k with office := some ⟨admin, usdcToken⟩ }
  | .setHarvester harvester => { k with harvester := some harvester }
  | .registerTierVault vault => { k with tierVaults := insert vault k.tierVaults }
  | .allowPool pool => { k with pools := insert pool k.pools }
  | .setBufferBps bps => { k with bufferBps := bps }
  | .setAllocation pool targetBps => { k with targets := k.targets.set pool targetBps }
  | _ => k

def Governed (k : Mandate) (env : Env) : Prop := ∃ o, k.office = some o ∧ env.Authorized o.admin

/-- The calls, with their answers, that the mandate admits. -/
def Within (k : Mandate) (env : Env) (value : Value) : Call → Prop
  | .initialise _ _ => k.office = none
  | .setHarvester _ => k.Governed env
  | .registerTierVault _ => k.Governed env
  | .allowPool _ => k.Governed env
  | .setBufferBps bps => k.Governed env ∧ 0 ≤ bps ∧ bps ≤ BPS_DENOM
  | .bufferBps => value = .i128 k.bufferBps
  | .idleBalance => ∃ o, k.office = some o
  | .depositCapital caller amount => caller ∈ k.tierVaults ∧ env.Authorized caller ∧ 0 ≤ amount
  | .withdrawCapital caller amount => caller ∈ k.tierVaults ∧ env.Authorized caller ∧ 0 ≤ amount
  | .setAllocation pool targetBps => k.Governed env ∧ pool ∈ k.pools ∧ targetBps ≤ MAX_ALLOC_BPS ∧
      others pool k.targets.entries + targetBps ≤ BPS_DENOM
  | .allocations => value = .allocations k.targets.entries
  | .totalCapital => ∃ o, k.office = some o
  | .rebalance => ∃ h, k.harvester = some h ∧ env.Authorized h

def apply (k : Mandate) (e : (Env × Action) × Value) : Mandate :=
  match e.1.2 with
  | .vault call => k.after call
  | .transfer _ _ _ _ => k

def permits (k : Mandate) (e : (Env × Action) × Value) : Prop :=
  match e.1.2 with
  | .vault call => k.Within e.1.1 e.2 call
  | .transfer _ _ _ _ => True

def flag (registry : Instance → Store Address Bool) (inst : Option Instance) (a : Address) : Bool :=
  (inst.map fun i => (registry i).getD a false).getD false

/-- The settings hold the mandate, whose targets are for allowed pools and within the cap of one pool. -/
structure Held (inst : Option Instance) (k : Mandate) : Prop where
  office : inst.map (fun i => (⟨i.admin, i.usdc⟩ : Office)) = k.office
  harvester : (inst.bind Instance.harvester) = k.harvester
  tierVaults : ∀ a, flag Instance.tierVaults inst a = true ↔ a ∈ k.tierVaults
  pools : ∀ a, flag Instance.poolAllowlist inst a = true ↔ a ∈ k.pools
  targets : (inst.map Instance.allocations).getD .empty = k.targets
  bufferBps : (inst.map Instance.bufferBps).getD DEFAULT_BUFFER_BPS = k.bufferBps
  listed : ∀ e ∈ k.targets.entries, e.1 ∈ k.pools
  capped : ∀ e ∈ k.targets.entries, e.2 ≤ MAX_ALLOC_BPS
  buffer : 0 ≤ k.bufferBps ∧ k.bufferBps ≤ BPS_DENOM

theorem held_blank : Held none blank where
  office := rfl
  harvester := rfl
  tierVaults a := by simp [blank, flag]
  pools a := by simp [blank, flag]
  targets := rfl
  bufferBps := rfl
  listed e he := by cases he
  capped e he := by cases he
  buffer := by simp [blank, DEFAULT_BUFFER_BPS, BPS_DENOM]

variable {k : Mandate} {i : Instance} {env : Env} {w : World} {call : Call}

theorem Held.governed (h : Held (some i) k) (hauth : env.Authorized i.admin) : k.Governed env :=
  ⟨_, h.office.symm, hauth⟩

theorem Held.tierVault (h : Held (some i) k) {a : Address} (ha : i.tierVaults.getD a false = true) :
    a ∈ k.tierVaults :=
  (h.tierVaults a).mp ha

theorem Held.pool (h : Held (some i) k) {a : Address} (ha : i.poolAllowlist.getD a false = true) :
    a ∈ k.pools :=
  (h.pools a).mp ha

theorem flag_raised {registry : Instance → Store Address Bool} {i' : Instance} {s : Set Address} {b : Address}
    (hb : registry i' = (registry i).set b true) (h : ∀ a, flag registry (some i) a = true ↔ a ∈ s)
    (a : Address) : flag registry (some i') a = true ↔ a ∈ insert b s := by
  have hold : (registry i).getD a false = true ↔ a ∈ s := h a
  simp only [flag, Option.map_some, Option.getD_some, hb, Set.mem_insert_iff, ← hold]
  by_cases hab : a = b
  · subst hab
    simp
  · simp [hab]

theorem Held.governs {i' : Instance} {value : Value} (h : Held (some i) k) (hauth : env.Authorized i.admin)
    (hg : Governs i call i') : k.Within env value call ∧ Held (some i') (k.after call) := by
  have hadmin := h.governed hauth
  cases hg with
  | setHarvester harvester => exact ⟨hadmin, { h with harvester := rfl }⟩
  | registerTierVault vault =>
    exact ⟨hadmin, { h with tierVaults := flag_raised rfl h.tierVaults }⟩
  | allowPool pool =>
    refine ⟨hadmin, { h with pools := flag_raised rfl h.pools, listed := ?_ }⟩
    exact fun e he => Set.mem_insert_of_mem pool (h.listed e he)
  | setBufferBps bps hrange => exact ⟨⟨hadmin, hrange⟩, { h with bufferBps := rfl, buffer := hrange }⟩
  | setAllocation pool targetBps total hlisted hcap hothers _ htotal =>
    have hpool : pool ∈ k.pools := h.pool hlisted
    have htargets : i.allocations = k.targets := h.targets
    refine ⟨⟨hadmin, hpool, hcap, ?_⟩, { h with targets := ?_, listed := ?_, capped := ?_ }⟩
    · rw [← htargets, ← othersTotal_ok hothers]
      exact htotal
    · exact congrArg (Dict.set · pool targetBps) htargets
    · intro e he
      rcases Dict.mem_set.mp he with rfl | ⟨he, _⟩
      · exact hpool
      · exact h.listed e he
    · intro e he
      rcases Dict.mem_set.mp he with rfl | ⟨he, _⟩
      · exact hcap
      · exact h.capped e he

theorem Held.office_of {inst : Option Instance} (h : Held inst k) (hi : inst = some i) :
    k.office = some ⟨i.admin, i.usdc⟩ := by
  rw [← h.office, hi]
  rfl

end Mandate

variable {rule : TokenRule} {self usdc : Address} {env : Env} {w w' : World} {call : Call} {r : World × Value}
variable {k : Mandate} {tokens tokens' : Tokens} {deployable : ℤ} {l : List (Address × ℤ)}

theorem depositCapital_within {caller : Address} {amount : ℤ} (hk : Mandate.Held w.inst k)
    (h : depositCapital rule self env w caller amount = .ok w') :
    (caller ∈ k.tierVaults ∧ env.Authorized caller ∧ 0 ≤ amount) ∧ w'.inst = w.inst := by
  simp only [depositCapital, unwrap, bind_eq_ok, expect_eq_ok, Env.requireAuth_eq_ok, failIf_eq_ok,
    Tokens.transfer_eq_ok, pure_eq_ok, Bool.not_eq_false] at h
  obtain ⟨_, hauth, i, hi, _, hflag, _, ⟨_, h0, _, _⟩, rfl⟩ := h
  rw [hi] at hk
  exact ⟨⟨hk.tierVault hflag, hauth, h0⟩, rfl⟩

theorem withdrawCapital_within {caller : Address} {amount : ℤ} (hk : Mandate.Held w.inst k)
    (h : withdrawCapital rule self env w caller amount = .ok w') :
    (caller ∈ k.tierVaults ∧ env.Authorized caller ∧ 0 ≤ amount) ∧ w'.inst = w.inst ∧
      ∃ o, k.office = some o ∧ amount ≤ w.tokens o.usdc self ∧
        w'.tokens = w.tokens.move o.usdc self caller amount := by
  simp only [withdrawCapital, unwrap, bind_eq_ok, expect_eq_ok, Env.requireAuth_eq_ok, failIf_eq_ok,
    Tokens.transfer_eq_ok, pure_eq_ok, Bool.not_eq_false] at h
  obtain ⟨_, hauth, i, hi, _, hflag, _, _, _, ⟨_, h0, hle, rfl⟩, rfl⟩ := h
  rw [hi] at hk
  exact ⟨⟨hk.tierVault hflag, hauth, h0⟩, rfl, _, hk.office_of rfl, hle, rfl⟩

/-- What a target asks for; a target that asks for nothing, or for less, is skipped. -/
def share (deployable targetBps : ℤ) : ℤ := max 0 ((deployable * targetBps).tdiv BPS_DENOM)

theorem sendTarget_moves {e : Address × ℤ} (h : sendTarget rule self env usdc deployable tokens e = .ok tokens') :
    tokens' = tokens.move usdc self e.1 (share deployable e.2) := by
  simp only [sendTarget, bind_eq_ok, checked_eq_ok, divI128_eq_ok] at h
  obtain ⟨_, ⟨_, rfl⟩, target, ⟨_, _, htarget⟩, h⟩ := h
  unfold share
  rw [htarget]
  split at h
  · next hpos =>
    rw [max_eq_right hpos.le]
    exact (Tokens.transfer_eq_ok.mp h).2.2.2.symm
  · next hneg =>
    rw [max_eq_left (not_lt.mp hneg), Tokens.move_zero]
    exact (pure_eq_ok.mp h).symm

theorem sendTargets_move (h : l.foldlM (sendTarget rule self env usdc deployable) tokens = .ok tokens') :
    tokens' = tokens.moveAll usdc self (l.map fun e => (e.1, share deployable e.2)) := by
  induction l generalizing tokens with
  | nil => exact (pure_eq_ok.mp h).symm
  | cons e l ih =>
    rw [List.foldlM_cons, bind_eq_ok] at h
    obtain ⟨mid, he, h⟩ := h
    rw [ih h, sendTarget_moves he]
    rfl

/-- What `rebalance` has to split: the capital beyond the buffer. -/
def toDeploy (bufferBps total : ℤ) : ℤ := saturatingSub total ((total * bufferBps).tdiv BPS_DENOM)

theorem share_le {bufferBps total targetBps : ℤ} (h0 : 0 ≤ total) (hb : 0 ≤ bufferBps ∧ bufferBps ≤ BPS_DENOM)
    (hcap : targetBps ≤ MAX_ALLOC_BPS) (hpos : 0 < share (toDeploy bufferBps total) targetBps) :
    BPS_DENOM * share (toDeploy bufferBps total) targetBps ≤ MAX_ALLOC_BPS * total := by
  have hprod : 0 ≤ total * bufferBps := Int.mul_nonneg h0 hb.1
  have hreserved : part BPS_DENOM total bufferBps ≤ total := part_le (by decide) h0 hb.2
  have hreserved0 : 0 ≤ part BPS_DENOM total bufferBps := part_nonneg (by decide) h0 hb.1
  have hdeploy : 0 ≤ toDeploy bufferBps total ∧ toDeploy bufferBps total ≤ total := by
    unfold toDeploy saturatingSub
    rw [Int.tdiv_eq_ediv_of_nonneg hprod]
    unfold part at hreserved hreserved0
    unfold i128Min i128Max
    omega
  generalize toDeploy bufferBps total = d at *
  have htarget : 0 ≤ d * targetBps := by
    by_contra hneg
    have hle : (d * targetBps).tdiv BPS_DENOM ≤ 0 := by
      have hflip : 0 ≤ (-(d * targetBps)).tdiv BPS_DENOM := Int.tdiv_nonneg (by omega) (by decide)
      rw [Int.neg_tdiv] at hflip
      omega
    rw [share, max_eq_left hle] at hpos
    omega
  have hshare : share d targetBps = part BPS_DENOM d targetBps := by
    have hpart : 0 ≤ part BPS_DENOM d targetBps := Int.ediv_nonneg htarget (by decide)
    rw [share, Int.tdiv_eq_ediv_of_nonneg htarget]
    exact max_eq_right hpart
  rw [hshare]
  calc BPS_DENOM * part BPS_DENOM d targetBps ≤ d * targetBps := mul_part_le (by decide)
    _ ≤ d * MAX_ALLOC_BPS := Int.mul_le_mul_of_nonneg_left hcap hdeploy.1
    _ ≤ total * MAX_ALLOC_BPS := Int.mul_le_mul_of_nonneg_right hdeploy.2 (by decide)
    _ = MAX_ALLOC_BPS * total := Int.mul_comm _ _

theorem rebalance_within (hk : Mandate.Held w.inst k) (h : rebalance rule self env w = .ok w') :
    (∃ h, k.harvester = some h ∧ env.Authorized h) ∧ w'.inst = w.inst ∧
      ∃ o, k.office = some o ∧ w'.tokens = w.tokens.moveAll o.usdc self
        (k.targets.map (share (toDeploy k.bufferBps (w.tokens o.usdc self)))).entries := by
  simp only [rebalance, unwrap, bind_eq_ok, expect_eq_ok, Env.requireAuth_eq_ok, checked_eq_ok,
    divI128_eq_ok, pure_eq_ok] at h
  obtain ⟨i, hi, harvester, hharvester, _, hauth, _, ⟨_, rfl⟩, reserved, ⟨_, _, hreserved⟩,
    tokens, hfold, rfl⟩ := h
  rw [hi] at hk
  have hbuffer : i.bufferBps = k.bufferBps := hk.bufferBps
  have htargets : i.allocations = k.targets := hk.targets
  refine ⟨⟨harvester, hk.harvester.symm.trans hharvester, hauth⟩, rfl, _, hk.office_of rfl, ?_⟩
  have hmoves := sendTargets_move hfold
  rw [← hreserved, hbuffer, htargets] at hmoves
  exact hmoves

theorem step_within (hk : Mandate.Held w.inst k) (h : step rule self env w call = .ok r) :
    k.Within env r.2 call ∧ Mandate.Held r.1.inst (k.after call) := by
  have hgoverns : ∀ {i i' : Instance}, w.inst = some i → env.Authorized i.admin → Governs i call i' →
      k.Within env r.2 call ∧ Mandate.Held (some i') (k.after call) := by
    intro i i' hi hauth hg
    rw [hi] at hk
    exact hk.governs hauth hg
  cases call with
  | initialise admin usdcToken =>
    simp only [step, silent_eq_ok, initialise, bind_eq_ok, failIf_eq_ok, pure_eq_ok] at h
    obtain ⟨_, ⟨_, hnone, rfl⟩, rfl⟩ := h
    have hinst : w.inst = none := by simpa using hnone
    rw [hinst] at hk
    exact ⟨hk.office.symm, { hk with office := rfl }⟩
  | setHarvester harvester =>
    simp only [step, silent_eq_ok, setHarvester, unwrap, requireAdmin, bind_eq_ok, expect_eq_ok,
      Env.requireAuth_eq_ok, pure_eq_ok] at h
    obtain ⟨_, ⟨i, hi, _, hauth, rfl⟩, rfl⟩ := h
    exact hgoverns hi hauth (.setHarvester harvester)
  | registerTierVault vault =>
    simp only [step, silent_eq_ok, registerTierVault, unwrap, requireAdmin, bind_eq_ok, expect_eq_ok,
      Env.requireAuth_eq_ok, pure_eq_ok] at h
    obtain ⟨_, ⟨i, hi, _, hauth, rfl⟩, rfl⟩ := h
    exact hgoverns hi hauth (.registerTierVault vault)
  | allowPool pool =>
    simp only [step, silent_eq_ok, allowPool, unwrap, requireAdmin, bind_eq_ok, expect_eq_ok,
      Env.requireAuth_eq_ok, pure_eq_ok] at h
    obtain ⟨_, ⟨i, hi, _, hauth, rfl⟩, rfl⟩ := h
    exact hgoverns hi hauth (.allowPool pool)
  | setBufferBps bps =>
    simp only [step, silent_eq_ok, setBufferBps, unwrap, requireAdmin, bind_eq_ok, expect_eq_ok,
      Env.requireAuth_eq_ok, failIf_eq_ok, pure_eq_ok] at h
    obtain ⟨_, ⟨i, hi, _, hauth, _, hrange, rfl⟩, rfl⟩ := h
    have hbps : 0 ≤ bps ∧ bps ≤ BPS_DENOM := by omega
    exact hgoverns hi hauth (.setBufferBps bps hbps)
  | setAllocation pool targetBps =>
    simp only [step, silent_eq_ok, setAllocation_ok_iff] at h
    obtain ⟨_, ⟨i, total, hi, hauth, hlisted, hcap, hothers, hrange, htotal, rfl⟩, rfl⟩ := h
    exact hgoverns hi hauth (.setAllocation pool targetBps total hlisted hcap hothers hrange htotal)
  | bufferBps =>
    obtain rfl := pure_eq_ok.mp h
    exact ⟨congrArg Value.i128 hk.bufferBps, hk⟩
  | allocations =>
    obtain rfl := pure_eq_ok.mp h
    refine ⟨congrArg Value.allocations ?_, hk⟩
    rw [← hk.targets, allocations]
    cases w.inst <;> rfl
  | idleBalance =>
    simp only [step, idleBalance, unwrap, bind_eq_ok, expect_eq_ok, pure_eq_ok] at h
    obtain ⟨_, ⟨i, hi, rfl⟩, rfl⟩ := h
    exact ⟨⟨_, hk.office_of hi⟩, hk⟩
  | totalCapital =>
    simp only [step, totalCapital, unwrap, bind_eq_ok, expect_eq_ok, pure_eq_ok] at h
    obtain ⟨_, ⟨i, hi, rfl⟩, rfl⟩ := h
    exact ⟨⟨_, hk.office_of hi⟩, hk⟩
  | depositCapital caller amount =>
    simp only [step, silent_eq_ok] at h
    obtain ⟨w', hw', rfl⟩ := h
    obtain ⟨hin, hsame⟩ := depositCapital_within hk hw'
    exact ⟨hin, hsame ▸ hk⟩
  | withdrawCapital caller amount =>
    simp only [step, silent_eq_ok] at h
    obtain ⟨w', hw', rfl⟩ := h
    obtain ⟨hin, hsame, _⟩ := withdrawCapital_within hk hw'
    exact ⟨hin, hsame ▸ hk⟩
  | rebalance =>
    simp only [step, silent_eq_ok] at h
    obtain ⟨w', hw', rfl⟩ := h
    obtain ⟨hin, hsame, _⟩ := rebalance_within hk hw'
    exact ⟨hin, hsame ▸ hk⟩

/-- How capital leaves the vault: what changes hands, and who may have it. -/
inductive Released (self : Address) (k : Mandate) (asset : Address) (c : Env × Action) (w w' : World) : Prop
  /-- A registered tier vault takes what it asked for, out of what is idle. -/
  | withdrawn (caller : Address) (amount : ℤ) (hc : c.2 = .vault (.withdrawCapital caller amount))
      (hcaller : caller ∈ k.tierVaults) (hauth : c.1.Authorized caller) (hpos : 0 < amount)
      (hidle : amount ≤ w.tokens asset self) (ht : w'.tokens = w.tokens.move asset self caller amount)
  /-- The harvester sends each pool of the table its share of what is beyond the buffer. -/
  | deployed (harvester : Address) (hc : c.2 = .vault .rebalance) (hharvester : k.harvester = some harvester)
      (hauth : c.1.Authorized harvester)
      (hself : w'.tokens asset self = w.tokens asset self -
        (k.targets.map (share (toDeploy k.bufferBps (w.tokens asset self)))).total (· ≠ self))
      (hpool : ∀ p, p ≠ self → w'.tokens asset p = w.tokens asset p +
        ((k.targets.get p).map (share (toDeploy k.bufferBps (w.tokens asset self)))).getD 0)

/-- Only pools on the allowlist gain in a rebalance, and none more than 35% of what the vault held. -/
theorem Released.gain {asset : Address} {c : Env × Action} (h : Released self k asset c w w')
    (hc : c.2 = .vault .rebalance) (hk : Mandate.Held w.inst k) (h0 : 0 ≤ w.tokens asset self) {p : Address}
    (hp : p ≠ self) (hgain : w.tokens asset p < w'.tokens asset p) : p ∈ k.pools ∧
      BPS_DENOM * (w'.tokens asset p - w.tokens asset p) ≤ MAX_ALLOC_BPS * w.tokens asset self := by
  cases h with
  | withdrawn caller amount hcall =>
    rw [hc] at hcall
    cases hcall
  | deployed harvester _ _ _ _ hpool =>
    have hgot := hpool p hp
    cases hget : k.targets.get p with
    | none =>
      rw [hget] at hgot
      simp only [Option.map_none, Option.getD_none] at hgot
      omega
    | some targetBps =>
      rw [hget] at hgot
      simp only [Option.map_some, Option.getD_some] at hgot
      have hmem := Dict.get_eq_some.mp hget
      have hcap : targetBps ≤ MAX_ALLOC_BPS := hk.capped _ hmem
      refine ⟨hk.listed _ hmem, ?_⟩
      have hpos : 0 < share (toDeploy k.bufferBps (w.tokens asset self)) targetBps := by omega
      rw [hgot, add_sub_cancel_left]
      exact share_le h0 hk.buffer hcap hpos

/-- Settings and views leave the tokens alone. -/
theorem step_tokens (h : step rule self env w call = .ok r)
    (hdeposit : ∀ caller amount, call ≠ .depositCapital caller amount)
    (hwithdraw : ∀ caller amount, call ≠ .withdrawCapital caller amount) (hrebalance : call ≠ .rebalance) :
    r.1.tokens = w.tokens := by
  cases call with
  | initialise admin usdcToken =>
    simp only [step, silent_eq_ok, initialise, bind_eq_ok, pure_eq_ok] at h
    obtain ⟨_, ⟨_, _, rfl⟩, rfl⟩ := h
    rfl
  | setBufferBps bps =>
    simp only [step, silent_eq_ok, setBufferBps, bind_eq_ok, pure_eq_ok] at h
    obtain ⟨_, ⟨_, _, _, _, _, _, rfl⟩, rfl⟩ := h
    rfl
  | setAllocation pool targetBps =>
    simp only [step, silent_eq_ok, setAllocation_ok_iff] at h
    obtain ⟨_, ⟨_, _, _, _, _, _, _, _, _, rfl⟩, rfl⟩ := h
    rfl
  | depositCapital caller amount => exact absurd rfl (hdeposit caller amount)
  | withdrawCapital caller amount => exact absurd rfl (hwithdraw caller amount)
  | rebalance => exact absurd rfl hrebalance
  | bufferBps =>
    obtain rfl := pure_eq_ok.mp h
    rfl
  | allocations =>
    obtain rfl := pure_eq_ok.mp h
    rfl
  | idleBalance =>
    simp only [step, bind_eq_ok, pure_eq_ok] at h
    obtain ⟨_, _, rfl⟩ := h
    rfl
  | totalCapital =>
    simp only [step, bind_eq_ok, pure_eq_ok] at h
    obtain ⟨_, _, rfl⟩ := h
    rfl
  | setHarvester harvester =>
    simp only [step, silent_eq_ok, setHarvester, bind_eq_ok, pure_eq_ok] at h
    obtain ⟨_, ⟨_, _, _, _, rfl⟩, rfl⟩ := h
    rfl
  | registerTierVault vault =>
    simp only [step, silent_eq_ok, registerTierVault, bind_eq_ok, pure_eq_ok] at h
    obtain ⟨_, ⟨_, _, _, _, rfl⟩, rfl⟩ := h
    rfl
  | allowPool pool =>
    simp only [step, silent_eq_ok, allowPool, bind_eq_ok, pure_eq_ok] at h
    obtain ⟨_, ⟨_, _, _, _, rfl⟩, rfl⟩ := h
    rfl

/-- Calls from outside are not made by the vault itself. -/
def Outside (self : Address) (c : Env × Action) : Prop := c.1.caller ≠ some self

theorem act_within {c : Env × Action} (hk : Mandate.Held w.inst k) (h : act rule self w c = .ok r) :
    k.permits (c, r.2) ∧ Mandate.Held r.1.inst (k.apply (c, r.2)) := by
  obtain ⟨env, action⟩ := c
  cases action with
  | vault call => exact step_within hk h
  | transfer asset src dst amount =>
    simp only [act, bind_eq_ok, pure_eq_ok] at h
    obtain ⟨_, _, rfl⟩ := h
    exact ⟨trivial, hk⟩

theorem move_le {asset src : Address} (h : src ≠ self) (a dst : Address) {amount : ℤ} (h0 : 0 ≤ amount) :
    tokens asset self ≤ tokens.move a src dst amount asset self := by
  by_cases ha : asset = a
  · subst ha
    rw [Tokens.move_of_ne_src tokens asset (Ne.symm h)]
    split <;> omega
  · rw [Tokens.move_other_asset tokens ha]

/-- Every fall of the vault's balance, of any token, is a release under the mandate. -/
theorem act_released {n : ℕ} {asset : Address} {c : Env × Action}
    (hg : ∀ a, rule.grants a (.contract n) = false) (hc : Outside (.contract n) c) (hk : Mandate.Held w.inst k)
    (h : act rule (.contract n) w c = .ok r)
    (hfall : r.1.tokens asset (.contract n) < w.tokens asset (.contract n)) :
    Released (.contract n) k asset c w r.1 := by
  have hself : ¬rule.Allows c.1 (.contract n) := by
    rintro (hauth | ⟨a, _, hgrant⟩)
    · exact hc (Env.authorized_contract.mp hauth)
    · rw [hg a] at hgrant
      cases hgrant
  obtain ⟨env, action⟩ := c
  cases action with
  | transfer a src dst amount =>
    simp only [act, bind_eq_ok, Tokens.transfer_eq_ok, pure_eq_ok] at h
    obtain ⟨_, ⟨hallow, h0, _, rfl⟩, rfl⟩ := h
    have hsrc : src ≠ .contract n := by
      rintro rfl
      exact hself hallow
    exact absurd hfall (not_lt.mpr (move_le hsrc a dst h0))
  | vault call =>
    have hquiet : (∀ caller amount, call ≠ .depositCapital caller amount) →
        (∀ caller amount, call ≠ .withdrawCapital caller amount) → call ≠ .rebalance →
        Released (.contract n) k asset (env, .vault call) w r.1 := by
      intro hdeposit hwithdraw hrebalance
      have hstep : step rule (.contract n) env w call = .ok r := h
      rw [step_tokens hstep hdeposit hwithdraw hrebalance] at hfall
      exact absurd hfall (lt_irrefl _)
    cases call with
    | depositCapital caller amount =>
      simp only [act, step, silent_eq_ok, depositCapital, bind_eq_ok, Env.requireAuth_eq_ok,
        Tokens.transfer_eq_ok, pure_eq_ok] at h
      obtain ⟨_, ⟨_, hauth, i, _, _, _, _, ⟨_, h0, _, rfl⟩, rfl⟩, rfl⟩ := h
      have hsrc : caller ≠ .contract n := by
        rintro rfl
        exact hc (Env.authorized_contract.mp hauth)
      exact absurd hfall (not_lt.mpr (move_le hsrc i.usdc (.contract n) h0))
    | withdrawCapital caller amount =>
      simp only [act, step, silent_eq_ok] at h
      obtain ⟨w', hw', rfl⟩ := h
      obtain ⟨⟨hcaller, hauth, h0⟩, _, o, _, hle, ht⟩ := withdrawCapital_within hk hw'
      have hasset : asset = o.usdc := by
        by_contra hne
        rw [ht, Tokens.move_other_asset w.tokens hne] at hfall
        exact lt_irrefl _ hfall
      subst hasset
      refine .withdrawn caller amount rfl hcaller hauth (lt_of_le_of_ne h0 ?_) hle ht
      rintro rfl
      rw [ht, Tokens.move_zero] at hfall
      exact lt_irrefl _ hfall
    | rebalance =>
      simp only [act, step, silent_eq_ok] at h
      obtain ⟨w', hw', rfl⟩ := h
      obtain ⟨⟨harvester, hharvester, hauth⟩, _, o, _, ht⟩ := rebalance_within hk hw'
      have hasset : asset = o.usdc := by
        by_contra hne
        rw [ht, Tokens.moveAll_other_asset w.tokens hne] at hfall
        exact lt_irrefl _ hfall
      subst hasset
      refine .deployed harvester rfl hharvester hauth ?_ fun p hp => ?_
      · rw [ht, Tokens.moveAll_src]
        rfl
      · rw [ht, Tokens.moveAll_of_ne w.tokens o.usdc hp, ← Dict.get_map, ← Dict.total_self]
        rfl
    | _ => exact hquiet (by simp) (by simp) (by simp)

/-- From deployment on, whoever calls: the settings are the mandate of the accepted calls, each of them was
within the mandate of the calls before it, and the vault's balance of a token falls only by a withdrawal of
a registered tier vault or a rebalance of the harvester, which gives to allowed pools alone and to none of
them more than 35% of what the vault held. -/
theorem run_custody {n : ℕ} (hg : ∀ a, rule.grants a (.contract n) = false) (hw : w.inst = none)
    (cs : List (Env × Action)) :
    let k := replay Mandate.apply .blank (log (act rule (.contract n)) w cs)
    let now := run (act rule (.contract n)) w cs
    Mandate.Held now.inst k ∧ Permitted Mandate.apply Mandate.permits .blank (log (act rule (.contract n)) w cs) ∧
      ∀ c r asset, Outside (.contract n) c → act rule (.contract n) now c = .ok r →
        r.1.tokens asset (.contract n) < now.tokens asset (.contract n) →
        Released (.contract n) k asset c now r.1 ∧
          (c.2 = .vault .rebalance → 0 ≤ now.tokens asset (.contract n) → ∀ p, p ≠ .contract n →
            now.tokens asset p < r.1.tokens asset p → p ∈ k.pools ∧
              BPS_DENOM * (r.1.tokens asset p - now.tokens asset p) ≤
                MAX_ALLOC_BPS * now.tokens asset (.contract n)) := by
  intro k now
  have hblank : Mandate.Held w.inst .blank := hw ▸ Mandate.held_blank
  have hall : Meets (act rule (.contract n)) (fun _ _ => True) w cs :=
    meets_of_forall (P := fun _ => True) fun _ _ => trivial
  have hstep : ∀ w k c r, True → Mandate.Held w.inst k → act rule (.contract n) w c = .ok r →
      Mandate.permits k (c, r.2) ∧ Mandate.Held r.1.inst (Mandate.apply k (c, r.2)) :=
    fun _ _ _ _ _ hk h => act_within hk h
  have hrun := run_replay (R := fun w k => Mandate.Held w.inst k) hstep hblank hall
  refine ⟨hrun.1, hrun.2, fun c r asset hc h hfall => ?_⟩
  have hreleased := act_released hg hc hrun.1 h hfall
  exact ⟨hreleased, fun hrebalance h0 p hp hgain => hreleased.gain hrebalance hrun.1 h0 hp hgain⟩

def funded : World := ⟨none, fun asset holder => if asset = .contract 5 ∧ holder = .account 4 then 1_000 else 0⟩

/-- The admin, account 1, sets up the vault, and account 4 deposits all it has. -/
def settingUp : List (Env × Action) :=
  [(⟨[], none, 1⟩, .vault (.initialise (.account 1) (.contract 5))),
   (⟨[1], none, 2⟩, .vault (.setHarvester (.account 2))),
   (⟨[1], none, 3⟩, .vault (.registerTierVault (.account 4))),
   (⟨[1], none, 4⟩, .vault (.allowPool (.contract 6))),
   (⟨[1], none, 5⟩, .vault (.setAllocation (.contract 6) 2_000)),
   (⟨[4], none, 6⟩, .vault (.depositCapital (.account 4) 1_000))]

theorem run_custody_settingUp :
    let k := replay Mandate.apply .blank (log (act .host (.contract 0)) funded settingUp)
    let now := run (act .host (.contract 0)) funded settingUp
    Mandate.Held now.inst k ∧
      Permitted Mandate.apply Mandate.permits .blank (log (act .host (.contract 0)) funded settingUp) ∧
      ∀ c r asset, Outside (.contract 0) c → act .host (.contract 0) now c = .ok r →
        r.1.tokens asset (.contract 0) < now.tokens asset (.contract 0) →
        Released (.contract 0) k asset c now r.1 ∧
          (c.2 = .vault .rebalance → 0 ≤ now.tokens asset (.contract 0) → ∀ p, p ≠ .contract 0 →
            now.tokens asset p < r.1.tokens asset p → p ∈ k.pools ∧
              BPS_DENOM * (r.1.tokens asset p - now.tokens asset p) ≤
                MAX_ALLOC_BPS * now.tokens asset (.contract 0)) :=
  run_custody (n := 0) (fun _ => rfl) rfl settingUp

end YieldLadder.StrategyVault
