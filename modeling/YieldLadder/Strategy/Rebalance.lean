import Mathlib.Tactic.Linarith
import YieldLadder.Foundation.Machine
import YieldLadder.Strategy.StrategyVault

/-! # Repeated rebalances

`rebalance` splits what is idle and keeps no record of what it has sent before.
The record is added here as a history variable: what each pool has received in
rebalances. The cap and the buffer are about the whole capital, idle and sent.
They hold as long as no rebalance sends capital after an earlier one has.
-/
namespace YieldLadder.StrategyVault
open Foundation

/-- The contract with the history of what its rebalances sent to each pool. -/
structure Tracked where
  world : World
  sent : Address → ℤ

def balanceOf (w : World) (holder : Address) : ℤ :=
  (w.inst.map fun i => w.tokens i.usdc holder).getD 0

abbrev Invocation := Env × Call

def exec (rule : TokenRule) (vault : Address) (t : Tracked) (c : Invocation) :
    Except Fault (Tracked × Value) := do
  let (w, value) ← step rule vault c.1 t.world c.2
  let sent := if c.2 = .rebalance
    then fun p => t.sent p + if p = vault then 0 else balanceOf w p - balanceOf t.world p
    else t.sent
  pure (⟨w, sent⟩, value)

/-- The idle capital and everything sent to the pools of the allocation map. -/
def capital (vault : Address) (t : Tracked) : ℤ :=
  balanceOf t.world vault + ((allocations t.world).map fun e => t.sent e.1).sum

/-- The allocations are those `set_allocation` means to admit, and the buffer is a share. -/
structure Admissible (i : Instance) : Prop where
  nonneg : ∀ e ∈ i.allocations.entries, 0 ≤ e.2
  capped : ∀ e ∈ i.allocations.entries, e.2 ≤ MAX_ALLOC_BPS
  total : (i.allocations.entries.map Prod.snd).sum ≤ BPS_DENOM
  buffer : 0 ≤ i.bufferBps ∧ i.bufferBps ≤ BPS_DENOM

/-- No pool has more than 35 % of the capital, and the buffer is idle. -/
structure Respects (vault : Address) (i : Instance) (t : Tracked) : Prop where
  cap : ∀ p, 100 * t.sent p ≤ 35 * capital vault t
  buffer : part BPS_DENOM (capital vault t) i.bufferBps ≤ balanceOf t.world vault

def IsFlow (call : Call) : Prop := call = .rebalance ∨ ∃ caller amount, call = .depositCapital caller amount

/-- A rebalance that finds nothing sent before, or too little idle capital to send any. -/
def SendsOnce (vault : Address) (i : Instance) (t : Tracked) (c : Invocation) : Prop :=
  c.2 = .rebalance → (∀ p, t.sent p = 0) ∨ ∀ e ∈ i.allocations.entries,
    (balanceOf t.world vault - part BPS_DENOM (balanceOf t.world vault) i.bufferBps) * e.2 < BPS_DENOM

variable {rule : TokenRule} {vault usdc : Address} {env : Env} {tokens tokens' : Tokens}
variable {deployable : ℤ} {e : Address × ℤ} {l : List (Address × ℤ)} {i : Instance} {w w' : World}

def sentTo (deployable : ℤ) (p : Address) (l : List (Address × ℤ)) : ℤ :=
  (l.map fun e => if e.1 = p then part BPS_DENOM deployable e.2 else 0).sum

def taken (vault : Address) (deployable : ℤ) (l : List (Address × ℤ)) : ℤ :=
  (l.map fun e => if e.1 = vault then 0 else part BPS_DENOM deployable e.2).sum

/-- One turn of the loop moves the entry's part to its pool. -/
theorem sendTarget_ok (hd : 0 ≤ deployable) (he : 0 ≤ e.2)
    (h : sendTarget rule vault env usdc deployable tokens e = .ok tokens') :
    tokens' = tokens.move usdc vault e.1 (part BPS_DENOM deployable e.2) := by
  have hprod : 0 ≤ deployable * e.2 := Int.mul_nonneg hd he
  simp only [sendTarget, bind_eq_ok, checked_eq_ok, divI128_eq_ok] at h
  obtain ⟨_, ⟨_, rfl⟩, target, ⟨_, _, htarget⟩, h⟩ := h
  rw [Int.tdiv_eq_ediv_of_nonneg hprod] at htarget
  have hpart : part BPS_DENOM deployable e.2 = target := htarget
  rw [hpart]
  split at h
  · exact (Tokens.transfer_eq_ok.mp h).2.2.2.symm
  · next hpos =>
    have h0 : 0 ≤ target := hpart ▸ part_nonneg (by decide) hd he
    obtain rfl : target = 0 := by omega
    obtain rfl := pure_eq_ok.mp h
    funext a holder
    simp [Tokens.move, Tokens.credit]

/-- The whole loop, for every balance of the token. -/
theorem sendTargets_ok (hd : 0 ≤ deployable) (hl : ∀ e ∈ l, 0 ≤ e.2)
    (h : l.foldlM (sendTarget rule vault env usdc deployable) tokens = .ok tokens') :
    tokens' usdc vault = tokens usdc vault - taken vault deployable l ∧
      ∀ p, p ≠ vault → tokens' usdc p = tokens usdc p + sentTo deployable p l := by
  induction l generalizing tokens with
  | nil =>
    obtain rfl := pure_eq_ok.mp h
    simp [taken, sentTo]
  | cons e l ih =>
    rw [List.foldlM_cons, bind_eq_ok] at h
    obtain ⟨mid, he, h⟩ := h
    obtain ⟨hself, hpool⟩ := ih (fun x hx => hl x (List.mem_cons_of_mem e hx)) h
    have hmid := sendTarget_ok hd (hl e List.mem_cons_self) he
    constructor
    · rw [hself, hmid]
      simp only [taken, List.map_cons, List.sum_cons]
      by_cases hes : e.1 = vault
      · rw [hes, Tokens.move_self, if_pos rfl]
        omega
      · rw [Tokens.move_src tokens usdc (Ne.symm hes), if_neg hes]
        omega
    · intro p hp
      rw [hpool p hp, hmid]
      simp only [sentTo, List.map_cons, List.sum_cons]
      by_cases hep : e.1 = p
      · rw [if_pos hep, hep, Tokens.move_dst tokens usdc (Ne.symm hp)]
        omega
      · rw [Tokens.move_other tokens usdc hp (Ne.symm hep), if_neg hep]
        omega

/-- A rebalance that split `deployable`, at most what is idle beyond the buffer. -/
structure Split (vault : Address) (i : Instance) (w w' : World) (deployable : ℤ) : Prop where
  nonneg : 0 ≤ deployable
  le : deployable ≤ w.tokens i.usdc vault - part BPS_DENOM (w.tokens i.usdc vault) i.bufferBps
  inst : w'.inst = some i
  idle : w'.tokens i.usdc vault = w.tokens i.usdc vault - taken vault deployable i.allocations.entries
  pool : ∀ p, p ≠ vault →
    w'.tokens i.usdc p = w.tokens i.usdc p + sentTo deployable p i.allocations.entries

theorem rebalance_ok (hi : w.inst = some i) (ha : Admissible i) (h0 : 0 ≤ w.tokens i.usdc vault)
    (h : rebalance rule vault env w = .ok w') : ∃ deployable, Split vault i w w' deployable := by
  have hprod : 0 ≤ w.tokens i.usdc vault * i.bufferBps := Int.mul_nonneg h0 ha.buffer.1
  have hle := part_le (n := BPS_DENOM) (by decide) h0 ha.buffer.2
  simp only [rebalance, unwrap, bind_eq_ok, expect_eq_ok, Env.requireAuth_eq_ok, checked_eq_ok,
    divI128_eq_ok, pure_eq_ok, hi, Option.some.injEq] at h
  obtain ⟨_, rfl, _, _, _, _, _, ⟨_, rfl⟩, reserved, ⟨_, _, hres⟩, tokens, hfold, rfl⟩ := h
  rw [Int.tdiv_eq_ediv_of_nonneg hprod] at hres
  have hres : part BPS_DENOM (w.tokens i.usdc vault) i.bufferBps = reserved := hres
  have hd0 : 0 ≤ saturatingSub (w.tokens i.usdc vault) reserved := by
    unfold saturatingSub i128Min i128Max
    omega
  obtain ⟨hself, hpool⟩ := sendTargets_ok hd0 ha.nonneg hfold
  refine ⟨_, hd0, ?_, rfl, hself, hpool⟩
  rw [hres]
  unfold saturatingSub i128Min i128Max
  omega

theorem sentTo_of_not_mem {p : Address} (hp : p ∉ l.map Prod.fst) : sentTo deployable p l = 0 := by
  induction l with
  | nil => rfl
  | cons e l ih =>
    rw [List.map_cons, List.mem_cons, not_or] at hp
    have hrest := ih hp.2
    simp only [sentTo, List.map_cons, List.sum_cons] at hrest ⊢
    rw [if_neg (Ne.symm hp.1), hrest, zero_add]

theorem sentTo_of_mem (hn : (l.map Prod.fst).Nodup) (he : e ∈ l) :
    sentTo deployable e.1 l = part BPS_DENOM deployable e.2 := by
  induction l with
  | nil => cases he
  | cons x l ih =>
    rw [List.map_cons, List.nodup_cons] at hn
    have hcons : ∀ p, sentTo deployable p (x :: l) =
        (if x.1 = p then part BPS_DENOM deployable x.2 else 0) + sentTo deployable p l :=
      fun p => by simp [sentTo]
    rw [hcons]
    rcases List.mem_cons.mp he with rfl | he
    · rw [if_pos rfl, sentTo_of_not_mem hn.1, add_zero]
    · have hne : x.1 ≠ e.1 := fun hx => hn.1 (hx ▸ List.mem_map_of_mem he)
      rw [if_neg hne, zero_add, ih hn.2 he]

theorem sentTo_nonneg (hd : 0 ≤ deployable) (hl : ∀ e ∈ l, 0 ≤ e.2) (p : Address) :
    0 ≤ sentTo deployable p l := by
  refine List.sum_nonneg fun x hx => ?_
  obtain ⟨e, he, rfl⟩ := List.mem_map.mp hx
  split
  · exact part_nonneg (by decide) hd (hl e he)
  · exact le_rfl

theorem sentTo_capped (ha : Admissible i) (hd : 0 ≤ deployable) (p : Address) :
    100 * sentTo deployable p i.allocations.entries ≤ 35 * deployable := by
  by_cases hp : p ∈ i.allocations.entries.map Prod.fst
  · obtain ⟨e, he, rfl⟩ := List.mem_map.mp hp
    rw [sentTo_of_mem i.allocations.nodup he]
    have hle : BPS_DENOM * part BPS_DENOM deployable e.2 ≤ deployable * e.2 := mul_part_le (by decide)
    have hcap := Int.mul_le_mul_of_nonneg_left (ha.capped e he) hd
    unfold BPS_DENOM MAX_ALLOC_BPS at *
    omega
  · rw [sentTo_of_not_mem hp]
    omega

theorem sum_received (hn : (l.map Prod.fst).Nodup) :
    (l.map fun e => if e.1 = vault then 0 else sentTo deployable e.1 l).sum =
      taken vault deployable l := by
  unfold taken
  congr 1
  refine List.map_congr_left fun e he => ?_
  rw [sentTo_of_mem hn he]

theorem taken_le (ha : Admissible i) (hd : 0 ≤ deployable) :
    taken vault deployable i.allocations.entries ≤ deployable := by
  have hparts := sum_part_le (n := BPS_DENOM) (by decide) hd ha.total
  rw [List.map_map] at hparts
  refine le_trans (List.sum_le_sum fun e he => ?_) hparts
  dsimp only [Function.comp]
  split
  · exact part_nonneg (by decide) hd (ha.nonneg e he)
  · exact le_rfl

theorem sentTo_eq_zero (hl : ∀ e ∈ l, part BPS_DENOM deployable e.2 = 0) (p : Address) :
    sentTo deployable p l = 0 ∧ taken vault deployable l = 0 := by
  constructor <;>
    (refine List.sum_eq_zero fun x hx => ?_
     obtain ⟨e, he, rfl⟩ := List.mem_map.mp hx
     rw [hl e he, ite_self])

/-- The invariant of a run: the settings stay, nothing is negative, the limits hold. -/
structure Kept (vault : Address) (i : Instance) (t : Tracked) : Prop where
  inst : t.world.inst = some i
  idle : 0 ≤ balanceOf t.world vault
  sent : ∀ p, 0 ≤ t.sent p
  respects : Respects vault i t

theorem balanceOf_of_inst (hi : w.inst = some i) (p : Address) : balanceOf w p = w.tokens i.usdc p := by
  simp [balanceOf, hi]

theorem capital_of_inst {t : Tracked} (hi : t.world.inst = some i) :
    capital vault t =
      balanceOf t.world vault + (i.allocations.entries.map fun e => t.sent e.1).sum := by
  simp [capital, allocations, hi]

def recorded (vault : Address) (t : Tracked) (w' : World) : Tracked :=
  ⟨w', fun p => t.sent p + if p = vault then 0 else balanceOf w' p - balanceOf t.world p⟩

section Split
variable {t : Tracked} (ht : Kept vault i t) (hs : Split vault i t.world w' deployable)
include ht hs

theorem Split.sent (p : Address) : (recorded vault t w').sent p =
    t.sent p + if p = vault then 0 else sentTo deployable p i.allocations.entries := by
  dsimp only [recorded]
  by_cases hp : p = vault
  · rw [if_pos hp, if_pos hp]
  · rw [if_neg hp, if_neg hp, balanceOf_of_inst hs.inst, balanceOf_of_inst ht.inst, hs.pool p hp]
    omega

theorem Split.balance : balanceOf (recorded vault t w').world vault =
    balanceOf t.world vault - taken vault deployable i.allocations.entries := by
  have hidle : balanceOf w' vault = w'.tokens i.usdc vault := balanceOf_of_inst hs.inst vault
  rw [balanceOf_of_inst ht.inst, ← hs.idle]
  exact hidle

/-- What is sent leaves the idle balance, so the capital is the same as before. -/
theorem Split.capital : capital vault (recorded vault t w') = StrategyVault.capital vault t := by
  have hinst : (recorded vault t w').world.inst = some i := hs.inst
  have hsent := hs.sent ht
  rw [capital_of_inst hinst, capital_of_inst ht.inst, hs.balance ht]
  simp only [hsent, List.sum_map_add, sum_received i.allocations.nodup]
  omega

end Split

theorem balanceOf_le_capital {t : Tracked} (ht : Kept vault i t) :
    balanceOf t.world vault ≤ capital vault t := by
  have hsum : 0 ≤ (i.allocations.entries.map fun e => t.sent e.1).sum := by
    apply List.sum_nonneg
    intro x hx
    obtain ⟨e, _, rfl⟩ := List.mem_map.mp hx
    exact ht.sent e.1
  rw [capital_of_inst ht.inst]
  omega

/-- A rebalance that is the first to send anything, or sends nothing, keeps the invariant. -/
theorem rebalance_kept {t : Tracked} (ha : Admissible i) (ht : Kept vault i t)
    (honce : (∀ p, t.sent p = 0) ∨ ∀ e ∈ i.allocations.entries,
      (balanceOf t.world vault - part BPS_DENOM (balanceOf t.world vault) i.bufferBps) * e.2 < BPS_DENOM)
    (h : rebalance rule vault env t.world = .ok w') : Kept vault i (recorded vault t w') := by
  have hidle := ht.idle
  rw [balanceOf_of_inst ht.inst] at hidle honce
  obtain ⟨d, hs⟩ := rebalance_ok ht.inst ha hidle h
  have hd := hs.nonneg
  have hle := hs.le
  have htaken : taken vault d i.allocations.entries ≤ d := taken_le ha hd
  have hbuffer := part_nonneg (n := BPS_DENOM) (by decide) hidle ha.buffer.1
  have hstart := balanceOf_le_capital ht
  have hcases : (∀ p, t.sent p = 0) ∨ ∀ p, sentTo d p i.allocations.entries = 0 ∧
      taken vault d i.allocations.entries = 0 := by
    refine honce.imp_right fun hsmall => sentTo_eq_zero ?_
    intro e he
    have h0 : 0 ≤ d * e.2 := Int.mul_nonneg hd (ha.nonneg e he)
    have hmul := Int.mul_le_mul_of_nonneg_right hle (ha.nonneg e he)
    exact Int.ediv_eq_zero_of_lt h0 (lt_of_le_of_lt hmul (hsmall e he))
  refine ⟨hs.inst, ?_, ?_, ?_, ?_⟩
  · rw [hs.balance ht, balanceOf_of_inst ht.inst]
    omega
  · intro p
    have hbefore := ht.sent p
    have hsent := sentTo_nonneg hd ha.nonneg p
    rw [hs.sent ht]
    split <;> omega
  · intro p
    rw [hs.capital ht, hs.sent ht]
    rcases hcases with hzero | hnone
    · have hcap := sentTo_capped ha hd p
      rw [balanceOf_of_inst ht.inst] at hstart
      rw [hzero]
      split <;> omega
    · rw [(hnone p).1, ite_self, add_zero]
      exact ht.respects.cap p
  · rw [hs.capital ht, hs.balance ht]
    rcases hcases with hzero | hnone
    · have hall : capital vault t = balanceOf t.world vault := by
        rw [capital_of_inst ht.inst]
        simp [hzero]
      rw [hall, balanceOf_of_inst ht.inst]
      omega
    · rw [(hnone vault).2, sub_zero]
      exact ht.respects.buffer

/-- The state of the record after a deposit of capital. -/
theorem depositCapital_kept {t : Tracked} {caller : Address} {amount : ℤ} (ha : Admissible i)
    (ht : Kept vault i t)
    (h : depositCapital rule vault env t.world caller amount = .ok w') :
    Kept vault i ⟨w', t.sent⟩ := by
  simp only [depositCapital, unwrap, bind_eq_ok, expect_eq_ok, Env.requireAuth_eq_ok, failIf_eq_ok,
    Tokens.transfer_eq_ok, pure_eq_ok, ht.inst, Option.some.injEq] at h
  obtain ⟨_, _, _, rfl, _, _, _, ⟨_, h0, _, rfl⟩, rfl⟩ := h
  obtain ⟨x, hx, hidle⟩ : ∃ x, 0 ≤ x ∧
      t.world.tokens.move i.usdc caller vault amount i.usdc vault = t.world.tokens i.usdc vault + x := by
    by_cases hc : caller = vault
    · exact ⟨0, le_rfl, by rw [hc, Tokens.move_self, add_zero]⟩
    · exact ⟨amount, h0, Tokens.move_dst _ _ hc _⟩
  have hcapital : capital vault ⟨⟨some i, t.world.tokens.move i.usdc caller vault amount⟩, t.sent⟩ =
      capital vault t + x := by
    rw [capital_of_inst (i := i) rfl, capital_of_inst ht.inst, balanceOf_of_inst (i := i) rfl,
      balanceOf_of_inst ht.inst]
    dsimp only
    rw [hidle]
    omega
  have hold := ht.idle
  rw [balanceOf_of_inst ht.inst] at hold
  refine ⟨rfl, ?_, ht.sent, ?_, ?_⟩
  · rw [balanceOf_of_inst (i := i) rfl]
    dsimp only
    omega
  · intro p
    have := ht.respects.cap p
    dsimp only
    omega
  · have hbuffer := ht.respects.buffer
    have hadd : part BPS_DENOM (capital vault t + x) i.bufferBps ≤
        part BPS_DENOM (capital vault t) i.bufferBps + x :=
      part_add_le (by decide) hx ha.buffer.2
    rw [balanceOf_of_inst ht.inst] at hbuffer
    rw [hcapital, balanceOf_of_inst (i := i) rfl]
    dsimp only
    omega

theorem exec_kept {t : Tracked} {c : Invocation} {r : Tracked × Value} (ha : Admissible i)
    (hc : IsFlow c.2) (honce : SendsOnce vault i t c) (ht : Kept vault i t)
    (h : exec rule vault t c = .ok r) : Kept vault i r.1 := by
  obtain ⟨env, call⟩ := c
  simp only [exec, bind_eq_ok, pure_eq_ok] at h
  obtain ⟨⟨w', value⟩, hstep, rfl⟩ := h
  rcases hc with rfl | ⟨caller, amount, rfl⟩
  · simp only [step, silent_eq_ok] at hstep
    obtain ⟨_, hr, hw⟩ := hstep
    obtain ⟨rfl, rfl⟩ := Prod.mk.inj hw
    exact rebalance_kept ha ht (honce rfl) hr
  · simp only [step, silent_eq_ok] at hstep
    obtain ⟨_, hd, hw⟩ := hstep
    obtain ⟨rfl, rfl⟩ := Prod.mk.inj hw
    exact depositCapital_kept ha ht hd

/-- The contract with some idle capital, before any rebalance. -/
structure Start (vault : Address) (i : Instance) (t : Tracked) : Prop where
  inst : t.world.inst = some i
  idle : 0 ≤ balanceOf t.world vault
  sent : ∀ p, t.sent p = 0

theorem Start.kept {t : Tracked} (ha : Admissible i) (ht : Start vault i t) : Kept vault i t := by
  have hall : capital vault t = balanceOf t.world vault := by
    rw [capital_of_inst ht.inst]
    simp [ht.sent]
  refine ⟨ht.inst, ht.idle, fun p => (ht.sent p).ge, ?_, ?_⟩
  · intro p
    have := ht.idle
    rw [ht.sent, hall]
    omega
  · rw [hall]
    exact part_le (by decide) ht.idle ha.buffer.2

/-- In every run of deposits and rebalances that sends capital in no rebalance after an earlier one
has, the cap of each pool and the buffer hold in every state reached. -/
theorem run_respects {t : Tracked} (ha : Admissible i) (ht : Start vault i t)
    {cs : List Invocation} (hcs : ∀ c ∈ cs, IsFlow c.2)
    (honce : Meets (exec rule vault) (SendsOnce vault i) t cs) :
    Respects vault i (run (exec rule vault) t cs) := by
  have hm : Meets (exec rule vault) (fun t c => IsFlow c.2 ∧ SendsOnce vault i t c) t cs :=
    meets_and.mpr ⟨meets_of_forall hcs, honce⟩
  exact (run_invariant_of_meets (I := Kept vault i)
    (fun _ _ _ hc ht h => exec_kept ha hc.1 hc.2 ht h) (ht.kept ha) hm).respects

/-- One pool with the full 35 %, no buffer, account 2 as harvester and account 7 as tier vault. -/
def onePool : Instance where
  admin := .account 1
  usdc := .contract 5
  harvester := some (.account 2)
  allocations := Dict.empty.set (.contract 20) 3_500
  tierVaults := Store.empty.set (.account 7) true
  poolAllowlist := Store.empty.set (.contract 20) true
  bufferBps := 0

def onePoolStart : Tracked where
  world := ⟨some onePool, fun asset holder =>
    if asset = .contract 5 ∧ (holder = .contract 9 ∨ holder = .account 7) then 10_000 else 0⟩
  sent _ := 0

theorem onePool_admissible : Admissible onePool := by
  constructor <;> decide

theorem onePool_start : Start (.contract 9) onePool onePoolStart :=
  ⟨rfl, by decide, fun _ => rfl⟩

theorem run_respects_onePool :
    Respects (.contract 9) onePool (run (exec .host (.contract 9)) onePoolStart
      [(⟨[2], none, 1⟩, .rebalance), (⟨[7], none, 2⟩, .depositCapital (.account 7) 5_000)]) :=
  run_respects onePool_admissible onePool_start (by simp [IsFlow])
    ⟨fun _ => .inl fun _ => rfl, by simp [SendsOnce], trivial⟩

/-- Two rebalances of the same 10 000 leave 5 775 in the one pool. -/
theorem onePool_exceeds_cap :
    Admissible onePool ∧ Start (.contract 9) onePool onePoolStart ∧
      capital (.contract 9) (run (exec .host (.contract 9)) onePoolStart
        [(⟨[2], none, 1⟩, .rebalance), (⟨[2], none, 2⟩, .rebalance)]) = 10_000 ∧
      (run (exec .host (.contract 9)) onePoolStart
        [(⟨[2], none, 1⟩, .rebalance), (⟨[2], none, 2⟩, .rebalance)]).sent (.contract 20) = 5_775 ∧
      ¬Respects (.contract 9) onePool (run (exec .host (.contract 9)) onePoolStart
        [(⟨[2], none, 1⟩, .rebalance), (⟨[2], none, 2⟩, .rebalance)]) :=
  ⟨onePool_admissible, onePool_start, by decide, by decide,
    fun h => absurd (h.cap (.contract 20)) (by decide)⟩

end YieldLadder.StrategyVault
