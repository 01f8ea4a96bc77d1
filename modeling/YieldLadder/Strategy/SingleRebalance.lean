import Mathlib.Data.List.Perm.Basic
import YieldLadder.Strategy.Rebalance

/-! # One rebalance

What one rebalance does to the balances is a fold of moves, one for each entry of
the allocation map. The parts of the deployable amount add up to no more than the
amount itself, so no transfer of the loop finds the balance short, and moves out
of one holder commute, so the map may be visited in any order.
-/
namespace YieldLadder.StrategyVault
open Foundation

def reserved (i : Instance) (total : ℤ) : ℤ := part BPS_DENOM total i.bufferBps

def deployable (i : Instance) (total : ℤ) : ℤ := total - reserved i total

def paid (vault usdc : Address) (amount : ℤ) (tokens : Tokens) (l : List (Address × ℤ)) : Tokens :=
  l.foldl (fun t e => t.move usdc vault e.1 (part BPS_DENOM amount e.2)) tokens

/-- The harvester signed, the settings are admissible and there is a balance to split. -/
structure Ready (vault : Address) (i : Instance) (env : Env) (w : World) : Prop where
  inst : w.inst = some i
  settings : Admissible i
  harvester : ∃ harvester, i.harvester = some harvester ∧ env.Authorized harvester
  balance : 0 ≤ w.tokens i.usdc vault
  range : InI128 (w.tokens i.usdc vault)

/-- None of the products of a rebalance of `total` overflows. -/
structure InRange (i : Instance) (total : ℤ) : Prop where
  buffer : InI128 (total * i.bufferBps)
  targets : ∀ e ∈ i.allocations.entries, InI128 (deployable i total * e.2)

/-- The contract after a rebalance that split the deployable part of `total`, and what moved. -/
structure Rebalanced (vault : Address) (i : Instance) (w w' : World) (total : ℤ) : Prop where
  inst : w'.inst = w.inst
  tokens : w'.tokens = paid vault i.usdc (deployable i total) w.tokens i.allocations.entries
  covered : ∀ l₁ e l₂, i.allocations.entries = l₁ ++ e :: l₂ →
    part BPS_DENOM (deployable i total) e.2 ≤
      paid vault i.usdc (deployable i total) w.tokens l₁ i.usdc vault
  received : ∀ e ∈ i.allocations.entries, e.1 ≠ vault →
    w'.tokens i.usdc e.1 = w.tokens i.usdc e.1 + part BPS_DENOM (deployable i total) e.2
  others : ∀ p, p ≠ vault → p ∉ i.allocations.entries.map Prod.fst →
    w'.tokens i.usdc p = w.tokens i.usdc p
  assets : ∀ a holder, a ≠ i.usdc → w'.tokens a holder = w.tokens a holder
  sent : (i.allocations.entries.map (part BPS_DENOM (deployable i total) ·.2)).sum ≤ deployable i total
  idle : reserved i total ≤ w'.tokens i.usdc vault
  capped : ∀ e ∈ i.allocations.entries, 100 * part BPS_DENOM (deployable i total) e.2 ≤ 35 * total

variable {rule : TokenRule} {vault usdc : Address} {env : Env} {tokens : Tokens} {amount total : ℤ}
variable {l l' : List (Address × ℤ)} {i : Instance} {w w' : World}

theorem paid_perm (vault usdc : Address) (amount : ℤ) (tokens : Tokens) (h : l.Perm l') :
    paid vault usdc amount tokens l = paid vault usdc amount tokens l' := by
  apply h.foldl_eq'
  intro x _ y _ t
  exact t.move_right_comm usdc vault x.1 y.1 _ _

theorem paid_other_asset {a : Address} (ha : a ≠ usdc) (holder : Address) :
    paid vault usdc amount tokens l a holder = tokens a holder := by
  induction l generalizing tokens with
  | nil => rfl
  | cons e l ih =>
    have hmove := tokens.move_other_asset ha vault e.1 (part BPS_DENOM amount e.2) holder
    rw [← hmove]
    exact ih

/-- A turn of the loop goes through when the part is within the balance. -/
theorem sendTarget_covered {e : Address × ℤ} (hamount : 0 ≤ amount) (he : 0 ≤ e.2)
    (hrange : InI128 (amount * e.2)) (hfit : part BPS_DENOM amount e.2 ≤ tokens usdc vault) :
    sendTarget rule vault env usdc amount tokens e =
      .ok (tokens.move usdc vault e.1 (part BPS_DENOM amount e.2)) := by
  have hprod : 0 ≤ amount * e.2 := Int.mul_nonneg hamount he
  have hle : (amount * e.2).tdiv BPS_DENOM ≤ amount * e.2 := by
    rw [Int.tdiv_eq_ediv_of_nonneg hprod]
    exact Int.ediv_le_self _ hprod
  have h0 : 0 ≤ (amount * e.2).tdiv BPS_DENOM := Int.tdiv_nonneg hprod (by decide)
  have hpart : (amount * e.2).tdiv BPS_DENOM = part BPS_DENOM amount e.2 :=
    Int.tdiv_eq_ediv_of_nonneg hprod
  have hchecked : checked "rebalance overflow" (amount * e.2) = .ok (amount * e.2) :=
    checked_eq_ok.mpr ⟨hrange, rfl⟩
  have hdiv : divI128 (amount * e.2) BPS_DENOM = .ok (part BPS_DENOM amount e.2) :=
    divI128_eq_ok.mpr ⟨by decide, inI128_of_le h0 hle hrange, hpart⟩
  simp only [sendTarget, hchecked, hdiv, ok_bind]
  split
  · next hpos =>
    exact Tokens.transfer_eq_ok.mpr ⟨.inl (env.authorized_calledBy vault), hpos.le, hfit, rfl⟩
  · have hzero : part BPS_DENOM amount e.2 = 0 := by omega
    rw [hzero, Tokens.move_zero]
    rfl

/-- The loop goes through while the parts of the entries fit in the balance. -/
theorem sendTargets_covered (hamount : 0 ≤ amount) (hl : ∀ e ∈ l, 0 ≤ e.2)
    (hrange : ∀ e ∈ l, InI128 (amount * e.2))
    (hfit : (l.map (part BPS_DENOM amount ·.2)).sum ≤ tokens usdc vault) :
    l.foldlM (sendTarget rule vault env usdc amount) tokens = .ok (paid vault usdc amount tokens l) := by
  induction l generalizing tokens with
  | nil => rfl
  | cons e l ih =>
    have hparts : ∀ x ∈ e :: l, 0 ≤ part BPS_DENOM amount x.2 := fun x hx =>
      part_nonneg (by decide) hamount (hl x hx)
    have hhead := hparts e List.mem_cons_self
    have hrest : 0 ≤ (l.map (part BPS_DENOM amount ·.2)).sum := by
      apply List.sum_nonneg
      intro y hy
      obtain ⟨x, hx, rfl⟩ := List.mem_map.mp hy
      exact hparts x (List.mem_cons_of_mem e hx)
    rw [List.map_cons, List.sum_cons] at hfit
    have hsend : sendTarget rule vault env usdc amount tokens e =
        .ok (tokens.move usdc vault e.1 (part BPS_DENOM amount e.2)) :=
      sendTarget_covered hamount (hl e List.mem_cons_self) (hrange e List.mem_cons_self) (by omega)
    have hleft := tokens.le_move_src usdc vault e.1 hhead
    rw [List.foldlM_cons, hsend, ok_bind]
    apply ih
    · exact fun x hx => hl x (List.mem_cons_of_mem e hx)
    · exact fun x hx => hrange x (List.mem_cons_of_mem e hx)
    · omega

theorem reserved_nonneg (ha : Admissible i) (h0 : 0 ≤ total) : 0 ≤ reserved i total :=
  part_nonneg (by decide) h0 ha.buffer.1

theorem deployable_nonneg (ha : Admissible i) (h0 : 0 ≤ total) : 0 ≤ deployable i total := by
  have hle : reserved i total ≤ total := part_le (by decide) h0 ha.buffer.2
  unfold deployable
  omega

theorem deployable_le (ha : Admissible i) (h0 : 0 ≤ total) : deployable i total ≤ total := by
  have hres := reserved_nonneg ha h0
  unfold deployable
  omega

theorem sum_parts_le (ha : Admissible i) (hamount : 0 ≤ amount) :
    (i.allocations.entries.map (part BPS_DENOM amount ·.2)).sum ≤ amount := by
  have hparts := sum_part_le (n := BPS_DENOM) (by decide) hamount ha.total
  rwa [List.map_map] at hparts

/-- The computation before the loop: nothing overflows, and what is not reserved is deployable. -/
theorem rebalance_eq (h : Ready vault i env w) (hbuffer : InI128 (w.tokens i.usdc vault * i.bufferBps)) :
    rebalance rule vault env w = (do
      let tokens ← i.allocations.entries.foldlM
        (sendTarget rule vault env i.usdc (deployable i (w.tokens i.usdc vault))) w.tokens
      pure { w with tokens }) := by
  obtain ⟨harvester, hset, hauth⟩ := h.harvester
  have h0 := h.balance
  have hmax := h.range
  have hle : reserved i (w.tokens i.usdc vault) ≤ w.tokens i.usdc vault :=
    part_le (by decide) h0 h.settings.buffer.2
  have hres := reserved_nonneg h.settings h0
  have htdiv : (w.tokens i.usdc vault * i.bufferBps).tdiv BPS_DENOM =
      reserved i (w.tokens i.usdc vault) :=
    Int.tdiv_eq_ediv_of_nonneg (Int.mul_nonneg h0 h.settings.buffer.1)
  have hchecked : checked "buffer calc overflow" (w.tokens i.usdc vault * i.bufferBps) =
      .ok (w.tokens i.usdc vault * i.bufferBps) := checked_eq_ok.mpr ⟨hbuffer, rfl⟩
  have hdiv : divI128 (w.tokens i.usdc vault * i.bufferBps) BPS_DENOM =
      .ok (reserved i (w.tokens i.usdc vault)) :=
    divI128_eq_ok.mpr ⟨by decide, htdiv ▸ inI128_of_le hres hle hmax, htdiv⟩
  have hsub : saturatingSub (w.tokens i.usdc vault) (reserved i (w.tokens i.usdc vault)) =
      deployable i (w.tokens i.usdc vault) := by
    unfold InI128 i128Min i128Max at hmax
    unfold saturatingSub deployable i128Min i128Max
    omega
  have hauthOk : env.requireAuth harvester = .ok () := Env.requireAuth_eq_ok.mpr hauth
  simp only [rebalance, unwrap, h.inst, hset, expect_some, hauthOk, hchecked, hdiv, hsub, ok_bind]

theorem rebalance_succeeds (h : Ready vault i env w) (hr : InRange i (w.tokens i.usdc vault)) :
    rebalance rule vault env w = .ok { w with
      tokens := paid vault i.usdc (deployable i (w.tokens i.usdc vault)) w.tokens i.allocations.entries } := by
  have hd := deployable_nonneg h.settings h.balance
  have hfit := deployable_le h.settings h.balance
  rw [rebalance_eq h hr.buffer, sendTargets_covered hd h.settings.nonneg hr.targets
    ((sum_parts_le h.settings hd).trans hfit)]
  rfl

theorem le_paid (vault usdc : Address) (tokens : Tokens) (hamount : 0 ≤ amount) (hl : ∀ e ∈ l, 0 ≤ e.2) :
    tokens usdc vault - (l.map (part BPS_DENOM amount ·.2)).sum ≤
      paid vault usdc amount tokens l usdc vault := by
  induction l generalizing tokens with
  | nil => simp [paid]
  | cons e l ih =>
    have hpart : 0 ≤ part BPS_DENOM amount e.2 :=
      part_nonneg (by decide) hamount (hl e List.mem_cons_self)
    have hmove := tokens.le_move_src usdc vault e.1 hpart
    have hrest := ih (tokens.move usdc vault e.1 (part BPS_DENOM amount e.2))
      fun x hx => hl x (List.mem_cons_of_mem e hx)
    have hpaid : paid vault usdc amount tokens (e :: l) =
        paid vault usdc amount (tokens.move usdc vault e.1 (part BPS_DENOM amount e.2)) l := rfl
    rw [hpaid, List.map_cons, List.sum_cons]
    omega

theorem covered_of_split (ha : Admissible i) (hamount : 0 ≤ amount) (hfit : amount ≤ tokens usdc vault)
    {l₁ l₂ : List (Address × ℤ)} {e : Address × ℤ} (h : i.allocations.entries = l₁ ++ e :: l₂) :
    part BPS_DENOM amount e.2 ≤ paid vault usdc amount tokens l₁ usdc vault := by
  have hall := sum_parts_le ha hamount
  have hnonneg := ha.nonneg
  rw [h] at hall hnonneg
  have hbefore := le_paid vault usdc tokens hamount
    fun x hx => hnonneg x (List.mem_append_left _ hx)
  have hafter : 0 ≤ (l₂.map (part BPS_DENOM amount ·.2)).sum := by
    apply List.sum_nonneg
    intro y hy
    obtain ⟨x, hx, rfl⟩ := List.mem_map.mp hy
    exact part_nonneg (by decide) hamount
      (hnonneg x (List.mem_append_right _ (List.mem_cons_of_mem e hx)))
  rw [List.map_append, List.sum_append, List.map_cons, List.sum_cons] at hall
  omega

theorem rebalanced_of_ok (h : Ready vault i env w) (hr : InRange i (w.tokens i.usdc vault))
    (hok : rebalance rule vault env w = .ok w') :
    Rebalanced vault i w w' (w.tokens i.usdc vault) := by
  have hd := deployable_nonneg h.settings h.balance
  have hfit := deployable_le h.settings h.balance
  have hsum := sum_parts_le h.settings hd
  have hloop : i.allocations.entries.foldlM
      (sendTarget rule vault env i.usdc (deployable i (w.tokens i.usdc vault))) w.tokens = _ :=
    sendTargets_covered hd h.settings.nonneg hr.targets (hsum.trans hfit)
  obtain ⟨-, hpool⟩ := sendTargets_ok hd h.settings.nonneg hloop
  have hstate := Except.ok.inj (hok.symm.trans (rebalance_succeeds h hr))
  have htokens : w'.tokens = paid vault i.usdc (deployable i (w.tokens i.usdc vault)) w.tokens
      i.allocations.entries := congrArg World.tokens hstate
  have hinst : w'.inst = w.inst := by rw [hstate]
  refine ⟨hinst, htokens, ?_, ?_, ?_, ?_, hsum, ?_, ?_⟩
  · intro l₁ e l₂ hsplit
    exact covered_of_split h.settings hd hfit hsplit
  · intro e he hne
    rw [htokens, hpool e.1 hne, sentTo_of_mem i.allocations.nodup he]
  · intro p hp hnot
    rw [htokens, hpool p hp, sentTo_of_not_mem hnot, add_zero]
  · intro a holder ha
    rw [htokens]
    exact paid_other_asset ha holder
  · have hle := le_paid vault i.usdc w.tokens hd h.settings.nonneg
    rw [htokens]
    unfold deployable at *
    omega
  · intro e he
    have hcap := sentTo_capped h.settings hd e.1
    rw [sentTo_of_mem i.allocations.nodup he] at hcap
    omega

theorem Ready.perm {m : Dict Address ℤ} (hm : m.entries.Perm i.allocations.entries)
    (h : Ready vault i env w) (hr : InRange i (w.tokens i.usdc vault)) :
    Ready vault { i with allocations := m } env { w with inst := some { i with allocations := m } } ∧
      InRange { i with allocations := m } (w.tokens i.usdc vault) := by
  have hsum : (m.entries.map Prod.snd).sum ≤ BPS_DENOM :=
    (hm.map Prod.snd).sum_eq.trans_le h.settings.total
  have hadmissible : Admissible { i with allocations := m } :=
    ⟨fun e he => h.settings.nonneg e (hm.mem_iff.mp he), fun e he => h.settings.capped e (hm.mem_iff.mp he),
      hsum, h.settings.buffer⟩
  exact ⟨⟨rfl, hadmissible, h.harvester, h.balance, h.range⟩, hr.buffer,
    fun e he => hr.targets e (hm.mem_iff.mp he)⟩

/-- One rebalance never overspends: when no product overflows it succeeds and splits what is
deployable, and the order of the map does not change what it does. -/
theorem rebalance_never_overspends (rule : TokenRule) (h : Ready vault i env w)
    (hr : InRange i (w.tokens i.usdc vault)) :
    ∃ w', rebalance rule vault env w = .ok w' ∧ Rebalanced vault i w w' (w.tokens i.usdc vault) ∧
      ∀ m : Dict Address ℤ, m.entries.Perm i.allocations.entries →
        rebalance rule vault env { w with inst := some { i with allocations := m } } =
          .ok { w' with inst := some { i with allocations := m } } := by
  have hok : rebalance rule vault env w = _ := rebalance_succeeds h hr
  refine ⟨_, hok, rebalanced_of_ok h hr hok, ?_⟩
  intro m hm
  obtain ⟨hready, hrange⟩ := h.perm hm hr
  have hperm := paid_perm vault i.usdc (deployable i (w.tokens i.usdc vault)) w.tokens hm
  rw [rebalance_succeeds hready hrange, ← hperm]
  rfl

def twoPools : Instance :=
  { onePool with
    allocations := onePool.allocations.set (.contract 21) 2_000
    bufferBps := DEFAULT_BUFFER_BPS }

/-- 10 007 idle: 500 stay, and the pools get 3 327 and 1 901 of the other 9 507. -/
def twoPoolsWorld : World where
  inst := some twoPools
  tokens asset holder := if asset = .contract 5 ∧ holder = .contract 9 then 10_007 else 0

theorem rebalance_never_overspends_twoPools :
    ∃ w', rebalance .host (.contract 9) ⟨[2], none, 1⟩ twoPoolsWorld = .ok w' ∧
      Rebalanced (.contract 9) twoPools twoPoolsWorld w' 10_007 ∧
      ∀ m : Dict Address ℤ, m.entries.Perm twoPools.allocations.entries →
        rebalance .host (.contract 9) ⟨[2], none, 1⟩
            { twoPoolsWorld with inst := some { twoPools with allocations := m } } =
          .ok { w' with inst := some { twoPools with allocations := m } } :=
  rebalance_never_overspends .host
    ⟨rfl, ⟨by decide, by decide, by decide, by decide⟩, ⟨.account 2, rfl, by decide⟩, by decide, by decide⟩
    ⟨by decide, by decide⟩

end YieldLadder.StrategyVault
