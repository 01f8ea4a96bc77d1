import Mathlib.Tactic.FieldSimp
import YieldLadder.Foundation.Rounding
import YieldLadder.Vault.Records

/-! # How far the shares of a position drift from its principal

A deposit mints the tier's multiple of its amount rounded down, a partial exit
burns the rounded proportion of the shares. While a position stays open its shares
are less than one unit a deposit below the multiple of its principal, and at most
one unit an exit above it.
-/
namespace YieldLadder
open Foundation

namespace TierVault

def deposits (k : Key) (l : List (Invocation × Reply)) : ℕ := l.countP fun e => e.1.2.isDeposit k

def exitCount (k : Key) (l : List (Invocation × Reply)) : ℕ := l.countP fun e => e.1.2.isExit k

/-- The position `k` stays open: its successful exits are of non-negative amounts below its balance. -/
structure StaysOpen (k : Key) (v : TierVault) (c : Invocation) : Prop where
  operation : IsOperation c.2
  exits : ∀ amount r, c.2 = .withdraw k.1 k.2 amount ∨ c.2 = .earlyExit k.1 k.2 amount →
    exec v c = .ok r → 0 ≤ amount ∧ amount < v.balances.getD k 0

def driftOf (p : TierParams) (v : TierVault) (k : Key) : ℤ :=
  drift SCALING_FACTOR p.multiplierFp (v.shares.getD k 0) (v.balances.getD k 0)

/-- The bounds after the calls of `l`, and what they need to be kept. -/
structure Weighted (p : TierParams) (k : Key) (v : TierVault) (l : List (Invocation × Reply)) :
    Prop where
  params : v.params = some p
  sound : v.Sound
  opened : 0 < deposits k l → 0 < v.balances.getD k 0
  closed : deposits k l = 0 → v.balances.getD k 0 = 0
  above : driftOf p v k ≤ exitCount k l * SCALING_FACTOR
  below : -(deposits k l * SCALING_FACTOR) ≤ driftOf p v k
  strictly : 0 < deposits k l → -(deposits k l * SCALING_FACTOR) < driftOf p v k

def multiplier (p : TierParams) : ℚ := p.multiplierFp / SCALING_FACTOR

variable {p : TierParams} {k : Key} {v v' : TierVault} {l : List (Invocation × Reply)}
variable {c : Invocation} {r : TierVault × Reply} {reply : Reply} {amount : ℤ}

theorem deposits_concat (c : Invocation) (reply : Reply) :
    deposits k (l ++ [(c, reply)]) = deposits k l + if c.2.isDeposit k then 1 else 0 := by
  simp [deposits, List.countP_append, List.countP_cons]

theorem exitCount_concat (c : Invocation) (reply : Reply) :
    exitCount k (l ++ [(c, reply)]) = exitCount k l + if c.2.isExit k then 1 else 0 := by
  simp [exitCount, List.countP_append, List.countP_cons]

/-- A call that neither deposits into `k` nor exits from it leaves the bounds. -/
theorem Weighted.idle (h : Weighted p k v l) (hp : v'.params = some p) (hv : v'.Sound)
    (hd : c.2.isDeposit k = false) (he : c.2.isExit k = false)
    (hbal : v'.balances.getD k 0 = v.balances.getD k 0)
    (hsh : v'.shares.getD k 0 = v.shares.getD k 0) : Weighted p k v' (l ++ [(c, reply)]) := by
  have hdrift : driftOf p v' k = driftOf p v k := by rw [driftOf, hbal, hsh, driftOf]
  have hdeposits : deposits k (l ++ [(c, reply)]) = deposits k l := by
    rw [deposits_concat, hd]
    rfl
  have hexits : exitCount k (l ++ [(c, reply)]) = exitCount k l := by
    rw [exitCount_concat, he]
    rfl
  obtain ⟨_, _, hopened, hclosed, habove, hbelow, hstrict⟩ := h
  refine ⟨hp, hv, ?_, ?_, ?_, ?_, ?_⟩
  · rwa [hdeposits, hbal]
  · rwa [hdeposits, hbal]
  · rwa [hdrift, hexits]
  · rwa [hdrift, hdeposits]
  · rwa [hdrift, hdeposits]

theorem Weighted.deposit (h : Weighted p k v l) (hp : v'.params = some p) (hv : v'.Sound)
    (h0 : 0 < amount) (hd : c.2.isDeposit k = true) (he : c.2.isExit k = false)
    (hbal : v'.balances.getD k 0 = v.balances.getD k 0 + amount)
    (hsh : v'.shares.getD k 0 = v.shares.getD k 0 + Locked.mintedShares p amount)
    (hm : 0 ≤ p.multiplierFp) : Weighted p k v' (l ++ [(c, reply)]) := by
  have hscale : (0 : ℤ) < SCALING_FACTOR := by decide
  have hminted : Locked.mintedShares p amount = amount * p.multiplierFp / SCALING_FACTOR :=
    Int.tdiv_eq_ediv_of_nonneg (Int.mul_nonneg h0.le hm)
  obtain ⟨hgt, hle⟩ := drift_grow hscale p.multiplierFp (v.shares.getD k 0) (v.balances.getD k 0) amount
  rw [← hminted, ← hbal, ← hsh] at hgt hle
  have hdeposits : (deposits k (l ++ [(c, reply)]) : ℤ) = deposits k l + 1 := by
    rw [deposits_concat, hd]
    rfl
  have hexits : exitCount k (l ++ [(c, reply)]) = exitCount k l := by
    rw [exitCount_concat, he]
    rfl
  have hbalance : 0 ≤ v.balances.getD k 0 := h.sound.coherent.principal_nonneg k
  have hbelow : -(deposits k l * SCALING_FACTOR) ≤ driftOf p v k := h.below
  have habove : driftOf p v k ≤ exitCount k l * SCALING_FACTOR := h.above
  have hlow : -((deposits k l + 1) * SCALING_FACTOR) < driftOf p v' k := by
    unfold driftOf at *
    linarith
  refine ⟨hp, hv, fun _ => by omega, fun hz => by omega, ?_, ?_, fun _ => ?_⟩
  · rw [hexits]
    exact le_trans hle habove
  · rw [hdeposits]
    exact hlow.le
  · rw [hdeposits]
    exact hlow

theorem Weighted.exit (h : Weighted p k v l) (hp : v'.params = some p) (hv : v'.Sound)
    (h0 : 0 ≤ amount) (hlt : amount < v.balances.getD k 0) (hd : c.2.isDeposit k = false)
    (he : c.2.isExit k = true) (hbal : v'.balances.getD k 0 = v.balances.getD k 0 - amount)
    (hsh : v'.shares.getD k 0 = v.shares.getD k 0 - v.book.burned k amount) :
    Weighted p k v' (l ++ [(c, reply)]) := by
  have hscale : (0 : ℤ) < SCALING_FACTOR := by decide
  have hpos : 0 < v.balances.getD k 0 := lt_of_le_of_lt h0 hlt
  have hopen : 0 < deposits k l := Nat.pos_of_ne_zero fun hz => hpos.ne' (h.closed hz)
  have hburned : v.book.burned k amount = v.shares.getD k 0 * amount / v.balances.getD k 0 :=
    Int.tdiv_eq_ediv_of_nonneg (Int.mul_nonneg (h.sound.coherent.shares_nonneg k) h0)
  rw [hburned] at hsh
  have hdeposits : deposits k (l ++ [(c, reply)]) = deposits k l := by
    rw [deposits_concat, hd]
    rfl
  have hexits : (exitCount k (l ++ [(c, reply)]) : ℤ) = exitCount k l + 1 := by
    rw [exitCount_concat, he]
    rfl
  have hnew : driftOf p v' k = drift SCALING_FACTOR p.multiplierFp
      (v.shares.getD k 0 - v.shares.getD k 0 * amount / v.balances.getD k 0)
      (v.balances.getD k 0 - amount) := by
    rw [driftOf, hbal, hsh]
  have habove : driftOf p v' k ≤ (exitCount k l + 1) * SCALING_FACTOR := by
    rw [hnew]
    exact drift_shrink_le hscale hpos h0 hlt (Int.natCast_nonneg _) h.above
  have hbelow : -(deposits k l * SCALING_FACTOR) < driftOf p v' k := by
    have hold := h.strictly hopen
    rw [← neg_mul] at hold ⊢
    rw [hnew]
    exact drift_shrink_gt hscale hpos h0 hlt (Int.natCast_nonneg _) hold
  refine ⟨hp, hv, fun _ => by omega, fun hz => by omega, ?_, ?_, fun _ => ?_⟩
  · rw [hexits]
    exact habove
  · rw [hdeposits]
    exact hbelow.le
  · rw [hdeposits]
    exact hbelow

theorem multiplierFp_ge (hp : v.params = some p) : SCALING_FACTOR ≤ p.multiplierFp := by
  cases v <;> cases hp <;> decide

/-- An exit from any position, as a move of the book. -/
theorem Weighted.takeOut {user asset : Address} (h : Weighted p k v l) (hp : v'.params = some p)
    (hv : v'.Sound) (hd : c.2.isDeposit k = false) (he : c.2.isExit k = decide ((user, asset) = k))
    (hopen : (user, asset) = k → 0 ≤ amount ∧ amount < v.balances.getD k 0)
    (hbook : v'.book = v.book.takeOut (user, asset) amount) :
    Weighted p k v' (l ++ [(c, reply)]) := by
  by_cases hk : (user, asset) = k
  · subst hk
    obtain ⟨h0, hlt⟩ := hopen rfl
    rw [Book.takeOut_of_lt hlt] at hbook
    have hbal : v'.balances = (v.book.reduce (user, asset) amount).principal :=
      congrArg Book.principal hbook
    have hsh : v'.shares = (v.book.reduce (user, asset) amount).shares := congrArg Book.shares hbook
    refine h.exit hp hv h0 hlt hd (by simp [he]) ?_ ?_
    · rw [hbal]
      exact Store.getD_set_self _ _ _ _
    · rw [hsh]
      exact Store.getD_set_self _ _ _ _
  · refine h.idle hp hv hd (by simp [he, hk]) ?_ ?_
    · have hbal : v'.balances = _ := congrArg Book.principal hbook
      rw [hbal, Store.getD, Book.takeOut_principal_of_ne (Ne.symm hk)]
      rfl
    · have hsh : v'.shares = _ := congrArg Book.shares hbook
      rw [hsh, Store.getD, Book.takeOut_shares_of_ne (Ne.symm hk)]
      rfl

theorem Weighted.step (h : Weighted p k v l) (hc : StaysOpen k v c) (hr : exec v c = .ok r) :
    Weighted p k r.1 (l ++ [(c, r.2)]) := by
  have hout : Outcome c.1 v r.1 c.2 r.2 := step_outcome hc.operation hr
  have hp : r.1.params = some p := (step_params hr).trans h.params
  have hsound : r.1.Sound := h.sound.step hc.operation hr
  obtain ⟨hop, hexits⟩ := hc
  obtain ⟨env, call⟩ := c
  obtain ⟨v', reply⟩ := r
  cases hout with
  | deposit user asset amount _ hmin hbook =>
    have hamount : 0 < amount := lt_of_lt_of_le v.minDeposit_pos hmin
    have hbal : v'.balances.getD k 0 = _ := (congrArg (·.principal.getD k 0) hbook).trans (Book.add_principal k)
    have hsh : v'.shares.getD k 0 = _ := (congrArg (·.shares.getD k 0) hbook).trans (Book.add_shares k)
    by_cases hk : (user, asset) = k
    · subst hk
      have hminted : v.minted amount = Locked.mintedShares p amount := by simp [minted, h.params]
      rw [if_pos rfl] at hbal hsh
      rw [hminted] at hsh
      exact h.deposit hp hsound hamount (by simp [VaultCall.isDeposit]) rfl hbal hsh
        (le_trans (by decide) (multiplierFp_ge h.params))
    · rw [if_neg (Ne.symm hk)] at hbal hsh
      exact h.idle hp hsound (by simp [VaultCall.isDeposit, hk]) rfl hbal hsh
  | withdraw user asset amount _ _ _ hbook =>
    exact h.takeOut hp hsound rfl rfl (fun hk => hexits amount _ (.inl (hk ▸ rfl)) hr) hbook
  | earlyExit user asset amount _ _ _ hbook =>
    exact h.takeOut hp hsound rfl rfl (fun hk => hexits amount _ (.inr (hk ▸ rfl)) hr) hbook
  | other call reply hbook _ hd hw he =>
    have hbal : v'.balances.getD k 0 = v.balances.getD k 0 := congrArg (·.principal.getD k 0) hbook
    have hsh : v'.shares.getD k 0 = v.shares.getD k 0 := congrArg (·.shares.getD k 0) hbook
    refine h.idle hp hsound ?_ ?_ hbal hsh
    · cases call <;> first | rfl | exact absurd rfl (hd _ _ _)
    · cases call <;> first | rfl | exact absurd rfl (hw _ _ _) | exact absurd rfl (he _ _ _)

theorem weighted_of_empty (hp : v.params = some p) (hv : v.Sound) (h0 : v.balances.getD k 0 = 0) :
    Weighted p k v [] := by
  have hnone : v.balances.get k = none := by
    cases hk : v.balances.get k with
    | none => rfl
    | some x =>
      have hpos : 0 < x := hv.coherent.principal_pos k x hk
      rw [Store.getD_of_get hk] at h0
      omega
  have hshares : v.shares.getD k 0 = 0 := Store.getD_of_none ((hv.coherent.same_keys k).mp hnone) 0
  have hdrift : driftOf p v k = 0 := by rw [driftOf, hshares, h0, drift, mul_zero, mul_zero, sub_zero]
  have hzero : deposits k [] = 0 := rfl
  refine ⟨hp, hv, fun h => absurd h (by omega), fun _ => h0, ?_, ?_, fun h => absurd h (by omega)⟩
  · rw [hdrift]
    exact Int.mul_nonneg (Int.natCast_nonneg _) (by decide)
  · rw [hdrift, hzero]
    rfl

/-- While a position stays open its shares lie above the multiple of its principal less one unit a
deposit, and at most one unit an exit above it. -/
theorem run_drift_bounded {t : Tier} (hv : Initialised t v) (hp : v.params = some p)
    {before cs : List Invocation} (hbefore : ∀ c ∈ before, IsOperation c.2)
    (h0 : (run exec v before).balances.getD k 0 = 0)
    (hcs : Meets exec (StaysOpen k) (run exec v before) cs)
    (hopened : 0 < deposits k (log exec (run exec v before) cs)) :
    -(deposits k (log exec (run exec v before) cs) : ℚ) <
        (run exec v (before ++ cs)).shares.getD k 0 -
          multiplier p * (run exec v (before ++ cs)).balances.getD k 0 ∧
      (run exec v (before ++ cs)).shares.getD k 0 -
          multiplier p * (run exec v (before ++ cs)).balances.getD k 0 ≤
        exitCount k (log exec (run exec v before) cs) ∧
      0 < (run exec v (before ++ cs)).shares.getD k 0 := by
  have hparams : (run exec v before).params = some p := (run_params before).trans hp
  have hstart : Weighted p k (run exec v before) [] :=
    weighted_of_empty hparams ((initialised_sound hv).run hbefore) h0
  have hend := run_log_invariant_of_meets (I := Weighted p k) (fun _ _ _ _ hc h hr => h.step hc hr)
    hstart hcs
  rw [run_append]
  generalize run exec (run exec v before) cs = w at hend ⊢
  generalize log exec (run exec v before) cs = l at hend hopened ⊢
  have hscale : (0 : ℚ) < (SCALING_FACTOR : ℚ) := by norm_num [SCALING_FACTOR]
  have hdrift : ((driftOf p w k : ℤ) : ℚ) =
      (w.shares.getD k 0 - multiplier p * w.balances.getD k 0) * SCALING_FACTOR := by
    unfold driftOf drift multiplier
    push_cast
    field_simp
  have habove : ((driftOf p w k : ℤ) : ℚ) ≤ exitCount k l * SCALING_FACTOR := by
    exact_mod_cast hend.above
  have hbelow : -(deposits k l : ℚ) * SCALING_FACTOR < ((driftOf p w k : ℤ) : ℚ) := by
    have := hend.strictly hopened
    rw [neg_mul]
    exact_mod_cast this
  rw [hdrift] at habove hbelow
  refine ⟨lt_of_mul_lt_mul_right hbelow hscale.le, le_of_mul_le_mul_right habove hscale, ?_⟩
  exact hend.sound.coherent.shares_getD_pos (hend.opened hopened).ne'

def dustRun : List Invocation :=
  [(⟨[1], none, 10⟩, .deposit (.account 7) (.account 5) 500_000_001),
   (⟨[1], none, 11⟩, .earlyExit (.account 7) (.account 5) 3)]

theorem run_drift_bounded_guarded :
    ((run exec guarded dustRun).shares.getD (.account 7, .account 5) 0 : ℚ) -
        multiplier VaultL3.params * (run exec guarded dustRun).balances.getD (.account 7, .account 5) 0 ≤
      1 := by
  have hmeets : Meets exec (StaysOpen (.account 7, .account 5)) (run exec guarded []) dustRun := by
    refine ⟨⟨by simp [IsOperation], ?_⟩, ⟨by simp [IsOperation], ?_⟩, trivial⟩
    · rintro amount r (h | h) _ <;> cases h
    · rintro amount r (h | h) _ <;> cases h
      decide
  have hopened : 0 < deposits (.account 7, .account 5) (log exec (run exec guarded []) dustRun) := by
    decide
  have hexits : exitCount (.account 7, .account 5) (log exec (run exec guarded []) dustRun) = 1 := by
    decide
  have hbound := (run_drift_bounded guarded_initialised rfl (by simp) rfl hmeets hopened).2.1
  rw [hexits] at hbound
  exact_mod_cast hbound

end TierVault
end YieldLadder
