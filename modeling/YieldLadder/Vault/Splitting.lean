import YieldLadder.Foundation.Rounding
import YieldLadder.Vault.Isolation

/-! # Splitting an early exit

The fee of an early exit is its amount times the tier's rate, rounded down, each
time anew. So a split exit pays out at least what a single exit of the sum pays,
and more as soon as the remainders of the parts fill a unit of the rate; an exit
whose product with the rate is below the scale pays no fee at all.
-/
namespace YieldLadder.TierVault
open Foundation

/-- Early exits from one position in order, with what each of them pays out. -/
def exits (v : TierVault) (user asset : Address) : List (Env × ℤ) → Except Fault (TierVault × List ℤ)
  | [] => pure (v, [])
  | (env, amount) :: rest => do
    let (v', reply) ← step env v (.earlyExit user asset amount)
    let payout ← reply.value.asI128
    let (w, payouts) ← exits v' user asset rest
    pure (w, payout :: payouts)

variable {env : Env} {v w : TierVault} {user asset : Address} {amount : ℤ} {p : TierParams}
variable {r : TierVault × Reply} {call : VaultCall} {parts : List (Env × ℤ)} {payouts : List ℤ}

theorem earlyExit_emergency (h : step env v (.earlyExit user asset amount) = .ok r) :
    r.1.emergency = v.emergency := by
  rcases step_emergency h with hem | ⟨⟨_, _, hc⟩, _⟩
  · exact hem
  · cases hc

theorem exitFee_locked (hp : v.params = some p) (hem : v.emergency asset = false) (h0 : 0 ≤ amount) :
    v.exitFee asset amount = amount * p.exitFeeFp / SCALING_FACTOR := by
  rw [exitFee_eq v asset h0]
  simp [exitRate, hem, hp]

theorem exits_sum (hp : v.params = some p) (hem : v.emergency asset = false)
    (hpos : ∀ e ∈ parts, 0 < e.2) (h : exits v user asset parts = .ok (w, payouts)) :
    payouts = parts.map fun e => e.2 - e.2 * p.exitFeeFp / SCALING_FACTOR := by
  induction parts generalizing v payouts with
  | nil =>
    obtain ⟨_, rfl⟩ := Prod.mk.inj (pure_eq_ok.mp h)
    rfl
  | cons e rest ih =>
    obtain ⟨env, amount⟩ := e
    simp only [exits, bind_eq_ok, Value.asI128_eq_ok, pure_eq_ok] at h
    obtain ⟨⟨v', reply⟩, hstep, payout, hpay, ⟨w', tail⟩, hrest, heq⟩ := h
    obtain ⟨rfl, rfl⟩ := Prod.mk.inj heq
    have hamount : 0 < amount := hpos (env, amount) List.mem_cons_self
    have hvalue : reply.value = .i128 (amount - v.exitFee asset amount) := earlyExit_value hstep
    have hp' : v'.params = some p := (step_params hstep).trans hp
    have hem' : v'.emergency asset = false := by rw [earlyExit_emergency hstep, hem]
    rw [hpay, exitFee_locked hp hem hamount.le] at hvalue
    rw [List.map_cons, Value.i128.inj hvalue,
      ih hp' hem' (fun e he => hpos e (List.mem_cons_of_mem _ he)) hrest]

theorem map_sub_sum (f : ℤ → ℤ) (parts : List (Env × ℤ)) :
    (parts.map fun e => e.2 - f e.2).sum = (parts.map (·.2)).sum - ((parts.map (·.2)).map f).sum := by
  induction parts with
  | nil => simp
  | cons e rest ih =>
    simp only [List.map_cons, List.sum_cons, ih]
    omega

/-- A split pays out no more than the single exit exactly when the remainders of its parts stay below
one unit, and an exit pays a fee exactly when its product with the rate reaches one. -/
theorem splitting_iff (hp : v.params = some p) (hem : v.emergency asset = false)
    (hpos : ∀ e ∈ parts, 0 < e.2) (hsplit : exits v user asset parts = .ok (w, payouts))
    (hsingle : step env v (.earlyExit user asset (parts.map (·.2)).sum) = .ok r) {paid : ℤ}
    (hpaid : r.2.value = .i128 paid) :
    (payouts.sum ≤ paid ↔
      (parts.map fun e => e.2 * p.exitFeeFp % SCALING_FACTOR).sum < SCALING_FACTOR) ∧
    ∀ env' amount q net, 0 < amount → step env' v (.earlyExit user asset amount) = .ok q →
      q.2.value = .i128 net → (net + 1 ≤ amount ↔ SCALING_FACTOR ≤ amount * p.exitFeeFp) := by
  have hscale : (0 : ℤ) < SCALING_FACTOR := by decide
  have hfee0 : 0 ≤ p.exitFeeFp := (exitFeeFp_mem hp).1
  have hsum0 : 0 ≤ (parts.map (·.2)).sum := by
    apply List.sum_nonneg
    intro x hx
    obtain ⟨e, he, rfl⟩ := List.mem_map.mp hx
    exact (hpos e he).le
  constructor
  · have hvalue := earlyExit_value hsingle
    rw [hpaid, exitFee_locked hp hem hsum0] at hvalue
    have hprod : (parts.map (·.2)).sum * p.exitFeeFp = ((parts.map (·.2)).map (· * p.exitFeeFp)).sum := by
      rw [List.map_map]
      exact (List.sum_map_mul_right _ _ _).symm
    have hiff := sum_ediv_le_iff hscale ((parts.map (·.2)).map (· * p.exitFeeFp))
    simp only [List.map_map, Function.comp_def] at hiff hprod
    rw [exits_sum hp hem hpos hsplit, map_sub_sum (fun x => x * p.exitFeeFp / SCALING_FACTOR),
      Value.i128.inj hvalue, ← hiff, hprod]
    simp only [List.map_map, Function.comp_def]
    omega
  · intro env' amount q net hamount hq hnet
    have hvalue := earlyExit_value hq
    rw [hnet, exitFee_locked hp hem hamount.le] at hvalue
    rw [Value.i128.inj hvalue]
    have hone : 1 ≤ amount * p.exitFeeFp / SCALING_FACTOR ↔ SCALING_FACTOR ≤ amount * p.exitFeeFp := by
      rw [Int.le_ediv_iff_mul_le hscale, one_mul]
    omega

def funded : TierVault :=
  run exec guarded [(⟨[1], none, 10⟩, .deposit (.account 7) (.account 5) 500_000_000)]

theorem splitting_iff_funded :
    ∃ w payouts, exits funded (.account 7) (.account 5)
      [(⟨[1], none, 11⟩, 400), (⟨[1], none, 12⟩, 201)] = .ok (w, payouts) ∧ payouts.sum ≤ 598 := by
  have hpos : ∀ e ∈ ([(⟨[1], none, 11⟩, 400), (⟨[1], none, 12⟩, 201)] : List (Env × ℤ)), 0 < e.2 := by
    simp
  have hsingle : ∃ v', step ⟨[1], none, 11⟩ funded (.earlyExit (.account 7) (.account 5) 601) =
      .ok (v', ⟨.i128 598, [.earlyExit (.account 7) (.account 5) 598]⟩) := ⟨_, rfl⟩
  obtain ⟨v', hsingle⟩ := hsingle
  exact ⟨_, _, rfl, (splitting_iff (p := VaultL3.params) rfl rfl hpos rfl hsingle rfl).1.mpr (by decide)⟩

/-- A fee of half a percent on 200 units is one unit; in parts of 199 and one it is none. -/
theorem split_dodges :
    ∃ w r, exits funded (.account 7) (.account 5) [(⟨[1], none, 11⟩, 199), (⟨[1], none, 11⟩, 1)] =
        .ok (w, [199, 1]) ∧
      step ⟨[1], none, 11⟩ funded (.earlyExit (.account 7) (.account 5) 200) =
        .ok (r, ⟨.i128 199, [.earlyExit (.account 7) (.account 5) 199]⟩) ∧
      ¬[199, 1].sum ≤ (199 : ℤ) :=
  ⟨_, _, rfl, rfl, by decide⟩

end YieldLadder.TierVault
