import YieldLadder.Vault.Isolation

/-! # What a withdrawal and an early exit leave

The two exits of the locked tiers are separate code with the same bookkeeping.
Where both succeed they leave the same vault, so they differ in the payout alone,
by the fee. With the router's authorization and an amount that the balance covers
an early exit has nothing left to fail on but the range of a value.
-/
namespace YieldLadder
open Foundation

namespace Locked
variable {p : TierParams} {emergency : Bool} {env : Env} {s : State} {i : Instance}
variable {user asset : Address} {amount : ℤ}

theorem exitFee_fails : FailsOnly (· = Fault.overflow) (exitFee p emergency amount) := by
  cases emergency with
  | true => exact .of_ok rfl
  | false => exact mulFp_fails amount p.exitFeeFp

/-- The bookkeeping of an exit divides by the balance, which it only does where there is one. -/
theorem takeOut_fails (h0 : 0 < amount) : FailsOnly (· = Fault.overflow) (takeOut i s user asset amount) := by
  unfold takeOut
  dsimp only
  split
  · exact .bind (inI128_fails _) fun _ _ => .bind (inI128_fails _) fun _ _ => .of_ok rfl
  · next hlt =>
    have hb : s.balance.getD (user, asset) 0 ≠ 0 := by omega
    exact .bind (inI128_fails _) fun _ _ => .bind (divI128_fails _ hb) fun _ _ =>
      .bind (inI128_fails _) fun _ _ => .bind (inI128_fails _) fun _ _ =>
      .bind (inI128_fails _) fun _ _ => .bind (inI128_fails _) fun _ _ => .of_ok rfl

theorem earlyExit_fails (hi : s.inst = some i) (ha : env.Authorized i.admin) (h0 : 0 < amount)
    (hle : amount ≤ s.balance.getD (user, asset) 0) :
    FailsOnly (· = Fault.overflow) (earlyExit p emergency env s user asset amount) := by
  refine .bind ?_ fun _ _ => .of_ok rfl
  unfold doEarlyExit
  rw [hi]
  refine .bind (.of_ok (expect_some _ i)) fun j hj => ?_
  obtain rfl : i = j := Except.ok.inj hj
  have hauth : env.requireAuth i.admin = .ok () := Env.requireAuth_eq_ok.mpr ha
  refine .bind (.of_ok hauth) fun _ _ => ?_
  refine .bind (.of_ok (failIf_of_not (not_lt.mpr hle))) fun _ _ => ?_
  exact .bind exitFee_fails fun _ _ => .bind (inI128_fails _) fun _ _ =>
    .bind (takeOut_fails h0) fun _ _ => .of_ok rfl

theorem exits_same_state {r q : State × Reply} {emergency' : Bool}
    (hr : withdraw emergency env s user asset amount = .ok r)
    (hq : earlyExit p emergency' env s user asset amount = .ok q) : r.1 = q.1 := by
  simp only [withdraw, earlyExit, bind_eq_ok, pure_eq_ok] at hr hq
  obtain ⟨_, hr, rfl⟩ := hr
  obtain ⟨_, hq, rfl⟩ := hq
  obtain ⟨i, hi, _, _, _, htake, _⟩ := doWithdraw_ok hr
  obtain ⟨j, hj, _, _, htake', _⟩ := doEarlyExit_ok hq
  obtain rfl : i = j := Option.some.inj (hi.symm.trans hj)
  exact Except.ok.inj (htake.symm.trans htake')

end Locked

namespace TierVault
variable {env : Env} {v : TierVault} {p : TierParams} {user asset : Address} {amount : ℤ}
variable {r q : TierVault × Reply}

theorem exits_same_state (hp : v.params = some p)
    (hr : step env v (.withdraw user asset amount) = .ok r)
    (hq : step env v (.earlyExit user asset amount) = .ok q) : r.1 = q.1 := by
  obtain ⟨s, hs⟩ := exists_core hp
  rw [step_eq_operate hp hs (by simp) (by simp [AboutFlags]), bind_eq_ok] at hr hq
  obtain ⟨x, hx, hr⟩ := hr
  obtain ⟨y, hy, hq⟩ := hq
  obtain rfl := pure_eq_ok.mp hr
  obtain rfl := pure_eq_ok.mp hq
  exact congrArg v.withCore (Locked.exits_same_state hx hy)

theorem earlyExit_fails (hp : v.params = some p) (ha : v.AdminAuthorized env) (h0 : 0 < amount)
    (hle : amount ≤ v.balance user asset) :
    FailsOnly (· = Fault.overflow) (step env v (.earlyExit user asset amount)) := by
  obtain ⟨s, hs⟩ := exists_core hp
  obtain ⟨i, hi, ha⟩ := ha.of_core hs
  rw [balance_of_core hs] at hle
  rw [step_eq_operate hp hs (by simp) (by simp [AboutFlags])]
  exact .bind (Locked.earlyExit_fails hi ha h0 hle) fun _ _ => .of_ok rfl

/-- What a full exit leaves: nothing of the position, totals less what it held, and at every key what
the formulas of a partial exit give at the whole balance. -/
structure Emptied (v v' : TierVault) (user asset : Address) : Prop where
  balance : v'.balance user asset = 0
  shares : v'.sharesOf user asset = 0
  totalBalance : v'.totalBalance = v.totalBalance - v.balance user asset
  totalShares : v'.totalShares = v.totalShares - v.sharesOf user asset
  formulas : ∀ k, v'.balances.getD k 0 =
      (v.book.reduce (user, asset) (v.balance user asset)).principal.getD k 0 ∧
    v'.shares.getD k 0 = (v.book.reduce (user, asset) (v.balance user asset)).shares.getD k 0

theorem emptied_of_book {v' : TierVault} (hv : v.book.Coherent) (h0 : 0 < v.balance user asset)
    (h : v'.book = v.book.takeOut (user, asset) (v.balance user asset)) : Emptied v v' user asset := by
  have hclose : v'.book = v.book.close (user, asset) := h.trans (if_pos le_rfl)
  have hbal : v'.balances = (v.book.close (user, asset)).principal := congrArg Book.principal hclose
  have hsh : v'.shares = (v.book.close (user, asset)).shares := congrArg Book.shares hclose
  have htotal : v'.totalBalance = _ := congrArg Book.totalPrincipal hclose
  have htotalShares : v'.totalShares = _ := congrArg Book.totalShares hclose
  constructor
  · rw [TierVault.balance, hbal]
    exact Store.getD_remove_self _ _ _
  · rw [sharesOf, hsh]
    exact Store.getD_remove_self _ _ _
  · rw [htotal]
    exact hv.close_totalPrincipal (user, asset)
  · exact htotalShares
  · intro k
    obtain ⟨hp, hs, _⟩ := Book.close_reads_reduce (k := (user, asset)) hv h0.ne' k
    rw [hbal, hsh]
    exact ⟨hp, hs⟩

/-- In every state of a locked vault the two exits agree on what is left, an early exit the balance
covers fails on overflow alone, and a full exit is where the formulas of a partial one end. -/
theorem run_exits_agree {t : Tier} (hv : Initialised t v) {cs : List Invocation}
    (hcs : ∀ c ∈ cs, IsOperation c.2) (hp : (run exec v cs).params = some p) (h0 : 0 < amount)
    (hle : amount ≤ (run exec v cs).balance user asset) :
    (∀ r q, step env (run exec v cs) (.withdraw user asset amount) = .ok r →
      step env (run exec v cs) (.earlyExit user asset amount) = .ok q →
      r.1 = q.1 ∧ r.2.value = .i128 amount ∧
        q.2.value = .i128 (amount - amount * (run exec v cs).exitRate asset / SCALING_FACTOR) ∧
        amount - amount * (run exec v cs).exitRate asset / SCALING_FACTOR ≤ amount) ∧
    ((run exec v cs).AdminAuthorized env → ∀ e,
      step env (run exec v cs) (.earlyExit user asset amount) = .error e → e = .overflow) ∧
    (amount = (run exec v cs).balance user asset → ∀ call r,
      (call = .withdraw user asset amount ∨ call = .earlyExit user asset amount) →
      step env (run exec v cs) call = .ok r → Emptied (run exec v cs) r.1 user asset) := by
  have hsound : (run exec v cs).Sound := (initialised_sound hv).run hcs
  have hfee := exitFee_eq (run exec v cs) asset h0.le
  have hmem := exitFee_mem (run exec v cs) asset h0.le
  refine ⟨fun r q hr hq => ?_, fun ha => earlyExit_fails hp ha h0 hle, ?_⟩
  · rw [← hfee]
    exact ⟨exits_same_state hp hr hq, withdraw_value hr, earlyExit_value hq, by omega⟩
  · rintro rfl call r hcall h
    exact emptied_of_book hsound.coherent h0 (exit_book hcall h)

theorem run_exits_agree_guarded :
    ∃ r q, step ⟨[1], none, 800_000⟩ (run exec guarded aloneRun)
        (.withdraw (.account 7) (.account 5) 499_999_998) = .ok r ∧
      step ⟨[1], none, 800_000⟩ (run exec guarded aloneRun)
        (.earlyExit (.account 7) (.account 5) 499_999_998) = .ok q ∧ r.1 = q.1 ∧
      Emptied (run exec guarded aloneRun) q.1 (.account 7) (.account 5) := by
  have hpos : (0 : ℤ) < 499_999_998 := by decide
  have hcover : (499_999_998 : ℤ) ≤ (run exec guarded aloneRun).balance (.account 7) (.account 5) := by
    decide
  have hoperations : ∀ c ∈ aloneRun, IsOperation c.2 := by simp [aloneRun, IsOperation]
  have hparams : (run exec guarded aloneRun).params = some VaultL3.params := rfl
  obtain ⟨hboth, _, hfull⟩ := run_exits_agree guarded_initialised hoperations hparams hpos hcover
  obtain ⟨r, hr⟩ : ∃ r, step ⟨[1], none, 800_000⟩ (run exec guarded aloneRun)
    (.withdraw (.account 7) (.account 5) 499_999_998) = .ok r := ⟨_, rfl⟩
  obtain ⟨q, hq⟩ : ∃ q, step ⟨[1], none, 800_000⟩ (run exec guarded aloneRun)
    (.earlyExit (.account 7) (.account 5) 499_999_998) = .ok q := ⟨_, rfl⟩
  exact ⟨r, q, hr, hq, (hboth r q hr hq).1, hfull rfl _ _ (.inr rfl) hq⟩

end TierVault
end YieldLadder
