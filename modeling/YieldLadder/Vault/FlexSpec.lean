import YieldLadder.Vault.ExitSums
import YieldLadder.Vault.Flex

/-! # What each VaultFlex operation does when it succeeds -/
namespace YieldLadder.VaultFlex
open Foundation

def State.book (s : State) : Book Key := ⟨s.balance, s.shares, totalBalance s, totalShares s⟩

variable {env : Env} {s s' : State} {i : Instance} {user asset : Address} {amount : ℤ}

theorem book_of_inst (h : s.inst = some i) :
    s.book = ⟨s.balance, s.shares, i.totalBalance, i.totalShares⟩ := by
  simp [State.book, totalBalance, totalShares, h]

theorem recordDepositCheckpoint_ok {checkpoint r : Store Key ℕ}
    (h : recordDepositCheckpoint env checkpoint user asset = .ok r) :
    r = checkpoint.set (user, asset) (env.ledger + 1) := by
  unfold recordDepositCheckpoint at h
  split at h <;> simp at h
  exact h.symm

theorem deposit_ok {r : State × Reply} (h : deposit env s user asset amount = .ok r) :
    ∃ i, s.inst = some i ∧ env.Authorized i.admin ∧ SCALING_FACTOR ≤ amount ∧
      r.1.inst = some { i with
        totalShares := i.totalShares + amount
        totalBalance := i.totalBalance + amount } ∧
      r.1.book = s.book.add (user, asset) amount amount ∧
      r.1.checkpoint = s.checkpoint.set (user, asset) (env.ledger + 1) ∧
      r.2 = ⟨.unit, [.deposit user asset amount]⟩ := by
  simp only [deposit, bind_eq_ok, expect_eq_ok, Env.requireAuth_eq_ok, failIf_eq_ok, addI128_eq_ok,
    pure_eq_ok, not_lt] at h
  obtain ⟨i, hi, _, hauth, _, hmin, _, ⟨_, rfl⟩, _, ⟨_, rfl⟩, _, ⟨_, rfl⟩, _, ⟨_, rfl⟩, cp, hcp, rfl⟩ := h
  refine ⟨i, hi, hauth, hmin, rfl, ?_, recordDepositCheckpoint_ok hcp, rfl⟩
  rw [book_of_inst hi]
  rfl

/-- What a full exit records, given the totals; the checkpoint is left. -/
def State.close (s : State) (i : Instance) (k : Key) (totalShares totalBalance : ℤ) : State :=
  { s with
    inst := some { i with totalShares, totalBalance := max totalBalance 0 }
    balance := s.balance.remove k
    shares := s.shares.remove k }

def State.reduce (s : State) (i : Instance) (k : Key) (balance shares totalShares totalBalance : ℤ) : State :=
  { s with
    inst := some { i with totalShares, totalBalance }
    balance := s.balance.set k balance
    shares := s.shares.set k shares }

theorem doWithdraw_inst {r : State × ℤ} (h : doWithdraw env s user asset amount = .ok r) :
    ∃ i, s.inst = some i := by
  simp only [doWithdraw, bind_eq_ok, expect_eq_ok] at h
  obtain ⟨i, hi, _⟩ := h
  exact ⟨i, hi⟩

/-- VaultFlex checks the position and the amount, and the rest is the exit. -/
theorem doWithdraw_eq_ok {r : State × ℤ} (hi : s.inst = some i) : doWithdraw env s user asset amount = .ok r ↔
    env.Authorized i.admin ∧ 0 < s.shares.getD (user, asset) 0 ∧ 0 < s.balance.getD (user, asset) 0 ∧
      amount ≤ s.balance.getD (user, asset) 0 ∧
      exitSums s.book (user, asset) amount
        (fun totalShares totalBalance =>
          (s.close i (user, asset) totalShares totalBalance, s.balance.getD (user, asset) 0))
        (fun balance shares totalShares totalBalance =>
          (s.reduce i (user, asset) balance shares totalShares totalBalance, amount)) = .ok r := by
  rw [book_of_inst hi]
  simp only [doWithdraw, bind_eq_ok, expect_eq_ok, Env.requireAuth_eq_ok, failIf_eq_ok, not_or, not_le, not_lt]
  constructor
  · rintro ⟨j, hj, _, hauth, _, ⟨hs, hb⟩, _, hle, h⟩
    cases hi.symm.trans hj
    exact ⟨hauth, hs, hb, hle, h⟩
  · rintro ⟨hauth, hs, hb, hle, h⟩
    exact ⟨i, hi, (), hauth, (), ⟨hs, hb⟩, (), hle, h⟩

/-- A withdrawal needs a position with shares and principal, and moves the book. -/
theorem doWithdraw_ok {r : State × ℤ} (h : doWithdraw env s user asset amount = .ok r) :
    ∃ i, s.inst = some i ∧ env.Authorized i.admin ∧
      0 < s.shares.getD (user, asset) 0 ∧ 0 < s.balance.getD (user, asset) 0 ∧
      amount ≤ s.balance.getD (user, asset) 0 ∧
      r.1.inst = some { i with
        totalShares := r.1.book.totalShares
        totalBalance := r.1.book.totalPrincipal } ∧
      r.1.book = s.book.takeOut (user, asset) amount ∧
      r.1.checkpoint = s.checkpoint ∧ r.2 = amount := by
  obtain ⟨i, hi⟩ := doWithdraw_inst h
  obtain ⟨hauth, hs, hb, hle, h⟩ := (doWithdraw_eq_ok hi).mp h
  refine ⟨i, hi, hauth, hs, hb, hle, ?_⟩
  by_cases hfull : s.balance.getD (user, asset) 0 ≤ amount
  · obtain ⟨_, rfl⟩ := (exitSums_full (b := s.book) hfull).mp h
    exact ⟨rfl, (if_pos hfull).symm, rfl, le_antisymm hfull hle⟩
  · obtain ⟨_, rfl⟩ := (exitSums_part (b := s.book) (not_le.mp hfull)).mp h
    exact ⟨rfl, (if_neg hfull).symm, rfl, rfl⟩

theorem exists_doWithdraw_iff (hi : s.inst = some i) (ha : env.Authorized i.admin) :
    (∃ r, doWithdraw env s user asset amount = .ok r) ↔
      (0 < s.shares.getD (user, asset) 0 ∧ 0 < s.balance.getD (user, asset) 0) ∧
        amount ≤ s.balance.getD (user, asset) 0 ∧
        ∃ r, exitSums s.book (user, asset) amount
          (fun totalShares totalBalance =>
            (s.close i (user, asset) totalShares totalBalance, s.balance.getD (user, asset) 0))
          (fun balance shares totalShares totalBalance =>
            (s.reduce i (user, asset) balance shares totalShares totalBalance, amount)) = .ok r := by
  simp only [doWithdraw_eq_ok hi, ha, true_and, exists_and_left, and_assoc]

theorem initialise_ok {admin strategy : Address} (h : initialise s admin strategy = .ok s') :
    s.inst = none ∧ s' = { s with inst := some ⟨admin, strategy, 0, 0⟩ } := by
  simp only [initialise, bind_eq_ok, failIf_eq_ok, pure_eq_ok] at h
  obtain ⟨_, hnone, rfl⟩ := h
  exact ⟨by simpa using hnone, rfl⟩

/-- What a successful operation checked and what it leaves, case by case. -/
inductive Effect (env : Env) (s s' : State) : VaultCall → Reply → Prop
  | deposit (user asset : Address) (amount : ℤ) (i : Instance) (hi : s.inst = some i)
      (hauth : env.Authorized i.admin) (hmin : SCALING_FACTOR ≤ amount)
      (hinst : s'.inst = some { i with
        totalShares := i.totalShares + amount
        totalBalance := i.totalBalance + amount })
      (hbook : s'.book = s.book.add (user, asset) amount amount)
      (hcheckpoint : s'.checkpoint = s.checkpoint.set (user, asset) (env.ledger + 1)) :
      Effect env s s' (.deposit user asset amount) ⟨.unit, [.deposit user asset amount]⟩
  | exit (call : VaultCall) (reply : Reply) (user asset : Address) (amount : ℤ)
      (hexit : call = .withdraw user asset amount ∧
          reply = ⟨.i128 amount, [.withdraw user asset amount]⟩ ∨
        call = .earlyExit user asset amount ∧
          reply = ⟨.i128 amount, [.earlyExit user asset amount]⟩)
      (i : Instance) (hi : s.inst = some i) (hauth : env.Authorized i.admin)
      (hshares : 0 < s.shares.getD (user, asset) 0) (hpos : 0 < s.balance.getD (user, asset) 0)
      (hle : amount ≤ s.balance.getD (user, asset) 0)
      (hinst : s'.inst = some { i with
        totalShares := s'.book.totalShares
        totalBalance := s'.book.totalPrincipal })
      (hbook : s'.book = s.book.takeOut (user, asset) amount)
      (hcheckpoint : s'.checkpoint = s.checkpoint) : Effect env s s' call reply
  | query (q : Query) (value : Value) (hs : s' = s) : Effect env s s' (.query q) ⟨value, []⟩

theorem step_effect {call : VaultCall} {r : State × Reply} (hc : ∀ args, call ≠ .initialise args)
    (h : step env s call = .ok r) : Effect env s r.1 call r.2 := by
  cases call with
  | initialise args => exact absurd rfl (hc args)
  | deposit user asset amount =>
    obtain ⟨i, hi, hauth, hmin, hinst, hbook, hcheckpoint, hr⟩ := deposit_ok h
    rw [hr]
    exact .deposit user asset amount i hi hauth hmin hinst hbook hcheckpoint
  | withdraw user asset amount =>
    simp only [step, withdraw, bind_eq_ok, pure_eq_ok] at h
    obtain ⟨⟨s', payout⟩, hw, rfl⟩ := h
    obtain ⟨i, hi, hauth, hs, hpos, hle, hinst, hbook, hcheckpoint, hpay⟩ := doWithdraw_ok hw
    dsimp only at hpay
    subst hpay
    exact .exit _ _ user asset _ (.inl ⟨rfl, rfl⟩) i hi hauth hs hpos hle hinst hbook hcheckpoint
  | earlyExit user asset amount =>
    simp only [step, earlyExit, bind_eq_ok, pure_eq_ok] at h
    obtain ⟨⟨s', payout⟩, hw, rfl⟩ := h
    obtain ⟨i, hi, hauth, hs, hpos, hle, hinst, hbook, hcheckpoint, hpay⟩ := doWithdraw_ok hw
    dsimp only at hpay
    subst hpay
    exact .exit _ _ user asset _ (.inr ⟨rfl, rfl⟩) i hi hauth hs hpos hle hinst hbook hcheckpoint
  | query q =>
    simp only [step, bind_eq_ok, pure_eq_ok] at h
    obtain ⟨value, _, rfl⟩ := h
    exact .query q value rfl
  | _ => simp [step] at h

end YieldLadder.VaultFlex
