import YieldLadder.Vault.ExitSums
import YieldLadder.Vault.Locked

/-! # What each locked-vault operation does when it succeeds

One lemma for each operation: the checks that passed and the state it leaves.
The balances, shares and totals form a book, and the operations are its moves.
`Effect` collects the operations, for every proof that goes through all of them.
-/
namespace YieldLadder.Locked
open Foundation

def State.book (s : State) : Book Key := ⟨s.balance, s.shares, totalBalance s, totalShares s⟩

def mintedShares (p : TierParams) (amount : ℤ) : ℤ := (amount * p.multiplierFp).tdiv SCALING_FACTOR

variable {p : TierParams} {emergency : Bool} {env : Env} {s s' : State} {i : Instance}
variable {user asset : Address} {amount : ℤ}

theorem book_of_inst (h : s.inst = some i) :
    s.book = ⟨s.balance, s.shares, i.totalBalance, i.totalShares⟩ := by
  simp [State.book, totalBalance, totalShares, h]

/-- A successful deposit, with everything it checked. -/
theorem deposit_ok {r : State × Reply} (h : deposit p env s user asset amount = .ok r) :
    ∃ i, s.inst = some i ∧ env.Authorized i.admin ∧ p.minDeposit ≤ amount ∧
      i.totalBalance + amount ≤ i.maxTvl ∧
      r.1.inst = some { i with
        totalShares := i.totalShares + mintedShares p amount
        totalBalance := i.totalBalance + amount } ∧
      r.1.book = s.book.add (user, asset) amount (mintedShares p amount) ∧
      r.1.lockUntil = s.lockUntil.set (user, asset) (env.ledger + p.lockDuration) ∧
      r.1.checkpoint = s.checkpoint.set (user, asset) (env.ledger + 1) ∧
      r.2 = ⟨.unit, [.deposit user asset amount]⟩ := by
  simp only [deposit, bind_eq_ok, expect_eq_ok, Env.requireAuth_eq_ok, failIf_eq_ok, addI128_eq_ok,
    mulFp_eq_ok, addU32_eq_ok, pure_eq_ok, not_lt] at h
  obtain ⟨i, hi, _, hauth, _, hmin, _, ⟨_, rfl⟩, _, hcap, _, ⟨_, _, rfl⟩, _, ⟨_, rfl⟩, _, ⟨_, rfl⟩,
    _, ⟨_, rfl⟩, _, ⟨_, rfl⟩, _, ⟨_, rfl⟩, rfl⟩ := h
  refine ⟨i, hi, hauth, hmin, hcap, rfl, ?_, rfl, rfl, rfl⟩
  rw [book_of_inst hi]
  rfl

/-- What a full exit records, given the totals. -/
def State.close (s : State) (i : Instance) (k : Key) (totalShares totalBalance : ℤ) : State where
  inst := some { i with totalShares, totalBalance := max totalBalance 0 }
  balance := s.balance.remove k
  shares := s.shares.remove k
  lockUntil := s.lockUntil.remove k
  checkpoint := s.checkpoint.remove k

def State.reduce (s : State) (i : Instance) (k : Key) (balance shares totalShares totalBalance : ℤ) : State :=
  { s with
    inst := some { i with totalShares, totalBalance }
    balance := s.balance.set k balance
    shares := s.shares.set k shares }

theorem takeOut_eq_sums (hi : s.inst = some i) : takeOut i s user asset amount =
    exitSums s.book (user, asset) amount (s.close i (user, asset)) (s.reduce i (user, asset)) := by
  rw [book_of_inst hi]
  rfl

/-- Both branches of an exit, as a move of the book; a full exit drops the lock and the
checkpoint, a partial one keeps them. -/
theorem takeOut_ok (hi : s.inst = some i) (h : takeOut i s user asset amount = .ok s') :
    s'.book = s.book.takeOut (user, asset) amount ∧
    (amount < s.balance.getD (user, asset) 0 → s.balance.getD (user, asset) 0 ≠ 0) ∧
    s'.inst = some { i with
      totalShares := s'.book.totalShares
      totalBalance := s'.book.totalPrincipal } ∧
    s'.lockUntil = (if s.balance.getD (user, asset) 0 ≤ amount
      then s.lockUntil.remove (user, asset) else s.lockUntil) ∧
    s'.checkpoint = (if s.balance.getD (user, asset) 0 ≤ amount
      then s.checkpoint.remove (user, asset) else s.checkpoint) := by
  rw [takeOut_eq_sums hi] at h
  by_cases hfull : s.balance.getD (user, asset) 0 ≤ amount
  · obtain ⟨_, rfl⟩ := (exitSums_full (b := s.book) hfull).mp h
    refine ⟨?_, fun hlt => absurd hfull (by omega), rfl, (if_pos hfull).symm, (if_pos hfull).symm⟩
    exact (if_pos hfull).symm
  · obtain ⟨⟨h0, _⟩, rfl⟩ := (exitSums_part (b := s.book) (not_le.mp hfull)).mp h
    refine ⟨?_, fun _ => h0, rfl, (if_neg hfull).symm, (if_neg hfull).symm⟩
    exact (if_neg hfull).symm

theorem doWithdraw_ok {r : State × ℤ} (h : doWithdraw emergency env s user asset amount = .ok r) :
    ∃ i, s.inst = some i ∧ env.Authorized i.admin ∧
      (emergency = false → s.lockUntil.getD (user, asset) 0 ≤ env.ledger) ∧
      amount ≤ s.balance.getD (user, asset) 0 ∧
      takeOut i s user asset amount = .ok r.1 ∧ r.2 = amount := by
  simp only [doWithdraw, bind_eq_ok, expect_eq_ok, Env.requireAuth_eq_ok, failIf_eq_ok, pure_eq_ok,
    not_and, not_lt] at h
  obtain ⟨i, hi, _, hauth, _, hlock, _, hle, s', hs', rfl⟩ := h
  refine ⟨i, hi, hauth, hlock, hle, hs', ?_⟩
  dsimp only
  split <;> omega

def feeOf (p : TierParams) (emergency : Bool) (amount : ℤ) : ℤ :=
  if emergency then 0 else (amount * p.exitFeeFp).tdiv SCALING_FACTOR

theorem feeOf_neg (p : TierParams) (emergency : Bool) (amount : ℤ) :
    feeOf p emergency (-amount) = -feeOf p emergency amount := by
  unfold feeOf
  split
  · rfl
  · rw [Int.neg_mul, Int.neg_tdiv]

theorem feeOf_mem (h0 : 0 ≤ p.exitFeeFp) (h1 : p.exitFeeFp ≤ SCALING_FACTOR) (ha : 0 ≤ amount) :
    0 ≤ feeOf p emergency amount ∧ feeOf p emergency amount ≤ amount := by
  unfold feeOf
  split
  · exact ⟨le_rfl, ha⟩
  · have hprod : 0 ≤ amount * p.exitFeeFp := Int.mul_nonneg ha h0
    rw [Int.tdiv_eq_ediv_of_nonneg hprod]
    refine ⟨Int.ediv_nonneg hprod (by decide), Int.ediv_le_of_le_mul (by decide) ?_⟩
    exact Int.mul_le_mul_of_nonneg_left h1 ha

theorem exitFee_ok {fee : ℤ} (h : exitFee p emergency amount = .ok fee) :
    fee = feeOf p emergency amount := by
  cases emergency with
  | true => exact (pure_eq_ok.mp h).symm
  | false => exact (mulFp_eq_ok.mp h).2.2.symm

theorem doEarlyExit_ok {r : State × ℤ}
    (h : doEarlyExit p emergency env s user asset amount = .ok r) :
    ∃ i, s.inst = some i ∧ env.Authorized i.admin ∧ amount ≤ s.balance.getD (user, asset) 0 ∧
      takeOut i s user asset amount = .ok r.1 ∧ r.2 = amount - feeOf p emergency amount := by
  simp only [doEarlyExit, bind_eq_ok, expect_eq_ok, Env.requireAuth_eq_ok, failIf_eq_ok, pure_eq_ok,
    subI128_eq_ok, not_lt] at h
  obtain ⟨i, hi, _, hauth, _, hle, fee, hfee, _, ⟨_, rfl⟩, s', hs', rfl⟩ := h
  exact ⟨i, hi, hauth, hle, hs', by rw [exitFee_ok hfee]⟩

theorem setMaxTvl_ok {newCap : ℤ} (h : setMaxTvl env s newCap = .ok s') :
    ∃ i, s.inst = some i ∧ env.Authorized i.governance ∧
      s' = { s with inst := some { i with maxTvl := newCap } } := by
  simp only [setMaxTvl, bind_eq_ok, expect_eq_ok, Env.requireAuth_eq_ok, pure_eq_ok] at h
  obtain ⟨i, hi, _, hauth, rfl⟩ := h
  exact ⟨i, hi, hauth, rfl⟩

theorem relock_ok {r : State × ℕ} (h : relock p env s user asset = .ok r) :
    ∃ i, s.inst = some i ∧ env.Authorized i.admin ∧
      s.lockUntil.getD (user, asset) 0 ≤ env.ledger ∧
      r = ({ s with lockUntil := s.lockUntil.set (user, asset) (env.ledger + p.lockDuration) },
        env.ledger + p.lockDuration) := by
  simp only [relock, bind_eq_ok, expect_eq_ok, Env.requireAuth_eq_ok, failIf_eq_ok, addU32_eq_ok,
    pure_eq_ok, not_lt] at h
  obtain ⟨i, hi, _, hauth, _, hlock, _, ⟨_, rfl⟩, rfl⟩ := h
  exact ⟨i, hi, hauth, hlock, rfl⟩

/-- What a successful operation checked and what it leaves, case by case. -/
inductive Effect (p : TierParams) (emergency : Address → Bool) (env : Env) (s s' : State) :
    VaultCall → Reply → Prop
  | deposit (user asset : Address) (amount : ℤ) (i : Instance) (hi : s.inst = some i)
      (hauth : env.Authorized i.admin) (hmin : p.minDeposit ≤ amount)
      (hcap : i.totalBalance + amount ≤ i.maxTvl)
      (hinst : s'.inst = some { i with
        totalShares := i.totalShares + mintedShares p amount
        totalBalance := i.totalBalance + amount })
      (hbook : s'.book = s.book.add (user, asset) amount (mintedShares p amount))
      (hlock : s'.lockUntil = s.lockUntil.set (user, asset) (env.ledger + p.lockDuration))
      (hcheckpoint : s'.checkpoint = s.checkpoint.set (user, asset) (env.ledger + 1)) :
      Effect p emergency env s s' (.deposit user asset amount)
        ⟨.unit, [.deposit user asset amount]⟩
  | withdraw (user asset : Address) (amount : ℤ) (i : Instance) (hi : s.inst = some i)
      (hauth : env.Authorized i.admin)
      (hmatured : emergency asset = false → s.lockUntil.getD (user, asset) 0 ≤ env.ledger)
      (hle : amount ≤ s.balance.getD (user, asset) 0)
      (htake : takeOut i s user asset amount = .ok s') :
      Effect p emergency env s s' (.withdraw user asset amount)
        ⟨.i128 amount, [.withdraw user asset amount]⟩
  | earlyExit (user asset : Address) (amount : ℤ) (i : Instance) (hi : s.inst = some i)
      (hauth : env.Authorized i.admin) (hle : amount ≤ s.balance.getD (user, asset) 0)
      (htake : takeOut i s user asset amount = .ok s') :
      Effect p emergency env s s' (.earlyExit user asset amount)
        ⟨.i128 (amount - feeOf p (emergency asset) amount),
          [.earlyExit user asset (amount - feeOf p (emergency asset) amount)]⟩
  | relock (user asset : Address) (i : Instance) (hi : s.inst = some i)
      (hauth : env.Authorized i.admin) (hmatured : s.lockUntil.getD (user, asset) 0 ≤ env.ledger)
      (hs : s' = { s with
        lockUntil := s.lockUntil.set (user, asset) (env.ledger + p.lockDuration) }) :
      Effect p emergency env s s' (.relock user asset) ⟨.u32 (env.ledger + p.lockDuration), []⟩
  | setMaxTvl (newCap : ℤ) (i : Instance) (hi : s.inst = some i)
      (hauth : env.Authorized i.governance)
      (hs : s' = { s with inst := some { i with maxTvl := newCap } }) :
      Effect p emergency env s s' (.setMaxTvl newCap) ⟨.unit, []⟩
  | query (q : Query) (value : Value) (hs : s' = s) :
      Effect p emergency env s s' (.query q) ⟨value, []⟩

theorem operate_effect {emergency : Address → Bool} {call : VaultCall} {reply : Reply}
    (h : operate p emergency env s call = .ok (s', reply)) :
    Effect p emergency env s s' call reply := by
  cases call with
  | initialise args => simp [operate] at h
  | setEmergencyUnlock asset active => simp [operate] at h
  | deposit user asset amount =>
    obtain ⟨i, hi, hauth, hmin, hcap, hinst, hbook, hlock, hcheckpoint, hr⟩ := deposit_ok h
    dsimp only at hr
    subst hr
    exact .deposit user asset amount i hi hauth hmin hcap hinst hbook hlock hcheckpoint
  | withdraw user asset amount =>
    simp only [operate, withdraw, bind_eq_ok, pure_eq_ok] at h
    obtain ⟨⟨_, payout⟩, hw, hr⟩ := h
    obtain ⟨rfl, rfl⟩ := Prod.mk.inj hr
    obtain ⟨i, hi, hauth, hmatured, hle, htake, hpay⟩ := doWithdraw_ok hw
    dsimp only at hpay
    subst hpay
    exact .withdraw user asset _ i hi hauth hmatured hle htake
  | earlyExit user asset amount =>
    simp only [operate, earlyExit, bind_eq_ok, pure_eq_ok] at h
    obtain ⟨⟨_, net⟩, hw, hr⟩ := h
    obtain ⟨rfl, rfl⟩ := Prod.mk.inj hr
    obtain ⟨i, hi, hauth, hle, htake, hnet⟩ := doEarlyExit_ok hw
    dsimp only at hnet
    subst hnet
    exact .earlyExit user asset amount i hi hauth hle htake
  | relock user asset =>
    simp only [operate, bind_eq_ok, pure_eq_ok] at h
    obtain ⟨⟨_, lock⟩, hl, hr⟩ := h
    obtain ⟨rfl, rfl⟩ := Prod.mk.inj hr
    obtain ⟨i, hi, hauth, hmatured, hr⟩ := relock_ok hl
    obtain ⟨rfl, rfl⟩ := Prod.mk.inj hr
    exact .relock user asset i hi hauth hmatured rfl
  | setMaxTvl newCap =>
    simp only [operate, bind_eq_ok, pure_eq_ok] at h
    obtain ⟨_, hs, hr⟩ := h
    obtain ⟨rfl, rfl⟩ := Prod.mk.inj hr
    obtain ⟨i, hi, hauth, hs⟩ := setMaxTvl_ok hs
    exact .setMaxTvl newCap i hi hauth hs
  | query q =>
    simp only [operate, bind_eq_ok, pure_eq_ok] at h
    obtain ⟨value, _, hr⟩ := h
    obtain ⟨rfl, rfl⟩ := Prod.mk.inj hr
    exact .query q value rfl

/-- What `initialise` writes, whatever was there before. -/
def freshInstance (admin governance strategy usdc : Address) (maxTvl : ℤ) : Instance :=
  ⟨admin, governance, strategy, usdc, if maxTvl > 0 then maxTvl else DEFAULT_MAX_TVL, 0, 0⟩

theorem initialise_ok {admin governance strategy usdc : Address} {maxTvl : ℤ}
    (h : initialise env s admin governance strategy usdc maxTvl = .ok s') :
    env.Authorized admin ∧
      s' = { s with inst := some (freshInstance admin governance strategy usdc maxTvl) } := by
  simp only [initialise, bind_eq_ok, Env.requireAuth_eq_ok, pure_eq_ok] at h
  obtain ⟨_, hauth, rfl⟩ := h
  exact ⟨hauth, rfl⟩

end YieldLadder.Locked
