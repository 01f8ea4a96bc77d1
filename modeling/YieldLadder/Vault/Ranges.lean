import YieldLadder.Vault.Exits

/-! # The totals of a vault stay in range, so a full exit goes through

Every addition and subtraction the vaults make is checked, so both totals are
`i128` values after every call. On a coherent book the totals then leave room for
every exit of a non-negative amount: a full exit computes nothing that could
overflow, and a partial one only the product of its own shares and amount.
-/
namespace YieldLadder
open Foundation

/-- Both totals are `i128` values. -/
structure BookInRange (b : Book Key) : Prop where
  totalPrincipal : InI128 b.totalPrincipal
  totalShares : InI128 b.totalShares

theorem inI128_max {x : ℤ} (h : InI128 x) : InI128 (max x 0) :=
  ⟨h.1.trans (le_max_left x 0), max_le h.2 (by decide)⟩

theorem inI128_zero : InI128 0 := by decide

section Room
variable {b : Book Key} {k : Key} {x : ℤ}

theorem fits_close (hb : b.Coherent) (hr : BookInRange b) (k : Key) :
    InI128 (b.totalShares - b.shares.getD k 0) ∧ InI128 (b.totalPrincipal - b.principal.getD k 0) := by
  have hp := hb.principal_le_total k
  have hp0 := hb.principal_nonneg k
  have hs := hb.shares_le_total k
  have hs0 := hb.shares_nonneg k
  exact ⟨inI128_of_le (by omega) (by omega) hr.totalShares,
    inI128_of_le (by omega) (by omega) hr.totalPrincipal⟩

/-- Of the values a partial exit computes only the product of shares and amount can overflow. -/
theorem fits_iff_product (hb : b.Coherent) (hr : BookInRange b) (h0 : 0 ≤ x)
    (hlt : x < b.principal.getD k 0) : Fits b k x ↔ InI128 (b.shares.getD k 0 * x) := by
  have hpos : 0 < b.principal.getD k 0 := lt_of_le_of_lt h0 hlt
  have hshares : 0 < b.shares.getD k 0 := hb.shares_getD_pos hpos.ne'
  have hburn := Book.burned_nonneg hb k h0
  have hburnlt := Book.burned_lt hshares hpos hlt
  have hsle := hb.shares_le_total k
  have hple := hb.principal_le_total k
  refine ⟨Fits.product, fun hprod => ⟨hprod, ?_, ?_, ?_, ?_, ?_⟩⟩
  · exact inI128_of_le hburn (by omega) hr.totalShares
  · exact inI128_of_le (by omega) (by omega) hr.totalPrincipal
  · exact inI128_of_le (by omega) (by omega) hr.totalShares
  · exact inI128_of_le (by omega) (by omega) hr.totalShares
  · exact inI128_of_le (by omega) (by omega) hr.totalPrincipal

/-- An exit of a non-negative amount overflows in one product at most. -/
theorem exitSums_iff {α : Type} {full : ℤ → ℤ → α} {rest : ℤ → ℤ → ℤ → ℤ → α} (hb : b.Coherent)
    (hr : BookInRange b) (h0 : 0 ≤ x) : (∃ a, exitSums b k x full rest = .ok a) ↔
      (x < b.principal.getD k 0 → InI128 (b.shares.getD k 0 * x)) := by
  by_cases hlt : x < b.principal.getD k 0
  · rw [exitSums_part_iff hlt, fits_iff_product hb hr h0 hlt]
    exact ⟨fun h _ => h.2, fun h => ⟨by omega, h hlt⟩⟩
  · rw [exitSums_full_iff (not_lt.mp hlt)]
    exact iff_of_true (fits_close hb hr k) fun h => absurd h hlt

end Room

namespace Locked
variable {p : TierParams} {emergency : Bool} {env : Env} {s s' : State} {i : Instance}
variable {user asset : Address} {amount : ℤ} {call : VaultCall} {reply : Reply}

theorem bookInRange_of_inst (hi : s.inst = some i) (hb : InI128 i.totalBalance)
    (hs : InI128 i.totalShares) : BookInRange s.book := by
  rw [book_of_inst hi]
  exact ⟨hb, hs⟩

theorem takeOut_inRange (hi : s.inst = some i) (h : takeOut i s user asset amount = .ok s') :
    BookInRange s'.book := by
  rw [takeOut_eq_sums hi] at h
  refine exitSums_post (P := fun s' => BookInRange (State.book s')) h ?_ ?_
  · intro totalShares totalBalance hs hb
    exact bookInRange_of_inst rfl (inI128_max hb) hs
  · intro balance shares totalShares totalBalance hs hb
    exact bookInRange_of_inst rfl hb hs

theorem deposit_inRange {r : State × Reply} (h : deposit p env s user asset amount = .ok r) :
    BookInRange r.1.book := by
  simp only [deposit, bind_eq_ok, expect_eq_ok, failIf_eq_ok, addI128_eq_ok, pure_eq_ok] at h
  obtain ⟨i, _, _, _, _, _, _, ⟨hb, rfl⟩, _, _, _, _, _, _, _, _, _, ⟨hs, rfl⟩, _, _, _, _, rfl⟩ := h
  exact bookInRange_of_inst rfl hb hs

theorem operate_inRange {emergency : Address → Bool} (hr : BookInRange s.book)
    (h : operate p emergency env s call = .ok (s', reply)) : BookInRange s'.book := by
  cases operate_effect h with
  | deposit user asset amount => exact deposit_inRange h
  | withdraw user asset amount i hi _ _ _ htake => exact takeOut_inRange hi htake
  | earlyExit user asset amount i hi _ _ htake => exact takeOut_inRange hi htake
  | relock user asset i hi _ _ hs =>
    rw [hs]
    exact hr
  | setMaxTvl newCap i hi _ hs =>
    rw [book_of_inst hi] at hr
    rw [hs]
    exact bookInRange_of_inst rfl hr.totalPrincipal hr.totalShares
  | query q value hs => rwa [hs]

theorem takeOut_iff (hi : s.inst = some i) (hb : s.book.Coherent) (hr : BookInRange s.book)
    (h0 : 0 ≤ amount) :
    (∃ s', takeOut i s user asset amount = .ok s') ↔
      (amount < s.balance.getD (user, asset) 0 →
        InI128 (s.shares.getD (user, asset) 0 * amount)) := by
  rw [takeOut_eq_sums hi]
  exact exitSums_iff hb hr h0

end Locked

namespace VaultFlex
variable {env : Env} {s s' : State} {i : Instance} {user asset : Address} {amount : ℤ}
variable {call : VaultCall} {reply : Reply}

theorem bookInRange_of_inst (hi : s.inst = some i) (hb : InI128 i.totalBalance)
    (hs : InI128 i.totalShares) : BookInRange s.book := by
  rw [book_of_inst hi]
  exact ⟨hb, hs⟩

theorem doWithdraw_inRange {r : State × ℤ} (h : doWithdraw env s user asset amount = .ok r) :
    BookInRange r.1.book := by
  obtain ⟨i, hi⟩ := doWithdraw_inst h
  obtain ⟨_, _, _, _, hsums⟩ := (doWithdraw_eq_ok hi).mp h
  refine exitSums_post (P := fun r => BookInRange (State.book r.1)) hsums ?_ ?_
  · intro totalShares totalBalance hs hb
    exact bookInRange_of_inst rfl (inI128_max hb) hs
  · intro balance shares totalShares totalBalance hs hb
    exact bookInRange_of_inst rfl hb hs

theorem step_inRange (hc : ∀ args, call ≠ .initialise args) (hr : BookInRange s.book)
    (h : step env s call = .ok (s', reply)) : BookInRange s'.book := by
  cases call with
  | initialise args => exact absurd rfl (hc args)
  | deposit user asset amount =>
    simp only [step, deposit, bind_eq_ok, expect_eq_ok, failIf_eq_ok, addI128_eq_ok, pure_eq_ok] at h
    obtain ⟨i, _, _, _, _, _, _, _, _, _, _, ⟨hs, rfl⟩, _, ⟨hb, rfl⟩, _, _, heq⟩ := h
    obtain ⟨rfl, rfl⟩ := Prod.mk.inj heq
    exact bookInRange_of_inst rfl hb hs
  | withdraw user asset amount =>
    simp only [step, withdraw, bind_eq_ok, pure_eq_ok] at h
    obtain ⟨_, hw, heq⟩ := h
    obtain ⟨rfl, rfl⟩ := Prod.mk.inj heq
    exact doWithdraw_inRange hw
  | earlyExit user asset amount =>
    simp only [step, earlyExit, bind_eq_ok, pure_eq_ok] at h
    obtain ⟨_, hw, heq⟩ := h
    obtain ⟨rfl, rfl⟩ := Prod.mk.inj heq
    exact doWithdraw_inRange hw
  | query q =>
    simp only [step, bind_eq_ok, pure_eq_ok] at h
    obtain ⟨_, _, heq⟩ := h
    obtain ⟨rfl, rfl⟩ := Prod.mk.inj heq
    exact hr
  | _ => simp [step] at h

/-- A withdrawal of a positive position overflows in one product at most. -/
theorem doWithdraw_iff (hi : s.inst = some i) (ha : env.Authorized i.admin) (hb : s.book.Coherent)
    (hr : BookInRange s.book) (h0 : 0 ≤ amount) :
    (∃ r, doWithdraw env s user asset amount = .ok r) ↔
      0 < s.balance.getD (user, asset) 0 ∧ amount ≤ s.balance.getD (user, asset) 0 ∧
        (amount < s.balance.getD (user, asset) 0 →
          InI128 (s.shares.getD (user, asset) 0 * amount)) := by
  rw [exists_doWithdraw_iff hi ha, exitSums_iff hb hr h0]
  constructor
  · rintro ⟨⟨_, hpos⟩, hle, hprod⟩
    exact ⟨hpos, hle, hprod⟩
  · rintro ⟨hpos, hle, hprod⟩
    have hshares : 0 < s.shares.getD (user, asset) 0 := hb.shares_getD_pos (k := (user, asset)) hpos.ne'
    exact ⟨⟨hshares, hpos⟩, hle, hprod⟩

end VaultFlex

namespace TierVault
variable {env : Env} {v : TierVault} {call : VaultCall} {r : TierVault × Reply}
variable {user asset : Address} {amount : ℤ}

def sharesOf (v : TierVault) (user asset : Address) : ℤ := v.shares.getD (user, asset) 0

/-- What every state of an initialised vault satisfies. -/
structure Sound (v : TierVault) : Prop where
  coherent : v.book.Coherent
  range : BookInRange v.book

theorem step_inRange (hc : IsOperation call) (hr : BookInRange v.book)
    (h : step env v call = .ok r) : BookInRange r.1.book := by
  rcases v.flex_or_locked with ⟨s, rfl⟩ | ⟨p, s, hp, hs⟩
  · simp only [step, bind_eq_ok, pure_eq_ok] at h
    obtain ⟨_, hq, rfl⟩ := h
    exact VaultFlex.step_inRange hc hr hq
  · rw [book_of_core hs] at hr
    obtain ⟨s', hs', _, ⟨hop, _⟩ | ⟨args, _, _, _, _, _, rfl, _⟩ | ⟨_, rfl, _⟩⟩ := step_core hp hs h
    · rw [book_of_core hs']
      exact Locked.operate_inRange hr hop
    · exact absurd rfl (hc args)
    · rwa [book_of_core hs']

theorem Sound.step (hv : v.Sound) (hc : IsOperation call) (h : TierVault.step env v call = .ok r) :
    r.1.Sound :=
  ⟨step_coherent hc hv.coherent h, step_inRange hc hv.range h⟩

theorem initialised_sound {t : Tier} (hv : Initialised t v) : v.Sound := by
  constructor <;> rw [initialised_book hv]
  · exact Book.coherent_empty
  · exact ⟨inI128_zero, inI128_zero⟩

theorem Sound.run (hv : v.Sound) {cs : List Invocation} (hcs : ∀ c ∈ cs, IsOperation c.2) :
    (run exec v cs).Sound := by
  have hm : Meets exec (fun _ c => IsOperation c.2) v cs := meets_of_forall hcs
  exact run_invariant_of_meets (I := Sound) (fun _ _ _ hc hv h => hv.step hc h) hv hm

/-- Exactly when an exit of a positive amount goes through. -/
theorem exit_iff (e : Exit) (hv : v.Sound) (ha : v.AdminAuthorized env) (h0 : 0 < amount) :
    (∃ r, TierVault.step env v (e.call user asset amount) = .ok r) ↔
      v.ExitChecks env.ledger user asset amount e ∧ amount ≤ v.balance user asset ∧
        (amount < v.balance user asset → InI128 (v.sharesOf user asset * amount)) := by
  obtain ⟨hb, hr⟩ := hv
  rcases v.flex_or_locked with ⟨s, rfl⟩ | ⟨p, s, hp, hs⟩
  · obtain ⟨a, hadmin, ha⟩ := ha
    obtain ⟨i, hi, rfl⟩ := Option.map_eq_some_iff.mp hadmin
    rw [flex_exit_iff, VaultFlex.doWithdraw_iff hi ha hb hr h0.le]
    exact ⟨fun h => ⟨flex_exitChecks e, h.2⟩, fun h => ⟨lt_of_lt_of_le h0 h.2.1, h.2⟩⟩
  · obtain ⟨i, hi, ha⟩ := ha.of_core hs
    rw [book_of_core hs] at hb hr
    rw [locked_exit_iff e hp hs hi ha, Locked.takeOut_iff hi hb hr h0.le, balance_of_core hs, sharesOf,
      shares_of_core hs]

end TierVault
end YieldLadder
