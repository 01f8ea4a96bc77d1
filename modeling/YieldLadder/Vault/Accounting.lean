import YieldLadder.Foundation.Machine
import YieldLadder.Vault.Tier

/-! # Aggregate accounting of every tier vault

The vault's book is coherent after `initialise` and every later call is a move of
the book, whatever the amounts are, so it is coherent in every state a run
reaches: the totals are the sums and the clamp of a full exit does nothing.
-/
namespace YieldLadder.TierVault
open Foundation

/-- One call of a vault, in the environment it is made in. -/
abbrev Invocation := Env × VaultCall

def exec (v : TierVault) (c : Invocation) : Except Fault (TierVault × Reply) := step c.1 v c.2

def Initialised (t : Tier) (v : TierVault) : Prop :=
  ∃ env args reply, step env (deployed t) (.initialise args) = .ok (v, reply)

/-- VaultL3 right after `initialise` by account 1, with account 2 as governance and 3 as guardian. -/
def guarded : TierVault :=
  .l3 { VaultL3.State.empty with
    core.inst := some (Locked.freshInstance (.account 1) (.account 2) (.account 4) (.account 5) 0)
    guardian := some (.account 3) }

theorem guarded_initialised : Initialised .l3 guarded :=
  ⟨⟨[1], none, 0⟩,
    .guarded (.account 1) (.account 2) (.account 3) (.account 4) (.account 5) 0, _, rfl⟩

def IsOperation (call : VaultCall) : Prop := ∀ args, call ≠ .initialise args

theorem exit_operation {user asset : Address} {amount : ℤ} (e : Exit) : IsOperation (e.call user asset amount) := by
  cases e <;> simp [Exit.call, IsOperation]

/-- What the aggregate entries of a vault say about its positions. -/
structure Accounted (v : TierVault) : Prop where
  totalBalance_eq : v.totalBalance = ∑ᶠ k : Key, v.balances.getD k 0
  totalShares_eq : v.totalShares = ∑ᶠ k : Key, v.shares.getD k 0
  balance_pos : ∀ k x, v.balances.get k = some x → 0 < x
  shares_pos : ∀ k x, v.shares.get k = some x → 0 < x
  same_keys : ∀ k, v.balances.get k = none ↔ v.shares.get k = none
  shares_of_balance : ∀ k, v.balances.getD k 0 ≠ 0 → 0 < v.shares.getD k 0
  clamp_idle : ∀ k, max (v.totalBalance - v.balances.getD k 0) 0 =
    v.totalBalance - v.balances.getD k 0

theorem accounted_of_coherent {v : TierVault} (h : v.book.Coherent) : v.Accounted where
  totalBalance_eq := h.totalPrincipal_eq
  totalShares_eq := h.totalShares_eq
  balance_pos := h.principal_pos
  shares_pos := h.shares_pos
  same_keys := h.same_keys
  shares_of_balance _ hk := h.shares_getD_pos hk
  clamp_idle := h.close_totalPrincipal

theorem initialised_cases {t : Tier} {v : TierVault} (h : Initialised t v) :
    (∃ i, t = .flex ∧ v = .flex { VaultFlex.State.empty with inst := some i } ∧ i.totalBalance = 0 ∧
        i.totalShares = 0) ∨
      ∃ admin governance strategy usdc maxTvl, (deployed t).core = some .empty ∧
        v.core = some { Locked.State.empty with
          inst := some (Locked.freshInstance admin governance strategy usdc maxTvl) } := by
  obtain ⟨env, args, reply, h⟩ := h
  have hlocked : ∀ {p}, (deployed t).params = some p → (deployed t).core = some .empty →
      ∃ admin governance strategy usdc maxTvl, (deployed t).core = some .empty ∧
        v.core = some { Locked.State.empty with
          inst := some (Locked.freshInstance admin governance strategy usdc maxTvl) } := by
    intro p hp hs
    obtain ⟨s', hs', _, ⟨hop, _⟩ | ⟨_, _, _, _, _, _, _, rfl, _⟩ | ⟨⟨_, _, hc⟩ | ⟨_, hc⟩, _⟩⟩ :=
      step_core hp hs h
    · simp [Locked.operate] at hop
    · exact ⟨_, _, _, _, _, hs, hs'⟩
    · cases hc
    · cases hc
  cases t with
  | flex =>
    simp only [step, deployed, bind_eq_ok, pure_eq_ok] at h
    obtain ⟨q, hq, hv⟩ := h
    obtain ⟨rfl, rfl⟩ := Prod.mk.inj hv
    cases args with
    | flex admin strategy =>
      simp only [VaultFlex.step, bind_eq_ok, pure_eq_ok] at hq
      obtain ⟨s', hs, rfl⟩ := hq
      obtain ⟨_, rfl⟩ := VaultFlex.initialise_ok hs
      exact .inl ⟨_, rfl, rfl, rfl, rfl⟩
    | _ => simp [VaultFlex.step] at hq
  | l3 => exact .inr (hlocked rfl rfl)
  | l6 => exact .inr (hlocked rfl rfl)
  | l12 => exact .inr (hlocked rfl rfl)

theorem initialised_book {t : Tier} {v : TierVault} (h : Initialised t v) : v.book = Book.empty := by
  rcases initialised_cases h with ⟨⟨_, _, _, _⟩, rfl, rfl, rfl, rfl⟩ | ⟨_, _, _, _, _, _, hs⟩
  · rfl
  · rw [book_of_core hs]
    rfl

theorem step_coherent {env : Env} {v : TierVault} {call : VaultCall} {r : TierVault × Reply}
    (hc : IsOperation call) (hv : v.book.Coherent) (h : step env v call = .ok r) :
    r.1.book.Coherent :=
  (step_outcome hc h).book_step.coherent hv

theorem run_coherent {v : TierVault} (hv : v.book.Coherent) {cs : List Invocation}
    (hcs : ∀ c ∈ cs, IsOperation c.2) : (run exec v cs).book.Coherent := by
  have hm : Meets exec (fun _ c => IsOperation c.2) v cs := meets_of_forall hcs
  exact run_invariant_of_meets (I := fun v => v.book.Coherent)
    (fun _ _ _ hc hv h => step_coherent hc hv h) hv hm

/-- The totals of a tier vault are the sums of its positions after any run of calls. -/
theorem run_accounted {t : Tier} {v : TierVault} (hv : Initialised t v) {cs : List Invocation}
    (hcs : ∀ c ∈ cs, IsOperation c.2) : (run exec v cs).Accounted := by
  refine accounted_of_coherent (run_coherent ?_ hcs)
  rw [initialised_book hv]
  exact Book.coherent_empty

theorem run_accounted_guarded :
    (run exec guarded
      [(⟨[1], none, 10⟩, .deposit (.account 7) (.account 5) 500_000_001),
       (⟨[1], none, 11⟩, .earlyExit (.account 7) (.account 5) (-3)),
       (⟨[1], none, 12⟩, .earlyExit (.account 7) (.account 5) 500_000_004)]).Accounted :=
  run_accounted guarded_initialised (by simp [IsOperation])

end YieldLadder.TierVault
