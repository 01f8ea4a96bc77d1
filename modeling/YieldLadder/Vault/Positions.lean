import YieldLadder.Vault.LockSafety

/-! # Who moves the positions of a tier vault

A position is its balance, shares, lock and checkpoint. Deposits, the two exits
and `relock` are the calls that write them, each with the admin's authorization;
every other operation leaves all positions and both totals as they are.
-/
namespace YieldLadder
open Foundation

/-- The calls that write an entry of a position. -/
def VaultCall.MovesPosition : VaultCall → Prop
  | .deposit _ _ _ => True
  | .withdraw _ _ _ => True
  | .earlyExit _ _ _ => True
  | .relock _ _ => True
  | _ => False

namespace TierVault

/-- The stored locks; VaultFlex has none. -/
def locks : TierVault → Store Key ℕ
  | .flex _ => .empty
  | .l3 s => s.core.lockUntil
  | .l6 s => s.lockUntil
  | .l12 s => s.lockUntil

def checkpoints : TierVault → Store Key ℕ
  | .flex s => s.checkpoint
  | .l3 s => s.core.checkpoint
  | .l6 s => s.checkpoint
  | .l12 s => s.checkpoint

/-- The two states agree on both totals and on every entry of every position. -/
structure SamePositions (v v' : TierVault) : Prop where
  book : v'.book = v.book
  locks : v'.locks = v.locks
  checkpoints : v'.checkpoints = v.checkpoints

variable {env : Env} {v v' v'' : TierVault} {call : VaultCall} {r : TierVault × Reply}
variable {s s' : Locked.State} {p : TierParams} {user asset : Address}

theorem SamePositions.refl (v : TierVault) : SamePositions v v := ⟨rfl, rfl, rfl⟩

theorem SamePositions.trans (h : SamePositions v v') (h' : SamePositions v' v'') :
    SamePositions v v'' where
  book := h'.book.trans h.book
  locks := h'.locks.trans h.locks
  checkpoints := h'.checkpoints.trans h.checkpoints

theorem locks_of_core (h : v.core = some s) : v.locks = s.lockUntil := by
  cases v <;> cases h <;> rfl

theorem checkpoints_of_core (h : v.core = some s) : v.checkpoints = s.checkpoint := by
  cases v <;> cases h <;> rfl

theorem SamePositions.of_core (h : v.core = some s) (h' : v'.core = some s')
    (hbook : s'.book = s.book) (hlock : s'.lockUntil = s.lockUntil)
    (hcheckpoint : s'.checkpoint = s.checkpoint) : SamePositions v v' where
  book := by rw [book_of_core h, book_of_core h', hbook]
  locks := by rw [locks_of_core h, locks_of_core h', hlock]
  checkpoints := by rw [checkpoints_of_core h, checkpoints_of_core h', hcheckpoint]

theorem step_positions (hc : IsOperation call) (h : step env v call = .ok r) :
    SamePositions v r.1 ∨ call.MovesPosition ∧ v.AdminAuthorized env := by
  rcases v.flex_or_locked with ⟨s, rfl⟩ | ⟨p, s, hp, hs⟩
  · simp only [step, bind_eq_ok, pure_eq_ok] at h
    obtain ⟨⟨s', reply⟩, hq, rfl⟩ := h
    have hauthor : ∀ i, s.inst = some i → env.Authorized i.admin →
        (TierVault.flex s).AdminAuthorized env :=
      fun i hi ha => ⟨i.admin, by simp [TierVault.admin, hi], ha⟩
    cases VaultFlex.step_effect hc hq with
    | deposit _ _ _ i hi hauth => exact .inr ⟨trivial, hauthor i hi hauth⟩
    | exit _ _ _ _ _ hexit i hi hauth =>
      refine .inr ⟨?_, hauthor i hi hauth⟩
      rcases hexit with ⟨rfl, _⟩ | ⟨rfl, _⟩ <;> trivial
    | query q value hs =>
      dsimp only at hs
      subst hs
      exact .inl (.refl _)
  · have hauthor : ∀ i, s.inst = some i → env.Authorized i.admin → v.AdminAuthorized env :=
      fun i hi ha => ⟨i.admin, by rw [admin_of_core hs, hi]; rfl, ha⟩
    obtain ⟨v', reply⟩ := r
    obtain ⟨s', hs', _, ⟨hop, _⟩ | ⟨args, _, _, _, _, _, rfl, _⟩ | ⟨_, rfl, _⟩⟩ := step_core hp hs h
    · dsimp only at hop
      cases Locked.operate_effect hop with
      | deposit _ _ _ i hi hauth => exact .inr ⟨trivial, hauthor i hi hauth⟩
      | withdraw _ _ _ i hi hauth => exact .inr ⟨trivial, hauthor i hi hauth⟩
      | earlyExit _ _ _ i hi hauth => exact .inr ⟨trivial, hauthor i hi hauth⟩
      | relock _ _ i hi hauth => exact .inr ⟨trivial, hauthor i hi hauth⟩
      | setMaxTvl newCap i hi hauth hr =>
        have hbook : s'.book = s.book := by
          rw [Locked.book_of_inst hi, hr]
          rfl
        exact .inl (.of_core hs hs' hbook (by rw [hr]) (by rw [hr]))
      | query q value hr => exact .inl (.of_core hs hs' (by rw [hr]) (by rw [hr]) (by rw [hr]))
    · exact absurd rfl (hc args)
    · exact .inl (.of_core hs hs' rfl rfl rfl)

theorem step_positions_unauthorised (hc : IsOperation call) (hno : ¬v.AdminAuthorized env)
    (h : step env v call = .ok r) : SamePositions v r.1 := by
  rcases step_positions hc h with hsame | ⟨_, hauth⟩
  · exact hsame
  · exact absurd hauth hno

/-- The checks of `relock`, each a condition on the state and the ledger. -/
structure Renewable (v : TierVault) (env : Env) (user asset : Address) (p : TierParams) : Prop where
  params : v.params = some p
  matured : v.lockUntil (user, asset) ≤ env.ledger
  fits : env.ledger + p.lockDuration < 2 ^ 32

theorem relock_ok_iff {i : Locked.Instance} (hi : s.inst = some i) (ha : env.Authorized i.admin) :
    (∃ q, Locked.relock p env s user asset = .ok q) ↔
      s.lockUntil.getD (user, asset) 0 ≤ env.ledger ∧ env.ledger + p.lockDuration < 2 ^ 32 := by
  simp only [Locked.relock, bind_eq_ok, expect_eq_ok, Env.requireAuth_eq_ok, failIf_eq_ok,
    addU32_eq_ok, pure_eq_ok, not_lt]
  constructor
  · rintro ⟨_, _, _, _, _, _, hlock, _, ⟨hfits, _⟩, _⟩
    exact ⟨hlock, hfits⟩
  · rintro ⟨hlock, hfits⟩
    exact ⟨_, i, hi, (), ha, (), hlock, _, ⟨hfits, rfl⟩, rfl⟩

/-- `relock` of a locked vault is the locked operation on its core. -/
theorem step_relock_eq (hp : v.params = some p) (hs : v.core = some s) :
    ∃ f : Locked.State → TierVault, step env v (.relock user asset) =
      (do let q ← Locked.relock p env s user asset
          pure (f q.1, ⟨.u32 q.2, []⟩)) :=
  ⟨v.withCore, (step_eq_operate hp hs (by simp) (by simp [AboutFlags])).trans (bind_assoc _ _ _)⟩

/-- A `relock` that goes through was of a locked vault, the lock of the position having matured. -/
theorem renewable_of_step (ha : v.AdminAuthorized env)
    (h : step env v (.relock user asset) = .ok r) : ∃ p, Renewable v env user asset p := by
  rcases v.flex_or_locked with ⟨s, rfl⟩ | ⟨p, s, hp, hs⟩
  · simp [step, VaultFlex.step] at h
  · obtain ⟨i, hi, hauth⟩ := ha.of_core hs
    obtain ⟨f, hf⟩ := step_relock_eq hp hs
    rw [hf] at h
    obtain ⟨q, hq, _⟩ := bind_eq_ok.mp h
    obtain ⟨hmatured, hfits⟩ := (relock_ok_iff hi hauth).mp ⟨q, hq⟩
    exact ⟨p, hp, (lockUntil_of_core hs _).trans_le hmatured, hfits⟩

theorem Renewable.step (h : Renewable v env user asset p) (ha : v.AdminAuthorized env) :
    ∃ v' n, TierVault.step env v (.relock user asset) = .ok (v', ⟨.u32 n, []⟩) := by
  obtain ⟨s, hs⟩ := exists_core h.params
  obtain ⟨i, hi, hauth⟩ := ha.of_core hs
  have hmatured := (lockUntil_of_core hs (user, asset)).ge.trans h.matured
  obtain ⟨q, hq⟩ := (relock_ok_iff hi hauth).mpr ⟨hmatured, h.fits⟩
  obtain ⟨f, hf⟩ := step_relock_eq h.params hs
  exact ⟨f q.1, q.2, by rw [hf, hq]; rfl⟩

end TierVault
end YieldLadder
