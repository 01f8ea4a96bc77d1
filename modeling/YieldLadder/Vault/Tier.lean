import YieldLadder.Vault.FlexSpec
import YieldLadder.Vault.LockedSpec

/-! # The four tier vaults behind one interface

A tier vault is one of the four contracts, called by symbol. `Outcome` lists what
a successful call other than `initialise` does to the book: a deposit adds, the
two exits take out, everything else leaves it.
-/
namespace YieldLadder
open Foundation

inductive Tier
  | flex
  | l3
  | l6
  | l12
  deriving DecidableEq, Repr

inductive TierVault
  | flex (s : VaultFlex.State)
  | l3 (s : VaultL3.State)
  | l6 (s : Locked.State)
  | l12 (s : Locked.State)

namespace TierVault

/-- A contract of this tier as deployed, before `initialise`. -/
def deployed : Tier → TierVault
  | .flex => .flex .empty
  | .l3 => .l3 .empty
  | .l6 => .l6 .empty
  | .l12 => .l12 .empty

def tier : TierVault → Tier
  | .flex _ => .flex
  | .l3 _ => .l3
  | .l6 _ => .l6
  | .l12 _ => .l12

def step (env : Env) : TierVault → VaultCall → Except Fault (TierVault × Reply)
  | .flex s, call => do
    let (s', reply) ← VaultFlex.step env s call
    pure (.flex s', reply)
  | .l3 s, call => do
    let (s', reply) ← VaultL3.step env s call
    pure (.l3 s', reply)
  | .l6 s, call => do
    let (s', reply) ← Locked.step VaultL6.params env s call
    pure (.l6 s', reply)
  | .l12 s, call => do
    let (s', reply) ← Locked.step VaultL12.params env s call
    pure (.l12 s', reply)

def balances : TierVault → Store Key ℤ
  | .flex s => s.balance
  | .l3 s => s.core.balance
  | .l6 s => s.balance
  | .l12 s => s.balance

def shares : TierVault → Store Key ℤ
  | .flex s => s.shares
  | .l3 s => s.core.shares
  | .l6 s => s.shares
  | .l12 s => s.shares

def totalBalance : TierVault → ℤ
  | .flex s => VaultFlex.totalBalance s
  | .l3 s => Locked.totalBalance s.core
  | .l6 s => Locked.totalBalance s
  | .l12 s => Locked.totalBalance s

def totalShares : TierVault → ℤ
  | .flex s => VaultFlex.totalShares s
  | .l3 s => Locked.totalShares s.core
  | .l6 s => Locked.totalShares s
  | .l12 s => Locked.totalShares s

def book (v : TierVault) : Book Key := ⟨v.balances, v.shares, v.totalBalance, v.totalShares⟩

def balance (v : TierVault) (user asset : Address) : ℤ := v.balances.getD (user, asset) 0

def admin : TierVault → Option Address
  | .flex s => s.inst.map VaultFlex.Instance.admin
  | .l3 s => s.core.inst.map Locked.Instance.admin
  | .l6 s => s.inst.map Locked.Instance.admin
  | .l12 s => s.inst.map Locked.Instance.admin

/-- The state a locked vault shares with the other locked vaults. -/
def core : TierVault → Option Locked.State
  | .flex _ => none
  | .l3 s => some s.core
  | .l6 s => some s
  | .l12 s => some s

/-- The numbers of a locked tier; VaultFlex has none. -/
def params : TierVault → Option TierParams
  | .flex _ => none
  | .l3 _ => some VaultL3.params
  | .l6 _ => some VaultL6.params
  | .l12 _ => some VaultL12.params

def emergency : TierVault → Address → Bool
  | .l3 s, asset => VaultL3.emergency s asset
  | _, _ => false

def minDeposit (v : TierVault) : ℤ := (v.params.map TierParams.minDeposit).getD SCALING_FACTOR

def minted (v : TierVault) (amount : ℤ) : ℤ :=
  (v.params.map (Locked.mintedShares · amount)).getD amount

/-- The fee an early exit of `amount` of `asset` pays. -/
def exitFee (v : TierVault) (asset : Address) (amount : ℤ) : ℤ :=
  (v.params.map (Locked.feeOf · (v.emergency asset) amount)).getD 0

def AdminAuthorized (v : TierVault) (env : Env) : Prop := ∃ a, v.admin = some a ∧ env.Authorized a

inductive Outcome (env : Env) (v v' : TierVault) : VaultCall → Reply → Prop
  | deposit (user asset : Address) (amount : ℤ) (hauth : v.AdminAuthorized env)
      (hmin : v.minDeposit ≤ amount)
      (hbook : v'.book = v.book.add (user, asset) amount (v.minted amount)) :
      Outcome env v v' (.deposit user asset amount) ⟨.unit, [.deposit user asset amount]⟩
  | withdraw (user asset : Address) (amount : ℤ) (hauth : v.AdminAuthorized env)
      (hle : amount ≤ v.balance user asset)
      (h0 : amount < v.balance user asset → v.balance user asset ≠ 0)
      (hbook : v'.book = v.book.takeOut (user, asset) amount) :
      Outcome env v v' (.withdraw user asset amount)
        ⟨.i128 amount, [.withdraw user asset amount]⟩
  | earlyExit (user asset : Address) (amount : ℤ) (hauth : v.AdminAuthorized env)
      (hle : amount ≤ v.balance user asset)
      (h0 : amount < v.balance user asset → v.balance user asset ≠ 0)
      (hbook : v'.book = v.book.takeOut (user, asset) amount) :
      Outcome env v v' (.earlyExit user asset amount)
        ⟨.i128 (amount - v.exitFee asset amount),
          [.earlyExit user asset (amount - v.exitFee asset amount)]⟩
  | other (call : VaultCall) (reply : Reply) (hbook : v'.book = v.book) (hevents : reply.events = [])
      (hd : ∀ u a x, call ≠ .deposit u a x) (hw : ∀ u a x, call ≠ .withdraw u a x)
      (he : ∀ u a x, call ≠ .earlyExit u a x) :
      Outcome env v v' call reply

end TierVault

namespace TierVault
variable {env : Env} {v v' : TierVault} {call : VaultCall} {r : TierVault × Reply} {reply : Reply}
variable {s s' : Locked.State} {p : TierParams}

theorem book_of_core (h : v.core = some s) : v.book = s.book := by
  cases v <;> cases h <;> rfl

theorem balances_of_core (h : v.core = some s) : v.balances = s.balance :=
  congrArg Book.principal (book_of_core h)

theorem shares_of_core (h : v.core = some s) : v.shares = s.shares :=
  congrArg Book.shares (book_of_core h)

theorem totalBalance_of_core (h : v.core = some s) : v.totalBalance = Locked.totalBalance s :=
  congrArg Book.totalPrincipal (book_of_core h)

theorem totalShares_of_core (h : v.core = some s) : v.totalShares = Locked.totalShares s :=
  congrArg Book.totalShares (book_of_core h)

theorem balance_of_core (h : v.core = some s) (user asset : Address) :
    v.balance user asset = s.balance.getD (user, asset) 0 := by
  rw [balance, balances_of_core h]

theorem minDeposit_of_params (hp : v.params = some p) : v.minDeposit = p.minDeposit := by
  simp [minDeposit, hp]

theorem admin_of_core (h : v.core = some s) : v.admin = s.inst.map Locked.Instance.admin := by
  cases v <;> cases h <;> rfl

/-- A locked vault's `initialise`: the named admin authorises it and the instance entries
are written anew. -/
def Reset (env : Env) (s : Locked.State) (call : VaultCall) (s' : Locked.State) : Prop :=
  ∃ args admin governance strategy usdc maxTvl, call = .initialise args ∧
    s' = { s with inst := some (Locked.freshInstance admin governance strategy usdc maxTvl) } ∧
    env.Authorized admin

/-- A call about the emergency flags, which VaultL3 alone has. -/
def AboutFlags (call : VaultCall) : Prop :=
  (∃ asset active, call = .setEmergencyUnlock asset active) ∨
    ∃ asset, call = .query (.emergencyUnlock asset)

theorem locked_step_cases {q : Locked.State × Reply} (h : Locked.step p env s call = .ok q) :
    Locked.operate p (fun _ => false) env s call = .ok q ∨ Reset env s call q.1 := by
  cases call with
  | initialise args =>
    cases args with
    | locked admin governance strategy usdc maxTvl =>
      simp only [Locked.step, bind_eq_ok, pure_eq_ok] at h
      obtain ⟨s', hs', rfl⟩ := h
      obtain ⟨hauth, rfl⟩ := Locked.initialise_ok hs'
      exact .inr ⟨_, _, _, _, _, _, rfl, rfl, hauth⟩
    | _ => simp [Locked.step] at h
  | _ => exact .inl h

theorem l3_step_cases {s : VaultL3.State} {q : VaultL3.State × Reply}
    (h : VaultL3.step env s call = .ok q) :
    (Locked.operate VaultL3.params (VaultL3.emergency s) env s.core call = .ok (q.1.core, q.2) ∧
      VaultL3.emergency q.1 = VaultL3.emergency s) ∨
    Reset env s.core call q.1.core ∨ (AboutFlags call ∧ q.1.core = s.core ∧ q.2.events = []) := by
  have hoperate : ∀ {c x}, Locked.operate VaultL3.params (VaultL3.emergency s) env s.core c = .ok x →
      ({ s with core := x.1 }, x.2) = q →
      Locked.operate VaultL3.params (VaultL3.emergency s) env s.core c = .ok (q.1.core, q.2) ∧
        VaultL3.emergency q.1 = VaultL3.emergency s := by
    rintro c x hx rfl
    exact ⟨hx, rfl⟩
  cases call with
  | initialise args =>
    cases args with
    | guarded admin governance guardian strategy usdc maxTvl =>
      simp only [VaultL3.step, VaultL3.initialise, bind_eq_ok, pure_eq_ok] at h
      obtain ⟨_, ⟨core, hcore, rfl⟩, rfl⟩ := h
      obtain ⟨hauth, rfl⟩ := Locked.initialise_ok hcore
      exact .inr (.inl ⟨_, _, _, _, _, _, rfl, rfl, hauth⟩)
    | _ => simp [VaultL3.step] at h
  | setEmergencyUnlock asset active =>
    simp only [VaultL3.step, VaultL3.setEmergencyUnlock, bind_eq_ok, pure_eq_ok] at h
    obtain ⟨_, ⟨_, _, _, _, rfl⟩, rfl⟩ := h
    exact .inr (.inr ⟨.inl ⟨_, _, rfl⟩, rfl, rfl⟩)
  | query q =>
    cases q with
    | emergencyUnlock asset =>
      obtain rfl := pure_eq_ok.mp h
      exact .inr (.inr ⟨.inr ⟨_, rfl⟩, rfl, rfl⟩)
    | _ =>
      obtain ⟨x, hx, hq⟩ := bind_eq_ok.mp h
      exact .inl (hoperate hx (pure_eq_ok.mp hq))
  | _ =>
    obtain ⟨x, hx, hq⟩ := bind_eq_ok.mp h
    exact .inl (hoperate hx (pure_eq_ok.mp hq))

/-- A step of a locked vault is a locked operation, an `initialise`, which writes the
instance entries alone, or a call about the emergency flags, which leaves the rest. -/
theorem step_core (hp : v.params = some p) (hs : v.core = some s) (h : step env v call = .ok r) :
    ∃ s', r.1.core = some s' ∧ r.1.params = some p ∧
      (Locked.operate p v.emergency env s call = .ok (s', r.2) ∧ r.1.emergency = v.emergency ∨
        Reset env s call s' ∨ (AboutFlags call ∧ s' = s ∧ r.2.events = [])) := by
  cases v with
  | flex s => cases hs
  | l3 s =>
    cases hp
    cases hs
    simp only [step, bind_eq_ok, pure_eq_ok] at h
    obtain ⟨⟨s', reply⟩, hq, rfl⟩ := h
    exact ⟨s'.core, rfl, rfl, l3_step_cases hq⟩
  | l6 s =>
    cases hp
    cases hs
    simp only [step, bind_eq_ok, pure_eq_ok] at h
    obtain ⟨⟨s', reply⟩, hq, rfl⟩ := h
    refine ⟨s', rfl, rfl, ?_⟩
    rcases locked_step_cases hq with hop | hinit
    · exact .inl ⟨hop, rfl⟩
    · exact .inr (.inl hinit)
  | l12 s =>
    cases hp
    cases hs
    simp only [step, bind_eq_ok, pure_eq_ok] at h
    obtain ⟨⟨s', reply⟩, hq, rfl⟩ := h
    refine ⟨s', rfl, rfl, ?_⟩
    rcases locked_step_cases hq with hop | hinit
    · exact .inl ⟨hop, rfl⟩
    · exact .inr (.inl hinit)

theorem flex_or_locked (v : TierVault) : (∃ s, v = .flex s) ∨ ∃ p s, v.params = some p ∧ v.core = some s := by
  cases v with
  | flex s => exact .inl ⟨s, rfl⟩
  | l3 s => exact .inr ⟨_, _, rfl, rfl⟩
  | l6 s => exact .inr ⟨_, _, rfl, rfl⟩
  | l12 s => exact .inr ⟨_, _, rfl, rfl⟩

theorem flex_or_locked_of_tier {w : TierVault} (h : v.tier = w.tier) : (∃ s t, v = .flex s ∧ w = .flex t) ∨
    ∃ p s t, v.params = some p ∧ v.core = some s ∧ w.params = some p ∧ w.core = some t := by
  cases v with
  | flex s =>
    cases w with
    | flex t => exact .inl ⟨s, t, rfl, rfl⟩
    | _ => cases h
  | l3 s =>
    cases w with
    | l3 t => exact .inr ⟨_, _, _, rfl, rfl, rfl, rfl⟩
    | _ => cases h
  | l6 s =>
    cases w with
    | l6 t => exact .inr ⟨_, _, _, rfl, rfl, rfl, rfl⟩
    | _ => cases h
  | l12 s =>
    cases w with
    | l12 t => exact .inr ⟨_, _, _, rfl, rfl, rfl, rfl⟩
    | _ => cases h

theorem exists_core (hp : v.params = some p) : ∃ s, v.core = some s := by
  rcases v.flex_or_locked with ⟨s, rfl⟩ | ⟨_, s, _, hs⟩
  · cases hp
  · exact ⟨s, hs⟩

/-- The vault with another core in the place of its own. -/
def withCore : TierVault → Locked.State → TierVault
  | .flex s, _ => .flex s
  | .l3 s, core => .l3 { s with core }
  | .l6 _, core => .l6 core
  | .l12 _, core => .l12 core

/-- A locked vault answers every call from its core alone, but for `initialise` and the flags. -/
theorem step_eq_operate (hp : v.params = some p) (hs : v.core = some s) (hinit : ∀ args, call ≠ .initialise args)
    (hflag : ¬AboutFlags call) : step env v call = (do
      let q ← Locked.operate p v.emergency env s call
      pure (v.withCore q.1, q.2)) := by
  cases v with
  | flex t => cases hs
  | l3 t =>
    cases hp
    cases hs
    cases call with
    | initialise args => exact absurd rfl (hinit args)
    | setEmergencyUnlock asset active => exact absurd (.inl ⟨asset, active, rfl⟩) hflag
    | query q =>
      cases q with
      | emergencyUnlock asset => exact absurd (.inr ⟨asset, rfl⟩) hflag
      | _ => exact bind_assoc _ _ _
    | _ => exact bind_assoc _ _ _
  | l6 t =>
    cases hp
    cases hs
    cases call with
    | initialise args => exact absurd rfl (hinit args)
    | _ => rfl
  | l12 t =>
    cases hp
    cases hs
    cases call with
    | initialise args => exact absurd rfl (hinit args)
    | _ => rfl

theorem exists_step_iff (hp : v.params = some p) (hs : v.core = some s) (hinit : ∀ args, call ≠ .initialise args)
    (hflag : ¬AboutFlags call) :
    (∃ r, step env v call = .ok r) ↔ ∃ q, Locked.operate p v.emergency env s call = .ok q := by
  rw [step_eq_operate hp hs hinit hflag]
  exact exists_bind_pure _

theorem AdminAuthorized.of_core (hs : v.core = some s) (ha : v.AdminAuthorized env) :
    ∃ i, s.inst = some i ∧ env.Authorized i.admin := by
  obtain ⟨a, hadmin, ha⟩ := ha
  obtain ⟨i, hi, rfl⟩ := Option.map_eq_some_iff.mp (admin_of_core hs ▸ hadmin)
  exact ⟨i, hi, ha⟩

theorem operate_outcome (hs : v.core = some s) (hs' : v'.core = some s') (hparams : v.params = some p)
    (h : Locked.operate p v.emergency env s call = .ok (s', reply)) :
    Outcome env v v' call reply := by
  have hbook := book_of_core hs
  have hbook' := book_of_core hs'
  have hadmin := admin_of_core hs
  have hauthor : ∀ i, s.inst = some i → env.Authorized i.admin → v.AdminAuthorized env :=
    fun i hi ha => ⟨i.admin, by rw [hadmin, hi]; rfl, ha⟩
  have hbal := balance_of_core hs
  cases Locked.operate_effect h with
  | deposit user asset amount i hi hauth hmin _ _ hb =>
    refine .deposit user asset amount (hauthor i hi hauth) ?_ ?_
    · simpa [minDeposit, hparams] using hmin
    · rw [hbook', hb, hbook]
      simp [minted, hparams]
  | withdraw user asset amount i hi hauth _ hle htake =>
    obtain ⟨hb, h0, _⟩ := Locked.takeOut_ok hi htake
    refine .withdraw user asset amount (hauthor i hi hauth) ?_ ?_ ?_
    · rw [hbal]
      exact hle
    · rw [hbal]
      exact h0
    · rw [hbook', hbook]
      exact hb
  | earlyExit user asset amount i hi hauth hle htake =>
    obtain ⟨hb, h0, _⟩ := Locked.takeOut_ok hi htake
    have hfee : Locked.feeOf p (v.emergency asset) amount = v.exitFee asset amount := by
      simp [exitFee, hparams]
    rw [hfee]
    refine .earlyExit user asset amount (hauthor i hi hauth) ?_ ?_ ?_
    · rw [hbal]
      exact hle
    · rw [hbal]
      exact h0
    · rw [hbook', hbook]
      exact hb
  | relock user asset i hi hauth _ hr =>
    refine .other _ _ ?_ rfl (by simp) (by simp) (by simp)
    rw [hbook', hbook, hr]
    rfl
  | setMaxTvl newCap i hi hauth hr =>
    refine .other _ _ ?_ rfl (by simp) (by simp) (by simp)
    rw [hbook', hbook, Locked.book_of_inst hi, hr]
    rfl
  | query q value hr => exact .other _ _ (by rw [hbook', hbook, hr]) rfl (by simp) (by simp) (by simp)

end TierVault

theorem VaultFlex.step_outcome {env : Env} {s : VaultFlex.State} {call : VaultCall}
    {r : VaultFlex.State × Reply} (hc : ∀ args, call ≠ .initialise args)
    (h : VaultFlex.step env s call = .ok r) :
    TierVault.Outcome env (.flex s) (.flex r.1) call r.2 := by
  have hauthor : ∀ i, s.inst = some i → env.Authorized i.admin →
      (TierVault.flex s).AdminAuthorized env :=
    fun i hi ha => ⟨i.admin, by simp [TierVault.admin, hi], ha⟩
  obtain ⟨s', reply⟩ := r
  cases step_effect hc h with
  | deposit user asset amount i hi hauth hmin _ hb =>
    exact .deposit user asset amount (hauthor i hi hauth) hmin hb
  | exit _ _ user asset amount hexit i hi hauth _ hpos hle _ hb =>
    rcases hexit with ⟨rfl, hreply⟩ | ⟨rfl, hreply⟩
    · dsimp only at hreply
      subst hreply
      exact .withdraw user asset amount (hauthor i hi hauth) hle (fun _ => hpos.ne') hb
    · have hfee : (TierVault.flex s).exitFee asset amount = 0 := rfl
      have hout : TierVault.Outcome env (.flex s) (.flex s') (.earlyExit user asset amount)
          ⟨.i128 (amount - (TierVault.flex s).exitFee asset amount),
            [.earlyExit user asset (amount - (TierVault.flex s).exitFee asset amount)]⟩ :=
        .earlyExit user asset amount (hauthor i hi hauth) hle (fun _ => hpos.ne') hb
      dsimp only at hreply
      rw [hfee, sub_zero] at hout
      rw [hreply]
      exact hout
  | query q value hs =>
    dsimp only at hs
    subst hs
    exact .other _ _ rfl rfl (by simp) (by simp) (by simp)

namespace TierVault
variable {env : Env} {v v' : TierVault} {call : VaultCall} {r : TierVault × Reply} {reply : Reply}

theorem step_outcome (hc : ∀ args, call ≠ .initialise args) (h : step env v call = .ok r) :
    Outcome env v r.1 call r.2 := by
  rcases v.flex_or_locked with ⟨s, rfl⟩ | ⟨p, s, hp, hs⟩
  · simp only [step, bind_eq_ok, pure_eq_ok] at h
    obtain ⟨q, hq, rfl⟩ := h
    exact VaultFlex.step_outcome hc hq
  · obtain ⟨s', hs', _, ⟨hop, _⟩ | ⟨args, _, _, _, _, _, rfl, _⟩ | ⟨hflag, rfl, hevents⟩⟩ :=
      step_core hp hs h
    · exact operate_outcome hs hs' hp hop
    · exact absurd rfl (hc args)
    · refine .other _ _ (by rw [book_of_core hs, book_of_core hs']) hevents ?_ ?_ ?_ <;>
        rcases hflag with ⟨_, _, rfl⟩ | ⟨_, rfl⟩ <;> simp

theorem exit_book {user asset : Address} {amount : ℤ} (hcall : call = .withdraw user asset amount ∨
      call = .earlyExit user asset amount) (h : step env v call = .ok r) :
    r.1.book = v.book.takeOut (user, asset) amount := by
  rcases hcall with rfl | rfl
  · have hout := step_outcome (by simp) h
    obtain ⟨v', reply⟩ := r
    cases hout with
    | withdraw _ _ _ _ _ _ hbook => exact hbook
    | other _ _ _ _ _ hno => exact absurd rfl (hno _ _ _)
  · have hout := step_outcome (by simp) h
    obtain ⟨v', reply⟩ := r
    cases hout with
    | earlyExit _ _ _ _ _ _ hbook => exact hbook
    | other _ _ _ _ _ _ hno => exact absurd rfl (hno _ _ _)

theorem withdraw_value {user asset : Address} {amount : ℤ}
    (h : step env v (.withdraw user asset amount) = .ok r) : r.2.value = .i128 amount := by
  have hout : Outcome env v r.1 (.withdraw user asset amount) r.2 := step_outcome (by simp) h
  obtain ⟨v', reply⟩ := r
  cases hout with
  | withdraw => rfl
  | other _ _ _ _ _ hno => exact absurd rfl (hno _ _ _)

theorem earlyExit_value {user asset : Address} {amount : ℤ}
    (h : step env v (.earlyExit user asset amount) = .ok r) :
    r.2.value = .i128 (amount - v.exitFee asset amount) := by
  have hout : Outcome env v r.1 (.earlyExit user asset amount) r.2 := step_outcome (by simp) h
  obtain ⟨v', reply⟩ := r
  cases hout with
  | earlyExit => rfl
  | other _ _ _ _ _ _ hno => exact absurd rfl (hno _ _ _)

def exitPayout (v : TierVault) (asset : Address) (amount : ℤ) : Exit → ℤ
  | .withdraw => amount
  | .early => amount - v.exitFee asset amount

theorem exit_value {user asset : Address} {amount : ℤ} {e : Exit}
    (h : step env v (e.call user asset amount) = .ok r) :
    r.2.value = .i128 (v.exitPayout asset amount e) := by
  cases e with
  | withdraw => exact withdraw_value h
  | early => exact earlyExit_value h

theorem minDeposit_pos (v : TierVault) : 0 < v.minDeposit := by
  cases v with
  | flex s => exact (by decide : 0 < SCALING_FACTOR)
  | l3 s => exact (by decide : 0 < VaultL3.MIN_DEPOSIT)
  | l6 s => exact (by decide : 0 < VaultL6.MIN_DEPOSIT)
  | l12 s => exact (by decide : 0 < VaultL12.MIN_DEPOSIT)

theorem mintedShares_pos {p : TierParams} {amount : ℤ} (hp : SCALING_FACTOR ≤ p.multiplierFp)
    (ha : 0 < amount) : 0 < Locked.mintedShares p amount := by
  have hone : SCALING_FACTOR * 1 ≤ amount * p.multiplierFp := by
    unfold SCALING_FACTOR at *
    nlinarith
  have h0 : 0 ≤ amount * p.multiplierFp := le_trans (by decide) hone
  unfold Locked.mintedShares
  rw [Int.tdiv_eq_ediv_of_nonneg h0]
  exact Int.le_ediv_of_mul_le (by decide) (by linarith)

theorem minted_pos {amount : ℤ} (ha : 0 < amount) : 0 < v.minted amount := by
  cases v with
  | flex s => exact ha
  | l3 s => exact mintedShares_pos (p := VaultL3.params) (by decide) ha
  | l6 s => exact mintedShares_pos (p := VaultL6.params) (by decide) ha
  | l12 s => exact mintedShares_pos (p := VaultL12.params) (by decide) ha

theorem exitFee_of_params {p : TierParams} (hp : v.params = some p) (asset : Address) (amount : ℤ) :
    v.exitFee asset amount = Locked.feeOf p (v.emergency asset) amount := by
  simp [exitFee, hp]

theorem exitFeeFp_mem {p : TierParams} (hp : v.params = some p) :
    0 ≤ p.exitFeeFp ∧ p.exitFeeFp ≤ SCALING_FACTOR := by
  cases v <;> cases hp <;> decide

theorem exitFee_mem (v : TierVault) (asset : Address) {amount : ℤ} (ha : 0 ≤ amount) :
    0 ≤ v.exitFee asset amount ∧ v.exitFee asset amount ≤ amount := by
  cases hp : v.params with
  | none => simpa [exitFee, hp] using ha
  | some p =>
    obtain ⟨h0, h1⟩ := exitFeeFp_mem hp
    rw [exitFee_of_params hp]
    exact Locked.feeOf_mem h0 h1 ha

theorem exitFee_neg (v : TierVault) (asset : Address) (amount : ℤ) :
    v.exitFee asset (-amount) = -v.exitFee asset amount := by
  cases hp : v.params with
  | none => simp [exitFee, hp]
  | some p =>
    rw [exitFee_of_params hp, exitFee_of_params hp]
    exact Locked.feeOf_neg _ _ _

theorem exitPayout_mem (v : TierVault) (asset : Address) (e : Exit) {amount : ℤ} (ha : 0 ≤ amount) :
    0 ≤ v.exitPayout asset amount e ∧ v.exitPayout asset amount e ≤ amount := by
  cases e with
  | withdraw => exact ⟨ha, le_rfl⟩
  | early =>
    have hmem := exitFee_mem v asset ha
    rw [exitPayout]
    omega

theorem exitPayout_nonpos (v : TierVault) (asset : Address) (e : Exit) {amount : ℤ} (ha : amount ≤ 0) :
    v.exitPayout asset amount e ≤ 0 := by
  cases e with
  | withdraw => exact ha
  | early =>
    have hmem := exitFee_mem v asset (Int.neg_nonneg_of_nonpos ha)
    rw [exitFee_neg] at hmem
    rw [exitPayout]
    omega

theorem Outcome.book_step (h : Outcome env v v' call reply) : Book.Step v.book v'.book := by
  cases h with
  | deposit user asset amount _ hmin hbook =>
    rw [hbook]
    have ha : 0 < amount := lt_of_lt_of_le v.minDeposit_pos hmin
    exact .add _ _ _ _ ha (minted_pos ha)
  | withdraw user asset amount _ _ h0 hbook =>
    rw [hbook]
    exact .takeOut _ _ _ h0
  | earlyExit user asset amount _ _ h0 hbook =>
    rw [hbook]
    exact .takeOut _ _ _ h0
  | other _ _ hbook =>
    rw [hbook]
    exact .idle _

/-- What a successful call adds to the position `k`. -/
def credited (call : VaultCall) (k : Key) : ℤ :=
  match call with
  | .deposit user asset amount => if k = (user, asset) then amount else 0
  | .withdraw user asset amount => if k = (user, asset) then -amount else 0
  | .earlyExit user asset amount => if k = (user, asset) then -amount else 0
  | _ => 0

theorem exit_credited {user asset : Address} {amount : ℤ} (e : Exit) (k : Key) :
    credited (e.call user asset amount) k = if k = (user, asset) then -amount else 0 := by
  cases e <;> rfl

theorem Outcome.balances (h : Outcome env v v' call reply) (k : Key) :
    v'.balances.getD k 0 = v.balances.getD k 0 + credited call k := by
  have hexit : ∀ {user asset amount}, amount ≤ v.balance user asset →
      v'.book = v.book.takeOut (user, asset) amount →
      v'.balances.getD k 0 = v.balances.getD k 0 + if k = (user, asset) then -amount else 0 := by
    intro user asset amount hle hbook
    have hb : v'.balances = _ := congrArg Book.principal hbook
    rw [hb, Book.takeOut_principal hle]
    split
    · next hk =>
      rw [hk]
      exact Int.sub_eq_add_neg
    · exact (add_zero _).symm
  cases h with
  | deposit user asset amount _ _ hbook =>
    have hb : v'.balances = _ := congrArg Book.principal hbook
    rw [hb, Book.add_principal]
    dsimp only [credited]
    split
    · next hk =>
      rw [hk]
      rfl
    · exact (add_zero _).symm
  | withdraw user asset amount _ hle _ hbook => exact hexit hle hbook
  | earlyExit user asset amount _ hle _ hbook => exact hexit hle hbook
  | other _ _ hbook _ hd hw he =>
    have hb : v'.balances = v.balances := congrArg Book.principal hbook
    rw [hb]
    unfold credited
    split
    · next user asset amount => exact absurd rfl (hd user asset amount)
    · next user asset amount => exact absurd rfl (hw user asset amount)
    · next user asset amount => exact absurd rfl (he user asset amount)
    · exact (add_zero _).symm

end TierVault
end YieldLadder
