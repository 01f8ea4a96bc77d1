import YieldLadder.Position.PositionToken

/-! # Receipts and the withdrawal rights behind them

A tier vault keeps, for each address, how many positions it holds the withdrawal
right of; `set_withdrawal_auth` hands one over, or faults when there is none. The
position token wraps a position by taking its right and unwraps it by handing one
back. Every receipt can be unwrapped as long as none is minted, burned, conjured by
`transfer_from` or overwritten by a later wrap.
-/
namespace YieldLadder
open Foundation

namespace PositionToken

def Call.message (self : Address) (s : State) : Call → Option Message
  | .wrap user tierVault => some ⟨tierVault, user, self⟩
  | .unwrap tokenId => do
    let holder ← s.owner.get tokenId
    let tierVault ← s.tierVault.get tokenId
    some ⟨tierVault, self, holder⟩
  | _ => none

variable {self : Address} {s : State} {c : Invocation} {r : State × Value} {env : Env}
variable {external : External} {user vault : Address} {id : ℕ}

theorem exec_wrap_ok (h : exec self s ⟨env, external, .wrap user vault⟩ = .ok r) :
    env.Authorized user ∧ external ⟨vault, user, self⟩ = .ok () ∧
      r.2 = .u64 (s.nextTokenId.getD 0) ∧
      r.1.owner = s.owner.set (s.nextTokenId.getD 0) user ∧
      r.1.tierVault = s.tierVault.set (s.nextTokenId.getD 0) vault ∧
      r.1.originalOwner = s.originalOwner.set (s.nextTokenId.getD 0) user := by
  simp only [exec, wrap, bind_eq_ok, Env.requireAuth_eq_ok, addU64_eq_ok, pure_eq_ok] at h
  obtain ⟨_, ⟨_, hauth, _, hvault, _, _, rfl⟩, rfl⟩ := h
  exact ⟨hauth, hvault, rfl, rfl, rfl, rfl⟩

/-- `unwrap` succeeds when the holder signs and the tier vault agrees. -/
theorem exec_unwrap_iff : exec self s ⟨env, external, .unwrap id⟩ = .ok r ↔
    ∃ holder vault, s.owner.get id = some holder ∧ s.tierVault.get id = some vault ∧
      env.Authorized holder ∧ external ⟨vault, self, holder⟩ = .ok () ∧
      r = ({ s with
        owner := s.owner.remove id
        tierVault := s.tierVault.remove id
        originalOwner := s.originalOwner.remove id
        approved := s.approved.remove id }, .unit) := by
  simp only [exec, unwrap, map_eq_ok, bind_eq_ok, expect_eq_ok, Env.requireAuth_eq_ok, pure_eq_ok]
  constructor
  · rintro ⟨_, ⟨holder, howner, _, hauth, vault, hvault, _, hsent, rfl⟩, rfl⟩
    exact ⟨holder, vault, howner, hvault, hauth, hsent, rfl⟩
  · rintro ⟨holder, vault, howner, hvault, hauth, hsent, rfl⟩
    exact ⟨_, ⟨holder, howner, (), hauth, vault, hvault, (), hsent, rfl⟩, rfl⟩

theorem exec_mint_ok {dst : Address} (h : exec self s ⟨env, external, .mint dst id⟩ = .ok r) :
    ∃ admin, s.admin = some admin ∧ env.Authorized admin := by
  simp only [exec, mint, requireAdmin, map_eq_ok, bind_eq_ok, expect_eq_ok, Env.requireAuth_eq_ok] at h
  obtain ⟨_, ⟨_, ⟨admin, hadmin, hauth⟩, _⟩, _⟩ := h
  exact ⟨admin, hadmin, hauth⟩

/-- Only `wrap` and `unwrap` touch the tier vault and the original owner of an id, and of the other
calls only `initialise` touches the counter. -/
theorem exec_vaults (h : exec self s c = .ok r) (hwrap : ∀ user vault, c.call ≠ .wrap user vault)
    (hunwrap : ∀ id, c.call ≠ .unwrap id) :
    r.1.tierVault = s.tierVault ∧ r.1.originalOwner = s.originalOwner ∧
      ((∀ admin, c.call ≠ .initialise admin) → r.1.nextTokenId = s.nextTokenId) := by
  obtain ⟨env, external, call⟩ := c
  cases call with
  | wrap user vault => exact absurd rfl (hwrap user vault)
  | unwrap id => exact absurd rfl (hunwrap id)
  | initialise admin =>
    simp only [exec, initialise, map_eq_ok, bind_eq_ok, pure_eq_ok] at h
    obtain ⟨_, ⟨_, _, rfl⟩, rfl⟩ := h
    exact ⟨rfl, rfl, fun hno => absurd rfl (hno admin)⟩
  | mint dst id =>
    simp only [exec, mint, map_eq_ok, bind_eq_ok, pure_eq_ok] at h
    obtain ⟨_, ⟨_, _, _, _, rfl⟩, rfl⟩ := h
    exact ⟨rfl, rfl, fun _ => rfl⟩
  | transfer src dst id =>
    simp only [exec, transfer, map_eq_ok, bind_eq_ok, pure_eq_ok] at h
    obtain ⟨_, ⟨_, _, _, _, rfl⟩, rfl⟩ := h
    exact ⟨rfl, rfl, fun _ => rfl⟩
  | transferFrom spender src dst id =>
    simp only [exec, transferFrom, map_eq_ok, bind_eq_ok, pure_eq_ok] at h
    obtain ⟨_, ⟨_, _, _, _, rfl⟩, rfl⟩ := h
    exact ⟨rfl, rfl, fun _ => rfl⟩
  | approve owner spender id expiration =>
    simp only [exec, approve, map_eq_ok, bind_eq_ok, pure_eq_ok] at h
    obtain ⟨_, ⟨_, _, _, _, _, _, rfl⟩, rfl⟩ := h
    exact ⟨rfl, rfl, fun _ => rfl⟩
  | setAuthorized owner operator authorized =>
    simp only [exec, setAuthorized, map_eq_ok, bind_eq_ok, pure_eq_ok] at h
    obtain ⟨_, ⟨_, _, rfl⟩, rfl⟩ := h
    exact ⟨rfl, rfl, fun _ => rfl⟩
  | burn src id =>
    simp only [exec, burn, map_eq_ok, bind_eq_ok, pure_eq_ok] at h
    obtain ⟨_, ⟨_, _, _, _, _, _, rfl⟩, rfl⟩ := h
    exact ⟨rfl, rfl, fun _ => rfl⟩
  | burnFrom spender src id =>
    simp only [exec, burnFrom, map_eq_ok, bind_eq_ok, pure_eq_ok] at h
    obtain ⟨_, ⟨_, _, _, _, rfl⟩, rfl⟩ := h
    exact ⟨rfl, rfl, fun _ => rfl⟩
  | _ =>
    obtain ⟨_, _, rfl⟩ := map_eq_ok.mp h
    exact ⟨rfl, rfl, fun _ => rfl⟩

end PositionToken

/-- The position token and, by tier vault and address, the withdrawal rights. -/
structure Escrow where
  token : PositionToken.State
  rights : Address → Address → ℕ

namespace Escrow
open PositionToken (Message Value)

/-- `set_withdrawal_auth`: the current address must hold a right, and hands it over. -/
def hand (rights : Address → Address → ℕ) (m : Message) : Except Fault (Address → Address → ℕ) := do
  failIf (rights m.tierVault m.currentAuth = 0) .unauthorized
  pure fun v a =>
    if v = m.tierVault then
      rights v a - (if a = m.currentAuth then 1 else 0) + if a = m.newAuth then 1 else 0
    else rights v a

/-- A call of the position token, or the tier vault settling how many rights an address holds: a
deposit, an exit, a `set_withdrawal_auth` that others ask for. -/
inductive Action
  | token (call : PositionToken.Call)
  | settle (vault holder : Address) (count : ℕ)

structure Invocation where
  env : Env
  action : Action

def answer (rights : Address → Address → ℕ) (m : Message) : Except Fault Unit := do
  let _ ← hand rights m
  pure ()

/-- Nobody but the token contract gives its rights away. -/
def exec (self : Address) (w : Escrow) (c : Invocation) : Except Fault (Escrow × Value) :=
  match c.action with
  | .token call => do
    let (token, value) ← PositionToken.exec self w.token ⟨c.env, answer w.rights, call⟩
    let rights ← ((call.message self w.token).map (hand w.rights)).getD (pure w.rights)
    pure (⟨token, rights⟩, value)
  | .settle vault holder count => do
    failIf (holder = self ∧ count < w.rights vault self) .unauthorized
    let rights := fun v a => if v = vault ∧ a = holder then count else w.rights v a
    pure ({ w with rights }, .unit)

def wrappedAfter (ids : Set ℕ) (e : Invocation × Value) : Set ℕ :=
  match e.1.action, e.2 with
  | .token (.wrap _ _), .u64 id => insert id ids
  | .token (.unwrap id), _ => ids \ {id}
  | _, _ => ids

def wrapped (l : List (Invocation × Value)) : Set ℕ := l.foldl wrappedAfter ∅

/-- The call creates no owner without the other records, takes none away from them, and wraps into
an id that has no owner. -/
def Keeps (w : Escrow) (c : Invocation) : Prop :=
  match c.action with
  | .token (.wrap user vault) => ¬(c.env.Authorized user ∧ w.rights vault user ≠ 0 ∧
      w.token.owner.get (w.token.nextTokenId.getD 0) ≠ none)
  | .token (.mint _ id) =>
    ¬((∃ admin, w.token.admin = some admin ∧ c.env.Authorized admin) ∧ w.token.owner.get id = none)
  | .token (.burn src id) => ¬(c.env.Authorized src ∧ w.token.owner.get id = some src)
  | .token (.burnFrom spender src id) => ¬(c.env.Authorized spender ∧
      PositionToken.checkApprovedFor w.token spender src id = .ok () ∧ w.token.owner.get id ≠ none)
  | .token (.transferFrom spender src _ id) => ¬(c.env.Authorized spender ∧
      PositionToken.checkApprovedFor w.token spender src id = .ok () ∧ w.token.owner.get id = none)
  | _ => True

/-- The three records of an id are there together, and every receipt is backed by a right. -/
structure Backed (contract : Address) (w : Escrow) : Prop where
  vault : ∀ id, (w.token.tierVault.get id).isSome = (w.token.owner.get id).isSome
  original : ∀ id, (w.token.originalOwner.get id).isSome = (w.token.owner.get id).isSome
  right : ∀ vault, w.token.tierVault.count vault ≤ w.rights vault contract

/-- The holder of the id can unwrap it, and then has the withdrawal right. -/
def Redeemable (contract : Address) (w : Escrow) (id : ℕ) : Prop :=
  ∃ holder vault, w.token.owner.get id = some holder ∧ w.token.tierVault.get id = some vault ∧
    ∀ env : Env, env.Authorized holder →
      ∃ r, exec contract w ⟨env, .token (.unwrap id)⟩ = .ok r ∧
        (holder ≠ contract → r.1.rights vault holder = w.rights vault holder + 1)

def opened (vault : Address) (w : Escrow) (c : Invocation) : ℤ :=
  match c.action with
  | .token (.wrap _ tierVault) => if tierVault = vault then 1 else 0
  | .token (.unwrap id) => if w.token.tierVault.get id = some vault then -1 else 0
  | _ => 0

def live (w : Escrow) : Set ℕ := {id | (w.token.owner.get id).isSome = true}

variable {self : Address} {w : Escrow} {c : Invocation} {r : Escrow × Value} {env : Env}
variable {rights rights' : Address → Address → ℕ} {m : Message} {u : Unit} {id n : ℕ}
variable {call : PositionToken.Call}

theorem hand_eq_ok : hand rights m = .ok rights' ↔ rights m.tierVault m.currentAuth ≠ 0 ∧
    rights' = fun v a =>
      if v = m.tierVault then
        rights v a - (if a = m.currentAuth then 1 else 0) + if a = m.newAuth then 1 else 0
      else rights v a := by
  simp only [hand, bind_eq_ok, failIf_eq_ok, pure_eq_ok]
  constructor
  · rintro ⟨_, hright, rfl⟩
    exact ⟨hright, rfl⟩
  · rintro ⟨hright, rfl⟩
    exact ⟨(), hright, rfl⟩

theorem answer_eq_ok : answer rights m = .ok u ↔ rights m.tierVault m.currentAuth ≠ 0 := by
  simp only [answer, bind_eq_ok, hand_eq_ok, pure_eq_ok]
  constructor
  · rintro ⟨_, ⟨hright, _⟩, _⟩
    exact hright
  · intro hright
    exact ⟨_, ⟨hright, rfl⟩, trivial⟩

theorem exec_token_ok (h : exec self w ⟨env, .token call⟩ = .ok r) : ∃ q rights,
    PositionToken.exec self w.token ⟨env, answer w.rights, call⟩ = .ok q ∧
    ((call.message self w.token).map (hand w.rights)).getD (pure w.rights) = .ok rights ∧
    r = (⟨q.1, rights⟩, q.2) := by
  simp only [exec, bind_eq_ok, pure_eq_ok] at h
  obtain ⟨q, hq, rights, hrights, rfl⟩ := h
  exact ⟨q, rights, hq, hrights, rfl⟩

/-- A call that keeps the records leaves every id with an owner or without, `wrap` and `unwrap`
apart. -/
theorem owner_presence {q : PositionToken.State × Value} (hk : Keeps w ⟨env, .token call⟩)
    (hwrap : ∀ user vault, call ≠ .wrap user vault) (hunwrap : ∀ id, call ≠ .unwrap id)
    (h : PositionToken.exec self w.token ⟨env, answer w.rights, call⟩ = .ok q) (id : ℕ) :
    (q.1.owner.get id).isSome = (w.token.owner.get id).isSome := by
  have hset : ∀ {j : ℕ} {dst : Address}, w.token.owner.get j ≠ none →
      ((w.token.owner.set j dst).get id).isSome = (w.token.owner.get id).isSome := by
    intro j dst hj
    rw [Store.get_set]
    split
    · next heq => simpa [heq, Option.isSome_iff_ne_none] using hj
    · rfl
  have heffect := PositionToken.exec_effect h
  generalize hcall : (⟨env, answer w.rights, call⟩ : PositionToken.Invocation).call = k at heffect
  dsimp only at hcall
  subst hcall
  cases heffect with
  | wrap user vault => exact absurd rfl (hwrap user vault)
  | unwrap id => exact absurd rfl (hunwrap id)
  | transfer src dst j _ hcheck hs =>
    obtain ⟨o, howner, _⟩ := PositionToken.checkOwnerOrApproved_eq_ok.mp hcheck
    rw [hs]
    exact hset (by simp [howner])
  | transferFrom spender src dst j hauth hcheck hs =>
    have howner : w.token.owner.get j ≠ none := fun hnone => hk ⟨hauth, hcheck, hnone⟩
    rw [hs]
    exact hset howner
  | approve owner spender j expiration _ _ hs => rw [hs]
  | setAuthorized owner operator authorized _ hs => rw [hs]
  | mint dst j hnone hs =>
    have hadmin := PositionToken.exec_mint_ok h
    exact absurd ⟨hadmin, hnone⟩ hk
  | burn src j hauth hget => exact absurd ⟨hauth, hget⟩ hk
  | burnFrom spender src j hauth hcheck hs =>
    have howner : w.token.owner.get j = none := by
      by_contra hne
      exact hk ⟨hauth, hcheck, hne⟩
    rw [hs]
    by_cases hj : id = j
    · simp [PositionToken.doBurn, hj, howner]
    · simp [PositionToken.doBurn, hj]
  | other _ _ howner => rw [howner]

/-- The backing stays, the receipts of each vault change by what the call opened, and the ids with an
owner are those wrapped. -/
structure Accounted (contract : Address) (w : Escrow) (c : Invocation) (r : Escrow × Value) : Prop where
  backed : Backed contract r.1
  count : ∀ vault, (r.1.token.tierVault.count vault : ℤ) =
    w.token.tierVault.count vault + opened vault w c
  ids : live r.1 = wrappedAfter (live w) (c, r.2)

theorem settle_accounted {vault holder : Address} {count : ℕ} (hb : Backed self w)
    (h : exec self w ⟨env, .settle vault holder count⟩ = .ok r) :
    Accounted self w ⟨env, .settle vault holder count⟩ r := by
  simp only [exec, bind_eq_ok, failIf_eq_ok, pure_eq_ok, not_and, not_lt] at h
  obtain ⟨_, hkeep, rfl⟩ := h
  refine ⟨⟨hb.vault, hb.original, fun v => ?_⟩, fun v => by simp [opened], by simp [wrappedAfter, live]⟩
  have hright := hb.right v
  dsimp only
  split
  · next heq =>
    obtain ⟨rfl, rfl⟩ := heq
    exact hright.trans (hkeep rfl)
  · exact hright

theorem wrap_accounted {user vault : Address} (hc : env.caller ≠ some (.contract n))
    (hk : Keeps w ⟨env, .token (.wrap user vault)⟩) (hb : Backed (.contract n) w)
    (h : exec (.contract n) w ⟨env, .token (.wrap user vault)⟩ = .ok r) :
    Accounted (.contract n) w ⟨env, .token (.wrap user vault)⟩ r := by
  obtain ⟨q, rights, hq, hrights, rfl⟩ := exec_token_ok h
  obtain ⟨hauth, hsent, hvalue, howner, hvault, horiginal⟩ := PositionToken.exec_wrap_ok hq
  obtain ⟨hright, rfl⟩ := hand_eq_ok.mp hrights
  generalize hid : w.token.nextTokenId.getD 0 = k at *
  have hnone : w.token.owner.get k = none := by
    by_contra hne
    exact hk ⟨hauth, hright, hid ▸ hne⟩
  have hfree : w.token.tierVault.get k = none := by
    simpa [hnone] using hb.vault k
  have huser : user ≠ .contract n := by
    rintro rfl
    exact hc (Env.authorized_contract.mp hauth)
  refine ⟨⟨fun j => ?_, fun j => ?_, fun v => ?_⟩, fun v => ?_, ?_⟩
  · dsimp only
    rw [howner, hvault, Store.get_set, Store.get_set]
    split
    · rfl
    · exact hb.vault j
  · dsimp only
    rw [howner, horiginal, Store.get_set, Store.get_set]
    split
    · rfl
    · exact hb.original j
  · have hv := hb.right v
    dsimp only
    rw [hvault, Store.count_set hfree]
    by_cases heq : v = vault
    · subst heq
      rw [if_pos rfl, if_pos rfl, if_neg huser.symm, if_pos rfl]
      omega
    · rw [if_neg (Ne.symm heq), if_neg heq]
      exact hv
  · dsimp only [opened]
    rw [hvault, Store.count_set hfree]
    push_cast
    rfl
  · ext j
    simp only [live, wrappedAfter, hvalue, howner, Set.mem_insert_iff, Store.get_set]
    by_cases hj : j = k <;> simp [hj]

theorem unwrap_accounted (hb : Backed self w) (h : exec self w ⟨env, .token (.unwrap id)⟩ = .ok r) :
    Accounted self w ⟨env, .token (.unwrap id)⟩ r := by
  obtain ⟨q, rights, hq, hrights, rfl⟩ := exec_token_ok h
  obtain ⟨holder, vault, hholder, hvault, hauth, hsent, rfl⟩ := PositionToken.exec_unwrap_iff.mp hq
  have hmessage : (PositionToken.Call.unwrap id).message self w.token =
      some ⟨vault, self, holder⟩ := by
    simp [PositionToken.Call.message, hholder, hvault]
  rw [hmessage] at hrights
  obtain ⟨hright, rfl⟩ := hand_eq_ok.mp hrights
  refine ⟨⟨fun j => ?_, fun j => ?_, fun v => ?_⟩, fun v => ?_, ?_⟩
  · dsimp only
    rw [Store.get_remove, Store.get_remove]
    split
    · rfl
    · exact hb.vault j
  · dsimp only
    rw [Store.get_remove, Store.get_remove]
    split
    · rfl
    · exact hb.original j
  · have hv := hb.right v
    rw [Store.count_remove hvault] at hv
    dsimp only at hright ⊢
    by_cases heq : v = vault
    · subst heq
      rw [if_pos rfl] at hv
      rw [if_pos rfl, if_pos rfl]
      omega
    · rw [if_neg (Ne.symm heq), add_zero] at hv
      rw [if_neg heq]
      exact hv
  · have hv := Store.count_remove hvault v
    dsimp only [opened]
    rw [hvault, hv]
    by_cases heq : vault = v <;> simp [heq]
  · ext j
    simp only [live, wrappedAfter, Set.mem_sdiff, Set.mem_singleton_iff, Store.get_remove]
    by_cases hj : j = id <;> simp [hj]

/-- The other calls send nothing, and move neither the records nor the rights. -/
theorem other_accounted (hk : Keeps w ⟨env, .token call⟩)
    (hwrap : ∀ user vault, call ≠ .wrap user vault) (hunwrap : ∀ id, call ≠ .unwrap id)
    (hb : Backed self w) (h : exec self w ⟨env, .token call⟩ = .ok r) :
    Accounted self w ⟨env, .token call⟩ r := by
  obtain ⟨q, rights, hq, hrights, rfl⟩ := exec_token_ok h
  obtain ⟨hvault, horiginal, -⟩ := PositionToken.exec_vaults hq hwrap hunwrap
  have howner := owner_presence hk hwrap hunwrap hq
  have hmessage : call.message self w.token = none := by
    cases call <;> simp_all [PositionToken.Call.message]
  rw [hmessage] at hrights
  obtain rfl := pure_eq_ok.mp hrights
  refine ⟨⟨fun j => ?_, fun j => ?_, fun v => ?_⟩, fun v => ?_, ?_⟩
  · rw [hvault, howner]
    exact hb.vault j
  · rw [horiginal, howner]
    exact hb.original j
  · rw [hvault]
    exact hb.right v
  · have hopened : opened v w ⟨env, .token call⟩ = 0 := by
      cases call <;> simp_all [opened]
    rw [hvault, hopened, add_zero]
  · have hids : wrappedAfter (live w) (⟨env, .token call⟩, q.2) = live w := by
      cases call <;> simp_all [wrappedAfter]
    rw [hids]
    ext j
    simp only [live, howner]

theorem exec_accounted (hc : c.env.caller ≠ some (.contract n)) (hk : Keeps w c)
    (hb : Backed (.contract n) w) (h : exec (.contract n) w c = .ok r) :
    Accounted (.contract n) w c r := by
  obtain ⟨env, action⟩ := c
  cases action with
  | settle vault holder count => exact settle_accounted hb h
  | token call =>
    by_cases hwrap : ∃ user vault, call = .wrap user vault
    · obtain ⟨user, vault, rfl⟩ := hwrap
      exact wrap_accounted hc hk hb h
    by_cases hunwrap : ∃ id, call = .unwrap id
    · obtain ⟨id, rfl⟩ := hunwrap
      exact unwrap_accounted hb h
    apply other_accounted hk _ _ hb h
    · exact fun user vault heq => hwrap ⟨user, vault, heq⟩
    · exact fun id heq => hunwrap ⟨id, heq⟩

/-- The right behind a receipt lets its holder unwrap it. -/
theorem Backed.redeemable (hb : Backed self w) (hid : id ∈ live w) : Redeemable self w id := by
  obtain ⟨holder, hholder⟩ := Option.isSome_iff_exists.mp hid
  obtain ⟨vault, hvault⟩ := Option.isSome_iff_exists.mp ((hb.vault id).trans hid)
  refine ⟨holder, vault, hholder, hvault, fun env hauth => ?_⟩
  have hright : w.rights vault self ≠ 0 := by
    have hle := hb.right vault
    rw [Store.count_remove hvault, if_pos rfl] at hle
    omega
  obtain ⟨rights, hhand⟩ : ∃ rights, hand w.rights ⟨vault, self, holder⟩ = .ok rights :=
    ⟨_, hand_eq_ok.mpr ⟨hright, rfl⟩⟩
  have hsent : answer w.rights ⟨vault, self, holder⟩ = .ok () := answer_eq_ok.mpr hright
  obtain ⟨q, hq⟩ : ∃ q, PositionToken.exec self w.token ⟨env, answer w.rights, .unwrap id⟩ = .ok q :=
    ⟨_, PositionToken.exec_unwrap_iff.mpr ⟨holder, vault, hholder, hvault, hauth, hsent, rfl⟩⟩
  have hmessage : (PositionToken.Call.unwrap id).message self w.token =
      some ⟨vault, self, holder⟩ := by
    simp [PositionToken.Call.message, hholder, hvault]
  refine ⟨(⟨q.1, rights⟩, q.2), ?_, ?_⟩
  · simp only [exec, hq, ok_bind, hmessage, Option.map_some, Option.getD_some, hhand]
    rfl
  · intro hne
    obtain ⟨_, rfl⟩ := hand_eq_ok.mp hhand
    simp [hne]

theorem backed_empty (hw : w.token = .empty) : Backed self w := by
  constructor <;> intro x <;> simp [hw, PositionToken.State.empty]

/-- In every state that a run from the deployment reaches by calls that keep the records: an id that
was wrapped and not unwrapped since has its original owner and can be unwrapped by its holder, an id
with an owner has a tier vault, and each vault has as many receipts as were opened. -/
theorem run_redeemable (hw : w.token = .empty) {cs : List Invocation}
    (hcs : ∀ c ∈ cs, c.env.caller ≠ some (.contract n))
    (hm : Meets (exec (.contract n)) Keeps w cs) :
    (∀ id ∈ wrapped (log (exec (.contract n)) w cs),
      ((run (exec (.contract n)) w cs).token.originalOwner.get id).isSome = true ∧
        Redeemable (.contract n) (run (exec (.contract n)) w cs) id) ∧
    (∀ id, ((run (exec (.contract n)) w cs).token.owner.get id).isSome = true →
      ((run (exec (.contract n)) w cs).token.tierVault.get id).isSome = true) ∧
    ∀ vault, ((run (exec (.contract n)) w cs).token.tierVault.count vault : ℤ) =
      tally (exec (.contract n)) (opened vault) w cs := by
  have hall : Meets (exec (.contract n))
      (fun w c => c.env.caller ≠ some (.contract n) ∧ Keeps w c) w cs :=
    meets_and.mpr ⟨meets_of_forall hcs, hm⟩
  have h0 : Backed (.contract n) w := backed_empty hw
  have hlive : live w = wrapped [] := by
    ext id
    simp [live, wrapped, hw, PositionToken.State.empty]
  have hI := run_log_invariant_of_meets
    (I := fun w l => Backed (.contract n) w ∧ live w = wrapped l) (by
      rintro w l c r ⟨hc, hk⟩ ⟨hb, hl⟩ h
      have hstep : Accounted (.contract n) w c r := exec_accounted hc hk hb h
      refine ⟨hstep.backed, ?_⟩
      rw [hstep.ids, hl, wrapped, wrapped, List.foldl_append]
      rfl) ⟨h0, hlive⟩ hall
  obtain ⟨hb, hl⟩ := hI
  refine ⟨fun id hid => ?_, fun id hid => (hb.vault id).trans hid, fun vault => ?_⟩
  · have hid' : id ∈ live (run (exec (.contract n)) w cs) := hl ▸ hid
    exact ⟨(hb.original id).trans hid', hb.redeemable hid'⟩
  · have htally := run_tally (m := fun w => (w.token.tierVault.count vault : ℤ))
      (g := opened vault) (I := Backed (.contract n)) (by
        rintro w c r ⟨hc, hk⟩ hb h
        have hstep : Accounted (.contract n) w c r := exec_accounted hc hk hb h
        exact ⟨hstep.backed, hstep.count vault⟩) h0 hall
    rw [htally, hw]
    simp [PositionToken.State.empty]

def deposited : Escrow where
  token := .empty
  rights v a := if v = .contract 2 ∧ a = .account 7 then 1 else 0

/-- Account 7 wraps its position, approves account 8 and gives the receipt to account 9. -/
def lending : List Invocation :=
  [⟨⟨[7], none, 1⟩, .token (.wrap (.account 7) (.contract 2))⟩,
   ⟨⟨[7], none, 2⟩, .token (.approve (.account 7) (.account 8) 0 0)⟩,
   ⟨⟨[7], none, 3⟩, .token (.transfer (.account 7) (.account 9) 0)⟩]

theorem run_redeemable_lending :
    0 ∈ wrapped (log (exec (.contract 20)) deposited lending) ∧
      Redeemable (.contract 20) (run (exec (.contract 20)) deposited lending) 0 := by
  have hwrapped : 0 ∈ wrapped (log (exec (.contract 20)) deposited lending) := .inl rfl
  refine ⟨hwrapped, ((run_redeemable (w := deposited) rfl ?_ ?_).1 0 hwrapped).2⟩
  · simp [lending]
  · refine ⟨?_, trivial, trivial, trivial⟩
    rintro ⟨_, _, hnone⟩
    exact hnone rfl

/-- Account 7 wraps its position and burns the receipt. -/
def burning : List Invocation :=
  [⟨⟨[7], none, 1⟩, .token (.wrap (.account 7) (.contract 2))⟩,
   ⟨⟨[7], none, 2⟩, .token (.burn (.account 7) 0)⟩]

/-- The burned receipt was never unwrapped and has no owner; nobody can unwrap it, and the right
stays with the position token. -/
theorem burning_stranded :
    deposited.token = .empty ∧ (∀ c ∈ burning, c.env.caller ≠ some (.contract 20)) ∧
      0 ∈ wrapped (log (exec (.contract 20)) deposited burning) ∧
      (run (exec (.contract 20)) deposited burning).token.owner.get 0 = none ∧
      ¬Redeemable (.contract 20) (run (exec (.contract 20)) deposited burning) 0 ∧
      (run (exec (.contract 20)) deposited burning).rights (.contract 2) (.contract 20) = 1 := by
  refine ⟨rfl, by simp [burning], .inl rfl, rfl, ?_, rfl⟩
  rintro ⟨holder, _, hholder, _⟩
  cases hholder

end Escrow
end YieldLadder
