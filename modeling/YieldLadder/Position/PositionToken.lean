import YieldLadder.Foundation.Machine
import YieldLadder.Foundation.Store
import YieldLadder.Soroban.Host

/-! # The position token

A transferable receipt for a position in a tier vault: each id has at most one
owner, an id can carry a single-use approval, and an owner can name operators for
all its tokens. Whether the tier vault accepts a change of the withdrawal
authorization is part of the invocation; a refusal reverts the whole call.
-/
namespace YieldLadder.PositionToken
open Foundation

/-- The entries `initialise` writes beside the admin and the counter. -/
structure Metadata where
  name : String
  symbol : String
  decimals : ℕ
  deriving DecidableEq, Repr

structure State where
  admin : Option Address
  nextTokenId : Option ℕ
  metadata : Option Metadata
  owner : Store ℕ Address
  tierVault : Store ℕ Address
  originalOwner : Store ℕ Address
  approved : Store ℕ Address
  operatorApproval : Store (Address × Address) Bool

def State.empty : State := ⟨none, none, none, .empty, .empty, .empty, .empty, .empty⟩

/-- The message `set_withdrawal_auth` to a tier vault. -/
structure Message where
  tierVault : Address
  currentAuth : Address
  newAuth : Address
  deriving DecidableEq, Repr

/-- What the tier vaults answer. -/
abbrev External := Message → Except Fault Unit

def initialise (s : State) (admin : Address) : Except Fault State := do
  failIf (s.admin.isSome = true) (.panic "already initialized")
  pure { s with
    admin := some admin
    nextTokenId := some 0
    metadata := some ⟨"YieldLadder Position Receipt", "YLPR", 0⟩ }

variable (self : Address)

/-- The id is the counter, whatever that id holds already. -/
def wrap (external : External) (env : Env) (s : State) (user tierVault : Address) :
    Except Fault (State × ℕ) := do
  env.requireAuth user
  external ⟨tierVault, user, self⟩
  let tokenId := s.nextTokenId.getD 0
  let nextTokenId ← addU64 tokenId 1
  pure ({ s with
    owner := s.owner.set tokenId user
    tierVault := s.tierVault.set tokenId tierVault
    originalOwner := s.originalOwner.set tokenId user
    nextTokenId := some nextTokenId }, tokenId)

def unwrap (external : External) (env : Env) (s : State) (tokenId : ℕ) : Except Fault State := do
  let holder ← expect (.panic "token not found") (s.owner.get tokenId)
  env.requireAuth holder
  let tierVault ← expect (.panic "tier vault not found") (s.tierVault.get tokenId)
  external ⟨tierVault, self, holder⟩
  pure { s with
    owner := s.owner.remove tokenId
    tierVault := s.tierVault.remove tokenId
    originalOwner := s.originalOwner.remove tokenId
    approved := s.approved.remove tokenId }

/-- The check of `transfer`: the owner of the token, its operator, or who is approved. -/
def checkOwnerOrApproved (s : State) (caller : Address) (tokenId : ℕ) : Except Fault Unit := do
  let owner ← expect (.panic "token not found") (s.owner.get tokenId)
  if owner = caller then pure ()
  else if s.operatorApproval.getD (owner, caller) false then pure ()
  else if s.approved.get tokenId = some caller then pure ()
  else .error (.panic "caller is not owner or approved")

/-- The check of `transfer_from` and `burn_from`, which reads no owner. -/
def checkApprovedFor (s : State) (spender src : Address) (tokenId : ℕ) : Except Fault Unit :=
  if s.operatorApproval.getD (src, spender) false then pure ()
  else if s.approved.get tokenId = some spender then pure ()
  else .error (.panic "spender not approved")

def doTransfer (s : State) (dst : Address) (tokenId : ℕ) : State :=
  { s with owner := s.owner.set tokenId dst, approved := s.approved.remove tokenId }

/-- What `burn` and `burn_from` do once their check has passed. -/
def doBurn (s : State) (tokenId : ℕ) : State :=
  { s with owner := s.owner.remove tokenId, approved := s.approved.remove tokenId }

def transfer (env : Env) (s : State) (src dst : Address) (tokenId : ℕ) : Except Fault State := do
  env.requireAuth src
  checkOwnerOrApproved s src tokenId
  pure (doTransfer s dst tokenId)

def transferFrom (env : Env) (s : State) (spender src dst : Address) (tokenId : ℕ) :
    Except Fault State := do
  env.requireAuth spender
  checkApprovedFor s spender src tokenId
  pure (doTransfer s dst tokenId)

def approve (env : Env) (s : State) (owner spender : Address) (tokenId _expirationLedger : ℕ) :
    Except Fault State := do
  env.requireAuth owner
  let currentOwner ← expect (.panic "token not found") (s.owner.get tokenId)
  failIf (currentOwner ≠ owner) (.panic "not the token owner")
  pure { s with approved := s.approved.set tokenId spender }

def setAuthorized (env : Env) (s : State) (owner operator : Address) (authorized : Bool) :
    Except Fault State := do
  env.requireAuth owner
  pure { s with operatorApproval := s.operatorApproval.set (owner, operator) authorized }

def requireAdmin (env : Env) (s : State) : Except Fault Unit := do
  let admin ← expect (.panic "not initialized") s.admin
  env.requireAuth admin

def mint (env : Env) (s : State) (dst : Address) (tokenId : ℕ) : Except Fault State := do
  requireAdmin env s
  failIf ((s.owner.get tokenId).isSome = true) (.panic "token already exists")
  pure { s with owner := s.owner.set tokenId dst }

def burn (env : Env) (s : State) (src : Address) (tokenId : ℕ) : Except Fault State := do
  env.requireAuth src
  let owner ← expect (.panic "token not found") (s.owner.get tokenId)
  failIf (owner ≠ src) (.panic "not the token owner")
  pure (doBurn s tokenId)

def burnFrom (env : Env) (s : State) (spender src : Address) (tokenId : ℕ) : Except Fault State := do
  env.requireAuth spender
  checkApprovedFor s spender src tokenId
  pure (doBurn s tokenId)

inductive Value
  | unit
  | u64 (n : ℕ)
  | address (a : Address)
  | bool (b : Bool)
  | i128 (x : ℤ)
  | u32 (n : ℕ)
  | string (text : String)
  deriving DecidableEq, Repr

inductive Call
  | initialise (admin : Address)
  | wrap (user tierVault : Address)
  | unwrap (tokenId : ℕ)
  | transfer (src dst : Address) (tokenId : ℕ)
  | transferFrom (spender src dst : Address) (tokenId : ℕ)
  | approve (owner spender : Address) (tokenId expirationLedger : ℕ)
  | allowance (tokenId : ℕ)
  | setAuthorized (owner operator : Address) (authorized : Bool)
  | authorized (owner operator : Address)
  | balance (addr : Address) (tokenId : ℕ)
  | mint (dst : Address) (tokenId : ℕ)
  | burn (src : Address) (tokenId : ℕ)
  | burnFrom (spender src : Address) (tokenId : ℕ)
  | decimals
  | name
  | symbol
  | ownerOf (tokenId : ℕ)
  | tierVaultOf (tokenId : ℕ)
  deriving DecidableEq, Repr

/-- A call, the environment it is made in, and what the tier vaults answer during it. -/
structure Invocation where
  env : Env
  external : External
  call : Call

/-- The entry points that read only. -/
def view (s : State) : Call → Except Fault Value
  | .allowance tokenId => do
    let approved ← expect (.panic "no approval set") (s.approved.get tokenId)
    pure (.address approved)
  | .authorized owner operator => pure (.bool (s.operatorApproval.getD (owner, operator) false))
  | .balance addr tokenId => pure (.i128 (if s.owner.get tokenId = some addr then 1 else 0))
  | .decimals => pure (.u32 ((s.metadata.map (·.decimals)).getD 0))
  | .name => do
    let m ← expect (.panic "not initialized") s.metadata
    pure (.string m.name)
  | .symbol => do
    let m ← expect (.panic "not initialized") s.metadata
    pure (.string m.symbol)
  | .ownerOf tokenId => do
    let owner ← expect (.panic "token not found") (s.owner.get tokenId)
    pure (.address owner)
  | .tierVaultOf tokenId => do
    let tierVault ← expect (.panic "token not found") (s.tierVault.get tokenId)
    pure (.address tierVault)
  | _ => .error .missingFunction

def exec (s : State) (c : Invocation) : Except Fault (State × Value) :=
  match c.call with
  | .initialise admin => (·, .unit) <$> initialise s admin
  | .wrap user tierVault => do
    let (s', tokenId) ← wrap self c.external c.env s user tierVault
    pure (s', .u64 tokenId)
  | .unwrap tokenId => (·, .unit) <$> unwrap self c.external c.env s tokenId
  | .transfer src dst tokenId => (·, .unit) <$> transfer c.env s src dst tokenId
  | .transferFrom spender src dst tokenId => (·, .unit) <$> transferFrom c.env s spender src dst tokenId
  | .approve owner spender tokenId expirationLedger =>
    (·, .unit) <$> approve c.env s owner spender tokenId expirationLedger
  | .setAuthorized owner operator authorized =>
    (·, .unit) <$> setAuthorized c.env s owner operator authorized
  | .mint dst tokenId => (·, .unit) <$> mint c.env s dst tokenId
  | .burn src tokenId => (·, .unit) <$> burn c.env s src tokenId
  | .burnFrom spender src tokenId => (·, .unit) <$> burnFrom c.env s spender src tokenId
  | call => (s, ·) <$> view s call

/-- The address whose authorization a call requires. -/
def Call.requires (s : State) : Call → Option Address
  | .wrap user _ => some user
  | .unwrap tokenId => s.owner.get tokenId
  | .transfer src _ _ => some src
  | .transferFrom spender _ _ _ => some spender
  | .approve owner _ _ _ => some owner
  | .setAuthorized owner _ _ => some owner
  | .mint _ _ => s.admin
  | .burn src _ => some src
  | .burnFrom spender _ _ => some spender
  | _ => none

/-- What a successful call does to the owners and the approvals. -/
inductive Effect (c : Invocation) (s s' : State) : Call → Prop
  | wrap (user tierVault : Address) (hauth : c.env.Authorized user)
      (hvault : c.external ⟨tierVault, user, self⟩ = .ok ())
      (howner : s'.owner = s.owner.set (s.nextTokenId.getD 0) user)
      (happroved : s'.approved = s.approved) (hoperator : s'.operatorApproval = s.operatorApproval) :
      Effect c s s' (.wrap user tierVault)
  | unwrap (id : ℕ) (holder : Address) (hget : s.owner.get id = some holder)
      (hauth : c.env.Authorized holder) (howner : s'.owner = s.owner.remove id)
      (happroved : s'.approved = s.approved.remove id)
      (hoperator : s'.operatorApproval = s.operatorApproval) : Effect c s s' (.unwrap id)
  | transfer (src dst : Address) (id : ℕ) (hauth : c.env.Authorized src)
      (hcheck : checkOwnerOrApproved s src id = .ok ()) (hs : s' = doTransfer s dst id) :
      Effect c s s' (.transfer src dst id)
  | transferFrom (spender src dst : Address) (id : ℕ) (hauth : c.env.Authorized spender)
      (hcheck : checkApprovedFor s spender src id = .ok ()) (hs : s' = doTransfer s dst id) :
      Effect c s s' (.transferFrom spender src dst id)
  | approve (owner spender : Address) (id expiration : ℕ) (hauth : c.env.Authorized owner)
      (hget : s.owner.get id = some owner)
      (hs : s' = { s with approved := s.approved.set id spender }) :
      Effect c s s' (.approve owner spender id expiration)
  | setAuthorized (owner operator : Address) (authorized : Bool) (hauth : c.env.Authorized owner)
      (hs : s' = { s with operatorApproval := s.operatorApproval.set (owner, operator) authorized }) :
      Effect c s s' (.setAuthorized owner operator authorized)
  | mint (dst : Address) (id : ℕ) (hnone : s.owner.get id = none)
      (hs : s' = { s with owner := s.owner.set id dst }) : Effect c s s' (.mint dst id)
  | burn (src : Address) (id : ℕ) (hauth : c.env.Authorized src)
      (hget : s.owner.get id = some src) (hs : s' = doBurn s id) : Effect c s s' (.burn src id)
  | burnFrom (spender src : Address) (id : ℕ) (hauth : c.env.Authorized spender)
      (hcheck : checkApprovedFor s spender src id = .ok ()) (hs : s' = doBurn s id) :
      Effect c s s' (.burnFrom spender src id)
  | other (call : Call) (hnone : call.requires s = none) (howner : s'.owner = s.owner)
      (happroved : s'.approved = s.approved) (hoperator : s'.operatorApproval = s.operatorApproval) :
      Effect c s s' call

variable {self : Address} {s s' : State} {c : Invocation} {r : State × Value}
variable {a spender src : Address} {id : ℕ} {u : Unit}

theorem checkOwnerOrApproved_eq_ok : checkOwnerOrApproved s a id = .ok u ↔
    ∃ o, s.owner.get id = some o ∧
      (a = o ∨ s.operatorApproval.getD (o, a) false = true ∨ s.approved.get id = some a) := by
  simp only [checkOwnerOrApproved, bind_eq_ok, expect_eq_ok]
  refine exists_congr fun o => and_congr_right fun _ => ?_
  split_ifs with howner hoperator happroved
  · simp [howner]
  · simp [hoperator]
  · simp [happroved]
  · simp [hoperator, happroved, Ne.symm howner]

theorem exec_effect (h : exec self s c = .ok r) : Effect self c s r.1 c.call := by
  obtain ⟨env, external, call⟩ := c
  cases call with
  | initialise admin =>
    simp only [exec, initialise, map_eq_ok, bind_eq_ok, pure_eq_ok] at h
    obtain ⟨_, ⟨_, _, rfl⟩, rfl⟩ := h
    exact .other _ rfl rfl rfl rfl
  | wrap user tierVault =>
    simp only [exec, wrap, bind_eq_ok, Env.requireAuth_eq_ok, addU64_eq_ok, pure_eq_ok] at h
    obtain ⟨_, ⟨_, hauth, _, hvault, _, _, rfl⟩, rfl⟩ := h
    exact .wrap user tierVault hauth hvault rfl rfl rfl
  | unwrap id =>
    simp only [exec, unwrap, map_eq_ok, bind_eq_ok, expect_eq_ok, Env.requireAuth_eq_ok,
      pure_eq_ok] at h
    obtain ⟨_, ⟨holder, hget, _, hauth, _, _, _, _, rfl⟩, rfl⟩ := h
    exact .unwrap id holder hget hauth rfl rfl rfl
  | transfer src dst id =>
    simp only [exec, transfer, map_eq_ok, bind_eq_ok, Env.requireAuth_eq_ok, pure_eq_ok] at h
    obtain ⟨_, ⟨_, hauth, _, hcheck, rfl⟩, rfl⟩ := h
    exact .transfer src dst id hauth hcheck rfl
  | transferFrom spender src dst id =>
    simp only [exec, transferFrom, map_eq_ok, bind_eq_ok, Env.requireAuth_eq_ok, pure_eq_ok] at h
    obtain ⟨_, ⟨_, hauth, _, hcheck, rfl⟩, rfl⟩ := h
    exact .transferFrom spender src dst id hauth hcheck rfl
  | approve owner spender id expiration =>
    simp only [exec, approve, map_eq_ok, bind_eq_ok, expect_eq_ok, Env.requireAuth_eq_ok,
      failIf_eq_ok, pure_eq_ok, ne_eq, not_not] at h
    obtain ⟨_, ⟨_, hauth, _, hget, _, rfl, rfl⟩, rfl⟩ := h
    exact .approve _ spender id expiration hauth hget rfl
  | setAuthorized owner operator authorized =>
    simp only [exec, setAuthorized, map_eq_ok, bind_eq_ok, Env.requireAuth_eq_ok, pure_eq_ok] at h
    obtain ⟨_, ⟨_, hauth, rfl⟩, rfl⟩ := h
    exact .setAuthorized owner operator authorized hauth rfl
  | mint dst id =>
    simp only [exec, mint, map_eq_ok, bind_eq_ok, failIf_eq_ok, pure_eq_ok, Bool.not_eq_true,
      Option.isSome_eq_false_iff, Option.isNone_iff_eq_none] at h
    obtain ⟨_, ⟨_, _, _, hnone, rfl⟩, rfl⟩ := h
    exact .mint dst id hnone rfl
  | burn src id =>
    simp only [exec, burn, map_eq_ok, bind_eq_ok, expect_eq_ok, Env.requireAuth_eq_ok,
      failIf_eq_ok, pure_eq_ok, ne_eq, not_not] at h
    obtain ⟨_, ⟨_, hauth, _, hget, _, rfl, rfl⟩, rfl⟩ := h
    exact .burn _ id hauth hget rfl
  | burnFrom spender src id =>
    simp only [exec, burnFrom, map_eq_ok, bind_eq_ok, Env.requireAuth_eq_ok, pure_eq_ok] at h
    obtain ⟨_, ⟨_, hauth, _, hcheck, rfl⟩, rfl⟩ := h
    exact .burnFrom spender src id hauth hcheck rfl
  | _ =>
    obtain ⟨_, _, rfl⟩ := map_eq_ok.mp h
    exact .other _ rfl rfl rfl rfl

end YieldLadder.PositionToken
