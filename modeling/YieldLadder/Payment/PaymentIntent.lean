import YieldLadder.Foundation.Store

/-! # Payment intents and the lock in front of them

The storage of the browser holds two records for a payment: the intent, under its
key, and the lock of the operation, under its kind, address and tier. What
`JSON.stringify` writes is read back by `JSON.parse`, so the storage maps a key to
the record itself. The clock and the nonce are arguments.
-/
namespace YieldLadder.Payment
open Foundation

inductive IntentKind
  | deposit
  | withdraw
  | earlyExit
  deriving DecidableEq, Repr

def IntentKind.text : IntentKind → String
  | .deposit => "deposit"
  | .withdraw => "withdraw"
  | .earlyExit => "earlyExit"

inductive IntentStatus
  | idle
  | building
  | awaitingSignature
  | submitted
  | pending
  | confirmed
  | failed
  | expired
  deriving DecidableEq, Repr

/-- The address of a wallet, which has no colon in it. -/
structure WalletAddress where
  text : String
  plain : ':' ∉ text.toList
  deriving DecidableEq, Repr

structure PaymentIntent where
  key : String
  kind : IntentKind
  address : WalletAddress
  tier : String
  asset : String
  amount : String
  status : IntentStatus
  txHash : Option String
  error : Option String
  createdAt : ℕ
  updatedAt : ℕ
  deriving DecidableEq, Repr

/-- What is stored under a key: an intent, or the lock of an operation with the key of its holder. -/
inductive Item
  | intent (i : PaymentIntent)
  | lock (intentKey : String)
  deriving DecidableEq, Repr

abbrev Storage := Store String Item

def INTENT_PREFIX : String := "yl:intent:"
def LOCK_PREFIX : String := "yl:intent-lock:"

def intentStorageKey (key : String) : String := INTENT_PREFIX ++ key

def lockStorageKey (kind : IntentKind) (address : WalletAddress) (tier : String) : String :=
  LOCK_PREFIX ++ kind.text ++ ":" ++ address.text ++ ":" ++ tier

def buildIntentKey (kind : IntentKind) (address : WalletAddress) (tier asset amount nonce : String) :
    String :=
  ":".intercalate [kind.text, address.text, tier, asset, amount, nonce]

def isTerminal (status : IntentStatus) : Bool :=
  decide (status = .confirmed) || decide (status = .failed) || decide (status = .expired)

def loadIntent (key : String) (storage : Storage) : Option PaymentIntent :=
  match storage.get (intentStorageKey key) with
  | some (.intent i) => some i
  | _ => none

def saveIntent (intent : PaymentIntent) (storage : Storage) : Storage :=
  storage.set (intentStorageKey intent.key) (.intent intent)

def createIntent (kind : IntentKind) (address : WalletAddress) (tier asset amount nonce : String)
    (now : ℕ) (storage : Storage) : PaymentIntent × Storage :=
  let intent : PaymentIntent :=
    { key := buildIntentKey kind address tier asset amount nonce
      kind, address, tier, asset, amount
      status := .idle
      txHash := none
      error := none
      createdAt := now
      updatedAt := now }
  (intent, saveIntent intent storage)

def loadLock (kind : IntentKind) (address : WalletAddress) (tier : String) (storage : Storage) :
    Option String :=
  match storage.get (lockStorageKey kind address tier) with
  | some (.lock intentKey) => some intentKey
  | _ => none

def saveLock (kind : IntentKind) (address : WalletAddress) (tier intentKey : String)
    (storage : Storage) : Storage :=
  storage.set (lockStorageKey kind address tier) (.lock intentKey)

def releaseLock (kind : IntentKind) (address : WalletAddress) (tier : String) (storage : Storage) :
    Storage :=
  storage.remove (lockStorageKey kind address tier)

def findActiveIntent (kind : IntentKind) (address : WalletAddress) (tier : String)
    (storage : Storage) : Option PaymentIntent := do
  let lock ← loadLock kind address tier storage
  let intent ← loadIntent lock storage
  if isTerminal intent.status then none else some intent

/-- A payment may start, or start again, from these. -/
def IntentStatus.Startable (status : IntentStatus) : Prop :=
  status = .idle ∨ status = .failed ∨ status = .expired

instance (status : IntentStatus) : Decidable status.Startable :=
  inferInstanceAs (Decidable (_ ∨ _ ∨ _))

/-- Another intent holds the lock of the operation and has not come to an end. -/
def HeldByAnother (intent : PaymentIntent) (storage : Storage) : Prop :=
  ∃ k, loadLock intent.kind intent.address intent.tier storage = some k ∧ k ≠ intent.key ∧
    ∃ holder, loadIntent k storage = some holder ∧ isTerminal holder.status = false

instance (intent : PaymentIntent) (storage : Storage) : Decidable (HeldByAnother intent storage) :=
  match h : loadLock intent.kind intent.address intent.tier storage with
  | none => .isFalse (by simp [HeldByAnother, h])
  | some k =>
    match h' : loadIntent k storage with
    | none => .isFalse (by simp [HeldByAnother, h, h'])
    | some holder => decidable_of_iff (k ≠ intent.key ∧ isTerminal holder.status = false)
        (by simp [HeldByAnother, h, h'])

def beginSubmission (intent : PaymentIntent) (now : ℕ) (storage : Storage) :
    Option (PaymentIntent × Storage) :=
  let current := (loadIntent intent.key storage).getD intent
  if ¬current.status.Startable then none
  else if HeldByAnother intent storage then none
  else
    let updated := { current with status := .building, error := none, updatedAt := now }
    some (updated, saveLock intent.kind intent.address intent.tier intent.key
      (saveIntent updated storage))

/-- The stored intent, not the one the caller holds, is patched. -/
def transition (intent : PaymentIntent) (patch : PaymentIntent → PaymentIntent) (now : ℕ)
    (storage : Storage) : PaymentIntent × Storage :=
  let current := (loadIntent intent.key storage).getD intent
  let updated := { patch current with updatedAt := now }
  (updated, saveIntent updated storage)

def markAwaitingSignature (intent : PaymentIntent) (now : ℕ) (storage : Storage) :
    PaymentIntent × Storage :=
  transition intent ({ · with status := .awaitingSignature }) now storage

def markSubmitted (intent : PaymentIntent) (txHash : String) (now : ℕ) (storage : Storage) :
    PaymentIntent × Storage :=
  transition intent ({ · with status := .submitted, txHash := some txHash }) now storage

def markPending (intent : PaymentIntent) (now : ℕ) (storage : Storage) : PaymentIntent × Storage :=
  transition intent ({ · with status := .pending }) now storage

def finish (intent : PaymentIntent) (patch : PaymentIntent → PaymentIntent) (now : ℕ)
    (storage : Storage) : PaymentIntent × Storage :=
  let (updated, storage) := transition intent patch now storage
  (updated, releaseLock intent.kind intent.address intent.tier storage)

def markConfirmed (intent : PaymentIntent) (now : ℕ) (storage : Storage) : PaymentIntent × Storage :=
  finish intent ({ · with status := .confirmed }) now storage

def markFailed (intent : PaymentIntent) (error : String) (now : ℕ) (storage : Storage) :
    PaymentIntent × Storage :=
  finish intent ({ · with status := .failed, error := some error }) now storage

def markExpired (intent : PaymentIntent) (error : String) (now : ℕ) (storage : Storage) :
    PaymentIntent × Storage :=
  finish intent ({ · with status := .expired, error := some error }) now storage

/-- The operation of an intent, for which one lock stands. -/
def PaymentIntent.operation (i : PaymentIntent) : IntentKind × WalletAddress × String :=
  (i.kind, i.address, i.tier)

variable {kind kind' : IntentKind} {address address' : WalletAddress} {tier tier' key intentKey : String}
variable {i intent : PaymentIntent} {storage : Storage}

theorem intentStorageKey_inj {k k' : String} : intentStorageKey k = intentStorageKey k' ↔ k = k' :=
  String.append_right_inj _

theorem IntentKind.colon_not_mem (kind : IntentKind) : ':' ∉ kind.text.toList := by
  cases kind <;> decide

theorem IntentKind.text_inj : kind.text = kind'.text ↔ kind = kind' := by
  cases kind <;> cases kind' <;> decide

theorem lockStorageKey_toList (kind : IntentKind) (address : WalletAddress) (tier : String) :
    (lockStorageKey kind address tier).toList = LOCK_PREFIX.toList ++
      (kind.text.toList ++ ':' :: (address.text.toList ++ ':' :: tier.toList)) := by
  simp [lockStorageKey, String.toList_append]

theorem separated {α : Type} {a : α} {l l' m m' : List α} (hl : a ∉ l) (hl' : a ∉ l')
    (h : l ++ a :: m = l' ++ a :: m') : l = l' ∧ m = m' := by
  induction l generalizing l' with
  | nil =>
    cases l' with
    | nil => simpa using h
    | cons b l' =>
      simp only [List.nil_append, List.cons_append, List.cons.injEq] at h
      exact absurd (h.1 ▸ List.mem_cons_self) hl'
  | cons b l ih =>
    cases l' with
    | nil =>
      simp only [List.nil_append, List.cons_append, List.cons.injEq] at h
      exact absurd (h.1.symm ▸ List.mem_cons_self) hl
    | cons b' l' =>
      simp only [List.cons_append, List.cons.injEq] at h
      obtain ⟨rfl, h⟩ := h
      obtain ⟨rfl, rfl⟩ := ih (fun hm => hl (List.mem_cons_of_mem b hm))
        (fun hm => hl' (List.mem_cons_of_mem b hm)) h
      exact ⟨rfl, rfl⟩

theorem lockStorageKey_inj : lockStorageKey kind address tier = lockStorageKey kind' address' tier' ↔
    (kind, address, tier) = (kind', address', tier') := by
  constructor
  · intro h
    have hlist := congrArg String.toList h
    rw [lockStorageKey_toList, lockStorageKey_toList, List.append_cancel_left_eq] at hlist
    obtain ⟨hkind, hlist⟩ := separated kind.colon_not_mem kind'.colon_not_mem hlist
    obtain ⟨haddress, htier⟩ := separated address.plain address'.plain hlist
    obtain rfl : kind = kind' := IntentKind.text_inj.mp (String.toList_inj.mp hkind)
    obtain rfl : tier = tier' := String.toList_inj.mp htier
    obtain ⟨text, _⟩ := address
    obtain ⟨text', _⟩ := address'
    obtain rfl : text = text' := String.toList_inj.mp haddress
    rfl
  · intro h
    cases h
    rfl

theorem intent_ne_lock (key : String) (kind : IntentKind) (address : WalletAddress) (tier : String) :
    intentStorageKey key ≠ lockStorageKey kind address tier := by
  intro h
  have hlist := congrArg String.toList h
  rw [lockStorageKey_toList, intentStorageKey, String.toList_append] at hlist
  simp [INTENT_PREFIX, LOCK_PREFIX] at hlist

theorem loadIntent_saveIntent (key : String) (i : PaymentIntent) (storage : Storage) :
    loadIntent key (saveIntent i storage) = if key = i.key then some i else loadIntent key storage := by
  unfold loadIntent saveIntent
  rw [Store.get_set]
  simp only [intentStorageKey_inj]
  split_ifs <;> rfl

@[simp] theorem loadIntent_saveLock (key : String) :
    loadIntent key (saveLock kind address tier intentKey storage) = loadIntent key storage := by
  unfold loadIntent saveLock
  rw [Store.get_set_of_ne _ (intent_ne_lock key kind address tier)]

@[simp] theorem loadIntent_releaseLock (key : String) :
    loadIntent key (releaseLock kind address tier storage) = loadIntent key storage := by
  unfold loadIntent releaseLock
  rw [Store.get_remove_of_ne _ (intent_ne_lock key kind address tier)]

@[simp] theorem loadLock_saveIntent (i : PaymentIntent) :
    loadLock kind address tier (saveIntent i storage) = loadLock kind address tier storage := by
  unfold loadLock saveIntent
  rw [Store.get_set_of_ne _ (intent_ne_lock i.key kind address tier).symm]

theorem loadLock_saveLock : loadLock kind address tier (saveLock kind' address' tier' intentKey storage) =
    if (kind, address, tier) = (kind', address', tier') then some intentKey
    else loadLock kind address tier storage := by
  unfold loadLock saveLock
  rw [Store.get_set]
  simp only [lockStorageKey_inj]
  split_ifs <;> rfl

theorem loadLock_releaseLock : loadLock kind address tier (releaseLock kind' address' tier' storage) =
    if (kind, address, tier) = (kind', address', tier') then none
    else loadLock kind address tier storage := by
  unfold loadLock releaseLock
  rw [Store.get_remove]
  simp only [lockStorageKey_inj]
  split_ifs <;> rfl

theorem loadLock_congr {j : PaymentIntent} (h : i.operation = j.operation) (storage : Storage) :
    loadLock i.kind i.address i.tier storage = loadLock j.kind j.address j.tier storage := by
  obtain ⟨hkind, h⟩ := Prod.mk.inj h
  obtain ⟨haddress, htier⟩ := Prod.mk.inj h
  rw [hkind, haddress, htier]

theorem own_saveIntent (h : ∀ key j, loadIntent key storage = some j → j.key = key)
    (i : PaymentIntent) : ∀ key j, loadIntent key (saveIntent i storage) = some j → j.key = key := by
  intro key j hj
  rw [loadIntent_saveIntent] at hj
  split at hj
  · next heq =>
    cases hj
    exact heq.symm
  · exact h key j hj

@[simp] theorem loadIntent_empty (key : String) : loadIntent key .empty = none := rfl

@[simp] theorem loadLock_empty : loadLock kind address tier .empty = none := rfl

/-- `beginSubmission` is refused exactly by the stored status or by another holder of the lock. -/
theorem beginSubmission_eq_none {now : ℕ} : beginSubmission intent now storage = none ↔
    ¬((loadIntent intent.key storage).getD intent).status.Startable ∨ HeldByAnother intent storage := by
  unfold beginSubmission
  dsimp only
  split_ifs with hstart hheld <;> simp_all

theorem beginSubmission_eq_some {now : ℕ} {r : PaymentIntent × Storage} :
    beginSubmission intent now storage = some r ↔
      ((loadIntent intent.key storage).getD intent).status.Startable ∧ ¬HeldByAnother intent storage ∧
        r = ({ (loadIntent intent.key storage).getD intent with
            status := .building, error := none, updatedAt := now },
          saveLock intent.kind intent.address intent.tier intent.key (saveIntent
            { (loadIntent intent.key storage).getD intent with
              status := .building, error := none, updatedAt := now } storage)) := by
  unfold beginSubmission
  dsimp only
  split_ifs with hstart hheld <;> simp_all [eq_comm]

end YieldLadder.Payment
