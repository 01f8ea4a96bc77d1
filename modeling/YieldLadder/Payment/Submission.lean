import YieldLadder.Payment.Errors
import YieldLadder.Payment.PaymentIntent

/-! # One payment attempt

An attempt signs, submits and waits. Each of the three may resolve or reject, and
while it is awaited other tabs may write to the storage. One `catch` serves all
three: it cannot tell an error from before the submission from one of the same class
that comes after it.
-/
namespace YieldLadder.Payment
open Foundation

/-- How an awaited dependency settled, and what became of the storage meanwhile. -/
structure Answer (α : Type) where
  settled : Except PaymentError α
  meanwhile : Storage → Storage

/-- The answer of `submit`. When it rejects, `sent` says whether the transaction may have reached the
network before. -/
structure Submitted extends Answer String where
  sent : Bool

structure PaymentSubmissionDeps where
  requestWalletSignature : Answer Unit
  submit : (idempotencyKey : String) → Submitted
  waitForTransaction : (hash : String) → (timeoutMs : ℕ) → Answer Unit

structure PaymentSubmissionResult where
  intent : PaymentIntent
  status : IntentStatus
  message : Option String
  deriving DecidableEq, Repr

/-- The body of the `try`, with the clock at its marks. -/
def attempt (deps : PaymentSubmissionDeps) (timeoutMs : ℕ) (now : ℕ → ℕ) (awaiting : PaymentIntent)
    (storage : Storage) : Except PaymentError PaymentIntent × Storage :=
  let signature := deps.requestWalletSignature
  let storage := signature.meanwhile storage
  match signature.settled with
  | .error e => (.error e, storage)
  | .ok () =>
    let submission := deps.submit awaiting.key
    let storage := submission.meanwhile storage
    match submission.settled with
    | .error e => (.error e, storage)
    | .ok txHash =>
      let (submitted, storage) := markSubmitted awaiting txHash (now 0) storage
      let (pending, storage) := markPending submitted (now 1) storage
      let wait := deps.waitForTransaction txHash timeoutMs
      let storage := wait.meanwhile storage
      match wait.settled with
      | .error e => (.error e, storage)
      | .ok () =>
        let (confirmed, storage) := markConfirmed pending (now 2) storage
        (.ok confirmed, storage)

def timedOutMessage : String :=
  "Could not confirm this transaction in time. It may still complete — check back before retrying."

def runPaymentSubmission (deps : PaymentSubmissionDeps) (timeoutMs : ℕ) (now : ℕ → ℕ)
    (awaiting : PaymentIntent) (storage : Storage) : PaymentSubmissionResult × Storage :=
  match attempt deps timeoutMs now awaiting storage with
  | (.ok confirmed, storage) => (⟨confirmed, .confirmed, none⟩, storage)
  | (.error (.transactionTimedOut _), storage) =>
    let (expired, storage) := markExpired awaiting timedOutMessage (now 3) storage
    (⟨expired, .expired, some timedOutMessage⟩, storage)
  | (.error error, storage) =>
    let classified := classifyPaymentError error
    let (failed, storage) := markFailed awaiting classified.message (now 3) storage
    (⟨failed, .failed, some classified.message⟩, storage)

/-- The transaction was handed to the network, or may have been. -/
def Handed (deps : PaymentSubmissionDeps) (awaiting : PaymentIntent) : Prop :=
  deps.requestWalletSignature.settled = .ok () ∧
    match (deps.submit awaiting.key).settled with
    | .ok _ => True
    | .error _ => (deps.submit awaiting.key).sent = true

def Waited (deps : PaymentSubmissionDeps) (timeoutMs : ℕ) (awaiting : PaymentIntent) : Prop :=
  deps.requestWalletSignature.settled = .ok () ∧ ∃ txHash,
    (deps.submit awaiting.key).settled = .ok txHash ∧
      (deps.waitForTransaction txHash timeoutMs).settled = .ok ()

/-- Whatever is rejected once the transaction may have been handed over is conclusive. -/
def Answered (deps : PaymentSubmissionDeps) (timeoutMs : ℕ) (awaiting : PaymentIntent) : Prop :=
  deps.requestWalletSignature.settled = .ok () →
    match (deps.submit awaiting.key).settled with
    | .error e => (deps.submit awaiting.key).sent = true → Conclusive e
    | .ok txHash => ∀ e, (deps.waitForTransaction txHash timeoutMs).settled = .error e → Conclusive e

def Own (awaiting : PaymentIntent) (storage : Storage) : Prop :=
  ∀ j, loadIntent awaiting.key storage = some j → j.key = awaiting.key ∧ j.operation = awaiting.operation

/-- What the other tabs do keeps it so. -/
structure Respected (deps : PaymentSubmissionDeps) (awaiting : PaymentIntent) : Prop where
  signature : ∀ s, Own awaiting s → Own awaiting (deps.requestWalletSignature.meanwhile s)
  submit : ∀ s, Own awaiting s → Own awaiting ((deps.submit awaiting.key).meanwhile s)
  wait : ∀ hash timeoutMs s, Own awaiting s →
    Own awaiting ((deps.waitForTransaction hash timeoutMs).meanwhile s)

/-- What an attempt promises: its advice is sound, `confirmed` means that the wait resolved, and its
result is what the storage says, with the lock released. -/
structure Truthful (deps : PaymentSubmissionDeps) (timeoutMs : ℕ) (now : ℕ → ℕ)
    (awaiting : PaymentIntent) (storage : Storage) : Prop where
  advice : ∀ e, (attempt deps timeoutMs now awaiting storage).1 = .error e → Handed deps awaiting →
    (∀ hash, e ≠ .transactionFailed hash) →
      (runPaymentSubmission deps timeoutMs now awaiting storage).1.status ≠ .failed ∧
      (classifyPaymentError e).retryClassification ≠ .retryableSafely
  confirmed : (runPaymentSubmission deps timeoutMs now awaiting storage).1.status = .confirmed →
    Waited deps timeoutMs awaiting
  persisted : loadIntent awaiting.key (runPaymentSubmission deps timeoutMs now awaiting storage).2 =
    some (runPaymentSubmission deps timeoutMs now awaiting storage).1.intent
  status : (runPaymentSubmission deps timeoutMs now awaiting storage).1.intent.status =
    (runPaymentSubmission deps timeoutMs now awaiting storage).1.status
  unlocked : loadLock awaiting.kind awaiting.address awaiting.tier
    (runPaymentSubmission deps timeoutMs now awaiting storage).2 = none

variable {deps : PaymentSubmissionDeps} {timeoutMs t : ℕ} {now : ℕ → ℕ} {awaiting intent i : PaymentIntent}
variable {storage s : Storage} {patch : PaymentIntent → PaymentIntent} {e : PaymentError}

/-- A record that stands under the key of `awaiting`, and is about its operation. -/
structure Stands (awaiting i : PaymentIntent) (storage : Storage) : Prop where
  key : i.key = awaiting.key
  operation : i.operation = awaiting.operation
  stored : loadIntent awaiting.key storage = some i

theorem Stands.own (h : Stands awaiting i s) : Own awaiting s := by
  intro j hj
  obtain rfl : i = j := Option.some.inj (h.stored.symm.trans hj)
  exact ⟨h.key, h.operation⟩

theorem transition_stands (patch : PaymentIntent → PaymentIntent) (h : Own awaiting s)
    (hkey : intent.key = awaiting.key) (hoperation : intent.operation = awaiting.operation)
    (hpatch : ∀ j, (patch j).key = j.key ∧ (patch j).operation = j.operation) :
    Stands awaiting (transition intent patch t s).1 (transition intent patch t s).2 := by
  have hcurrent : ((loadIntent intent.key s).getD intent).key = awaiting.key ∧
      ((loadIntent intent.key s).getD intent).operation = awaiting.operation := by
    rw [hkey]
    cases hload : loadIntent awaiting.key s with
    | none => exact ⟨hkey, hoperation⟩
    | some j => exact h j hload
  obtain ⟨hk, ho⟩ := hpatch ((loadIntent intent.key s).getD intent)
  have hk' : (transition intent patch t s).1.key = awaiting.key := hk.trans hcurrent.1
  refine ⟨hk', ho.trans hcurrent.2, ?_⟩
  unfold transition at hk' ⊢
  dsimp only at hk' ⊢
  rw [loadIntent_saveIntent, if_pos hk'.symm]

/-- A mark that ends the attempt releases the lock besides. -/
theorem finish_stands (patch : PaymentIntent → PaymentIntent) (h : Own awaiting s)
    (hkey : intent.key = awaiting.key) (hoperation : intent.operation = awaiting.operation)
    (hpatch : ∀ j, (patch j).key = j.key ∧ (patch j).operation = j.operation) :
    Stands awaiting (finish intent patch t s).1 (finish intent patch t s).2 ∧
      loadLock awaiting.kind awaiting.address awaiting.tier (finish intent patch t s).2 = none := by
  obtain ⟨hk, ho, hstored⟩ := transition_stands (t := t) patch h hkey hoperation hpatch
  unfold finish
  refine ⟨⟨hk, ho, ?_⟩, ?_⟩
  · rw [loadIntent_releaseLock]
    exact hstored
  · dsimp only
    rw [loadLock_releaseLock, if_pos]
    exact hoperation.symm

/-- What has become of the storage and the record when the body of the `try` ends. -/
theorem attempt_spec (timeoutMs : ℕ) (now : ℕ → ℕ) (h : Own awaiting storage)
    (hr : Respected deps awaiting) :
    match attempt deps timeoutMs now awaiting storage with
    | (.ok confirmed, s) => Waited deps timeoutMs awaiting ∧ confirmed.status = .confirmed ∧
        Stands awaiting confirmed s ∧ loadLock awaiting.kind awaiting.address awaiting.tier s = none
    | (.error _, s) => Own awaiting s := by
  have hsigned := hr.signature storage h
  unfold attempt
  dsimp only
  cases hsignature : deps.requestWalletSignature.settled with
  | error e => exact hsigned
  | ok u =>
    have hsent := hr.submit _ hsigned
    dsimp only
    cases hsubmit : (deps.submit awaiting.key).settled with
    | error e => exact hsent
    | ok txHash =>
      have hsubmitted := transition_stands (t := now 0) ({ · with status := .submitted, txHash := some txHash })
        hsent rfl rfl fun _ => ⟨rfl, rfl⟩
      have hpending := transition_stands (t := now 1) ({ · with status := .pending })
        hsubmitted.own hsubmitted.key hsubmitted.operation fun _ => ⟨rfl, rfl⟩
      have hwaited := hr.wait txHash timeoutMs _ hpending.own
      dsimp only
      cases hwait : (deps.waitForTransaction txHash timeoutMs).settled with
      | error e => exact hwaited
      | ok v =>
        have hconfirmed := finish_stands (t := now 2) ({ · with status := .confirmed })
          hwaited hpending.key hpending.operation fun _ => ⟨rfl, rfl⟩
        exact ⟨⟨hsignature, txHash, hsubmit, hwait⟩, rfl, hconfirmed.1, hconfirmed.2⟩

/-- Where the error comes from that the `catch` sees. -/
theorem attempt_eq_error : (attempt deps timeoutMs now awaiting storage).1 = .error e ↔
    deps.requestWalletSignature.settled = .error e ∨
      deps.requestWalletSignature.settled = .ok () ∧ ((deps.submit awaiting.key).settled = .error e ∨
        ∃ txHash, (deps.submit awaiting.key).settled = .ok txHash ∧
          (deps.waitForTransaction txHash timeoutMs).settled = .error e) := by
  unfold attempt
  dsimp only
  cases hsignature : deps.requestWalletSignature.settled with
  | error e' => simp
  | ok u =>
    cases hsubmit : (deps.submit awaiting.key).settled with
    | error e' => simp
    | ok txHash => cases hwait : (deps.waitForTransaction txHash timeoutMs).settled <;> simp [hwait]

/-- The dependencies answer conclusively exactly when every error the `catch` sees after the hand-over
is conclusive. -/
theorem answered_iff (now : ℕ → ℕ) (storage : Storage) : Answered deps timeoutMs awaiting ↔
    ∀ e, (attempt deps timeoutMs now awaiting storage).1 = .error e → Handed deps awaiting →
      Conclusive e := by
  simp only [attempt_eq_error]
  unfold Answered Handed
  cases hsignature : deps.requestWalletSignature.settled with
  | error e => simp
  | ok u =>
    cases hsubmit : (deps.submit awaiting.key).settled with
    | error e => simp
    | ok txHash => simp

theorem caught_failed (hattempt : attempt deps timeoutMs now awaiting storage = (.error e, s))
    (hno : ∀ hash, e ≠ .transactionTimedOut hash) :
    runPaymentSubmission deps timeoutMs now awaiting storage =
      (⟨(markFailed awaiting e.message (now 3) s).1, .failed, some e.message⟩,
        (markFailed awaiting e.message (now 3) s).2) := by
  unfold runPaymentSubmission
  rw [hattempt]
  cases e with
  | transactionTimedOut hash => exact absurd rfl (hno hash)
  | _ => rfl

theorem caught_expired {hash : String}
    (hattempt : attempt deps timeoutMs now awaiting storage = (.error (.transactionTimedOut hash), s)) :
    runPaymentSubmission deps timeoutMs now awaiting storage =
      (⟨(markExpired awaiting timedOutMessage (now 3) s).1, .expired, some timedOutMessage⟩,
        (markExpired awaiting timedOutMessage (now 3) s).2) := by
  unfold runPaymentSubmission
  rw [hattempt]

/-- The storage agrees with the result, however the attempt ends, and a failure is reported for every
error but a timeout. -/
structure Reported (deps : PaymentSubmissionDeps) (timeoutMs : ℕ) (now : ℕ → ℕ)
    (awaiting : PaymentIntent) (storage : Storage) : Prop where
  stands : Stands awaiting (runPaymentSubmission deps timeoutMs now awaiting storage).1.intent
    (runPaymentSubmission deps timeoutMs now awaiting storage).2
  unlocked : loadLock awaiting.kind awaiting.address awaiting.tier
    (runPaymentSubmission deps timeoutMs now awaiting storage).2 = none
  status : (runPaymentSubmission deps timeoutMs now awaiting storage).1.intent.status =
    (runPaymentSubmission deps timeoutMs now awaiting storage).1.status
  confirmed : (runPaymentSubmission deps timeoutMs now awaiting storage).1.status = .confirmed →
    Waited deps timeoutMs awaiting
  failed : (runPaymentSubmission deps timeoutMs now awaiting storage).1.status = .failed →
    ∃ e, (attempt deps timeoutMs now awaiting storage).1 = .error e ∧
      ∀ hash, e ≠ .transactionTimedOut hash

theorem runPaymentSubmission_reported (timeoutMs : ℕ) (now : ℕ → ℕ) (h : Own awaiting storage)
    (hr : Respected deps awaiting) :
    Reported deps timeoutMs now awaiting storage := by
  have hspec := attempt_spec timeoutMs now h hr
  rcases hattempt : attempt deps timeoutMs now awaiting storage with ⟨e | confirmed, s⟩
  · rw [hattempt] at hspec
    by_cases htimeout : ∃ hash, e = .transactionTimedOut hash
    · obtain ⟨hash, rfl⟩ := htimeout
      have hrun := caught_expired hattempt
      obtain ⟨hstands, hlock⟩ := finish_stands (t := now 3)
        ({ · with status := .expired, error := some timedOutMessage }) hspec rfl rfl fun _ => ⟨rfl, rfl⟩
      refine ⟨hrun ▸ hstands, hrun ▸ hlock, by rw [hrun]; rfl, ?_, ?_⟩ <;> simp [hrun]
    · have hno : ∀ hash, e ≠ .transactionTimedOut hash := fun hash he => htimeout ⟨hash, he⟩
      have hrun := caught_failed hattempt hno
      obtain ⟨hstands, hlock⟩ := finish_stands (t := now 3)
        ({ · with status := .failed, error := some e.message }) hspec rfl rfl fun _ => ⟨rfl, rfl⟩
      refine ⟨hrun ▸ hstands, hrun ▸ hlock, by rw [hrun]; rfl, by simp [hrun], fun _ => ?_⟩
      exact ⟨e, by rw [hattempt], hno⟩
  · rw [hattempt] at hspec
    obtain ⟨hwaited, hstatus, hstands, hlock⟩ := hspec
    have hrun : runPaymentSubmission deps timeoutMs now awaiting storage =
        (⟨confirmed, .confirmed, none⟩, s) := by
      unfold runPaymentSubmission
      rw [hattempt]
    exact ⟨hrun ▸ hstands, hrun ▸ hlock, hrun ▸ hstatus, fun _ => hwaited, by simp [hrun]⟩

/-- For every behaviour of the dependencies: the promise is kept exactly when they answer conclusively
after the transaction may have been handed over. -/
theorem truthful_iff (h : Own awaiting storage) (hr : Respected deps awaiting) (timeoutMs : ℕ)
    (now : ℕ → ℕ) :
    Truthful deps timeoutMs now awaiting storage ↔ Answered deps timeoutMs awaiting := by
  have hreported := runPaymentSubmission_reported timeoutMs now h hr
  rw [answered_iff now storage]
  constructor
  · intro htruthful e he hhanded
    by_contra hno
    have hfailed : ∀ hash, e ≠ .transactionFailed hash := by
      rintro hash rfl
      exact hno trivial
    exact (htruthful.advice e he hhanded hfailed).2 (retryableSafely_iff.mpr hno)
  · intro hanswered
    refine ⟨fun e he hhanded hfailed => ?_, hreported.confirmed, hreported.stands.stored,
      hreported.status, hreported.unlocked⟩
    have hconclusive := hanswered e he hhanded
    refine ⟨fun hstatus => ?_, fun hsafely => retryableSafely_iff.mp hsafely hconclusive⟩
    obtain ⟨e', he', htimeout⟩ := hreported.failed hstatus
    obtain rfl : e = e' := Except.error.inj (he.symm.trans he')
    cases e with
    | transactionFailed hash => exact hfailed hash rfl
    | transactionTimedOut hash => exact htimeout hash rfl
    | _ => exact hconclusive

def awaitingSignature : PaymentIntent where
  key := "deposit:GADDR:flex:USDC:10:n1"
  kind := .deposit
  address := ⟨"GADDR", by decide⟩
  tier := "flex"
  asset := "USDC"
  amount := "10"
  status := .awaitingSignature
  txHash := none
  error := none
  createdAt := 1
  updatedAt := 2

def submitting (wait : Except PaymentError Unit) : PaymentSubmissionDeps where
  requestWalletSignature := ⟨.ok (), id⟩
  submit _ := { settled := .ok "tx-hash-1", meanwhile := id, sent := true }
  waitForTransaction _ _ := ⟨wait, id⟩

theorem submitting_respected (wait : Except PaymentError Unit) :
    Respected (submitting wait) awaitingSignature :=
  ⟨fun _ h => h, fun _ h => h, fun _ _ _ h => h⟩

theorem awaitingSignature_own : Own awaitingSignature (saveIntent awaitingSignature .empty) := by
  intro j hj
  rw [loadIntent_saveIntent, if_pos rfl] at hj
  obtain rfl := Option.some.inj hj
  exact ⟨rfl, rfl⟩

theorem truthful_iff_timedOut :
    Truthful (submitting (.error (.transactionTimedOut "tx-hash-1"))) 20_000 (fun n => n)
      awaitingSignature (saveIntent awaitingSignature .empty) ↔
    Answered (submitting (.error (.transactionTimedOut "tx-hash-1"))) 20_000 awaitingSignature :=
  truthful_iff awaitingSignature_own (submitting_respected _) 20_000 fun n => n

/-- The transaction is submitted and the endpoint cannot be reached while its inclusion is awaited: the
attempt ends as failed, and the advice is to retry. -/
theorem submitting_unavailable :
    Handed (submitting (.error (.rpcUnavailable "fetch failed"))) awaitingSignature ∧
    (attempt (submitting (.error (.rpcUnavailable "fetch failed"))) 20_000 (fun n => n)
      awaitingSignature (saveIntent awaitingSignature .empty)).1 =
        .error (.rpcUnavailable "fetch failed") ∧
    (runPaymentSubmission (submitting (.error (.rpcUnavailable "fetch failed"))) 20_000 (fun n => n)
      awaitingSignature (saveIntent awaitingSignature .empty)).1.status = .failed ∧
    (classifyPaymentError (.rpcUnavailable "fetch failed")).retryClassification = .retryableSafely ∧
    ¬Truthful (submitting (.error (.rpcUnavailable "fetch failed"))) 20_000 (fun n => n)
      awaitingSignature (saveIntent awaitingSignature .empty) := by
  refine ⟨⟨rfl, trivial⟩, rfl, rfl, rfl, fun h => ?_⟩
  exact (h.advice (.rpcUnavailable "fetch failed") rfl ⟨rfl, trivial⟩ (by simp)).2 rfl

end YieldLadder.Payment
