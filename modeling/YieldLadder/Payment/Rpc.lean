import YieldLadder.Payment.Polling
import YieldLadder.Payment.Submission
import YieldLadder.Sdk.Transactions

/-! # The RPC client of the app, and a payment that waits through it

A request is posted up to three times, as long as it fails in a way that looks transient. The wait for
a transaction makes one request a poll, so what a payment attempt ends with is decided by one response:
that of the last post of the last poll.
-/
namespace YieldLadder.Payment
open Foundation Foundation.EcmaScript
open Sdk (Thrown)

/-- What a post fails with: an HTTP status that is worth a retry, or anything else that is thrown. -/
inductive RpcError
  | transientHttp (status : ℕ)
  | thrown (error : Thrown)
  deriving DecidableEq, Repr

def RpcError.raw : RpcError → String
  | .transientHttp status => "Soroban RPC HTTP " ++ toString status
  | .thrown error => error.raw

structure JsonRpc (α : Type) where
  result : Option α
  error : Option String

structure Response (α : Type) where
  status : ℕ
  json : Except Thrown (JsonRpc α)

inductive RpcEvent
  | post
  | sleep (upToMs : ℕ)
  deriving DecidableEq, Repr

def isTimeoutMessage : RpcError → Bool
  | .thrown (.domException name _) => name = "AbortError" || name = "TimeoutError"
  | error => ["timeout", "timed out", "etimedout"].any (occurs · (foldCase error.raw))

def isRetryableRpcError : RpcError → Bool
  | .transientHttp _ => true
  | .thrown (.typeError _) => true
  | .thrown (.domException name _) => name = "AbortError" || name = "TimeoutError"
  | error => ["network", "timeout", "timed out", "econnreset", "econnrefused", "etimedout", "enotfound",
      "eai_again", "fetch failed", "socket hang up"].any (occurs · (foldCase error.raw))

def MAX_RPC_ATTEMPTS : ℕ := 3
def RETRY_BASE_DELAY_MS : ℕ := 300
def RETRY_MAX_DELAY_MS : ℕ := 3_000

variable {α : Type}

/-- What one post comes to, by what `fetch` answers. -/
def callRpcOnce (answer : Except Thrown (Response α)) : Except RpcError α := do
  let res ← answer.mapError .thrown
  failIf (res.status = 429 ∨ res.status ≥ 500) (.transientHttp res.status)
  failIf (¬(200 ≤ res.status ∧ res.status ≤ 299))
    (.thrown (.error ("Soroban RPC HTTP " ++ toString res.status)))
  let json ← res.json.mapError .thrown
  match json.error with
  | some message => throw (.thrown (.error message))
  | none => expect (.thrown (.error "Empty Soroban RPC result")) json.result

/-- How the errors of others are classified: an `Error` by its message, anything else without. -/
def PaymentError.ofThrown : Thrown → PaymentError
  | .value _ => .thrown
  | e => .error e.raw

def RpcError.rethrown : RpcError → PaymentError
  | .thrown e => .ofThrown e
  | e => .error e.raw

def giveUp (lastError : RpcError) : PaymentError :=
  if ¬isRetryableRpcError lastError then lastError.rethrown
  else if isTimeoutMessage lastError then .rpcTimeout lastError.raw
  else .rpcUnavailable lastError.raw

/-- The loop of `callRpc`, by what each post comes to. -/
def request (once : ℕ → Except RpcError α) : Traced RpcEvent RpcError α :=
  .retry (.thrown (.value "undefined")) isRetryableRpcError
    (fun attempt => .sleep (min (RETRY_BASE_DELAY_MS * 2 ^ attempt) RETRY_MAX_DELAY_MS))
    (fun attempt => .call (fun _ => .post) (once attempt)) 0 MAX_RPC_ATTEMPTS

def callRpc (fetch : ℕ → Except Thrown (Response α)) : Traced RpcEvent PaymentError α :=
  (request fun attempt => callRpcOnce (fetch attempt)).mapError giveUp

/-- The post that decides a request: those before it look transient, and it does not, or is the last one. -/
structure Settles (fetch : ℕ → Except Thrown (Response α)) (k : ℕ) : Prop where
  attempts : k < MAX_RPC_ATTEMPTS
  before : ∀ j < k, ∃ e, callRpcOnce (fetch j) = .error e ∧ isRetryableRpcError e = true
  final : ∀ e, callRpcOnce (fetch k) = .error e → isRetryableRpcError e = true → k + 1 = MAX_RPC_ATTEMPTS

/-- The wait of the app, each poll a request: `fetch` answers by poll and attempt. -/
def awaited (fetch : ℕ → ℕ → Except Thrown (Response GetTransactionStatus)) (hash : String) (timeoutMs : ℕ)
    (clock : ℕ → ℚ) (fuel : ℕ) : Option (Except PaymentError Unit) :=
  (waitForTransaction hash ⟨none, some timeoutMs⟩ (fun poll => (callRpc (fetch poll)).result) clock fuel).map
    fun wait => wait.result.mapError (Sum.elim id id)

/-- How a wait settles by what the deciding post of its last poll came to. -/
def settlement (hash : String) : Except RpcError GetTransactionStatus → Except PaymentError Unit
  | .ok .success => .ok ()
  | .ok .failed => .error (.transactionFailed hash)
  | .ok .notFound => .error (.transactionTimedOut hash)
  | .error e => .error (giveUp e)

/-- How an attempt ends by the same. -/
def verdict (hash : String) : Except RpcError GetTransactionStatus → IntentStatus × Option String
  | .ok .success => (.confirmed, none)
  | .ok .failed => (.failed, some (PaymentError.transactionFailed hash).message)
  | .ok .notFound => (.expired, some timedOutMessage)
  | .error e => (.failed, some (giveUp e).message)

variable {fetch : ℕ → Except Thrown (Response α)} {fn : ℕ → Except Thrown α} {r : Except PaymentError α} {k : ℕ}

theorem callRpc_result_iff : (callRpc fetch).result = r ↔
    ∃ k, Settles fetch k ∧ (callRpcOnce (fetch k)).mapError giveUp = r := by
  have hloop : ∀ x, (request fun attempt => callRpcOnce (fetch attempt)).result = x ↔
      ∃ k, Settles fetch k ∧ callRpcOnce (fetch k) = x := by
    intro x
    refine (Traced.retry_result_iff (by decide)).trans ?_
    simp only [Traced.call_result, Nat.zero_add]
    constructor
    · rintro ⟨k, hlt, rfl, hbefore, hfinal⟩
      exact ⟨k, ⟨hlt, hbefore, hfinal⟩, rfl⟩
    · rintro ⟨k, hk, rfl⟩
      exact ⟨k, hk.attempts, rfl, hk.before, hk.final⟩
  rw [callRpc, Traced.mapError_result]
  constructor
  · rintro rfl
    obtain ⟨k, hk, hx⟩ := (hloop _).mp rfl
    exact ⟨k, hk, congrArg _ hx⟩
  · rintro ⟨k, hk, rfl⟩
    exact congrArg _ ((hloop _).mpr ⟨k, hk, rfl⟩)

theorem exists_settles (fetch : ℕ → Except Thrown (Response α)) :
    ∃ k, Settles fetch k ∧ (callRpc fetch).result = (callRpcOnce (fetch k)).mapError giveUp := by
  obtain ⟨k, hk, hr⟩ := callRpc_result_iff.mp (rfl : (callRpc fetch).result = _)
  exact ⟨k, hk, hr.symm⟩

section Awaited
variable {fetch : ℕ → ℕ → Except Thrown (Response GetTransactionStatus)} {clock : ℕ → ℚ} {hash : String}
variable {deps : PaymentSubmissionDeps} {timeoutMs : ℕ} {now : ℕ → ℕ} {awaiting : PaymentIntent} {storage : Storage}
variable {e : PaymentError}

theorem giveUp_ne_timedOut (e : RpcError) (hash : String) : giveUp e ≠ .transactionTimedOut hash := by
  unfold giveUp
  split_ifs
  · simp
  · simp
  · cases e with
    | transientHttp status => simp [RpcError.rethrown]
    | thrown e => cases e <;> simp [RpcError.rethrown, PaymentError.ofThrown]

/-- What an attempt that signed and submitted ends with is up to its wait. -/
theorem runPaymentSubmission_of_wait (timeoutMs : ℕ) (now : ℕ → ℕ) (storage : Storage)
    (hsigned : deps.requestWalletSignature.settled = .ok ())
    (hsent : (deps.submit awaiting.key).settled = .ok hash) :
    let out := (runPaymentSubmission deps timeoutMs now awaiting storage).1
    ((deps.waitForTransaction hash timeoutMs).settled = .ok () → (out.status, out.message) = (.confirmed, none)) ∧
      (∀ h, (deps.waitForTransaction hash timeoutMs).settled = .error (.transactionTimedOut h) →
        (out.status, out.message) = (.expired, some timedOutMessage)) ∧
      ∀ e, (deps.waitForTransaction hash timeoutMs).settled = .error e → (∀ h, e ≠ .transactionTimedOut h) →
        (out.status, out.message) = (.failed, some e.message) := by
  have hattempt : ∀ e, (deps.waitForTransaction hash timeoutMs).settled = .error e →
      ∃ s, attempt deps timeoutMs now awaiting storage = (.error e, s) := by
    intro e he
    have herror : (attempt deps timeoutMs now awaiting storage).1 = .error e :=
      attempt_eq_error.mpr (.inr ⟨hsigned, .inr ⟨hash, hsent, he⟩⟩)
    exact ⟨_, Prod.ext herror rfl⟩
  refine ⟨fun hok => ?_, fun h he => ?_, fun e he hno => ?_⟩
  · simp only [runPaymentSubmission, attempt, hsigned, hsent, hok]
  · obtain ⟨s, hs⟩ := hattempt _ he
    rw [caught_expired hs]
  · obtain ⟨s, hs⟩ := hattempt _ he
    rw [caught_failed hs hno]

theorem last_settlement (hash : String) (answer : Except RpcError GetTransactionStatus) :
    (lifecycle.last (S := IntentStatus) hash (answer.mapError giveUp)).result.mapError (Sum.elim id id) =
      settlement hash answer := by
  cases answer with
  | error e => rfl
  | ok status => cases status <;> rfl

/-- The wait, by the post that decides its last poll: that many polls end it, and no fewer do. -/
theorem awaited_iff {n k fuel : ℕ} {r : Except PaymentError Unit}
    (hstop : Stops (clock 0 + timeoutMs) (fun poll => (callRpc (fetch poll)).result) clock n)
    (hbefore : ∀ j < n, ¬Stops (clock 0 + timeoutMs) (fun poll => (callRpc (fetch poll)).result) clock j)
    (hk : (callRpc (fetch n)).result = (callRpcOnce (fetch n k)).mapError giveUp) :
    awaited fetch hash timeoutMs clock fuel = some r ↔
      n < fuel ∧ r = settlement hash (callRpcOnce (fetch n k)) := by
  by_cases hfuel : n < fuel
  · have hsome : awaited fetch hash timeoutMs clock fuel = some (settlement hash (callRpcOnce (fetch n k))) := by
      rw [awaited, waitForTransaction_eq, ← last_settlement, ← hk]
      exact congrArg (Option.map _) (poll_eq_some hstop hbefore hfuel)
    rw [hsome, and_iff_right hfuel, Option.some_inj, eq_comm]
  · have hshort : ∀ j < fuel,
        ¬Stops (clock 0 + timeoutMs) (fun poll => (callRpc (fetch poll)).result) clock (0 + j) :=
      fun j hj => j.zero_add.symm ▸ hbefore j (Nat.lt_of_lt_of_le hj (Nat.le_of_not_lt hfuel))
    have hnone : awaited fetch hash timeoutMs clock fuel = none := by
      rw [awaited, waitForTransaction_eq]
      exact congrArg (fun o => Option.map _ (Option.map _ o)) (Traced.repeatUntil_eq_none hshort)
    rw [hnone]
    exact iff_of_false (by rintro ⟨⟩) fun h => hfuel h.1

theorem runPaymentSubmission_of_settlement (now : ℕ → ℕ) (storage : Storage)
    (hsigned : deps.requestWalletSignature.settled = .ok ())
    (hsent : (deps.submit awaiting.key).settled = .ok hash) {answer : Except RpcError GetTransactionStatus}
    (hwait : (deps.waitForTransaction hash timeoutMs).settled = settlement hash answer) :
    ((runPaymentSubmission deps timeoutMs now awaiting storage).1.status,
      (runPaymentSubmission deps timeoutMs now awaiting storage).1.message) = verdict hash answer := by
  obtain ⟨hconfirmed, hexpired, hfailed⟩ := runPaymentSubmission_of_wait timeoutMs now storage hsigned hsent
  cases answer with
  | ok status =>
    cases status with
    | notFound => exact hexpired hash hwait
    | success => exact hconfirmed hwait
    | failed => exact hfailed _ hwait (by simp)
  | error e => exact hfailed _ hwait (giveUp_ne_timedOut e)

/-- A wait through the RPC client ends within a number of polls that the timeout bounds: the polls before the last are
answered NOT_FOUND ahead of the deadline, and the post that decides the last one decides the wait. An attempt that
signed and submitted, and whose wait settles as this one, ends as that post has it: a poll that fails makes the
payment a failure, whatever became of the transaction. -/
theorem run_awaited (fetch : ℕ → ℕ → Except Thrown (Response GetTransactionStatus)) (hash : String) (timeoutMs : ℕ)
    (now : ℕ → ℕ) (storage : Storage)
    (hclock : Ticks clock (backoff DEFAULT_POLL_INTERVAL_MS MAX_POLL_INTERVAL_MS)) :
    ∃ (n : ℕ) (k : ℕ → ℕ), ((n + 1 : ℕ) : ℚ) ≤ timeoutMs + 2 ∧ (∀ j ≤ n, Settles (fetch j) (k j)) ∧
      (∀ j < n, callRpcOnce (fetch j (k j)) = .ok .notFound ∧ clock (j + 1) < clock 0 + timeoutMs) ∧
      (callRpcOnce (fetch n (k n)) = .ok .notFound → clock 0 + timeoutMs ≤ clock (n + 1)) ∧
      (∀ fuel r, awaited fetch hash timeoutMs clock fuel = some r ↔
        n < fuel ∧ r = settlement hash (callRpcOnce (fetch n (k n)))) ∧
      ∀ deps awaiting, deps.requestWalletSignature.settled = .ok () →
        (deps.submit awaiting.key).settled = .ok hash →
        (∀ fuel r, awaited fetch hash timeoutMs clock fuel = some r →
          (deps.waitForTransaction hash timeoutMs).settled = r) →
        ((runPaymentSubmission deps timeoutMs now awaiting storage).1.status,
          (runPaymentSubmission deps timeoutMs now awaiting storage).1.message) =
            verdict hash (callRpcOnce (fetch n (k n))) := by
  obtain ⟨n, hn, hstop, hbefore⟩ := exists_last_poll (fun poll => (callRpc (fetch poll)).result)
    (by decide) (by decide) (Nat.cast_nonneg timeoutMs) hclock
  choose k hk using fun j => exists_settles (fetch j)
  have hearlier : ∀ j < n, callRpcOnce (fetch j (k j)) = .ok .notFound ∧ clock (j + 1) < clock 0 + timeoutMs := by
    intro j hj
    obtain ⟨hanswer, hearly⟩ := not_stops_iff.mp (hbefore j hj)
    rw [(hk j).2, mapError_eq_ok] at hanswer
    exact ⟨hanswer, hearly⟩
  have hends : ∀ fuel r, awaited fetch hash timeoutMs clock fuel = some r ↔
      n < fuel ∧ r = settlement hash (callRpcOnce (fetch n (k n))) :=
    fun fuel r => awaited_iff hstop hbefore (hk n).2
  refine ⟨n, k, hn, fun j _ => (hk j).1, hearlier, fun hnone => hstop ?_, hends, ?_⟩
  · exact (hk n).2.trans (congrArg (Except.mapError giveUp) hnone)
  · intro deps awaiting hsigned hsent hwait
    have hsettled := hwait (n + 1) _ ((hends _ _).mpr ⟨n.lt_succ_self, rfl⟩)
    exact runPaymentSubmission_of_settlement now storage hsigned hsent hsettled

/-- The endpoint is busy once, then does not know the transaction, and cannot be reached from then on. -/
def outage : ℕ → ℕ → Except Thrown (Response GetTransactionStatus)
  | 0, 0 => .ok ⟨503, .error (.error "")⟩
  | 0, _ => .ok ⟨200, .ok ⟨some .notFound, none⟩⟩
  | _, _ => .error (.typeError "Failed to fetch")

theorem ticks_outage : Ticks (fun n => 5000 * n) (backoff DEFAULT_POLL_INTERVAL_MS MAX_POLL_INTERVAL_MS) where
  forward m n h := mul_le_mul_of_nonneg_left (Nat.cast_le.mpr h) (by norm_num)
  pauses n := by
    have hpause := backoff_le DEFAULT_POLL_INTERVAL_MS MAX_POLL_INTERVAL_MS n
    have hmax : MAX_POLL_INTERVAL_MS = 5000 := rfl
    push_cast
    linarith only [hpause, hmax]

/-- The wait ends, and the poll it ends with decides the payment. -/
theorem run_awaited_outage : ∃ (n : ℕ) (k : ℕ → ℕ), (∀ j ≤ n, Settles (outage j) (k j)) ∧
    (∀ fuel r, awaited outage "tx-hash-1" 20_000 (fun n => 5000 * n) fuel = some r ↔
      n < fuel ∧ r = settlement "tx-hash-1" (callRpcOnce (outage n (k n)))) ∧
    ((runPaymentSubmission (submitting (.error (.rpcUnavailable "Failed to fetch"))) 20_000 (fun n => n)
        awaitingSignature .empty).1.status,
      (runPaymentSubmission (submitting (.error (.rpcUnavailable "Failed to fetch"))) 20_000 (fun n => n)
        awaitingSignature .empty).1.message) = verdict "tx-hash-1" (callRpcOnce (outage n (k n))) := by
  have hlast : awaited outage "tx-hash-1" 20_000 (fun n => 5000 * n) 2 =
      some (.error (.rpcUnavailable "Failed to fetch")) := by
    decide +kernel
  obtain ⟨n, k, _, hsettles, _, _, hends, hattempt⟩ :=
    run_awaited outage "tx-hash-1" 20_000 (fun n => n) .empty ticks_outage
  refine ⟨n, k, hsettles, hends, hattempt _ _ rfl rfl fun fuel r hr => ?_⟩
  exact ((hends 2 _).mp hlast).2.trans ((hends fuel r).mp hr).2.symm

end Awaited

section Agreement
variable {e : Thrown}

/-- What the SDK rejects with, in the error classes of the app. -/
def PaymentError.ofSdk : Thrown → PaymentError
  | .ladder (.rpcTimeout raw) => .rpcTimeout raw
  | .ladder (.rpcUnavailable raw) => .rpcUnavailable raw
  | e => .ofThrown e

theorem isRetryableRpcError_thrown (e : Thrown) :
    isRetryableRpcError (.thrown e) = Sdk.isTransientNetworkError e := by
  cases e <;> rfl

theorem isTimeoutMessage_thrown (e : Thrown) : isTimeoutMessage (.thrown e) = Sdk.isTimeoutError e := by
  cases e <;> rfl

/-- The two packages make the same error of the last one, unless it is one of the SDK already. -/
theorem giveUp_thrown (he : ∀ own, e ≠ .ladder own) :
    giveUp (.thrown e) = .ofSdk (Sdk.toRpcErrorIfTransient e) := by
  unfold giveUp Sdk.toRpcErrorIfTransient
  rw [isRetryableRpcError_thrown, isTimeoutMessage_thrown]
  by_cases htransient : Sdk.isTransientNetworkError e = true
  · rw [if_neg (not_not.mpr htransient), if_pos htransient]
    split_ifs <;> rfl
  · rw [if_pos htransient, if_neg htransient]
    cases e with
    | ladder own => exact absurd rfl (he own)
    | _ => rfl

/-- As long as no post is answered with a status that the app alone retries, `callRpc` makes the posts and pauses of
the SDK's `retryWithBackoff`, and ends with the same result or the same class of error. -/
theorem callRpc_agrees {fetch : ℕ → Except Thrown (Response α)} {fn : ℕ → Except Thrown α}
    (hfetch : ∀ n, callRpcOnce (fetch n) = (fn n).mapError .thrown) (hfn : ∀ n own, fn n ≠ .error (.ladder own)) :
    callRpc fetch = ((Sdk.retryWithBackoff (fun n => .call (fun _ => RpcEvent.post) (fn n)) Sdk.RPC_RETRY_OPTIONS
      .sleep).mapError Sdk.toRpcErrorIfTransient).mapError .ofSdk := by
  generalize hx : Sdk.retryWithBackoff (fun n => .call (fun _ => RpcEvent.post) (fn n)) Sdk.RPC_RETRY_OPTIONS
    .sleep = x
  rw [Sdk.retryWithBackoff] at hx
  have hretryable : ∀ e, isRetryableRpcError (.thrown e) = Sdk.RPC_RETRY_OPTIONS.isRetryable e :=
    isRetryableRpcError_thrown
  have hloop : (request fun n => callRpcOnce (fetch n)) = x.relabel id RpcError.thrown := by
    rw [← hx, Traced.retry_relabel id RpcError.thrown hretryable]
    simp only [hfetch]
    rfl
  have hlast : ∀ e, x.result = .error e → ∀ own, e ≠ .ladder own := by
    rintro e he own rfl
    rw [← hx, Traced.retry_result_iff (by decide)] at he
    obtain ⟨k, _, hk, _⟩ := he
    exact hfn _ own hk
  rw [callRpc, hloop]
  obtain ⟨trace, result⟩ := x
  cases result with
  | ok a => simp [Traced.mapError, Traced.relabel]
  | error e => simp [Traced.mapError, Traced.relabel, giveUp_thrown (hlast e rfl)]

theorem callRpc_agrees_unreachable :
    (callRpc fun _ => .error (.typeError "Failed to fetch") : Traced RpcEvent PaymentError Unit).result =
      .error (.rpcUnavailable "Failed to fetch") := by
  have hfetch : ∀ _ : ℕ, callRpcOnce (.error (.typeError "Failed to fetch") : Except Thrown (Response Unit)) =
      (.error (.typeError "Failed to fetch") : Except Thrown Unit).mapError .thrown := fun _ => rfl
  rw [callRpc_agrees hfetch (by simp)]
  rfl

end Agreement

end YieldLadder.Payment
