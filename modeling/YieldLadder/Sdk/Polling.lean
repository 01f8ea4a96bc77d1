import YieldLadder.Payment.Polling
import YieldLadder.Sdk.Errors

/-! # Two copies of one wait

The SDK's copy of the loop, and what holds of both: the clock ends them within as many
polls as the timeout has milliseconds and two more, they report what the last poll
said, and nobody can tell one from the other.
-/
namespace YieldLadder.Sdk
open Foundation

inductive PaymentStatus
  | building
  | simulating
  | awaitingSignature
  | submitted
  | pending
  | confirmed
  | failed
  | expired
  deriving DecidableEq, Repr

def PaymentStatus.text : PaymentStatus → String
  | .building => "building"
  | .simulating => "simulating"
  | .awaitingSignature => "awaiting_signature"
  | .submitted => "submitted"
  | .pending => "pending"
  | .confirmed => "confirmed"
  | .failed => "failed"
  | .expired => "expired"

def DEFAULT_POLL_INTERVAL_MS : ℚ := 1500
def MAX_POLL_INTERVAL_MS : ℚ := 5000
def DEFAULT_POLL_TIMEOUT_MS : ℚ := 60000

variable {R : Type}

/-- The loop from an attempt on; `clock 0` is the reading before the loop. -/
def pollFrom (hash : String) (baseIntervalMs : WithTop ℚ) (deadline : ℚ)
    (answers : ℕ → Except R GetTransactionStatus) (clock : ℕ → ℚ) (attempt : ℕ) :
    ℕ → Option (Traced (PollEvent PaymentStatus R) (R ⊕ YieldLadderError) Unit)
  | 0 => none
  | fuel + 1 =>
    match answers attempt with
    | .error rejection => some ⟨[.getTransaction (.error rejection)], .error (.inl rejection)⟩
    | .ok .success => some ⟨[.getTransaction (.ok .success), .onStatus .confirmed], .ok ()⟩
    | .ok .failed => some ⟨[.getTransaction (.ok .failed), .onStatus .failed],
        .error (.inr (.transactionFailed hash))⟩
    | .ok .notFound =>
      if deadline ≤ clock (attempt + 1) then
        some ⟨[.getTransaction (.ok .notFound), .onStatus .expired],
          .error (.inr (.transactionTimedOut hash))⟩
      else (pollFrom hash baseIntervalMs deadline answers clock (attempt + 1) fuel).map <|
        .after [.getTransaction (.ok .notFound),
          .sleep (backoff baseIntervalMs MAX_POLL_INTERVAL_MS attempt)]

def waitForTransaction (hash : String) (opts : WaitForTransactionOptions)
    (answers : ℕ → Except R GetTransactionStatus) (clock : ℕ → ℚ) (fuel : ℕ) :
    Option (Traced (PollEvent PaymentStatus R) (R ⊕ YieldLadderError) Unit) :=
  let baseIntervalMs := opts.pollIntervalMs.getD DEFAULT_POLL_INTERVAL_MS
  let timeoutMs := opts.timeoutMs.getD DEFAULT_POLL_TIMEOUT_MS
  let deadline := clock 0 + timeoutMs
  (pollFrom hash baseIntervalMs deadline answers clock 0 fuel).map (.after [.onStatus .pending])

/-- The words of the SDK. -/
def lifecycle : Lifecycle PaymentStatus YieldLadderError where
  pending := .pending
  confirmed := .confirmed
  failed := .failed
  expired := .expired
  transactionFailed := .transactionFailed
  transactionTimedOut := .transactionTimedOut

theorem pollFrom_eq (hash : String) (baseIntervalMs : WithTop ℚ) (deadline : ℚ)
    (answers : ℕ → Except R GetTransactionStatus) (clock : ℕ → ℚ) (attempt fuel : ℕ) :
    pollFrom hash baseIntervalMs deadline answers clock attempt fuel =
      lifecycle.poll hash baseIntervalMs MAX_POLL_INTERVAL_MS deadline answers clock attempt fuel := by
  induction fuel generalizing attempt with
  | zero => rfl
  | succ fuel ih =>
    rw [poll_succ, ← ih]
    rfl

theorem waitForTransaction_eq (hash : String) (opts : WaitForTransactionOptions)
    (answers : ℕ → Except R GetTransactionStatus) (clock : ℕ → ℚ) (fuel : ℕ) :
    waitForTransaction hash opts answers clock fuel =
      (lifecycle.poll hash (opts.pollIntervalMs.getD DEFAULT_POLL_INTERVAL_MS) MAX_POLL_INTERVAL_MS
        (clock 0 + opts.timeoutMs.getD DEFAULT_POLL_TIMEOUT_MS) answers clock 0 fuel).map
          (.after [.onStatus lifecycle.pending]) :=
  congrArg (Option.map _) (pollFrom_eq _ _ _ _ _ _ _)

def seen {S E : Type} (text : S → String) (message : E → String) (advice : E → RetryClassification) :
    Traced (PollEvent S R) (R ⊕ E) Unit →
      Traced (PollEvent String R) (R ⊕ String × RetryClassification) Unit :=
  Traced.relabel (PollEvent.mapStatus text) (Sum.map id fun e => (message e, advice e))

section Seen
variable {S E S' E' : Type} {v : Lifecycle S E} {hash : String} {baseIntervalMs : WithTop ℚ}
variable {maxIntervalMs deadline : ℚ} {answers : ℕ → Except R GetTransactionStatus} {clock : ℕ → ℚ}
variable {fuel : ℕ}

/-- The words of a copy in another language. -/
def translate (f : S → S') (g : E → E') (v : Lifecycle S E) : Lifecycle S' E' where
  pending := f v.pending
  confirmed := f v.confirmed
  failed := f v.failed
  expired := f v.expired
  transactionFailed hash := g (v.transactionFailed hash)
  transactionTimedOut hash := g (v.transactionTimedOut hash)

theorem last_translate (f : S → S') (g : E → E') (answer : Except R GetTransactionStatus) :
    (v.last hash answer).relabel (PollEvent.mapStatus f) (Sum.map id g) =
      (translate f g v).last hash answer := by
  cases answer with
  | error e => rfl
  | ok status => cases status <;> rfl

theorem poll_translate (f : S → S') (g : E → E') :
    ((v.poll hash baseIntervalMs maxIntervalMs deadline answers clock 0 fuel).map
        (Traced.after [.onStatus v.pending])).map (Traced.relabel (PollEvent.mapStatus f) (Sum.map id g)) =
      ((translate f g v).poll hash baseIntervalMs maxIntervalMs deadline answers clock 0 fuel).map
        (Traced.after [.onStatus (translate f g v).pending]) := by
  have hpoll : (v.poll hash baseIntervalMs maxIntervalMs deadline answers clock 0 fuel).map
      (Traced.relabel (PollEvent.mapStatus f) (Sum.map id g)) =
        (translate f g v).poll hash baseIntervalMs maxIntervalMs deadline answers clock 0 fuel := by
    unfold Lifecycle.poll
    rw [Traced.repeatUntil_relabel]
    simp only [last_translate]
    rfl
  rw [Traced.map_relabel_after, hpoll]
  rfl

/-- The copies cannot be told apart. -/
theorem copies_agree (hash : String) (opts : WaitForTransactionOptions)
    (answers : ℕ → Except R GetTransactionStatus) (clock : ℕ → ℚ) (fuel : ℕ) :
    (waitForTransaction hash opts answers clock fuel).map
        (seen PaymentStatus.text YieldLadderError.message YieldLadderError.retryClassification) =
      (Payment.waitForTransaction hash opts answers clock fuel).map
        (seen Payment.IntentStatus.text Payment.PaymentError.message
          Payment.PaymentError.retryClassification) := by
  unfold seen
  rw [waitForTransaction_eq, Payment.waitForTransaction_eq, poll_translate, poll_translate]
  rfl

end Seen

/-- For every interval from one on, every timeout, every sequence of answers and every clock that moves over the
sleeps: both copies end after `polls` polls, as the last poll has it, and nobody can tell them apart. -/
theorem waitForTransaction_reports (hash : String) (opts : WaitForTransactionOptions)
    (answers : ℕ → Except R GetTransactionStatus) (clock : ℕ → ℚ)
    (hinterval : ∀ ms, opts.pollIntervalMs = some ms → 1 ≤ ms)
    (htimeout : ∀ ms, opts.timeoutMs = some ms → 0 ≤ ms)
    (hclock : Ticks clock (backoff (opts.pollIntervalMs.getD DEFAULT_POLL_INTERVAL_MS) MAX_POLL_INTERVAL_MS)) :
    ∃ polls : ℕ, (polls : ℚ) ≤ opts.timeoutMs.getD DEFAULT_POLL_TIMEOUT_MS + 2 ∧
      (∃ wait, (∀ fuel, polls ≤ fuel → waitForTransaction hash opts answers clock fuel = some wait) ∧
        Reports lifecycle hash (clock 0 + opts.timeoutMs.getD DEFAULT_POLL_TIMEOUT_MS) answers clock polls wait) ∧
      (∃ wait, (∀ fuel, polls ≤ fuel → Payment.waitForTransaction hash opts answers clock fuel = some wait) ∧
        Reports Payment.lifecycle hash (clock 0 + opts.timeoutMs.getD DEFAULT_POLL_TIMEOUT_MS) answers
          clock polls wait) ∧
      ∀ fuel, (waitForTransaction hash opts answers clock fuel).map
          (seen PaymentStatus.text YieldLadderError.message YieldLadderError.retryClassification) =
        (Payment.waitForTransaction hash opts answers clock fuel).map
          (seen Payment.IntentStatus.text Payment.PaymentError.message
            Payment.PaymentError.retryClassification) := by
  have hbase : 1 ≤ opts.pollIntervalMs.getD (DEFAULT_POLL_INTERVAL_MS : WithTop ℚ) := by
    cases h : opts.pollIntervalMs with
    | none => exact WithTop.coe_le_coe.mpr (by norm_num [DEFAULT_POLL_INTERVAL_MS])
    | some ms => exact hinterval ms h
  have htimeoutMs : 0 ≤ opts.timeoutMs.getD DEFAULT_POLL_TIMEOUT_MS := by
    cases h : opts.timeoutMs with
    | none => norm_num [DEFAULT_POLL_TIMEOUT_MS]
    | some ms => exact htimeout ms h
  have hmax : 1 ≤ MAX_POLL_INTERVAL_MS := by norm_num [MAX_POLL_INTERVAL_MS]
  obtain ⟨n, hn, hstop, hbefore⟩ := exists_last_poll answers hbase hmax htimeoutMs hclock
  have hsdk : ∀ fuel, n + 1 ≤ fuel → waitForTransaction hash opts answers clock fuel = _ := fun fuel hfuel =>
    (waitForTransaction_eq hash opts answers clock fuel).trans (poll_eq_some hstop hbefore hfuel)
  have happ : ∀ fuel, n + 1 ≤ fuel → Payment.waitForTransaction hash opts answers clock fuel = _ :=
    fun fuel hfuel => (Payment.waitForTransaction_eq hash opts answers clock fuel).trans
      (poll_eq_some hstop hbefore hfuel)
  exact ⟨n + 1, hn, ⟨_, hsdk, waited_reports nofun hstop hbefore⟩,
    ⟨_, happ, waited_reports nofun hstop hbefore⟩, copies_agree hash opts answers clock⟩

/-- A transaction that is never found, under a clock that moves five seconds between two readings. -/
theorem waitForTransaction_reports_unknown : ∃ polls : ℕ, (polls : ℚ) ≤ 2000 + 2 ∧
    ∃ wait, (∀ fuel, polls ≤ fuel → waitForTransaction "a1" ⟨some 1, some 2000⟩
      (fun _ => (.ok .notFound : Except Thrown GetTransactionStatus)) (fun n => 5000 * n) fuel = some wait) ∧
        wait.result = .error (.inr (.transactionTimedOut "a1")) := by
  have hclock : Ticks (fun n => 5000 * n) (backoff ((some (1 : WithTop ℚ)).getD DEFAULT_POLL_INTERVAL_MS)
      MAX_POLL_INTERVAL_MS) := by
    constructor
    · intro m n hmn
      have hle : (m : ℚ) ≤ n := Nat.cast_le.mpr hmn
      dsimp only
      linarith only [hle]
    · intro n
      have hle := backoff_le ((some (1 : WithTop ℚ)).getD DEFAULT_POLL_INTERVAL_MS) MAX_POLL_INTERVAL_MS n
      have hmax : MAX_POLL_INTERVAL_MS = 5000 := rfl
      push_cast
      linarith only [hle, hmax]
  obtain ⟨polls, hle, ⟨wait, hwait, hreports⟩, -⟩ := waitForTransaction_reports "a1" ⟨some 1, some 2000⟩
    (fun _ => (.ok .notFound : Except Thrown GetTransactionStatus)) (fun n => 5000 * n)
    (by rintro ms ⟨⟩; exact le_refl 1) (by rintro ms ⟨⟩; norm_num) hclock
  refine ⟨polls, hle, wait, hwait, (hreports.expiry (polls - 1) ?_ rfl).1⟩
  exact Nat.sub_add_cancel hreports.polled

end YieldLadder.Sdk
