import Mathlib.Algebra.Order.Field.Rat
import Mathlib.Order.WithBot
import Mathlib.Tactic.NormNum
import YieldLadder.Foundation.Polling
import YieldLadder.Payment.Errors
import YieldLadder.Payment.PaymentIntent

/-! # Waiting for a transaction to be confirmed

Two packages have a copy each of the loop that polls a transaction: the app and the
SDK. What they share is first, then the copy of the app. Numbers are exact here, and
the interval may be infinite; the answers of the server and the readings of the clock
are sequences.
-/
namespace YieldLadder
open Foundation

inductive GetTransactionStatus
  | notFound
  | success
  | failed
  deriving DecidableEq, Repr

structure WaitForTransactionOptions where
  pollIntervalMs : Option (WithTop ℚ)
  timeoutMs : Option ℚ

/-- What can be seen of a wait: the calls of `onStatus`, the polls with their answers, and the sleeps. -/
inductive PollEvent (S R : Type)
  | onStatus (status : S)
  | getTransaction (answer : Except R GetTransactionStatus)
  | sleep (ms : ℚ)

variable {S R E : Type}

def PollEvent.status? : PollEvent S R → Option S
  | .onStatus status => some status
  | _ => none

def PollEvent.answer? : PollEvent S R → Option (Except R GetTransactionStatus)
  | .getTransaction answer => some answer
  | _ => none

def PollEvent.mapStatus {S' : Type} (f : S → S') : PollEvent S R → PollEvent S' R
  | .onStatus status => .onStatus (f status)
  | .getTransaction answer => .getTransaction answer
  | .sleep ms => .sleep ms

/-- The interval doubled at each attempt, up to a maximum. -/
def backoff (baseIntervalMs : WithTop ℚ) (maxIntervalMs : ℚ) (attempt : ℕ) : ℚ :=
  match baseIntervalMs with
  | ⊤ => maxIntervalMs
  | (ms : ℚ) => min (ms * 2 ^ attempt) maxIntervalMs

theorem backoff_le (baseIntervalMs : WithTop ℚ) (maxIntervalMs : ℚ) (attempt : ℕ) :
    backoff baseIntervalMs maxIntervalMs attempt ≤ maxIntervalMs := by
  cases baseIntervalMs with
  | top => exact le_refl maxIntervalMs
  | coe ms => exact min_le_right _ _

theorem one_le_backoff {baseIntervalMs : WithTop ℚ} {maxIntervalMs : ℚ} (hbase : 1 ≤ baseIntervalMs)
    (hmax : 1 ≤ maxIntervalMs) (attempt : ℕ) : 1 ≤ backoff baseIntervalMs maxIntervalMs attempt := by
  cases baseIntervalMs with
  | top => exact hmax
  | coe ms =>
    have hms : 1 ≤ ms := WithTop.coe_le_coe.mp hbase
    have hpow : (1 : ℚ) ≤ 2 ^ attempt := one_le_pow₀ one_le_two
    exact le_min (one_le_mul_of_one_le_of_one_le hms hpow) hmax

/-- The poll is the loop's last: it is answered, or the deadline is past. -/
def Stops (deadline : ℚ) (answers : ℕ → Except R GetTransactionStatus) (clock : ℕ → ℚ) (attempt : ℕ) :
    Prop :=
  answers attempt = .ok .notFound → deadline ≤ clock (attempt + 1)

instance (deadline : ℚ) (answers : ℕ → Except R GetTransactionStatus) (clock : ℕ → ℚ) :
    DecidablePred (Stops deadline answers clock) := fun attempt =>
  match h : answers attempt with
  | .ok .notFound => decidable_of_iff (deadline ≤ clock (attempt + 1)) ⟨fun hle _ => hle, fun hstop => hstop h⟩
  | .ok .success => .isTrue fun hnone => nomatch h.symm.trans hnone
  | .ok .failed => .isTrue fun hnone => nomatch h.symm.trans hnone
  | .error _ => .isTrue fun hnone => nomatch h.symm.trans hnone

/-- The words that a copy has for the statuses, and its error classes. -/
structure Lifecycle (S E : Type) where
  pending : S
  confirmed : S
  failed : S
  expired : S
  transactionFailed : String → E
  transactionTimedOut : String → E

/-- What a copy does at its last poll. -/
def Lifecycle.last (v : Lifecycle S E) (hash : String) (answer : Except R GetTransactionStatus) :
    Traced (PollEvent S R) (R ⊕ E) Unit :=
  match answer with
  | .error rejection => ⟨[.getTransaction answer], .error (.inl rejection)⟩
  | .ok .success => ⟨[.getTransaction answer, .onStatus v.confirmed], .ok ()⟩
  | .ok .failed => ⟨[.getTransaction answer, .onStatus v.failed], .error (.inr (v.transactionFailed hash))⟩
  | .ok .notFound =>
    ⟨[.getTransaction answer, .onStatus v.expired], .error (.inr (v.transactionTimedOut hash))⟩

/-- What it does at any other. -/
def turn (baseIntervalMs : WithTop ℚ) (maxIntervalMs : ℚ) (answers : ℕ → Except R GetTransactionStatus)
    (attempt : ℕ) : List (PollEvent S R) :=
  [.getTransaction (answers attempt), .sleep (backoff baseIntervalMs maxIntervalMs attempt)]

/-- What both copies do. -/
def Lifecycle.poll (v : Lifecycle S E) (hash : String) (baseIntervalMs : WithTop ℚ) (maxIntervalMs deadline : ℚ)
    (answers : ℕ → Except R GetTransactionStatus) (clock : ℕ → ℚ) (attempt fuel : ℕ) :
    Option (Traced (PollEvent S R) (R ⊕ E) Unit) :=
  Traced.repeatUntil (Stops deadline answers clock) (fun n => v.last hash (answers n))
    (turn baseIntervalMs maxIntervalMs answers) attempt fuel

/-- What a wait of `polls` polls reports: its polls have the answers of the sequence, all but the last of them
`NOT_FOUND`, and the last one decides how it ends. -/
structure Reports (v : Lifecycle S E) (hash : String) (deadline : ℚ)
    (answers : ℕ → Except R GetTransactionStatus) (clock : ℕ → ℚ) (polls : ℕ)
    (wait : Traced (PollEvent S R) (R ⊕ E) Unit) : Prop where
  polled : 1 ≤ polls
  answered : wait.trace.filterMap PollEvent.answer? = (List.range polls).map answers
  earlier : ∀ n, n + 1 < polls → answers n = .ok .notFound
  success : ∀ n, n + 1 = polls → answers n = .ok .success →
    wait.result = .ok () ∧ wait.trace.filterMap PollEvent.status? = [v.pending, v.confirmed]
  failure : ∀ n, n + 1 = polls → answers n = .ok .failed →
    wait.result = .error (.inr (v.transactionFailed hash)) ∧
      wait.trace.filterMap PollEvent.status? = [v.pending, v.failed]
  rejection : ∀ n e, n + 1 = polls → answers n = .error e →
    wait.result = .error (.inl e) ∧ wait.trace.filterMap PollEvent.status? = [v.pending]
  expiry : ∀ n, n + 1 = polls → answers n = .ok .notFound →
    wait.result = .error (.inr (v.transactionTimedOut hash)) ∧
      wait.trace.filterMap PollEvent.status? = [v.pending, v.expired] ∧ deadline ≤ clock polls
  timedOut : wait.result = .error (.inr (v.transactionTimedOut hash)) →
    (∀ n < polls, answers n = .ok .notFound) ∧ deadline ≤ clock polls

section Reports
variable {v : Lifecycle S E} {hash : String} {baseIntervalMs : WithTop ℚ} {maxIntervalMs deadline : ℚ}
variable {answers : ℕ → Except R GetTransactionStatus} {clock : ℕ → ℚ} {n : ℕ}

theorem not_stops_iff : ¬Stops deadline answers clock n ↔
    answers n = .ok .notFound ∧ clock (n + 1) < deadline := by
  unfold Stops
  rw [Classical.not_imp, not_le]

theorem poll_last {attempt fuel : ℕ} (h : Stops deadline answers clock attempt) :
    v.poll hash baseIntervalMs maxIntervalMs deadline answers clock attempt (fuel + 1) =
      some (v.last hash (answers attempt)) :=
  if_pos h

theorem poll_answered {attempt fuel : ℕ} {answer : Except R GetTransactionStatus}
    (h : answers attempt = answer) (hanswer : answer ≠ .ok .notFound) :
    v.poll hash baseIntervalMs maxIntervalMs deadline answers clock attempt (fuel + 1) =
      some (v.last hash answer) := by
  rw [poll_last fun hnone => absurd (h.symm.trans hnone) hanswer, h]

theorem poll_again {attempt fuel : ℕ} (h : answers attempt = .ok .notFound)
    (hearly : ¬deadline ≤ clock (attempt + 1)) :
    v.poll hash baseIntervalMs maxIntervalMs deadline answers clock attempt (fuel + 1) =
      (v.poll hash baseIntervalMs maxIntervalMs deadline answers clock (attempt + 1) fuel).map
        (.after [.getTransaction (.ok .notFound), .sleep (backoff baseIntervalMs maxIntervalMs attempt)]) := by
  have hagain : ¬Stops deadline answers clock attempt := fun hstops => hearly (hstops h)
  rw [← h]
  exact if_neg hagain

/-- The loop as both copies have it written out. -/
theorem poll_succ (attempt fuel : ℕ) :
    v.poll hash baseIntervalMs maxIntervalMs deadline answers clock attempt (fuel + 1) =
      match answers attempt with
      | .error rejection => some ⟨[.getTransaction (.error rejection)], .error (.inl rejection)⟩
      | .ok .success => some ⟨[.getTransaction (.ok .success), .onStatus v.confirmed], .ok ()⟩
      | .ok .failed => some ⟨[.getTransaction (.ok .failed), .onStatus v.failed],
          .error (.inr (v.transactionFailed hash))⟩
      | .ok .notFound =>
        if deadline ≤ clock (attempt + 1) then
          some ⟨[.getTransaction (.ok .notFound), .onStatus v.expired],
            .error (.inr (v.transactionTimedOut hash))⟩
        else (v.poll hash baseIntervalMs maxIntervalMs deadline answers clock (attempt + 1) fuel).map <|
          .after [.getTransaction (.ok .notFound), .sleep (backoff baseIntervalMs maxIntervalMs attempt)] := by
  split
  · next hanswer => exact poll_answered hanswer (by simp)
  · next hanswer => exact poll_answered hanswer (by simp)
  · next hanswer => exact poll_answered hanswer (by simp)
  · next hanswer =>
    split
    · next hlate =>
      rw [poll_last fun _ => hlate, hanswer]
      rfl
    · next hearly => exact poll_again hanswer hearly

theorem filterMap_answer_turns :
    ((List.range n).flatMap (turn (S := S) baseIntervalMs maxIntervalMs answers)).filterMap
      PollEvent.answer? = (List.range n).map answers := by
  rw [List.filterMap_flatMap]
  exact List.map_eq_flatMap.symm

theorem filterMap_status_turns :
    ((List.range n).flatMap (turn (S := S) baseIntervalMs maxIntervalMs answers)).filterMap
      PollEvent.status? = [] := by
  rw [List.filterMap_flatMap]
  exact List.flatMap_eq_nil_iff.mpr fun _ _ => rfl

/-- All of a wait whose last poll is `n`. -/
def Lifecycle.waited (v : Lifecycle S E) (hash : String) (baseIntervalMs : WithTop ℚ) (maxIntervalMs : ℚ)
    (answers : ℕ → Except R GetTransactionStatus) (n : ℕ) : Traced (PollEvent S R) (R ⊕ E) Unit :=
  ((v.last hash (answers n)).after ((List.range n).flatMap (turn baseIntervalMs maxIntervalMs answers))).after
    [.onStatus v.pending]

theorem poll_eq_some {fuel : ℕ} (hstop : Stops deadline answers clock n)
    (hbefore : ∀ j < n, ¬Stops deadline answers clock j) (hfuel : n < fuel) :
    (v.poll hash baseIntervalMs maxIntervalMs deadline answers clock 0 fuel).map (.after [.onStatus v.pending]) =
      some (v.waited hash baseIntervalMs maxIntervalMs answers n) := by
  unfold Lifecycle.poll
  rw [Traced.repeatUntil_eq_some hstop hbefore hfuel]
  rfl

theorem last_answers (answer : Except R GetTransactionStatus) :
    (v.last hash answer).trace.filterMap PollEvent.answer? = [answer] := by
  cases answer with
  | error e => rfl
  | ok status => cases status <;> rfl

theorem waited_answers : (v.waited hash baseIntervalMs maxIntervalMs answers n).trace.filterMap
    PollEvent.answer? = (List.range (n + 1)).map answers := by
  simp only [Lifecycle.waited, Traced.after, List.filterMap_append, filterMap_answer_turns, last_answers]
  rw [List.range_succ, List.map_append]
  rfl

theorem waited_statuses : (v.waited hash baseIntervalMs maxIntervalMs answers n).trace.filterMap
    PollEvent.status? = v.pending :: (v.last hash (answers n)).trace.filterMap PollEvent.status? := by
  simp only [Lifecycle.waited, Traced.after, List.filterMap_append, filterMap_status_turns, List.nil_append]
  rfl

theorem waited_result :
    (v.waited hash baseIntervalMs maxIntervalMs answers n).result = (v.last hash (answers n)).result := rfl

theorem waited_reports (hne : v.transactionFailed hash ≠ v.transactionTimedOut hash)
    (hstop : Stops deadline answers clock n) (hbefore : ∀ j < n, ¬Stops deadline answers clock j) :
    Reports v hash deadline answers clock (n + 1) (v.waited hash baseIntervalMs maxIntervalMs answers n) := by
  have hearlier : ∀ j < n, answers j = .ok .notFound := fun j hj => (not_stops_iff.mp (hbefore j hj)).1
  refine ⟨n.succ_pos, waited_answers, fun j hj => hearlier j (Nat.lt_of_succ_lt_succ hj), ?_, ?_, ?_, ?_, ?_⟩
  · rintro m hm h
    obtain rfl : m = n := Nat.succ.inj hm
    rw [waited_result, waited_statuses, h]
    exact ⟨rfl, rfl⟩
  · rintro m hm h
    obtain rfl : m = n := Nat.succ.inj hm
    rw [waited_result, waited_statuses, h]
    exact ⟨rfl, rfl⟩
  · rintro m e hm h
    obtain rfl : m = n := Nat.succ.inj hm
    rw [waited_result, waited_statuses, h]
    exact ⟨rfl, rfl⟩
  · rintro m hm h
    obtain rfl : m = n := Nat.succ.inj hm
    rw [waited_result, waited_statuses, h]
    exact ⟨rfl, rfl, hstop h⟩
  · intro htimedOut
    have hnotFound : answers n = .ok .notFound := by
      rw [waited_result] at htimedOut
      cases h : answers n with
      | error e =>
        rw [h] at htimedOut
        cases htimedOut
      | ok status =>
        rw [h] at htimedOut
        cases status with
        | notFound => rfl
        | success => cases htimedOut
        | failed => exact absurd (Sum.inr.inj (Except.error.inj htimedOut)) hne
    refine ⟨fun j hj => ?_, hstop hnotFound⟩
    rcases Nat.lt_succ_iff_lt_or_eq.mp hj with hj | rfl
    · exact hearlier j hj
    · exact hnotFound

/-- The clock ends the loop: there is a last poll, and the timeout bounds its number. -/
theorem exists_last_poll {timeoutMs : ℚ} (answers : ℕ → Except R GetTransactionStatus)
    (hbase : 1 ≤ baseIntervalMs) (hmax : 1 ≤ maxIntervalMs) (htimeout : 0 ≤ timeoutMs)
    (hclock : Ticks clock (backoff baseIntervalMs maxIntervalMs)) :
    ∃ n : ℕ, ((n + 1 : ℕ) : ℚ) ≤ timeoutMs + 2 ∧ Stops (clock 0 + timeoutMs) answers clock n ∧
      ∀ j < n, ¬Stops (clock 0 + timeoutMs) answers clock j := by
  obtain ⟨m, hlate, hm⟩ := hclock.deadline (one_le_backoff hbase hmax) htimeout
  have hlast : Stops (clock 0 + timeoutMs) answers clock m := fun _ => hlate
  obtain ⟨n, hn, hstop, hbefore⟩ := exists_first hlast
  refine ⟨n, ?_, hstop, hbefore⟩
  have hle : (n : ℚ) ≤ m := Nat.cast_le.mpr hn
  push_cast
  linarith only [hle, hm]

end Reports

namespace Payment

def IntentStatus.text : IntentStatus → String
  | .idle => "idle"
  | .building => "building"
  | .awaitingSignature => "awaiting_signature"
  | .submitted => "submitted"
  | .pending => "pending"
  | .confirmed => "confirmed"
  | .failed => "failed"
  | .expired => "expired"

def DEFAULT_POLL_INTERVAL_MS : ℚ := 1500
def MAX_POLL_INTERVAL_MS : ℚ := 5000
def DEFAULT_POLL_TIMEOUT_MS : ℚ := 60000

/-- The loop of the app's copy from an attempt on; `clock 0` is the reading before the loop. -/
def pollFrom (hash : String) (baseIntervalMs : WithTop ℚ) (deadline : ℚ)
    (answers : ℕ → Except R GetTransactionStatus) (clock : ℕ → ℚ) (attempt : ℕ) :
    ℕ → Option (Traced (PollEvent IntentStatus R) (R ⊕ PaymentError) Unit)
  | 0 => none
  | fuel + 1 =>
    match answers attempt with
    | .error rejection => some ⟨[.getTransaction (.error rejection)], .error (.inl rejection)⟩
    | .ok .success => some ⟨[.getTransaction (.ok .success), .onStatus .confirmed], .ok ()⟩
    | .ok .failed => some ⟨[.getTransaction (.ok .failed), .onStatus .failed],
        .error (.inr (.transactionFailed hash))⟩
    | .ok .notFound =>
      if deadline ≤ clock (attempt + 1) then
        some ⟨[.getTransaction (.ok .notFound), .onStatus .expired],
          .error (.inr (.transactionTimedOut hash))⟩
      else (pollFrom hash baseIntervalMs deadline answers clock (attempt + 1) fuel).map <|
        .after [.getTransaction (.ok .notFound),
          .sleep (backoff baseIntervalMs MAX_POLL_INTERVAL_MS attempt)]

def waitForTransaction (hash : String) (opts : WaitForTransactionOptions)
    (answers : ℕ → Except R GetTransactionStatus) (clock : ℕ → ℚ) (fuel : ℕ) :
    Option (Traced (PollEvent IntentStatus R) (R ⊕ PaymentError) Unit) :=
  let baseIntervalMs := opts.pollIntervalMs.getD DEFAULT_POLL_INTERVAL_MS
  let timeoutMs := opts.timeoutMs.getD DEFAULT_POLL_TIMEOUT_MS
  let deadline := clock 0 + timeoutMs
  (pollFrom hash baseIntervalMs deadline answers clock 0 fuel).map (.after [.onStatus .pending])

/-- The words of the app. -/
def lifecycle : Lifecycle IntentStatus PaymentError where
  pending := .pending
  confirmed := .confirmed
  failed := .failed
  expired := .expired
  transactionFailed := .transactionFailed
  transactionTimedOut := .transactionTimedOut

theorem pollFrom_eq (hash : String) (baseIntervalMs : WithTop ℚ) (deadline : ℚ)
    (answers : ℕ → Except R GetTransactionStatus) (clock : ℕ → ℚ) (attempt fuel : ℕ) :
    pollFrom hash baseIntervalMs deadline answers clock attempt fuel =
      lifecycle.poll hash baseIntervalMs MAX_POLL_INTERVAL_MS deadline answers clock attempt fuel := by
  induction fuel generalizing attempt with
  | zero => rfl
  | succ fuel ih =>
    rw [poll_succ, ← ih]
    rfl

theorem waitForTransaction_eq (hash : String) (opts : WaitForTransactionOptions)
    (answers : ℕ → Except R GetTransactionStatus) (clock : ℕ → ℚ) (fuel : ℕ) :
    waitForTransaction hash opts answers clock fuel =
      (lifecycle.poll hash (opts.pollIntervalMs.getD DEFAULT_POLL_INTERVAL_MS) MAX_POLL_INTERVAL_MS
        (clock 0 + opts.timeoutMs.getD DEFAULT_POLL_TIMEOUT_MS) answers clock 0 fuel).map
          (.after [.onStatus lifecycle.pending]) :=
  congrArg (Option.map _) (pollFrom_eq _ _ _ _ _ _ _)

end Payment
end YieldLadder
