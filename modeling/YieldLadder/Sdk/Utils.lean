import Mathlib.Algebra.Group.Nat.Defs
import YieldLadder.Foundation.EcmaScript
import YieldLadder.Foundation.Retry
import YieldLadder.Sdk.Errors

/-! # Retries of the calls before a submission

A call is made again only after a failure of the network, and a bounded number of
times. What the last attempt throws is thrown.
-/
namespace YieldLadder.Sdk
open Foundation Foundation.EcmaScript

def isTransientNetworkError : Thrown → Bool
  | .typeError _ => true
  | .domException name _ => name = "AbortError" || name = "TimeoutError"
  | thrown => ["network", "timeout", "timed out", "econnreset", "econnrefused", "etimedout", "enotfound",
      "eai_again", "fetch failed", "socket hang up"].any (occurs · (foldCase thrown.raw))

def isTimeoutError : Thrown → Bool
  | .domException name _ => name = "AbortError" || name = "TimeoutError"
  | thrown => ["timeout", "timed out", "etimedout"].any (occurs · (foldCase thrown.raw))

structure RetryWithBackoffOptions where
  maxAttempts : ℕ := 3
  baseDelayMs : ℕ := 300
  maxDelayMs : ℕ := 3000
  isRetryable : Thrown → Bool := fun _ => true

variable {E α : Type}

/-- The time slept is uniform below what is recorded. -/
def retryWithBackoff (fn : ℕ → Traced E Thrown α) (opts : RetryWithBackoffOptions) (sleep : ℕ → E) :
    Traced E Thrown α :=
  .retry (.value "undefined") opts.isRetryable
    (fun attempt => sleep (min (opts.baseDelayMs * 2 ^ attempt) opts.maxDelayMs)) fn 0 opts.maxAttempts

variable {opts : RetryWithBackoffOptions} {sleep : ℕ → E} {fn : ℕ → Traced E Thrown α} {a : α} {P : E → Prop}

theorem retryWithBackoff_all (hsleep : ∀ ms, P (sleep ms)) (hfn : ∀ k, (fn k).All P) :
    (retryWithBackoff fn opts sleep).All P :=
  Traced.retry_all (fun _ => hsleep _) hfn

/-- One of the attempts resolves, and all before it fail in a way that is retried. -/
def Resolves (fn : ℕ → Except Thrown α) (opts : RetryWithBackoffOptions) (a : α) : Prop :=
  ∃ k < opts.maxAttempts, fn k = .ok a ∧ ∀ j < k, ∃ e, fn j = .error e ∧ opts.isRetryable e = true

theorem retryWithBackoff_eq_ok : (retryWithBackoff fn opts sleep).result = .ok a ↔
    Resolves (fun k => (fn k).result) opts a := by
  unfold Resolves
  rcases Nat.eq_zero_or_pos opts.maxAttempts with hnone | hsome
  · simp only [retryWithBackoff, hnone, Nat.not_lt_zero, false_and, exists_false, iff_false]
    rintro ⟨⟩
  · refine (Traced.retry_result_iff hsome).trans ?_
    simp only [Nat.zero_add, reduceCtorEq, false_implies, implies_true, and_true]

end YieldLadder.Sdk
