import Mathlib.Data.Nat.Notation

/-! # What a payment attempt can be rejected with

Every error class of the wallet and of the RPC client has its message and its advice
on retrying. Anything else that is thrown is advised like a failure before the
submission.
-/
namespace YieldLadder

/-- How safe it is to retry after an error. -/
inductive RetryClassification
  | retryableSafely
  | retryableWithNewIntent
  | notRetryable
  deriving DecidableEq, Repr

namespace Payment

/-- `error` is any other `Error`, `thrown` a value that is none. -/
inductive PaymentError
  | walletRejected
  | walletDisconnected
  | walletUnavailable (provider : String)
  | walletSigningFailed (rawError : String)
  | walletNetworkMismatch (expected actual : String)
  | rpcUnavailable (rawError : String)
  | rpcTimeout (rawError : String)
  | transactionFailed (hash : String)
  | transactionTimedOut (hash : String)
  | error (message : String)
  | thrown
  deriving DecidableEq, Repr

/-- The message of the error; a value that is no `Error` has the fallback of `classifyPaymentError`. -/
def PaymentError.message : PaymentError → String
  | .walletRejected => "You declined the request in your wallet."
  | .walletDisconnected => "Wallet disconnected before it could sign. Reconnect and try again."
  | .walletUnavailable provider => "No " ++ provider ++ " extension detected. Install it and reconnect."
  | .walletSigningFailed _ => "Signing failed. Please try again."
  | .walletNetworkMismatch expected actual =>
    "Your wallet is set to " ++ actual ++ ", but this app runs on " ++ expected ++
      ". Switch networks in your wallet and reconnect."
  | .rpcUnavailable _ => "Could not reach the Soroban RPC endpoint."
  | .rpcTimeout _ => "The Soroban RPC endpoint did not respond in time."
  | .transactionFailed hash => "Transaction " ++ hash ++ " was included but failed on-chain"
  | .transactionTimedOut hash => "Timed out waiting for transaction " ++ hash ++ " to confirm"
  | .error message => message
  | .thrown => "Transaction failed"

/-- The advice of the error's class; the last two have the one `classifyPaymentError` falls back to. -/
def PaymentError.retryClassification : PaymentError → RetryClassification
  | .walletRejected => .retryableSafely
  | .walletDisconnected => .retryableSafely
  | .walletUnavailable _ => .retryableSafely
  | .walletSigningFailed _ => .retryableSafely
  | .walletNetworkMismatch _ _ => .retryableSafely
  | .rpcUnavailable _ => .retryableSafely
  | .rpcTimeout _ => .retryableSafely
  | .transactionFailed _ => .retryableWithNewIntent
  | .transactionTimedOut _ => .retryableWithNewIntent
  | .error _ => .retryableSafely
  | .thrown => .retryableSafely

structure ClassifiedPaymentError where
  message : String
  retryClassification : RetryClassification
  deriving DecidableEq, Repr

def classifyPaymentError (e : PaymentError) : ClassifiedPaymentError := ⟨e.message, e.retryClassification⟩

/-- The errors that tell what became of a transaction, or that nobody knows. -/
def Conclusive : PaymentError → Prop
  | .transactionFailed _ => True
  | .transactionTimedOut _ => True
  | _ => False

theorem retryableSafely_iff {e : PaymentError} :
    e.retryClassification = .retryableSafely ↔ ¬Conclusive e := by
  cases e <;> simp [PaymentError.retryClassification, Conclusive]

end Payment
end YieldLadder
