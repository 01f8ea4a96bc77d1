import YieldLadder.Payment.Errors

/-! # What the SDK can reject with

Every error class of the SDK has its message and its advice on retrying. Whatever
else is thrown comes from the outside, and carries no advice.
-/
namespace YieldLadder.Sdk

/-- What the RPC server says to a transaction that is sent to it. -/
inductive SendTransactionStatus
  | pending
  | duplicate
  | tryAgainLater
  | error
  deriving DecidableEq, Repr

/-- `errorResult` is the name of the transaction result that comes with an error, if one does. -/
structure SendTransactionResponse where
  status : SendTransactionStatus
  hash : String
  errorResult : Option String
  deriving DecidableEq, Repr

inductive YieldLadderError
  | lockNotExpired
  | belowMinDeposit
  | invalidTier
  | assetNotAllowed
  | depositCapExceeded
  | protocolPaused
  | notYetMatured
  | amountExceedsBalance
  | vaultContract (code : ℕ) (rawError : String)
  | simulationFailed (message rawError : String)
  | transactionExpired
  | submissionFailed (message : String) (rawResponse : SendTransactionResponse)
  | transactionFailed (hash : String)
  | transactionTimedOut (hash : String)
  | rpcUnavailable (rawError : String)
  | rpcTimeout (rawError : String)
  | walletRejected
  | walletDisconnected
  | walletSigningFailed (rawError : String)
  | ambiguousSubmission (hash : Option String) (rawError : String)
  deriving DecidableEq, Repr

def YieldLadderError.message : YieldLadderError → String
  | .lockNotExpired => "Lock period has not expired yet"
  | .belowMinDeposit => "Amount is below the minimum deposit"
  | .invalidTier => "Unknown or unsupported tier"
  | .assetNotAllowed => "Asset is not on the deposit allowlist"
  | .depositCapExceeded => "Deposit would exceed the tier vault's TVL cap"
  | .protocolPaused => "Protocol is currently paused"
  | .notYetMatured => "Position has not matured yet"
  | .amountExceedsBalance => "Amount exceeds the available balance"
  | .vaultContract code _ => "Vault contract rejected the call (code " ++ toString code ++ ")"
  | .simulationFailed message _ => message
  | .transactionExpired => "Transaction expired before it could be submitted — please try again"
  | .submissionFailed message _ => message
  | .transactionFailed hash => "Transaction " ++ hash ++ " was included but failed on-chain"
  | .transactionTimedOut hash => "Timed out waiting for transaction " ++ hash ++ " to confirm"
  | .rpcUnavailable _ => "Could not reach the Soroban RPC endpoint"
  | .rpcTimeout _ => "The Soroban RPC endpoint did not respond in time"
  | .walletRejected => "You declined the request in your wallet"
  | .walletDisconnected => "Wallet disconnected before it could sign — please reconnect and try again"
  | .walletSigningFailed _ => "Signing failed"
  | .ambiguousSubmission _ _ =>
    "Submission may or may not have reached the network — check status before retrying"

def YieldLadderError.retryClassification : YieldLadderError → RetryClassification
  | .lockNotExpired => .notRetryable
  | .belowMinDeposit => .notRetryable
  | .invalidTier => .notRetryable
  | .assetNotAllowed => .notRetryable
  | .depositCapExceeded => .notRetryable
  | .protocolPaused => .notRetryable
  | .notYetMatured => .notRetryable
  | .amountExceedsBalance => .notRetryable
  | .vaultContract _ _ => .notRetryable
  | .simulationFailed _ _ => .notRetryable
  | .transactionExpired => .retryableSafely
  | .submissionFailed _ _ => .retryableSafely
  | .transactionFailed _ => .retryableWithNewIntent
  | .transactionTimedOut _ => .retryableWithNewIntent
  | .rpcUnavailable _ => .retryableSafely
  | .rpcTimeout _ => .retryableSafely
  | .walletRejected => .retryableSafely
  | .walletDisconnected => .retryableSafely
  | .walletSigningFailed _ => .retryableSafely
  | .ambiguousSubmission _ _ => .retryableWithNewIntent

/-- Whatever can be thrown: an error of the SDK, another `Error`, or a value that is none. -/
inductive Thrown
  | ladder (e : YieldLadderError)
  | typeError (message : String)
  | domException (name message : String)
  | error (message : String)
  | value (text : String)
  deriving DecidableEq, Repr

/-- `error.message` of an `Error`, and `String(error)` of anything else. -/
def Thrown.raw : Thrown → String
  | .ladder e => e.message
  | .typeError message => message
  | .domException _ message => message
  | .error message => message
  | .value text => text

def Thrown.retryClassification : Thrown → Option RetryClassification
  | .ladder e => some e.retryClassification
  | _ => none

end YieldLadder.Sdk
