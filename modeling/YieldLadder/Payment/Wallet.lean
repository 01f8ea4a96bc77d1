import YieldLadder.Payment.Rpc

/-! # The wallet behind the app

The adapter of the one wallet that is supported makes error classes of what the extension throws, by the
words of the message. The SDK does the same to what its signer throws, so an adapter that is its signer has
every failure classified twice: the second time by the message of the class it was given the first time.
-/
namespace YieldLadder.Payment
open Foundation Foundation.EcmaScript
open Sdk (Thrown)

inductive WalletProvider
  | freighter
  | lobstr
  | xbull
  deriving DecidableEq, Repr

inductive StellarNetwork
  | mainnet
  | testnet
  | futurenet
  deriving DecidableEq, Repr

def StellarNetwork.text : StellarNetwork → String
  | .mainnet => "mainnet"
  | .testnet => "testnet"
  | .futurenet => "futurenet"

structure WalletAccount where
  publicKey : String
  network : StellarNetwork
  deriving DecidableEq, Repr

structure SignTransactionOptions where
  network : Option StellarNetwork
  accountToSign : Option String
  deriving DecidableEq, Repr

def TARGET_NETWORK (configured : Option String) : String := configured.getD "testnet"

def IMPLEMENTED_WALLET_PROVIDERS : List WalletProvider := [.freighter]

/-- What the extension answers to a request for access; the error is as good as absent when it is empty. -/
structure Access where
  address : String
  error : Option String
  deriving DecidableEq, Repr

/-- The signed envelope, bare or in an object, by the version of the extension. -/
inductive SignedTransaction
  | bare (signedTxXdr : String)
  | object (signedTxXdr : String)
  deriving DecidableEq, Repr

def SignedTransaction.signedTxXdr : SignedTransaction → String
  | .bare signedTxXdr => signedTxXdr
  | .object signedTxXdr => signedTxXdr

/-- What the extension settles a request to sign with. -/
structure FreighterApi where
  signTransaction : (xdr : String) → (address : Option String) → Except Thrown SignedTransaction

def toStellarNetwork (network : String) : StellarNetwork :=
  let upper := toUpperCase network
  if upper = "TESTNET" then .testnet
  else if upper = "FUTURENET" then .futurenet
  else .mainnet

def classifyFreighterError (error : Thrown) : PaymentError :=
  let message := toLowerCase error.raw
  if ["disconnect", "not connected", "no wallet", "no active"].any (occurs · message) then .walletDisconnected
  else if ["reject", "declin", "deni", "cancel", "user closed"].any (occurs · message) then .walletRejected
  else .walletSigningFailed error.raw

/-- The error of a provider that has no adapter; a provider that has one is the only one that is implemented. -/
def getWalletAdapter (provider : WalletProvider) : Except PaymentError Unit :=
  if provider = .freighter then .ok ()
  else .error (.walletUnavailable (if provider = .lobstr then "LOBSTR" else "xBull"))

namespace FreighterAdapter

/-- The extension is in the page, or it is not. -/
def getFreighterApi {α : Type} (freighter : Option α) : Except PaymentError α :=
  expect (.walletUnavailable "Freighter") freighter

/-- What `connect` makes of the answer to its request for access. -/
def accessed (answer : Except Thrown Access) : Except PaymentError String := do
  let result ← answer.mapError classifyFreighterError
  match result.error with
  | some error =>
    failIf (error ≠ "") (classifyFreighterError (.error error))
    pure result.address
  | none => pure result.address

/-- What `connect` makes of the answer to its request for the network. -/
def connected (address : String) (answer : Except Thrown String) : Except PaymentError WalletAccount := do
  let network ← answer.mapError .ofThrown
  pure ⟨address, toStellarNetwork network⟩

def checked (expected : String) (answer : Except Thrown String) : Except PaymentError (Bool × StellarNetwork) := do
  let network ← answer.mapError .ofThrown
  pure (decide ((toStellarNetwork network).text = expected), toStellarNetwork network)

def signed (answer : Except Thrown SignedTransaction) : Except PaymentError String := do
  let result ← answer.mapError classifyFreighterError
  pure result.signedTxXdr

def signTransaction (freighter : Option FreighterApi) (xdr : String) (opts : SignTransactionOptions) :
    Except PaymentError String := do
  let api ← getFreighterApi freighter
  signed (api.signTransaction xdr opts.accountToSign)

end FreighterAdapter

section Signer
variable {A V S T : Type} {outside : Sdk.Outside A V S T} {config : Sdk.TransactionPipelineConfig}
variable {params : Sdk.InvokeContractParams V} {freighter : Option FreighterApi}

def StellarNetwork.ofSdk : Sdk.Network → StellarNetwork
  | .mainnet => .mainnet
  | .testnet => .testnet

/-- The adapter as the signer of the SDK, to which its errors are those of another package. -/
def FreighterAdapter.signer (freighter : Option FreighterApi) (xdr : String) (opts : Sdk.SignOptions) :
    Except Thrown String :=
  (signTransaction freighter xdr ⟨some (.ofSdk opts.network), some opts.accountToSign⟩).mapError fun error =>
    .error error.message

/-- The extension without the adapter: the envelope it answers with, or whatever it throws. -/
def FreighterApi.signer (freighter : Option FreighterApi) (xdr : String) (opts : Sdk.SignOptions) :
    Except Thrown String :=
  match freighter with
  | none => .error (.error (PaymentError.walletUnavailable "Freighter").message)
  | some api => (api.signTransaction xdr (some opts.accountToSign)).map SignedTransaction.signedTxXdr

/-- The SDK with the signer it is constructed with. -/
def signedBy (signer : String → Sdk.SignOptions → Except Thrown String) (outside : Sdk.Outside A V S T) :
    Sdk.Outside A V S T :=
  { outside with signTransaction := signer }

/-- The error without the text that a signer failed with. -/
def unsaid : Thrown → Thrown
  | .ladder (.walletSigningFailed _) => .ladder (.walletSigningFailed "")
  | e => e

def failure (e : Thrown) : Thrown := unsaid (.ladder (Sdk.classifySignerError e))

def taken : Sdk.Event A S T → Sdk.Event A S T
  | .signTransaction xdr answer => .signTransaction xdr (answer.mapError failure)
  | event => event

/-- The two packages have the same words for the same classes. -/
theorem classify_cases (e : Thrown) :
    (Sdk.classifySignerError e = .walletDisconnected ∧ classifyFreighterError e = .walletDisconnected) ∨
      (Sdk.classifySignerError e = .walletRejected ∧ classifyFreighterError e = .walletRejected) ∨
      (Sdk.classifySignerError e = .walletSigningFailed e.raw ∧
        classifyFreighterError e = .walletSigningFailed e.raw) := by
  unfold Sdk.classifySignerError classifyFreighterError
  dsimp only
  generalize ["disconnect", "not connected", "no wallet", "no active"].any
    (occurs · (toLowerCase e.raw)) = disconnected
  generalize ["reject", "declin", "deni", "cancel", "user closed"].any (occurs · (toLowerCase e.raw)) = rejected
  cases disconnected with
  | true => exact .inl ⟨rfl, rfl⟩
  | false =>
    cases rejected with
    | true => exact .inr (.inl ⟨rfl, rfl⟩)
    | false => exact .inr (.inr ⟨rfl, rfl⟩)

theorem failure_classifyFreighterError (e : Thrown) :
    failure (.error (classifyFreighterError e).message) = failure e := by
  unfold failure
  rcases classify_cases e with ⟨hsdk, happ⟩ | ⟨hsdk, happ⟩ | ⟨hsdk, happ⟩
  · rw [hsdk, happ]
    decide +kernel
  · rw [hsdk, happ]
    decide +kernel
  · have hfixed : failure (.error "Signing failed. Please try again.") = .ladder (.walletSigningFailed "") := by
      decide +kernel
    rw [hsdk, happ]
    exact hfixed

theorem signer_failure (xdr : String) (opts : Sdk.SignOptions) :
    (FreighterAdapter.signer freighter xdr opts).mapError failure =
      (FreighterApi.signer freighter xdr opts).mapError failure := by
  cases freighter with
  | none => rfl
  | some api =>
    have hadapter : FreighterAdapter.signer (some api) xdr opts =
        (FreighterAdapter.signed (api.signTransaction xdr (some opts.accountToSign))).mapError fun error =>
          .error error.message := rfl
    rw [hadapter, FreighterApi.signer]
    cases api.signTransaction xdr (some opts.accountToSign) with
    | ok answer => rfl
    | error e => exact congrArg Except.error (failure_classifyFreighterError e)

/-- The adapter is no different a signer than the extension itself: whatever the extension answers or throws, and
whether it is there at all, the SDK asks the same of everyone in the same order and ends with the same hash or the same
error, but for the text of a failure that is of no known class. -/
theorem doInvoke_adapter (outside : Sdk.Outside A V S T) (config : Sdk.TransactionPipelineConfig)
    (params : Sdk.InvokeContractParams V) (freighter : Option FreighterApi) :
    (Sdk.doInvoke (signedBy (FreighterAdapter.signer freighter) outside) config params).relabel taken unsaid =
      (Sdk.doInvoke (signedBy (FreighterApi.signer freighter) outside) config params).relabel taken unsaid := by
  have hsign : ∀ xdr, (Traced.call (.signTransaction xdr)
        (FreighterAdapter.signer freighter xdr ⟨config.network, config.publicKey⟩) :
          Traced (Sdk.Event A S T) Thrown String).relabel taken failure =
      (Traced.call (.signTransaction xdr)
        (FreighterApi.signer freighter xdr ⟨config.network, config.publicKey⟩)).relabel taken failure := by
    intro xdr
    simp only [Traced.relabel, Traced.call, List.map_singleton, taken, signer_failure]
  -- The signer is asked in one place: everything before it is the same, and what comes after gets the same envelope.
  refine Traced.relabel_bind_congr ?_ fun signedTx _ => rfl
  refine Traced.relabel_bind_congr rfl fun rawTx _ => Traced.relabel_bind_congr rfl fun sim _ => ?_
  refine Traced.relabel_bind_congr rfl fun _ _ => Traced.relabel_bind_congr rfl fun prepared _ => ?_
  refine Traced.relabel_bind_congr ?_ fun signedXdr _ => rfl
  rw [Traced.relabel_mapError, Traced.relabel_mapError]
  exact Traced.relabel_bind_congr rfl fun xdr _ => hsign xdr

end Signer

end YieldLadder.Payment
