import YieldLadder.Foundation.Numeral
import YieldLadder.Sdk.Utils

/-! # One contract call of the SDK

A call is built, simulated, signed and sent. The Stellar SDK, the RPC server and the
wallet are outside: each of their answers may be a value or a throw. What is asked of
the wallet and of the server is recorded with the answer.
-/
namespace YieldLadder.Sdk
open Foundation Foundation.EcmaScript

inductive Network
  | mainnet
  | testnet
  deriving DecidableEq, Repr

structure TransactionPipelineConfig where
  network : Network
  publicKey : String
  transactionTimeoutSeconds : Option ℕ

structure InvokeContractParams (V : Type) where
  contractId : String
  method : String
  args : List V

/-- What a simulation reports: an error, or what the transaction is assembled with. -/
inductive SimulateTransactionResponse (S : Type)
  | error (error : String)
  | success (simulation : S)

structure SignOptions where
  network : Network
  accountToSign : String
  deriving DecidableEq, Repr

/-- The Stellar SDK and the answers of the server, by attempt, and of the wallet. Accounts, contract
values, simulations and transactions are as the Stellar SDK has them. -/
structure Outside (A V S T : Type) where
  getAccount : (publicKey : String) → (attempt : ℕ) → Except Thrown A
  build : A → Network → InvokeContractParams V → (timeoutSeconds : ℕ) → Except Thrown T
  simulateTransaction : T → (attempt : ℕ) → Except Thrown (SimulateTransactionResponse S)
  assembleTransaction : T → SimulateTransactionResponse S → Except Thrown T
  toXDR : T → Except Thrown String
  signTransaction : String → SignOptions → Except Thrown String
  fromXDR : String → Network → Except Thrown T
  hash : T → Except Thrown String
  sendTransaction : T → Except Thrown SendTransactionResponse

/-- What the pipeline asks for, and what it is answered. -/
inductive Event (A S T : Type)
  | getAccount (answer : Except Thrown A)
  | simulateTransaction (tx : T) (answer : Except Thrown (SimulateTransactionResponse S))
  | sleep (upToMs : ℕ)
  | signTransaction (xdr : String) (answer : Except Thrown String)
  | sendTransaction (tx : T) (answer : Except Thrown SendTransactionResponse)

variable {A V S T : Type}

def Event.signs : Event A S T → Bool
  | .signTransaction _ _ => true
  | _ => false

def Event.sends : Event A S T → Bool
  | .sendTransaction _ _ => true
  | _ => false

def DEFAULT_TX_TIMEOUT_SECONDS : ℕ := 30

def RPC_RETRY_OPTIONS : RetryWithBackoffOptions where
  isRetryable := isTransientNetworkError

def toRpcErrorIfTransient (error : Thrown) : Thrown :=
  if isTransientNetworkError error then
    if isTimeoutError error then .ladder (.rpcTimeout error.raw) else .ladder (.rpcUnavailable error.raw)
  else error

/-- The digits of the contract's code, where the text has them right here. -/
def matchContractError (text : List Char) : Option (List Char) :=
  let opening := "Error(Contract,".toList
  if opening <+: text then
    match (text.drop opening.length).dropWhile (isWhiteSpace ·.toNat) with
    | '#' :: rest =>
      match rest.takeWhile Char.isDigit, rest.dropWhile Char.isDigit with
      | [], _ => none
      | digits, ')' :: _ => some digits
      | _, _ => none
    | _ => none
  else none

/-- The first match of `CONTRACT_ERROR_PATTERN` in the text, as the digits of the code. -/
def findContractError : List Char → Option (List Char)
  | [] => none
  | c :: rest => matchContractError (c :: rest) <|> findContractError rest

/-- The number that decimal digits stand for; the codes of the host are below `2 ^ 32`. -/
def number (digits : List Char) : ℕ := numeral 10 (digits.map Char.toNat)

def mapContractError (method : String) (code : ℕ) (rawError : String) : YieldLadderError :=
  match code with
  | 1 => .invalidTier
  | 2 => .belowMinDeposit
  | 3 => .lockNotExpired
  | 4 => if method = "relock" then .notYetMatured else .assetNotAllowed
  | 5 => .depositCapExceeded
  | 6 => .protocolPaused
  | 7 => .amountExceedsBalance
  | code => .vaultContract code rawError

def throwIfSimulationFailed (sim : SimulateTransactionResponse S) (method : String) :
    Except Thrown Unit :=
  match sim with
  | .success _ => .ok ()
  | .error error =>
    match findContractError error.toList with
    | some digits => .error (.ladder (mapContractError method (number digits) error))
    | none => .error (.ladder (.simulationFailed ("Simulating \"" ++ method ++ "\" failed: " ++ error) error))

def classifySignerError (error : Thrown) : YieldLadderError :=
  let message := toLowerCase error.raw
  if ["disconnect", "not connected", "no wallet", "no active"].any (occurs · message) then .walletDisconnected
  else if ["reject", "declin", "deni", "cancel", "user closed"].any (occurs · message) then .walletRejected
  else .walletSigningFailed error.raw

def tryComputeHash (outside : Outside A V S T) (tx : T) : Option String := (outside.hash tx).toOption

def isExpired (sendResult : SendTransactionResponse) : Bool := sendResult.errorResult = some "txTooLate"

def buildTransaction (outside : Outside A V S T) (config : TransactionPipelineConfig)
    (params : InvokeContractParams V) : Traced (Event A S T) Thrown T := do
  let sourceAccount ← (retryWithBackoff (fun attempt =>
    .call .getAccount (outside.getAccount config.publicKey attempt)) RPC_RETRY_OPTIONS .sleep).mapError
      toRpcErrorIfTransient
  let timeoutSeconds := config.transactionTimeoutSeconds.getD DEFAULT_TX_TIMEOUT_SECONDS
  .ofExcept (outside.build sourceAccount config.network params timeoutSeconds)

def simulateWithRetry (outside : Outside A V S T) (tx : T) :
    Traced (Event A S T) Thrown (SimulateTransactionResponse S) :=
  (retryWithBackoff (fun attempt =>
    .call (.simulateTransaction tx) (outside.simulateTransaction tx attempt)) RPC_RETRY_OPTIONS .sleep).mapError
      toRpcErrorIfTransient

/-- The first part of `doInvoke`, up to the signed envelope. -/
def prepareAndSign (outside : Outside A V S T) (config : TransactionPipelineConfig)
    (params : InvokeContractParams V) : Traced (Event A S T) Thrown T := do
  let rawTx ← buildTransaction outside config params
  let sim ← simulateWithRetry outside rawTx
  .ofExcept (throwIfSimulationFailed sim params.method)
  let prepared ← .ofExcept ((outside.assembleTransaction rawTx sim).mapError fun error =>
    .ladder (.simulationFailed ("Failed to assemble \"" ++ params.method ++ "\" from its simulation")
      error.raw))
  let signedXdr ← Traced.mapError (fun error => .ladder (classifySignerError error)) do
    let xdr ← .ofExcept (outside.toXDR prepared)
    .call (.signTransaction xdr) (outside.signTransaction xdr ⟨config.network, config.publicKey⟩)
  .ofExcept (outside.fromXDR signedXdr config.network)

/-- The rest of it. -/
def submit (outside : Outside A V S T) (params : InvokeContractParams V) (signedTx : T) :
    Traced (Event A S T) Thrown String := do
  let localHash := tryComputeHash outside signedTx
  let sendResult ← (Traced.call (.sendTransaction signedTx) (outside.sendTransaction signedTx)).mapError
    fun error => .ladder (.ambiguousSubmission localHash error.raw)
  .ofExcept <|
    if sendResult.status = .error then
      .error (.ladder (if isExpired sendResult then .transactionExpired
        else .submissionFailed ("\"" ++ params.method ++ "\" was rejected on submission") sendResult))
    else .ok sendResult.hash

def doInvoke (outside : Outside A V S T) (config : TransactionPipelineConfig)
    (params : InvokeContractParams V) : Traced (Event A S T) Thrown String := do
  let signedTx ← prepareAndSign outside config params
  submit outside params signedTx

/-- The phases before the submission go through, and this is the envelope that was signed. -/
def Signed (outside : Outside A V S T) (config : TransactionPipelineConfig)
    (params : InvokeContractParams V) (signedTx : T) : Prop :=
  ∃ account rawTx sim prepared xdr signedXdr,
    Resolves (outside.getAccount config.publicKey) RPC_RETRY_OPTIONS account ∧
    outside.build account config.network params
      (config.transactionTimeoutSeconds.getD DEFAULT_TX_TIMEOUT_SECONDS) = .ok rawTx ∧
    Resolves (outside.simulateTransaction rawTx) RPC_RETRY_OPTIONS sim ∧
    throwIfSimulationFailed sim params.method = .ok () ∧
    outside.assembleTransaction rawTx sim = .ok prepared ∧
    outside.toXDR prepared = .ok xdr ∧
    outside.signTransaction xdr ⟨config.network, config.publicKey⟩ = .ok signedXdr ∧
    outside.fromXDR signedXdr config.network = .ok signedTx

/-- What the outcome of a call promises about what was signed and sent. -/
structure Truthful (outside : Outside A V S T) (run : Traced (Event A S T) Thrown String) : Prop where
  signs : run.trace.countP Event.signs ≤ 1
  sends : run.trace.countP Event.sends ≤ 1
  accepted : ∀ hash, run.result = .ok hash → ∃ tx response,
    .sendTransaction tx (.ok response) ∈ run.trace ∧
      (response.status = .pending ∨ response.status = .duplicate)
  safe : ∀ error, run.result = .error error → error.retryClassification = some .retryableSafely →
    ∀ tx answer, .sendTransaction tx answer ∈ run.trace →
      ∃ response, answer = .ok response ∧ response.status = .error
  ambiguous : ∀ tx error, .sendTransaction tx (.error error) ∈ run.trace → ∃ hash rawError,
    run.result = .error (.ladder (.ambiguousSubmission hash rawError)) ∧
      (∀ own, outside.hash tx = .ok own → hash = some own) ∧
      (hash = none → ∃ thrown, outside.hash tx = .error thrown)

variable {outside : Outside A V S T} {config : TransactionPipelineConfig} {params : InvokeContractParams V}
variable {tx signedTx : T}

theorem buildTransaction_eq_ok : (buildTransaction outside config params).result = .ok tx ↔
    ∃ account, Resolves (outside.getAccount config.publicKey) RPC_RETRY_OPTIONS account ∧
      outside.build account config.network params
        (config.transactionTimeoutSeconds.getD DEFAULT_TX_TIMEOUT_SECONDS) = .ok tx := by
  simp only [buildTransaction, Traced.bind_result_eq_ok, Traced.mapError_result, mapError_eq_ok,
    retryWithBackoff_eq_ok, Traced.call_result, Traced.ofExcept_result]

theorem simulateWithRetry_eq_ok {sim : SimulateTransactionResponse S} :
    (simulateWithRetry outside tx).result = .ok sim ↔
      Resolves (outside.simulateTransaction tx) RPC_RETRY_OPTIONS sim := by
  simp only [simulateWithRetry, Traced.mapError_result, mapError_eq_ok, retryWithBackoff_eq_ok,
    Traced.call_result]

theorem prepareAndSign_eq_ok :
    (prepareAndSign outside config params).result = .ok signedTx ↔ Signed outside config params signedTx := by
  simp only [prepareAndSign, Traced.bind_result_eq_ok, buildTransaction_eq_ok, simulateWithRetry_eq_ok,
    Traced.ofExcept_result, Traced.mapError_result, mapError_eq_ok, Traced.call_result, Signed]
  constructor
  · rintro ⟨rawTx, ⟨account, haccount, hbuild⟩, sim, hsim, _, hsimulated, prepared, hprepared, signedXdr,
      ⟨xdr, hxdr, hsigned⟩, htx⟩
    exact ⟨account, rawTx, sim, prepared, xdr, signedXdr, haccount, hbuild, hsim, hsimulated, hprepared, hxdr,
      hsigned, htx⟩
  · rintro ⟨account, rawTx, sim, prepared, xdr, signedXdr, haccount, hbuild, hsim, hsimulated, hprepared, hxdr,
      hsigned, htx⟩
    exact ⟨rawTx, ⟨account, haccount, hbuild⟩, sim, hsim, (), hsimulated, prepared, hprepared, signedXdr,
      ⟨xdr, hxdr, hsigned⟩, htx⟩

theorem buildTransaction_all {P : Event A S T → Prop} (haccount : ∀ answer, P (.getAccount answer))
    (hsleep : ∀ ms, P (.sleep ms)) : (buildTransaction outside config params).All P :=
  Traced.All.bind (retryWithBackoff_all hsleep fun _ => .call (haccount _)).mapError fun _ _ => .ofExcept _

theorem simulateWithRetry_all {P : Event A S T → Prop} (hsimulate : ∀ answer, P (.simulateTransaction tx answer))
    (hsleep : ∀ ms, P (.sleep ms)) : (simulateWithRetry outside tx).All P :=
  (retryWithBackoff_all hsleep fun _ => .call (hsimulate _)).mapError

theorem prepareAndSign_sends_nothing :
    (prepareAndSign outside config params).All fun event => event.sends = false := by
  refine (buildTransaction_all (fun _ => rfl) fun _ => rfl).bind fun rawTx _ => ?_
  refine (simulateWithRetry_all (fun _ => rfl) fun _ => rfl).bind fun sim _ => ?_
  refine (Traced.All.ofExcept _).bind fun _ _ => (Traced.All.ofExcept _).bind fun prepared _ => ?_
  refine Traced.All.bind (.mapError (.bind (.ofExcept _) fun xdr _ => .call rfl)) fun signedXdr _ => ?_
  exact .ofExcept _

theorem prepareAndSign_signs_once :
    (prepareAndSign outside config params).trace.countP Event.signs ≤ 1 := by
  have hno : ∀ {α : Type} {x : Traced (Event A S T) Thrown α}, x.All (fun event => event.signs = false) →
      x.trace.countP Event.signs ≤ 0 := fun hx => (hx.countP_eq_zero fun _ hsigns => hsigns).le
  have hbuild : (buildTransaction outside config params).trace.countP Event.signs ≤ 0 :=
    hno (buildTransaction_all (fun _ => rfl) fun _ => rfl)
  refine Traced.countP_bind_le (m := 0) (n := 1) hbuild fun rawTx _ => ?_
  have hsimulate : (simulateWithRetry outside rawTx).trace.countP Event.signs ≤ 0 :=
    hno (simulateWithRetry_all (fun _ => rfl) fun _ => rfl)
  refine Traced.countP_bind_le (m := 0) (n := 1) hsimulate fun sim _ => ?_
  refine Traced.countP_bind_le (m := 0) (n := 1) (hno (.ofExcept _)) fun _ _ => ?_
  refine Traced.countP_bind_le (m := 0) (n := 1) (hno (.ofExcept _)) fun prepared _ => ?_
  refine Traced.countP_bind_le (m := 1) (n := 0) ?_ fun signedXdr _ => hno (.ofExcept _)
  rw [Traced.mapError_trace]
  refine Traced.countP_bind_le (m := 0) (n := 1) (hno (.ofExcept _)) fun xdr _ => ?_
  exact List.countP_le_length

theorem submit_of_error {error : Thrown} (hsend : outside.sendTransaction signedTx = .error error) :
    submit outside params signedTx = ⟨[.sendTransaction signedTx (.error error)],
      .error (.ladder (.ambiguousSubmission (tryComputeHash outside signedTx) error.raw))⟩ := by
  unfold submit
  rw [hsend]
  rfl

theorem submit_of_ok {response : SendTransactionResponse}
    (hsend : outside.sendTransaction signedTx = .ok response) :
    submit outside params signedTx = ⟨[.sendTransaction signedTx (.ok response)],
      if response.status = .error then
        .error (.ladder (if isExpired response then .transactionExpired
          else .submissionFailed ("\"" ++ params.method ++ "\" was rejected on submission") response))
      else .ok response.hash⟩ := by
  unfold submit
  rw [hsend]
  rfl

theorem submit_trace : (submit outside params signedTx).trace =
    [.sendTransaction signedTx (outside.sendTransaction signedTx)] := by
  cases hsend : outside.sendTransaction signedTx with
  | error error => rw [submit_of_error hsend]
  | ok response => rw [submit_of_ok hsend]

/-- The trace of a call that gets to the submission. -/
theorem doInvoke_of_ok (h : (prepareAndSign outside config params).result = .ok signedTx) :
    doInvoke outside config params = ⟨(prepareAndSign outside config params).trace ++
      [.sendTransaction signedTx (outside.sendTransaction signedTx)],
      (submit outside params signedTx).result⟩ := by
  unfold doInvoke
  rw [Traced.bind_of_ok h, submit_trace]

theorem sendTransaction_mem_iff {answer : Except Thrown SendTransactionResponse}
    (h : (prepareAndSign outside config params).result = .ok signedTx) :
    .sendTransaction tx answer ∈ (doInvoke outside config params).trace ↔
      tx = signedTx ∧ answer = outside.sendTransaction signedTx := by
  rw [doInvoke_of_ok h, List.mem_append, List.mem_singleton]
  constructor
  · rintro (hmem | heq)
    · exact absurd (prepareAndSign_sends_nothing _ hmem) Bool.noConfusion
    · injection heq with htx hanswer
      exact ⟨htx, hanswer⟩
  · rintro ⟨rfl, rfl⟩
    exact .inr rfl

theorem doInvoke_of_error {error : Thrown} (h : (prepareAndSign outside config params).result = .error error) :
    doInvoke outside config params = ⟨(prepareAndSign outside config params).trace, .error error⟩ :=
  Traced.bind_of_error h

theorem doInvoke_signs_once : (doInvoke outside config params).trace.countP Event.signs ≤ 1 := by
  refine Traced.countP_bind_le (m := 1) (n := 0) prepareAndSign_signs_once fun signedTx _ => ?_
  rw [submit_trace]
  exact Nat.le_refl 0

theorem doInvoke_sends_once : (doInvoke outside config params).trace.countP Event.sends ≤ 1 := by
  have hprepare : (prepareAndSign outside config params).trace.countP Event.sends = 0 :=
    prepareAndSign_sends_nothing.countP_eq_zero fun _ hsends => hsends
  refine Traced.countP_bind_le (m := 0) (n := 1) hprepare.le ?_
  intro signedTx _
  rw [submit_trace]
  exact List.countP_le_length

theorem signed_of_mem {answer : Except Thrown SendTransactionResponse}
    (hmem : .sendTransaction tx answer ∈ (doInvoke outside config params).trace) :
    Signed outside config params tx ∧ answer = outside.sendTransaction tx := by
  cases h : (prepareAndSign outside config params).result with
  | error error =>
    rw [doInvoke_of_error h] at hmem
    exact absurd (prepareAndSign_sends_nothing _ hmem) Bool.noConfusion
  | ok signedTx =>
    obtain ⟨rfl, hanswer⟩ := (sendTransaction_mem_iff h).mp hmem
    exact ⟨prepareAndSign_eq_ok.mp h, hanswer⟩

theorem resolved_of_ok {hash : String} (h : (doInvoke outside config params).result = .ok hash) :
    ∃ signedTx response, Signed outside config params signedTx ∧
      outside.sendTransaction signedTx = .ok response ∧ response.status ≠ .error := by
  obtain ⟨signedTx, hprepared, hsubmit⟩ := Traced.bind_result_eq_ok.mp h
  refine ⟨signedTx, ?_⟩
  cases hsend : outside.sendTransaction signedTx with
  | error error =>
    rw [submit_of_error hsend] at hsubmit
    cases hsubmit
  | ok response =>
    refine ⟨response, prepareAndSign_eq_ok.mp hprepared, rfl, fun herror => ?_⟩
    rw [submit_of_ok hsend, if_pos herror] at hsubmit
    cases hsubmit

theorem tryComputeHash_of_ok {own : String} (h : outside.hash tx = .ok own) :
    tryComputeHash outside tx = some own := by
  unfold tryComputeHash
  rw [h]
  rfl

theorem tryComputeHash_eq_none (h : tryComputeHash outside tx = none) :
    ∃ thrown, outside.hash tx = .error thrown := by
  cases hash : outside.hash tx with
  | error thrown => exact ⟨thrown, rfl⟩
  | ok own => cases h.symm.trans (tryComputeHash_of_ok hash)

/-- A call that fails in a way to be retried safely has sent nothing, or was answered with an error. -/
theorem answered_of_safe {error : Thrown} {answer : Except Thrown SendTransactionResponse}
    (hresult : (doInvoke outside config params).result = .error error)
    (hsafely : error.retryClassification = some .retryableSafely)
    (hmem : .sendTransaction tx answer ∈ (doInvoke outside config params).trace) :
    ∃ response, answer = .ok response ∧ response.status = .error := by
  obtain ⟨hsigned, rfl⟩ := signed_of_mem hmem
  rw [doInvoke_of_ok (prepareAndSign_eq_ok.mpr hsigned)] at hresult
  cases hsend : outside.sendTransaction tx with
  | error rejected =>
    rw [submit_of_error hsend] at hresult
    cases hresult
    cases hsafely
  | ok response =>
    refine ⟨response, rfl, not_not.mp fun hstatus => ?_⟩
    rw [submit_of_ok hsend, if_neg hstatus] at hresult
    cases hresult

/-- A submission without an answer is reported with the transaction's own hash. -/
theorem ambiguous_of_mem {error : Thrown}
    (hmem : .sendTransaction tx (.error error) ∈ (doInvoke outside config params).trace) :
    (doInvoke outside config params).result =
      .error (.ladder (.ambiguousSubmission (tryComputeHash outside tx) error.raw)) := by
  obtain ⟨hsigned, hanswer⟩ := signed_of_mem hmem
  rw [doInvoke_of_ok (prepareAndSign_eq_ok.mpr hsigned), submit_of_error hanswer.symm]

/-- The outcome of a call is truthful exactly when the server, where the call gets to the submission, does not
answer that it should be tried again later. -/
theorem doInvoke_truthful_iff : Truthful outside (doInvoke outside config params) ↔
    ∀ signedTx response, Signed outside config params signedTx →
      outside.sendTransaction signedTx = .ok response → response.status ≠ .tryAgainLater := by
  constructor
  · intro h signedTx response hsigned hsend hagain
    have hprepared := prepareAndSign_eq_ok.mpr hsigned
    have hresult : (doInvoke outside config params).result = .ok response.hash := by
      rw [doInvoke_of_ok hprepared, submit_of_ok hsend]
      exact if_neg (by rw [hagain]; exact nofun)
    obtain ⟨tx, accepted, hmem, hstatus⟩ := h.accepted _ hresult
    obtain ⟨rfl, hanswer⟩ := (sendTransaction_mem_iff hprepared).mp hmem
    cases hanswer.trans hsend
    rw [hagain] at hstatus
    exact hstatus.elim nofun nofun
  · intro h
    refine ⟨doInvoke_signs_once, doInvoke_sends_once, ?_,
      fun _ hresult hsafely _ _ hmem => answered_of_safe hresult hsafely hmem, ?_⟩
    · intro hash hresult
      obtain ⟨tx, response, hsigned, hsend, hstatus⟩ := resolved_of_ok hresult
      refine ⟨tx, response, ?_, ?_⟩
      · exact (sendTransaction_mem_iff (prepareAndSign_eq_ok.mpr hsigned)).mpr ⟨rfl, hsend.symm⟩
      · have hagain := h tx response hsigned hsend
        cases hanswer : response.status with
        | pending => exact .inl rfl
        | duplicate => exact .inr rfl
        | tryAgainLater => exact absurd hanswer hagain
        | error => exact absurd hanswer hstatus
    · intro tx error hmem
      exact ⟨_, error.raw, ambiguous_of_mem hmem, fun _ => tryComputeHash_of_ok, tryComputeHash_eq_none⟩

section Busy

/-- Every phase goes through up to the submission, which a busy server turns away. -/
def busy : Outside Unit Unit Unit Unit where
  getAccount _ _ := .ok ()
  build _ _ _ _ := .ok ()
  simulateTransaction _ _ := .ok (.success ())
  assembleTransaction _ _ := .ok ()
  toXDR _ := .ok "AAAA"
  signTransaction _ _ := .ok "AAAB"
  fromXDR _ _ := .ok ()
  hash _ := .ok "a1"
  sendTransaction _ := .ok ⟨.tryAgainLater, "a1", none⟩

theorem busy_resolves :
    (doInvoke busy ⟨.testnet, "GANNA", none⟩ ⟨"CROUTER", "deposit", []⟩).result = .ok "a1" ∧
    ¬Truthful busy (doInvoke busy ⟨.testnet, "GANNA", none⟩ ⟨"CROUTER", "deposit", []⟩) := by
  have hresult : (doInvoke busy ⟨.testnet, "GANNA", none⟩ ⟨"CROUTER", "deposit", []⟩).result = .ok "a1" := rfl
  refine ⟨hresult, fun h => ?_⟩
  obtain ⟨tx, response, hmem, hstatus⟩ := h.accepted "a1" hresult
  obtain ⟨_, hanswer⟩ := signed_of_mem hmem
  cases hanswer
  exact hstatus.elim nofun nofun

end Busy

end YieldLadder.Sdk
