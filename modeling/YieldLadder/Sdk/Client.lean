import YieldLadder.Foundation.Text
import YieldLadder.Sdk.InFlight
import YieldLadder.Sdk.Wire

/-! # The client over its pipeline

A deposit or an exit is handed to the pipeline under the caller's own key, or else under one that is made of
what is asked for. Calls come and settle in any order, and a call that joins one under way is given what
that one was started for.
-/
namespace YieldLadder.Sdk
open Foundation Foundation.EcmaScript

def Tier.text : Tier → String
  | .flex => "Flex"
  | .l3 => "L3"
  | .l6 => "L6"
  | .l12 => "L12"

/-- What is asked for; an exit has read its position by then. -/
inductive Operation
  | deposit (amount : String)
  | withdraw (raw : RawPosition)
  | earlyExit (raw : RawPosition)

structure Request where
  operation : Operation
  tier : Tier
  idempotencyKey : Option String

def Operation.method : Operation → String
  | .deposit _ => "deposit"
  | .withdraw _ => "withdraw"
  | .earlyExit _ => "early_exit"

def Operation.amount : Operation → String
  | .deposit amount => amount
  | .withdraw raw => ofCodeUnits (bigIntToString raw.principal)
  | .earlyExit raw => ofCodeUnits (bigIntToString raw.principal)

def defaultIdempotencyKey (options : YieldLadderOptions) (method : String) (tier : Tier) (amount : String) : String :=
  ":".intercalate [method, options.pipeline.publicKey, tier.text, options.assetContractId, amount]

def Request.key (options : YieldLadderOptions) (request : Request) : String :=
  request.idempotencyKey.getD
    (defaultIdempotencyKey options request.operation.method request.tier request.operation.amount)

variable {A V S T : Type}

/-- The `params` that an amount is invoked with. -/
def invocation (convert : Conversions S V) (options : YieldLadderOptions) (method : String) (tier : Tier)
    (amount : Except Thrown ℤ) : Except Thrown (InvokeContractParams V) := do
  let user ← convert.addressToScVal options.pipeline.publicKey
  let asset ← convert.addressToScVal options.assetContractId
  let x ← amount
  let value ← convert.amountToScVal x
  pure ⟨options.vaultRouterContractId, method, [user, convert.tierToScVal tier, asset, value]⟩

def Request.params (convert : Conversions S V) (options : YieldLadderOptions) (request : Request) :
    Except Thrown (InvokeContractParams V) :=
  match request.operation with
  | .deposit amount => do
    let stroops ← (Sdk.deposit (codeUnits amount) request.tier).mapError refused
    invocation convert options "deposit" request.tier (.ok stroops)
  | .withdraw raw =>
    let position := toPosition request.tier raw
    invocation convert options "withdraw" request.tier (expect (.error "SyntaxError") (bigInt position.principal))
  | .earlyExit raw =>
    let position := toPosition request.tier raw
    invocation convert options "early_exit" request.tier (expect (.error "SyntaxError") (bigInt position.principal))

/-- The call of the router that is meant. -/
def Operation.call (user : Address) (tier : Tier) (asset : Address) : Operation → Option VaultRouter.Call
  | .deposit amount => (toStroops (codeUnits amount)).map (.deposit user (tierToScVal tier) asset)
  | .withdraw raw => some (.withdraw user (tierToScVal tier) asset raw.principal)
  | .earlyExit raw => some (.earlyExit user (tierToScVal tier) asset raw.principal)

def Request.call (user asset : Address) (request : Request) : Option VaultRouter.Call :=
  request.operation.call user request.tier asset

def Operation.stroops : Operation → Option ℤ
  | .deposit amount => toStroops (codeUnits amount)
  | .withdraw raw => some raw.principal
  | .earlyExit raw => some raw.principal

/-- The same call where no other is in flight. -/
def Request.alone (outside : Outside A V S T) (convert : Conversions S V) (options : YieldLadderOptions)
    (request : Request) : Traced (Event A S T) Thrown String :=
  match request.operation with
  | .deposit amount => clientDeposit outside convert options (codeUnits amount) request.tier
  | .withdraw _ => withdraw outside convert options request.tier
  | .earlyExit _ => earlyExit outside convert options request.tier

/-- An exit has read its position from these answers. -/
def Request.Read (outside : Outside A V S T) (convert : Conversions S V) (options : YieldLadderOptions)
    (request : Request) : Prop :=
  ∀ raw, request.operation = .withdraw raw ∨ request.operation = .earlyExit raw →
    (queryTierPosition outside convert options options.pipeline.publicKey request.tier).result =
      .ok (toPosition request.tier raw)

/-- The pipeline, and what each of its runs was started with. -/
structure Client (V : Type) where
  pipeline : Pipeline
  asked : List (InvokeContractParams V)

namespace Client

def new : Client V := ⟨.empty, []⟩

/-- A run settles by the answers that it was given. -/
inductive Action (A V S T : Type)
  | call (request : Request)
  | settle (promise : ℕ) (outside : Outside A V S T)

def exec (convert : Conversions S V) (options : YieldLadderOptions) (s : Client V) :
    Action A V S T → Except (Thrown ⊕ Pipeline.Refusal) (Client V × Option ℕ)
  | .call request => do
    let params ← (request.params convert options).mapError .inl
    let r := Pipeline.invoke (some (request.key options)) s.pipeline
    let asked := if r.2 = s.pipeline.started.length then s.asked ++ [params] else s.asked
    pure (⟨r.1, asked⟩, some r.2)
  | .settle promise outside => do
    let params ← expect (.inr .notStarted) s.asked[promise]?
    let outcome := (doInvoke outside options.pipeline params).result
    let r ← (Pipeline.exec s.pipeline (.settle promise outcome)).mapError .inr
    pure (⟨r.1, s.asked⟩, none)

end Client

variable {outside : Outside A V S T} {convert : Conversions S V} {options : YieldLadderOptions}
variable {config : TransactionPipelineConfig} {params : InvokeContractParams V} {request request' : Request}
variable {method method' amount amount' hash : String} {tier tier' : Tier} {user asset : Address}

theorem Tier.text_inj : tier.text = tier'.text ↔ tier = tier' := by
  cases tier <;> cases tier' <;> decide

theorem colon_not_mem_text (tier : Tier) : ':' ∉ tier.text.toList := by
  cases tier <;> decide

theorem colon_not_mem_method (operation : Operation) : ':' ∉ operation.method.toList := by
  cases operation <;> simp [Operation.method]

/-- The default key tells what is asked for, whatever the account and the asset are called. -/
theorem defaultIdempotencyKey_inj (hm : ':' ∉ method.toList) (hm' : ':' ∉ method'.toList) :
    defaultIdempotencyKey options method tier amount = defaultIdempotencyKey options method' tier' amount' ↔
      method = method' ∧ tier = tier' ∧ amount = amount' := by
  have hkey : ∀ m t a, (defaultIdempotencyKey options m t a).toList = m.toList ++ ':' ::
      (options.pipeline.publicKey.toList ++ ':' :: (t.text.toList ++ ':' ::
        (options.assetContractId.toList ++ ':' :: a.toList))) := by
    intro m t a
    simp [defaultIdempotencyKey, String.intercalate_cons_cons, String.toList_append]
  rw [← String.toList_inj, hkey, hkey, separated_inj hm hm', List.append_cancel_left_eq, List.cons.injEq,
    separated_inj (colon_not_mem_text tier) (colon_not_mem_text tier'), List.append_cancel_left_eq, List.cons.injEq,
    String.toList_inj, String.toList_inj, String.toList_inj, Tier.text_inj]
  simp only [true_and]

theorem defaultIdempotencyKey_ne_empty : defaultIdempotencyKey options method tier amount ≠ "" := by
  intro h
  have hlist := congrArg String.toList h
  simp [defaultIdempotencyKey, String.intercalate_cons_cons, String.toList_append] at hlist

theorem key_ne_empty (hkey : request.idempotencyKey ≠ some "") : request.key options ≠ "" := by
  unfold Request.key
  cases hown : request.idempotencyKey with
  | none => exact defaultIdempotencyKey_ne_empty
  | some k =>
    rintro rfl
    exact hkey hown

theorem key_of_none (hown : request.idempotencyKey = none) : request.key options =
    defaultIdempotencyKey options request.operation.method request.tier request.operation.amount := by
  rw [Request.key, hown, Option.getD_none]

theorem Operation.call_congr {operation operation' : Operation} (hmethod : operation.method = operation'.method)
    (hamount : operation.amount = operation'.amount) :
    operation.call user tier asset = operation'.call user tier asset := by
  cases operation <;> cases operation' <;>
    simp_all [Operation.method, Operation.amount, Operation.call, ofCodeUnits_bigIntToString_inj]

theorem call_of_key (hown : request.idempotencyKey = none) (hown' : request'.idempotencyKey = none)
    (hkey : request.key options = request'.key options) : request.call user asset = request'.call user asset := by
  rw [key_of_none hown, key_of_none hown',
    defaultIdempotencyKey_inj (colon_not_mem_method _) (colon_not_mem_method _)] at hkey
  obtain ⟨hmethod, htier, hamount⟩ := hkey
  rw [Request.call, Request.call, htier, Operation.call_congr hmethod hamount]

theorem invocation_eq_ok {x : Except Thrown ℤ} : invocation convert options method tier x = .ok params ↔
    ∃ user asset amount value, convert.addressToScVal options.pipeline.publicKey = .ok user ∧
      convert.addressToScVal options.assetContractId = .ok asset ∧ x = .ok amount ∧
      convert.amountToScVal amount = .ok value ∧
      ⟨options.vaultRouterContractId, method, [user, convert.tierToScVal tier, asset, value]⟩ = params := by
  simp only [invocation, bind_eq_ok, pure_eq_ok]
  constructor
  · rintro ⟨user, huser, asset, hasset, amount, hamount, value, hvalue, rfl⟩
    exact ⟨user, asset, amount, value, huser, hasset, hamount, hvalue, rfl⟩
  · rintro ⟨user, asset, amount, value, huser, hasset, hamount, hvalue, rfl⟩
    exact ⟨user, huser, asset, hasset, amount, hamount, value, hvalue, rfl⟩

/-- A call that is alone is the run of what is handed to the pipeline, after the read of an exit. -/
theorem alone_eq (h : request.params convert options = .ok params) (hread : request.Read outside convert options) :
    (request.alone outside convert options).result = (doInvoke outside options.pipeline params).result := by
  obtain ⟨operation, tier, idempotencyKey⟩ := request
  have hexit : ∀ {method raw}, (operation = .withdraw raw ∨ operation = .earlyExit raw) →
      invocation convert options method tier (expect (.error "SyntaxError") (bigInt (toPosition tier raw).principal)) =
        .ok params →
      (exit outside convert options method tier).result = (doInvoke outside options.pipeline params).result := by
    intro method raw hoperation hinvocation
    obtain ⟨user, asset, x, value, huser, hasset, hx, hvalue, rfl⟩ := invocation_eq_ok.mp hinvocation
    unfold exit
    rw [Traced.bind_of_ok (hread raw hoperation), Traced.ofExcept_bind_of_ok huser, Traced.ofExcept_bind_of_ok hasset,
      Traced.ofExcept_bind_of_ok hx, Traced.ofExcept_bind_of_ok hvalue]
  cases operation with
  | deposit amount =>
    simp only [Request.params, bind_eq_ok] at h
    obtain ⟨stroops, hstroops, hinvocation⟩ := h
    obtain ⟨user, asset, x, value, huser, hasset, hx, hvalue, rfl⟩ := invocation_eq_ok.mp hinvocation
    obtain rfl := Except.ok.inj hx
    dsimp only [Request.alone]
    unfold clientDeposit
    rw [Traced.ofExcept_bind_of_ok hstroops, Traced.ofExcept_bind_of_ok huser, Traced.ofExcept_bind_of_ok hasset,
      Traced.ofExcept_bind_of_ok hvalue]
  | withdraw raw => exact hexit (.inl rfl) h
  | earlyExit raw => exact hexit (.inr rfl) h

/-- What is handed to the pipeline is read by the router as the call that is meant, as long as the amount is an
`i128`. -/
theorem decode_params {convert : Conversions S ScVal} {params : InvokeContractParams ScVal} (hwrites : Writes convert)
    (huser : convert.addressToScVal options.pipeline.publicKey = .ok (.address user))
    (hasset : convert.addressToScVal options.assetContractId = .ok (.address asset))
    (h : request.params convert options = .ok params) :
    ∃ args x call, params = ⟨options.vaultRouterContractId, request.operation.method, args⟩ ∧
      request.operation.stroops = some x ∧ request.call user asset = some call ∧
      (InI128 x → VaultRouter.decode request.operation.method args = some call) := by
  obtain ⟨operation, tier, idempotencyKey⟩ := request
  have hread : ∀ {method x}, invocation convert options method tier x = .ok params →
      ∃ amount args, x = .ok amount ∧ params = ⟨options.vaultRouterContractId, method, args⟩ ∧
        (InI128 amount →
          args = [.address user, ScVal.ofTier.encode (tierToScVal tier), .address asset, .i128 amount]) := by
    intro method x hx
    obtain ⟨account, token, amount, value, haccount, htoken, hamount, hvalue, rfl⟩ := invocation_eq_ok.mp hx
    obtain rfl := Except.ok.inj (huser.symm.trans haccount)
    obtain rfl := Except.ok.inj (hasset.symm.trans htoken)
    refine ⟨amount, _, hamount, rfl, fun hrange => ?_⟩
    obtain rfl := Except.ok.inj ((hwrites.amount amount hrange).symm.trans hvalue)
    rw [hwrites.tier]
  cases operation with
  | deposit amount =>
    simp only [Request.params, bind_eq_ok, mapError_eq_ok] at h
    obtain ⟨stroops, hdeposit, hinvocation⟩ := h
    obtain ⟨x, args, hx, hparams, hargs⟩ := hread hinvocation
    obtain rfl := Except.ok.inj hx
    have hstroops := (deposit_eq_ok.mp hdeposit).1
    refine ⟨args, stroops, _, hparams, hstroops, congrArg (Option.map _) hstroops, fun hrange => ?_⟩
    rw [hargs hrange]
    exact decode_args (.deposit user (tierToScVal tier) asset stroops)
  | withdraw raw =>
    obtain ⟨x, args, hx, hparams, hargs⟩ := hread h
    rw [toPosition, bigInt_bigIntToString, expect_some] at hx
    obtain rfl := Except.ok.inj hx
    refine ⟨args, raw.principal, _, hparams, rfl, rfl, fun hrange => ?_⟩
    rw [hargs hrange]
    exact decode_args (.withdraw user (tierToScVal tier) asset raw.principal)
  | earlyExit raw =>
    obtain ⟨x, args, hx, hparams, hargs⟩ := hread h
    rw [toPosition, bigInt_bigIntToString, expect_some] at hx
    obtain rfl := Except.ok.inj hx
    refine ⟨args, raw.principal, _, hparams, rfl, rfl, fun hrange => ?_⟩
    rw [hargs hrange]
    exact decode_args (.earlyExit user (tierToScVal tier) asset raw.principal)

theorem doInvoke_eq_ok : (doInvoke outside config params).result = .ok hash ↔
    ∃ tx response, Signed outside config params tx ∧ outside.sendTransaction tx = .ok response ∧
      response.status ≠ .error ∧ response.hash = hash := by
  have hsubmit : ∀ tx, (submit outside params tx).result = .ok hash ↔
      ∃ response, outside.sendTransaction tx = .ok response ∧ response.status ≠ .error ∧
        response.hash = hash := by
    intro tx
    cases hsend : outside.sendTransaction tx with
    | error error => simp [submit_of_error hsend]
    | ok response =>
      rw [submit_of_ok hsend]
      by_cases hstatus : response.status = .error <;> simp [hstatus]
  simp only [doInvoke, Traced.bind_result_eq_ok, prepareAndSign_eq_ok, hsubmit]
  constructor
  · rintro ⟨tx, hsigned, response, hsend, hstatus, hhash⟩
    exact ⟨tx, response, hsigned, hsend, hstatus, hhash⟩
  · rintro ⟨tx, response, hsigned, hsend, hstatus, hhash⟩
    exact ⟨tx, hsigned, response, hsend, hstatus, hhash⟩

namespace Client

variable {s s' : Client V} {promise : ℕ} {reply : Option ℕ} {calls : List (Action A V S T × Option ℕ)}

/-- What a step does: a call joins the run of its key or starts one of its own, or a run settles. -/
inductive Effect (convert : Conversions S V) (options : YieldLadderOptions) (s : Client V) (s' : Client V) :
    Action A V S T → Option ℕ → Prop
  | joined (request : Request) (promise : ℕ) (params : InvokeContractParams V)
      (hparams : request.params convert options = .ok params)
      (hunder : s.pipeline.UnderWay (request.key options) promise) (hstate : s' = s) :
      Effect convert options s s' (.call request) (some promise)
  | started (request : Request) (params : InvokeContractParams V)
      (hparams : request.params convert options = .ok params)
      (hstarted : s'.pipeline.started = s.pipeline.started ++ [⟨some (request.key options), none⟩])
      (hasked : s'.asked = s.asked ++ [params]) :
      Effect convert options s s' (.call request) (some s.pipeline.started.length)
  | settled (promise : ℕ) (outside : Outside A V S T) (params : InvokeContractParams V) (key : Option String)
      (hparams : s.asked[promise]? = some params) (hunder : s.pipeline.started[promise]? = some ⟨key, none⟩)
      (hstarted : s'.pipeline.started = s.pipeline.started.set promise
        ⟨key, some (doInvoke outside options.pipeline params).result⟩)
      (hasked : s'.asked = s.asked) :
      Effect convert options s s' (.settle promise outside) none

theorem exec_effect {action : Action A V S T} (hs : s.pipeline.Registered)
    (h : exec convert options s action = .ok (s', reply)) :
    s'.pipeline.Registered ∧ Effect convert options s s' action reply := by
  cases action with
  | call request =>
    simp only [exec, bind_eq_ok, mapError_eq_ok, pure_eq_ok, Prod.mk.injEq] at h
    obtain ⟨params, hparams, rfl, rfl⟩ := h
    have hstep : Pipeline.exec s.pipeline (.invoke (some (request.key options))) =
        .ok ((Pipeline.invoke (some (request.key options)) s.pipeline).1,
          some (Pipeline.invoke (some (request.key options)) s.pipeline).2) := rfl
    have heffect := Pipeline.exec_effect hs hstep
    refine ⟨hs.effect heffect, ?_⟩
    generalize Pipeline.invoke (some (request.key options)) s.pipeline = r at heffect
    obtain ⟨pipeline, promise⟩ := r
    cases heffect with
    | joined k existing haction _ hunder hstate hreply =>
      cases haction
      cases hreply
      have hold : promise ≠ s.pipeline.started.length :=
        Nat.ne_of_lt (List.getElem?_eq_some_iff.mp hunder).1
      dsimp only at hstate ⊢
      rw [hstate, if_neg hold]
      exact .joined request promise params hparams hunder rfl
    | started key haction _ _ hstarted hreply =>
      cases haction
      cases hreply
      exact .started request params hparams hstarted (if_pos rfl)
    | settled _ _ _ haction => cases haction
  | settle promise outside =>
    simp only [exec, bind_eq_ok, mapError_eq_ok, expect_eq_ok, pure_eq_ok, Prod.mk.injEq] at h
    obtain ⟨params, hparams, r, hstep, rfl, rfl⟩ := h
    have heffect := Pipeline.exec_effect hs hstep
    refine ⟨hs.effect heffect, ?_⟩
    cases heffect with
    | joined _ _ haction => cases haction
    | started _ haction => cases haction
    | settled _ _ key haction hunder _ hstarted _ =>
      cases haction
      exact .settled promise outside params key hparams hunder hstarted rfl

/-- The run of a promise: one of the calls that were given it has started it, for what it asks for, and it has
settled by the answers to just that. -/
structure Begun (convert : Conversions S V) (options : YieldLadderOptions) (s : Client V)
    (calls : List (Action A V S T × Option ℕ)) (promise : ℕ) (r : Started) (starter : Request)
    (params : InvokeContractParams V) : Prop where
  called : (.call starter, some promise) ∈ calls
  keyed : r.idempotencyKey = some (starter.key options)
  handed : starter.params convert options = .ok params
  asked : s.asked[promise]? = some params
  settled : ∀ outcome, r.outcome = some outcome → ∃ outside,
    (.settle promise outside, none) ∈ calls ∧ (doInvoke outside options.pipeline params).result = outcome

/-- What relates the state to the calls so far. -/
structure Faithful (convert : Conversions S V) (options : YieldLadderOptions) (s : Client V)
    (calls : List (Action A V S T × Option ℕ)) : Prop where
  registered : s.pipeline.Registered
  paired : s.asked.length = s.pipeline.started.length
  begun : ∀ (promise : ℕ) r, s.pipeline.started[promise]? = some r →
    ∃ starter params, Begun convert options s calls promise r starter params
  given : ∀ request (promise : ℕ), (.call request, some promise) ∈ calls →
    ∃ r, s.pipeline.started[promise]? = some r ∧ r.idempotencyKey = some (request.key options)

theorem Begun.append {r : Started} {starter : Request} {params : InvokeContractParams V}
    {e : Action A V S T × Option ℕ} (h : Begun convert options s calls promise r starter params)
    (hasked : s'.asked[promise]? = s.asked[promise]?) :
    Begun convert options s' (calls ++ [e]) promise r starter params where
  called := List.mem_append_left _ h.called
  keyed := h.keyed
  handed := h.handed
  asked := hasked.trans h.asked
  settled outcome houtcome := by
    obtain ⟨outside, hsettle, hresult⟩ := h.settled outcome houtcome
    exact ⟨outside, List.mem_append_left _ hsettle, hresult⟩

theorem faithful_new : Faithful convert options new ([] : List (Action A V S T × Option ℕ)) where
  registered := Pipeline.registered_empty
  paired := rfl
  begun promise r hr := by simp [new, Pipeline.empty] at hr
  given request promise hmem := by cases hmem

theorem Faithful.joined {request : Request} {action : Action A V S T} (hs : Faithful convert options s calls)
    (hunder : s.pipeline.UnderWay (request.key options) promise) (haction : action = .call request) :
    Faithful convert options s (calls ++ [(action, some promise)]) where
  registered := hs.registered
  paired := hs.paired
  begun other r hr := by
    obtain ⟨starter, params, hbegun⟩ := hs.begun other r hr
    exact ⟨starter, params, hbegun.append rfl⟩
  given request' other hmem := by
    rcases List.mem_append.mp hmem with hmem | hmem
    · exact hs.given request' other hmem
    · rw [List.mem_singleton, haction] at hmem
      cases hmem
      exact ⟨_, hunder, rfl⟩

theorem Faithful.started {request : Request} {params : InvokeContractParams V}
    (hs : Faithful convert options s calls) (hregistered : s'.pipeline.Registered)
    (hparams : request.params convert options = .ok params)
    (hstarted : s'.pipeline.started = s.pipeline.started ++ [⟨some (request.key options), none⟩])
    (hasked : s'.asked = s.asked ++ [params]) :
    Faithful convert options s' (calls ++ [(.call request, some s.pipeline.started.length)]) where
  registered := hregistered
  paired := by rw [hasked, hstarted, List.length_append, List.length_append, hs.paired, List.length_singleton,
    List.length_singleton]
  begun other r hr := by
    rw [hstarted] at hr
    by_cases hold : other < s.pipeline.started.length
    · rw [List.getElem?_append_left hold] at hr
      obtain ⟨starter, params', hbegun⟩ := hs.begun other r hr
      refine ⟨starter, params', hbegun.append ?_⟩
      rw [hasked, List.getElem?_append_left (hs.paired.symm ▸ hold)]
    · obtain rfl : other = s.pipeline.started.length := by
        have hlt := (List.getElem?_eq_some_iff.mp hr).1
        rw [List.length_append, List.length_singleton] at hlt
        omega
      rw [List.getElem?_concat_length] at hr
      obtain rfl := Option.some.inj hr
      have hcalled : (.call request, some s.pipeline.started.length) ∈
          calls ++ [(.call request, some s.pipeline.started.length)] :=
        List.mem_append_right _ List.mem_cons_self
      refine ⟨request, params, hcalled, rfl, hparams, ?_, fun outcome houtcome => by cases houtcome⟩
      rw [hasked, ← hs.paired, List.getElem?_concat_length]
  given request' other hmem := by
    rw [hstarted]
    rcases List.mem_append.mp hmem with hmem | hmem
    · obtain ⟨r, hr, hkey⟩ := hs.given request' other hmem
      exact ⟨r, (List.getElem?_append_left (List.getElem?_eq_some_iff.mp hr).1).trans hr, hkey⟩
    · cases List.mem_singleton.mp hmem
      exact ⟨_, List.getElem?_concat_length, rfl⟩

theorem Faithful.settled {params : InvokeContractParams V} {key : Option String}
    (hs : Faithful convert options s calls) (hregistered : s'.pipeline.Registered)
    (hparams : s.asked[promise]? = some params) (hunder : s.pipeline.started[promise]? = some ⟨key, none⟩)
    (hstarted : s'.pipeline.started = s.pipeline.started.set promise
      ⟨key, some (doInvoke outside options.pipeline params).result⟩)
    (hasked : s'.asked = s.asked) : Faithful convert options s' (calls ++ [(.settle promise outside, none)]) where
  registered := hregistered
  paired := by rw [hasked, hstarted, List.length_set, hs.paired]
  begun other r hr := by
    rw [hstarted] at hr
    by_cases hother : promise = other
    · subst hother
      rw [List.getElem?_set_self (List.getElem?_eq_some_iff.mp hunder).1] at hr
      obtain rfl := Option.some.inj hr
      obtain ⟨starter, params', hbegun⟩ := hs.begun promise _ hunder
      obtain rfl := Option.some.inj (hparams.symm.trans hbegun.asked)
      refine ⟨starter, params, List.mem_append_left _ hbegun.called, hbegun.keyed, hbegun.handed,
        hasked ▸ hparams, fun outcome houtcome => ?_⟩
      exact ⟨outside, List.mem_append_right _ List.mem_cons_self, Option.some.inj houtcome⟩
    · rw [List.getElem?_set_ne hother] at hr
      obtain ⟨starter, params', hbegun⟩ := hs.begun other r hr
      exact ⟨starter, params', hbegun.append (hasked ▸ rfl)⟩
  given request other hmem := by
    rcases List.mem_append.mp hmem with hmem | hmem
    · obtain ⟨r, hr, hkey⟩ := hs.given request other hmem
      rw [hstarted]
      by_cases hother : promise = other
      · subst hother
        obtain rfl := Option.some.inj (hunder.symm.trans hr)
        exact ⟨_, List.getElem?_set_self (List.getElem?_eq_some_iff.mp hunder).1, hkey⟩
      · exact ⟨r, (List.getElem?_set_ne hother).trans hr, hkey⟩
    · cases List.mem_singleton.mp hmem

theorem Faithful.step {action : Action A V S T} (hs : Faithful convert options s calls)
    (h : exec convert options s action = .ok (s', reply)) :
    Faithful convert options s' (calls ++ [(action, reply)]) := by
  obtain ⟨hregistered, heffect⟩ := exec_effect hs.registered h
  cases heffect with
  | joined request promise params hparams hunder hstate =>
    subst hstate
    exact hs.joined hunder rfl
  | started request params hparams hstarted hasked => exact hs.started hregistered hparams hstarted hasked
  | settled promise outside params key hparams hunder hstarted hasked =>
    exact hs.settled hregistered hparams hunder hstarted hasked

theorem run_faithful (cs : List (Action A V S T)) :
    Faithful convert options (run (exec convert options) new cs) (log (exec convert options) new cs) :=
  run_log_invariant faithful_new (fun _ _ _ _ hs h => hs.step h) cs

/-- A call with the key of a run under way is given its promise, and nothing else happens. -/
theorem joins (hs : s.pipeline.Registered) {params : InvokeContractParams V}
    (hparams : request.params convert options = .ok params)
    (hunder : s.pipeline.UnderWay (request.key options) promise) (hkey : request.key options ≠ "") :
    exec convert options s (.call request : Action A V S T) = .ok (s, some promise) := by
  have hentry : (dedupKey (some (request.key options))).bind s.pipeline.inFlight.get = some promise := by
    rw [Pipeline.dedupKey_some hkey, Option.bind_some]
    exact (hs _ promise).mpr ⟨hkey, hunder⟩
  have hold : promise ≠ s.pipeline.started.length := Nat.ne_of_lt (List.getElem?_eq_some_iff.mp hunder).1
  simp only [exec, hparams, Pipeline.invoke_existing hentry, if_neg hold]
  rfl

/-- What a promise resolves with is the hash of a transaction that the server has taken, and that was signed for the
call that started it: what is signed is read as the call that is meant as long as its amount is an `i128`, and the
call would have resolved with the same had it been alone. -/
structure Answered (convert : Conversions S ScVal) (options : YieldLadderOptions) (user asset : Address)
    (calls : List (Action A ScVal S T × Option ℕ)) (promise : ℕ) (hash : String) (starter : Request) (x : ℤ)
    (call : VaultRouter.Call) : Prop where
  called : (.call starter, some promise) ∈ calls
  asked : starter.operation.stroops = some x
  meant : starter.call user asset = some call
  sent : ∃ (outside : Outside A ScVal S T) (args : List ScVal) (tx : T) (response : SendTransactionResponse),
    (.settle promise outside, none) ∈ calls ∧
      Signed outside options.pipeline ⟨options.vaultRouterContractId, starter.operation.method, args⟩ tx ∧
      (InI128 x → VaultRouter.decode starter.operation.method args = some call) ∧
      outside.sendTransaction tx = .ok response ∧ response.status ≠ .error ∧ response.hash = hash ∧
      (starter.Read outside convert options → (starter.alone outside convert options).result = .ok hash)

/-- In whatever order the calls of a client come and settle: what the promise of a call resolves with is of a
transaction for what the call means, unless a key of the caller's own joined it to another; and a call with the key of
one that is under way starts nothing. -/
theorem run_answered {convert : Conversions S ScVal} (hwrites : Writes convert)
    (huser : convert.addressToScVal options.pipeline.publicKey = .ok (.address user))
    (hasset : convert.addressToScVal options.assetContractId = .ok (.address asset))
    (cs : List (Action A ScVal S T)) :
    let s := run (exec convert options) new cs
    let calls := log (exec convert options) new cs
    (∀ request (promise : ℕ) (r : Started) hash, (.call request, some promise) ∈ calls →
      s.pipeline.started[promise]? = some r → r.outcome = some (.ok hash) →
        ∃ starter x call, Answered convert options user asset calls promise hash starter x call ∧
          request.key options = starter.key options ∧
          (request.idempotencyKey = none → starter.idempotencyKey = none → request.call user asset = some call)) ∧
    ∀ request starter (promise : ℕ) (r : Started) params, (.call starter, some promise) ∈ calls →
      s.pipeline.started[promise]? = some r → r.outcome = none →
        request.params convert options = .ok params → request.key options = starter.key options →
        request.idempotencyKey ≠ some "" →
          exec convert options s (.call request : Action A ScVal S T) = .ok (s, some promise) := by
  intro s calls
  have hfaithful : Faithful convert options s calls := run_faithful cs
  constructor
  · intro request promise r hash hmem hr houtcome
    obtain ⟨starter, params, hbegun⟩ := hfaithful.begun promise r hr
    obtain ⟨args, x, call, rfl, hasked, hmeant, hdecode⟩ := decode_params hwrites huser hasset hbegun.handed
    obtain ⟨outside, hsettle, hresult⟩ := hbegun.settled _ houtcome
    obtain ⟨tx, response, hsigned, hsend, hstatus, hhash⟩ := doInvoke_eq_ok.mp hresult
    have hkey : request.key options = starter.key options := by
      obtain ⟨r', hr', hkey⟩ := hfaithful.given request promise hmem
      obtain rfl := Option.some.inj (hr.symm.trans hr')
      exact Option.some.inj (hkey.symm.trans hbegun.keyed)
    refine ⟨starter, x, call, ⟨hbegun.called, hasked, hmeant, ?_⟩, hkey, fun hown hown' => ?_⟩
    · exact ⟨outside, args, tx, response, hsettle, hsigned, hdecode, hsend, hstatus, hhash,
        fun hread => (alone_eq hbegun.handed hread).trans hresult⟩
    · exact (call_of_key hown hown' hkey).trans hmeant
  · intro request starter promise r params hmem hr houtcome hparams hkey hne
    obtain ⟨r', hr', hkey'⟩ := hfaithful.given starter promise hmem
    obtain rfl := Option.some.inj (hr.symm.trans hr')
    have hunder : s.pipeline.UnderWay (request.key options) promise := by
      obtain ⟨key, outcome⟩ := r
      obtain rfl : key = _ := hkey'
      obtain rfl : outcome = none := houtcome
      rw [hkey]
      exact hr
    exact joins hfaithful.registered hparams hunder (key_ne_empty hne)

open Deployment (usdc)

def doubled : Request := ⟨.earlyExit ⟨500_000_000, 500_000_000, 0⟩, .l3, none⟩

/-- Account 7 asks for its early exit twice in a row, and then the run settles. -/
def doubleClick : List (Action Unit ScVal ScVal (InvokeContractParams ScVal)) :=
  [.call doubled, .call doubled, .settle 0 wireOutside]

theorem run_answered_doubleClick : ∃ starter x call,
    Answered wireConversions harnessOptions (.account 7) usdc
      (log (exec wireConversions harnessOptions) new doubleClick) 0 "ab12" starter x call ∧
    doubled.key harnessOptions = starter.key harnessOptions := by
  have hmem : (.call doubled, some 0) ∈ log (exec wireConversions harnessOptions) new doubleClick :=
    List.mem_cons_self
  have hresolved : (run (exec wireConversions harnessOptions) new doubleClick).pipeline.started[0]? =
      some ⟨some (doubled.key harnessOptions), some (.ok "ab12")⟩ := rfl
  have huser : wireConversions.addressToScVal harnessOptions.pipeline.publicKey = .ok (.address (.account 7)) := rfl
  have hasset : wireConversions.addressToScVal harnessOptions.assetContractId = .ok (.address usdc) := rfl
  obtain ⟨starter, x, call, hanswered, hkey, _⟩ :=
    (run_answered wire_writes huser hasset doubleClick).1 doubled 0 _ "ab12" hmem hresolved rfl
  exact ⟨starter, x, call, hanswered, hkey⟩

end Client
end YieldLadder.Sdk
