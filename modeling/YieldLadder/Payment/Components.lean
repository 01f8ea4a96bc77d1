import YieldLadder.Payment.Tabs

/-! # The components in front of the storage

The deposit page and the early-exit modal create intents, find them again after a
load, and run submissions, each through the handlers its buttons call. The kind of
the payment is a parameter of both: the page deposits and the modal exits early.
Whatever the components do is a run of the tabs on the same storage.
-/
namespace YieldLadder.Payment
open Foundation

/-- The asset both components pay in, unless the environment names another. -/
def USDC_ASSET_CODE : String := "USDC"

inductive Layout
  | page
  | modal
  deriving DecidableEq, Repr

/-- The steps of the page: up to the trustline check, the confirmation, and the transaction states. -/
inductive PageStep
  | choosing
  | confirming
  | transacting
  deriving DecidableEq, Repr

inductive TxStatus
  | pending
  | confirmed
  | failed
  | expired
  deriving DecidableEq, Repr

/-- The React state of a component; a modal reads no `step`. -/
structure Component where
  layout : Layout
  kind : IntentKind
  step : PageStep
  status : Option TxStatus
  intent : Option PaymentIntent
  submitting : Bool

/-- The button that confirms is shown and enabled. -/
def Component.Offers (p : Component) : Prop :=
  p.submitting = false ∧ (p.layout = .page → p.step = .confirming) ∧
    (p.layout = .modal → p.status ≠ some .confirmed)

instance (p : Component) : Decidable p.Offers := inferInstanceAs (Decidable (_ ∧ (_ → _) ∧ (_ → _)))

/-- What the modal shows for an intent that it finds. -/
def TxStatus.rehydrated (status : IntentStatus) : TxStatus :=
  if status = .confirmed then .confirmed else if status = .failed then .failed else .pending

/-- The tabs with what is mounted in them. A component and the run it starts have one number. -/
structure App extends Tabs where
  components : ℕ → Option Component

namespace App

def empty : App := ⟨Tabs.empty, fun _ => none⟩

/-- What a user, the wallet and the network can make the components do. A component that is left behind
goes on with its run; a reload, or closing the tab, cuts the run off. -/
inductive Action
  | loadPage (n : ℕ) (kind : IntentKind) (address : WalletAddress) (tier : String)
  | openModal (n : ℕ) (kind : IntentKind) (address : WalletAddress) (tier principal nonce : String)
  | enterConfirmStep (n : ℕ) (address : WalletAddress) (tier amount nonce : String)
  | back (n : ℕ)
  | confirm (n : ℕ)
  | markAwaitingSignature (n : ℕ)
  | markSubmitted (n : ℕ) (txHash : String)
  | markPending (n : ℕ)
  | markConfirmed (n : ℕ)
  | markFailed (n : ℕ) (error : String)
  | markExpired (n : ℕ) (error : String)
  | retry (n : ℕ)
  | leave (n : ℕ)
  | reload (n : ℕ)

structure Invocation where
  now : ℕ
  action : Action

def component (s : App) (n : ℕ) : Except Tabs.Refusal Component := expect .outOfOrder (s.components n)

def mount (s : App) (n : ℕ) (p : Component) : App :=
  { s with components := Function.update s.components n (some p) }

def update (s : App) (n : ℕ) (f : Component → Component) : App :=
  { s with components := Function.update s.components n ((s.components n).map f) }

/-- The mount of the page: an intent that is still under way is shown as pending. -/
def loadPage (s : App) (n : ℕ) (kind : IntentKind) (address : WalletAddress) (tier : String) :
    Except Tabs.Refusal App := do
  failIf ((s.components n).isSome = true ∨ (s.runs n).isSome = true) .runTaken
  pure (s.mount n (match findActiveIntent kind address tier s.storage with
    | some active => ⟨.page, kind, .transacting, some .pending, some active, false⟩
    | none => ⟨.page, kind, .choosing, none, none, false⟩))

/-- The modal keeps its state while it is closed. -/
def openModal (s : App) (n : ℕ) (now : ℕ) (kind : IntentKind) (address : WalletAddress)
    (tier principal nonce : String) : Except Tabs.Refusal App := do
  failIf ((s.components n).map Component.layout = some .page ∨
    (s.components n).isNone = true ∧ (s.runs n).isSome = true) .runTaken
  let submitting := ((s.components n).map Component.submitting).getD false
  match findActiveIntent kind address tier s.storage with
  | some active =>
    pure (s.mount n ⟨.modal, kind, .choosing, some (.rehydrated active.status), some active, submitting⟩)
  | none => do
    failIf ((loadIntent (buildIntentKey kind address tier USDC_ASSET_CODE principal nonce)
      s.storage).isSome = true) .keyTaken
    let (created, storage) :=
      createIntent kind address tier USDC_ASSET_CODE principal nonce now s.storage
    pure ({ s with storage }.mount n ⟨.modal, kind, .choosing, none, some created, submitting⟩)

/-- The trustline check is awaited, so this may come late, with the tier and the amount of its call. -/
def enterConfirmStep (s : App) (n : ℕ) (now : ℕ) (address : WalletAddress) (tier amount nonce : String) :
    Except Tabs.Refusal App := do
  let p ← s.component n
  failIf (p.layout = .modal) .outOfOrder
  failIf ((loadIntent (buildIntentKey p.kind address tier USDC_ASSET_CODE amount nonce)
    s.storage).isSome = true) .keyTaken
  let (created, storage) := createIntent p.kind address tier USDC_ASSET_CODE amount nonce now s.storage
  pure ({ s with storage }.mount n { p with intent := some created, step := .confirming })

/-- `handleConfirm` of the page and `handleExitEarly` of the modal, up to the first mark. -/
def confirm (s : App) (n : ℕ) (now : ℕ) : Except Tabs.Refusal (App × Option PaymentIntent) := do
  let p ← s.component n
  failIf (¬p.Offers) .outOfOrder
  let intent ← expect .outOfOrder p.intent
  match beginSubmission intent now s.storage with
  | none => pure (s, none)
  | some (started, storage) =>
    let runs := Function.update s.runs n (some ⟨.started, started, started⟩)
    pure ({ s with storage, runs }.mount n { p with
      intent := some started, submitting := true, step := .transacting, status := some .pending },
      some started)

def settle (s : App) (n : ℕ) (status : TxStatus) (result : PaymentIntent × Storage) : App :=
  { s with storage := result.2, runs := Function.update s.runs n none }.update n fun p =>
    { p with intent := some result.1, status := some status, submitting := false }

/-- The `catch` of `runPaymentSubmission`, which is entered after the first mark. -/
def caught (s : App) (n : ℕ) : Except Tabs.Refusal Run := do
  let r ← expect .outOfOrder (s.runs n)
  failIf (r.stage = .started) .outOfOrder
  pure r

def handleRetry (s : App) (n : ℕ) : Except Tabs.Refusal App := do
  let p ← s.component n
  failIf (p.layout = .modal ∨ p.step ≠ .transacting) .outOfOrder
  failIf (p.status ≠ some .failed ∧ p.status ≠ some .expired) .outOfOrder
  pure (s.mount n { p with status := none, step := .confirming })

def exec (s : App) (c : Invocation) : Except Tabs.Refusal (App × Option PaymentIntent) :=
  match c.action with
  | .loadPage n kind address tier => do
    let s' ← s.loadPage n kind address tier
    pure (s', none)
  | .openModal n kind address tier principal nonce => do
    let s' ← s.openModal n c.now kind address tier principal nonce
    pure (s', none)
  | .enterConfirmStep n address tier amount nonce => do
    let s' ← s.enterConfirmStep n c.now address tier amount nonce
    pure (s', none)
  | .back n => do
    let p ← s.component n
    failIf (p.layout = .modal ∨ p.step ≠ .confirming) .outOfOrder
    pure (s.mount n { p with step := .choosing }, none)
  | .confirm n => s.confirm n c.now
  | .markAwaitingSignature n => do
    let r ← Tabs.runAt s.toTabs n .started
    let (awaiting, storage) := markAwaitingSignature r.latest c.now s.storage
    let runs := Function.update s.runs n (some ⟨.awaitingSignature, awaiting, awaiting⟩)
    pure ({ s with storage, runs }.update n ({ · with intent := some awaiting }), none)
  | .markSubmitted n txHash => do
    let r ← Tabs.runAt s.toTabs n .awaitingSignature
    let (submitted, storage) := markSubmitted r.latest txHash c.now s.storage
    let runs := Function.update s.runs n (some ⟨.submitted, r.awaiting, submitted⟩)
    pure ({ s with storage, runs }, none)
  | .markPending n => do
    let r ← Tabs.runAt s.toTabs n .submitted
    let (pending, storage) := markPending r.latest c.now s.storage
    let runs := Function.update s.runs n (some ⟨.pending, r.awaiting, pending⟩)
    pure ({ s with storage, runs }, none)
  | .markConfirmed n => do
    let r ← Tabs.runAt s.toTabs n .pending
    pure (s.settle n .confirmed (markConfirmed r.latest c.now s.storage), none)
  | .markFailed n error => do
    let r ← s.caught n
    pure (s.settle n .failed (markFailed r.awaiting error c.now s.storage), none)
  | .markExpired n error => do
    let r ← s.caught n
    pure (s.settle n .expired (markExpired r.awaiting error c.now s.storage), none)
  | .retry n => do
    let s' ← s.handleRetry n
    pure (s', none)
  | .leave n => pure ({ s with components := Function.update s.components n none }, none)
  | .reload n => pure ({ s with
      runs := Function.update s.runs n none, components := Function.update s.components n none }, none)

/-- The action of the tabs that an action of the components comes down to, if any. -/
def projection (s : App) (c : Invocation) : Option Tabs.Invocation :=
  match c.action with
  | .loadPage _ kind address tier => some ⟨c.now, .findActiveIntent kind address tier⟩
  | .openModal _ kind address tier principal nonce =>
    match findActiveIntent kind address tier s.storage with
    | some _ => some ⟨c.now, .findActiveIntent kind address tier⟩
    | none => some ⟨c.now, .createIntent kind address tier USDC_ASSET_CODE principal nonce⟩
  | .enterConfirmStep n address tier amount nonce =>
    (s.components n).map fun p => ⟨c.now, .createIntent p.kind address tier USDC_ASSET_CODE amount nonce⟩
  | .confirm n => (s.components n).bind fun p => p.intent.map fun i => ⟨c.now, .beginSubmission n i⟩
  | .markAwaitingSignature n => some ⟨c.now, .markAwaitingSignature n⟩
  | .markSubmitted n txHash => some ⟨c.now, .markSubmitted n txHash⟩
  | .markPending n => some ⟨c.now, .markPending n⟩
  | .markConfirmed n => some ⟨c.now, .markConfirmed n⟩
  | .markFailed n error => some ⟨c.now, .markFailed n error⟩
  | .markExpired n error => some ⟨c.now, .markExpired n error⟩
  | .back _ => none
  | .retry _ => none
  | .leave _ => none
  | .reload n => some ⟨c.now, .reload n⟩

/-- What ties the components to the tabs: an intent they hold is a copy of a stored one, a component
submits while its run is under way, and there are numbers left. -/
structure Linked (s : App) : Prop where
  exclusive : Tabs.Exclusive s.toTabs
  copies : ∀ n p i, s.components n = some p → p.intent = some i → Tabs.copyOf i s.storage = .ok ()
  submitting : ∀ n p, s.components n = some p → (p.submitting = true ↔ (s.runs n).isSome = true)
  fresh : ∃ N, ∀ n, N ≤ n → s.components n = none ∧ s.runs n = none

/-- What a step does: an action of the tabs that answers `o`, or none, and a change of component `n`,
which then holds an intent it held before or the answer. -/
structure Effect (s : App) (c : Invocation) (s' : App) (n : ℕ) (o : Option PaymentIntent) : Prop where
  tabs : projection s c = none ∧ s'.toTabs = s.toTabs ∧ o = none ∨
    ∃ d, projection s c = some d ∧ Tabs.exec s.toTabs d = .ok (s'.toTabs, o)
  runs : ∀ m, m ≠ n → s'.runs m = s.runs m
  components : ∀ m, m ≠ n → s'.components m = s.components m
  submitting : ∀ p, s'.components n = some p → (p.submitting = true ↔ (s'.runs n).isSome = true)
  intent : ∀ p i, s'.components n = some p → p.intent = some i →
    (∃ q, s.components n = some q ∧ q.intent = some i) ∨ o = some i

variable {s s' : App} {c : Invocation} {r : App × Option PaymentIntent} {n now : ℕ} {p : Component}
variable {i : PaymentIntent} {o : Option PaymentIntent} {kind : IntentKind} {address : WalletAddress}
variable {tier amount nonce : String}

/-- A step that writes the run and the component of number `n` and no other. -/
theorem Effect.of_update {run : Option Run} {q : Option Component}
    (htabs : projection s c = none ∧ s'.toTabs = s.toTabs ∧ o = none ∨
      ∃ d, projection s c = some d ∧ Tabs.exec s.toTabs d = .ok (s'.toTabs, o))
    (hruns : s'.runs = Function.update s.runs n run)
    (hcomponents : s'.components = Function.update s.components n q)
    (hsub : ∀ p, q = some p → (p.submitting = true ↔ run.isSome = true))
    (hintent : ∀ p i, q = some p → p.intent = some i →
      (∃ p', s.components n = some p' ∧ p'.intent = some i) ∨ o = some i) : Effect s c s' n o := by
  have hrun : s'.runs n = run := by rw [hruns, Function.update_self]
  have hcomponent : s'.components n = q := by rw [hcomponents, Function.update_self]
  constructor
  · exact htabs
  · intro m hm
    rw [hruns, Function.update_of_ne hm]
  · intro m hm
    rw [hcomponents, Function.update_of_ne hm]
  · intro p hp
    rw [hrun]
    exact hsub p (hcomponent.symm.trans hp)
  · intro p i hp
    exact hintent p i (hcomponent.symm.trans hp)

theorem Effect.still (hl : Linked s) (hproj : projection s c = none) (hp : s.components n = some p)
    {q : Component} (hsub : q.submitting = p.submitting) (hintent : q.intent = p.intent) :
    Effect s c (s.mount n q) n none := by
  refine .of_update (.inl ⟨hproj, rfl, rfl⟩) (Function.update_eq_self n s.runs).symm rfl ?_ ?_
  · rintro _ ⟨⟩
    rw [hsub]
    exact hl.submitting n p hp
  · rintro _ i ⟨⟩ hi
    exact .inl ⟨p, hp, hintent ▸ hi⟩

/-- A component that takes the answer of the tabs, or keeps what it had, while no run changes. -/
theorem Effect.answered {d : Tabs.Invocation} {q : Component} {storage : Storage}
    (hproj : projection s c = some d)
    (htabs : Tabs.exec s.toTabs d = .ok (⟨storage, s.runs⟩, o)) (hintent : q.intent = o)
    (hsub : q.submitting = true ↔ (s.runs n).isSome = true) :
    Effect s c (({ s with storage } : App).mount n q) n o := by
  refine .of_update (.inr ⟨d, hproj, htabs⟩) (Function.update_eq_self n s.runs).symm rfl ?_ ?_
  · rintro _ ⟨⟩
    exact hsub
  · rintro _ i ⟨⟩ hi
    exact .inr (hintent.symm.trans hi)

theorem tabs_create (hfresh : ¬(loadIntent (buildIntentKey kind address tier USDC_ASSET_CODE amount nonce)
    s.storage).isSome = true) :
    Tabs.exec s.toTabs ⟨now, .createIntent kind address tier USDC_ASSET_CODE amount nonce⟩ =
      .ok (⟨(createIntent kind address tier USDC_ASSET_CODE amount nonce now s.storage).2, s.runs⟩,
        some (createIntent kind address tier USDC_ASSET_CODE amount nonce now s.storage).1) := by
  simp only [Tabs.exec, failIf_of_not hfresh, ok_bind]
  rfl

/-- A step that hands the run `n` on, and the component the marked intent or nothing new. -/
theorem Effect.marked {d : Tabs.Invocation} {storage : Storage} {run run' : Run} {f : Component → Component}
    (hl : Linked s) (hproj : projection s c = some d) (hrun : s.runs n = some run)
    (htabs : Tabs.exec s.toTabs d =
      .ok (⟨storage, Function.update s.runs n (some run')⟩, o))
    (hsub : ∀ p, (f p).submitting = p.submitting) (hintent : ∀ p, (f p).intent = p.intent ∨ (f p).intent = o) :
    Effect s c (({ s with storage, runs := Function.update s.runs n (some run') } : App).update n f) n o := by
  refine .of_update (.inr ⟨d, hproj, htabs⟩) rfl rfl ?_ ?_
  · intro p' hp'
    obtain ⟨p, hp, rfl⟩ := Option.map_eq_some_iff.mp hp'
    have hbusy : p.submitting = true := (hl.submitting n p hp).mpr (by simp [hrun])
    simp [hsub, hbusy]
  · intro p' i hp' hi
    obtain ⟨p, hp, rfl⟩ := Option.map_eq_some_iff.mp hp'
    rcases hintent p with hsame | hnew
    · exact .inl ⟨p, hp, hsame ▸ hi⟩
    · exact .inr (hnew.symm.trans hi)

theorem update_id (s : App) (n : ℕ) : s.update n id = s := by
  simp [update]

/-- A step that hands the run `n` on behind the component. -/
theorem Effect.handedOn {d : Tabs.Invocation} {storage : Storage} {run run' : Run} (hl : Linked s)
    (hproj : projection s c = some d) (hrun : s.runs n = some run)
    (htabs : Tabs.exec s.toTabs d = .ok (⟨storage, Function.update s.runs n (some run')⟩, o)) :
    Effect s c { s with storage, runs := Function.update s.runs n (some run') } n o := by
  have heffect := Effect.marked (f := id) hl hproj hrun htabs (fun _ => rfl) fun _ => .inl rfl
  rwa [update_id] at heffect

/-- A step that ends the run `n` and shows its result. -/
theorem Effect.settled {d : Tabs.Invocation} {status : TxStatus} {result : PaymentIntent × Storage}
    (hproj : projection s c = some d)
    (htabs : Tabs.exec s.toTabs d = .ok (⟨result.2, Function.update s.runs n none⟩, some result.1)) :
    Effect s c (s.settle n status result) n (some result.1) := by
  refine .of_update (.inr ⟨d, hproj, htabs⟩) rfl rfl ?_ ?_
  · intro p' hp'
    obtain ⟨p, hp, rfl⟩ := Option.map_eq_some_iff.mp hp'
    simp
  · intro p' i hp' hi
    obtain ⟨p, hp, rfl⟩ := Option.map_eq_some_iff.mp hp'
    exact .inr hi

theorem component_eq_ok : s.component n = .ok p ↔ s.components n = some p := expect_eq_ok

theorem caught_eq_ok {q : Run} : s.caught n = .ok q ↔ s.runs n = some q ∧ q.stage ≠ .started := by
  simp only [caught, bind_eq_ok, expect_eq_ok, failIf_eq_ok, pure_eq_ok]
  constructor
  · rintro ⟨_, hrun, _, hstage, rfl⟩
    exact ⟨hrun, hstage⟩
  · rintro ⟨hrun, hstage⟩
    exact ⟨q, hrun, (), hstage, rfl⟩

theorem loadPage_effect {s' : App} (hc : c.action = .loadPage n kind address tier)
    (h : s.loadPage n kind address tier = .ok s') : ∃ o, Effect s c s' n o := by
  simp only [loadPage, bind_eq_ok, failIf_eq_ok, pure_eq_ok, not_or, Bool.not_eq_true,
    Option.isSome_eq_false_iff, Option.isNone_iff_eq_none] at h
  obtain ⟨_, ⟨_, hrun⟩, rfl⟩ := h
  have hproj : projection s c = some ⟨c.now, .findActiveIntent kind address tier⟩ := by
    simp [projection, hc]
  refine ⟨findActiveIntent kind address tier s.storage, .answered hproj rfl ?_ ?_⟩
  · split <;> simp_all
  · split <;> simp [hrun]

theorem openModal_effect {s' : App} {principal : String}
    (hl : Linked s) (hc : c.action = .openModal n kind address tier principal nonce)
    (h : s.openModal n c.now kind address tier principal nonce = .ok s') : ∃ o, Effect s c s' n o := by
  simp only [openModal, bind_eq_ok, failIf_eq_ok] at h
  obtain ⟨_, hfree, h⟩ := h
  have hsub : ((s.components n).map Component.submitting).getD false = true ↔ (s.runs n).isSome = true := by
    cases hp : s.components n with
    | none => simpa [hp] using hfree
    | some p => exact hl.submitting n p hp
  split at h
  · next active hactive =>
    obtain rfl := pure_eq_ok.mp h
    have hproj : projection s c = some ⟨c.now, .findActiveIntent kind address tier⟩ := by
      simp [projection, hc, hactive]
    have htabs : Tabs.exec s.toTabs ⟨c.now, .findActiveIntent kind address tier⟩ =
        .ok (⟨s.storage, s.runs⟩, some active) := by
      rw [← hactive]
      rfl
    exact ⟨some active, .answered hproj htabs rfl hsub⟩
  · next hnone =>
    simp only [bind_eq_ok, failIf_eq_ok, pure_eq_ok] at h
    obtain ⟨_, hfresh, rfl⟩ := h
    have hproj : projection s c =
        some ⟨c.now, .createIntent kind address tier USDC_ASSET_CODE principal nonce⟩ := by
      simp [projection, hc, hnone]
    exact ⟨_, .answered hproj (tabs_create hfresh) rfl hsub⟩

theorem enterConfirmStep_effect {s' : App} (hl : Linked s)
    (hc : c.action = .enterConfirmStep n address tier amount nonce)
    (h : s.enterConfirmStep n c.now address tier amount nonce = .ok s') : ∃ o, Effect s c s' n o := by
  simp only [enterConfirmStep, bind_eq_ok, component_eq_ok, failIf_eq_ok, pure_eq_ok] at h
  obtain ⟨p, hp, _, _, _, hfresh, rfl⟩ := h
  have hproj : projection s c =
      some ⟨c.now, .createIntent p.kind address tier USDC_ASSET_CODE amount nonce⟩ := by
    simp [projection, hc, hp]
  exact ⟨_, .answered hproj (tabs_create hfresh) rfl (hl.submitting n p hp)⟩

theorem confirm_effect (hl : Linked s) (hc : c.action = .confirm n) (h : s.confirm n c.now = .ok r) :
    ∃ o, Effect s c r.1 n o := by
  simp only [confirm, bind_eq_ok, component_eq_ok, failIf_eq_ok, expect_eq_ok, not_not] at h
  obtain ⟨p, hp, _, hoffers, intent, hintent, h⟩ := h
  have hidle : s.runs n = none := by
    have hno : ¬(s.runs n).isSome = true := (hl.submitting n p hp).not.mp (by simp [hoffers.1])
    simpa using hno
  have hproj : projection s c = some ⟨c.now, .beginSubmission n intent⟩ := by
    simp [projection, hc, hp, hintent]
  have hcopy := hl.copies n p intent hp hintent
  split at h
  · next hnone =>
    obtain rfl := pure_eq_ok.mp h
    have htabs : Tabs.exec s.toTabs ⟨c.now, .beginSubmission n intent⟩ = .ok (⟨s.storage, s.runs⟩, none) := by
      simp [Tabs.exec, hcopy, hidle, failIf, hnone]
    refine ⟨none, .of_update (.inr ⟨_, hproj, htabs⟩) (Function.update_eq_self n s.runs).symm
      (Function.update_eq_self n s.components).symm (hl.submitting n) ?_⟩
    exact fun p i hp hi => .inl ⟨p, hp, hi⟩
  · next started storage hbegin =>
    obtain rfl := pure_eq_ok.mp h
    have htabs : Tabs.exec s.toTabs ⟨c.now, .beginSubmission n intent⟩ = .ok (⟨storage,
        Function.update s.runs n (some ⟨.started, started, started⟩)⟩, some started) := by
      simp [Tabs.exec, hcopy, hidle, failIf, hbegin]
    refine ⟨some started, .of_update (.inr ⟨_, hproj, htabs⟩) rfl rfl ?_ ?_⟩
    · rintro _ ⟨⟩
      simp
    · rintro _ i ⟨⟩ hi
      exact .inr hi

theorem exec_effect (hl : Linked s) (h : exec s c = .ok r) : ∃ n o, Effect s c r.1 n o := by
  obtain ⟨now, action⟩ := c
  cases action with
  | loadPage n kind address tier =>
    simp only [exec, bind_eq_ok, pure_eq_ok] at h
    obtain ⟨s', hs', rfl⟩ := h
    exact ⟨n, loadPage_effect rfl hs'⟩
  | openModal n kind address tier principal nonce =>
    simp only [exec, bind_eq_ok, pure_eq_ok] at h
    obtain ⟨s', hs', rfl⟩ := h
    exact ⟨n, openModal_effect hl rfl hs'⟩
  | enterConfirmStep n address tier amount nonce =>
    simp only [exec, bind_eq_ok, pure_eq_ok] at h
    obtain ⟨s', hs', rfl⟩ := h
    exact ⟨n, enterConfirmStep_effect hl rfl hs'⟩
  | back n =>
    simp only [exec, bind_eq_ok, component_eq_ok, pure_eq_ok] at h
    obtain ⟨p, hp, _, _, rfl⟩ := h
    exact ⟨n, none, .still hl rfl hp rfl rfl⟩
  | confirm n => exact ⟨n, confirm_effect hl rfl h⟩
  | markAwaitingSignature n =>
    simp only [exec, bind_eq_ok, Tabs.runAt_eq_ok, pure_eq_ok] at h
    obtain ⟨run, ⟨hrun, hstage⟩, rfl⟩ := h
    refine ⟨n, some (markAwaitingSignature run.latest now s.storage).1, .marked hl rfl hrun ?_ (fun _ => rfl)
      fun _ => .inr rfl⟩
    simp [Tabs.exec, Tabs.runAt_eq_ok.mpr ⟨hrun, hstage⟩]
  | markSubmitted n txHash =>
    simp only [exec, bind_eq_ok, Tabs.runAt_eq_ok, pure_eq_ok] at h
    obtain ⟨run, ⟨hrun, hstage⟩, rfl⟩ := h
    refine ⟨n, some (markSubmitted run.latest txHash now s.storage).1, .handedOn hl rfl hrun ?_⟩
    simp [Tabs.exec, Tabs.runAt_eq_ok.mpr ⟨hrun, hstage⟩]
  | markPending n =>
    simp only [exec, bind_eq_ok, Tabs.runAt_eq_ok, pure_eq_ok] at h
    obtain ⟨run, ⟨hrun, hstage⟩, rfl⟩ := h
    refine ⟨n, some (markPending run.latest now s.storage).1, .handedOn hl rfl hrun ?_⟩
    simp [Tabs.exec, Tabs.runAt_eq_ok.mpr ⟨hrun, hstage⟩]
  | markConfirmed n =>
    simp only [exec, bind_eq_ok, Tabs.runAt_eq_ok, pure_eq_ok] at h
    obtain ⟨run, hrun, rfl⟩ := h
    refine ⟨n, _, .settled rfl ?_⟩
    simp [Tabs.exec, Tabs.runAt_eq_ok.mpr hrun]
  | markFailed n error =>
    simp only [exec, bind_eq_ok, caught_eq_ok, pure_eq_ok] at h
    obtain ⟨run, ⟨hrun, _⟩, rfl⟩ := h
    refine ⟨n, _, .settled rfl ?_⟩
    simp [Tabs.exec, hrun]
  | markExpired n error =>
    simp only [exec, bind_eq_ok, caught_eq_ok, pure_eq_ok] at h
    obtain ⟨run, ⟨hrun, _⟩, rfl⟩ := h
    refine ⟨n, _, .settled rfl ?_⟩
    simp [Tabs.exec, hrun]
  | retry n =>
    simp only [exec, handleRetry, bind_eq_ok, component_eq_ok, pure_eq_ok] at h
    obtain ⟨_, ⟨p, hp, _, _, _, _, rfl⟩, rfl⟩ := h
    exact ⟨n, none, .still hl rfl hp rfl rfl⟩
  | leave n =>
    obtain rfl := pure_eq_ok.mp h
    exact ⟨n, none, .of_update (.inl ⟨rfl, rfl, rfl⟩) (Function.update_eq_self n s.runs).symm rfl
      (fun _ hp => nomatch hp) fun _ _ hp => nomatch hp⟩
  | reload n =>
    obtain rfl := pure_eq_ok.mp h
    exact ⟨n, none, .of_update (.inr ⟨_, rfl, rfl⟩) rfl rfl (fun _ hp => nomatch hp)
      fun _ _ hp => nomatch hp⟩

/-- The tabs under a step make one step at most. -/
theorem Effect.exclusive (he : Effect s c s' n o) (hs : Tabs.Exclusive s.toTabs) :
    Tabs.Exclusive s'.toTabs := by
  rcases he.tabs with ⟨_, hsame, _⟩ | ⟨d, _, hd⟩
  · rw [hsame]
    exact hs
  · exact hs.effect (Tabs.exec_effect hd)

theorem Effect.copies (he : Effect s c s' n o) (hs : Tabs.Exclusive s.toTabs) :
    (∀ i, Tabs.copyOf i s.storage = .ok () → Tabs.copyOf i s'.storage = .ok ()) ∧
      ∀ i, o = some i → Tabs.copyOf i s'.storage = .ok () := by
  rcases he.tabs with ⟨_, hsame, rfl⟩ | ⟨d, _, hd⟩
  · refine ⟨fun i hi => ?_, by simp⟩
    rw [hsame]
    exact hi
  · constructor
    · intro i hi
      obtain ⟨stored, hstored, hop⟩ := Tabs.copyOf_eq_ok.mp hi
      obtain ⟨kept, hkept, hkeptop⟩ := hs.kept (Tabs.exec_effect hd) hstored
      exact Tabs.copyOf_eq_ok.mpr ⟨kept, hkept, hkeptop.trans hop⟩
    · rintro i rfl
      exact Tabs.copyOf_eq_ok.mpr ⟨i, hs.reply hd, rfl⟩

theorem Linked.step (hl : Linked s) (he : Effect s c s' n o) : Linked s' := by
  obtain ⟨hold, hnew⟩ := he.copies hl.exclusive
  constructor
  · exact he.exclusive hl.exclusive
  · intro m p i hp hi
    by_cases hm : m = n
    · subst hm
      rcases he.intent p i hp hi with ⟨q, hq, hqi⟩ | ho
      · exact hold i (hl.copies m q i hq hqi)
      · exact hnew i ho
    · rw [he.components m hm] at hp
      exact hold i (hl.copies m p i hp hi)
  · intro m p hp
    by_cases hm : m = n
    · subst hm
      exact he.submitting p hp
    · rw [he.components m hm] at hp
      rw [he.runs m hm]
      exact hl.submitting m p hp
  · obtain ⟨N, hN⟩ := hl.fresh
    refine ⟨max N (n + 1), fun m hm => ?_⟩
    have hne : m ≠ n := by omega
    rw [he.components m hne, he.runs m hne]
    exact hN m (by omega)

theorem linked_empty : Linked empty where
  exclusive := Tabs.exclusive_empty
  copies _ _ _ hp := by simp [empty] at hp
  submitting _ _ hp := by simp [empty] at hp
  fresh := ⟨0, fun _ _ => ⟨rfl, rfl⟩⟩

theorem exec_linked (hl : Linked s) (h : exec s c = .ok r) : Linked r.1 := by
  obtain ⟨n, o, he⟩ := exec_effect hl h
  exact hl.step he

theorem run_linked (hl : Linked s) (cs : List Invocation) : Linked (run exec s cs) :=
  run_invariant (fun _ _ _ hl h => exec_linked hl h) hl cs

theorem run_tabs (cs : List Invocation) :
    ∃ ds, (run exec empty cs).toTabs = run Tabs.exec Tabs.empty ds := by
  have hinv : Linked (run exec empty cs) ∧
      ∃ ds, (run exec empty cs).toTabs = run Tabs.exec Tabs.empty ds := by
    refine run_invariant (I := fun s => Linked s ∧ ∃ ds, s.toTabs = run Tabs.exec Tabs.empty ds) ?_
      ⟨linked_empty, [], rfl⟩ cs
    rintro s c r ⟨hl, ds, hds⟩ h
    obtain ⟨n, o, he⟩ := exec_effect hl h
    refine ⟨hl.step he, ?_⟩
    rcases he.tabs with ⟨_, hsame, _⟩ | ⟨d, _, hd⟩
    · exact ⟨ds, hsame.trans hds⟩
    · refine ⟨ds ++ [d], ?_⟩
      rw [run_concat, ← hds, next_ok hd]
  exact hinv.2

end App
end YieldLadder.Payment
