import YieldLadder.Foundation.Machine
import YieldLadder.Payment.Wallet

/-! # The wallet session of a tab

A connect stores a session for a day, and a payment asks the wallet of the stored session to sign. Connects,
disconnects and payments take their steps in any order, and the storage may refuse any of them.
-/
namespace YieldLadder.Payment
open Foundation
open Sdk (Thrown)

structure WalletSession where
  account : WalletAccount
  provider : WalletProvider
  connectedAt : ℕ
  expiresAt : Option ℕ
  deriving DecidableEq, Repr

def SESSION_TTL_MS : ℕ := 24 * 60 * 60 * 1000

/-- The clock is read twice. -/
def createSession (publicKey : String) (provider : WalletProvider) (network : StellarNetwork) (now : ℕ → ℕ) :
    WalletSession :=
  ⟨⟨publicKey, network⟩, provider, now 0, some (now 1 + SESSION_TTL_MS)⟩

def WalletSession.Expired (session : WalletSession) (now : ℕ) : Prop := ∃ t ∈ session.expiresAt, t < now

instance (session : WalletSession) (now : ℕ) : Decidable (session.Expired now) :=
  inferInstanceAs (Decidable (∃ t ∈ session.expiresAt, t < now))

/-- The step of a connect that is waited for. -/
inductive Connecting
  | access (provider : WalletProvider)
  | network (provider : WalletProvider) (address : String)
  deriving DecidableEq, Repr

/-- One button on the page. What it is connecting to goes on when it is taken from the page. -/
structure WalletButton where
  mounted : Bool
  session : Option WalletSession
  connecting : Option Connecting
  error : Option String
  networkWarning : Option String

/-- How far `requestWalletSignature` has come. -/
inductive Signing
  | checking (session : WalletSession) (xdr : String)
  | prompted
  | over

structure WalletTab where
  stored : Option WalletSession
  buttons : ℕ → Option WalletButton
  payments : ℕ → Option Signing

namespace WalletTab

def empty : WalletTab := ⟨none, fun _ => none, fun _ => none⟩

/-- What is done in a tab. Buttons and payments are named by numbers of their own; the wallet answers when it
likes. -/
inductive Action
  | mount (button : ℕ)
  | unmount (button : ℕ)
  | connect (button : ℕ) (provider : WalletProvider)
  | accessed (button : ℕ) (answer : Except Thrown Access)
  | connected (button : ℕ) (answer : Except Thrown String)
  | disconnect (button : ℕ)
  | load
  | requestWalletSignature (payment : ℕ) (xdr : String)
  | checked (payment : ℕ) (answer : Except Thrown String)
  | signed (payment : ℕ) (answer : Except Thrown SignedTransaction)
  | reload

/-- An action, with what the clock reads, whether the extension is in the page, and whether the storage can be
read and written. -/
structure Invocation where
  now : ℕ → ℕ
  present : Bool
  readable : Bool
  writable : Bool
  action : Action

inductive Refusal
  | taken
  | disabled
  | outOfOrder
  deriving DecidableEq, Repr

/-- The session that is put into the storage, or none that is removed from it. -/
abbrev Write := Option (Option WalletSession)

/-- What a step does outside the page: a write, a prompt of the wallet, the outcome of a payment. -/
structure Reply where
  write : Write
  prompt : Option (String × SignTransactionOptions)
  settled : Option (Except PaymentError Unit)

def saveSession (session : WalletSession) (c : Invocation) : Write :=
  if c.writable then some (some session) else none

def clearSession (c : Invocation) : Write := if c.writable then some none else none

def loadSession (stored : Option WalletSession) (c : Invocation) : Option WalletSession × Write :=
  if c.readable then
    match stored with
    | some session => if session.Expired (c.now 0) then (none, clearSession c) else (some session, none)
    | none => (none, none)
  else (none, none)

/-- The extension as it is found when it is called. -/
def extension (c : Invocation) : Except PaymentError Unit :=
  FreighterAdapter.getFreighterApi (if c.present then some () else none)

def connectionError : PaymentError → String
  | .thrown => "Connection failed"
  | e => e.message

def networkWarning (target : String) (network : StellarNetwork) : String :=
  "Your wallet is set to " ++ network.text ++ ", but this app runs on " ++ target ++
    ". Switch networks in your wallet before depositing."

def failed (b : WalletButton) (e : PaymentError) : WalletButton :=
  { b with connecting := none, error := some (connectionError e) }

variable (s : WalletTab) (c : Invocation)

def press (button : ℕ) (b : WalletButton) (write : Write) : WalletTab × Reply :=
  ({ s with buttons := Function.update s.buttons button (some b) }, ⟨write, none, none⟩)

def settle (payment : ℕ) (write : Write) (outcome : Except PaymentError Unit) : WalletTab × Reply :=
  ({ s with payments := Function.update s.payments payment (some .over) }, ⟨write, none, some outcome⟩)

def proceed (payment : ℕ) (signing : Signing) (prompt : Option (String × SignTransactionOptions)) :
    WalletTab × Reply :=
  ({ s with payments := Function.update s.payments payment (some signing) }, ⟨none, prompt, none⟩)

def mount (button : ℕ) : Except Refusal (WalletTab × Reply) := do
  failIf ((s.buttons button).isSome = true) .taken
  let (session, write) := loadSession s.stored c
  pure (press s button ⟨true, session, none, none, none⟩ write)

/-- The button of a provider that is implemented is enabled while there is no session and nothing is connecting. -/
def connect (button : ℕ) (provider : WalletProvider) : Except Refusal (WalletTab × Reply) := do
  let b ← expect .disabled (s.buttons button)
  failIf (b.mounted = false ∨ b.session.isSome = true ∨ b.connecting.isSome = true ∨
    provider ∉ IMPLEMENTED_WALLET_PROVIDERS) .disabled
  let cleared := { b with error := none, networkWarning := none }
  match (do getWalletAdapter provider; extension c) with
  | .ok () => pure (press s button { cleared with connecting := some (.access provider) } none)
  | .error e => pure (press s button (failed cleared e) none)

def accessed (button : ℕ) (answer : Except Thrown Access) : Except Refusal (WalletTab × Reply) := do
  let b ← expect .outOfOrder (s.buttons button)
  match b.connecting with
  | some (.access provider) =>
    match FreighterAdapter.accessed answer with
    | .ok address => pure (press s button { b with connecting := some (.network provider address) } none)
    | .error e => pure (press s button (failed b e) none)
  | _ => throw .outOfOrder

def connected (target : String) (button : ℕ) (answer : Except Thrown String) :
    Except Refusal (WalletTab × Reply) := do
  let b ← expect .outOfOrder (s.buttons button)
  match b.connecting with
  | some (.network provider address) =>
    match FreighterAdapter.connected address answer with
    | .ok account =>
      let session := createSession account.publicKey provider account.network c.now
      let warning := if account.network.text ≠ target then some (networkWarning target account.network) else none
      pure (press s button { b with session := some session, connecting := none, networkWarning := warning }
        (saveSession session c))
    | .error e => pure (press s button (failed b e) none)
  | _ => throw .outOfOrder

/-- Where the session that is shown has no adapter, the call rejects before anything is cleared. -/
def disconnect (button : ℕ) : Except Refusal (WalletTab × Reply) := do
  let b ← expect .disabled (s.buttons button)
  failIf (b.mounted = false) .disabled
  match b.session.elim (.ok ()) fun session => getWalletAdapter session.provider with
  | .ok () => pure (press s button { b with session := none, error := none, networkWarning := none } (clearSession c))
  | .error _ => pure (s, ⟨none, none, none⟩)

def requestWalletSignature (payment : ℕ) (xdr : String) : Except Refusal (WalletTab × Reply) := do
  failIf ((s.payments payment).isSome = true) .taken
  if xdr = "" then pure (settle s payment none (.ok ()))
  else
    match loadSession s.stored c with
    | (none, write) => pure (settle s payment write (.error (.walletUnavailable "wallet")))
    | (some session, _) =>
      match (do getWalletAdapter session.provider; extension c) with
      | .ok () => pure (proceed s payment (.checking session xdr) none)
      | .error e => pure (settle s payment none (.error e))

/-- The network is checked against the wallet, and the session says who is to sign. -/
def checked (target : String) (payment : ℕ) (answer : Except Thrown String) : Except Refusal (WalletTab × Reply) :=
  match s.payments payment with
  | some (.checking session xdr) =>
    match FreighterAdapter.checked target answer with
    | .error e => pure (settle s payment none (.error e))
    | .ok (false, actual) => pure (settle s payment none (.error (.walletNetworkMismatch target actual.text)))
    | .ok (true, _) =>
      match extension c with
      | .error e => pure (settle s payment none (.error e))
      | .ok () => pure (proceed s payment .prompted
        (some (xdr, ⟨some session.account.network, some session.account.publicKey⟩)))
  | _ => throw .outOfOrder

def signed (payment : ℕ) (answer : Except Thrown SignedTransaction) : Except Refusal (WalletTab × Reply) :=
  match s.payments payment with
  | some .prompted => pure (settle s payment none ((FreighterAdapter.signed answer).map fun _ => ()))
  | _ => throw .outOfOrder

def reload : WalletTab :=
  { s with
    buttons := fun b => (s.buttons b).map fun _ => ⟨false, none, none, none, none⟩
    payments := fun p => (s.payments p).map fun _ => .over }

/-- What a step does, but for the storage. -/
def act (target : String) : Except Refusal (WalletTab × Reply) :=
  match c.action with
  | .mount button => mount s c button
  | .unmount button => do
    let b ← expect .disabled (s.buttons button)
    pure (press s button { b with mounted := false } none)
  | .connect button provider => connect s c button provider
  | .accessed button answer => accessed s button answer
  | .connected button answer => connected s c target button answer
  | .disconnect button => disconnect s c button
  | .load => pure (s, ⟨(loadSession s.stored c).2, none, none⟩)
  | .requestWalletSignature payment xdr => requestWalletSignature s c payment xdr
  | .checked payment answer => checked s c target payment answer
  | .signed payment answer => signed s payment answer
  | .reload => pure (reload s, ⟨none, none, none⟩)

def exec (target : String) (s : WalletTab) (c : Invocation) : Except Refusal (WalletTab × Reply) := do
  let (s', reply) ← act s c target
  pure ({ s' with stored := reply.write.getD s.stored }, reply)

/-- The log of a run: every step with what it did. -/
abbrev History := List (Invocation × Reply)

/-- The account of the session is what the extension gave access to. -/
def Granted (l : History) (button : ℕ) (address : String) : Prop :=
  ∃ d ∈ l, ∃ error, d.1.action = .accessed button (.ok ⟨address, error⟩)

/-- The step stores the session, for the account that a connect was given and a day from then on. -/
def Stores (ds : History) (e : Invocation × Reply) (session : WalletSession) : Prop :=
  e.2.write = some (some session) ∧ ∃ button address network,
    e.1.action = .connected button (.ok network) ∧ Granted ds button address ∧
      session = createSession address .freighter (toStellarNetwork network) e.1.now

/-- The session was stored, and nothing has been written since. -/
def Live (l : History) (session : WalletSession) : Prop :=
  ∃ ds e es, l = ds ++ e :: es ∧ Stores ds e session ∧ ∀ d ∈ es, d.2.write = none

/-- The payment asked for its signature while the session was live and not expired. -/
def Begun (l : History) (payment : ℕ) (session : WalletSession) (xdr : String) : Prop :=
  ∃ ds e es, l = ds ++ e :: es ∧ e.1.action = .requestWalletSignature payment xdr ∧ Live ds session ∧
    ¬session.Expired (e.1.now 0)

/-- The wallet has been prompted for the payment. -/
def Prompted (l : History) (payment : ℕ) : Prop :=
  ∃ d ∈ l, (∃ answer, d.1.action = .checked payment answer) ∧ d.2.prompt ≠ none

/-- A prompt of the wallet: it is the only one of its payment, the wallet has just been found on the network of the
app, and the account is that of the session at the time the payment asked. -/
def Consented (target : String) (l : History) (c : Invocation) (xdr : String) (opts : SignTransactionOptions) :
    Prop :=
  ∃ payment network session, c.action = .checked payment (.ok network) ∧
    (toStellarNetwork network).text = target ∧ ¬Prompted l payment ∧ Begun l payment session xdr ∧
    opts = ⟨some session.account.network, some session.account.publicKey⟩

/-- A payment that resolves had nothing to sign or was signed, and the advice on any other is to try again. -/
def Outcome (l : History) (c : Invocation) : Except PaymentError Unit → Prop
  | .ok () => (∃ payment, c.action = .requestWalletSignature payment "") ∨
      ∃ payment signedTx, c.action = .signed payment (.ok signedTx) ∧ Prompted l payment
  | .error e => e.retryClassification = .retryableSafely

/-- What each step of a run is due to. -/
structure Due (target : String) (l : History) (e : Invocation × Reply) : Prop where
  prompt : ∀ xdr opts, e.2.prompt = some (xdr, opts) → Consented target l e.1 xdr opts
  settled : ∀ outcome, e.2.settled = some outcome → Outcome l e.1 outcome
  disconnect : ∀ button, e.1.action = .disconnect button → e.1.writable = true → e.2.write = some none

/-- A button shows and connects the one provider there is. -/
structure Sound (l : History) (b : WalletButton) (button : ℕ) : Prop where
  session : ∀ session ∈ b.session, session.provider = .freighter
  access : ∀ provider, b.connecting = some (.access provider) → provider = .freighter
  network : ∀ provider address, b.connecting = some (.network provider address) →
    provider = .freighter ∧ Granted l button address

/-- How far the payment has come. -/
def Tracked (l : History) (payment : ℕ) : Option Signing → Prop
  | none => ¬Prompted l payment
  | some (.checking session xdr) => ¬Prompted l payment ∧ Begun l payment session xdr
  | some .prompted => Prompted l payment
  | some .over => True

structure Kept (target : String) (s : WalletTab) (l : History) : Prop where
  stored : ∀ session ∈ s.stored, Live l session
  buttons : ∀ button b, s.buttons button = some b → Sound l b button
  payments : ∀ payment, Tracked l payment (s.payments payment)
  due : ∀ ds e es, l = ds ++ e :: es → Due target ds e

variable {s s' : WalletTab} {c : Invocation} {reply : Reply} {target : String} {l : History} {e : Invocation × Reply}
variable {button payment : ℕ} {b : WalletButton} {session : WalletSession} {address xdr : String} {w : Write}

theorem Granted.concat (h : Granted l button address) : Granted (l ++ [e]) button address := by
  obtain ⟨d, hd, hanswer⟩ := h
  exact ⟨d, List.mem_append_left _ hd, hanswer⟩

theorem Live.concat (h : Live l session) (hquiet : e.2.write = none) : Live (l ++ [e]) session := by
  obtain ⟨ds, d, es, rfl, hstores, hrest⟩ := h
  refine ⟨ds, d, es ++ [e], by simp, hstores, fun d' hd' => ?_⟩
  rcases List.mem_append.mp hd' with hd' | hd'
  · exact hrest d' hd'
  · rw [List.mem_singleton.mp hd', hquiet]

theorem Begun.concat (h : Begun l payment session xdr) : Begun (l ++ [e]) payment session xdr := by
  obtain ⟨ds, d, es, rfl, hask⟩ := h
  exact ⟨ds, d, es ++ [e], by simp, hask⟩

theorem prompted_concat : Prompted (l ++ [e]) payment ↔
    Prompted l payment ∨ (∃ answer, e.1.action = .checked payment answer) ∧ e.2.prompt ≠ none := by
  simp only [Prompted, List.mem_append, List.mem_singleton]
  constructor
  · rintro ⟨d, hd | rfl, hprompt⟩
    · exact .inl ⟨d, hd, hprompt⟩
    · exact .inr hprompt
  · rintro (⟨d, hd, hprompt⟩ | hprompt)
    · exact ⟨d, .inl hd, hprompt⟩
    · exact ⟨e, .inr rfl, hprompt⟩

theorem Sound.concat (h : Sound l b button) : Sound (l ++ [e]) b button where
  session := h.session
  access := h.access
  network provider address hnetwork := (h.network provider address hnetwork).imp_right Granted.concat

theorem Tracked.concat {signing : Option Signing} (h : Tracked l payment signing)
    (hquiet : e.2.prompt = none ∨ ∀ answer, e.1.action ≠ .checked payment answer) :
    Tracked (l ++ [e]) payment signing := by
  have hsame : Prompted (l ++ [e]) payment ↔ Prompted l payment := by
    rw [prompted_concat, or_iff_left]
    rintro ⟨⟨answer, haction⟩, hprompt⟩
    exact hquiet.elim (fun hnone => hprompt hnone) fun hother => hother answer haction
  match signing with
  | none => exact fun hp => h (hsame.mp hp)
  | some (.checking session xdr) => exact ⟨fun hp => h.1 (hsame.mp hp), h.2.concat⟩
  | some .prompted => exact hsame.mpr h
  | some .over => trivial

theorem kept_empty : Kept target empty [] where
  stored session hsession := by cases hsession
  buttons button b hb := by cases hb
  payments payment := fun ⟨d, hd, _⟩ => List.not_mem_nil hd
  due ds e es hl := by simp at hl

/-- What is written is a session that a connect was given, or nothing. -/
theorem Kept.concat (h : Kept target s l) (s' : WalletTab)
    (hwrite : ∀ session, e.2.write = some (some session) → Stores l e session)
    (hbuttons : ∀ button b, s'.buttons button = some b → Sound (l ++ [e]) b button)
    (hpayments : ∀ payment, Tracked (l ++ [e]) payment (s'.payments payment)) (hdue : Due target l e) :
    Kept target { s' with stored := e.2.write.getD s.stored } (l ++ [e]) where
  stored session hsession := by
    dsimp only at hsession
    cases hw : e.2.write with
    | none =>
      rw [hw, Option.getD_none] at hsession
      exact (h.stored session hsession).concat hw
    | some written =>
      rw [hw, Option.getD_some] at hsession
      obtain rfl : written = some session := hsession
      exact ⟨l, e, [], rfl, hwrite session hw, fun d hd => absurd hd List.not_mem_nil⟩
  buttons := hbuttons
  payments := hpayments
  due ds d es hl := by
    rcases List.eq_nil_or_concat es with rfl | ⟨es, last, rfl⟩
    · obtain ⟨rfl, hlast⟩ := List.append_inj' hl rfl
      obtain rfl := (List.cons.inj hlast).1
      exact hdue
    · rw [List.concat_eq_append, ← List.cons_append, ← List.append_assoc] at hl
      exact h.due ds d es (List.append_inj' hl rfl).1

theorem Kept.press (h : Kept target s l) (hsound : Sound (l ++ [(c, ⟨w, none, none⟩)]) b button)
    (hwrite : ∀ session, w = some (some session) → Stores l (c, ⟨w, none, none⟩) session)
    (hdisconnect : ∀ button, c.action = .disconnect button → c.writable = true → w = some none) :
    Kept target { (s.press button b w).1 with stored := w.getD s.stored } (l ++ [(c, (s.press button b w).2)]) := by
  have hdue : Due target l (c, ⟨w, none, none⟩) := ⟨by simp, by simp, hdisconnect⟩
  refine h.concat (s.press button b w).1 hwrite (fun other b' hb' => ?_)
    (fun payment => (h.payments payment).concat (.inl rfl)) hdue
  simp only [WalletTab.press, Function.update_apply] at hb'
  split_ifs at hb' with hsame
  · subst hsame
    obtain rfl := Option.some.inj hb'
    exact hsound
  · exact (h.buttons other b' hb').concat

theorem Kept.press_quiet (h : Kept target s l) (hsound : Sound (l ++ [(c, ⟨none, none, none⟩)]) b button)
    (hdisconnect : ∀ button, c.action ≠ .disconnect button) :
    Kept target { (s.press button b none).1 with stored := s.stored } (l ++ [(c, (s.press button b none).2)]) :=
  h.press hsound (fun _ hw => by cases hw) fun button hb => absurd hb (hdisconnect button)

theorem Kept.settle {outcome : Except PaymentError Unit} (h : Kept target s l) (houtcome : Outcome l c outcome)
    (hwrite : ∀ session, w ≠ some (some session)) (hdisconnect : ∀ button, c.action ≠ .disconnect button) :
    Kept target { (s.settle payment w outcome).1 with stored := w.getD s.stored }
      (l ++ [(c, (s.settle payment w outcome).2)]) := by
  have hdue : Due target l (c, ⟨w, none, some outcome⟩) :=
    ⟨by simp, by simpa using houtcome, fun button hb => absurd hb (hdisconnect button)⟩
  refine h.concat (s.settle payment w outcome).1 (fun session hw => absurd hw (hwrite session))
    (fun other b hb => (h.buttons other b hb).concat) (fun other => ?_) hdue
  simp only [WalletTab.settle, Function.update_apply]
  split_ifs
  · trivial
  · exact (h.payments other).concat (.inl rfl)

theorem Kept.settle_quiet {outcome : Except PaymentError Unit} (h : Kept target s l) (houtcome : Outcome l c outcome)
    (hdisconnect : ∀ button, c.action ≠ .disconnect button) :
    Kept target { (s.settle payment none outcome).1 with stored := s.stored }
      (l ++ [(c, (s.settle payment none outcome).2)]) := by
  have hwrite : ∀ session, (none : Write) ≠ some (some session) := by simp
  exact h.settle houtcome hwrite hdisconnect

theorem Kept.proceed {signing : Signing} {prompt : Option (String × SignTransactionOptions)} (h : Kept target s l)
    (htracked : Tracked (l ++ [(c, ⟨none, prompt, none⟩)]) payment (some signing))
    (hprompt : ∀ xdr opts, prompt = some (xdr, opts) → Consented target l c xdr opts)
    (hother : prompt = none ∨ ∃ answer, c.action = .checked payment answer)
    (hdisconnect : ∀ button, c.action ≠ .disconnect button) :
    Kept target { (s.proceed payment signing prompt).1 with stored := s.stored }
      (l ++ [(c, (s.proceed payment signing prompt).2)]) := by
  have hdue : Due target l (c, ⟨none, prompt, none⟩) :=
    ⟨hprompt, by simp, fun button hb => absurd hb (hdisconnect button)⟩
  refine h.concat (s.proceed payment signing prompt).1 (by simp) (fun other b hb => (h.buttons other b hb).concat)
    (fun other => ?_) hdue
  simp only [WalletTab.proceed, Function.update_apply]
  split_ifs with hsame
  · subst hsame
    exact htracked
  · refine (h.payments other).concat (hother.imp_right ?_)
    rintro ⟨answer, haction⟩ answer' haction'
    injection haction.symm.trans haction' with hpayment
    exact hsame hpayment.symm

theorem saveSession_eq {saved : WalletSession} (h : saveSession session c = some (some saved)) : session = saved := by
  unfold saveSession at h
  split_ifs at h
  exact Option.some.inj (Option.some.inj h)

theorem clearSession_ne (session : WalletSession) : clearSession c ≠ some (some session) := by
  unfold clearSession
  split_ifs <;> simp

theorem loadSession_fst {stored : Option WalletSession} (h : (loadSession stored c).1 = some session) :
    stored = some session ∧ ¬session.Expired (c.now 0) ∧ (loadSession stored c).2 = none := by
  unfold loadSession at h ⊢
  split_ifs at h ⊢ with hreadable
  cases stored with
  | none => cases h
  | some kept =>
    dsimp only at h ⊢
    split_ifs at h ⊢ with hexpired
    · obtain rfl := Option.some.inj h
      exact ⟨rfl, hexpired, rfl⟩

theorem loadSession_snd (stored : Option WalletSession) (session : WalletSession) :
    (loadSession stored c).2 ≠ some (some session) := by
  unfold loadSession
  cases stored with
  | none => split_ifs <;> simp
  | some kept =>
    dsimp only
    split_ifs
    · exact clearSession_ne session
    · simp
    · simp

theorem getWalletAdapter_eq_ok {provider : WalletProvider} {u : Unit} :
    getWalletAdapter provider = .ok u ↔ provider = .freighter := by
  unfold getWalletAdapter
  split_ifs with h <;> simp [h]

theorem accessed_eq_ok {answer : Except Thrown Access} (h : FreighterAdapter.accessed answer = .ok address) :
    ∃ error, answer = .ok ⟨address, error⟩ := by
  simp only [FreighterAdapter.accessed, bind_eq_ok, mapError_eq_ok] at h
  obtain ⟨⟨access, error⟩, rfl, hresult⟩ := h
  cases error with
  | none =>
    obtain rfl := Except.ok.inj hresult
    exact ⟨none, rfl⟩
  | some error =>
    simp only [bind_eq_ok, pure_eq_ok] at hresult
    obtain ⟨_, _, rfl⟩ := hresult
    exact ⟨some error, rfl⟩

theorem connected_eq_ok {answer : Except Thrown String} {account : WalletAccount} :
    FreighterAdapter.connected address answer = .ok account ↔
      ∃ network, answer = .ok network ∧ ⟨address, toStellarNetwork network⟩ = account := by
  simp only [FreighterAdapter.connected, bind_eq_ok, mapError_eq_ok, pure_eq_ok]

theorem checked_eq_ok {answer : Except Thrown String} {actual : StellarNetwork}
    (h : FreighterAdapter.checked target answer = .ok (true, actual)) :
    ∃ network, answer = .ok network ∧ (toStellarNetwork network).text = target := by
  simp only [FreighterAdapter.checked, bind_eq_ok, mapError_eq_ok, pure_eq_ok, Prod.mk.injEq, decide_eq_true_eq] at h
  obtain ⟨network, hanswer, htarget, _⟩ := h
  exact ⟨network, hanswer, htarget⟩

section Step
variable {r : WalletTab × Reply} {provider : WalletProvider} {answer : Except Thrown String} {u : Unit}

def KeptBy (target : String) (s : WalletTab) (l : History) (c : Invocation) (r : WalletTab × Reply) : Prop :=
  Kept target { r.1 with stored := r.2.write.getD s.stored } (l ++ [(c, r.2)])

theorem Sound.failed (h : Sound l b button) (e : PaymentError) : Sound l (failed b e) button where
  session := h.session
  access provider hb := by cases hb
  network provider address hb := by cases hb

theorem Kept.mount (h : Kept target s l) (haction : c.action = .mount button) (hr : mount s c button = .ok r) :
    KeptBy target s l c r := by
  simp only [WalletTab.mount, bind_eq_ok, pure_eq_ok] at hr
  obtain ⟨_, _, rfl⟩ := hr
  refine h.press ⟨fun session hsession => ?_, by simp, by simp⟩
    (fun session hw => absurd hw (loadSession_snd s.stored session)) fun button hb => ?_
  · obtain ⟨_, _, _, _, ⟨_, _, _, _, _, _, rfl⟩, _⟩ := h.stored session (loadSession_fst hsession).1
    rfl
  · exact absurd (haction.symm.trans hb) (by simp)

theorem Kept.connect (h : Kept target s l) (haction : c.action = .connect button provider)
    (hr : connect s c button provider = .ok r) : KeptBy target s l c r := by
  simp only [WalletTab.connect, bind_eq_ok, expect_eq_ok] at hr
  obtain ⟨b, hb, _, _, hr⟩ := hr
  have hsound : Sound l { b with error := none, networkWarning := none } button :=
    ⟨(h.buttons button b hb).session, (h.buttons button b hb).access, (h.buttons button b hb).network⟩
  split at hr
  · rename_i hadapter
    rw [bind_eq_ok] at hadapter
    obtain ⟨_, hprovider, _⟩ := hadapter
    obtain rfl := Except.ok.inj hr
    refine h.press_quiet ⟨hsound.session, fun provider' hconnecting => ?_, by simp⟩ (by simp [haction])
    simp only [Option.some.injEq, Connecting.access.injEq] at hconnecting
    rw [← hconnecting]
    exact getWalletAdapter_eq_ok.mp hprovider
  · obtain rfl := Except.ok.inj hr
    exact h.press_quiet (hsound.failed _).concat (by simp [haction])

theorem Kept.accessed {answer : Except Thrown Access} (h : Kept target s l)
    (haction : c.action = .accessed button answer) (hr : accessed s button answer = .ok r) :
    KeptBy target s l c r := by
  simp only [WalletTab.accessed, bind_eq_ok, expect_eq_ok] at hr
  obtain ⟨b, hb, hr⟩ := hr
  have hsound := h.buttons button b hb
  split at hr
  · rename_i provider hconnecting
    split at hr
    · rename_i address hanswer
      obtain rfl := Except.ok.inj hr
      refine h.press_quiet ⟨hsound.session, by simp, fun provider' address' hnetwork => ?_⟩ (by simp [haction])
      simp only [Option.some.injEq, Connecting.network.injEq] at hnetwork
      obtain ⟨rfl, rfl⟩ := hnetwork
      obtain ⟨error, rfl⟩ := accessed_eq_ok hanswer
      exact ⟨hsound.access provider hconnecting, _, List.mem_append_right _ List.mem_cons_self, error, haction⟩
    · obtain rfl := Except.ok.inj hr
      exact h.press_quiet (hsound.failed _).concat (by simp [haction])
  · cases hr

theorem Kept.connected (h : Kept target s l) (haction : c.action = .connected button answer)
    (hr : connected s c target button answer = .ok r) : KeptBy target s l c r := by
  simp only [WalletTab.connected, bind_eq_ok, expect_eq_ok] at hr
  obtain ⟨b, hb, hr⟩ := hr
  have hsound := h.buttons button b hb
  split at hr
  · rename_i provider address hconnecting
    obtain ⟨rfl, hgranted⟩ := hsound.network provider address hconnecting
    split at hr
    · rename_i account hanswer
      obtain ⟨network, rfl, rfl⟩ := connected_eq_ok.mp hanswer
      obtain rfl := Except.ok.inj hr
      refine h.press ⟨by simp [createSession], by simp, by simp⟩ (fun session hw => ?_) fun button hb => ?_
      · exact ⟨hw, button, address, network, haction, hgranted, (saveSession_eq hw).symm⟩
      · exact absurd (haction.symm.trans hb) (by simp)
    · obtain rfl := Except.ok.inj hr
      exact h.press_quiet (hsound.failed _).concat (by simp [haction])
  · cases hr

theorem Kept.disconnect (h : Kept target s l) (hr : disconnect s c button = .ok r) : KeptBy target s l c r := by
  simp only [WalletTab.disconnect, bind_eq_ok, expect_eq_ok] at hr
  obtain ⟨b, hb, _, _, hr⟩ := hr
  have hsound := h.buttons button b hb
  -- Every session that is shown has the adapter.
  have hadapter : (b.session.elim (.ok ()) fun session => getWalletAdapter session.provider) = .ok () := by
    cases hsession : b.session with
    | none => rfl
    | some session => exact getWalletAdapter_eq_ok.mpr (hsound.session session hsession)
  simp only [hadapter] at hr
  obtain rfl := Except.ok.inj hr
  refine h.press ⟨by simp, hsound.access, fun provider address hnetwork => ?_⟩
    (fun session hw => absurd hw (clearSession_ne session)) fun _ _ hwritable => if_pos hwritable
  exact (hsound.network provider address hnetwork).imp_right Granted.concat

theorem retryableSafely_of_adapter {e : PaymentError} (h : getWalletAdapter provider = .error e) :
    e.retryClassification = .retryableSafely := by
  unfold getWalletAdapter at h
  split_ifs at h <;> cases h <;> rfl

theorem retryableSafely_of_extension {e : PaymentError} (h : extension c = .error e) :
    e.retryClassification = .retryableSafely := by
  unfold extension FreighterAdapter.getFreighterApi at h
  split_ifs at h
  · cases h
  · cases h
    rfl

theorem retryableSafely_ofThrown (e : Thrown) :
    (PaymentError.ofThrown e).retryClassification = .retryableSafely := by
  cases e <;> rfl

theorem retryableSafely_classifyFreighterError (e : Thrown) :
    (classifyFreighterError e).retryClassification = .retryableSafely := by
  rcases classify_cases e with ⟨_, happ⟩ | ⟨_, happ⟩ | ⟨_, happ⟩ <;> rw [happ] <;> rfl

theorem Kept.requestWalletSignature (h : Kept target s l) (haction : c.action = .requestWalletSignature payment xdr)
    (hr : requestWalletSignature s c payment xdr = .ok r) : KeptBy target s l c r := by
  have hdisconnect : ∀ button, c.action ≠ .disconnect button := by simp [haction]
  simp only [WalletTab.requestWalletSignature, bind_eq_ok, failIf_eq_ok] at hr
  obtain ⟨_, hfresh, hr⟩ := hr
  split_ifs at hr with hempty
  · obtain rfl := Except.ok.inj hr
    subst hempty
    exact h.settle_quiet (.inl ⟨payment, haction⟩) hdisconnect
  · have hwrite := loadSession_snd (c := c) s.stored
    split at hr
    · rename_i w hload
      rw [hload] at hwrite
      obtain rfl := Except.ok.inj hr
      exact h.settle rfl hwrite hdisconnect
    · rename_i session w hload
      obtain ⟨hstored, hlive, _⟩ := loadSession_fst (congrArg Prod.fst hload)
      split at hr
      · obtain rfl := Except.ok.inj hr
        refine h.proceed ⟨?_, l, _, [], rfl, haction, h.stored session hstored, hlive⟩ (by simp) (.inl rfl)
          hdisconnect
        have huntracked := h.payments payment
        rw [Option.not_isSome_iff_eq_none.mp hfresh] at huntracked
        rw [prompted_concat]
        exact not_or.mpr ⟨huntracked, by simp⟩
      · rename_i e herror
        obtain rfl := Except.ok.inj hr
        refine h.settle_quiet ?_ hdisconnect
        cases hadapter : getWalletAdapter session.provider with
        | error e' =>
          rw [hadapter] at herror
          cases herror
          exact retryableSafely_of_adapter hadapter
        | ok u =>
          rw [hadapter] at herror
          exact retryableSafely_of_extension herror

theorem Kept.checked (h : Kept target s l) (haction : c.action = .checked payment answer)
    (hr : checked s c target payment answer = .ok r) : KeptBy target s l c r := by
  have hdisconnect : ∀ button, c.action ≠ .disconnect button := by simp [haction]
  have htracked := h.payments payment
  unfold WalletTab.checked at hr
  split at hr
  · rename_i session xdr hchecking
    rw [hchecking] at htracked
    obtain ⟨hunprompted, hbegun⟩ := htracked
    split at hr
    · rename_i e hanswer
      obtain rfl := Except.ok.inj hr
      refine h.settle_quiet ?_ hdisconnect
      cases answer with
      | ok network => cases hanswer
      | error thrown =>
        cases hanswer
        exact retryableSafely_ofThrown thrown
    · obtain rfl := Except.ok.inj hr
      exact h.settle_quiet rfl hdisconnect
    · rename_i actual hanswer
      obtain ⟨network, rfl, htarget⟩ := checked_eq_ok hanswer
      split at hr
      · rename_i e herror
        obtain rfl := Except.ok.inj hr
        exact h.settle_quiet (retryableSafely_of_extension herror) hdisconnect
      · obtain rfl := Except.ok.inj hr
        refine h.proceed ?_ (fun xdr' opts hprompt => ?_) (.inr ⟨_, haction⟩) hdisconnect
        · exact prompted_concat.mpr (.inr ⟨⟨_, haction⟩, by simp⟩)
        · obtain ⟨rfl, rfl⟩ := Prod.mk.inj (Option.some.inj hprompt)
          exact ⟨payment, network, session, haction, htarget, hunprompted, hbegun, rfl⟩
  · cases hr

theorem Kept.signed {answer : Except Thrown SignedTransaction} (h : Kept target s l)
    (haction : c.action = .signed payment answer) (hr : signed s payment answer = .ok r) : KeptBy target s l c r := by
  have htracked := h.payments payment
  unfold WalletTab.signed at hr
  split at hr
  · rename_i hprompted
    rw [hprompted] at htracked
    obtain rfl := Except.ok.inj hr
    refine h.settle_quiet ?_ (by simp [haction])
    cases answer with
    | ok signedTx => exact .inr ⟨payment, signedTx, haction, htracked⟩
    | error thrown => exact retryableSafely_classifyFreighterError thrown
  · cases hr

theorem Kept.reload (h : Kept target s l) (haction : c.action = .reload) :
    KeptBy target s l c (s.reload, ⟨none, none, none⟩) := by
  have hdue : Due target l (c, ⟨none, none, none⟩) := ⟨by simp, by simp, by simp [haction]⟩
  refine h.concat s.reload (by simp) (fun button b hb => ?_) (fun payment => ?_) hdue
  · obtain ⟨_, _, rfl⟩ := Option.map_eq_some_iff.mp hb
    exact ⟨by simp, by simp, by simp⟩
  · have htracked := (h.payments payment).concat (e := (c, ⟨none, none, none⟩)) (.inl rfl)
    cases hpayment : s.payments payment with
    | none =>
      rw [hpayment] at htracked
      simpa only [WalletTab.reload, hpayment, Option.map_none] using htracked
    | some signing =>
      simp only [WalletTab.reload, hpayment, Option.map_some]
      trivial

theorem Kept.step (h : Kept target s l) (hexec : exec target s c = .ok (s', reply)) :
    Kept target s' (l ++ [(c, reply)]) := by
  simp only [exec, bind_eq_ok, pure_eq_ok, Prod.mk.injEq] at hexec
  obtain ⟨⟨s'', reply'⟩, hact, rfl, rfl⟩ := hexec
  unfold act at hact
  cases haction : c.action with
  | mount button =>
    simp only [haction] at hact
    exact h.mount haction hact
  | unmount button =>
    simp only [haction, bind_eq_ok, expect_eq_ok] at hact
    obtain ⟨b, hb, hr⟩ := hact
    obtain ⟨rfl, rfl⟩ := Prod.mk.inj (Except.ok.inj hr)
    have hsound := h.buttons button b hb
    exact h.press_quiet (Sound.concat ⟨hsound.session, hsound.access, hsound.network⟩) (by simp [haction])
  | connect button provider =>
    simp only [haction] at hact
    exact h.connect haction hact
  | accessed button answer =>
    simp only [haction] at hact
    exact h.accessed haction hact
  | connected button answer =>
    simp only [haction] at hact
    exact h.connected haction hact
  | disconnect button =>
    simp only [haction] at hact
    exact h.disconnect hact
  | load =>
    simp only [haction] at hact
    obtain ⟨rfl, rfl⟩ := Prod.mk.inj (Except.ok.inj hact)
    have hdue : Due target l (c, ⟨(loadSession s.stored c).2, none, none⟩) :=
      ⟨by simp, by simp, by simp [haction]⟩
    exact h.concat s (fun session hw => absurd hw (loadSession_snd s.stored session))
      (fun other b hb => (h.buttons other b hb).concat) (fun other => (h.payments other).concat (.inl rfl)) hdue
  | requestWalletSignature payment xdr =>
    simp only [haction] at hact
    exact h.requestWalletSignature haction hact
  | checked payment answer =>
    simp only [haction] at hact
    exact h.checked haction hact
  | signed payment answer =>
    simp only [haction] at hact
    exact h.signed haction hact
  | reload =>
    simp only [haction] at hact
    obtain ⟨rfl, rfl⟩ := Prod.mk.inj (Except.ok.inj hact)
    exact h.reload haction

end Step

theorem kept_run (target : String) (cs : List Invocation) :
    Kept target (run (exec target) empty cs) (log (exec target) empty cs) :=
  run_log_invariant kept_empty (fun _ _ _ _ hs h => hs.step h) cs

/-- In every run of a tab, whatever the wallet answers and the storage refuses: the wallet is prompted once at most for
a payment, on the network of the app, for the account of the session that was stored last before the payment asked, was
not removed since, is that of a connect the extension gave access to, and was no more than a day old. A payment resolves
only if it was signed or had nothing to sign, any other is safe to retry, and a disconnect always removes the session
where the storage lets it. -/
theorem run_due {ds es : History} (target : String) (cs : List Invocation)
    (hlog : log (exec target) empty cs = ds ++ e :: es) : Due target ds e :=
  (kept_run target cs).due ds e es hlog

/-- A connect, and a payment ten minutes later. -/
def signing : List Invocation :=
  [⟨fun _ => 0, true, true, true, .mount 0⟩,
   ⟨fun _ => 1, true, true, true, .connect 0 .freighter⟩,
   ⟨fun _ => 2, true, true, true, .accessed 0 (.ok ⟨"GADDR", none⟩)⟩,
   ⟨fun _ => 3, true, true, true, .connected 0 (.ok "TESTNET")⟩,
   ⟨fun _ => 600_000, true, true, true, .requestWalletSignature 0 "AAAA"⟩,
   ⟨fun _ => 600_001, true, true, true, .checked 0 (.ok "TESTNET")⟩,
   ⟨fun _ => 600_002, true, true, true, .signed 0 (.ok (.bare "AAAAsigned"))⟩]

theorem run_due_signing : ∃ ds e es, log (exec (TARGET_NETWORK none)) empty signing = ds ++ e :: es ∧
    Consented (TARGET_NETWORK none) ds e.1 "AAAA" ⟨some .testnet, some "GADDR"⟩ := by
  have hfifth : ((log (exec (TARGET_NETWORK none)) empty signing)[5]?.map fun e => e.2.prompt) =
      some (some ("AAAA", ⟨some .testnet, some "GADDR"⟩)) := by decide +kernel
  obtain ⟨e, he, hprompt⟩ := Option.map_eq_some_iff.mp hfifth
  obtain ⟨hlt, hget⟩ := List.getElem?_eq_some_iff.mp he
  have hlog : log (exec (TARGET_NETWORK none)) empty signing =
      (log (exec (TARGET_NETWORK none)) empty signing).take 5 ++
        e :: (log (exec (TARGET_NETWORK none)) empty signing).drop 6 := by
    rw [← hget, ← List.drop_eq_getElem_cons hlt, List.take_append_drop]
  exact ⟨_, e, _, hlog, (run_due (TARGET_NETWORK none) signing hlog).prompt _ _ hprompt⟩

end WalletTab
end YieldLadder.Payment
