import YieldLadder.Foundation.Fallible
import YieldLadder.Foundation.Machine
import YieldLadder.Payment.PaymentIntent

/-! # Tabs that share one storage

Any number of tabs create intents, start submissions with copies of them that may be
stale, and run the marks of a submission one by one, all against the same storage.
At every moment at most one intent of an operation is under way, and the lock of the
operation is the key of that intent.
-/
namespace YieldLadder.Payment
open Foundation

def IntentStatus.Active (status : IntentStatus) : Prop :=
  status = .building ∨ status = .awaitingSignature ∨ status = .submitted ∨ status = .pending

instance (status : IntentStatus) : Decidable status.Active :=
  inferInstanceAs (Decidable (_ ∨ _ ∨ _ ∨ _))

theorem IntentStatus.active_iff {status : IntentStatus} :
    status.Active ↔ status ≠ .idle ∧ isTerminal status = false := by
  cases status <;> decide

theorem IntentStatus.Active.not_startable {status : IntentStatus} (h : status.Active) :
    ¬status.Startable := by
  cases status <;> revert h <;> decide

theorem IntentStatus.Active.not_terminal {status : IntentStatus} (h : status.Active) :
    isTerminal status = false :=
  (active_iff.mp h).2

theorem IntentStatus.Active.ne_idle {status : IntentStatus} (h : status.Active) : status ≠ .idle :=
  (active_iff.mp h).1

/-- How far a run has come: which mark is next. -/
inductive Stage
  | started
  | awaitingSignature
  | submitted
  | pending
  deriving DecidableEq, Repr

/-- A submission under way: `awaiting` is the object its `catch` marks, `latest` the object its next
mark is called on. -/
structure Run where
  stage : Stage
  awaiting : PaymentIntent
  latest : PaymentIntent

structure Tabs where
  storage : Storage
  runs : ℕ → Option Run

namespace Tabs

def empty : Tabs := ⟨.empty, fun _ => none⟩

/-- What a tab can do. A run is named by a number of its own; a reload cuts it off. -/
inductive Action
  | createIntent (kind : IntentKind) (address : WalletAddress) (tier asset amount nonce : String)
  | findActiveIntent (kind : IntentKind) (address : WalletAddress) (tier : String)
  | beginSubmission (run : ℕ) (intent : PaymentIntent)
  | markAwaitingSignature (run : ℕ)
  | markSubmitted (run : ℕ) (txHash : String)
  | markPending (run : ℕ)
  | markConfirmed (run : ℕ)
  | markFailed (run : ℕ) (error : String)
  | markExpired (run : ℕ) (error : String)
  | reload (run : ℕ)

/-- An action and the time on the clock. -/
structure Invocation where
  now : ℕ
  action : Action

/-- Why an action is no step of the system: the intent keys are distinct, a tab holds only copies of
intents that were created, and a run marks in the order of its stages. -/
inductive Refusal
  | keyTaken
  | unknownIntent
  | runTaken
  | outOfOrder
  deriving DecidableEq, Repr

/-- A copy, of whatever age, of a stored intent. -/
def copyOf (intent : PaymentIntent) (storage : Storage) : Except Refusal Unit := do
  let stored ← expect .unknownIntent (loadIntent intent.key storage)
  failIf (stored.operation ≠ intent.operation) .unknownIntent

def runAt (s : Tabs) (run : ℕ) (stage : Stage) : Except Refusal Run := do
  let r ← expect .outOfOrder (s.runs run)
  failIf (r.stage ≠ stage) .outOfOrder
  pure r

def exec (s : Tabs) (c : Invocation) : Except Refusal (Tabs × Option PaymentIntent) :=
  match c.action with
  | .createIntent kind address tier asset amount nonce => do
    failIf ((loadIntent (buildIntentKey kind address tier asset amount nonce) s.storage).isSome = true)
      .keyTaken
    let created := createIntent kind address tier asset amount nonce c.now s.storage
    pure ({ s with storage := created.2 }, some created.1)
  | .findActiveIntent kind address tier => pure (s, findActiveIntent kind address tier s.storage)
  | .beginSubmission run intent => do
    copyOf intent s.storage
    failIf ((s.runs run).isSome = true) .runTaken
    match beginSubmission intent c.now s.storage with
    | none => pure (s, none)
    | some (started, storage) =>
      pure (⟨storage, Function.update s.runs run (some ⟨.started, started, started⟩)⟩, some started)
  | .markAwaitingSignature run => do
    let r ← runAt s run .started
    let (awaiting, storage) := markAwaitingSignature r.latest c.now s.storage
    pure (⟨storage, Function.update s.runs run (some ⟨.awaitingSignature, awaiting, awaiting⟩)⟩,
      some awaiting)
  | .markSubmitted run txHash => do
    let r ← runAt s run .awaitingSignature
    let (submitted, storage) := markSubmitted r.latest txHash c.now s.storage
    pure (⟨storage, Function.update s.runs run (some ⟨.submitted, r.awaiting, submitted⟩)⟩,
      some submitted)
  | .markPending run => do
    let r ← runAt s run .submitted
    let (pending, storage) := markPending r.latest c.now s.storage
    pure (⟨storage, Function.update s.runs run (some ⟨.pending, r.awaiting, pending⟩)⟩, some pending)
  | .markConfirmed run => do
    let r ← runAt s run .pending
    let (confirmed, storage) := markConfirmed r.latest c.now s.storage
    pure (⟨storage, Function.update s.runs run none⟩, some confirmed)
  | .markFailed run error => do
    let r ← expect .outOfOrder (s.runs run)
    let (failed, storage) := markFailed r.awaiting error c.now s.storage
    pure (⟨storage, Function.update s.runs run none⟩, some failed)
  | .markExpired run error => do
    let r ← expect .outOfOrder (s.runs run)
    let (expired, storage) := markExpired r.awaiting error c.now s.storage
    pure (⟨storage, Function.update s.runs run none⟩, some expired)
  | .reload run => pure ({ s with runs := Function.update s.runs run none }, none)

/-- What a step does: one intent is saved and the locks stay, a submission takes the lock, or the end
of a submission releases it. -/
inductive Effect (s : Tabs) (action : Action) (s' : Tabs) : Prop
  | create (i : PaymentIntent) (hfresh : loadIntent i.key s.storage = none) (hidle : i.status = .idle)
      (hstorage : s'.storage = saveIntent i s.storage) (hruns : s'.runs = s.runs)
  | idle (hstorage : s'.storage = s.storage)
      (hruns : ∀ run r, s'.runs run = some r → s.runs run = some r)
  | start (run : ℕ) (intent stored started : PaymentIntent)
      (haction : action = .beginSubmission run intent) (hrun : s.runs run = none)
      (hstored : loadIntent intent.key s.storage = some stored)
      (hoperation : stored.operation = intent.operation) (hstart : stored.status.Startable)
      (hfree : ¬HeldByAnother intent s.storage) (hkey : started.key = stored.key)
      (hsame : started.operation = stored.operation) (hbuilding : started.status = .building)
      (hstorage : s'.storage = saveLock intent.kind intent.address intent.tier intent.key
        (saveIntent started s.storage))
      (hruns : s'.runs = Function.update s.runs run (some ⟨.started, started, started⟩))
  | advance (run : ℕ) (r r' : Run) (i : PaymentIntent) (hrun : s.runs run = some r)
      (hkey : i.key = ((loadIntent r.latest.key s.storage).getD r.latest).key)
      (hsame : i.operation = ((loadIntent r.latest.key s.storage).getD r.latest).operation)
      (hactive : i.status.Active) (hstorage : s'.storage = saveIntent i s.storage)
      (hlatest : r'.latest = i) (hawaiting : r'.awaiting = i ∨ r'.awaiting = r.awaiting)
      (hruns : s'.runs = Function.update s.runs run (some r'))
  | finish (run : ℕ) (r : Run) (marked i : PaymentIntent) (hrun : s.runs run = some r)
      (hmarked : marked = r.latest ∨ marked = r.awaiting)
      (hkey : i.key = ((loadIntent marked.key s.storage).getD marked).key)
      (hsame : i.operation = ((loadIntent marked.key s.storage).getD marked).operation)
      (hterminal : isTerminal i.status = true)
      (hstorage : s'.storage = releaseLock marked.kind marked.address marked.tier
        (saveIntent i s.storage))
      (hruns : s'.runs = Function.update s.runs run none)

variable {s s' : Tabs} {c : Invocation} {r : Tabs × Option PaymentIntent} {n : ℕ} {stage : Stage}
variable {intent i j : PaymentIntent} {storage : Storage} {q q' : Run} {key : String}
variable {kind : IntentKind} {address : WalletAddress} {tier : String} {u : Unit}

theorem copyOf_eq_ok : copyOf intent storage = .ok u ↔
    ∃ stored, loadIntent intent.key storage = some stored ∧ stored.operation = intent.operation := by
  simp [copyOf]

theorem runAt_eq_ok : runAt s n stage = .ok q ↔ s.runs n = some q ∧ q.stage = stage := by
  simp only [runAt, bind_eq_ok, expect_eq_ok, failIf_eq_ok, pure_eq_ok, ne_eq, not_not]
  constructor
  · rintro ⟨_, hrun, _, hstage, rfl⟩
    exact ⟨hrun, hstage⟩
  · rintro ⟨hrun, hstage⟩
    exact ⟨q, hrun, (), hstage, rfl⟩

theorem update_some_eq_some {runs : ℕ → Option Run} {m : ℕ} {p : Run} :
    Function.update runs n (some q') m = some p ↔ m = n ∧ q' = p ∨ m ≠ n ∧ runs m = some p := by
  by_cases hm : m = n
  · subst hm
    simp
  · simp [hm]

theorem update_none_eq_some {runs : ℕ → Option Run} {m : ℕ} {p : Run} :
    Function.update runs n none m = some p ↔ m ≠ n ∧ runs m = some p := by
  by_cases hm : m = n
  · subst hm
    simp
  · simp [hm]

theorem exec_effect (h : exec s c = .ok r) : Effect s c.action r.1 := by
  obtain ⟨now, action⟩ := c
  cases action with
  | createIntent kind address tier asset amount nonce =>
    simp only [exec, bind_eq_ok, failIf_eq_ok, pure_eq_ok, Bool.not_eq_true,
      Option.isSome_eq_false_iff, Option.isNone_iff_eq_none] at h
    obtain ⟨_, hfresh, rfl⟩ := h
    exact .create (createIntent kind address tier asset amount nonce now s.storage).1 hfresh rfl rfl rfl
  | findActiveIntent kind address tier =>
    obtain rfl := pure_eq_ok.mp h
    exact .idle rfl fun _ _ hrun => hrun
  | beginSubmission run intent =>
    simp only [exec, bind_eq_ok, copyOf_eq_ok, failIf_eq_ok, Bool.not_eq_true,
      Option.isSome_eq_false_iff, Option.isNone_iff_eq_none] at h
    obtain ⟨_, ⟨stored, hstored, hoperation⟩, _, hfree, h⟩ := h
    split at h
    · obtain rfl := pure_eq_ok.mp h
      exact .idle rfl fun _ _ hrun => hrun
    · next started storage hbegin =>
      obtain ⟨hstart, hheld, heq⟩ := beginSubmission_eq_some.mp hbegin
      obtain ⟨rfl, rfl⟩ := Prod.mk.inj heq
      obtain rfl := pure_eq_ok.mp h
      rw [hstored, Option.getD_some] at hstart
      refine .start run intent stored _ rfl hfree hstored hoperation hstart hheld ?_ ?_ rfl rfl rfl
      · rw [hstored]
        rfl
      · rw [hstored]
        rfl
  | markAwaitingSignature run =>
    simp only [exec, bind_eq_ok, runAt_eq_ok, pure_eq_ok] at h
    obtain ⟨q, ⟨hrun, _⟩, rfl⟩ := h
    exact .advance run q ⟨.awaitingSignature, (markAwaitingSignature q.latest now s.storage).1, _⟩
      (markAwaitingSignature q.latest now s.storage).1 hrun rfl rfl (.inr (.inl rfl)) rfl rfl (.inl rfl)
      rfl
  | markSubmitted run txHash =>
    simp only [exec, bind_eq_ok, runAt_eq_ok, pure_eq_ok] at h
    obtain ⟨q, ⟨hrun, _⟩, rfl⟩ := h
    exact .advance run q ⟨.submitted, q.awaiting, _⟩ (markSubmitted q.latest txHash now s.storage).1
      hrun rfl rfl (.inr (.inr (.inl rfl))) rfl rfl (.inr rfl) rfl
  | markPending run =>
    simp only [exec, bind_eq_ok, runAt_eq_ok, pure_eq_ok] at h
    obtain ⟨q, ⟨hrun, _⟩, rfl⟩ := h
    exact .advance run q ⟨.pending, q.awaiting, _⟩ (markPending q.latest now s.storage).1
      hrun rfl rfl (.inr (.inr (.inr rfl))) rfl rfl (.inr rfl) rfl
  | markConfirmed run =>
    simp only [exec, bind_eq_ok, runAt_eq_ok, pure_eq_ok] at h
    obtain ⟨q, ⟨hrun, _⟩, rfl⟩ := h
    exact .finish run q q.latest (markConfirmed q.latest now s.storage).1 hrun (.inl rfl) rfl rfl rfl
      rfl rfl
  | markFailed run error =>
    simp only [exec, bind_eq_ok, expect_eq_ok, pure_eq_ok] at h
    obtain ⟨q, hrun, rfl⟩ := h
    exact .finish run q q.awaiting (markFailed q.awaiting error now s.storage).1 hrun (.inr rfl) rfl rfl
      rfl rfl rfl
  | markExpired run error =>
    simp only [exec, bind_eq_ok, expect_eq_ok, pure_eq_ok] at h
    obtain ⟨q, hrun, rfl⟩ := h
    exact .finish run q q.awaiting (markExpired q.awaiting error now s.storage).1 hrun (.inr rfl) rfl rfl
      rfl rfl rfl
  | reload run =>
    obtain rfl := pure_eq_ok.mp h
    exact .idle rfl fun n q hq => (update_none_eq_some.mp hq).2

def Apart (runs : ℕ → Option Run) : Prop :=
  ∀ run run' q q', runs run = some q → runs run' = some q' → q.latest.key = q'.latest.key → run = run'

/-- The invariant that ties the locks, the statuses and the runs together. -/
structure Exclusive (s : Tabs) : Prop where
  own : ∀ key i, loadIntent key s.storage = some i → i.key = key
  locked : ∀ key i, loadIntent key s.storage = some i → i.status.Active →
    loadLock i.kind i.address i.tier s.storage = some key
  holder : ∀ kind address tier key, loadLock kind address tier s.storage = some key →
    ∃ i, loadIntent key s.storage = some i ∧ i.operation = (kind, address, tier) ∧ i.status ≠ .idle
  running : ∀ run q, s.runs run = some q → ∃ i, loadIntent q.latest.key s.storage = some i ∧
    i.status.Active ∧ q.latest.operation = i.operation ∧ q.awaiting.key = q.latest.key ∧
    q.awaiting.operation = i.operation
  alone : Apart s.runs

section Runs
variable {runs : ℕ → Option Run} {m : ℕ} {p : Run}

theorem Apart.mono {runs' : ℕ → Option Run} (h : Apart runs)
    (hsub : ∀ m p, runs' m = some p → runs m = some p) : Apart runs' :=
  fun m m' p p' hp hp' hkey => h m m' p p' (hsub m p hp) (hsub m' p' hp') hkey

theorem Apart.update (h : Apart runs)
    (hnew : ∀ m p, m ≠ n → runs m = some p → p.latest.key ≠ q'.latest.key) :
    Apart (Function.update runs n (some q')) := by
  intro m m' p p' hp hp' hkey
  rcases update_some_eq_some.mp hp with ⟨rfl, rfl⟩ | ⟨hm, hold⟩ <;>
    rcases update_some_eq_some.mp hp' with ⟨rfl, rfl⟩ | ⟨hm', hold'⟩
  · rfl
  · exact absurd hkey.symm (hnew m' p' hm' hold')
  · exact absurd hkey (hnew m p hm hold)
  · exact h m m' p p' hold hold' hkey

end Runs

theorem exclusive_empty : Exclusive empty where
  own _ _ h := by simp [empty] at h
  locked _ _ h := by simp [empty] at h
  holder _ _ _ _ h := by simp [empty] at h
  running _ _ h := by simp [empty] at h
  alone _ _ _ _ h := by simp [empty] at h

namespace Exclusive

theorem create (hs : Exclusive s) (hfresh : loadIntent i.key s.storage = none) (hidle : i.status = .idle)
    (hstorage : s'.storage = saveIntent i s.storage) (hruns : s'.runs = s.runs) : Exclusive s' := by
  have hload : ∀ key, loadIntent key s'.storage =
      if key = i.key then some i else loadIntent key s.storage := by
    intro key
    rw [hstorage, loadIntent_saveIntent]
  have hne : ∀ {key j}, loadIntent key s.storage = some j → key ≠ i.key := by
    rintro key j hj rfl
    cases hfresh.symm.trans hj
  constructor
  · rw [hstorage]
    exact own_saveIntent hs.own i
  · intro key j hj hactive
    rw [hload] at hj
    split at hj
    · cases hj
      exact absurd hidle hactive.ne_idle
    · rw [hstorage, loadLock_saveIntent]
      exact hs.locked key j hj hactive
  · intro kind address tier key hlock
    rw [hstorage, loadLock_saveIntent] at hlock
    obtain ⟨j, hj, hop, hstatus⟩ := hs.holder kind address tier key hlock
    exact ⟨j, by rw [hload, if_neg (hne hj), hj], hop, hstatus⟩
  · intro n q hq
    rw [hruns] at hq
    obtain ⟨j, hj, hactive, hrest⟩ := hs.running n q hq
    exact ⟨j, by rw [hload, if_neg (hne hj), hj], hactive, hrest⟩
  · rw [hruns]
    exact hs.alone

theorem start {stored started : PaymentIntent} (hs : Exclusive s)
    (hstored : loadIntent intent.key s.storage = some stored)
    (hoperation : stored.operation = intent.operation) (hstart : stored.status.Startable)
    (hfree : ¬HeldByAnother intent s.storage) (hkey : started.key = stored.key)
    (hsame : started.operation = stored.operation) (hbuilding : started.status = .building)
    (hstorage : s'.storage = saveLock intent.kind intent.address intent.tier intent.key
      (saveIntent started s.storage))
    (hruns : s'.runs = Function.update s.runs n (some ⟨.started, started, started⟩)) :
    Exclusive s' := by
  have hown : started.key = intent.key := hkey.trans (hs.own _ _ hstored)
  have hop : started.operation = intent.operation := hsame.trans hoperation
  have hbegun : started.status.Active := .inl hbuilding
  have hload : ∀ key, loadIntent key s'.storage =
      if key = intent.key then some started else loadIntent key s.storage := by
    intro key
    rw [hstorage, loadIntent_saveLock, loadIntent_saveIntent, hown]
  have hlock : ∀ {kind address tier}, loadLock kind address tier s'.storage =
      if (kind, address, tier) = intent.operation then some intent.key
      else loadLock kind address tier s.storage := by
    intro kind address tier
    rw [hstorage, loadLock_saveLock, loadLock_saveIntent]
    rfl
  -- what is under way has another key than the intent that may start
  have hne : ∀ {key j}, loadIntent key s.storage = some j → j.status.Active → key ≠ intent.key := by
    rintro key j hj hactive rfl
    obtain rfl : stored = j := Option.some.inj (hstored.symm.trans hj)
    exact hactive.not_startable hstart
  have hother : ∀ m q, s.runs m = some q → q.latest.key ≠ intent.key := by
    intro m q hq
    obtain ⟨j, hj, hactive, _⟩ := hs.running m q hq
    exact hne hj hactive
  constructor
  · rw [hstorage]
    simp only [loadIntent_saveLock]
    exact own_saveIntent hs.own started
  · intro key j hj hactive
    rw [hload] at hj
    rw [hlock]
    split at hj
    · next heq =>
      cases hj
      have hlocked : (started.kind, started.address, started.tier) = intent.operation := hop
      rw [if_pos hlocked, heq]
    · have hheld : loadLock j.kind j.address j.tier s.storage = some key := hs.locked key j hj hactive
      by_cases hjop : j.operation = intent.operation
      · refine absurd ⟨key, ?_, hne hj hactive, j, hj, hactive.not_terminal⟩ hfree
        rw [← loadLock_congr hjop]
        exact hheld
      · exact (if_neg hjop).trans hheld
  · intro kind address tier key hheld
    rw [hlock] at hheld
    split at hheld
    · next heq =>
      cases hheld
      exact ⟨started, by rw [hload, if_pos rfl], hop.trans heq.symm, hbegun.ne_idle⟩
    · next hdiff =>
      obtain ⟨j, hj, hjop, hstatus⟩ := hs.holder kind address tier key hheld
      have hkne : key ≠ intent.key := by
        rintro rfl
        obtain rfl : stored = j := Option.some.inj (hstored.symm.trans hj)
        exact hdiff (hjop.symm.trans hoperation)
      exact ⟨j, by rw [hload, if_neg hkne, hj], hjop, hstatus⟩
  · intro m q hq
    rw [hruns] at hq
    rcases update_some_eq_some.mp hq with ⟨rfl, rfl⟩ | ⟨_, hq⟩
    · exact ⟨started, by rw [hload, if_pos hown], hbegun, rfl, rfl, rfl⟩
    · obtain ⟨j, hj, hactive, hrest⟩ := hs.running m q hq
      exact ⟨j, by rw [hload, if_neg (hne hj hactive), hj], hactive, hrest⟩
  · rw [hruns]
    apply hs.alone.update
    intro m q _ hq heq
    exact hother m q hq (heq.trans hown)

theorem advance (hs : Exclusive s) (hrun : s.runs n = some q)
    (hkey : i.key = ((loadIntent q.latest.key s.storage).getD q.latest).key)
    (hsame : i.operation = ((loadIntent q.latest.key s.storage).getD q.latest).operation)
    (hactive : i.status.Active) (hstorage : s'.storage = saveIntent i s.storage)
    (hlatest : q'.latest = i) (hawaiting : q'.awaiting = i ∨ q'.awaiting = q.awaiting)
    (hruns : s'.runs = Function.update s.runs n (some q')) : Exclusive s' := by
  obtain ⟨p, hp, hpactive, hlop, hakey, haop⟩ := hs.running n q hrun
  rw [hp, Option.getD_some] at hkey hsame
  have hown : i.key = q.latest.key := hkey.trans (hs.own _ _ hp)
  have hload : ∀ key, loadIntent key s'.storage =
      if key = i.key then some i else loadIntent key s.storage := by
    intro key
    rw [hstorage, loadIntent_saveIntent]
  have hlock : ∀ {kind address tier}, loadLock kind address tier s'.storage =
      loadLock kind address tier s.storage := by
    intro kind address tier
    rw [hstorage, loadLock_saveIntent]
  have hother : ∀ m r, m ≠ n → s.runs m = some r → r.latest.key ≠ i.key :=
    fun m r hm hr heq => hm (hs.alone m n r q hr hrun (heq.trans hown))
  constructor
  · rw [hstorage]
    exact own_saveIntent hs.own i
  · intro key j hj hjactive
    rw [hload] at hj
    rw [hlock]
    split at hj
    · next heq =>
      cases hj
      have hheld : loadLock p.kind p.address p.tier s.storage = some q.latest.key :=
        hs.locked _ p hp hpactive
      rw [loadLock_congr hsame, hheld, heq, hown]
    · exact hs.locked key j hj hjactive
  · intro kind address tier key hheld
    rw [hlock] at hheld
    obtain ⟨j, hj, hjop, hstatus⟩ := hs.holder kind address tier key hheld
    by_cases hk : key = i.key
    · rw [hk, hown] at hj
      obtain rfl : p = j := Option.some.inj (hp.symm.trans hj)
      exact ⟨i, by rw [hload, if_pos hk], hsame.trans hjop, hactive.ne_idle⟩
    · exact ⟨j, by rw [hload, if_neg hk, hj], hjop, hstatus⟩
  · intro m r hr
    rw [hruns] at hr
    rcases update_some_eq_some.mp hr with ⟨rfl, rfl⟩ | ⟨hm, hr⟩
    · refine ⟨i, by rw [hlatest, hload, if_pos rfl], hactive, by rw [hlatest], ?_, ?_⟩
      · rcases hawaiting with heq | heq
        · rw [heq, hlatest]
        · rw [heq, hlatest, hakey, hown]
      · rcases hawaiting with heq | heq
        · rw [heq]
        · rw [heq, haop, hsame]
    · obtain ⟨j, hj, hjactive, hrest⟩ := hs.running m r hr
      exact ⟨j, by rw [hload, if_neg (hother m r hm hr), hj], hjactive, hrest⟩
  · rw [hruns]
    apply hs.alone.update
    rw [hlatest]
    exact hother

theorem marked_key {marked : PaymentIntent} (hs : Exclusive s) (hrun : s.runs n = some q)
    (hmarked : marked = q.latest ∨ marked = q.awaiting) : marked.key = q.latest.key := by
  obtain ⟨_, _, _, _, hakey, _⟩ := hs.running n q hrun
  rcases hmarked with rfl | rfl
  · rfl
  · exact hakey

theorem finish {marked : PaymentIntent} (hs : Exclusive s) (hrun : s.runs n = some q)
    (hmarked : marked = q.latest ∨ marked = q.awaiting)
    (hkey : i.key = ((loadIntent marked.key s.storage).getD marked).key)
    (hsame : i.operation = ((loadIntent marked.key s.storage).getD marked).operation)
    (hterminal : isTerminal i.status = true)
    (hstorage : s'.storage = releaseLock marked.kind marked.address marked.tier
      (saveIntent i s.storage))
    (hruns : s'.runs = Function.update s.runs n none) : Exclusive s' := by
  obtain ⟨p, hp, hpactive, hlop, _, haop⟩ := hs.running n q hrun
  have hmop : marked.operation = p.operation := by
    rcases hmarked with rfl | rfl
    · exact hlop
    · exact haop
  rw [hs.marked_key hrun hmarked, hp, Option.getD_some] at hkey hsame
  have hown : i.key = q.latest.key := hkey.trans (hs.own _ _ hp)
  have hload : ∀ key, loadIntent key s'.storage =
      if key = i.key then some i else loadIntent key s.storage := by
    intro key
    rw [hstorage, loadIntent_releaseLock, loadIntent_saveIntent]
  have hlock : ∀ {kind address tier}, loadLock kind address tier s'.storage =
      if (kind, address, tier) = p.operation then none else loadLock kind address tier s.storage := by
    intro kind address tier
    rw [hstorage, loadLock_releaseLock, loadLock_saveIntent, ← hmop]
    rfl
  constructor
  · rw [hstorage]
    simp only [loadIntent_releaseLock]
    exact own_saveIntent hs.own i
  · intro key j hj hjactive
    rw [hload] at hj
    split at hj
    · cases hj
      have hgoing : isTerminal i.status = false := hjactive.not_terminal
      exact absurd hterminal (by simp [hgoing])
    · next hne =>
      have hheld : loadLock j.kind j.address j.tier s.storage = some key := hs.locked key j hj hjactive
      have hpheld : loadLock p.kind p.address p.tier s.storage = some q.latest.key :=
        hs.locked _ p hp hpactive
      rw [hlock, if_neg, hheld]
      -- the lock of the operation that ends names the intent that ends
      intro hjop
      have hjop : j.operation = p.operation := hjop
      rw [loadLock_congr hjop, hpheld] at hheld
      exact hne ((Option.some.inj hheld).symm.trans hown.symm)
  · intro kind address tier key hheld
    rw [hlock] at hheld
    split at hheld
    · cases hheld
    · next hdiff =>
      obtain ⟨j, hj, hjop, hstatus⟩ := hs.holder kind address tier key hheld
      have hne : key ≠ i.key := by
        intro heq
        rw [heq, hown, hp] at hj
        cases hj
        exact hdiff hjop.symm
      exact ⟨j, by rw [hload, if_neg hne, hj], hjop, hstatus⟩
  · intro m r hr
    rw [hruns] at hr
    obtain ⟨hm, hr⟩ := update_none_eq_some.mp hr
    obtain ⟨j, hj, hjactive, hrest⟩ := hs.running m r hr
    have hne : r.latest.key ≠ i.key := fun heq => hm (hs.alone m n r q hr hrun (heq.trans hown))
    exact ⟨j, by rw [hload, if_neg hne, hj], hjactive, hrest⟩
  · rw [hruns]
    apply hs.alone.mono
    exact fun m r hr => (update_none_eq_some.mp hr).2

theorem idle (hs : Exclusive s) (hstorage : s'.storage = s.storage)
    (hruns : ∀ run r, s'.runs run = some r → s.runs run = some r) : Exclusive s' := by
  constructor
  · rw [hstorage]
    exact hs.own
  · rw [hstorage]
    exact hs.locked
  · rw [hstorage]
    exact hs.holder
  · intro m r hr
    rw [hstorage]
    exact hs.running m r (hruns m r hr)
  · exact hs.alone.mono hruns

theorem effect {action : Action} (hs : Exclusive s) (h : Effect s action s') : Exclusive s' := by
  cases h with
  | create i hfresh hidle hstorage hruns => exact hs.create hfresh hidle hstorage hruns
  | idle hstorage hruns => exact hs.idle hstorage hruns
  | start run intent stored started haction hrun hstored hoperation hstart hfree hkey hsame hbuilding
      hstorage hruns =>
    exact hs.start hstored hoperation hstart hfree hkey hsame hbuilding hstorage hruns
  | advance run r r' i hrun hkey hsame hactive hstorage hlatest hawaiting hruns =>
    exact hs.advance hrun hkey hsame hactive hstorage hlatest hawaiting hruns
  | finish run r marked i hrun hmarked hkey hsame hterminal hstorage hruns =>
    exact hs.finish hrun hmarked hkey hsame hterminal hstorage hruns

theorem heldByAnother_iff (hs : Exclusive s) :
    HeldByAnother intent s.storage ↔ ∃ key j, key ≠ intent.key ∧
      loadIntent key s.storage = some j ∧ j.operation = intent.operation ∧ j.status.Active := by
  constructor
  · rintro ⟨key, hheld, hne, j, hj, hgoing⟩
    obtain ⟨j', hj', hop, hstatus⟩ := hs.holder _ _ _ key hheld
    obtain rfl : j = j' := Option.some.inj (hj.symm.trans hj')
    exact ⟨key, j, hne, hj, hop, IntentStatus.active_iff.mpr ⟨hstatus, hgoing⟩⟩
  · rintro ⟨key, j, hne, hj, hop, hactive⟩
    have hheld : loadLock j.kind j.address j.tier s.storage = some key := hs.locked key j hj hactive
    rw [loadLock_congr hop] at hheld
    exact ⟨key, hheld, hne, j, hj, hactive.not_terminal⟩

theorem findActiveIntent_eq (hs : Exclusive s) (hi : loadIntent key s.storage = some i)
    (hactive : i.status.Active) : findActiveIntent i.kind i.address i.tier s.storage = some i := by
  have hheld : loadLock i.kind i.address i.tier s.storage = some key := hs.locked key i hi hactive
  simp [findActiveIntent, hheld, hi, hactive.not_terminal]

/-- Saving a newer version of a stored intent keeps the operation under every key. -/
theorem kept_saveIntent {k : String} {p : PaymentIntent} (hs : Exclusive s)
    (hp : loadIntent k s.storage = some p) (hkey : i.key = p.key) (hsame : i.operation = p.operation)
    (hj : loadIntent key s.storage = some j) :
    ∃ j', loadIntent key (saveIntent i s.storage) = some j' ∧ j'.operation = j.operation := by
  rw [loadIntent_saveIntent, hkey, hs.own _ _ hp]
  split_ifs with hk
  · obtain rfl : p = j := Option.some.inj (hp.symm.trans (hk ▸ hj))
    exact ⟨i, rfl, hsame⟩
  · exact ⟨j, hj, rfl⟩

theorem kept {action : Action} (hs : Exclusive s) (h : Effect s action s')
    (hj : loadIntent key s.storage = some j) :
    ∃ j', loadIntent key s'.storage = some j' ∧ j'.operation = j.operation := by
  cases h with
  | create i hfresh hidle hstorage hruns =>
    have hne : key ≠ i.key := by
      rintro rfl
      cases hfresh.symm.trans hj
    exact ⟨j, by rw [hstorage, loadIntent_saveIntent, if_neg hne, hj], rfl⟩
  | idle hstorage hruns => exact ⟨j, by rw [hstorage, hj], rfl⟩
  | start run intent stored started haction hrun hstored hoperation hstart hfree hkey hsame hbuilding
      hstorage hruns =>
    rw [hstorage, loadIntent_saveLock]
    exact hs.kept_saveIntent hstored hkey hsame hj
  | advance run r r' i hrun hkey hsame hactive hstorage hlatest hawaiting hruns =>
    obtain ⟨p, hp, _⟩ := hs.running run r hrun
    rw [hp, Option.getD_some] at hkey hsame
    rw [hstorage]
    exact hs.kept_saveIntent hp hkey hsame hj
  | finish run r marked i hrun hmarked hkey hsame hterminal hstorage hruns =>
    obtain ⟨p, hp, _⟩ := hs.running run r hrun
    rw [hs.marked_key hrun hmarked, hp, Option.getD_some] at hkey hsame
    rw [hstorage, loadIntent_releaseLock]
    exact hs.kept_saveIntent hp hkey hsame hj

/-- A run that is there after a step was there before it, for the same key, or is begun by it. -/
theorem origin {action : Action} (hs : Exclusive s) (h : Effect s action s')
    (hq : s'.runs n = some q') :
    (∃ q, s.runs n = some q ∧ q.latest.key = q'.latest.key) ∨
      ∃ intent stored, action = .beginSubmission n intent ∧ s.runs n = none ∧
        loadIntent intent.key s.storage = some stored ∧ stored.status.Startable ∧
        ¬HeldByAnother intent s.storage ∧ q'.latest.key = intent.key := by
  cases h with
  | create i hfresh hidle hstorage hruns => exact .inl ⟨q', hruns ▸ hq, rfl⟩
  | idle hstorage hruns => exact .inl ⟨q', hruns n q' hq, rfl⟩
  | start run intent stored started haction hrun hstored hoperation hstart hfree hkey hsame hbuilding
      hstorage hruns =>
    rw [hruns] at hq
    rcases update_some_eq_some.mp hq with ⟨rfl, rfl⟩ | ⟨_, hq⟩
    · have hown : stored.key = intent.key := hs.own _ _ hstored
      exact .inr ⟨intent, stored, haction, hrun, hstored, hstart, hfree, hkey.trans hown⟩
    · exact .inl ⟨q', hq, rfl⟩
  | advance run r r' i hrun hkey hsame hactive hstorage hlatest hawaiting hruns =>
    rw [hruns] at hq
    rcases update_some_eq_some.mp hq with ⟨rfl, rfl⟩ | ⟨_, hq⟩
    · obtain ⟨p, hp, _⟩ := hs.running n r hrun
      rw [hp, Option.getD_some, hs.own _ _ hp] at hkey
      exact .inl ⟨r, hrun, by rw [hlatest, hkey]⟩
    · exact .inl ⟨q', hq, rfl⟩
  | finish run r marked i hrun hmarked hkey hsame hterminal hstorage hruns =>
    rw [hruns] at hq
    exact .inl ⟨q', (update_none_eq_some.mp hq).2, rfl⟩

/-- Where nothing forbids it, a submission begins. -/
theorem begins {stored : PaymentIntent} {now : ℕ} (hs : Exclusive s)
    (hstored : loadIntent intent.key s.storage = some stored) (hstart : stored.status.Startable)
    (hfree : ¬HeldByAnother intent s.storage)
    (h : exec s ⟨now, .beginSubmission n intent⟩ = .ok r) :
    ∃ q, s.runs n = none ∧ r.1.runs n = some q ∧ q.stage = .started ∧ q.latest.key = intent.key := by
  simp only [exec, bind_eq_ok, failIf_eq_ok, Bool.not_eq_true, Option.isSome_eq_false_iff,
    Option.isNone_iff_eq_none] at h
  obtain ⟨_, _, _, hnew, h⟩ := h
  split at h
  · next hnone =>
    rw [beginSubmission_eq_none, hstored, Option.getD_some] at hnone
    exact absurd hnone (not_or.mpr ⟨not_not.mpr hstart, hfree⟩)
  · next started storage hbegin =>
    obtain ⟨_, _, heq⟩ := beginSubmission_eq_some.mp hbegin
    obtain ⟨rfl, rfl⟩ := Prod.mk.inj heq
    obtain rfl := pure_eq_ok.mp h
    have hown : stored.key = intent.key := hs.own _ _ hstored
    refine ⟨_, hnew, Function.update_self .., rfl, ?_⟩
    rw [hstored]
    exact hown

theorem reply (hs : Exclusive s) (h : exec s c = .ok (s', some i)) :
    loadIntent i.key s'.storage = some i := by
  obtain ⟨now, action⟩ := c
  cases action with
  | createIntent kind address tier asset amount nonce =>
    simp only [exec, bind_eq_ok, failIf_eq_ok, pure_eq_ok, Prod.mk.injEq, Option.some.injEq] at h
    obtain ⟨_, _, rfl, rfl⟩ := h
    exact (loadIntent_saveIntent _ _ _).trans (if_pos rfl)
  | findActiveIntent kind address tier =>
    simp only [exec, pure_eq_ok, Prod.mk.injEq, findActiveIntent, Option.bind_eq_bind,
      Option.bind_eq_some_iff] at h
    obtain ⟨rfl, lock, _, j, hj, hsome⟩ := h
    split at hsome
    · cases hsome
    · cases hsome
      rw [hs.own _ _ hj, hj]
  | beginSubmission run intent =>
    simp only [exec, bind_eq_ok] at h
    obtain ⟨_, _, _, _, h⟩ := h
    split at h
    · cases pure_eq_ok.mp h
    · next started storage hbegin =>
      obtain ⟨_, _, heq⟩ := beginSubmission_eq_some.mp hbegin
      obtain ⟨rfl, rfl⟩ := Prod.mk.inj heq
      obtain ⟨rfl, hi⟩ := Prod.mk.inj (pure_eq_ok.mp h)
      cases hi
      rw [loadIntent_saveLock, loadIntent_saveIntent, if_pos rfl]
  | markAwaitingSignature run =>
    simp only [exec, bind_eq_ok, pure_eq_ok, Prod.mk.injEq, Option.some.injEq] at h
    obtain ⟨q, _, rfl, rfl⟩ := h
    exact (loadIntent_saveIntent _ _ _).trans (if_pos rfl)
  | markSubmitted run txHash =>
    simp only [exec, bind_eq_ok, pure_eq_ok, Prod.mk.injEq, Option.some.injEq] at h
    obtain ⟨q, _, rfl, rfl⟩ := h
    exact (loadIntent_saveIntent _ _ _).trans (if_pos rfl)
  | markPending run =>
    simp only [exec, bind_eq_ok, pure_eq_ok, Prod.mk.injEq, Option.some.injEq] at h
    obtain ⟨q, _, rfl, rfl⟩ := h
    exact (loadIntent_saveIntent _ _ _).trans (if_pos rfl)
  | markConfirmed run =>
    simp only [exec, bind_eq_ok, pure_eq_ok, Prod.mk.injEq, Option.some.injEq] at h
    obtain ⟨q, _, rfl, rfl⟩ := h
    exact (loadIntent_releaseLock _).trans ((loadIntent_saveIntent _ _ _).trans (if_pos rfl))
  | markFailed run error =>
    simp only [exec, bind_eq_ok, pure_eq_ok, Prod.mk.injEq, Option.some.injEq] at h
    obtain ⟨q, _, rfl, rfl⟩ := h
    exact (loadIntent_releaseLock _).trans ((loadIntent_saveIntent _ _ _).trans (if_pos rfl))
  | markExpired run error =>
    simp only [exec, bind_eq_ok, pure_eq_ok, Prod.mk.injEq, Option.some.injEq] at h
    obtain ⟨q, _, rfl, rfl⟩ := h
    exact (loadIntent_releaseLock _).trans ((loadIntent_saveIntent _ _ _).trans (if_pos rfl))
  | reload run => cases pure_eq_ok.mp h

end Exclusive

theorem run_exclusive (cs : List Invocation) : Exclusive (run exec empty cs) :=
  run_invariant (I := Exclusive) (fun _ _ _ hs h => hs.effect (exec_effect h)) exclusive_empty cs

theorem run_copies (cs : List Invocation) : ∀ e ∈ log exec empty cs, ∀ i, e.2 = some i →
    copyOf i (run exec empty cs).storage = .ok () := by
  have hinv : Exclusive (run exec empty cs) ∧ ∀ e ∈ log exec empty cs, ∀ i, e.2 = some i →
      copyOf i (run exec empty cs).storage = .ok () := by
    refine run_log_invariant (I := fun s l => Exclusive s ∧ ∀ e ∈ l, ∀ i, e.2 = some i →
      copyOf i s.storage = .ok ()) ⟨exclusive_empty, by simp⟩ ?_ cs
    rintro s l c ⟨s', o⟩ ⟨hs, hcopies⟩ h
    refine ⟨hs.effect (exec_effect h), fun e he i hi => ?_⟩
    rcases List.mem_append.mp he with he | he
    · obtain ⟨stored, hstored, hop⟩ := copyOf_eq_ok.mp (hcopies e he i hi)
      obtain ⟨kept, hkept, hkeptop⟩ := hs.kept (exec_effect h) hstored
      exact copyOf_eq_ok.mpr ⟨kept, hkept, hkeptop.trans hop⟩
    · rw [List.mem_singleton] at he
      subst he
      have ho : o = some i := hi
      subst ho
      exact copyOf_eq_ok.mpr ⟨i, hs.reply h, rfl⟩
  exact hinv.2

/-- In every interleaving, for each operation at most one intent is under way, its key is in the lock
and it is the one found; and a submission, begun with whatever copy, is refused exactly when the stored
intent may not start or another one of the operation is under way. -/
theorem run_exclusion (cs : List Invocation) :
    (∀ key key' i j, loadIntent key (run exec empty cs).storage = some i →
      loadIntent key' (run exec empty cs).storage = some j → i.status.Active → j.status.Active →
      i.operation = j.operation → key = key' ∧ i = j) ∧
    (∀ key i, loadIntent key (run exec empty cs).storage = some i → i.status.Active →
      i.key = key ∧ loadLock i.kind i.address i.tier (run exec empty cs).storage = some i.key ∧
      findActiveIntent i.kind i.address i.tier (run exec empty cs).storage = some i) ∧
    (∀ e ∈ log exec empty cs, ∀ i, e.2 = some i → copyOf i (run exec empty cs).storage = .ok ()) ∧
    ∀ i stored now, loadIntent i.key (run exec empty cs).storage = some stored →
      stored.operation = i.operation →
      (beginSubmission i now (run exec empty cs).storage = none ↔ ¬stored.status.Startable ∨
        ∃ key j, key ≠ i.key ∧ loadIntent key (run exec empty cs).storage = some j ∧
          j.operation = i.operation ∧ j.status.Active) := by
  have hs : Exclusive (run exec empty cs) := run_exclusive cs
  refine ⟨?_, ?_, run_copies cs, ?_⟩
  · intro key key' i j hi hj hiactive hjactive hop
    have hiheld : loadLock i.kind i.address i.tier (run exec empty cs).storage = some key :=
      hs.locked key i hi hiactive
    have hjheld : loadLock j.kind j.address j.tier (run exec empty cs).storage = some key' :=
      hs.locked key' j hj hjactive
    rw [loadLock_congr hop] at hiheld
    obtain rfl : key = key' := Option.some.inj (hiheld.symm.trans hjheld)
    exact ⟨rfl, Option.some.inj (hi.symm.trans hj)⟩
  · intro key i hi hactive
    have hown : i.key = key := hs.own key i hi
    refine ⟨hown, ?_, hs.findActiveIntent_eq hi hactive⟩
    rw [hown]
    exact hs.locked key i hi hactive
  · intro i stored now hstored hop
    rw [beginSubmission_eq_none, hstored, Option.getD_some, hs.heldByAnother_iff]

end Tabs
end YieldLadder.Payment
