import YieldLadder.Payment.Tabs

/-! # The transaction hash of the current attempt

What `markSubmitted` was given in the current attempt of an intent is added as a
history variable. A stored record and the history agree after every step as long as
no submission begins on a record that still carries the hash of an earlier attempt:
`beginSubmission` resets the status and the error, and keeps the hash.
-/
namespace YieldLadder.Payment
open Foundation

/-- The status a stored intent has while its run is at the stage. -/
def Stage.status : Stage → IntentStatus
  | .started => .building
  | .awaitingSignature => .awaitingSignature
  | .submitted => .submitted
  | .pending => .pending

/-- The record has no hash before its attempt has submitted, the one submitted from then on, and as a
failure one only if the attempt had submitted. -/
def Current (hash : Option String) (i : PaymentIntent) : Prop :=
  match i.status with
  | .idle => i.txHash = none
  | .building => i.txHash = none
  | .awaitingSignature => i.txHash = none
  | .submitted => i.txHash = hash ∧ hash ≠ none
  | .pending => i.txHash = hash ∧ hash ≠ none
  | .confirmed => i.txHash = hash ∧ hash ≠ none
  | .failed => i.txHash ≠ none → hash ≠ none
  | .expired => True

/-- The tabs, and for each key the hash that the current attempt has submitted. -/
structure Attempts where
  tabs : Tabs
  hash : String → Option String

namespace Attempts

def empty : Attempts := ⟨.empty, fun _ => none⟩

/-- A submission that begins starts an attempt, and `markSubmitted` gives it its hash. -/
def recorded (action : Tabs.Action) (reply : Option PaymentIntent) (hash : String → Option String) :
    String → Option String :=
  match action, reply with
  | .beginSubmission _ _, some started => Function.update hash started.key none
  | .markSubmitted _ txHash, some submitted => Function.update hash submitted.key (some txHash)
  | _, _ => hash

def exec (s : Attempts) (c : Tabs.Invocation) : Except Tabs.Refusal (Attempts × Option PaymentIntent) := do
  let (tabs, reply) ← Tabs.exec s.tabs c
  pure (⟨tabs, recorded c.action reply s.hash⟩, reply)

def AllCurrent (s : Attempts) : Prop :=
  ∀ key i, loadIntent key s.tabs.storage = some i → Current (s.hash key) i

/-- The submission of a copy of the stored record begins. -/
structure Begins (s : Tabs) (run : ℕ) (intent stored : PaymentIntent) : Prop where
  free : s.runs run = none
  load : loadIntent intent.key s.storage = some stored
  copy : stored.operation = intent.operation
  startable : stored.status.Startable
  unlocked : ¬HeldByAnother intent s.storage

def Clean (s : Tabs) (c : Tabs.Invocation) : Prop :=
  ∀ run intent stored, c.action = .beginSubmission run intent → Begins s run intent stored →
    stored.txHash = none

/-- The status of a record is the one of the stage of its run. -/
structure Staged (s : Tabs) : Prop where
  exclusive : Tabs.Exclusive s
  status : ∀ n q, s.runs n = some q → ∀ i, loadIntent q.latest.key s.storage = some i →
    i.status = q.stage.status

/-- What a step does to the records: nothing, or it saves one, which is current exactly when the step
is clean. -/
inductive Saved (s : Tabs) (c : Tabs.Invocation) (r : Tabs × Option PaymentIntent) : Prop
  | same (hload : ∀ key, loadIntent key r.1.storage = loadIntent key s.storage)
      (hruns : ∀ n q, r.1.runs n = some q → s.runs n = some q)
      (hhash : ∀ hash, recorded c.action r.2 hash = hash) (hclean : Clean s c)
  | saved (k : String) (i : PaymentIntent)
      (hload : ∀ key, loadIntent key r.1.storage = if key = k then some i else loadIntent key s.storage)
      (hruns : ∀ n q, r.1.runs n = some q →
        s.runs n = some q ∧ q.latest.key ≠ k ∨ q.latest.key = k ∧ i.status = q.stage.status)
      (hhash : ∀ hash key, key ≠ k → recorded c.action r.2 hash key = hash key)
      (hcurrent : ∀ hash, (∀ p, loadIntent k s.storage = some p → Current (hash k) p) →
        (Current (recorded c.action r.2 hash k) i ↔ Clean s c))

variable {s : Tabs} {t : Attempts} {c : Tabs.Invocation} {r : Tabs × Option PaymentIntent} {n : ℕ}
variable {q : Run} {p marked : PaymentIntent} {patch : PaymentIntent → PaymentIntent} {stage : Stage}

theorem clean_of_ne (h : ∀ run intent, c.action ≠ .beginSubmission run intent) : Clean s c :=
  fun run intent _ hbegin => absurd hbegin (h run intent)

theorem Begins.exec_ok {run : ℕ} {intent stored : PaymentIntent} (h : Begins s run intent stored)
    (haction : c.action = .beginSubmission run intent) : ∃ r, Tabs.exec s c = .ok r := by
  have hcopy : Tabs.copyOf intent s.storage = .ok () := Tabs.copyOf_eq_ok.mpr ⟨stored, h.load, h.copy⟩
  obtain ⟨now, action⟩ := c
  obtain rfl : action = .beginSubmission run intent := haction
  simp only [Tabs.exec, hcopy, h.free]
  cases beginSubmission intent now s.storage with
  | none => exact ⟨_, rfl⟩
  | some begun => exact ⟨_, rfl⟩

theorem Staged.record (hs : Staged s) (hrun : s.runs n = some q) :
    ∃ p, loadIntent q.latest.key s.storage = some p ∧ p.key = q.latest.key ∧
      p.status = q.stage.status := by
  obtain ⟨p, hp, _⟩ := hs.exclusive.running n q hrun
  exact ⟨p, hp, hs.exclusive.own _ _ hp, hs.status n q hrun p hp⟩

theorem transition_eq (hp : loadIntent marked.key s.storage = some p) :
    (transition marked patch c.now s.storage).1 = { patch p with updatedAt := c.now } := by
  simp [transition, hp]

theorem load_transition (hp : loadIntent marked.key s.storage = some p) (hkey : p.key = marked.key)
    (hpatch : ∀ j, (patch j).key = j.key) (key : String) :
    loadIntent key (transition marked patch c.now s.storage).2 =
      if key = marked.key then some { patch p with updatedAt := c.now }
      else loadIntent key s.storage := by
  have hupdated : (patch p).key = marked.key := (hpatch p).trans hkey
  unfold transition
  rw [hp]
  dsimp only [Option.getD_some]
  rw [loadIntent_saveIntent]
  dsimp only
  rw [hupdated]

theorem current_submitted {hash : Option String} (hp : p.status = stage.status) (h : Current hash p) :
    p.txHash ≠ none → hash ≠ none := by
  unfold Current at h
  rw [hp] at h
  cases stage with
  | started => exact fun hne => absurd h hne
  | awaitingSignature => exact fun hne => absurd h hne
  | submitted => exact fun _ => h.2
  | pending => exact fun _ => h.2

theorem current_building {hash : Option String} (h : p.status = .building) :
    Current hash p ↔ p.txHash = none := by
  unfold Current
  rw [h]

theorem current_submission {hash : Option String} (h : p.status = .submitted ∨ p.status = .pending) :
    Current hash p ↔ p.txHash = hash ∧ hash ≠ none := by
  unfold Current
  rcases h with h | h <;> rw [h]

/-- A mark that takes the run to the next stage. -/
theorem Staged.advanced (hs : Staged s) (hrun : s.runs n = some q) (awaiting : PaymentIntent)
    (hpatch : ∀ j, (patch j).key = j.key) (hstatus : ∀ j, (patch j).status = stage.status)
    (haction : ∀ run intent, c.action ≠ .beginSubmission run intent)
    (hhash : ∀ hash key, key ≠ q.latest.key →
      recorded c.action (some (transition q.latest patch c.now s.storage).1) hash key = hash key)
    (hcurrent : ∀ hash p, p.status = q.stage.status → Current (hash q.latest.key) p →
      Current (recorded c.action (some (transition q.latest patch c.now s.storage).1) hash q.latest.key)
        { patch p with updatedAt := c.now }) :
    Saved s c (⟨(transition q.latest patch c.now s.storage).2, Function.update s.runs n
      (some ⟨stage, awaiting, (transition q.latest patch c.now s.storage).1⟩)⟩,
      some (transition q.latest patch c.now s.storage).1) := by
  obtain ⟨p, hp, hkey, hpstatus⟩ := hs.record hrun
  refine .saved q.latest.key { patch p with updatedAt := c.now } (load_transition hp hkey hpatch)
    (fun m q' hq' => ?_) hhash fun hash hold => ?_
  · rcases Tabs.update_some_eq_some.mp hq' with ⟨rfl, rfl⟩ | ⟨hm, hq'⟩
    · refine .inr ⟨?_, hstatus p⟩
      rw [transition_eq hp]
      exact (hpatch p).trans hkey
    · exact .inl ⟨hq', fun heq => hm (hs.exclusive.alone m n q' q hq' hrun heq)⟩
  · exact iff_of_true (hcurrent hash p hpstatus (hold p hp)) (clean_of_ne haction)

/-- A mark that ends the run. -/
theorem Staged.finished (hs : Staged s) (hrun : s.runs n = some q)
    (hmarked : marked = q.latest ∨ marked = q.awaiting) (hpatch : ∀ j, (patch j).key = j.key)
    (haction : ∀ run intent, c.action ≠ .beginSubmission run intent)
    (hhash : ∀ hash, recorded c.action (some (finish marked patch c.now s.storage).1) hash = hash)
    (hcurrent : ∀ hash p, p.status = q.stage.status → Current hash p →
      Current hash { patch p with updatedAt := c.now }) :
    Saved s c (⟨(finish marked patch c.now s.storage).2, Function.update s.runs n none⟩,
      some (finish marked patch c.now s.storage).1) := by
  obtain ⟨p, hp, hkey, hpstatus⟩ := hs.record hrun
  have hsame : marked.key = q.latest.key := hs.exclusive.marked_key hrun hmarked
  rw [← hsame] at hp hkey
  refine .saved marked.key { patch p with updatedAt := c.now } (fun key => ?_) (fun m q' hq' => ?_)
    (fun hash key _ => by rw [hhash]) fun hash hold => ?_
  · unfold finish
    rw [loadIntent_releaseLock]
    exact load_transition hp hkey hpatch key
  · obtain ⟨hm, hq'⟩ := Tabs.update_none_eq_some.mp hq'
    exact .inl ⟨hq', fun heq => hm (hs.exclusive.alone m n q' q hq' hrun (heq.trans hsame))⟩
  · rw [hhash]
    exact iff_of_true (hcurrent (hash marked.key) p hpstatus (hold p hp)) (clean_of_ne haction)

/-- A submission that begins. -/
theorem Staged.begun {run now : ℕ} {intent stored : PaymentIntent} (hs : Staged s)
    (hb : Begins s run intent stored) :
    Saved s ⟨now, .beginSubmission run intent⟩
      (⟨saveLock intent.kind intent.address intent.tier intent.key
        (saveIntent { stored with status := .building, error := none, updatedAt := now } s.storage),
        Function.update s.runs run (some ⟨.started,
          { stored with status := .building, error := none, updatedAt := now },
          { stored with status := .building, error := none, updatedAt := now }⟩)⟩,
        some { stored with status := .building, error := none, updatedAt := now }) := by
  have hown : stored.key = intent.key := hs.exclusive.own _ _ hb.load
  refine .saved intent.key { stored with status := .building, error := none, updatedAt := now }
    (fun key => ?_) (fun m q' hq' => ?_) (fun hash key hkey => ?_) fun hash _ => ?_
  · rw [loadIntent_saveLock, loadIntent_saveIntent]
    dsimp only
    rw [hown]
  · rcases Tabs.update_some_eq_some.mp hq' with ⟨rfl, rfl⟩ | ⟨_, hq'⟩
    · exact .inr ⟨hown, rfl⟩
    · refine .inl ⟨hq', fun heq => ?_⟩
      obtain ⟨i, hi, hactive, _⟩ := hs.exclusive.running m q' hq'
      rw [heq] at hi
      cases hb.load.symm.trans hi
      exact hactive.not_startable hb.startable
  · exact Function.update_of_ne (fun heq => hkey (heq.trans hown)) none hash
  · rw [current_building rfl]
    constructor
    · intro hnone run' intent' stored' hbegin hb'
      cases hbegin
      cases hb.load.symm.trans hb'.load
      exact hnone
    · intro hclean
      exact hclean run intent stored rfl hb

/-- What every action does to the records, one case an action. -/
theorem exec_saved (hs : Staged s) (h : Tabs.exec s c = .ok r) : Saved s c r := by
  obtain ⟨now, action⟩ := c
  cases action with
  | createIntent kind address tier asset amount nonce =>
    simp only [Tabs.exec, bind_eq_ok, failIf_eq_ok, pure_eq_ok, Bool.not_eq_true,
      Option.isSome_eq_false_iff, Option.isNone_iff_eq_none] at h
    obtain ⟨_, hfresh, rfl⟩ := h
    refine .saved _ (createIntent kind address tier asset amount nonce now s.storage).1
      (fun key => loadIntent_saveIntent key _ s.storage) (fun m q' hq' => .inl ⟨hq', fun heq => ?_⟩)
      (fun _ _ _ => rfl) fun hash _ => iff_of_true rfl (clean_of_ne (by simp))
    obtain ⟨p, hp, _⟩ := hs.record hq'
    rw [heq] at hp
    cases hfresh.symm.trans hp
  | findActiveIntent kind address tier =>
    obtain rfl := pure_eq_ok.mp h
    exact .same (fun _ => rfl) (fun _ _ hq => hq) (fun _ => rfl) (clean_of_ne (by simp))
  | beginSubmission run intent =>
    simp only [Tabs.exec, bind_eq_ok, Tabs.copyOf_eq_ok, failIf_eq_ok, Bool.not_eq_true,
      Option.isSome_eq_false_iff, Option.isNone_iff_eq_none] at h
    obtain ⟨_, ⟨stored, hstored, hoperation⟩, _, hfree, h⟩ := h
    split at h
    · next hrefused =>
      obtain rfl := pure_eq_ok.mp h
      refine .same (fun _ => rfl) (fun _ _ hq => hq) (fun _ => rfl) fun _ _ stored' hbegin hb => ?_
      cases hbegin
      rw [beginSubmission_eq_none, hb.load, Option.getD_some] at hrefused
      exact absurd hb.startable (hrefused.resolve_right hb.unlocked)
    · next started storage hbegin =>
      obtain ⟨hstart, hheld, heq⟩ := beginSubmission_eq_some.mp hbegin
      obtain ⟨rfl, rfl⟩ := Prod.mk.inj heq
      obtain rfl := pure_eq_ok.mp h
      simp only [hstored, Option.getD_some] at hstart ⊢
      exact hs.begun ⟨hfree, hstored, hoperation, hstart, hheld⟩
  | markAwaitingSignature run =>
    simp only [Tabs.exec, bind_eq_ok, Tabs.runAt_eq_ok, pure_eq_ok] at h
    obtain ⟨q, ⟨hrun, hstage⟩, rfl⟩ := h
    refine hs.advanced hrun _ (fun _ => rfl) (fun _ => rfl) (by simp) (fun _ _ _ => rfl) ?_
    intro hash p hp hcurrent
    rw [hstage] at hp
    exact (current_building hp).mp hcurrent
  | markSubmitted run txHash =>
    simp only [Tabs.exec, bind_eq_ok, Tabs.runAt_eq_ok, pure_eq_ok] at h
    obtain ⟨q, ⟨hrun, hstage⟩, rfl⟩ := h
    obtain ⟨p, hp, hkey, _⟩ := hs.record hrun
    have hreply : (markSubmitted q.latest txHash now s.storage).1.key = q.latest.key := by
      unfold markSubmitted
      rw [transition_eq (c := ⟨now, .markSubmitted run txHash⟩) hp]
      exact hkey
    refine hs.advanced hrun _ (fun _ => rfl) (fun _ => rfl) (by simp)
      (fun hash key hne => ?_) fun hash p _ _ => ?_
    · exact Function.update_of_ne (fun heq => hne (heq.trans hreply)) _ hash
    · have hrecorded : recorded (.markSubmitted run txHash)
          (some (markSubmitted q.latest txHash now s.storage).1) hash q.latest.key = some txHash := by
        rw [← hreply]
        exact Function.update_self _ _ hash
      exact ⟨hrecorded.symm, hrecorded ▸ Option.some_ne_none txHash⟩
  | markPending run =>
    simp only [Tabs.exec, bind_eq_ok, Tabs.runAt_eq_ok, pure_eq_ok] at h
    obtain ⟨q, ⟨hrun, hstage⟩, rfl⟩ := h
    refine hs.advanced hrun _ (fun _ => rfl) (fun _ => rfl) (by simp) (fun _ _ _ => rfl) ?_
    intro hash p hp hcurrent
    rw [hstage] at hp
    exact (current_submission (.inl hp)).mp hcurrent
  | markConfirmed run =>
    simp only [Tabs.exec, bind_eq_ok, Tabs.runAt_eq_ok, pure_eq_ok] at h
    obtain ⟨q, ⟨hrun, hstage⟩, rfl⟩ := h
    refine hs.finished hrun (.inl rfl) (fun _ => rfl) (by simp) (fun _ => rfl) ?_
    intro hash p hp hcurrent
    rw [hstage] at hp
    exact (current_submission (.inr hp)).mp hcurrent
  | markFailed run error =>
    simp only [Tabs.exec, bind_eq_ok, expect_eq_ok, pure_eq_ok] at h
    obtain ⟨q, hrun, rfl⟩ := h
    refine hs.finished hrun (.inr rfl) (fun _ => rfl) (by simp) (fun _ => rfl) ?_
    intro hash p hp hcurrent
    exact current_submitted (p := p) hp hcurrent
  | markExpired run error =>
    simp only [Tabs.exec, bind_eq_ok, expect_eq_ok, pure_eq_ok] at h
    obtain ⟨q, hrun, rfl⟩ := h
    exact hs.finished hrun (.inr rfl) (fun _ => rfl) (by simp) (fun _ => rfl)
      fun _ _ _ _ => trivial
  | reload run =>
    obtain rfl := pure_eq_ok.mp h
    exact .same (fun _ => rfl) (fun _ _ hq => (Tabs.update_none_eq_some.mp hq).2) (fun _ => rfl)
      (clean_of_ne (by simp))

theorem staged_empty : Staged Tabs.empty where
  exclusive := Tabs.exclusive_empty
  status _ _ h := by simp [Tabs.empty] at h

theorem Staged.step (hs : Staged s) (h : Tabs.exec s c = .ok r) : Staged r.1 where
  exclusive := hs.exclusive.effect (Tabs.exec_effect h)
  status := by
    intro n q hq i hi
    cases exec_saved hs h with
    | same hload hruns _ _ =>
      rw [hload] at hi
      exact hs.status n q (hruns n q hq) i hi
    | saved k saved hload hruns _ _ =>
      rw [hload] at hi
      rcases hruns n q hq with ⟨hq, hkey⟩ | ⟨hkey, hstatus⟩
      · rw [if_neg hkey] at hi
        exact hs.status n q hq i hi
      · rw [if_pos hkey] at hi
        cases hi
        exact hstatus

theorem exec_eq_ok {a : Attempts × Option PaymentIntent} : exec t c = .ok a ↔
    ∃ r, Tabs.exec t.tabs c = .ok r ∧ a = (⟨r.1, recorded c.action r.2 t.hash⟩, r.2) := by
  simp only [exec, bind_eq_ok, pure_eq_ok, eq_comm (b := a)]

theorem step_allCurrent (hs : Staged t.tabs) (hcurrent : t.AllCurrent)
    (h : Tabs.exec t.tabs c = .ok r) :
    AllCurrent ⟨r.1, recorded c.action r.2 t.hash⟩ ↔ Clean t.tabs c := by
  cases exec_saved hs h with
  | same hload _ hhash hclean =>
    refine iff_of_true (fun key i hi => ?_) hclean
    rw [hhash]
    exact hcurrent key i ((hload key).symm.trans hi)
  | saved k i hload _ hhash hiff =>
    rw [← hiff t.hash fun p hp => hcurrent k p hp]
    constructor
    · intro hall
      apply hall k i
      rw [hload, if_pos rfl]
    · intro hi key j hj
      rw [hload] at hj
      split at hj
      · next heq =>
        cases hj
        rw [heq]
        exact hi
      · next hkey =>
        dsimp only
        rw [hhash t.hash key hkey]
        exact hcurrent key j hj

theorem next_staged (hs : Staged t.tabs) (c : Tabs.Invocation) : Staged (next exec t c).tabs :=
  next_induction (I := fun t : Attempts => Staged t.tabs) hs fun a ha => by
    obtain ⟨r, hr, rfl⟩ := exec_eq_ok.mp ha
    exact hs.step hr

theorem next_allCurrent (hs : Staged t.tabs) (hcurrent : t.AllCurrent) (c : Tabs.Invocation) :
    (next exec t c).AllCurrent ↔ Clean t.tabs c := by
  cases h : Tabs.exec t.tabs c with
  | ok r =>
    rw [next_ok (exec_eq_ok.mpr ⟨r, h, rfl⟩)]
    exact step_allCurrent hs hcurrent h
  | error e =>
    rw [next_error (e := e) (by simp [exec, h])]
    refine iff_of_true hcurrent fun run intent stored haction hb => ?_
    obtain ⟨r, hr⟩ := hb.exec_ok haction
    cases h.symm.trans hr

/-- Every stored hash belongs to the current attempt throughout a run exactly when no submission of the
run begins on a record that still has a hash. -/
theorem run_current (cs : List Tabs.Invocation) :
    (∀ ds, ds <+: cs → (run exec empty ds).AllCurrent) ↔
      Meets exec (fun t c => Clean t.tabs c) empty cs := by
  have hempty : empty.AllCurrent := fun key i hi => nomatch hi
  rw [← forall_prefix_iff_meets (I := fun t => Staged t.tabs ∧ t.AllCurrent) (Q := fun _ => True)
    (fun t c _ ht => ⟨fun hI => (next_allCurrent ht.1 ht.2 c).mp hI.2,
      fun hc => ⟨next_staged ht.1 c, (next_allCurrent ht.1 ht.2 c).mpr hc⟩⟩)
    ⟨staged_empty, hempty⟩ fun _ _ => trivial]
  have hstaged : ∀ ds, Staged (run exec empty ds).tabs := by
    intro ds
    refine run_invariant (I := fun t : Attempts => Staged t.tabs) (fun t c a ht ha => ?_) staged_empty ds
    obtain ⟨r, hr, rfl⟩ := exec_eq_ok.mp ha
    exact ht.step hr
  exact forall₂_congr fun ds _ => ⟨fun hcurrent => ⟨hstaged ds, hcurrent⟩, And.right⟩

section Retry

def ben : WalletAddress := ⟨"GBEN", by decide⟩

def bensIntent : PaymentIntent := (createIntent .deposit ben "flex" "USDC" "100" "n1" 0 .empty).1

/-- The first attempt times out with its hash, the signature for the second one is declined. -/
def declinedRetry : List Tabs.Invocation :=
  [⟨0, .createIntent .deposit ben "flex" "USDC" "100" "n1"⟩,
    ⟨1000, .beginSubmission 0 bensIntent⟩,
    ⟨1000, .markAwaitingSignature 0⟩,
    ⟨3000, .markSubmitted 0 "a1"⟩,
    ⟨3000, .markPending 0⟩,
    ⟨23000, .markExpired 0 "Could not confirm this transaction in time."⟩,
    ⟨40000, .beginSubmission 0 bensIntent⟩,
    ⟨40000, .markAwaitingSignature 0⟩,
    ⟨42000, .markFailed 0 "Signing was declined."⟩]

theorem declinedRetry_keeps_hash : ¬(run exec empty (declinedRetry.take 7)).AllCurrent ∧
    ¬(run exec empty declinedRetry).AllCurrent := by
  have hbuilding : ∃ i, loadIntent bensIntent.key (run exec empty (declinedRetry.take 7)).tabs.storage =
      some i ∧ i.status = .building ∧ i.txHash = some "a1" := by
    simp [declinedRetry, run, next, exec, empty, Tabs.empty, Tabs.exec, Tabs.runAt,
      Tabs.copyOf, failIf, expect, createIntent, bensIntent, loadIntent_saveIntent, beginSubmission,
      IntentStatus.Startable, HeldByAnother, markAwaitingSignature, transition,
      PaymentIntent.operation, loadLock_releaseLock, markSubmitted, markPending, markExpired, finish]
  have hfailed : (run exec empty declinedRetry).hash bensIntent.key = none ∧
      ∃ i, loadIntent bensIntent.key (run exec empty declinedRetry).tabs.storage = some i ∧
        i.status = .failed ∧ i.txHash = some "a1" := by
    simp [declinedRetry, run, next, exec, empty, Tabs.empty, Tabs.exec, Tabs.runAt,
      Tabs.copyOf, failIf, expect, createIntent, bensIntent, loadIntent_saveIntent, beginSubmission,
      IntentStatus.Startable, HeldByAnother, markAwaitingSignature, transition, recorded,
      PaymentIntent.operation, loadLock_releaseLock, markSubmitted, markPending, markExpired, markFailed,
      finish]
  constructor
  · obtain ⟨i, hi, hstatus, htxHash⟩ := hbuilding
    intro hcurrent
    have hnone : i.txHash = none := (current_building hstatus).mp (hcurrent _ i hi)
    cases htxHash.symm.trans hnone
  · obtain ⟨hattempt, i, hi, hstatus, htxHash⟩ := hfailed
    intro hcurrent
    have hfailure := hcurrent _ i hi
    unfold Current at hfailure
    rw [hstatus, hattempt, htxHash] at hfailure
    exact hfailure (Option.some_ne_none _) rfl

end Retry

end Attempts
end YieldLadder.Payment
