import YieldLadder.Payment.Submission
import YieldLadder.Payment.Tabs

/-! # What reaches the chain

Each run submits at most one transaction, under the key of its intent. The chain may
include a transaction at any moment up to the end of its validity, whether or not
somebody still polls for it. A submission that starts again while an earlier
transaction of the intent has succeeded or can still be included is how one intent
is paid twice, and it is the only way.
-/
namespace YieldLadder.Payment
open Foundation

/-- A submitted transaction: the outcome is there once a ledger has included it. -/
structure Transaction where
  idempotencyKey : String
  validUntil : ℕ
  outcome : Option Bool
  deriving DecidableEq, Repr

/-- It has succeeded, or may still do so. -/
def Transaction.Live (now : ℕ) (tx : Transaction) : Prop :=
  tx.outcome = some true ∨ tx.outcome = none ∧ now ≤ tx.validUntil

theorem Transaction.Live.mono {tx : Transaction} {now now' : ℕ} (htx : tx.Live now') (h : now ≤ now') :
    tx.Live now := by
  rcases htx with hpaid | ⟨hopen, hvalid⟩
  · exact .inl hpaid
  · exact .inr ⟨hopen, h.trans hvalid⟩

inductive GetTransactionResult
  | NOT_FOUND
  | SUCCESS
  | FAILED
  deriving DecidableEq, Repr

/-- The tabs, the transactions by their hashes, the hash a run has got from `submit`, and the clock. -/
structure OnChain where
  tabs : Tabs
  chain : Store String Transaction
  submitted : ℕ → Option String
  clock : ℕ

namespace OnChain

def empty : OnChain := ⟨.empty, .empty, fun _ => none, 0⟩

inductive Action
  | tab (action : Tabs.Action)
  | submit (run : ℕ) (hash : String) (validUntil : ℕ)
  | included (hash : String) (success : Bool)

structure Call where
  now : ℕ
  action : Action

inductive Refusal
  | clock
  | tab (refusal : Tabs.Refusal)
  | submittedBefore
  | hashTaken
  | notSubmitted
  | notConfirmed
  | notIncludable
  deriving DecidableEq, Repr

def getTransaction (hash : String) (chain : Store String Transaction) : GetTransactionResult :=
  match (chain.get hash).bind Transaction.outcome with
  | none => .NOT_FOUND
  | some true => .SUCCESS
  | some false => .FAILED

/-- A run learns the hash from `submit`, and is confirmed by a poll that finds it successful. -/
def answered (s : OnChain) : Tabs.Action → Except Refusal Unit
  | .markSubmitted run txHash => failIf (s.submitted run ≠ some txHash) .notSubmitted
  | .markConfirmed run => do
    let hash ← expect .notSubmitted (s.submitted run)
    failIf (getTransaction hash s.chain ≠ .SUCCESS) .notConfirmed
  | _ => pure ()

/-- What a run submitted is forgotten with the run. -/
def forget (runs : ℕ → Option Run) (submitted : ℕ → Option String) (run : ℕ) : Option String :=
  if (runs run).isSome then submitted run else none

def exec (s : OnChain) (c : Call) : Except Refusal (OnChain × Option PaymentIntent) := do
  failIf (c.now < s.clock) .clock
  match c.action with
  | .tab action =>
    answered s action
    let r ← (Tabs.exec s.tabs ⟨c.now, action⟩).mapError .tab
    pure (⟨r.1, s.chain, forget r.1.runs s.submitted, c.now⟩, r.2)
  | .submit run hash validUntil =>
    let r ← (Tabs.runAt s.tabs run .awaitingSignature).mapError .tab
    failIf ((s.submitted run).isSome = true) .submittedBefore
    failIf ((s.chain.get hash).isSome = true) .hashTaken
    pure (⟨s.tabs, s.chain.set hash ⟨r.awaiting.key, validUntil, none⟩,
      Function.update s.submitted run (some hash), c.now⟩, none)
  | .included hash success =>
    let tx ← expect .notIncludable (s.chain.get hash)
    failIf (tx.outcome ≠ none ∨ tx.validUntil < c.now) .notIncludable
    pure (⟨s.tabs, s.chain.set hash { tx with outcome := some success }, s.submitted, c.now⟩, none)

/-- What holds in every run: a run and what it has submitted go together. -/
structure Tracked (s : OnChain) : Prop where
  exclusive : Tabs.Exclusive s.tabs
  forgotten : ∀ n, s.tabs.runs n = none → s.submitted n = none

def PaidOnce (s : OnChain) : Prop :=
  ∀ hash hash' tx tx', s.chain.get hash = some tx → s.chain.get hash' = some tx' →
    tx.idempotencyKey = tx'.idempotencyKey → tx.outcome = some true → tx'.outcome = some true →
    hash = hash'

/-- The call starts a submission again of an intent that an earlier transaction has paid or may
still pay. -/
def Restarts (s : OnChain) (c : Call) : Prop :=
  ∃ run intent stored, c.action = .tab (.beginSubmission run intent) ∧
    loadIntent intent.key s.tabs.storage = some stored ∧ stored.status.Startable ∧
    ¬HeldByAnother intent s.tabs.storage ∧
    ∃ hash tx, s.chain.get hash = some tx ∧ tx.idempotencyKey = intent.key ∧ tx.Live c.now

variable {s : OnChain} {now validUntil n : ℕ} {action : Tabs.Action} {r : OnChain × Option PaymentIntent}
variable {hash : String} {success : Bool} {c : Call} {tx : Transaction}

theorem forget_of_none {runs : ℕ → Option Run} {submitted : ℕ → Option String} (h : runs n = none) :
    forget runs submitted n = none := by
  simp [forget, h]

theorem forget_of_some {runs : ℕ → Option Run} {submitted : ℕ → Option String} {q : Run}
    (h : runs n = some q) : forget runs submitted n = submitted n := by
  simp [forget, h]

theorem exec_tab : exec s ⟨now, .tab action⟩ = .ok r ↔ s.clock ≤ now ∧ answered s action = .ok () ∧
    ∃ t, Tabs.exec s.tabs ⟨now, action⟩ = .ok t ∧
      (⟨t.1, s.chain, forget t.1.runs s.submitted, now⟩, t.2) = r := by
  simp [exec, Unique.exists_iff]

theorem exec_submit : exec s ⟨now, .submit n hash validUntil⟩ = .ok r ↔ s.clock ≤ now ∧
    ∃ q, (s.tabs.runs n = some q ∧ q.stage = .awaitingSignature) ∧ s.submitted n = none ∧
      s.chain.get hash = none ∧ (⟨s.tabs, s.chain.set hash ⟨q.awaiting.key, validUntil, none⟩,
        Function.update s.submitted n (some hash), now⟩, none) = r := by
  simp [exec, Tabs.runAt_eq_ok]

theorem exec_included : exec s ⟨now, .included hash success⟩ = .ok r ↔ s.clock ≤ now ∧
    ∃ tx, s.chain.get hash = some tx ∧ (tx.outcome = none ∧ now ≤ tx.validUntil) ∧
      (⟨s.tabs, s.chain.set hash { tx with outcome := some success }, s.submitted, now⟩, none) = r := by
  simp [exec]

theorem tracked_empty : Tracked empty where
  exclusive := Tabs.exclusive_empty
  forgotten _ _ := rfl

theorem Tracked.step (hs : Tracked s) (h : exec s c = .ok r) : Tracked r.1 := by
  obtain ⟨now, action⟩ := c
  cases action with
  | tab action =>
    obtain ⟨_, _, t, ht, rfl⟩ := exec_tab.mp h
    exact ⟨hs.exclusive.effect (Tabs.exec_effect ht), fun n hn => forget_of_none hn⟩
  | submit run hash validUntil =>
    obtain ⟨_, q, ⟨hrun, _⟩, _, _, rfl⟩ := exec_submit.mp h
    refine ⟨hs.exclusive, fun n hn => ?_⟩
    have hne : n ≠ run := by
      rintro rfl
      cases hrun.symm.trans hn
    exact (Function.update_of_ne hne _ _).trans (hs.forgotten n hn)
  | included hash success =>
    obtain ⟨_, tx, _, _, rfl⟩ := exec_included.mp h
    exact ⟨hs.exclusive, hs.forgotten⟩

theorem run_tracked (cs : List Call) : Tracked (run exec empty cs) :=
  run_invariant (I := Tracked) (fun _ _ _ hs h => hs.step h) tracked_empty cs

/-- The invariant of the runs without restarts: a run that has submitted nothing has nothing to fear
from the chain, and of one intent a single transaction is live. -/
structure Single (s : OnChain) : Prop where
  tracked : Tracked s
  unpaid : ∀ n q, s.tabs.runs n = some q → s.submitted n = none → ∀ hash tx,
    s.chain.get hash = some tx → tx.idempotencyKey = q.latest.key → ¬tx.Live s.clock
  single : ∀ hash hash' tx tx', s.chain.get hash = some tx → s.chain.get hash' = some tx' →
    tx.idempotencyKey = tx'.idempotencyKey → tx.Live s.clock → tx'.Live s.clock → hash = hash'

theorem single_empty : Single empty where
  tracked := tracked_empty
  unpaid _ _ h := by cases h
  single _ _ _ _ h := by cases h

namespace Single

theorem paidOnce (hs : Single s) : PaidOnce s :=
  fun hash hash' tx tx' htx htx' hkey hpaid hpaid' =>
    hs.single hash hash' tx tx' htx htx' hkey (.inl hpaid) (.inl hpaid')

theorem tab (hs : Single s) (hc : ¬Restarts s ⟨now, .tab action⟩)
    (h : exec s ⟨now, .tab action⟩ = .ok r) : Single r.1 := by
  have htracked : Tracked r.1 := hs.tracked.step h
  obtain ⟨hclock, _, t, ht, rfl⟩ := exec_tab.mp h
  refine ⟨htracked, ?_, ?_⟩
  · intro n q' hq hsubmitted hash tx htx hkey hlive
    have hunsent : s.submitted n = none := (forget_of_some hq).symm.trans hsubmitted
    rcases hs.tracked.exclusive.origin (Tabs.exec_effect ht) hq with
      ⟨q, hrun, hsame⟩ | ⟨intent, stored, haction, _, hstored, hstart, hfree, hown⟩
    · exact hs.unpaid n q hrun hunsent hash tx htx (hkey.trans hsame.symm) (hlive.mono hclock)
    · have haction : action = .beginSubmission n intent := haction
      exact hc ⟨n, intent, stored, by rw [haction], hstored, hstart, hfree, hash, tx, htx,
        hkey.trans hown, hlive⟩
  · intro hash hash' tx tx' htx htx' hkey hlive hlive'
    exact hs.single hash hash' tx tx' htx htx' hkey (hlive.mono hclock) (hlive'.mono hclock)

theorem submit (hs : Single s) (h : exec s ⟨now, .submit n hash validUntil⟩ = .ok r) :
    Single r.1 := by
  have htracked : Tracked r.1 := hs.tracked.step h
  obtain ⟨hclock, q, ⟨hrun, _⟩, hunsent, hfresh, rfl⟩ := exec_submit.mp h
  obtain ⟨p, _, _, _, hakey, _⟩ := hs.tracked.exclusive.running n q hrun
  -- no other transaction of the intent is live when the run submits its own
  have hdead : ∀ {hash' tx}, s.chain.get hash' = some tx → tx.idempotencyKey = q.awaiting.key →
      ¬tx.Live now := by
    intro hash' tx htx hkey hlive
    exact hs.unpaid n q hrun hunsent hash' tx htx (hkey.trans hakey) (hlive.mono hclock)
  refine ⟨htracked, ?_, ?_⟩
  · intro m q' hq hsubmitted hash' tx htx hkey hlive
    have hm : m ≠ n := by
      rintro rfl
      simp at hsubmitted
    simp only [Function.update_of_ne hm] at hsubmitted
    simp only [Store.get_set] at htx
    split at htx
    · cases htx
      exact hm (hs.tracked.exclusive.alone m n q' q hq hrun (hkey.symm.trans hakey))
    · exact hs.unpaid m q' hq hsubmitted hash' tx htx hkey (hlive.mono hclock)
  · intro hash₁ hash₂ tx₁ tx₂ htx₁ htx₂ hkey hlive₁ hlive₂
    simp only [Store.get_set] at htx₁ htx₂
    split at htx₁ <;> split at htx₂
    · next h₁ h₂ => exact h₁.trans h₂.symm
    · cases htx₁
      exact absurd hlive₂ (hdead htx₂ hkey.symm)
    · cases htx₂
      exact absurd hlive₁ (hdead htx₁ hkey)
    · exact hs.single hash₁ hash₂ tx₁ tx₂ htx₁ htx₂ hkey (hlive₁.mono hclock) (hlive₂.mono hclock)

theorem included (hs : Single s) (h : exec s ⟨now, .included hash success⟩ = .ok r) :
    Single r.1 := by
  have htracked : Tracked r.1 := hs.tracked.step h
  obtain ⟨hclock, tx, htx, ⟨hopen, hvalid⟩, rfl⟩ := exec_included.mp h
  -- what is live afterwards was live before, under the same hash and key
  have hbefore : ∀ {hash' tx'}, (s.chain.set hash { tx with outcome := some success }).get hash' =
      some tx' → tx'.Live now → ∃ tx₀, s.chain.get hash' = some tx₀ ∧
        tx₀.idempotencyKey = tx'.idempotencyKey ∧ tx₀.Live s.clock := by
    intro hash' tx' htx' hlive
    rw [Store.get_set] at htx'
    split at htx'
    · next heq =>
      cases htx'
      exact ⟨tx, heq ▸ htx, rfl, .inr ⟨hopen, hclock.trans hvalid⟩⟩
    · exact ⟨tx', htx', rfl, hlive.mono hclock⟩
  refine ⟨htracked, ?_, ?_⟩
  · intro n q hq hsubmitted hash' tx' htx' hkey hlive
    obtain ⟨tx₀, htx₀, hsame, hlive₀⟩ := hbefore htx' hlive
    exact hs.unpaid n q hq hsubmitted hash' tx₀ htx₀ (hsame.trans hkey) hlive₀
  · intro hash₁ hash₂ tx₁ tx₂ htx₁ htx₂ hkey hlive₁ hlive₂
    obtain ⟨tx₁', htx₁', hsame₁, hlive₁'⟩ := hbefore htx₁ hlive₁
    obtain ⟨tx₂', htx₂', hsame₂, hlive₂'⟩ := hbefore htx₂ hlive₂
    have hkey' : tx₁'.idempotencyKey = tx₂'.idempotencyKey := hsame₁.trans (hkey.trans hsame₂.symm)
    exact hs.single hash₁ hash₂ tx₁' tx₂' htx₁' htx₂' hkey' hlive₁' hlive₂'

theorem step (hs : Single s) (hc : ¬Restarts s c) (h : exec s c = .ok r) : Single r.1 := by
  obtain ⟨now, action⟩ := c
  cases action with
  | tab action => exact hs.tab hc h
  | submit run hash validUntil => exact hs.submit h
  | included hash success => exact hs.included h

end Single

theorem run_single {cs : List Call} (h : Meets exec (fun s c => ¬Restarts s c) empty cs) :
    Single (run exec empty cs) :=
  run_invariant_of_meets (I := Single) (fun _ _ _ hc hs hr => hs.step hc hr) single_empty h

/-- Nothing stops a run that has just started from being paid, whatever else is on the chain. -/
theorem Tracked.pays {q : Run} (hs : Tracked s) (hrun : s.tabs.runs n = some q)
    (hstage : q.stage = .started) (hunsent : s.submitted n = none) :
    ∃ ds hash paid, s.chain.get hash = none ∧ paid.idempotencyKey = q.latest.key ∧
      paid.outcome = some true ∧ ∀ hash', (run exec s ds).chain.get hash' =
        if hash' = hash then some paid else s.chain.get hash' := by
  obtain ⟨hash, hfresh⟩ := s.chain.exists_fresh
  obtain ⟨p, hp, _⟩ := hs.exclusive.running n q hrun
  have hown : p.key = q.latest.key := hs.exclusive.own _ _ hp
  have hkey : (markAwaitingSignature q.latest s.clock s.tabs.storage).1.key = q.latest.key := by
    simp [markAwaitingSignature, transition, hp, hown]
  let awaiting : PaymentIntent := (markAwaitingSignature q.latest s.clock s.tabs.storage).1
  let s₁ : OnChain :=
    { tabs := ⟨(markAwaitingSignature q.latest s.clock s.tabs.storage).2,
        Function.update s.tabs.runs n (some ⟨.awaitingSignature, awaiting, awaiting⟩)⟩
      chain := s.chain
      submitted := forget (Function.update s.tabs.runs n
        (some ⟨.awaitingSignature, awaiting, awaiting⟩)) s.submitted
      clock := s.clock }
  let s₂ : OnChain := { s₁ with
    chain := s.chain.set hash ⟨awaiting.key, s.clock, none⟩
    submitted := Function.update s₁.submitted n (some hash) }
  let s₃ : OnChain := { s₂ with
    chain := s₂.chain.set hash ⟨awaiting.key, s.clock, some true⟩ }
  have h₁ : exec s ⟨s.clock, .tab (.markAwaitingSignature n)⟩ = .ok (s₁, some awaiting) := by
    refine exec_tab.mpr ⟨le_rfl, rfl, (s₁.tabs, some awaiting), ?_, rfl⟩
    simp [Tabs.exec, Tabs.runAt, hrun, hstage, failIf_of_not, s₁, awaiting]
  have h₂ : exec s₁ ⟨s.clock, .submit n hash s.clock⟩ = .ok (s₂, none) := by
    refine exec_submit.mpr ⟨le_rfl, ⟨.awaitingSignature, awaiting, awaiting⟩, ⟨?_, rfl⟩, ?_, hfresh, rfl⟩
    · exact Function.update_self ..
    · exact (forget_of_some (Function.update_self ..)).trans hunsent
  have h₃ : exec s₂ ⟨s.clock, .included hash true⟩ = .ok (s₃, none) :=
    exec_included.mpr ⟨le_rfl, _, Store.get_set_self .., ⟨rfl, le_rfl⟩, rfl⟩
  refine ⟨[⟨s.clock, .tab (.markAwaitingSignature n)⟩, ⟨s.clock, .submit n hash s.clock⟩,
    ⟨s.clock, .included hash true⟩], hash, ⟨awaiting.key, s.clock, some true⟩, hfresh, hkey, rfl,
    fun hash' => ?_⟩
  rw [run_cons, next_ok h₁, run_cons, next_ok h₂, run_cons, next_ok h₃, run_nil]
  by_cases heq : hash' = hash
  · simp [heq, s₃]
  · simp [heq, s₃, s₂]

/-- A transaction that has not succeeded and can still be included succeeds when a ledger takes it. -/
theorem Tracked.lands (hs : Tracked s) (htx : s.chain.get hash = some tx) (hlive : tx.Live s.clock) :
    ∃ es, Tracked (run exec s es) ∧ (run exec s es).tabs = s.tabs ∧
      (run exec s es).submitted = s.submitted ∧ ∃ paid, (run exec s es).chain.get hash = some paid ∧
        paid.idempotencyKey = tx.idempotencyKey ∧ paid.outcome = some true := by
  rcases hlive with hpaid | ⟨hopen, hvalid⟩
  · exact ⟨[], hs, rfl, rfl, tx, htx, rfl, hpaid⟩
  · have hland : exec s ⟨s.clock, .included hash true⟩ = .ok _ :=
      exec_included.mpr ⟨le_rfl, tx, htx, ⟨hopen, hvalid⟩, rfl⟩
    have hrun : run exec s [⟨s.clock, .included hash true⟩] = _ := next_ok hland
    refine ⟨[⟨s.clock, .included hash true⟩], ?_⟩
    rw [hrun]
    exact ⟨hs.step hland, rfl, rfl, _, Store.get_set_self .., rfl, rfl⟩

/-- A restart is the defect: the run it begins can be paid on top of the earlier transaction. -/
theorem Tracked.restart_pays_twice (hs : Tracked s) (hc : Restarts s c) (h : exec s c = .ok r) :
    ∃ ds, ¬PaidOnce (run exec r.1 ds) := by
  have htracked : Tracked r.1 := hs.step h
  obtain ⟨now, action⟩ := c
  obtain ⟨n, intent, stored, rfl, hstored, hstart, hfree, hash, tx, htx, hkey, hlive⟩ := hc
  obtain ⟨hclock, _, t, ht, rfl⟩ := exec_tab.mp h
  obtain ⟨q, hnew, hq, hstage, hqkey⟩ := hs.exclusive.begins hstored hstart hfree ht
  have hunsent : forget t.1.runs s.submitted n = none :=
    (forget_of_some hq).trans (hs.forgotten n hnew)
  -- first the earlier transaction succeeds, then that of the new run
  obtain ⟨es, hes, htabs, hsubmitted, paid, hpaid, hpaidkey, hsuccess⟩ := htracked.lands htx hlive
  obtain ⟨ds, hash', paid', hfresh, hpaidkey', hsuccess', hds⟩ :=
    hes.pays (htabs ▸ hq) hstage ((congrFun hsubmitted n).trans hunsent)
  have hne : hash ≠ hash' := by
    rintro rfl
    cases hpaid.symm.trans hfresh
  refine ⟨es ++ ds, fun honce => hne ?_⟩
  rw [run_append] at honce
  have hsame : paid.idempotencyKey = paid'.idempotencyKey := by
    rw [hpaidkey, hkey, hpaidkey', hqkey]
  apply honce hash hash' paid paid' _ _ hsame hsuccess hsuccess'
  · rw [hds, if_neg hne, hpaid]
  · rw [hds, if_pos rfl]

/-- A run pays every intent at most once when none of its calls is a restart; and each restart that is
let through has a continuation that pays an intent twice. -/
theorem paid_once_without_restarts (cs : List Call) :
    (Meets exec (fun s c => ¬Restarts s c) empty cs → PaidOnce (run exec empty cs)) ∧
      ∀ c r, exec (run exec empty cs) c = .ok r → Restarts (run exec empty cs) c →
        ∃ ds, ¬PaidOnce (run exec empty (cs ++ c :: ds)) := by
  constructor
  · intro hm
    exact (run_single hm).paidOnce
  · intro c r h hc
    obtain ⟨ds, hds⟩ := (run_tracked cs).restart_pays_twice hc h
    refine ⟨ds, ?_⟩
    rw [run_append, run_cons, next_ok h]
    exact hds

section Retry

def anna : WalletAddress := ⟨"GANNA", by decide⟩

def annasIntent : PaymentIntent :=
  (createIntent .deposit anna "flex" "USDC" "100" "n1" 0 .empty).1

def firstAttempt : List Call :=
  [⟨0, .tab (.createIntent .deposit anna "flex" "USDC" "100" "n1")⟩,
    ⟨1000, .tab (.beginSubmission 0 annasIntent)⟩,
    ⟨1000, .tab (.markAwaitingSignature 0)⟩,
    ⟨3000, .submit 0 "a1" 33000⟩,
    ⟨3000, .tab (.markSubmitted 0 "a1")⟩,
    ⟨3000, .tab (.markPending 0)⟩,
    ⟨23000, .tab (.markExpired 0 timedOutMessage)⟩,
    ⟨25000, .included "a1" true⟩]

/-- The first transaction is included two seconds after the poll has given it up, and then the user
retries with the expired intent. -/
def retryRun : List Call := firstAttempt ++
  [⟨40000, .tab (.beginSubmission 0 { annasIntent with
      status := .expired, txHash := some "a1", error := some timedOutMessage, updatedAt := 23000 })⟩,
    ⟨40000, .tab (.markAwaitingSignature 0)⟩,
    ⟨42000, .submit 0 "a2" 72000⟩,
    ⟨45000, .included "a2" true⟩]

theorem firstAttempt_paid : Meets exec (fun s c => ¬Restarts s c) empty firstAttempt ∧
    PaidOnce (run exec empty firstAttempt) := by
  have hmeets : Meets exec (fun s c => ¬Restarts s c) empty firstAttempt := by
    simp [firstAttempt, Meets, Restarts, next, exec, empty, Tabs.empty, Tabs.exec, failIf, createIntent,
      answered]
  exact ⟨hmeets, (paid_once_without_restarts firstAttempt).1 hmeets⟩

theorem retryRun_paid_twice : ¬PaidOnce (run exec empty retryRun) := by
  have hchain : (run exec empty retryRun).chain.get "a1" = some ⟨annasIntent.key, 33000, some true⟩ ∧
      (run exec empty retryRun).chain.get "a2" = some ⟨annasIntent.key, 72000, some true⟩ := by
    simp [retryRun, firstAttempt, run, next, exec, answered, forget, empty, Tabs.empty, Tabs.exec, Tabs.runAt,
      Tabs.copyOf, failIf, expect, createIntent, annasIntent, loadIntent_saveIntent, beginSubmission,
      IntentStatus.Startable, HeldByAnother, markAwaitingSignature, transition,
      PaymentIntent.operation, loadLock_releaseLock, markSubmitted, markPending, markExpired, finish]
  intro honce
  have heq : "a1" = "a2" := honce "a1" "a2" _ _ hchain.1 hchain.2 rfl rfl rfl
  exact absurd heq (by decide)

end Retry

end OnChain
end YieldLadder.Payment
