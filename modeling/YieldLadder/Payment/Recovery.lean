import YieldLadder.Payment.Components

/-! # When a payment can be started again

An operation is free when no intent of it is under way. An intent under way ends when
its run marks it; one whose run was cut off by a reload stays under way for ever,
since no component takes such a run up again.
-/
namespace YieldLadder.Payment
open Foundation

abbrev Operation := IntentKind × WalletAddress × String

namespace Tabs
variable {s s' : Tabs} {c : Invocation} {r : Tabs × Option PaymentIntent} {n : ℕ} {q : Run}
variable {op : Operation} {key : String} {i j : PaymentIntent} {action : Action}

def Free (op : Operation) (s : Tabs) : Prop :=
  ∀ key i, loadIntent key s.storage = some i → i.operation = op → ¬i.status.Active

/-- Every intent of the operation that is under way has its run. -/
def Lively (op : Operation) (s : Tabs) : Prop :=
  ∀ key i, loadIntent key s.storage = some i → i.operation = op → i.status.Active →
    ∃ n q, s.runs n = some q ∧ q.latest.key = key

def RunsFor (op : Operation) (s : Tabs) (n : ℕ) : Prop := ∃ q, s.runs n = some q ∧ q.latest.operation = op

theorem loadIntent_finish {patch : PaymentIntent → PaymentIntent} {now : ℕ} {storage : Storage}
    (hj : loadIntent i.key storage = some j) (hkey : (patch j).key = i.key) :
    loadIntent i.key (finish i patch now storage).2 = some { patch j with updatedAt := now } := by
  simp only [finish, transition, hj, Option.getD_some, loadIntent_releaseLock, loadIntent_saveIntent]
  rw [if_pos hkey.symm]

theorem kept_update {m : ℕ} {q' : Run} (hq : s.runs n = some q)
    (hkey : m = n → q'.latest.key = q.latest.key) :
    ∃ p, Function.update s.runs m (some q') n = some p ∧ p.latest.key = q.latest.key := by
  by_cases hm : m = n
  · subst hm
    exact ⟨q', Function.update_self .., hkey rfl⟩
  · exact ⟨q, by rw [Function.update_of_ne (Ne.symm hm), hq], rfl⟩

theorem kept_drop {m : ℕ} (hq : s.runs n = some q) (hm : m ≠ n) :
    ∃ p, Function.update s.runs m none n = some p ∧ p.latest.key = q.latest.key :=
  ⟨q, by rw [Function.update_of_ne hm.symm, hq], rfl⟩

theorem transition_key {intent stored : PaymentIntent} {patch : PaymentIntent → PaymentIntent} {now : ℕ}
    {storage : Storage} (hstored : loadIntent intent.key storage = some stored)
    (hkey : (patch stored).key = intent.key) : (transition intent patch now storage).1.key = intent.key := by
  simp only [transition, hstored, Option.getD_some]
  exact hkey

theorem kept_marked {m : ℕ} {p q' : Run} (patch : PaymentIntent → PaymentIntent) (now : ℕ)
    (hs : Exclusive s) (hq : s.runs n = some q) (hp : s.runs m = some p)
    (hlatest : q'.latest = (transition p.latest patch now s.storage).1)
    (hkey : ∀ i, (patch i).key = i.key) :
    ∃ r, Function.update s.runs m (some q') n = some r ∧ r.latest.key = q.latest.key := by
  apply kept_update hq
  rintro rfl
  obtain rfl : p = q := Option.some.inj (hp.symm.trans hq)
  obtain ⟨stored, hstored, _⟩ := hs.running m p hp
  rw [hlatest]
  exact transition_key hstored ((hkey stored).trans (hs.own _ _ hstored))

theorem kept_or_ended {m : ℕ} {p : Run} {marked : PaymentIntent} (patch : PaymentIntent → PaymentIntent)
    (now : ℕ) (hs : Exclusive s) (hq : s.runs n = some q) (hp : s.runs m = some p)
    (hmarked : marked = p.latest ∨ marked = p.awaiting) (hkey : ∀ i, (patch i).key = i.key)
    (hend : ∀ i, isTerminal (patch i).status = true) :
    (∃ q', Function.update s.runs m none n = some q' ∧ q'.latest.key = q.latest.key) ∨
      ∃ i, loadIntent q.latest.key (finish marked patch now s.storage).2 = some i ∧
        isTerminal i.status = true := by
  by_cases hm : m = n
  · subst hm
    obtain rfl : p = q := Option.some.inj (hp.symm.trans hq)
    obtain ⟨stored, hstored, _⟩ := hs.running m p hp
    have hown : stored.key = p.latest.key := hs.own _ _ hstored
    have hsame : marked.key = p.latest.key := hs.marked_key hp hmarked
    rw [← hsame] at hstored hown ⊢
    exact .inr ⟨_, loadIntent_finish hstored ((hkey stored).trans hown), hend stored⟩
  · exact .inl (kept_drop hq hm)

theorem exec_keeps (hs : Exclusive s) (h : exec s c = .ok r) (hq : s.runs n = some q) :
    (∃ q', r.1.runs n = some q' ∧ q'.latest.key = q.latest.key) ∨ c.action = .reload n ∨
      ∃ i, loadIntent q.latest.key r.1.storage = some i ∧ isTerminal i.status = true := by
  obtain ⟨now, action⟩ := c
  cases action with
  | createIntent kind address tier asset amount nonce =>
    simp only [exec, bind_eq_ok, pure_eq_ok] at h
    obtain ⟨_, _, rfl⟩ := h
    exact .inl ⟨q, hq, rfl⟩
  | findActiveIntent kind address tier =>
    obtain rfl := pure_eq_ok.mp h
    exact .inl ⟨q, hq, rfl⟩
  | beginSubmission m intent =>
    simp only [exec, bind_eq_ok, failIf_eq_ok, Bool.not_eq_true, Option.isSome_eq_false_iff,
      Option.isNone_iff_eq_none] at h
    obtain ⟨_, _, _, hidle, h⟩ := h
    split at h
    · obtain rfl := pure_eq_ok.mp h
      exact .inl ⟨q, hq, rfl⟩
    · obtain rfl := pure_eq_ok.mp h
      refine .inl (kept_update hq ?_)
      rintro rfl
      cases hidle.symm.trans hq
  | markAwaitingSignature m =>
    simp only [exec, bind_eq_ok, runAt_eq_ok, pure_eq_ok] at h
    obtain ⟨p, ⟨hp, _⟩, rfl⟩ := h
    exact .inl (kept_marked ({ · with status := .awaitingSignature }) now hs hq hp rfl fun _ => rfl)
  | markSubmitted m txHash =>
    simp only [exec, bind_eq_ok, runAt_eq_ok, pure_eq_ok] at h
    obtain ⟨p, ⟨hp, _⟩, rfl⟩ := h
    exact .inl (kept_marked ({ · with status := .submitted, txHash := some txHash }) now hs hq hp rfl fun _ => rfl)
  | markPending m =>
    simp only [exec, bind_eq_ok, runAt_eq_ok, pure_eq_ok] at h
    obtain ⟨p, ⟨hp, _⟩, rfl⟩ := h
    exact .inl (kept_marked ({ · with status := .pending }) now hs hq hp rfl fun _ => rfl)
  | markConfirmed m =>
    simp only [exec, bind_eq_ok, runAt_eq_ok, pure_eq_ok] at h
    obtain ⟨p, ⟨hp, _⟩, rfl⟩ := h
    exact (kept_or_ended ({ · with status := .confirmed }) now hs hq hp (.inl rfl) (fun _ => rfl)
      fun _ => rfl).imp_right .inr
  | markFailed m error =>
    simp only [exec, bind_eq_ok, expect_eq_ok, pure_eq_ok] at h
    obtain ⟨p, hp, rfl⟩ := h
    exact (kept_or_ended ({ · with status := .failed, error := some error }) now hs hq hp (.inr rfl)
      (fun _ => rfl) fun _ => rfl).imp_right .inr
  | markExpired m error =>
    simp only [exec, bind_eq_ok, expect_eq_ok, pure_eq_ok] at h
    obtain ⟨p, hp, rfl⟩ := h
    exact (kept_or_ended ({ · with status := .expired, error := some error }) now hs hq hp (.inr rfl)
      (fun _ => rfl) fun _ => rfl).imp_right .inr
  | reload m =>
    obtain rfl := pure_eq_ok.mp h
    by_cases hm : m = n
    · exact .inr (.inl (hm ▸ rfl))
    · exact .inl (kept_drop hq hm)

theorem active_origin (he : Effect s action s') (hi : loadIntent key s'.storage = some i)
    (hactive : i.status.Active) : (∃ n q, s'.runs n = some q ∧ q.latest.key = key) ∨
      ∃ j, loadIntent key s.storage = some j ∧ j.status.Active ∧ j.operation = i.operation := by
  cases he with
  | create i' hfresh hidle hstorage hruns =>
    rw [hstorage, loadIntent_saveIntent] at hi
    split at hi
    · cases hi
      exact absurd hidle hactive.ne_idle
    · exact .inr ⟨i, hi, hactive, rfl⟩
  | idle hstorage hruns => exact .inr ⟨i, hstorage ▸ hi, hactive, rfl⟩
  | start run intent stored started haction hrun hstored hoperation hstart hfree hkey hsame hbuilding
      hstorage hruns =>
    rw [hstorage, loadIntent_saveLock, loadIntent_saveIntent] at hi
    split at hi
    · next heq => exact .inl ⟨run, _, by rw [hruns, Function.update_self], heq.symm⟩
    · exact .inr ⟨i, hi, hactive, rfl⟩
  | advance run r r' i' hrun hkey hsame hactive' hstorage hlatest hawaiting hruns =>
    rw [hstorage, loadIntent_saveIntent] at hi
    split at hi
    · next heq => exact .inl ⟨run, r', by rw [hruns, Function.update_self], by rw [hlatest, heq]⟩
    · exact .inr ⟨i, hi, hactive, rfl⟩
  | finish run r marked i' hrun hmarked hkey hsame hterminal hstorage hruns =>
    rw [hstorage, loadIntent_releaseLock, loadIntent_saveIntent] at hi
    split at hi
    · cases hi
      exact absurd hterminal (Bool.eq_false_iff.mp hactive.not_terminal)
    · exact .inr ⟨i, hi, hactive, rfl⟩

/-- An intent under way without a run is left alone by every step, and gets no run. -/
theorem abandoned_kept (hs : Exclusive s) (he : Effect s action s') (hi : loadIntent key s.storage = some i)
    (hactive : i.status.Active) (hno : ∀ n q, s.runs n = some q → q.latest.key ≠ key) :
    loadIntent key s'.storage = some i ∧ ∀ n q, s'.runs n = some q → q.latest.key ≠ key := by
  constructor
  · cases he with
    | create i' hfresh hidle hstorage hruns =>
      have hne : key ≠ i'.key := by
        rintro rfl
        cases hfresh.symm.trans hi
      rw [hstorage, loadIntent_saveIntent, if_neg hne, hi]
    | idle hstorage hruns => rw [hstorage, hi]
    | start run intent stored started haction hrun hstored hoperation hstart hfree hkey hsame hbuilding
        hstorage hruns =>
      have hne : key ≠ started.key := by
        rintro rfl
        rw [hkey, hs.own _ _ hstored, hstored] at hi
        cases hi
        exact hactive.not_startable hstart
      rw [hstorage, loadIntent_saveLock, loadIntent_saveIntent, if_neg hne, hi]
    | advance run r r' i' hrun hkey hsame hactive' hstorage hlatest hawaiting hruns =>
      obtain ⟨p, hp, _⟩ := hs.running run r hrun
      rw [hp, Option.getD_some, hs.own _ _ hp] at hkey
      have hne : key ≠ i'.key := fun heq => hno run r hrun (hkey.symm.trans heq.symm)
      rw [hstorage, loadIntent_saveIntent, if_neg hne, hi]
    | finish run r marked i' hrun hmarked hkey hsame hterminal hstorage hruns =>
      obtain ⟨p, hp, _⟩ := hs.running run r hrun
      rw [hs.marked_key hrun hmarked, hp, Option.getD_some, hs.own _ _ hp] at hkey
      have hne : key ≠ i'.key := fun heq => hno run r hrun (hkey.symm.trans heq.symm)
      rw [hstorage, loadIntent_releaseLock, loadIntent_saveIntent, if_neg hne, hi]
  · rintro n q' hq' rfl
    rcases hs.origin he hq' with ⟨q, hq, hkey⟩ | ⟨intent, stored, _, _, hstored, hstart, _, hkey⟩
    · exact hno n q hq hkey
    · rw [hkey, hstored] at hi
      cases hi
      exact hactive.not_startable hstart

/-- A step keeps an operation lively exactly when it cuts off no run of it. -/
theorem lively_iff (hs : Exclusive s) (h : exec s c = .ok r) :
    Lively op r.1 ↔ Lively op s ∧ ¬∃ n, c.action = .reload n ∧ RunsFor op s n := by
  have he := exec_effect h
  constructor
  · intro hlively
    constructor
    · intro key i hi hop hactive
      by_contra hnone
      have hno : ∀ n q, s.runs n = some q → q.latest.key ≠ key := fun n q hq hkey => hnone ⟨n, q, hq, hkey⟩
      obtain ⟨hkept, hnorun⟩ := abandoned_kept hs he hi hactive hno
      obtain ⟨n, q, hq, hkey⟩ := hlively key i hkept hop hactive
      exact hnorun n q hq hkey
    · rintro ⟨n, hreload, q, hq, hop⟩
      obtain ⟨i, hi, hactive, hqop, _⟩ := hs.running n q hq
      obtain ⟨now, action⟩ := c
      dsimp only at hreload
      subst hreload
      obtain rfl := pure_eq_ok.mp h
      -- the run that is cut off was the only one about its intent
      obtain ⟨m, p, hp, hkey⟩ := hlively q.latest.key i hi (hqop.symm.trans hop) hactive
      obtain ⟨hm, hp⟩ := update_none_eq_some.mp hp
      exact hm (hs.alone m n p q hp hq hkey)
  · rintro ⟨hlively, hno⟩ key i hi hop hactive
    rcases active_origin he hi hactive with hrun | ⟨j, hj, hjactive, hjop⟩
    · exact hrun
    · obtain ⟨n, q, hq, rfl⟩ := hlively key j hj (hjop.trans hop) hjactive
      rcases exec_keeps hs h hq with ⟨q', hq', hkey⟩ | hreload | ⟨i', hi', hterminal⟩
      · exact ⟨n, q', hq', hkey⟩
      · obtain ⟨p, hp, _, hqop, _⟩ := hs.running n q hq
        obtain rfl : j = p := Option.some.inj (hj.symm.trans hp)
        exact absurd ⟨n, hreload, q, hq, hqop.trans (hjop.trans hop)⟩ hno
      · obtain rfl : i = i' := Option.some.inj (hi.symm.trans hi')
        exact absurd hterminal (Bool.eq_false_iff.mp hactive.not_terminal)

theorem Free.findActiveIntent {kind : IntentKind} {address : WalletAddress} {tier : String}
    (hf : Free (kind, address, tier) s) (hs : Exclusive s) :
    findActiveIntent kind address tier s.storage = none := by
  cases hfind : Payment.findActiveIntent kind address tier s.storage with
  | none => rfl
  | some i =>
    simp only [Payment.findActiveIntent, Option.bind_eq_bind, Option.bind_eq_some_iff] at hfind
    obtain ⟨key, hlock, j, hj, hsome⟩ := hfind
    split at hsome
    · cases hsome
    · next hgoing =>
      cases hsome
      obtain ⟨i', hi', hop, hstatus⟩ := hs.holder kind address tier key hlock
      obtain rfl : i = i' := Option.some.inj (hj.symm.trans hi')
      have hactive : i.status.Active := IntentStatus.active_iff.mpr ⟨hstatus, by simpa using hgoing⟩
      exact absurd hactive (hf key i hj hop)

theorem Free.saveIntent (hf : Free op s) (hidle : i.status = .idle) (hstorage : s'.storage = saveIntent i s.storage) :
    Free op s' := by
  intro key j hj hop hactive
  rw [hstorage, loadIntent_saveIntent] at hj
  split at hj
  · cases hj
    exact hactive.ne_idle hidle
  · exact hf key j hj hop hactive

theorem free_finish {marked : PaymentIntent} (patch : PaymentIntent → PaymentIntent) {now : ℕ}
    (hs : Exclusive s) (hq : s.runs n = some q) (hmarked : marked = q.latest ∨ marked = q.awaiting)
    (hkey : ∀ i, (patch i).key = i.key) (hend : ∀ i, isTerminal (patch i).status = true)
    (hstorage : s'.storage = (finish marked patch now s.storage).2) : Free q.latest.operation s' := by
  obtain ⟨p, hp, hactive, hqop, _⟩ := hs.running n q hq
  have hsame : marked.key = q.latest.key := hs.marked_key hq hmarked
  have hown : p.key = q.latest.key := hs.own _ _ hp
  have hheld : loadLock p.kind p.address p.tier s.storage = some q.latest.key := hs.locked _ p hp hactive
  intro key i hi hop hiactive
  by_cases hk : key = q.latest.key
  · rw [hstorage, hk, ← hsame] at hi
    rw [← hsame] at hp hown
    rw [loadIntent_finish hp ((hkey p).trans hown)] at hi
    cases hi
    exact absurd (hend p) (Bool.eq_false_iff.mp hiactive.not_terminal)
  · -- another intent of the operation would hold the lock that the run holds
    simp only [hstorage, finish, transition, hsame, hp, Option.getD_some, loadIntent_releaseLock,
      loadIntent_saveIntent] at hi
    rw [if_neg (by rw [hkey, hown]; exact hk)] at hi
    have hiheld : loadLock i.kind i.address i.tier s.storage = some key := hs.locked key i hi hiactive
    rw [loadLock_congr (hop.trans hqop), hheld] at hiheld
    exact hk (Option.some.inj hiheld).symm

end Tabs

namespace App
variable {s s' : App} {c : Invocation} {r : App × Option PaymentIntent} {n now : ℕ} {p : Component}
variable {op : Operation} {i started : PaymentIntent} {layout : Layout} {q : Run}

/-- Some continuation ends with a component of this layout whose confirmation starts a submission of the
operation. -/
def CanBegin (s : App) (layout : Layout) (op : Operation) : Prop :=
  ∃ cs n now p started s', (run exec s cs).components n = some p ∧ p.layout = layout ∧
    exec (run exec s cs) ⟨now, .confirm n⟩ = .ok (s', some started) ∧ started.operation = op

def Cuts (op : Operation) (s : App) (c : Invocation) : Prop :=
  ∃ n, c.action = .reload n ∧ Tabs.RunsFor op s.toTabs n

theorem projection_reload {d : Tabs.Invocation} (h : projection s c = some d) :
    d.action = .reload n ↔ c.action = .reload n := by
  obtain ⟨now, action⟩ := c
  cases action with
  | openModal m kind address tier principal nonce =>
    simp only [projection] at h
    split at h <;> cases h <;> simp
  | enterConfirmStep m address tier amount nonce =>
    obtain ⟨p, _, rfl⟩ := Option.map_eq_some_iff.mp h
    simp
  | confirm m =>
    obtain ⟨p, _, h⟩ := Option.bind_eq_some_iff.mp h
    obtain ⟨i, _, rfl⟩ := Option.map_eq_some_iff.mp h
    simp
  | back => cases h
  | retry => cases h
  | leave => cases h
  | _ =>
    cases h
    simp

theorem lively_next_iff (hl : Linked s) (op : Operation) (c : Invocation) :
    Tabs.Lively op (next exec s c).toTabs ↔ Tabs.Lively op s.toTabs ∧ ¬Cuts op s c := by
  cases h : exec s c with
  | error e =>
    have hno : ¬Cuts op s c := by
      rintro ⟨n, hreload, _⟩
      simp [exec, hreload, pure, Except.pure] at h
    rw [next_error h]
    exact (and_iff_left hno).symm
  | ok r =>
    rw [next_ok h]
    obtain ⟨n, o, he⟩ := exec_effect hl h
    rcases he.tabs with ⟨hnone, hsame, _⟩ | ⟨d, hd, hexec⟩
    · have hno : ¬Cuts op s c := by
        rintro ⟨m, hreload, _⟩
        simp [projection, hreload] at hnone
      rw [hsame]
      exact (and_iff_left hno).symm
    · have hcuts : Cuts op s c ↔ ∃ m, d.action = .reload m ∧ Tabs.RunsFor op s.toTabs m := by
        simp only [Cuts, projection_reload hd]
      rw [hcuts]
      exact Tabs.lively_iff hl.exclusive hexec

theorem run_lively_iff (hl : Linked s) (op : Operation) (cs : List Invocation) :
    Tabs.Lively op (run exec s cs).toTabs ↔
      Tabs.Lively op s.toTabs ∧ Meets exec (fun s c => ¬Cuts op s c) s cs :=
  run_iff_meets (J := fun s => Tabs.Lively op s.toTabs) (I := Linked) (fun _ _ _ hl h => exec_linked hl h)
    (fun _ c hl => lively_next_iff hl op c) hl

theorem confirm_lively (hl : Linked s) (hop : started.operation = op)
    (h : exec s ⟨now, .confirm n⟩ = .ok (s', some started)) : Tabs.Lively op s.toTabs := by
  simp only [exec, confirm, bind_eq_ok, component_eq_ok, failIf_eq_ok, expect_eq_ok] at h
  obtain ⟨p, hp, _, _, intent, hintent, h⟩ := h
  obtain ⟨stored, hstored, hsame⟩ := Tabs.copyOf_eq_ok.mp (hl.copies n p intent hp hintent)
  split at h
  · cases pure_eq_ok.mp h
  · next begun storage hbegin =>
    cases pure_eq_ok.mp h
    obtain ⟨hstart, hfree, heq⟩ := beginSubmission_eq_some.mp hbegin
    obtain ⟨rfl, _⟩ := Prod.mk.inj heq
    rw [hstored, Option.getD_some] at hstart
    have hstoredop : stored.operation = op := by
      rw [hstored] at hop
      exact hop
    intro key j hj hjop hactive
    -- it would be the intent that started, or another one that holds the lock
    by_cases hk : key = intent.key
    · rw [hk, hstored] at hj
      cases hj
      exact absurd hstart hactive.not_startable
    · refine absurd ?_ hfree
      exact hl.exclusive.heldByAnother_iff.mpr
        ⟨key, j, hk, hj, hjop.trans (hstoredop.symm.trans hsame), hactive⟩

theorem buildIntentKey_injective (kind : IntentKind) (address : WalletAddress) (tier asset amount : String) :
    Function.Injective (buildIntentKey kind address tier asset amount) := by
  intro nonce nonce' h
  simpa only [buildIntentKey, String.intercalate_cons_cons, String.intercalate_singleton,
    String.append_right_inj] using h

theorem exists_fresh_nonce (kind : IntentKind) (address : WalletAddress) (tier asset amount : String)
    (storage : Storage) : ∃ nonce, loadIntent (buildIntentKey kind address tier asset amount nonce) storage =
      none := by
  have hinj : Function.Injective fun nonce => intentStorageKey (buildIntentKey kind address tier asset amount
      nonce) :=
    fun _ _ h => buildIntentKey_injective kind address tier asset amount (intentStorageKey_inj.mp h)
  obtain ⟨nonce, hnonce⟩ := storage.exists_fresh_along hinj
  exact ⟨nonce, by simp [loadIntent, hnonce]⟩

theorem confirm_of_begin {storage : Storage} (hp : s.components n = some p) (hoffers : p.Offers)
    (hi : p.intent = some i) (hbegin : beginSubmission i now s.storage = some (started, storage)) :
    ∃ s', exec s ⟨now, .confirm n⟩ = .ok (s', some started) := by
  have hcomponent : s.component n = .ok p := component_eq_ok.mpr hp
  simp only [exec, confirm, hcomponent, failIf_of_not (not_not.mpr hoffers), hi, expect_some, ok_bind, hbegin]
  exact ⟨_, rfl⟩

/-- With the operation free, a component that holds a new intent of it and offers the button starts a
submission. -/
theorem confirm_begins (now : ℕ) (hl : Linked s) (hp : s.components n = some p) (hoffers : p.Offers)
    (hi : p.intent = some i) (hstored : loadIntent i.key s.storage = some i) (hidle : i.status = .idle)
    (hfree : Tabs.Free i.operation s.toTabs) :
    ∃ started s', exec s ⟨now, .confirm n⟩ = .ok (s', some started) ∧ started.operation = i.operation := by
  have hstart : ((loadIntent i.key s.storage).getD i).status.Startable := by
    rw [hstored]
    exact .inl hidle
  have hunheld : ¬HeldByAnother i s.storage := by
    rw [hl.exclusive.heldByAnother_iff]
    rintro ⟨key, j, _, hj, hop, hactive⟩
    exact hfree key j hj hop hactive
  cases hbegin : beginSubmission i now s.storage with
  | none =>
    rcases beginSubmission_eq_none.mp hbegin with hno | hheld
    · exact absurd hstart hno
    · exact absurd hheld hunheld
  | some begun =>
    obtain ⟨started, storage⟩ := begun
    obtain ⟨_, _, heq⟩ := beginSubmission_eq_some.mp hbegin
    obtain ⟨s', hs'⟩ := confirm_of_begin hp hoffers hi hbegin
    refine ⟨started, s', hs', ?_⟩
    rw [(Prod.mk.inj heq).1, hstored]
    rfl

theorem canBegin_of_created {cs : List Invocation} {kind : IntentKind} {address : WalletAddress}
    {tier amount nonce : String} (hl : Linked s) (hfree : Tabs.Free (kind, address, tier) s.toTabs)
    (hstorage : (run exec s cs).storage =
      (createIntent kind address tier USDC_ASSET_CODE amount nonce now s.storage).2)
    (hp : (run exec s cs).components n = some p) (hoffers : p.Offers)
    (hi : p.intent = some (createIntent kind address tier USDC_ASSET_CODE amount nonce now s.storage).1) :
    CanBegin s p.layout (kind, address, tier) := by
  have hstored : loadIntent (buildIntentKey kind address tier USDC_ASSET_CODE amount nonce)
      (run exec s cs).storage =
        some (createIntent kind address tier USDC_ASSET_CODE amount nonce now s.storage).1 := by
    rw [hstorage]
    exact (loadIntent_saveIntent _ _ _).trans (if_pos rfl)
  have hstill : Tabs.Free (kind, address, tier) (run exec s cs).toTabs := hfree.saveIntent rfl hstorage
  obtain ⟨started, s', hs', hop⟩ := confirm_begins now (run_linked hl cs) hp hoffers hi hstored rfl hstill
  exact ⟨cs, n, now, p, started, s', hp, rfl, hs', hop⟩

section Opening
variable {kind : IntentKind} {address : WalletAddress} {tier amount nonce : String}

theorem exec_loadPage (now : ℕ) (hnone : s.components n = none) (hidle : s.runs n = none)
    (hfind : findActiveIntent kind address tier s.storage = none) :
    exec s ⟨now, .loadPage n kind address tier⟩ =
      .ok (s.mount n ⟨.page, kind, .choosing, none, none, false⟩, none) := by
  simp [exec, loadPage, hnone, hidle, hfind, failIf]

theorem exec_enterConfirmStep (now : ℕ) (hp : s.components n = some p) (hpage : p.layout = .page)
    (hfresh : loadIntent (buildIntentKey p.kind address tier USDC_ASSET_CODE amount nonce) s.storage = none) :
    exec s ⟨now, .enterConfirmStep n address tier amount nonce⟩ =
      .ok (({ s with storage := (createIntent p.kind address tier USDC_ASSET_CODE amount nonce now
        s.storage).2 } : App).mount n { p with
          intent := some (createIntent p.kind address tier USDC_ASSET_CODE amount nonce now s.storage).1
          step := .confirming }, none) := by
  have hcomponent : s.component n = .ok p := component_eq_ok.mpr hp
  simp [exec, enterConfirmStep, hcomponent, hpage, hfresh, failIf]

theorem exec_openModal (now : ℕ) (hnone : s.components n = none) (hidle : s.runs n = none)
    (hfind : findActiveIntent kind address tier s.storage = none)
    (hfresh : loadIntent (buildIntentKey kind address tier USDC_ASSET_CODE amount nonce) s.storage = none) :
    exec s ⟨now, .openModal n kind address tier amount nonce⟩ =
      .ok (({ s with storage := (createIntent kind address tier USDC_ASSET_CODE amount nonce now
        s.storage).2 } : App).mount n ⟨.modal, kind, .choosing, none,
          some (createIntent kind address tier USDC_ASSET_CODE amount nonce now s.storage).1, false⟩, none) := by
  simp [exec, openModal, hnone, hidle, hfind, hfresh, failIf]

end Opening

theorem free_canBegin (hl : Linked s) (hfree : Tabs.Free op s.toTabs) (layout : Layout) :
    CanBegin s layout op := by
  obtain ⟨kind, address, tier⟩ := op
  obtain ⟨n, hn⟩ := hl.fresh
  obtain ⟨hnone, hidle⟩ := hn n le_rfl
  obtain ⟨nonce, hnonce⟩ := exists_fresh_nonce kind address tier USDC_ASSET_CODE "1" s.storage
  have hfind := hfree.findActiveIntent hl.exclusive
  let created := createIntent kind address tier USDC_ASSET_CODE "1" nonce 0 s.storage
  cases layout with
  | page =>
    let p : Component := ⟨.page, kind, .choosing, none, none, false⟩
    let q : Component := { p with intent := some created.1, step := .confirming }
    have hload := exec_loadPage 0 hnone hidle hfind
    have hconfirm := exec_enterConfirmStep (s := s.mount n p) 0 (Function.update_self ..) rfl hnonce
    have hrun : run exec s [⟨0, .loadPage n kind address tier⟩,
        ⟨0, .enterConfirmStep n address tier "1" nonce⟩] =
          ({ s.mount n p with storage := created.2 } : App).mount n q := by
      rw [run_cons, next_ok hload, run_cons, next_ok hconfirm, run_nil]
      rfl
    apply canBegin_of_created (n := n) (p := q) hl hfree
    · rw [hrun]
      rfl
    · rw [hrun]
      exact Function.update_self ..
    · exact ⟨rfl, fun _ => rfl, by simp [q, p]⟩
    · rfl
  | modal =>
    let p : Component := ⟨.modal, kind, .choosing, none, some created.1, false⟩
    have hrun : run exec s [⟨0, .openModal n kind address tier "1" nonce⟩] =
        ({ s with storage := created.2 } : App).mount n p := next_ok (exec_openModal 0 hnone hidle hfind hnonce)
    apply canBegin_of_created (n := n) (p := p) hl hfree
    · rw [hrun]
      rfl
    · rw [hrun]
      exact Function.update_self ..
    · exact ⟨rfl, by simp [p], by simp [p]⟩
    · rfl

theorem fails (hl : Linked s) (hrun : s.runs n = some q) (hstage : q.stage ≠ .started) :
    Tabs.Free q.latest.operation (next exec s ⟨0, .markFailed n "Transaction failed"⟩).toTabs := by
  have h : exec s ⟨0, .markFailed n "Transaction failed"⟩ =
      .ok (s.settle n .failed (markFailed q.awaiting "Transaction failed" 0 s.storage), none) := by
    simp [exec, caught_eq_ok.mpr ⟨hrun, hstage⟩]
  rw [next_ok h]
  exact Tabs.free_finish ({ · with status := .failed, error := some "Transaction failed" }) hl.exclusive hrun
    (.inr rfl) (fun _ => rfl) (fun _ => rfl) rfl

theorem signs (hl : Linked s) (hrun : s.runs n = some q) (hstage : q.stage = .started) :
    ∃ q', (next exec s ⟨0, .markAwaitingSignature n⟩).runs n = some q' ∧ q'.stage ≠ .started ∧
      q'.latest.operation = q.latest.operation := by
  obtain ⟨stored, hstored, _, hop, _⟩ := hl.exclusive.running n q hrun
  let awaiting := markAwaitingSignature q.latest 0 s.storage
  have h : exec s ⟨0, .markAwaitingSignature n⟩ = .ok (({ s with
      storage := awaiting.2
      runs := Function.update s.runs n (some ⟨.awaitingSignature, awaiting.1, awaiting.1⟩) } : App).update n
        ({ · with intent := some awaiting.1 }), none) := by
    simp [exec, Tabs.runAt_eq_ok.mpr ⟨hrun, hstage⟩, awaiting]
  have hsame : awaiting.1.operation = stored.operation := by
    simp only [awaiting, markAwaitingSignature, transition, hstored, Option.getD_some]
    rfl
  refine ⟨⟨.awaitingSignature, awaiting.1, awaiting.1⟩, ?_, by simp, hsame.trans hop.symm⟩
  rw [next_ok h]
  exact Function.update_self ..

theorem lively_freed (hl : Linked s) (hlively : Tabs.Lively op s.toTabs) :
    ∃ cs, Tabs.Free op (run exec s cs).toTabs := by
  by_cases hfree : Tabs.Free op s.toTabs
  · exact ⟨[], hfree⟩
  · simp only [Tabs.Free, not_forall, not_not] at hfree
    obtain ⟨key, i, hi, rfl, hactive⟩ := hfree
    obtain ⟨n, q, hq, rfl⟩ := hlively key i hi rfl hactive
    obtain ⟨p, hp, _, hop, _⟩ := hl.exclusive.running n q hq
    obtain rfl : i = p := Option.some.inj (hi.symm.trans hp)
    by_cases hstage : q.stage = .started
    · obtain ⟨q', hq', hstage', hop'⟩ := signs hl hq hstage
      refine ⟨[⟨0, .markAwaitingSignature n⟩, ⟨0, .markFailed n "Transaction failed"⟩], ?_⟩
      rw [← hop, ← hop']
      exact fails (run_linked hl [⟨0, .markAwaitingSignature n⟩]) hq' hstage'
    · refine ⟨[⟨0, .markFailed n "Transaction failed"⟩], ?_⟩
      rw [← hop]
      exact fails hl hq hstage

theorem CanBegin.before {cs : List Invocation} (h : CanBegin (run exec s cs) layout op) :
    CanBegin s layout op := by
  obtain ⟨ds, n, now, p, started, s', hbegin⟩ := h
  refine ⟨cs ++ ds, n, now, p, started, s', ?_⟩
  rw [run_append]
  exact hbegin

/-- An operation can be begun again exactly when each intent of it that is under way has its run. -/
theorem canBegin_iff (hl : Linked s) : CanBegin s layout op ↔ Tabs.Lively op s.toTabs := by
  constructor
  · rintro ⟨cs, n, now, p, started, s', _, _, hconfirm, hop⟩
    have hlively := confirm_lively (run_linked hl cs) hop hconfirm
    exact ((run_lively_iff hl op cs).mp hlively).1
  · intro hlively
    obtain ⟨cs, hfree⟩ := lively_freed hl hlively
    exact (free_canBegin (run_linked hl cs) hfree layout).before

/-- In every run of the components, and for every operation: it can be begun again, through either
component, exactly when no reload of the run cut off a submission of it. -/
theorem run_canBegin_iff (cs : List Invocation) (layout : Layout) (op : Operation) :
    CanBegin (run exec empty cs) layout op ↔ Meets exec (fun s c => ¬Cuts op s c) empty cs := by
  have hempty : Tabs.Lively op empty.toTabs := by
    intro key i hi
    simp [empty, Tabs.empty] at hi
  rw [canBegin_iff (run_linked linked_empty cs), run_lively_iff linked_empty op cs]
  exact and_iff_right hempty

def bob : WalletAddress := ⟨"GBOB", by decide⟩

def bobsIntent : PaymentIntent :=
  (createIntent .deposit bob "flex" USDC_ASSET_CODE "100" "n1" 1000 .empty).1

/-- Bob confirms a deposit, and the page is reloaded while the wallet asks for his signature. -/
def reloadedRun : List Invocation :=
  [⟨0, .loadPage 0 .deposit bob "flex"⟩, ⟨1000, .enterConfirmStep 0 bob "flex" "100" "n1"⟩,
    ⟨2000, .confirm 0⟩, ⟨2000, .markAwaitingSignature 0⟩, ⟨3000, .reload 0⟩]

/-- No continuation lets him deposit into VaultFlex again. -/
theorem reloaded_stuck : ¬CanBegin (run exec empty reloadedRun) .page (.deposit, bob, "flex") := by
  rw [canBegin_iff (run_linked linked_empty reloadedRun)]
  intro hlively
  have hstate : loadIntent bobsIntent.key (run exec empty reloadedRun).storage =
      some { bobsIntent with status := .awaitingSignature, updatedAt := 2000 } ∧
      ∀ n, (run exec empty reloadedRun).runs n = none := by
    simp [reloadedRun, run, next, exec, loadPage, enterConfirmStep, confirm, component, Component.Offers, mount,
      update, empty, Tabs.empty, Tabs.runAt, failIf, expect, findActiveIntent, createIntent, bobsIntent,
      loadIntent_saveIntent, beginSubmission, IntentStatus.Startable, HeldByAnother, markAwaitingSignature,
      transition, pure, Except.pure]
  obtain ⟨hstored, hgone⟩ := hstate
  obtain ⟨n, q, hq, _⟩ := hlively bobsIntent.key _ hstored rfl (.inr (.inl rfl))
  cases (hgone n).symm.trans hq

end App
end YieldLadder.Payment
