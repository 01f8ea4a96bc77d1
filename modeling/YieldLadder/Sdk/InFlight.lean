import YieldLadder.Foundation.Fallible
import YieldLadder.Foundation.Machine
import YieldLadder.Foundation.Store
import YieldLadder.Sdk.Errors

/-! # Calls in flight

Calls that share an idempotency key share one `doInvoke` while it is under way. The
event loop interleaves the calls with the settling of what they started; the release
of a key checks that the entry is still the run's own.
-/
namespace YieldLadder.Sdk
open Foundation

/-- A promise resolves with a hash, or rejects. -/
abbrev Outcome := Except Thrown String

/-- A `doInvoke` that was started, under the key of the call that did, and its outcome once it settles. -/
structure Started where
  idempotencyKey : Option String
  outcome : Option Outcome

/-- A promise is the number of the `doInvoke` it is of. -/
structure Pipeline where
  inFlight : Store String ℕ
  started : List Started

/-- The key that a call is deduplicated by: `if (idempotencyKey)` skips the empty one as it skips none. -/
def dedupKey (idempotencyKey : Option String) : Option String := idempotencyKey.filter fun k => k ≠ ""

namespace Pipeline

def empty : Pipeline := ⟨.empty, []⟩

inductive Action
  | invoke (idempotencyKey : Option String)
  | settle (promise : ℕ) (outcome : Outcome)

/-- Only what was started settles, and only once. -/
inductive Refusal
  | notStarted
  | settled
  deriving DecidableEq, Repr

/-- The `inFlight.set` of a call. -/
def register (idempotencyKey : Option String) (promise : ℕ) (inFlight : Store String ℕ) : Store String ℕ :=
  match dedupKey idempotencyKey with
  | some k => inFlight.set k promise
  | none => inFlight

/-- The `finally` of a call. -/
def release (idempotencyKey : Option String) (promise : ℕ) (inFlight : Store String ℕ) : Store String ℕ :=
  match dedupKey idempotencyKey with
  | some k => if inFlight.get k = some promise then inFlight.remove k else inFlight
  | none => inFlight

def invoke (idempotencyKey : Option String) (s : Pipeline) : Pipeline × ℕ :=
  match (dedupKey idempotencyKey).bind s.inFlight.get with
  | some existing => (s, existing)
  | none =>
    let promise := s.started.length
    (⟨register idempotencyKey promise s.inFlight, s.started ++ [⟨idempotencyKey, none⟩]⟩, promise)

def exec (s : Pipeline) : Action → Except Refusal (Pipeline × Option ℕ)
  | .invoke idempotencyKey => pure ((invoke idempotencyKey s).1, some (invoke idempotencyKey s).2)
  | .settle promise outcome => do
    let r ← expect .notStarted s.started[promise]?
    failIf (r.outcome.isSome = true) .settled
    pure (⟨release r.idempotencyKey promise s.inFlight,
      s.started.set promise { r with outcome := some outcome }⟩, none)

def UnderWay (s : Pipeline) (k : String) (promise : ℕ) : Prop :=
  s.started[promise]? = some ⟨some k, none⟩

/-- An entry stands for every keyed run under way, and for nothing else. -/
def Registered (s : Pipeline) : Prop :=
  ∀ k promise, s.inFlight.get k = some promise ↔ k ≠ "" ∧ s.UnderWay k promise

variable {s s' : Pipeline} {k : String} {idempotencyKey : Option String} {promise : ℕ} {outcome : Outcome}
variable {reply : Option ℕ}

theorem dedupKey_eq_some : dedupKey idempotencyKey = some k ↔ idempotencyKey = some k ∧ k ≠ "" := by
  simp [dedupKey, Option.filter_eq_some_iff]

theorem dedupKey_some (hk : k ≠ "") : dedupKey (some k) = some k := dedupKey_eq_some.mpr ⟨rfl, hk⟩

theorem get_register (inFlight : Store String ℕ) : (register idempotencyKey promise inFlight).get k =
    if dedupKey idempotencyKey = some k then some promise else inFlight.get k := by
  unfold register
  cases h : dedupKey idempotencyKey with
  | none => rfl
  | some j =>
    dsimp only
    rw [Store.get_set]
    simp only [Option.some.injEq, eq_comm]

theorem get_release (inFlight : Store String ℕ) : (release idempotencyKey promise inFlight).get k =
    if dedupKey idempotencyKey = some k ∧ inFlight.get k = some promise then none
    else inFlight.get k := by
  unfold release
  cases h : dedupKey idempotencyKey with
  | none => simp
  | some j =>
    simp only [Option.some.injEq]
    by_cases hj : j = k
    · subst hj
      simp only [true_and]
      split_ifs
      · exact Store.get_remove_self inFlight j
      · rfl
    · simp only [hj, false_and, if_false]
      split_ifs
      · exact Store.get_remove_of_ne inFlight (Ne.symm hj)
      · rfl

theorem invoke_existing {existing : ℕ}
    (h : (dedupKey idempotencyKey).bind s.inFlight.get = some existing) :
    invoke idempotencyKey s = (s, existing) := by
  unfold invoke
  rw [h]

theorem invoke_none (h : (dedupKey idempotencyKey).bind s.inFlight.get = none) :
    invoke idempotencyKey s = (⟨register idempotencyKey s.started.length s.inFlight,
      s.started ++ [⟨idempotencyKey, none⟩]⟩, s.started.length) := by
  unfold invoke
  rw [h]

/-- What a step does: a call joins what is under way or starts anew, or something started settles. -/
inductive Effect (s : Pipeline) (action : Action) (s' : Pipeline) (reply : Option ℕ) : Prop
  | joined (k : String) (promise : ℕ) (haction : action = .invoke (some k)) (hk : k ≠ "")
      (hunder : s.UnderWay k promise) (hstate : s' = s) (hreply : reply = some promise)
  | started (idempotencyKey : Option String) (haction : action = .invoke idempotencyKey)
      (hfree : ∀ k promise, dedupKey idempotencyKey = some k → ¬s.UnderWay k promise)
      (hinFlight : s'.inFlight = register idempotencyKey s.started.length s.inFlight)
      (hstarted : s'.started = s.started ++ [⟨idempotencyKey, none⟩])
      (hreply : reply = some s.started.length)
  | settled (promise : ℕ) (outcome : Outcome) (idempotencyKey : Option String)
      (haction : action = .settle promise outcome)
      (hunder : s.started[promise]? = some ⟨idempotencyKey, none⟩)
      (hinFlight : s'.inFlight = release idempotencyKey promise s.inFlight)
      (hstarted : s'.started = s.started.set promise ⟨idempotencyKey, some outcome⟩)
      (hreply : reply = none)

theorem exec_effect {action : Action} (hs : Registered s) (h : exec s action = .ok (s', reply)) :
    Effect s action s' reply := by
  cases action with
  | invoke idempotencyKey =>
    simp only [exec, pure_eq_ok, Prod.mk.injEq] at h
    obtain ⟨rfl, rfl⟩ := h
    cases hentry : (dedupKey idempotencyKey).bind s.inFlight.get with
    | some existing =>
      obtain ⟨k, hkey, hget⟩ := Option.bind_eq_some_iff.mp hentry
      obtain ⟨rfl, hk⟩ := dedupKey_eq_some.mp hkey
      rw [invoke_existing hentry]
      exact .joined k existing rfl hk ((hs k existing).mp hget).2 rfl rfl
    | none =>
      rw [invoke_none hentry]
      refine .started idempotencyKey rfl (fun k promise hkey hunder => ?_) rfl rfl rfl
      have hk : k ≠ "" := (dedupKey_eq_some.mp hkey).2
      rw [hkey, Option.bind_some, (hs k promise).mpr ⟨hk, hunder⟩] at hentry
      cases hentry
  | settle promise outcome =>
    simp only [exec, bind_eq_ok, expect_eq_ok, failIf_eq_ok, pure_eq_ok, Bool.not_eq_true,
      Option.isSome_eq_false_iff, Option.isNone_iff_eq_none, Prod.mk.injEq] at h
    obtain ⟨⟨idempotencyKey, _⟩, hstarted, _, rfl, rfl, rfl⟩ := h
    exact .settled promise outcome idempotencyKey rfl hstarted rfl rfl rfl

theorem underWay_append (hstarted : s'.started = s.started ++ [⟨idempotencyKey, none⟩]) :
    s'.UnderWay k promise ↔
      s.UnderWay k promise ∨ promise = s.started.length ∧ idempotencyKey = some k := by
  unfold UnderWay
  rw [hstarted, List.getElem?_append]
  split
  · next hlt =>
    exact ⟨.inl, fun h => h.resolve_right fun hnew => absurd hnew.1 (Nat.ne_of_lt hlt)⟩
  · next hge =>
    rw [List.getElem?_eq_none (l := s.started) (Nat.le_of_not_lt hge), List.getElem?_singleton]
    by_cases hnew : promise = s.started.length
    · simp [hnew]
    · have hne : promise - s.started.length ≠ 0 := by omega
      simp [hne, hnew]

theorem underWay_set {settled : ℕ}
    (hstarted : s'.started = s.started.set settled ⟨idempotencyKey, some outcome⟩) :
    s'.UnderWay k promise ↔ promise ≠ settled ∧ s.UnderWay k promise := by
  unfold UnderWay
  rw [hstarted, List.getElem?_set]
  split
  · next heq =>
    subst heq
    refine iff_of_false (fun h => ?_) fun h => h.1 rfl
    split at h
    · cases h
    · cases h
  · next hne => exact (and_iff_right (Ne.symm hne)).symm

theorem registered_empty : Registered empty := by
  intro k promise
  simp [empty, Store.empty, UnderWay]

theorem Registered.effect {action : Action} (hs : Registered s) (h : Effect s action s' reply) :
    Registered s' := by
  intro k promise
  cases h with
  | joined j existing _ _ _ hstate _ =>
    rw [hstate]
    exact hs k promise
  | started idempotencyKey _ hfree hinFlight hstarted _ =>
    rw [hinFlight, get_register, underWay_append hstarted]
    split
    · next hkey =>
      obtain ⟨rfl, hk⟩ := dedupKey_eq_some.mp hkey
      have hnone : ¬s.UnderWay k promise := hfree k promise hkey
      simp [hnone, hk, eq_comm]
    · next hkey =>
      rw [hs k promise]
      refine and_congr_right fun hk => ⟨.inl, fun h => h.resolve_right fun hnew => ?_⟩
      exact hkey (dedupKey_eq_some.mpr ⟨hnew.2, hk⟩)
  | settled settled outcome idempotencyKey _ hunder hinFlight hstarted _ =>
    rw [hinFlight, get_release, underWay_set hstarted]
    split
    · next hown =>
      obtain ⟨_, hget⟩ := hown
      refine iff_of_false nofun fun h => ?_
      have hsame : some settled = some promise := hget.symm.trans ((hs k promise).mpr ⟨h.1, h.2.2⟩)
      exact h.2.1 (Option.some.inj hsame).symm
    · next hown =>
      rw [hs k promise]
      refine and_congr_right fun hk => ⟨fun h => ⟨?_, h⟩, And.right⟩
      rintro rfl
      cases hunder.symm.trans h
      exact hown ⟨dedupKey_some hk, (hs k promise).mpr ⟨hk, h⟩⟩

/-- What has been started keeps its key, and once settled its outcome. -/
theorem Effect.kept {action : Action} {r : Started} (h : Effect s action s' reply)
    (hr : s.started[promise]? = some r) :
    ∃ r', s'.started[promise]? = some r' ∧ r'.idempotencyKey = r.idempotencyKey ∧
      ∀ outcome, r.outcome = some outcome → r'.outcome = some outcome := by
  cases h with
  | joined j existing _ _ _ hstate _ =>
    rw [hstate]
    exact ⟨r, hr, rfl, fun _ h => h⟩
  | started idempotencyKey _ _ _ hstarted _ =>
    refine ⟨r, ?_, rfl, fun _ h => h⟩
    rw [hstarted, List.getElem?_append_left (List.getElem?_eq_some_iff.mp hr).1]
    exact hr
  | settled settled outcome idempotencyKey _ hunder _ hstarted _ =>
    rw [hstarted]
    by_cases hsettled : settled = promise
    · subst hsettled
      cases hunder.symm.trans hr
      refine ⟨⟨idempotencyKey, some outcome⟩, ?_, rfl, nofun⟩
      exact List.getElem?_set_self (List.getElem?_eq_some_iff.mp hr).1
    · refine ⟨r, ?_, rfl, fun _ h => h⟩
      rw [List.getElem?_set_ne hsettled]
      exact hr

/-- What the pipeline promises in a state: at most one run under way for a key, which every call with the key
joins, while any other call starts one; a run that settles loses its own entry only, and what has settled stays
as it is. -/
structure Deduplicates (s : Pipeline) : Prop where
  one : ∀ k promise promise', k ≠ "" → s.UnderWay k promise → s.UnderWay k promise' → promise = promise'
  joins : ∀ k promise, k ≠ "" → s.UnderWay k promise →
    exec s (.invoke (some k)) = .ok (s, some promise)
  starts : ∀ idempotencyKey, (∀ k promise, idempotencyKey = some k → k ≠ "" → ¬s.UnderWay k promise) →
    ∃ s', exec s (.invoke idempotencyKey) = .ok (s', some s.started.length) ∧
      s'.started = s.started ++ [⟨idempotencyKey, none⟩]
  releases : ∀ (promise : ℕ) idempotencyKey outcome, s.started[promise]? = some ⟨idempotencyKey, none⟩ →
    ∃ s', exec s (.settle promise outcome) = .ok (s', none) ∧
      s'.started = s.started.set promise ⟨idempotencyKey, some outcome⟩ ∧
      ∀ k other, s'.inFlight.get k = some other ↔ other ≠ promise ∧ s.inFlight.get k = some other
  keeps : ∀ ds (promise : ℕ) (r : Started) outcome,
    s.started[promise]? = some r → r.outcome = some outcome →
    ∃ r' : Started, (run exec s ds).started[promise]? = some r' ∧ r'.outcome = some outcome

def Apart (e e' : Action × Option ℕ) : Prop :=
  ∀ key key' promise, e = (.invoke key, some promise) → e' = (.invoke key', some promise) →
    ∃ k, k ≠ "" ∧ key = some k ∧ key' = some k

/-- What has settled stays as it is throughout a run. -/
theorem run_settled {r : Started} (hs : Registered s) (hr : s.started[promise]? = some r)
    (hsettled : r.outcome = some outcome) (ds : List Action) :
    ∃ r' : Started, (run exec s ds).started[promise]? = some r' ∧ r'.outcome = some outcome := by
  have hkept : Registered (run exec s ds) ∧ ∃ r' : Started,
      (run exec s ds).started[promise]? = some r' ∧ r'.outcome = some outcome := by
    refine run_invariant (I := fun t => Registered t ∧ ∃ r' : Started, t.started[promise]? = some r' ∧
      r'.outcome = some outcome) (fun t c a ht ha => ?_) ⟨hs, r, hr, hsettled⟩ ds
    obtain ⟨htr, r', hr', houtcome⟩ := ht
    have heffect := exec_effect htr ha
    obtain ⟨r'', hr'', _, hsame⟩ := heffect.kept hr'
    exact ⟨htr.effect heffect, r'', hr'', hsame outcome houtcome⟩
  exact hkept.2

theorem Registered.deduplicates (hs : Registered s) : Deduplicates s where
  one k promise promise' hk h h' := by
    have hget : s.inFlight.get k = some promise := (hs k promise).mpr ⟨hk, h⟩
    exact Option.some.inj (hget.symm.trans ((hs k promise').mpr ⟨hk, h'⟩))
  joins k promise hk h := by
    have hentry : (dedupKey (some k)).bind s.inFlight.get = some promise := by
      rw [dedupKey_some hk, Option.bind_some]
      exact (hs k promise).mpr ⟨hk, h⟩
    simp only [exec, invoke_existing hentry]
    rfl
  starts idempotencyKey h := by
    have hentry : (dedupKey idempotencyKey).bind s.inFlight.get = none := by
      rw [Option.bind_eq_none_iff]
      intro k hkey
      obtain ⟨hsome, hk⟩ := dedupKey_eq_some.mp hkey
      refine Option.eq_none_iff_forall_ne_some.mpr fun promise hget => ?_
      exact h k promise hsome hk ((hs k promise).mp hget).2
    simp only [exec, invoke_none hentry]
    exact ⟨_, rfl, rfl⟩
  releases promise idempotencyKey outcome h := by
    simp only [exec, h, expect_some, ok_bind]
    refine ⟨_, rfl, rfl, fun k other => ?_⟩
    dsimp only
    rw [get_release]
    split
    · next hown =>
      refine iff_of_false nofun fun hother => hother.1 ?_
      exact Option.some.inj (hother.2.symm.trans hown.2)
    · next hown =>
      refine ⟨fun hget => ⟨?_, hget⟩, And.right⟩
      rintro rfl
      obtain ⟨hk, hunder⟩ := (hs k other).mp hget
      cases h.symm.trans hunder
      exact hown ⟨dedupKey_some hk, hget⟩
  keeps ds promise r outcome hr hsettled := run_settled hs hr hsettled ds

/-- Every logged call has the promise of a run with its key, and all of them are kept apart. -/
structure Logged (s : Pipeline) (calls : List (Action × Option ℕ)) : Prop where
  registered : Registered s
  keyed : ∀ key (promise : ℕ), (.invoke key, some promise) ∈ calls →
    ∃ r : Started, s.started[promise]? = some r ∧ r.idempotencyKey = key
  apart : calls.Pairwise Apart

theorem Logged.step {calls : List (Action × Option ℕ)} {action : Action} (hl : Logged s calls)
    (h : exec s action = .ok (s', reply)) : Logged s' (calls ++ [(action, reply)]) := by
  have heffect := exec_effect hl.registered h
  refine ⟨hl.registered.effect heffect, ?_,
    List.pairwise_append.mpr ⟨hl.apart, List.pairwise_singleton _ _, ?_⟩⟩
  · intro key promise hmem
    rcases List.mem_append.mp hmem with hmem | hmem
    · obtain ⟨r, hr, hkey⟩ := hl.keyed key promise hmem
      obtain ⟨r', hr', hkey', _⟩ := heffect.kept hr
      exact ⟨r', hr', hkey'.trans hkey⟩
    · obtain ⟨rfl, rfl⟩ := Prod.mk.inj (List.mem_singleton.mp hmem)
      cases heffect with
      | joined k existing haction _ hunder hstate hreply =>
        cases haction
        cases hreply
        rw [hstate]
        exact ⟨_, hunder, rfl⟩
      | started idempotencyKey haction _ _ hstarted hreply =>
        cases haction
        cases hreply
        rw [hstarted]
        exact ⟨_, List.getElem?_concat_length, rfl⟩
      | settled _ _ _ haction => cases haction
  · intro e he e' he' key key' promise hkey hkey'
    subst hkey
    obtain ⟨rfl, rfl⟩ := Prod.mk.inj ((List.mem_singleton.mp he').symm.trans hkey')
    obtain ⟨r, hr, hsame⟩ := hl.keyed key promise he
    cases heffect with
    | joined k existing haction hk hunder _ hreply =>
      cases haction
      cases hreply
      cases hr.symm.trans hunder
      exact ⟨k, hk, hsame.symm, rfl⟩
    | started idempotencyKey haction _ _ _ hreply =>
      cases hreply
      exact absurd (List.getElem?_eq_some_iff.mp hr).1 (Nat.lt_irrefl _)
    | settled _ _ _ haction => cases haction

/-- Throughout every interleaving of calls and settlings the pipeline keeps its promise, and no two calls share
a run unless they were made with one key. -/
theorem run_deduplicates (cs : List Action) :
    Deduplicates (run exec empty cs) ∧ (log exec empty cs).Pairwise Apart := by
  have hlogged : Logged (run exec empty cs) (log exec empty cs) := by
    refine run_log_invariant ⟨registered_empty, nofun, .nil⟩ (fun s' calls action r hl h => ?_) cs
    exact hl.step h
  exact ⟨hlogged.registered.deduplicates, hlogged.apart⟩

/-- An empty key counts as none: the second call starts a run beside the one under way. -/
theorem emptyKey_starts_twice : (run exec empty [.invoke (some ""), .invoke (some "")]).UnderWay "" 0 ∧
    (run exec empty [.invoke (some ""), .invoke (some "")]).UnderWay "" 1 :=
  ⟨rfl, rfl⟩

end Pipeline
end YieldLadder.Sdk
