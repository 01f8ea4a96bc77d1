import Mathlib.Data.List.Dedup
import Mathlib.Data.Finset.Card
import YieldLadder.Governance.Quorum

/-! # Whether the owners can reach the quorum

`initialise` compares the threshold with the number of entries of the owners list,
a confirmation counts only once for each address. The two numbers differ when an
address is listed twice, and then all owners together may be too few.
-/
namespace YieldLadder.Council
open Foundation GuardianMultisig

def distinct (owners : List Address) : ℕ := owners.dedup.length

/-- The confirmation list of one target while the quorum is not reached. -/
structure Partial (i : Instance) (confirmations : List Address) : Prop where
  nodup : confirmations.Nodup
  registered : ∀ o ∈ confirmations, o ∈ i.owners
  short : confirmations.length < i.threshold

structure Listed (i : Instance) (w : Council) : Prop where
  inst : w.multisig.inst = some i
  lists : ∀ t, Partial i (w.multisig.confirmations.getD t [])

def guardianOf (w : Council) (a : Address) : Option Address :=
  (w.governances a).bind fun g => g.inst.map (·.guardian)

def IsConfirmation (c : Invocation) : Prop := ∃ owner a id, c.call = .confirmVeto owner a id

/-- The owner's own confirmation of the target, whether or not it goes through. -/
def Signs (t : Target) (owner : Address) (c : Invocation) : Prop :=
  c.call = .confirmVeto owner t.1 t.2 ∧ c.env.Authorized owner

/-- The target after the confirmations `cs`: vetoed, with enough addresses in the owners list, or
pending, with a list of all owners that signed. -/
structure Balloted (multisig : Address) (i : Instance) (t : Target) (w : Council)
    (cs : List Invocation) : Prop where
  listed : Listed i w
  guardian : guardianOf w t.1 = some multisig
  outcome : status w t = some .vetoed ∧ i.threshold ≤ distinct i.owners ∨
    status w t = some .pending ∧ ∀ o ∈ i.owners, (∃ c ∈ cs, Signs t o c) →
      o ∈ w.multisig.confirmations.getD t []

variable {self o a : Address} {owners confirmations : List Address} {threshold id : ℕ} {env : Env}
variable {w₀ w w' : Council} {c : Invocation} {r : Council × Value} {i : Instance} {t : Target}
variable {cs : List Invocation} {g g' : Governance.State}

theorem length_le_distinct (hnodup : confirmations.Nodup) (hsub : ∀ o ∈ confirmations, o ∈ owners) :
    confirmations.length ≤ distinct owners := by
  have hdedup : confirmations ⊆ owners.dedup := fun o ho => List.mem_dedup.mpr (hsub o ho)
  exact (hnodup.subperm hdedup).length_le

theorem distinct_le_length (hsub : ∀ o ∈ owners, o ∈ confirmations) :
    distinct owners ≤ confirmations.length := by
  have hdedup : owners.dedup ⊆ confirmations := fun o ho => hsub o (List.mem_dedup.mp ho)
  exact ((List.nodup_dedup owners).subperm hdedup).length_le

theorem Partial.nil (h : 0 < i.threshold) : Partial i [] :=
  ⟨List.nodup_nil, by simp, h⟩

theorem Partial.concat (h : Partial i confirmations) (howner : o ∈ i.owners) (hnew : o ∉ confirmations)
    (hlt : confirmations.length + 1 < i.threshold) : Partial i (confirmations ++ [o]) := by
  refine ⟨List.concat_eq_append ▸ h.nodup.concat hnew, ?_, by simpa using hlt⟩
  intro x hx
  rcases List.mem_append.mp hx with hx | hx
  · exact h.registered x hx
  · exact List.mem_singleton.mp hx ▸ howner

theorem Listed.exec (h : Listed i w) (hc : exec self w c = .ok r) : Listed i r.1 := by
  obtain ⟨env, external, call⟩ := c
  obtain ⟨w', value⟩ := r
  have hpos : 0 < i.threshold := Nat.lt_of_le_of_lt (Nat.zero_le _) (h.lists (self, 0)).short
  cases exec_effect h.inst hc with
  | confirm owner a id _ howner hnew hlt hinst hadded =>
    refine ⟨hinst, fun t => ?_⟩
    rw [hadded]
    split
    · next ht =>
      subst ht
      exact (h.lists _).concat howner hnew hlt
    · exact h.lists t
  | dispatch owner a id _ _ _ _ _ _ _ _ hinst hremoved =>
    refine ⟨hinst, fun t => ?_⟩
    rw [hremoved]
    split
    · exact .nil hpos
    · exact h.lists t
  | governance _ _ _ _ _ _ _ hw =>
    dsimp only at hw
    subst hw
    exact ⟨h.inst, h.lists⟩
  | read _ _ hw =>
    dsimp only at hw
    subst hw
    exact h

theorem listed_of_initialise (h : GuardianMultisig.initialise .empty owners threshold = .ok w.multisig) :
    Listed ⟨owners, threshold⟩ w := by
  simp only [GuardianMultisig.initialise, bind_eq_ok, failIf_eq_ok, pure_eq_ok] at h
  obtain ⟨_, _, _, _, _, _, _, hthreshold, hm⟩ := h
  refine ⟨by rw [← hm], fun t => ?_⟩
  have hempty : w.multisig.confirmations.getD t [] = [] := by
    rw [← hm]
    rfl
  rw [hempty]
  exact .nil (Nat.pos_of_ne_zero fun h0 => hthreshold (.inl h0))

theorem guardianOf_eq_some : guardianOf w a = some self ↔
    ∃ g, w.governances a = some g ∧ ∃ j, g.inst = some j ∧ j.guardian = self := by
  simp [guardianOf, Option.bind_eq_some_iff, Option.map_eq_some_iff]

theorem veto_ok (h : Governance.veto env g id = .ok g') : g'.inst = g.inst ∧
    ∃ p, g.proposals.get id = some p ∧ p.status = .pending ∧
      g'.proposals = g.proposals.set id { p with status := .vetoed } := by
  simp only [Governance.veto, bind_eq_ok, expect_eq_ok, Env.requireAuth_eq_ok, failIf_eq_ok, not_not,
    pure_eq_ok] at h
  obtain ⟨_, _, _, _, p, hget, _, hpending, rfl⟩ := h
  exact ⟨rfl, p, hget, hpending, rfl⟩

/-- The veto of one proposal vetoes that one and leaves the others and the guardians as they are. -/
theorem veto_update (hg : w.governances a = some g) (h : Governance.veto env g id = .ok g')
    (hw : w'.governances = Function.update w.governances a (some g')) :
    (∀ b, guardianOf w' b = guardianOf w b) ∧ status w' (a, id) = some .vetoed ∧
      ∀ t, t ≠ (a, id) → status w' t = status w t := by
  obtain ⟨hinst, p, hget, hpending, hp⟩ := veto_ok h
  refine ⟨fun b => ?_, ?_, fun t ht => ?_⟩
  · unfold guardianOf
    rw [hw]
    by_cases hb : b = a
    · subst hb
      simp [hg, hinst]
    · simp [hb]
  · simp [status, hw, hp]
  · obtain ⟨b, j⟩ := t
    unfold status
    rw [hw]
    by_cases hb : b = a
    · subst hb
      have hj : j ≠ id := fun hj => ht (by rw [hj])
      simp [hg, hp, Store.get_set_of_ne _ hj]
    · simp [hb]

theorem confirmVeto_goes_through (hlisted : Listed i w) (hguardian : guardianOf w t.1 = some self)
    (hpending : status w t = some .pending) (hsigns : Signs t o c) (howner : o ∈ i.owners)
    (hnew : o ∉ w.multisig.confirmations.getD t []) : ∃ r, exec self w c = .ok r := by
  obtain ⟨hcall, hauth⟩ := hsigns
  obtain ⟨g, hg, j, hj, hself⟩ := guardianOf_eq_some.mp hguardian
  obtain ⟨g₁, hg₁, p, hget, hp⟩ := status_eq_some.mp hpending
  obtain rfl : g = g₁ := Option.some.inj (hg.symm.trans hg₁)
  have hauthSelf : (c.env.calledBy self).Authorized j.guardian := hself ▸ c.env.authorized_calledBy _
  obtain ⟨g', hveto⟩ := (veto_ok_iff hj hauthSelf).mpr ⟨p, hget, hp⟩
  by_cases hlt : (w.multisig.confirmations.getD t []).length + 1 < i.threshold
  · simp [exec, hcall, confirmVeto, Env.requireAuth, failIf, hauth, hlisted.inst, howner, hnew,
      Nat.not_le.mpr hlt]
  · simp [exec, hcall, confirmVeto, sendVeto, Env.requireAuth, failIf, hauth, hlisted.inst, howner,
      hnew, Nat.not_lt.mp hlt, hg, hveto]

theorem Balloted.ok (h : Balloted self i t w cs) (hc : IsConfirmation c) (hr : exec self w c = .ok r) :
    Balloted self i t r.1 (cs ++ [c]) := by
  have hlisted := h.listed.exec hr
  have hsigned : ∀ o, (∃ x ∈ cs ++ [c], Signs t o x) ↔ (∃ x ∈ cs, Signs t o x) ∨ Signs t o c := by
    intro o
    simp [or_and_right, exists_or]
  obtain ⟨owner, a, id, hcall⟩ := hc
  obtain ⟨env, external, call⟩ := c
  obtain ⟨w', value⟩ := r
  dsimp only at hcall
  subst hcall
  have hsigns : ∀ o, Signs t o ⟨env, external, .confirmVeto owner a id⟩ → o = owner ∧ t = (a, id) := by
    rintro o ⟨ho, _⟩
    obtain ⟨rfl, rfl, rfl⟩ := Call.confirmVeto.inj ho
    exact ⟨rfl, rfl⟩
  cases exec_effect h.listed.inst hr with
  | confirm _ _ _ _ _ _ _ _ hadded hw =>
    dsimp only at hadded hw
    have hstatus : status w' t = status w t := by simp [status, hw]
    have hsame : guardianOf w' t.1 = guardianOf w t.1 := by simp [guardianOf, hw]
    refine ⟨hlisted, hsame ▸ h.guardian, ?_⟩
    dsimp only
    rw [hstatus]
    refine h.outcome.imp_right (And.imp_right fun hall o ho hs => ?_)
    rw [hadded]
    rcases (hsigned o).mp hs with hbefore | hnow
    · have hold := hall o ho hbefore
      split
      · exact List.mem_append_left _ hold
      · exact hold
    · obtain ⟨rfl, ht⟩ := hsigns o hnow
      rw [if_pos ht]
      exact List.mem_append_right _ List.mem_cons_self
  | dispatch _ _ _ _ howner hnew hge g g' hg hveto _ hremoved hw =>
    dsimp only at hremoved hw
    obtain ⟨hsame, hvetoed, hother⟩ := veto_update hg hveto hw
    refine ⟨hlisted, (hsame t.1).trans h.guardian, ?_⟩
    dsimp only
    by_cases ht : t = (a, id)
    · have hnodup := List.concat_eq_append ▸ (h.listed.lists (a, id)).nodup.concat hnew
      have hlength := length_le_distinct hnodup fun o ho =>
        (List.mem_append.mp ho).elim ((h.listed.lists (a, id)).registered o)
          fun ho => List.mem_singleton.mp ho ▸ howner
      rw [List.length_append, List.length_singleton] at hlength
      exact .inl ⟨ht ▸ hvetoed, hge.trans hlength⟩
    · rw [hother t ht, hremoved, if_neg ht]
      refine h.outcome.imp_right (And.imp_right fun hall o ho hs => hall o ho ?_)
      exact ((hsigned o).mp hs).resolve_right fun hnow => ht (hsigns o hnow).2
  | read _ _ _ hno => exact absurd rfl (hno owner a id)

theorem Balloted.next (h : Balloted self i t w cs) (hc : IsConfirmation c) :
    Balloted self i t (next (exec self) w c) (cs ++ [c]) := by
  cases hr : exec self w c with
  | ok r =>
    rw [next_ok hr]
    exact h.ok hc hr
  | error e =>
    rw [next_error hr]
    refine ⟨h.listed, h.guardian, h.outcome.imp_right fun ⟨hpending, hall⟩ => ⟨hpending, ?_⟩⟩
    rintro o ho ⟨x, hx, hsigns⟩
    rcases List.mem_append.mp hx with hx | hx
    · exact hall o ho ⟨x, hx, hsigns⟩
    · obtain rfl := List.mem_singleton.mp hx
      by_contra hnew
      obtain ⟨r, hok⟩ := confirmVeto_goes_through h.listed h.guardian hpending hsigns ho hnew
      rw [hr] at hok
      cases hok

theorem Balloted.run (h : Balloted self i t w []) (hcs : ∀ c ∈ cs, IsConfirmation c) :
    Balloted self i t (run (Council.exec self) w cs) cs := by
  induction cs using List.reverseRecOn with
  | nil => exact h
  | append_singleton cs c ih =>
    have hbefore := ih fun x hx => hcs x (List.mem_append_left _ hx)
    rw [run_concat]
    exact hbefore.next (hcs c (List.mem_append_right _ List.mem_cons_self))

/-- Once every owner signed, a target that is still pending has all of them in its list. -/
theorem Balloted.vetoed_iff (h : Balloted self i t w cs) (hall : ∀ o ∈ i.owners, ∃ c ∈ cs, Signs t o c) :
    status w t = some .vetoed ↔ i.threshold ≤ distinct i.owners := by
  rcases h.outcome with ⟨hvetoed, hle⟩ | ⟨hpending, hlist⟩
  · exact iff_of_true hvetoed hle
  · have hlength := distinct_le_length fun o ho => hlist o ho (hall o ho)
    have hshort := (h.listed.lists t).short
    refine iff_of_false ?_ (by omega)
    rw [hpending]
    decide

/-- A pending target whose governance contract has the multisig as its guardian, in any state of any
run of the multisig: after confirmations of whatever targets, in any order, among them one by every
owner, it is vetoed exactly when the threshold is at most the number of addresses in the owners
list. -/
theorem vetoed_iff_attainable (hinit : GuardianMultisig.initialise .empty owners threshold = .ok w₀.multisig)
    (before : List Invocation) (hguardian : guardianOf (run (exec self) w₀ before) t.1 = some self)
    (hpending : status (run (exec self) w₀ before) t = some .pending)
    (hcs : ∀ c ∈ cs, IsConfirmation c) (hall : ∀ o ∈ owners, ∃ c ∈ cs, Signs t o c) :
    status (run (exec self) (run (exec self) w₀ before) cs) t = some .vetoed ↔
      threshold ≤ distinct owners := by
  have hlisted : Listed ⟨owners, threshold⟩ (run (exec self) w₀ before) :=
    run_invariant (fun _ _ _ hl hr => hl.exec hr) (listed_of_initialise hinit) before
  have hstart : Balloted self ⟨owners, threshold⟩ t (run (exec self) w₀ before) [] :=
    ⟨hlisted, hguardian, .inr ⟨hpending, by simp⟩⟩
  exact (hstart.run hcs).vetoed_iff hall

def councilOf (owners : List Address) (threshold : ℕ) : Council :=
  { council with multisig := ⟨some ⟨owners, threshold⟩, .empty⟩ }

def proposed : List Invocation :=
  [⟨⟨[9], none, 5⟩, fun _ => .ok (), .governance (.contract 8) (.propose (.updateStrategist (.account 4)))⟩]

def confirmEach (accounts : List ℕ) : List Invocation :=
  accounts.flatMap fun n =>
    [⟨⟨[n], none, 6⟩, fun _ => .ok (), .confirmVeto (.account n) (.contract 30) 4⟩,
     ⟨⟨[n], none, 7⟩, fun _ => .ok (), .confirmVeto (.account n) (.contract 8) 0⟩]

theorem vetoed_iff_attainable_three :
    status (run (exec (.contract 7)) (run (exec (.contract 7))
        (councilOf [.account 1, .account 2, .account 3] 3) proposed) (confirmEach [3, 1, 2]))
      (.contract 8, 0) = some .vetoed ↔ 3 ≤ distinct [.account 1, .account 2, .account 3] :=
  vetoed_iff_attainable rfl proposed (by decide) (by decide) (by simp [confirmEach, IsConfirmation])
    (by simp [confirmEach, Signs, Env.Authorized])

/-- An accepted list with one address twice: the only owner confirms, and the proposal stays pending. -/
theorem unattainable_twice :
    (∃ s, GuardianMultisig.initialise .empty [.account 1, .account 1] 2 = .ok s ∧
      s = (councilOf [.account 1, .account 1] 2).multisig) ∧
    guardianOf (run (exec (.contract 7)) (councilOf [.account 1, .account 1] 2) proposed) (.contract 8) =
      some (.contract 7) ∧
    status (run (exec (.contract 7)) (councilOf [.account 1, .account 1] 2) proposed) (.contract 8, 0) =
      some .pending ∧
    (∀ o ∈ [Address.account 1, .account 1], ∃ c ∈ confirmEach [1], Signs (.contract 8, 0) o c) ∧
    status (run (exec (.contract 7)) (run (exec (.contract 7))
        (councilOf [.account 1, .account 1] 2) proposed) (confirmEach [1])) (.contract 8, 0) =
      some .pending :=
  ⟨⟨_, rfl, rfl⟩, by decide, by decide, by simp [confirmEach, Signs, Env.Authorized], by decide⟩

end YieldLadder.Council
