import YieldLadder.Vault.Accounting

/-! # What callers without a role can do to a tier vault

Every state-changing operation asks for a stored role, so calls that no role
authorises leave the whole state as it is, except one: the locked vaults accept
`initialise` again, from whoever authorises it as the new admin.
-/
namespace YieldLadder.TierVault
open Foundation

/-- The addresses stored as Admin, Governance and Guardian, where the vault has them. -/
def roles : TierVault → List Address
  | .flex s => (s.inst.map fun i => [i.admin]).getD []
  | .l3 s => (s.core.inst.map fun i => [i.admin, i.governance]).getD [] ++ s.guardian.toList
  | .l6 s => (s.inst.map fun i => [i.admin, i.governance]).getD []
  | .l12 s => (s.inst.map fun i => [i.admin, i.governance]).getD []

/-- An `initialise` of a locked vault that the address it names as admin authorises. -/
def Takeover : Tier → Invocation → Prop
  | .l3, (env, .initialise (.guarded admin _ _ _ _ _)) => env.Authorized admin
  | .l6, (env, .initialise (.locked admin _ _ _ _)) => env.Authorized admin
  | .l12, (env, .initialise (.locked admin _ _ _ _)) => env.Authorized admin
  | _, _ => False

variable {env : Env} {v : TierVault} {call : VaultCall} {r : TierVault × Reply} {A : Address}

/-- A locked operation that neither Admin nor Governance authorises changes nothing. -/
theorem operate_unprivileged {p : TierParams} {emergency : Address → Bool} {s s' : Locked.State}
    {reply : Reply} {i : Locked.Instance} (hi : s.inst = some i) (hA : ¬env.Authorized i.admin)
    (hG : ¬env.Authorized i.governance)
    (h : Locked.operate p emergency env s call = .ok (s', reply)) : s' = s := by
  have hadmin : ∀ {j : Locked.Instance}, s.inst = some j → env.Authorized j.admin → s' = s := by
    intro j hj ha
    cases hi.symm.trans hj
    exact absurd ha hA
  cases Locked.operate_effect h with
  | deposit _ _ _ j hj ha => exact hadmin hj ha
  | withdraw _ _ _ j hj ha => exact hadmin hj ha
  | earlyExit _ _ _ j hj ha => exact hadmin hj ha
  | relock _ _ j hj ha => exact hadmin hj ha
  | setMaxTvl _ j hj hg =>
    cases hi.symm.trans hj
    exact absurd hg hG
  | query _ _ hs => exact hs

theorem flex_operation {s : VaultFlex.State} {q : VaultFlex.State × Reply} {i : VaultFlex.Instance}
    (hi : s.inst = some i) (h : VaultFlex.step env s call = .ok q) : IsOperation call := by
  rintro args rfl
  cases args with
  | flex admin strategy =>
    simp only [VaultFlex.step, bind_eq_ok] at h
    obtain ⟨_, hs, _⟩ := h
    obtain ⟨hnone, _⟩ := VaultFlex.initialise_ok hs
    cases hi.symm.trans hnone
  | _ => simp [VaultFlex.step] at h

theorem flex_unprivileged {s s' : VaultFlex.State} {reply : Reply} {i : VaultFlex.Instance}
    (hi : s.inst = some i) (hA : ¬env.Authorized i.admin)
    (h : VaultFlex.step env s call = .ok (s', reply)) : s' = s := by
  have hadmin : ∀ {j : VaultFlex.Instance}, s.inst = some j → env.Authorized j.admin → s' = s := by
    intro j hj ha
    cases hi.symm.trans hj
    exact absurd ha hA
  cases VaultFlex.step_effect (flex_operation hi h) h with
  | deposit _ _ _ j hj ha => exact hadmin hj ha
  | exit _ _ _ _ _ _ j hj ha => exact hadmin hj ha
  | query _ _ hs => exact hs

/-- VaultL6 and VaultL12 without a role: nothing changes but by a second `initialise`. -/
theorem locked_unprivileged {p : TierParams} {s s' : Locked.State} {reply : Reply}
    {i : Locked.Instance} (hi : s.inst = some i) (hA : ¬env.Authorized i.admin)
    (hG : ¬env.Authorized i.governance)
    (hno : ∀ admin governance strategy usdc maxTvl,
      call = .initialise (.locked admin governance strategy usdc maxTvl) → ¬env.Authorized admin)
    (h : Locked.step p env s call = .ok (s', reply)) : s' = s := by
  have hoperate : Locked.operate p (fun _ => false) env s call = .ok (s', reply) → s' = s :=
    operate_unprivileged hi hA hG
  cases call with
  | initialise args =>
    cases args with
    | locked admin governance strategy usdc maxTvl =>
      simp only [Locked.step, bind_eq_ok] at h
      obtain ⟨_, hs, _⟩ := h
      exact absurd (Locked.initialise_ok hs).1 (hno _ _ _ _ _ rfl)
    | _ => simp [Locked.step] at h
  | _ => exact hoperate h

theorem l3_unprivileged {s s' : VaultL3.State} {reply : Reply} {i : Locked.Instance}
    (hi : s.core.inst = some i) (hA : ¬env.Authorized i.admin)
    (hG : ¬env.Authorized i.governance) (hU : ∀ u ∈ s.guardian, ¬env.Authorized u)
    (hno : ¬Takeover .l3 (env, call)) (h : VaultL3.step env s call = .ok (s', reply)) : s' = s := by
  have hoperate : ∀ {c q}, Locked.operate VaultL3.params (VaultL3.emergency s) env s.core c = .ok q →
      ({ s with core := q.1 }, q.2) = (s', reply) → s' = s := by
    intro c q hcore hr
    obtain ⟨rfl, _⟩ := Prod.mk.inj hr
    rw [operate_unprivileged hi hA hG hcore]
  cases call with
  | initialise args =>
    cases args with
    | guarded admin governance guardian strategy usdc maxTvl =>
      simp only [VaultL3.step, VaultL3.initialise, bind_eq_ok] at h
      obtain ⟨_, ⟨_, hs, _⟩, _⟩ := h
      exact absurd (Locked.initialise_ok hs).1 hno
    | _ => simp [VaultL3.step] at h
  | setEmergencyUnlock asset active =>
    simp only [VaultL3.step, VaultL3.setEmergencyUnlock, bind_eq_ok, expect_eq_ok,
      Env.requireAuth_eq_ok] at h
    obtain ⟨_, ⟨u, hu, _, hauth, _⟩, _⟩ := h
    exact absurd hauth (hU u hu)
  | query q =>
    cases q with
    | emergencyUnlock asset => exact (Prod.mk.inj (pure_eq_ok.mp h)).1.symm
    | _ =>
      obtain ⟨q, hcore, hr⟩ := bind_eq_ok.mp h
      exact hoperate hcore (pure_eq_ok.mp hr)
  | _ =>
    obtain ⟨q, hcore, hr⟩ := bind_eq_ok.mp h
    exact hoperate hcore (pure_eq_ok.mp hr)

theorem step_unprivileged (hA : v.admin = some A) (hun : ∀ a ∈ v.roles, ¬env.Authorized a)
    (hno : ¬Takeover v.tier (env, call)) (h : step env v call = .ok r) : r.1 = v := by
  cases v with
  | flex s =>
    obtain ⟨i, hi, _⟩ := Option.map_eq_some_iff.mp hA
    simp only [step, bind_eq_ok, pure_eq_ok] at h
    obtain ⟨_, hq, rfl⟩ := h
    rw [← flex_unprivileged hi (hun _ (by simp [roles, hi])) hq]
  | l3 s =>
    obtain ⟨i, hi, _⟩ := Option.map_eq_some_iff.mp hA
    simp only [step, bind_eq_ok, pure_eq_ok] at h
    obtain ⟨_, hq, rfl⟩ := h
    rw [← l3_unprivileged hi (hun _ (by simp [roles, hi])) (hun _ (by simp [roles, hi]))
      (fun u hu => hun u (List.mem_append_right _ (Option.mem_toList.mpr hu))) hno hq]
  | l6 s =>
    obtain ⟨i, hi, _⟩ := Option.map_eq_some_iff.mp hA
    simp only [step, bind_eq_ok, pure_eq_ok] at h
    obtain ⟨_, hq, rfl⟩ := h
    rw [← locked_unprivileged hi (hun _ (by simp [roles, hi])) (hun _ (by simp [roles, hi]))
      (by rintro _ _ _ _ _ rfl; exact hno) hq]
  | l12 s =>
    obtain ⟨i, hi, _⟩ := Option.map_eq_some_iff.mp hA
    simp only [step, bind_eq_ok, pure_eq_ok] at h
    obtain ⟨_, hq, rfl⟩ := h
    rw [← locked_unprivileged hi (hun _ (by simp [roles, hi])) (hun _ (by simp [roles, hi]))
      (by rintro _ _ _ _ _ rfl; exact hno) hq]

theorem operate_admin {p : TierParams} {emergency : Address → Bool} {s s' : Locked.State}
    {reply : Reply} (h : Locked.operate p emergency env s call = .ok (s', reply)) :
    s'.inst.map Locked.Instance.admin = s.inst.map Locked.Instance.admin := by
  have htake : ∀ {i user asset amount}, s.inst = some i →
      Locked.takeOut i s user asset amount = .ok s' →
      s'.inst.map Locked.Instance.admin = s.inst.map Locked.Instance.admin := by
    intro i user asset amount hi ht
    obtain ⟨_, _, hi', _⟩ := Locked.takeOut_ok hi ht
    rw [hi', hi]
    rfl
  cases Locked.operate_effect h with
  | deposit _ _ _ i hi _ _ _ hi' =>
    rw [hi', hi]
    rfl
  | withdraw _ _ _ i hi _ _ _ ht => exact htake hi ht
  | earlyExit _ _ _ i hi _ _ ht => exact htake hi ht
  | relock _ _ i hi _ _ hs => rw [hs]
  | setMaxTvl _ i hi _ hs =>
    rw [hs, hi]
    rfl
  | query _ _ hs => rw [hs]

theorem flex_admin {s s' : VaultFlex.State} {reply : Reply} {i : VaultFlex.Instance}
    (hi : s.inst = some i) (h : VaultFlex.step env s call = .ok (s', reply)) :
    s'.inst.map VaultFlex.Instance.admin = s.inst.map VaultFlex.Instance.admin := by
  cases VaultFlex.step_effect (flex_operation hi h) h with
  | deposit _ _ _ j hj _ _ hj' =>
    dsimp only at hj'
    rw [hj', hj]
    rfl
  | exit _ _ _ _ _ _ j hj _ _ _ _ hj' =>
    dsimp only at hj'
    rw [hj', hj]
    rfl
  | query _ _ hs =>
    dsimp only at hs
    rw [hs]

theorem step_tier (h : step env v call = .ok r) : r.1.tier = v.tier := by
  cases v <;> simp only [step, bind_eq_ok, pure_eq_ok] at h <;> obtain ⟨_, _, rfl⟩ := h <;> rfl

theorem params_of_tier {w : TierVault} (h : w.tier = v.tier) : w.params = v.params := by
  cases w <;> cases v <;> first | rfl | cases h

theorem step_params (h : step env v call = .ok r) : r.1.params = v.params := params_of_tier (step_tier h)

theorem run_params (cs : List Invocation) : (run exec v cs).params = v.params := by
  induction cs generalizing v with
  | nil => rfl
  | cons c cs ih =>
    rw [run_cons, ih]
    exact next_induction (I := fun w => w.params = v.params) rfl fun _ h => step_params h

theorem step_admin (hA : v.admin = some A) (h : step env v call = .ok r) :
    r.1.admin = some A ∨
      (∃ args, call = .initialise args) ∧ ∃ B, r.1.admin = some B ∧ env.Authorized B := by
  rcases v.flex_or_locked with ⟨s, rfl⟩ | ⟨p, s, hp, hs⟩
  · obtain ⟨i, hi, hiA⟩ := Option.map_eq_some_iff.mp hA
    simp only [step, bind_eq_ok, pure_eq_ok] at h
    obtain ⟨⟨s', reply⟩, hq, rfl⟩ := h
    exact .inl (by rw [← hA]; exact flex_admin hi hq)
  · rw [admin_of_core hs] at hA
    obtain ⟨s', hs', _, ⟨hop, _⟩ | ⟨args, admin, _, _, _, _, rfl, rfl, hauth⟩ | ⟨_, rfl, _⟩⟩ :=
      step_core hp hs h
    · rw [admin_of_core hs', operate_admin hop]
      exact .inl hA
    · rw [admin_of_core hs']
      exact .inr ⟨⟨args, rfl⟩, admin, rfl, hauth⟩
    · rw [admin_of_core hs']
      exact .inl hA

theorem operation_admin (hc : IsOperation call) (hA : v.admin = some A)
    (h : step env v call = .ok r) : r.1.admin = some A := by
  rcases step_admin hA h with hr | ⟨⟨args, hargs⟩, _⟩
  · exact hr
  · exact absurd hargs (hc args)

def guardian : TierVault → Option Address
  | .l3 s => s.guardian
  | _ => none

theorem step_emergency (h : step env v call = .ok r) : r.1.emergency = v.emergency ∨
    (∃ asset active, call = .setEmergencyUnlock asset active) ∧
      ∃ u, v.guardian = some u ∧ env.Authorized u := by
  cases v with
  | flex s =>
    simp only [step, bind_eq_ok, pure_eq_ok] at h
    obtain ⟨_, _, rfl⟩ := h
    exact .inl rfl
  | l6 s =>
    simp only [step, bind_eq_ok, pure_eq_ok] at h
    obtain ⟨_, _, rfl⟩ := h
    exact .inl rfl
  | l12 s =>
    simp only [step, bind_eq_ok, pure_eq_ok] at h
    obtain ⟨_, _, rfl⟩ := h
    exact .inl rfl
  | l3 s =>
    simp only [step, bind_eq_ok, pure_eq_ok] at h
    obtain ⟨q, hq, rfl⟩ := h
    have hcore : ∀ {x : Locked.State × Reply}, ({ s with core := x.1 }, x.2) = q →
        emergency (.l3 q.1) = emergency (.l3 s) := by
      rintro x rfl
      rfl
    cases call with
    | initialise args =>
      cases args with
      | guarded admin governance guardian strategy usdc maxTvl =>
        simp only [VaultL3.step, VaultL3.initialise, bind_eq_ok, pure_eq_ok] at hq
        obtain ⟨_, ⟨_, _, rfl⟩, rfl⟩ := hq
        exact .inl rfl
      | _ => simp [VaultL3.step] at hq
    | setEmergencyUnlock asset active =>
      simp only [VaultL3.step, VaultL3.setEmergencyUnlock, bind_eq_ok, expect_eq_ok,
        Env.requireAuth_eq_ok] at hq
      obtain ⟨_, ⟨u, hu, _, hauth, _⟩, _⟩ := hq
      exact .inr ⟨⟨asset, active, rfl⟩, u, hu, hauth⟩
    | query q' =>
      cases q' with
      | emergencyUnlock asset =>
        obtain rfl := pure_eq_ok.mp hq
        exact .inl rfl
      | _ =>
        obtain ⟨_, _, hq⟩ := bind_eq_ok.mp hq
        exact .inl (hcore (pure_eq_ok.mp hq))
    | _ =>
      obtain ⟨_, _, hq⟩ := bind_eq_ok.mp hq
      exact .inl (hcore (pure_eq_ok.mp hq))

theorem operation_guardian (hc : IsOperation call) (h : step env v call = .ok r) :
    r.1.guardian = v.guardian := by
  cases v with
  | l3 s =>
    simp only [step, bind_eq_ok, pure_eq_ok] at h
    obtain ⟨q, hq, rfl⟩ := h
    have hcore : ∀ {x : Locked.State × Reply}, ({ s with core := x.1 }, x.2) = q →
        q.1.guardian = s.guardian := by
      rintro x rfl
      rfl
    cases call with
    | initialise args => exact absurd rfl (hc args)
    | setEmergencyUnlock asset active =>
      simp only [VaultL3.step, VaultL3.setEmergencyUnlock, bind_eq_ok, pure_eq_ok] at hq
      obtain ⟨_, ⟨_, _, _, _, rfl⟩, rfl⟩ := hq
      rfl
    | query q' =>
      cases q' with
      | emergencyUnlock asset =>
        obtain rfl := pure_eq_ok.mp hq
        rfl
      | _ =>
        obtain ⟨_, _, hq⟩ := bind_eq_ok.mp hq
        exact hcore (pure_eq_ok.mp hq)
    | _ =>
      obtain ⟨_, _, hq⟩ := bind_eq_ok.mp hq
      exact hcore (pure_eq_ok.mp hq)
  | _ =>
    simp only [step, bind_eq_ok, pure_eq_ok] at h
    obtain ⟨_, _, rfl⟩ := h
    rfl

/-- Where the stored Admin of a locked vault comes from: it was stored before, or `initialise`
has just named it with its own authorization. -/
theorem step_admin_source (ht : v.tier ≠ .flex) (h : step env v call = .ok r)
    (hr : r.1.admin = some A) :
    v.admin = some A ∨ (∃ args, call = .initialise args) ∧ env.Authorized A := by
  rcases v.flex_or_locked with ⟨s, rfl⟩ | ⟨p, s, hp, hs⟩
  · exact absurd rfl ht
  · rw [admin_of_core hs]
    obtain ⟨s', hs', _, ⟨hop, _⟩ | ⟨args, admin, _, _, _, _, rfl, rfl, hauth⟩ | ⟨_, rfl, _⟩⟩ :=
      step_core hp hs h
    · rw [admin_of_core hs', operate_admin hop] at hr
      exact .inl hr
    · rw [admin_of_core hs'] at hr
      obtain rfl : admin = A := Option.some.inj hr
      exact .inr ⟨⟨args, rfl⟩, hauth⟩
    · rw [admin_of_core hs'] at hr
      exact .inl hr

theorem takeover_admin (h : Takeover v.tier (env, call)) :
    ∃ r B, step env v call = .ok r ∧ r.1.admin = some B ∧ env.Authorized B := by
  cases call with
  | initialise args =>
    have hinit : ∀ s {admin} governance strategy usdc maxTvl, env.Authorized admin →
        ∃ s', Locked.initialise env s admin governance strategy usdc maxTvl = .ok s' ∧
          s'.inst.map Locked.Instance.admin = some admin := by
      intro s admin governance strategy usdc maxTvl ha
      simp only [Locked.initialise, Env.requireAuth, failIf_of_not (not_not.mpr ha)]
      exact ⟨_, rfl, rfl⟩
    cases args with
    | flex admin strategy => cases v <;> simp [tier, Takeover] at h
    | locked admin governance strategy usdc maxTvl =>
      cases v with
      | l6 s =>
        obtain ⟨s', hs, ha⟩ := hinit s governance strategy usdc maxTvl h
        exact ⟨(.l6 s', _), _, by simp only [step, Locked.step, hs]; rfl, ha, h⟩
      | l12 s =>
        obtain ⟨s', hs, ha⟩ := hinit s governance strategy usdc maxTvl h
        exact ⟨(.l12 s', _), _, by simp only [step, Locked.step, hs]; rfl, ha, h⟩
      | _ => simp [tier, Takeover] at h
    | guarded admin governance guardian strategy usdc maxTvl =>
      cases v with
      | l3 s =>
        obtain ⟨s', hs, ha⟩ := hinit s.core governance strategy usdc maxTvl h
        exact ⟨(.l3 ⟨s', _, _⟩, _), _,
          by simp only [step, VaultL3.step, VaultL3.initialise, hs]; rfl, ha, h⟩
      | _ => simp [tier, Takeover] at h
  | _ => cases v <;> simp [tier, Takeover] at h

/-- The roles of `v` authorise nothing in the run. -/
def Unprivileged (v : TierVault) (cs : List Invocation) : Prop :=
  ∀ c ∈ cs, ∀ a ∈ v.roles, ¬c.1.Authorized a

theorem admin_mem_roles (hA : v.admin = some A) : A ∈ v.roles := by
  cases v <;> obtain ⟨i, hi, rfl⟩ := Option.map_eq_some_iff.mp hA <;> simp [roles, hi]

/-- Once the Admin is another address it never comes back without authorising it. -/
theorem next_lost {c : Invocation} (hsome : v.admin ≠ none) (hlost : v.admin ≠ some A)
    (hun : ¬c.1.Authorized A) : (next exec v c).admin ≠ none ∧ (next exec v c).admin ≠ some A := by
  refine next_induction (I := fun w : TierVault => w.admin ≠ none ∧ w.admin ≠ some A) ⟨hsome, hlost⟩ ?_
  intro r h
  obtain ⟨B, hB⟩ := Option.ne_none_iff_exists'.mp hsome
  rcases step_admin hB h with hr | ⟨_, B', hr, hauth⟩
  · rw [hr, ← hB]
    exact ⟨hsome, hlost⟩
  · rw [hr]
    exact ⟨by simp, fun hA => hun (Option.some.inj hA ▸ hauth)⟩

theorem run_lost {cs : List Invocation} (hsome : v.admin ≠ none) (hlost : v.admin ≠ some A)
    (hun : ∀ c ∈ cs, ¬c.1.Authorized A) : (run exec v cs).admin ≠ some A := by
  induction cs generalizing v with
  | nil => exact hlost
  | cons c cs ih =>
    obtain ⟨hsome', hlost'⟩ := next_lost hsome hlost (hun c List.mem_cons_self)
    exact ih hsome' hlost' fun c' hc' => hun c' (List.mem_cons_of_mem c hc')

/-- Calls that no role of an initialised vault authorises leave its whole state unchanged exactly
when none of them initialises a locked vault again with the authorization of the admin it names.
VaultFlex has no such call. -/
theorem unprivileged_run_unchanged_iff {cs : List Invocation} (hA : v.admin ≠ none)
    (hun : Unprivileged v cs) : run exec v cs = v ↔ ∀ c ∈ cs, ¬Takeover v.tier c := by
  obtain ⟨A, hA⟩ := Option.ne_none_iff_exists'.mp hA
  induction cs with
  | nil => simp
  | cons c cs ih =>
    have hunc := hun c List.mem_cons_self
    have huncs : Unprivileged v cs := fun c' hc' => hun c' (List.mem_cons_of_mem c hc')
    rw [run_cons, List.forall_mem_cons]
    by_cases htake : Takeover v.tier c
    · obtain ⟨r, B, hr, hB, hauth⟩ := takeover_admin htake
      have hr : exec v c = .ok r := hr
      have hlost : (next exec v c).admin ≠ some A := by
        rw [next_ok hr, hB]
        exact fun hAB => hunc A (admin_mem_roles hA) (Option.some.inj hAB ▸ hauth)
      have hsome : (next exec v c).admin ≠ none := by
        rw [next_ok hr, hB]
        simp
      have hend := run_lost hsome hlost fun c' hc' => huncs c' hc' A (admin_mem_roles hA)
      refine ⟨fun heq => ?_, fun h => absurd htake h.1⟩
      rw [heq] at hend
      exact absurd hA hend
    · have hsame : next exec v c = v :=
        next_induction (I := (· = v)) rfl fun r hr => step_unprivileged hA hunc htake hr
      rw [hsame, ih huncs]
      exact ⟨fun h => ⟨htake, h⟩, And.right⟩

/-- Account 9 names itself in every role. -/
def reinitialise : Invocation :=
  (⟨[9], none, 0⟩, .initialise (.guarded (.account 9) (.account 9) (.account 9) (.account 4) (.account 5) 0))

theorem unprivileged_run_unchanged_iff_guarded :
    run exec guarded [(⟨[9], none, 7⟩, .setMaxTvl 0), reinitialise] = guarded ↔
      ∀ c ∈ [(⟨[9], none, 7⟩, .setMaxTvl 0), reinitialise], ¬Takeover .l3 c :=
  unprivileged_run_unchanged_iff (by simp [guarded, admin]) (by
    unfold Unprivileged
    decide)

/-- A signer without a role replaces Admin, Governance and Guardian of an initialised VaultL3. -/
theorem guarded_taken_over :
    Initialised .l3 guarded ∧ Unprivileged guarded [reinitialise] ∧
      (run exec guarded [reinitialise]).roles = [.account 9, .account 9, .account 9] ∧
      run exec guarded [reinitialise] ≠ guarded := by
  have hroles : (run exec guarded [reinitialise]).roles =
      [.account 9, .account 9, .account 9] := by decide
  refine ⟨guarded_initialised, by unfold Unprivileged; decide, hroles, fun heq => ?_⟩
  rw [heq] at hroles
  exact absurd hroles (by decide)

end YieldLadder.TierVault
