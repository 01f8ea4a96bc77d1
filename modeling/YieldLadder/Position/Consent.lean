import YieldLadder.Position.PositionToken

/-! # A token moves by its owner's consent

The owner consents to a call by authorizing it, by having made its caller an
operator, or by having approved the caller for the token since it has owned it. The
consent holds in runs in which a spender acting for `from` may act for the owner of
the token, and `wrap` lands on no token of somebody else.
-/
namespace YieldLadder.PositionToken
open Foundation

variable (self : Address)

/-- In the run `cs`, `o` approved `a` for the token, and has owned it ever since. -/
def ApprovedSince (cs : List Invocation) (id : ℕ) (o a : Address) : Prop :=
  ∃ ds c es expiration, cs = ds ++ c :: es ∧ c.call = .approve o a id expiration ∧
    (∃ r, exec self (run (exec self) .empty ds) c = .ok r) ∧
    ∀ es₁ es₂, es = es₁ ++ es₂ →
      (run (exec self) .empty (ds ++ c :: es₁)).owner.get id = some o

/-- When the call `c` after the run `cs` takes a token from its owner, the caller is the owner, its
operator, or approved by it. -/
def Consented (cs : List Invocation) (c : Invocation) : Prop :=
  ∀ r id o, exec self (run (exec self) .empty cs) c = .ok r →
    (run (exec self) .empty cs).owner.get id = some o → r.1.owner.get id ≠ some o →
    ∃ a, c.call.requires (run (exec self) .empty cs) = some a ∧ c.env.Authorized a ∧
      (a = o ∨ (run (exec self) .empty cs).operatorApproval.getD (o, a) false = true ∨
        ApprovedSince self cs id o a)

/-- A spender that passes the check for `from` passes the one for the owner of the token, and the
next id of a `wrap` is free or the user's own. -/
def Proper (s : State) (c : Invocation) : Prop :=
  match c.call with
  | .wrap user tierVault => c.env.Authorized user → c.external ⟨tierVault, user, self⟩ = .ok () →
    ∀ o, s.owner.get (s.nextTokenId.getD 0) = some o → o = user
  | .transferFrom spender src dst id =>
    c.env.Authorized spender → checkApprovedFor s spender src id = .ok () →
      ∀ o, s.owner.get id = some o → o = dst ∨ checkOwnerOrApproved s spender id = .ok ()
  | .burnFrom spender src id => c.env.Authorized spender → checkApprovedFor s spender src id = .ok () →
    ∀ o, s.owner.get id = some o → checkOwnerOrApproved s spender id = .ok ()
  | _ => True

variable {self : Address} {s s' : State} {c : Invocation} {r : State × Value}
variable {a o : Address} {id : ℕ} {cs : List Invocation}

/-- What a proper call does to one token: it keeps its owner, or takes it from nobody, or takes it
with the authorization of who may act for the owner. -/
theorem Effect.owner (h : Effect self c s s' c.call) (hp : Proper self s c)
    (ho : s.owner.get id = some o) (hne : s'.owner.get id ≠ some o) :
    ∃ a, c.call.requires s = some a ∧ c.env.Authorized a ∧
      (a = o ∨ s.operatorApproval.getD (o, a) false = true ∨ s.approved.get id = some a) := by
  obtain ⟨env, external, call⟩ := c
  -- a call that changes the entry of `j` only concerns token `j`
  have hset : ∀ {j : ℕ} {b : Address}, s'.owner = s.owner.set j b → id = j ∧ o ≠ b := by
    intro j b hs
    rw [hs, Store.get_set] at hne
    split at hne
    · next hid => exact ⟨hid, fun hob => hne (by rw [hob])⟩
    · exact absurd ho hne
  have hremove : ∀ {j : ℕ}, s'.owner = s.owner.remove j → id = j := by
    intro j hs
    rw [hs, Store.get_remove] at hne
    split at hne
    · next hid => exact hid
    · exact absurd ho hne
  have hcheck : ∀ {b : Address}, checkOwnerOrApproved s b id = .ok () →
      b = o ∨ s.operatorApproval.getD (o, b) false = true ∨ s.approved.get id = some b := by
    intro b hb
    obtain ⟨o', ho', hb⟩ := checkOwnerOrApproved_eq_ok.mp hb
    obtain rfl : o = o' := Option.some.inj (ho.symm.trans ho')
    exact hb
  cases h with
  | wrap user tierVault hauth hvault howner =>
    obtain ⟨rfl, hou⟩ := hset howner
    exact absurd (hp hauth hvault o ho) hou
  | unwrap j holder hget hauth howner =>
    obtain rfl := hremove howner
    exact ⟨holder, hget, hauth, .inl (Option.some.inj (hget.symm.trans ho))⟩
  | transfer src dst j hauth hsrc hs =>
    obtain ⟨rfl, _⟩ := hset (congrArg State.owner hs)
    exact ⟨src, rfl, hauth, hcheck hsrc⟩
  | transferFrom spender src dst j hauth hspender hs =>
    obtain ⟨rfl, hod⟩ := hset (congrArg State.owner hs)
    exact ⟨spender, rfl, hauth, hcheck ((hp hauth hspender o ho).resolve_left hod)⟩
  | approve _ _ _ _ _ _ hs => exact absurd (by rw [hs]; exact ho) hne
  | setAuthorized _ _ _ _ hs => exact absurd (by rw [hs]; exact ho) hne
  | mint dst j hnone hs =>
    obtain ⟨rfl, _⟩ := hset (congrArg State.owner hs)
    rw [ho] at hnone
    cases hnone
  | burn src j hauth hget hs =>
    obtain rfl := hremove (congrArg State.owner hs)
    exact ⟨src, rfl, hauth, .inl (Option.some.inj (hget.symm.trans ho))⟩
  | burnFrom spender src j hauth hspender hs =>
    obtain rfl := hremove (congrArg State.owner hs)
    exact ⟨spender, rfl, hauth, hcheck (hp hauth hspender o ho)⟩
  | other _ _ howner => exact absurd (by rw [howner]; exact ho) hne

/-- Where an approval comes from: it stood before and the token keeps its owner, or the owner has
just made it. -/
theorem Effect.approved (h : Effect self c s s' c.call)
    (hwrap : ∀ user tierVault, c.call = .wrap user tierVault → c.env.Authorized user →
      c.external ⟨tierVault, user, self⟩ = .ok () → s.nextTokenId.getD 0 = id →
      s.approved.get id ≠ none → ∀ o, s.owner.get id = some o → o = user)
    (hown : ∀ j b, s.approved.get j = some b → ∃ o, s.owner.get j = some o)
    (ha : s'.approved.get id = some a) :
    s.approved.get id = some a ∧ s'.owner.get id = s.owner.get id ∨
      ∃ o expiration, c.call = .approve o a id expiration ∧ s'.owner.get id = some o := by
  obtain ⟨env, external, call⟩ := c
  have hremove : ∀ {j : ℕ}, s'.approved = s.approved.remove j → id ≠ j ∧ s.approved.get id = some a := by
    intro j hs
    rw [hs, Store.get_remove] at ha
    split at ha
    · cases ha
    · next hid => exact ⟨hid, ha⟩
  cases h with
  | wrap user tierVault hauth hvault howner happroved =>
    rw [happroved] at ha
    refine .inl ⟨ha, ?_⟩
    rw [howner, Store.get_set]
    split
    · next hid =>
      obtain ⟨o, ho⟩ := hown id a ha
      rw [ho, hwrap user tierVault rfl hauth hvault hid.symm (by simp [ha]) o ho]
    · rfl
  | unwrap j _ _ _ howner happroved =>
    obtain ⟨hid, ha⟩ := hremove happroved
    exact .inl ⟨ha, by rw [howner, Store.get_remove_of_ne _ hid]⟩
  | transfer _ _ _ _ _ hs =>
    obtain ⟨hid, ha⟩ := hremove (congrArg State.approved hs)
    exact .inl ⟨ha, by rw [hs]; exact Store.get_set_of_ne _ hid _⟩
  | transferFrom _ _ _ _ _ _ hs =>
    obtain ⟨hid, ha⟩ := hremove (congrArg State.approved hs)
    exact .inl ⟨ha, by rw [hs]; exact Store.get_set_of_ne _ hid _⟩
  | approve owner spender j expiration hauth hget hs =>
    rw [hs, Store.get_set] at ha
    split at ha
    · next hid =>
      cases ha
      subst hid
      exact .inr ⟨owner, expiration, rfl, by rw [hs]; exact hget⟩
    · exact .inl ⟨ha, by rw [hs]⟩
  | setAuthorized _ _ _ _ hs =>
    rw [hs] at ha
    exact .inl ⟨ha, by rw [hs]⟩
  | mint dst j hnone hs =>
    rw [hs] at ha
    have hid : id ≠ j := by
      rintro rfl
      obtain ⟨o, ho⟩ := hown id a ha
      rw [ho] at hnone
      cases hnone
    exact .inl ⟨ha, by rw [hs]; exact Store.get_set_of_ne _ hid _⟩
  | burn _ _ _ _ hs =>
    obtain ⟨hid, ha⟩ := hremove (congrArg State.approved hs)
    exact .inl ⟨ha, by rw [hs]; exact Store.get_remove_of_ne _ hid⟩
  | burnFrom _ _ _ _ _ hs =>
    obtain ⟨hid, ha⟩ := hremove (congrArg State.approved hs)
    exact .inl ⟨ha, by rw [hs]; exact Store.get_remove_of_ne _ hid⟩
  | other _ _ howner happroved =>
    rw [happroved] at ha
    exact .inl ⟨ha, by rw [howner]⟩

theorem Effect.operator (h : Effect self c s s' c.call)
    (ha : s'.operatorApproval.getD (o, a) false = true) :
    s.operatorApproval.getD (o, a) false = true ∨ c.env.Authorized o := by
  obtain ⟨env, external, call⟩ := c
  cases h with
  | wrap _ _ _ _ _ _ hoperator => exact .inl (hoperator ▸ ha)
  | unwrap _ _ _ _ _ _ hoperator => exact .inl (hoperator ▸ ha)
  | setAuthorized owner operator authorized hauth hs =>
    by_cases hkey : (o, a) = (owner, operator)
    · cases hkey
      exact .inr hauth
    · rw [hs] at ha
      exact .inl (by simpa [hkey] using ha)
  | other _ _ _ _ hoperator => exact .inl (hoperator ▸ ha)
  | _ =>
    subst_vars
    exact .inl ha

theorem ApprovedSince.concat (h : ApprovedSince self cs id o a)
    (ho : (run (exec self) .empty (cs ++ [c])).owner.get id = some o) :
    ApprovedSince self (cs ++ [c]) id o a := by
  obtain ⟨ds, c', es, expiration, rfl, hcall, hok, hsince⟩ := h
  refine ⟨ds, c', es ++ [c], expiration, by simp, hcall, hok, fun es₁ es₂ hes => ?_⟩
  rcases List.eq_nil_or_concat' es₂ with rfl | ⟨es₃, c'', rfl⟩
  · rw [List.append_nil] at hes
    subst hes
    simpa using ho
  · rw [← List.append_assoc] at hes
    exact hsince es₁ es₃ (List.append_inj' hes rfl).1

/-- Where the approvals and the operators of a run come from. -/
structure Granted (token : Address) (cs : List Invocation) : Prop where
  approved : ∀ id a, (run (exec token) .empty cs).approved.get id = some a →
    ∃ o, (run (exec token) .empty cs).owner.get id = some o ∧ ApprovedSince token cs id o a
  operator : ∀ o a, (run (exec token) .empty cs).operatorApproval.getD (o, a) false = true →
    ∃ c ∈ cs, c.env.Authorized o

theorem Granted.concat (h : Granted self cs) (hp : Proper self (run (exec self) .empty cs) c) :
    Granted self (cs ++ [c]) := by
  cases hc : exec self (run (exec self) .empty cs) c with
  | error e =>
    have hsame : run (exec self) .empty (cs ++ [c]) = run (exec self) .empty cs := by
      rw [run_concat, next_error hc]
    refine ⟨?_, ?_⟩
    · intro id a ha
      rw [hsame] at ha ⊢
      obtain ⟨o, ho, hsince⟩ := h.approved id a ha
      exact ⟨o, ho, hsince.concat (hsame ▸ ho)⟩
    · intro o a ha
      rw [hsame] at ha
      obtain ⟨c', hc', hauth⟩ := h.operator o a ha
      exact ⟨c', List.mem_append_left _ hc', hauth⟩
  | ok r =>
    have hnext : run (exec self) .empty (cs ++ [c]) = r.1 := by rw [run_concat, next_ok hc]
    have heffect := exec_effect hc
    have hown := fun j b hb => (h.approved j b hb).imp fun _ ho => ho.1
    have hwrap : ∀ user tierVault, c.call = .wrap user tierVault → c.env.Authorized user →
        c.external ⟨tierVault, user, self⟩ = .ok () →
        ∀ o, (run (exec self) .empty cs).owner.get ((run (exec self) .empty cs).nextTokenId.getD 0) =
          some o → o = user := by
      intro user tierVault hcall
      simpa only [Proper, hcall] using hp
    refine ⟨?_, ?_⟩
    · intro id a ha
      rw [hnext] at ha
      rcases heffect.approved (fun _ _ hcall hauth hvault hid _ => hid ▸ hwrap _ _ hcall hauth hvault) hown ha
        with ⟨ha, hkeep⟩ | ⟨o, expiration, hcall, ho⟩
      · obtain ⟨o, ho, hsince⟩ := h.approved id a ha
        rw [hnext, hkeep]
        exact ⟨o, ho, hsince.concat (by rw [hnext, hkeep, ho])⟩
      · rw [hnext]
        refine ⟨o, ho, cs, c, [], expiration, rfl, hcall, ⟨r, hc⟩, fun es₁ es₂ hes => ?_⟩
        obtain ⟨rfl, _⟩ := List.append_eq_nil_iff.mp hes.symm
        rw [hnext, ho]
    · intro o a ha
      rw [hnext] at ha
      rcases heffect.operator ha with ha | hauth
      · obtain ⟨c', hc', hauth⟩ := h.operator o a ha
        exact ⟨c', List.mem_append_left _ hc', hauth⟩
      · exact ⟨c, by simp, hauth⟩

theorem run_granted (hm : Meets (exec self) (Proper self) .empty cs) : Granted self cs := by
  induction cs using List.reverseRecOn with
  | nil =>
    refine ⟨?_, ?_⟩
    · intro id a ha
      cases ha
    · intro o a ha
      cases ha
  | append_singleton cs c ih =>
    obtain ⟨hcs, hc, _⟩ := (meets_append _ cs [c]).mp hm
    exact (ih hcs).concat hc

theorem Granted.consented (h : Granted self cs) (hp : Proper self (run (exec self) .empty cs) c) :
    Consented self cs c := by
  intro r id o hc ho hne
  obtain ⟨a, hrequires, hauth, hconsent⟩ := (exec_effect hc).owner hp ho hne
  refine ⟨a, hrequires, hauth, ?_⟩
  rcases hconsent with hself | hoperator | happroved
  · exact .inl hself
  · exact .inr (.inl hoperator)
  · obtain ⟨o', ho', hsince⟩ := h.approved id a happroved
    obtain rfl : o = o' := Option.some.inj (ho.symm.trans ho')
    exact .inr (.inr hsince)

/-- Whoever consents has authorized some call of the run. -/
theorem Granted.authorized (h : Granted self cs) (hp : Proper self (run (exec self) .empty cs) c)
    (hc : exec self (run (exec self) .empty cs) c = .ok r)
    (ho : (run (exec self) .empty cs).owner.get id = some o) (hne : r.1.owner.get id ≠ some o) :
    ∃ c' ∈ cs ++ [c], c'.env.Authorized o := by
  obtain ⟨a, _, hauth, hself | hoperator | ⟨ds, c', es, expiration, rfl, hcall, ⟨r', hr'⟩, _⟩⟩ :=
    h.consented hp r id o hc ho hne
  · exact ⟨c, by simp, hself ▸ hauth⟩
  · obtain ⟨c', hc', hauth⟩ := h.operator o a hoperator
    exact ⟨c', List.mem_append_left _ hc', hauth⟩
  · refine ⟨c', by simp, ?_⟩
    have heffect := exec_effect hr'
    rw [hcall] at heffect
    cases heffect with
    | approve _ _ _ _ hauth => exact hauth
    | other _ hnone => cases hnone

/-- A call that succeeds without being proper takes a token from an owner who is not its caller. -/
theorem takes_of_not_proper (hc : exec self s c = .ok r) (hp : ¬Proper self s c) :
    ∃ id o a, s.owner.get id = some o ∧ r.1.owner.get id ≠ some o ∧
      c.call.requires s = some a ∧ a ≠ o := by
  have heffect := exec_effect hc
  obtain ⟨env, external, call⟩ := c
  cases heffect with
  | wrap user tierVault _ _ howner =>
    simp only [Proper, not_forall] at hp
    obtain ⟨_, _, o, ho, hne⟩ := hp
    refine ⟨_, o, user, ho, ?_, rfl, Ne.symm hne⟩
    rw [howner, Store.get_set_self]
    simpa using Ne.symm hne
  | transferFrom spender src dst id _ _ hs =>
    simp only [Proper, not_forall, not_or] at hp
    obtain ⟨_, _, o, ho, hdst, hno⟩ := hp
    refine ⟨id, o, spender, ho, ?_, rfl, ?_⟩
    · rw [hs]
      simpa [doTransfer] using Ne.symm hdst
    · rintro rfl
      exact hno (checkOwnerOrApproved_eq_ok.mpr ⟨_, ho, .inl rfl⟩)
  | burnFrom spender src id _ _ hs =>
    simp only [Proper, not_forall] at hp
    obtain ⟨_, _, o, ho, hno⟩ := hp
    refine ⟨id, o, spender, ho, ?_, rfl, ?_⟩
    · rw [hs]
      simp [doBurn]
    · rintro rfl
      exact hno (checkOwnerOrApproved_eq_ok.mpr ⟨_, ho, .inl rfl⟩)
  | other _ hnone =>
    refine absurd ?_ hp
    cases call with
    | wrap => cases hnone
    | transferFrom => cases hnone
    | burnFrom => cases hnone
    | _ => trivial
  | _ => exact absurd trivial hp

/-- In every run of proper calls each call is consented, and who authorizes no call keeps every token
it gets; a call that succeeds without being proper takes a token from somebody else. -/
theorem run_consented (hm : Meets (exec self) (Proper self) .empty cs) :
    (∀ ds c es, cs = ds ++ c :: es → Consented self ds c) ∧
    (∀ a, (∀ c ∈ cs, ¬c.env.Authorized a) → ∀ ds es, cs = ds ++ es → ∀ id,
      (run (exec self) .empty ds).owner.get id = some a →
      (run (exec self) .empty cs).owner.get id = some a) ∧
    ∀ (s : State) c r, exec self s c = .ok r → ¬Proper self s c → ∃ id o a, s.owner.get id = some o ∧
      r.1.owner.get id ≠ some o ∧ c.call.requires s = some a ∧ a ≠ o := by
  refine ⟨?_, ?_, fun s c r hc hp => takes_of_not_proper hc hp⟩
  · rintro ds c es rfl
    obtain ⟨hds, hc, _⟩ := (meets_append _ ds (c :: es)).mp hm
    exact (run_granted hds).consented hc
  · rintro a hno ds es rfl id hds
    induction es using List.reverseRecOn with
    | nil => simpa using hds
    | append_singleton es c ih =>
      rw [← List.append_assoc] at hm hno ⊢
      obtain ⟨hes, hc, _⟩ := (meets_append _ (ds ++ es) [c]).mp hm
      have hkept := ih hes fun c' hc' => hno c' (List.mem_append_left _ hc')
      rw [run_concat]
      refine next_induction (I := fun s : State => s.owner.get id = some a) hkept fun r hr => ?_
      by_contra hne
      obtain ⟨c', hc', hauth⟩ := (run_granted hes).authorized hc hr hkept hne
      exact hno c' hc' hauth

/-- Account 1 wraps a position and approves account 2, which sends the token to account 3. -/
def approvedTransfer : List Invocation :=
  [⟨⟨[9], none, 1⟩, fun _ => .ok (), .initialise (.account 9)⟩,
   ⟨⟨[1], none, 2⟩, fun _ => .ok (), .wrap (.account 1) (.contract 3)⟩,
   ⟨⟨[1], none, 3⟩, fun _ => .ok (), .approve (.account 1) (.account 2) 0 100⟩,
   ⟨⟨[2], none, 4⟩, fun _ => .ok (), .transferFrom (.account 2) (.account 1) (.account 3) 0⟩]

theorem approvedTransfer_proper :
    Meets (exec (.contract 7)) (Proper (.contract 7)) .empty approvedTransfer := by
  simp only [approvedTransfer, Meets, Proper, true_and, and_true]
  constructor
  · intro _ _ o ho
    cases ho
  · intro _ _ o _
    exact .inr rfl

theorem run_consented_approvedTransfer :
    (∀ ds c es, approvedTransfer = ds ++ c :: es → Consented (.contract 7) ds c) ∧
    (∀ a, (∀ c ∈ approvedTransfer, ¬c.env.Authorized a) → ∀ ds es, approvedTransfer = ds ++ es →
      ∀ id, (run (exec (.contract 7)) .empty ds).owner.get id = some a →
        (run (exec (.contract 7)) .empty approvedTransfer).owner.get id = some a) ∧
    ∀ (s : State) c r, exec (.contract 7) s c = .ok r → ¬Proper (.contract 7) s c →
      ∃ id o a, s.owner.get id = some o ∧ r.1.owner.get id ≠ some o ∧
        c.call.requires s = some a ∧ a ≠ o :=
  run_consented approvedTransfer_proper

theorem not_consented (hc : exec self (run (exec self) .empty cs) c = .ok r)
    (ho : (run (exec self) .empty cs).owner.get id = some o) (hne : r.1.owner.get id ≠ some o)
    (ha : c.call.requires (run (exec self) .empty cs) = some a) (hself : a ≠ o)
    (hoperator : (run (exec self) .empty cs).operatorApproval.getD (o, a) false = false)
    (happrove : ∀ c ∈ cs, ∀ expiration, c.call ≠ .approve o a id expiration) :
    ¬Consented self cs c := by
  intro h
  obtain ⟨a', ha', _, hconsent⟩ := h r id o hc ho hne
  obtain rfl : a = a' := Option.some.inj (ha.symm.trans ha')
  rcases hconsent with hsame | hop | ⟨ds, c', es, expiration, rfl, hcall, _⟩
  · exact hself hsame
  · rw [hoperator] at hop
    cases hop
  · exact happrove c' (by simp) expiration hcall

/-- Account 9 mints token 0 to account 1, account 5 makes itself its own operator. -/
def minted : List Invocation :=
  [⟨⟨[9], none, 1⟩, fun _ => .ok (), .initialise (.account 9)⟩,
   ⟨⟨[9], none, 2⟩, fun _ => .ok (), .mint (.account 1) 0⟩,
   ⟨⟨[5], none, 3⟩, fun _ => .ok (), .setAuthorized (.account 5) (.account 5) true⟩]

/-- Account 5 transfers token 0 to itself, naming itself as `from`. -/
def theft : Invocation :=
  ⟨⟨[5], none, 4⟩, fun _ => .ok (), .transferFrom (.account 5) (.account 5) (.account 5) 0⟩

/-- Account 5 wraps a position of its own, and the counter still stands at token 0. -/
def overwrite : Invocation := ⟨⟨[5], none, 4⟩, fun _ => .ok (), .wrap (.account 5) (.contract 3)⟩

theorem minted_not_consented :
    ¬Consented (.contract 7) minted theft ∧ ¬Consented (.contract 7) minted overwrite := by
  constructor
  · obtain ⟨r, hr, hne⟩ : ∃ r, exec (.contract 7) (run (exec (.contract 7)) .empty minted) theft = .ok r ∧
        r.1.owner.get 0 ≠ some (.account 1) := ⟨_, rfl, by decide⟩
    exact not_consented (o := .account 1) hr rfl hne rfl (by decide) rfl (by simp [minted])
  · obtain ⟨r, hr, hne⟩ : ∃ r, exec (.contract 7) (run (exec (.contract 7)) .empty minted) overwrite = .ok r ∧
        r.1.owner.get 0 ≠ some (.account 1) := ⟨_, rfl, by decide⟩
    exact not_consented (o := .account 1) hr rfl hne rfl (by decide) rfl (by simp [minted])

end YieldLadder.PositionToken
