import YieldLadder.Position.Receipts

/-! # Fresh token ids

`wrap` takes its id from a counter and looks at no record of that id. The id is
fresh as long as no token is created at an id the counter has still to reach, by
`mint` or by a `transfer_from` of a token nobody owns, and `initialise` does not
set the counter back. A step that does one of these can be followed by wraps until
one of them lands on a record.
-/
namespace YieldLadder.PositionToken
open Foundation

def nextId (s : State) : ℕ := s.nextTokenId.getD 0

def Returns (id : ℕ) (e : Invocation × Value) : Prop :=
  (∃ user tierVault, e.1.call = .wrap user tierVault) ∧ e.2 = .u64 id

/-- The id has no record, and no wrap returned it before. -/
structure Unused (s : State) (l : List (Invocation × Value)) (id : ℕ) : Prop where
  owner : s.owner.get id = none
  tierVault : s.tierVault.get id = none
  approved : s.approved.get id = none
  returned : ∀ e ∈ l, ¬Returns id e

/-- The call creates a token at an id some later wrap can take, or sets the counter back. -/
def Ahead (s : State) : Call → Prop
  | .initialise _ => 0 < nextId s
  | .mint _ id => nextId s ≤ id ∧ id + 1 < 2 ^ 64
  | .transferFrom _ _ _ id => nextId s ≤ id ∧ id + 1 < 2 ^ 64
  | _ => False

/-- When the call succeeds it is not ahead of the counter. -/
def Orderly (self : Address) (s : State) (c : Invocation) : Prop :=
  ∀ r, exec self s c = .ok r → ¬Ahead s c.call

/-- The counter separates the ids given out from those with no record. -/
structure Counted (s : State) (l : List (Invocation × Value)) : Prop where
  owner : ∀ id, nextId s ≤ id → id + 1 < 2 ^ 64 → s.owner.get id = none
  tierVault : ∀ id, nextId s ≤ id → s.tierVault.get id = none
  approved : ∀ id a, s.approved.get id = some a → ∃ o, s.owner.get id = some o
  returned : ∀ id, (∃ e ∈ l, Returns id e) ↔ id < nextId s

variable {self : Address} {s s' : State} {c : Invocation} {r : State × Value} {env : Env}
variable {external : External} {user vault a o : Address} {id k : ℕ} {cs ds : List Invocation}
variable {l : List (Invocation × Value)}

theorem exec_wrap_iff : exec self s ⟨env, external, .wrap user vault⟩ = .ok r ↔
    env.Authorized user ∧ external ⟨vault, user, self⟩ = .ok () ∧ nextId s + 1 < 2 ^ 64 ∧
      r = ({ s with
        owner := s.owner.set (nextId s) user
        tierVault := s.tierVault.set (nextId s) vault
        originalOwner := s.originalOwner.set (nextId s) user
        nextTokenId := some (nextId s + 1) }, .u64 (nextId s)) := by
  simp only [exec, wrap, bind_eq_ok, Env.requireAuth_eq_ok, addU64_eq_ok, pure_eq_ok]
  constructor
  · rintro ⟨_, ⟨_, hauth, _, hsent, _, ⟨hlt, rfl⟩, rfl⟩, rfl⟩
    exact ⟨hauth, hsent, hlt, rfl⟩
  · rintro ⟨hauth, hsent, hlt, rfl⟩
    exact ⟨_, ⟨(), hauth, (), hsent, _, ⟨hlt, rfl⟩, rfl⟩, rfl⟩

theorem Effect.owned_before (h : Effect self c s s' c.call) (hwrap : ∀ user vault, c.call ≠ .wrap user vault)
    (ho : s'.owner.get id = some o) : (∃ o', s.owner.get id = some o') ∨
      (∃ dst, c.call = .mint dst id) ∨ ∃ spender src dst, c.call = .transferFrom spender src dst id := by
  obtain ⟨env, external, call⟩ := c
  have hremove : ∀ {j : ℕ}, s'.owner = s.owner.remove j → ∃ o', s.owner.get id = some o' := by
    intro j hs
    exact (Store.exists_get_remove.mp ⟨o, hs ▸ ho⟩).2
  have hset : ∀ {j : ℕ} {b : Address}, s'.owner = s.owner.set j b →
      id = j ∨ ∃ o', s.owner.get id = some o' := by
    intro j b hs
    exact Store.exists_get_set.mp ⟨o, hs ▸ ho⟩
  cases h with
  | wrap user tierVault => exact absurd rfl (hwrap user tierVault)
  | unwrap _ _ _ _ howner => exact .inl (hremove howner)
  | transfer src dst j _ hcheck hs =>
    obtain ⟨o', ho', _⟩ := checkOwnerOrApproved_eq_ok.mp hcheck
    rcases hset (congrArg State.owner hs) with rfl | hbefore
    · exact .inl ⟨o', ho'⟩
    · exact .inl hbefore
  | transferFrom spender src dst j _ _ hs =>
    rcases hset (congrArg State.owner hs) with rfl | hbefore
    · exact .inr (.inr ⟨spender, src, dst, rfl⟩)
    · exact .inl hbefore
  | approve _ _ _ _ _ _ hs =>
    subst hs
    exact .inl ⟨o, ho⟩
  | setAuthorized _ _ _ _ hs =>
    subst hs
    exact .inl ⟨o, ho⟩
  | mint dst j _ hs =>
    rcases hset (congrArg State.owner hs) with rfl | hbefore
    · exact .inr (.inl ⟨dst, rfl⟩)
    · exact .inl hbefore
  | burn _ _ _ _ hs => exact .inl (hremove (congrArg State.owner hs))
  | burnFrom _ _ _ _ _ hs => exact .inl (hremove (congrArg State.owner hs))
  | other _ _ howner => exact .inl ⟨o, howner ▸ ho⟩

theorem Effect.approved_owned (h : Effect self c s s' c.call)
    (hbefore : ∀ id a, s.approved.get id = some a → ∃ o, s.owner.get id = some o)
    (ha : s'.approved.get id = some a) : ∃ o, s'.owner.get id = some o := by
  obtain ⟨env, external, call⟩ := c
  have hremove : ∀ {j : ℕ}, s'.approved = s.approved.remove j →
      id ≠ j ∧ ∃ o, s.owner.get id = some o := by
    intro j hs
    obtain ⟨hid, b, hb⟩ := Store.exists_get_remove.mp ⟨a, hs ▸ ha⟩
    exact ⟨hid, hbefore id b hb⟩
  have hset : ∀ (j : ℕ) (b : Address), (∃ o, s.owner.get id = some o) →
      ∃ o, (s.owner.set j b).get id = some o := fun j b ho => Store.exists_get_set.mpr (.inr ho)
  cases h with
  | wrap user tierVault _ _ howner happroved =>
    rw [happroved] at ha
    rw [howner]
    exact hset _ _ (hbefore id a ha)
  | unwrap j _ _ _ howner happroved =>
    rw [howner]
    exact Store.exists_get_remove.mpr (hremove happroved)
  | transfer _ dst j _ _ hs =>
    have ho := (hremove (congrArg State.approved hs)).2
    subst hs
    exact hset j dst ho
  | transferFrom _ _ dst j _ _ hs =>
    have ho := (hremove (congrArg State.approved hs)).2
    subst hs
    exact hset j dst ho
  | approve owner spender j _ _ hget hs =>
    subst hs
    rcases Store.exists_get_set.mp ⟨a, ha⟩ with rfl | ⟨b, hb⟩
    · exact ⟨owner, hget⟩
    · exact hbefore id b hb
  | setAuthorized _ _ _ _ hs =>
    subst hs
    exact hbefore id a ha
  | mint dst j _ hs =>
    subst hs
    exact hset j dst (hbefore id a ha)
  | burn _ j _ _ hs =>
    have ho := hremove (congrArg State.approved hs)
    subst hs
    exact Store.exists_get_remove.mpr ho
  | burnFrom _ _ j _ _ hs =>
    have ho := hremove (congrArg State.approved hs)
    subst hs
    exact Store.exists_get_remove.mpr ho
  | other _ _ howner happroved =>
    rw [happroved] at ha
    rw [howner]
    exact hbefore id a ha

theorem orderly_counter (h : exec self s c = .ok r) (ho : ¬Ahead s c.call)
    (hwrap : ∀ user vault, c.call ≠ .wrap user vault) : nextId r.1 = nextId s ∧
      ∀ id, s.tierVault.get id = none → r.1.tierVault.get id = none := by
  obtain ⟨env, external, call⟩ := c
  cases call with
  | unwrap id =>
    obtain ⟨_, _, _, _, _, _, rfl⟩ := exec_unwrap_iff.mp h
    refine ⟨rfl, fun j hj => ?_⟩
    rw [Store.get_remove, hj, ite_self]
  | initialise admin =>
    have hzero : nextId s = 0 := Nat.eq_zero_of_not_pos ho
    simp only [exec, initialise, map_eq_ok, bind_eq_ok, pure_eq_ok] at h
    obtain ⟨_, ⟨_, _, rfl⟩, rfl⟩ := h
    exact ⟨hzero.symm, fun _ hj => hj⟩
  | _ =>
    obtain ⟨hvault, _, hcounter⟩ := exec_vaults h hwrap (by simp)
    have hnext := hcounter (by simp)
    exact ⟨by rw [nextId, hnext, nextId], fun j hj => by rw [hvault, hj]⟩

theorem Counted.unused (h : Counted s l) (hlt : nextId s + 1 < 2 ^ 64) : Unused s l (nextId s) := by
  have hnone := h.owner _ le_rfl hlt
  refine ⟨hnone, h.tierVault _ le_rfl, ?_, fun e he hreturns => ?_⟩
  · by_contra happroved
    obtain ⟨a, ha⟩ := Option.ne_none_iff_exists'.mp happroved
    obtain ⟨o, ho⟩ := h.approved _ a ha
    rw [hnone] at ho
    cases ho
  · exact absurd ((h.returned _).mp ⟨e, he, hreturns⟩) (lt_irrefl _)

theorem exists_mem_concat {e : Invocation × Value} :
    (∃ x ∈ l ++ [e], Returns id x) ↔ (∃ x ∈ l, Returns id x) ∨ Returns id e := by
  simp [or_and_right, exists_or]

theorem Counted.wrap (h : Counted s l) (hc : exec self s ⟨env, external, .wrap user vault⟩ = .ok r) :
    Counted r.1 (l ++ [(⟨env, external, .wrap user vault⟩, r.2)]) := by
  have heffect := exec_effect hc
  obtain ⟨_, _, hlt, rfl⟩ := exec_wrap_iff.mp hc
  refine ⟨fun id hid hid' => ?_, fun id hid => ?_, fun id a ha => ?_, fun id => ?_⟩
  · have hid : nextId s + 1 ≤ id := hid
    have hne : id ≠ nextId s := by omega
    dsimp only
    rw [Store.get_set_of_ne _ hne]
    exact h.owner id (by omega) hid'
  · have hid : nextId s + 1 ≤ id := hid
    have hne : id ≠ nextId s := by omega
    dsimp only
    rw [Store.get_set_of_ne _ hne]
    exact h.tierVault id (by omega)
  · exact heffect.approved_owned h.approved ha
  · have hnow : Returns id (⟨env, external, .wrap user vault⟩, .u64 (nextId s)) ↔ nextId s = id := by
      simp [Returns]
    have hafter : nextId ({ s with
        owner := s.owner.set (nextId s) user
        tierVault := s.tierVault.set (nextId s) vault
        originalOwner := s.originalOwner.set (nextId s) user
        nextTokenId := some (nextId s + 1) } : State) = nextId s + 1 := rfl
    rw [exists_mem_concat, h.returned, hnow, hafter]
    omega

theorem Counted.step (h : Counted s l) (ho : Orderly self s c) (hc : exec self s c = .ok r) :
    Counted r.1 (l ++ [(c, r.2)]) := by
  have hahead := ho r hc
  by_cases hwrap : ∃ user vault, c.call = .wrap user vault
  · obtain ⟨env, external, call⟩ := c
    obtain ⟨user, vault, rfl⟩ := hwrap
    exact h.wrap hc
  have hwrap : ∀ user vault, c.call ≠ .wrap user vault := fun user vault heq => hwrap ⟨user, vault, heq⟩
  have heffect := exec_effect hc
  obtain ⟨hnext, hvault⟩ := orderly_counter hc hahead hwrap
  refine ⟨fun id hid hid' => ?_, fun id hid => ?_, fun id a ha => ?_, fun id => ?_⟩
  · rw [hnext] at hid
    by_contra hsome
    obtain ⟨o, ho⟩ := Option.ne_none_iff_exists'.mp hsome
    rcases heffect.owned_before hwrap ho with ⟨o', ho'⟩ | ⟨dst, hcall⟩ | ⟨spender, src, dst, hcall⟩
    · rw [h.owner id hid hid'] at ho'
      cases ho'
    · rw [hcall] at hahead
      exact hahead ⟨hid, hid'⟩
    · rw [hcall] at hahead
      exact hahead ⟨hid, hid'⟩
  · exact hvault id (h.tierVault id (hnext ▸ hid))
  · exact heffect.approved_owned h.approved ha
  · have hno : ¬Returns id (c, r.2) := fun ⟨⟨user, vault, hcall⟩, _⟩ => hwrap user vault hcall
    rw [exists_mem_concat, h.returned, hnext, or_iff_left hno]

theorem counted_empty : Counted .empty [] := by
  refine ⟨fun _ _ _ => rfl, fun _ _ => rfl, ?_, ?_⟩
  · intro id a ha
    cases ha
  · simp [nextId, State.empty]

theorem run_counted (hm : Meets (exec self) (Orderly self) .empty cs) :
    Counted (run (exec self) .empty cs) (log (exec self) .empty cs) :=
  run_log_invariant_of_meets (I := Counted) (fun _ _ _ _ ho h hc => h.step ho hc) counted_empty hm

def plainWrap : Invocation := ⟨⟨[0], none, 0⟩, fun _ => .ok (), .wrap (.account 0) (.contract 0)⟩

theorem plainWrap_ok (self : Address) (hlt : nextId s + 1 < 2 ^ 64) :
    ∃ s', exec self s plainWrap = .ok (s', .u64 (nextId s)) ∧ nextId s' = nextId s + 1 ∧
      s'.owner = s.owner.set (nextId s) (.account 0) :=
  ⟨_, exec_wrap_iff.mpr ⟨by decide, rfl, hlt, rfl⟩, rfl, rfl⟩

/-- Wraps move the counter and leave the tokens alone that it has not reached. -/
theorem run_plainWraps (self : Address) (hlt : nextId s + k < 2 ^ 64) :
    nextId (run (exec self) s (List.replicate k plainWrap)) = nextId s + k ∧
      ∀ id, nextId s + k ≤ id →
        (run (exec self) s (List.replicate k plainWrap)).owner.get id = s.owner.get id := by
  induction k generalizing s with
  | zero => exact ⟨rfl, fun _ _ => rfl⟩
  | succ k ih =>
    obtain ⟨s', hwrap, hnext, howner⟩ := plainWrap_ok self (s := s) (by omega)
    obtain ⟨hcounter, hkept⟩ := ih (s := s') (by omega)
    rw [List.replicate_succ, run_cons, next_ok hwrap]
    dsimp only
    refine ⟨by omega, fun id hid => ?_⟩
    rw [hkept id (by omega), howner, Store.get_set_of_ne _ (by omega)]

/-- After some number of wraps a further one returns an id that is in use. -/
def Collides (self : Address) (s : State) (l : List (Invocation × Value)) : Prop :=
  ∃ k r id, exec self (run (exec self) s (List.replicate k plainWrap)) plainWrap = .ok r ∧
    Returns id (plainWrap, r.2) ∧
    ¬Unused (run (exec self) s (List.replicate k plainWrap))
      (l ++ log (exec self) s (List.replicate k plainWrap)) id

theorem collides_of_owner (hle : nextId s ≤ id) (hlt : id + 1 < 2 ^ 64) (ho : s.owner.get id = some o) :
    Collides self s l := by
  have hid : nextId s + (id - nextId s) = id := by omega
  obtain ⟨hnext, hkept⟩ := run_plainWraps self (s := s) (k := id - nextId s) (by omega)
  obtain ⟨s', hwrap, _⟩ := plainWrap_ok self
    (s := run (exec self) s (List.replicate (id - nextId s) plainWrap)) (by omega)
  rw [hnext, hid] at hwrap
  refine ⟨id - nextId s, _, id, hwrap, ⟨⟨_, _, rfl⟩, rfl⟩, fun h => ?_⟩
  have hnone := h.owner
  rw [hkept id hid.le, ho] at hnone
  cases hnone

theorem collides_of_returned (hlt : nextId s + 1 < 2 ^ 64) (h : ∃ e ∈ l, Returns (nextId s) e) :
    Collides self s l := by
  obtain ⟨e, he, hreturns⟩ := h
  obtain ⟨s', hwrap, _⟩ := plainWrap_ok self hlt
  refine ⟨0, _, nextId s, hwrap, ⟨⟨_, _, rfl⟩, rfl⟩, fun h => ?_⟩
  exact h.returned e (List.mem_append_left _ he) hreturns

/-- A call ahead of the counter can be followed by a wrap of an id in use. -/
theorem Counted.ahead (h : Counted s l) (hc : exec self s c = .ok r) (ha : Ahead s c.call) :
    Collides self r.1 (l ++ [(c, r.2)]) := by
  obtain ⟨env, external, call⟩ := c
  cases call with
  | initialise admin =>
    simp only [exec, initialise, map_eq_ok, bind_eq_ok, pure_eq_ok] at hc
    obtain ⟨_, ⟨_, _, rfl⟩, rfl⟩ := hc
    obtain ⟨e, he, hreturns⟩ := (h.returned 0).mpr ha
    exact collides_of_returned (by simp [nextId]) ⟨e, List.mem_append_left _ he, hreturns⟩
  | mint dst id =>
    obtain ⟨-, -, hcounter⟩ := exec_vaults hc (by simp) (by simp)
    obtain ⟨admin, hadmin, _⟩ := exec_mint_ok hc
    have hnext : nextId r.1 = nextId s := by rw [nextId, hcounter (by simp), nextId]
    cases exec_effect hc with
    | mint _ _ _ hs => exact collides_of_owner (o := dst) (hnext ▸ ha.1) ha.2 (by simp [hs])
    | other _ hnone =>
      simp only [Call.requires, hadmin] at hnone
      cases hnone
  | transferFrom spender src dst id =>
    obtain ⟨-, -, hcounter⟩ := exec_vaults hc (by simp) (by simp)
    have hnext : nextId r.1 = nextId s := by rw [nextId, hcounter (by simp), nextId]
    cases exec_effect hc with
    | transferFrom _ _ _ _ _ _ hs =>
      exact collides_of_owner (o := dst) (hnext ▸ ha.1) ha.2 (by simp [hs, doTransfer])
    | other _ hnone => cases hnone
  | _ => exact ha.elim

theorem Counted.fresh (h : Counted s l) (hc : exec self s c = .ok r) (hr : Returns id (c, r.2)) :
    Unused s l id ∧ r.1.approved.get id = none ∧
      ∀ j, j ≠ id → r.1.owner.get j = s.owner.get j ∧ r.1.tierVault.get j = s.tierVault.get j := by
  obtain ⟨env, external, call⟩ := c
  obtain ⟨⟨user, vault, hcall⟩, hvalue⟩ := hr
  dsimp only at hcall hvalue
  subst hcall
  obtain ⟨_, _, hlt, rfl⟩ := exec_wrap_iff.mp hc
  obtain rfl : nextId s = id := Value.u64.inj hvalue
  have hunused := h.unused hlt
  exact ⟨hunused, hunused.approved, fun j hj => ⟨Store.get_set_of_ne _ hj _, Store.get_set_of_ne _ hj _⟩⟩

/-- In every run without calls ahead of the counter each wrap returns an unused id and touches no
other token; and a call that is ahead of it can be followed by wraps up to one of an id in use. -/
theorem run_wraps_fresh (hm : Meets (exec self) (Orderly self) .empty cs) :
    (∀ ds c es, cs = ds ++ c :: es → ∀ r id, exec self (run (exec self) .empty ds) c = .ok r →
      Returns id (c, r.2) →
        Unused (run (exec self) .empty ds) (log (exec self) .empty ds) id ∧ r.1.approved.get id = none ∧
        ∀ j, j ≠ id → r.1.owner.get j = (run (exec self) .empty ds).owner.get j ∧
          r.1.tierVault.get j = (run (exec self) .empty ds).tierVault.get j) ∧
    ∀ c r, exec self (run (exec self) .empty cs) c = .ok r →
      Ahead (run (exec self) .empty cs) c.call →
        Collides self r.1 (log (exec self) .empty cs ++ [(c, r.2)]) := by
  constructor
  · rintro ds c es rfl r id hc hr
    obtain ⟨hds, _⟩ := (meets_append _ ds (c :: es)).mp hm
    exact (run_counted hds).fresh hc hr
  · intro c r hc ha
    exact (run_counted hm).ahead hc ha

/-- Account 9 deploys, accounts 1 and 2 wrap, the admin mints an id given out before, which its owner
had burned, and account 1 wraps once more. -/
def wrapsAndMint : List Invocation :=
  [⟨⟨[9], none, 1⟩, fun _ => .ok (), .initialise (.account 9)⟩,
   ⟨⟨[1], none, 2⟩, fun _ => .ok (), .wrap (.account 1) (.contract 3)⟩,
   ⟨⟨[2], none, 3⟩, fun _ => .ok (), .wrap (.account 2) (.contract 3)⟩,
   ⟨⟨[1], none, 4⟩, fun _ => .ok (), .burn (.account 1) 0⟩,
   ⟨⟨[9], none, 5⟩, fun _ => .ok (), .mint (.account 4) 0⟩,
   ⟨⟨[1], none, 6⟩, fun _ => .ok (), .wrap (.account 1) (.contract 3)⟩]

theorem wrapsAndMint_orderly : Meets (exec (.contract 7)) (Orderly (.contract 7)) .empty wrapsAndMint := by
  simp only [wrapsAndMint, Meets, Orderly, Ahead, and_true]
  refine ⟨fun _ _ => by decide, fun _ _ h => h, fun _ _ h => h, fun _ _ h => h, fun _ _ => by decide,
    fun _ _ h => h⟩

theorem run_wraps_fresh_wrapsAndMint :
    (∀ ds c es, wrapsAndMint = ds ++ c :: es → ∀ r id,
      exec (.contract 7) (run (exec (.contract 7)) .empty ds) c = .ok r → Returns id (c, r.2) →
        Unused (run (exec (.contract 7)) .empty ds) (log (exec (.contract 7)) .empty ds) id ∧
        r.1.approved.get id = none ∧
        ∀ j, j ≠ id → r.1.owner.get j = (run (exec (.contract 7)) .empty ds).owner.get j ∧
          r.1.tierVault.get j = (run (exec (.contract 7)) .empty ds).tierVault.get j) ∧
    ∀ c r, exec (.contract 7) (run (exec (.contract 7)) .empty wrapsAndMint) c = .ok r →
      Ahead (run (exec (.contract 7)) .empty wrapsAndMint) c.call →
        Collides (.contract 7) r.1 (log (exec (.contract 7)) .empty wrapsAndMint ++ [(c, r.2)]) :=
  run_wraps_fresh wrapsAndMint_orderly

/-- Account 9 deploys and mints token 0 to account 1. -/
def mintedAhead : List Invocation :=
  [⟨⟨[9], none, 1⟩, fun _ => .ok (), .initialise (.account 9)⟩,
   ⟨⟨[9], none, 2⟩, fun _ => .ok (), .mint (.account 1) 0⟩]

/-- The first wrap returns token 0 and takes it from account 1. -/
theorem wrap_overwrites_minted : ∃ r,
    exec (.contract 7) (run (exec (.contract 7)) .empty mintedAhead)
      ⟨⟨[5], none, 3⟩, fun _ => .ok (), .wrap (.account 5) (.contract 3)⟩ = .ok r ∧ r.2 = .u64 0 ∧
    (run (exec (.contract 7)) .empty mintedAhead).owner.get 0 = some (.account 1) ∧
    r.1.owner.get 0 = some (.account 5) ∧
    ¬Unused (run (exec (.contract 7)) .empty mintedAhead) (log (exec (.contract 7)) .empty mintedAhead) 0 := by
  refine ⟨_, rfl, rfl, rfl, rfl, fun h => ?_⟩
  have hnone := h.owner
  cases hnone

end YieldLadder.PositionToken
