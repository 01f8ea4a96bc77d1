import YieldLadder.Foundation.Lockstep
import YieldLadder.Foundation.Noninterference
import YieldLadder.Vault.Privilege
import YieldLadder.Vault.Ranges

/-! # A position does not depend on the others

All positions share two totals, and every update of a total is checked. What is
recorded of one position, the admin and the emergency flag of its asset decide
every answer it gets: on a coherent book with both totals in range the shared
checks never fail an exit of a non-negative amount. So two runs that treat one
position alike look the same from it, and what it has can always be taken out.
-/
namespace YieldLadder
open Foundation

/-- What a vault has recorded of one position, and the admin it answers to. -/
structure PositionRecord where
  admin : Option Address
  balance : Option ℤ
  shares : Option ℤ
  lockUntil : Option ℕ
  checkpoint : Option ℕ
  deriving DecidableEq, Repr

/-- The calls about the position `k`: the ones that move it, and the emergency flag of its asset. -/
def VaultCall.concerns (k : Key) : VaultCall → Bool
  | .deposit user asset _ => decide ((user, asset) = k)
  | .withdraw user asset _ => decide ((user, asset) = k)
  | .earlyExit user asset _ => decide ((user, asset) = k)
  | .relock user asset => decide ((user, asset) = k)
  | .setEmergencyUnlock asset _ => decide (asset = k.2)
  | _ => false

def Alike {S α : Type} (record : S → PositionRecord) (r q : S × α) : Prop :=
  record r.1 = record q.1 ∧ r.2 = q.2

/-- Two states of one vault with the same record, both of them sound. -/
structure Twins {S : Type} (book : S → Book Key) (record : S → PositionRecord) (s t : S) : Prop where
  record : record s = record t
  coherent : (book s).Coherent
  range : BookInRange (book s)
  coherent' : (book t).Coherent
  range' : BookInRange (book t)

theorem agree_reply {S α β : Type} {record : S → PositionRecord} {x y : Except Fault (S × α)}
    {f : S × α → Except Fault (S × β)} {g : α → β} (hf : ∀ s a, f (s, a) = pure (s, g a))
    (h : Agree (Alike record) x y) : Agree (Alike record) (x >>= f) (y >>= f) := by
  refine h.bind ?_
  rintro ⟨s, a⟩ ⟨t, b⟩ _ _ ⟨hrecord, hab⟩
  dsimp only at hab
  subst hab
  rw [hf, hf]
  exact .pure ⟨hrecord, rfl⟩

section Pair
variable {b c : Book Key} {k : Key} {x : ℤ}

/-- Two books that record the position `k` alike, both of them sound. -/
structure Paired (b c : Book Key) (k : Key) : Prop where
  principal : b.principal.getD k 0 = c.principal.getD k 0
  shares : b.shares.getD k 0 = c.shares.getD k 0
  coherent : b.Coherent
  range : BookInRange b
  coherent' : c.Coherent
  range' : BookInRange c

theorem subI128_of {a b : ℤ} (h : InI128 (a - b)) : subI128 a b = .ok (a - b) :=
  subI128_eq_ok.mpr ⟨h, rfl⟩

/-- The sums of an exit fail on both books or on neither. -/
theorem exitSums_agree {α β : Type} {R : α → β → Prop} {full : ℤ → ℤ → α} {full' : ℤ → ℤ → β}
    {rest : ℤ → ℤ → ℤ → ℤ → α} {rest' : ℤ → ℤ → ℤ → ℤ → β} (h : Paired b c k) (h0 : 0 ≤ x)
    (hfull : ∀ ts tb us ub, R (full ts tb) (full' us ub))
    (hrest : ∀ balance shares ts tb us ub, R (rest balance shares ts tb) (rest' balance shares us ub)) :
    Agree R (exitSums b k x full rest) (exitSums c k x full' rest') := by
  obtain ⟨hb, hsh, hs, hsr, ht, htr⟩ := h
  unfold exitSums
  dsimp only
  rw [hb, hsh]
  by_cases hle : c.principal.getD k 0 ≤ x
  · obtain ⟨hss, hsb⟩ := fits_close hs hsr k
    obtain ⟨hts, htb⟩ := fits_close ht htr k
    rw [hsh] at hss
    rw [hb] at hsb
    rw [if_pos hle, if_pos hle]
    exact .both (subI128_of hss) (subI128_of hts) (.both (subI128_of hsb) (subI128_of htb) (.pure (hfull _ _ _ _)))
  · have hlt : x < c.principal.getD k 0 := not_le.mp hle
    have hfits := fits_iff_product (k := k) hs hsr h0 (hb ▸ hlt)
    have hfits' := fits_iff_product (k := k) ht htr h0 hlt
    rw [hsh] at hfits
    rw [if_neg hle, if_neg hle]
    -- everything up to the totals is computed from the position alone
    refine .shared fun product hproduct => .shared fun burn hburn => .shared fun newBalance _ =>
      .shared fun newShares _ => ?_
    obtain ⟨hprod, rfl⟩ := mulI128_eq_ok.mp hproduct
    obtain ⟨_, _, rfl⟩ := divI128_eq_ok.mp hburn
    obtain ⟨_, _, _, _, hss, hsb⟩ := hfits.mpr hprod
    obtain ⟨_, _, _, _, hts, htb⟩ := hfits'.mpr hprod
    simp only [Book.burned, hb, hsh] at hss hts
    exact .both (subI128_of hss) (subI128_of hts)
      (.both (subI128_of hsb) (subI128_of htb) (.pure (hrest _ _ _ _ _ _)))

theorem add_alike {b' c' : Book Key} {shares : ℤ} (hp : b.principal.getD k 0 = c.principal.getD k 0)
    (hs : b.shares.getD k 0 = c.shares.getD k 0) (hb : b' = b.add k x shares) (hc : c' = c.add k x shares) :
    b'.principal.get k = c'.principal.get k ∧ b'.shares.get k = c'.shares.get k := by
  rw [hb, hc]
  simp only [Book.add, Store.get_set_self, hp, hs, and_self]

end Pair

namespace Locked

def State.record (s : State) (k : Key) : PositionRecord where
  admin := s.inst.map Instance.admin
  balance := s.balance.get k
  shares := s.shares.get k
  lockUntil := s.lockUntil.get k
  checkpoint := s.checkpoint.get k

variable {p : TierParams} {emergency emergency' : Bool} {env : Env} {s t s' : State}
variable {i j : Instance} {k : Key} {user asset : Address} {amount : ℤ}

theorem record_getD (h : s.record k = t.record k) :
    s.balance.getD k 0 = t.balance.getD k 0 ∧ s.shares.getD k 0 = t.shares.getD k 0 ∧
      s.lockUntil.getD k 0 = t.lockUntil.getD k 0 := by
  simp only [State.record, PositionRecord.mk.injEq] at h
  obtain ⟨_, hb, hs, hl, _⟩ := h
  simp only [Store.getD, hb, hs, hl, and_self]

theorem paired (h : Twins State.book (State.record · k) s t) : Paired s.book t.book k :=
  ⟨(record_getD h.record).1, (record_getD h.record).2.1, h.coherent, h.range, h.coherent', h.range'⟩

/-- What twins take out leaves them alike, and `payout` is answered by both. -/
theorem takeOut_agree {payout : ℤ} (h : Twins State.book (State.record · (user, asset)) s t)
    (hi : s.inst = some i) (hj : t.inst = some j) (hij : i.admin = j.admin) (h0 : 0 ≤ amount) :
    Agree (Alike (State.record · (user, asset))) (takeOut i s user asset amount >>= fun s' => pure (s', payout))
      (takeOut j t user asset amount >>= fun t' => pure (t', payout)) := by
  have hrecord := h.record
  simp only [State.record, PositionRecord.mk.injEq] at hrecord
  obtain ⟨_, _, _, hlock, hcp⟩ := hrecord
  rw [takeOut_eq_sums hi, takeOut_eq_sums hj]
  refine .bind (exitSums_agree (R := fun s' t' => s'.record (user, asset) = t'.record (user, asset))
    (paired h) h0 ?_ ?_) fun _ _ _ _ hrecord => .pure ⟨hrecord, rfl⟩
  · intro ts tb us ub
    simp [State.record, State.close, hij]
  · intro balance shares ts tb us ub
    simp [State.record, State.reduce, hij, hlock, hcp]

theorem withdraw_agree (h : Twins State.book (State.record · (user, asset)) s t) (h0 : 0 ≤ amount) :
    Agree (Alike (State.record · (user, asset))) (withdraw emergency env s user asset amount)
      (withdraw emergency env t user asset amount) := by
  obtain ⟨hb, _, hl⟩ := record_getD h.record
  refine agree_reply (fun _ _ => rfl) ?_
  unfold doWithdraw
  refine .bind (.expect _ (congrArg PositionRecord.admin h.record)) fun i j hi hj hij => ?_
  rw [hij, hb, hl]
  refine .shared fun _ _ => .shared fun _ _ => .shared fun _ _ => ?_
  exact takeOut_agree h (expect_eq_ok.mp hi) (expect_eq_ok.mp hj) hij h0

theorem earlyExit_agree (h : Twins State.book (State.record · (user, asset)) s t) (h0 : 0 ≤ amount) :
    Agree (Alike (State.record · (user, asset))) (earlyExit p emergency env s user asset amount)
      (earlyExit p emergency env t user asset amount) := by
  obtain ⟨hb, _, _⟩ := record_getD h.record
  refine agree_reply (fun _ _ => rfl) ?_
  unfold doEarlyExit
  refine .bind (.expect _ (congrArg PositionRecord.admin h.record)) fun i j hi hj hij => ?_
  rw [hij, hb]
  refine .shared fun _ _ => .shared fun _ _ => .shared fun _ _ => .shared fun _ _ => ?_
  exact takeOut_agree h (expect_eq_ok.mp hi) (expect_eq_ok.mp hj) hij h0

theorem relock_agree (h : s.record (user, asset) = t.record (user, asset)) :
    Agree (Alike (State.record · (user, asset))) (relock p env s user asset) (relock p env t user asset) := by
  obtain ⟨_, _, hl⟩ := record_getD h
  simp only [State.record, PositionRecord.mk.injEq] at h
  obtain ⟨hadmin, hbal, hsh, _, hcp⟩ := h
  unfold relock
  refine .bind (.expect _ hadmin) fun i j hi hj hij => ?_
  rw [hij, hl]
  refine .shared fun _ _ => .shared fun _ _ => .shared fun lock _ => .pure ⟨?_, rfl⟩
  simp [State.record, hadmin, hbal, hsh, hcp]

theorem deposit_agree {r q : State × Reply} (h : s.record (user, asset) = t.record (user, asset))
    (hr : deposit p env s user asset amount = .ok r)
    (hq : deposit p env t user asset amount = .ok q) : Alike (State.record · (user, asset)) r q := by
  obtain ⟨hb, hsh, _⟩ := record_getD h
  obtain ⟨i, hi, _, _, _, hinst, hbook, hlock, hcp, hreply⟩ := deposit_ok hr
  obtain ⟨j, hj, _, _, _, hinst', hbook', hlock', hcp', hreply'⟩ := deposit_ok hq
  obtain ⟨hbal, hshares⟩ := add_alike hb hsh hbook hbook'
  have hadmin : s.inst.map Instance.admin = t.inst.map Instance.admin := congrArg PositionRecord.admin h
  have hij : i.admin = j.admin := by simpa [hi, hj] using hadmin
  refine ⟨?_, hreply.trans hreply'.symm⟩
  simp only [State.book] at hbal hshares
  simp only [State.record, hinst, hinst', hbal, hshares, hlock, hlock', hcp, hcp', Store.get_set_self,
    Option.map_some, hij]

/-- A visible operation that is no deposit is answered alike by twins. -/
theorem operate_agree {em em' : Address → Bool} {call : VaultCall} (h : Twins State.book (State.record · k) s t)
    (hem : em k.2 = em' k.2) (hvis : call.concerns k = true)
    (hdeposit : ∀ user asset amount, call ≠ .deposit user asset amount)
    (hamount : ∀ user asset amount, call = .withdraw user asset amount ∨
      call = .earlyExit user asset amount → 0 ≤ amount) :
    Agree (Alike (State.record · k)) (operate p em env s call) (operate p em' env t call) := by
  cases call with
  | deposit user asset amount => exact absurd rfl (hdeposit user asset amount)
  | withdraw user asset amount =>
    obtain rfl := of_decide_eq_true hvis
    rw [operate, operate, show em asset = em' asset from hem]
    exact withdraw_agree h (hamount user asset amount (.inl rfl))
  | earlyExit user asset amount =>
    obtain rfl := of_decide_eq_true hvis
    rw [operate, operate, show em asset = em' asset from hem]
    exact earlyExit_agree h (hamount user asset amount (.inr rfl))
  | relock user asset =>
    obtain rfl := of_decide_eq_true hvis
    exact agree_reply (fun _ _ => rfl) (relock_agree h.record)
  | setEmergencyUnlock asset active => exact .error _
  | _ => cases hvis

theorem takeOut_record (hi : s.inst = some i) (h : takeOut i s user asset amount = .ok s')
    (hk : (user, asset) ≠ k) : s'.record k = s.record k := by
  obtain ⟨hbook, _, hinst, hlock, hcp⟩ := takeOut_ok hi h
  have hbal : s'.balance = _ := congrArg Book.principal hbook
  have hsh : s'.shares = _ := congrArg Book.shares hbook
  have hne : k ≠ (user, asset) := fun heq => hk heq.symm
  simp only [State.record, hinst, hi, Option.map_some, hbal, hsh, hlock, hcp,
    Book.takeOut_principal_of_ne hne, Book.takeOut_shares_of_ne hne]
  split <;> simp [State.book, hne]

theorem operate_record {em : Address → Bool} {call : VaultCall} {reply : Reply}
    (hvis : call.concerns k = false) (h : operate p em env s call = .ok (s', reply)) :
    s'.record k = s.record k := by
  cases operate_effect h with
  | deposit user asset amount i hi _ _ _ hinst hbook hlock hcp =>
    have hne : k ≠ (user, asset) := fun heq => of_decide_eq_false hvis heq.symm
    have hbal : s'.balance = _ := congrArg Book.principal hbook
    have hsh : s'.shares = _ := congrArg Book.shares hbook
    simp [State.record, hinst, hi, hbal, hsh, hlock, hcp, Book.add, State.book, hne]
  | withdraw user asset amount i hi _ _ _ htake =>
    exact takeOut_record hi htake (of_decide_eq_false hvis)
  | earlyExit user asset amount i hi _ _ htake =>
    exact takeOut_record hi htake (of_decide_eq_false hvis)
  | relock user asset i hi _ _ hs =>
    have hne : k ≠ (user, asset) := fun heq => of_decide_eq_false hvis heq.symm
    rw [hs]
    simp [State.record, hne]
  | setMaxTvl newCap i hi _ hs =>
    rw [hs]
    simp [State.record, hi]
  | query q value hs => rw [hs]

end Locked

namespace VaultFlex
variable {env : Env} {s t s' : State} {i : Instance} {k : Key} {user asset : Address} {amount : ℤ}

/-- VaultFlex records no lock. -/
def State.record (s : State) (k : Key) : PositionRecord where
  admin := s.inst.map Instance.admin
  balance := s.balance.get k
  shares := s.shares.get k
  lockUntil := none
  checkpoint := s.checkpoint.get k

theorem record_getD (h : s.record k = t.record k) :
    s.balance.getD k 0 = t.balance.getD k 0 ∧ s.shares.getD k 0 = t.shares.getD k 0 := by
  simp only [State.record, PositionRecord.mk.injEq] at h
  obtain ⟨_, hb, hs, _⟩ := h
  simp only [Store.getD, hb, hs, and_self]

theorem paired (h : Twins State.book (State.record · k) s t) : Paired s.book t.book k :=
  ⟨(record_getD h.record).1, (record_getD h.record).2, h.coherent, h.range, h.coherent', h.range'⟩

theorem doWithdraw_agree (h : Twins State.book (State.record · (user, asset)) s t) (h0 : 0 ≤ amount) :
    Agree (Alike (State.record · (user, asset))) (doWithdraw env s user asset amount)
      (doWithdraw env t user asset amount) := by
  have hpaired := paired h
  obtain ⟨hb, hsh⟩ := record_getD h.record
  have hrecord := h.record
  simp only [State.record, PositionRecord.mk.injEq] at hrecord
  obtain ⟨hadmin, _, _, _, hcp⟩ := hrecord
  unfold doWithdraw
  refine .bind (.expect _ hadmin) fun i j hi hj hij => ?_
  rw [book_of_inst (expect_eq_ok.mp hi), book_of_inst (expect_eq_ok.mp hj)] at hpaired
  dsimp only
  rw [hij]
  refine .shared fun _ _ => .check (by rw [hb, hsh]) fun _ => .check (by rw [hb]) fun _ => ?_
  refine exitSums_agree (R := Alike (State.record · (user, asset))) hpaired h0 ?_ ?_
  · intro ts tb us ub
    simp [Alike, State.record, hcp, hb]
  · intro balance shares ts tb us ub
    simp [Alike, State.record, hcp]

theorem deposit_agree {r q : State × Reply} (h : s.record (user, asset) = t.record (user, asset))
    (hr : deposit env s user asset amount = .ok r) (hq : deposit env t user asset amount = .ok q) :
    Alike (State.record · (user, asset)) r q := by
  obtain ⟨hb, hsh⟩ := record_getD h
  obtain ⟨i, hi, _, _, hinst, hbook, hcp, hreply⟩ := deposit_ok hr
  obtain ⟨j, hj, _, _, hinst', hbook', hcp', hreply'⟩ := deposit_ok hq
  obtain ⟨hbal, hshares⟩ := add_alike hb hsh hbook hbook'
  have hadmin : s.inst.map Instance.admin = t.inst.map Instance.admin := congrArg PositionRecord.admin h
  have hij : i.admin = j.admin := by simpa [hi, hj] using hadmin
  refine ⟨?_, hreply.trans hreply'.symm⟩
  simp only [State.book] at hbal hshares
  simp only [State.record, hinst, hinst', hbal, hshares, hcp, hcp', Store.get_set_self, Option.map_some, hij]

theorem step_agree {call : VaultCall} (h : Twins State.book (State.record · k) s t) (hvis : call.concerns k = true)
    (hdeposit : ∀ user asset amount, call ≠ .deposit user asset amount)
    (hamount : ∀ user asset amount, call = .withdraw user asset amount ∨
      call = .earlyExit user asset amount → 0 ≤ amount) :
    Agree (Alike (State.record · k)) (step env s call) (step env t call) := by
  cases call with
  | deposit user asset amount => exact absurd rfl (hdeposit user asset amount)
  | withdraw user asset amount =>
    obtain rfl := of_decide_eq_true hvis
    exact agree_reply (fun _ _ => rfl) (doWithdraw_agree h (hamount user asset amount (.inl rfl)))
  | earlyExit user asset amount =>
    obtain rfl := of_decide_eq_true hvis
    exact agree_reply (fun _ _ => rfl) (doWithdraw_agree h (hamount user asset amount (.inr rfl)))
  | relock user asset => exact .error _
  | setEmergencyUnlock asset active => exact .error _
  | _ => cases hvis

theorem step_record {call : VaultCall} {reply : Reply} (hc : ∀ args, call ≠ .initialise args)
    (hvis : call.concerns k = false) (h : step env s call = .ok (s', reply)) :
    s'.record k = s.record k := by
  have heffect : Effect env s s' call reply := step_effect hc h
  cases heffect with
  | deposit user asset amount i hi _ _ hinst hbook hcp =>
    have hne : k ≠ (user, asset) := fun heq => of_decide_eq_false hvis heq.symm
    have hbal : s'.balance = _ := congrArg Book.principal hbook
    have hsh : s'.shares = _ := congrArg Book.shares hbook
    simp [State.record, hinst, hi, hbal, hsh, hcp, Book.add, State.book, hne]
  | exit _ _ user asset amount hexit i hi _ _ _ _ hinst hbook hcp =>
    have hne : k ≠ (user, asset) := by
      rintro rfl
      rcases hexit with ⟨rfl, _⟩ | ⟨rfl, _⟩ <;> exact of_decide_eq_false hvis rfl
    have hbal : s'.balance = _ := congrArg Book.principal hbook
    have hsh : s'.shares = _ := congrArg Book.shares hbook
    simp only [State.record, hinst, hi, Option.map_some, hbal, hsh, hcp,
      Book.takeOut_principal_of_ne hne, Book.takeOut_shares_of_ne hne]
    rfl
  | query q value hs => rw [hs]

end VaultFlex

namespace TierVault
variable {env : Env} {v w : TierVault} {call : VaultCall} {r : TierVault × Reply} {k : Key}

def record (k : Key) : TierVault → PositionRecord
  | .flex s => s.record k
  | .l3 s => s.core.record k
  | .l6 s => s.record k
  | .l12 s => s.record k

/-- All that the position `k` can tell of the vault it is in. -/
structure View where
  tier : Tier
  guardian : Option Address
  emergency : Bool
  record : PositionRecord
  deriving DecidableEq, Repr

def view (k : Key) (v : TierVault) : View := ⟨v.tier, v.guardian, v.emergency k.2, v.record k⟩

/-- The calls an owner of the position `k` makes or depends on. -/
def sees (k : Key) (c : Invocation) : Bool := c.2.concerns k

/-- The calls of a run in which the position `k` is used as a depositor uses it: no `initialise`, its
deposits succeed and its exits are of non-negative amounts. -/
structure Respects (k : Key) (v : TierVault) (c : Invocation) : Prop where
  operation : IsOperation c.2
  deposit : ∀ amount, c.2 = .deposit k.1 k.2 amount → ∃ r, exec v c = .ok r
  amount : ∀ amount, c.2 = .withdraw k.1 k.2 amount ∨ c.2 = .earlyExit k.1 k.2 amount → 0 ≤ amount

theorem record_of_core {s : Locked.State} (h : v.core = some s) (k : Key) : v.record k = s.record k := by
  cases v <;> cases h <;> rfl

theorem step_emergency_other {asset a : Address} {active : Bool} (ha : asset ≠ a)
    (h : step env v (.setEmergencyUnlock asset active) = .ok r) : r.1.emergency a = v.emergency a := by
  cases v with
  | l3 s =>
    simp only [step, VaultL3.step, VaultL3.setEmergencyUnlock, bind_eq_ok, pure_eq_ok] at h
    obtain ⟨_, ⟨_, ⟨_, _, _, _, rfl⟩, rfl⟩, rfl⟩ := h
    exact Store.getD_set_of_ne _ ha.symm _ _
  | _ => simp [step, VaultFlex.step, Locked.step, Locked.operate] at h

theorem step_record (hc : IsOperation call) (hvis : call.concerns k = false)
    (h : step env v call = .ok r) : r.1.record k = v.record k := by
  rcases v.flex_or_locked with ⟨s, rfl⟩ | ⟨p, s, hp, hs⟩
  · simp only [step, bind_eq_ok, pure_eq_ok] at h
    obtain ⟨_, hq, rfl⟩ := h
    exact VaultFlex.step_record hc hvis hq
  · obtain ⟨s', hs', _, ⟨hop, _⟩ | ⟨args, _, _, _, _, _, rfl, _⟩ | ⟨_, rfl, _⟩⟩ := step_core hp hs h
    · rw [record_of_core hs, record_of_core hs']
      exact Locked.operate_record hvis hop
    · exact absurd rfl (hc args)
    · rw [record_of_core hs, record_of_core hs']

theorem step_view (hc : IsOperation call) (hvis : call.concerns k = false)
    (h : step env v call = .ok r) : view k r.1 = view k v := by
  have hem : r.1.emergency k.2 = v.emergency k.2 := by
    rcases step_emergency h with hem | ⟨⟨asset, active, rfl⟩, _⟩
    · rw [hem]
    · exact step_emergency_other (of_decide_eq_false hvis) h
  simp only [view, step_tier h, operation_guardian hc h, hem, step_record hc hvis h]

theorem l3_agree {s t : VaultL3.State} (h : Twins Locked.State.book (Locked.State.record · k) s.core t.core)
    (hguardian : s.guardian = t.guardian) (hem : VaultL3.emergency s k.2 = VaultL3.emergency t k.2)
    (hvis : call.concerns k = true)
    (hdeposit : ∀ user asset amount, call ≠ .deposit user asset amount)
    (hamount : ∀ user asset amount, call = .withdraw user asset amount ∨
      call = .earlyExit user asset amount → 0 ≤ amount) :
    Agree (fun r q => view k (.l3 r.1) = view k (.l3 q.1) ∧ r.2 = q.2) (VaultL3.step env s call)
      (VaultL3.step env t call) := by
  have hoperate : Agree (Alike (Locked.State.record · k))
      (Locked.operate VaultL3.params (VaultL3.emergency s) env s.core call)
      (Locked.operate VaultL3.params (VaultL3.emergency t) env t.core call) :=
    Locked.operate_agree h hem hvis hdeposit hamount
  have hkeep : ∀ (x y : Locked.State × Reply), Alike (Locked.State.record · k) x y →
      view k (.l3 { s with core := x.1 }) = view k (.l3 { t with core := y.1 }) := by
    intro x y hxy
    simp only [view, tier, guardian, emergency, record, hguardian, hxy.1, View.mk.injEq, true_and, and_true]
    exact hem
  cases call with
  | setEmergencyUnlock asset active =>
    obtain rfl := of_decide_eq_true hvis
    refine .bind (Q := fun s' t' => view k (.l3 s') = view k (.l3 t')) ?_ fun _ _ _ _ hview =>
      .pure ⟨hview, rfl⟩
    unfold VaultL3.setEmergencyUnlock
    rw [hguardian]
    refine .shared fun _ _ => .shared fun _ _ => .pure ?_
    simp [view, tier, guardian, emergency, VaultL3.emergency, record, h.record]
  | deposit user asset amount => exact absurd rfl (hdeposit user asset amount)
  | withdraw user asset amount => exact .bind hoperate fun _ _ _ _ hxy => .pure ⟨hkeep _ _ hxy, hxy.2⟩
  | earlyExit user asset amount => exact .bind hoperate fun _ _ _ _ hxy => .pure ⟨hkeep _ _ hxy, hxy.2⟩
  | relock user asset => exact .bind hoperate fun _ _ _ _ hxy => .pure ⟨hkeep _ _ hxy, hxy.2⟩
  | _ => cases hvis

/-- A visible call that is no deposit is answered from what `k` can tell. -/
theorem step_agree (hv : v.Sound) (hw : w.Sound) (hview : view k v = view k w)
    (hvis : call.concerns k = true)
    (hdeposit : ∀ user asset amount, call ≠ .deposit user asset amount)
    (hamount : ∀ user asset amount, call = .withdraw user asset amount ∨
      call = .earlyExit user asset amount → 0 ≤ amount) :
    Agree (fun r q => view k r.1 = view k q.1 ∧ r.2 = q.2) (step env v call) (step env w call) := by
  simp only [view, View.mk.injEq] at hview
  obtain ⟨htier, hguardian, hem, hrecord⟩ := hview
  have hlocked : ∀ {p : TierParams} {s t : Locked.State}, (∀ e : Env, ∀ x : Locked.State,
        Locked.step p e x call = Locked.operate p (fun _ => false) e x call) →
      Twins Locked.State.book (Locked.State.record · k) s t →
      Agree (Alike (Locked.State.record · k)) (Locked.step p env s call) (Locked.step p env t call) := by
    intro p s t heq htwins
    rw [heq, heq]
    exact Locked.operate_agree htwins rfl hvis hdeposit hamount
  have hstep : ∀ p e x, Locked.step p e x call = Locked.operate p (fun _ => false) e x call := by
    intro p e x
    cases call with
    | initialise args => cases hvis
    | _ => rfl
  cases v with
  | flex s =>
    cases w with
    | flex t =>
      have htwins : Twins VaultFlex.State.book (VaultFlex.State.record · k) s t :=
        ⟨hrecord, hv.coherent, hv.range, hw.coherent, hw.range⟩
      refine .bind (VaultFlex.step_agree htwins hvis hdeposit hamount) fun _ _ _ _ hxy => .pure ⟨?_, hxy.2⟩
      exact congrArg (View.mk .flex none false) hxy.1
    | _ => cases htier
  | l3 s =>
    cases w with
    | l3 t =>
      have htwins : Twins Locked.State.book (Locked.State.record · k) s.core t.core :=
        ⟨hrecord, hv.coherent, hv.range, hw.coherent, hw.range⟩
      exact .bind (l3_agree htwins hguardian hem hvis hdeposit hamount) fun _ _ _ _ hxy => .pure hxy
    | _ => cases htier
  | l6 s =>
    cases w with
    | l6 t =>
      have htwins : Twins Locked.State.book (Locked.State.record · k) s t :=
        ⟨hrecord, hv.coherent, hv.range, hw.coherent, hw.range⟩
      refine .bind (hlocked (hstep VaultL6.params) htwins) fun _ _ _ _ hxy => .pure ⟨?_, hxy.2⟩
      exact congrArg (View.mk .l6 none false) hxy.1
    | _ => cases htier
  | l12 s =>
    cases w with
    | l12 t =>
      have htwins : Twins Locked.State.book (Locked.State.record · k) s t :=
        ⟨hrecord, hv.coherent, hv.range, hw.coherent, hw.range⟩
      refine .bind (hlocked (hstep VaultL12.params) htwins) fun _ _ _ _ hxy => .pure ⟨?_, hxy.2⟩
      exact congrArg (View.mk .l12 none false) hxy.1
    | _ => cases htier

theorem deposit_core {p : TierParams} {s : Locked.State} {user asset : Address} {amount : ℤ}
    (hp : v.params = some p) (hs : v.core = some s) (h : step env v (.deposit user asset amount) = .ok r) :
    ∃ s', r.1.core = some s' ∧ Locked.deposit p env s user asset amount = .ok (s', r.2) := by
  obtain ⟨s', hs', _, ⟨hop, _⟩ | ⟨_, _, _, _, _, _, hcall, _⟩ | ⟨hflag, _⟩⟩ := step_core hp hs h
  · exact ⟨s', hs', hop⟩
  · cases hcall
  · rcases hflag with ⟨_, _, hcall⟩ | ⟨_, hcall⟩ <;> cases hcall

theorem deposit_view {user asset : Address} {amount : ℤ}
    (h : step env v (.deposit user asset amount) = .ok r) :
    view k r.1 = { view k v with record := r.1.record k } := by
  have hem : r.1.emergency = v.emergency := by
    rcases step_emergency h with hem | ⟨⟨_, _, hcall⟩, _⟩
    · exact hem
    · cases hcall
  have hguardian : r.1.guardian = v.guardian := operation_guardian (fun _ hcall => by cases hcall) h
  simp only [view, step_tier h, hguardian, hem]

theorem deposit_agree {q : TierVault × Reply} {amount : ℤ} (hview : view k v = view k w)
    (hr : step env v (.deposit k.1 k.2 amount) = .ok r)
    (hq : step env w (.deposit k.1 k.2 amount) = .ok q) : view k r.1 = view k q.1 ∧ r.2 = q.2 := by
  have htier : v.tier = w.tier := congrArg View.tier hview
  have hrecord : v.record k = w.record k := congrArg View.record hview
  have halike : r.1.record k = q.1.record k ∧ r.2 = q.2 := by
    rcases flex_or_locked_of_tier htier with ⟨s, t, rfl, rfl⟩ | ⟨p, s, t, hp, hs, hp', ht⟩
    · simp only [step, VaultFlex.step, bind_eq_ok, pure_eq_ok] at hr hq
      obtain ⟨_, hr, rfl⟩ := hr
      obtain ⟨_, hq, rfl⟩ := hq
      exact VaultFlex.deposit_agree hrecord hr hq
    · obtain ⟨s', hs', hdeposit⟩ := deposit_core hp hs hr
      obtain ⟨t', ht', hdeposit'⟩ := deposit_core hp' ht hq
      rw [record_of_core hs, record_of_core ht] at hrecord
      rw [record_of_core hs', record_of_core ht']
      exact Locked.deposit_agree hrecord hdeposit hdeposit'
  refine ⟨?_, halike.2⟩
  rw [deposit_view hr, deposit_view hq, hview, halike.1]

theorem key_of_concerns {user asset : Address} (h : decide ((user, asset) = k) = true) :
    user = k.1 ∧ asset = k.2 := by
  obtain rfl := of_decide_eq_true h
  exact ⟨rfl, rfl⟩

theorem unwinding (k : Key) : Unwinding exec (Respects k) Sound (sees k) (view k) where
  kept _ _ _ hc hv h := hv.step hc.operation h
  hidden _ _ _ hc _ hvis h := step_view hc.operation hvis h
  visible v w c hv hw hsv hsw hvis hview := by
    obtain ⟨env, call⟩ := c
    by_cases hdeposit : ∃ amount, call = .deposit k.1 k.2 amount
    · obtain ⟨amount, rfl⟩ := hdeposit
      obtain ⟨r, hr⟩ := hv.deposit amount rfl
      obtain ⟨q, hq⟩ := hw.deposit amount rfl
      exact alike_of_agree (R := fun v w => view k v = view k w) hview (.of_ok hr hq (deposit_agree hview hr hq))
    · refine alike_of_agree (R := fun v w => view k v = view k w) hview (step_agree hsv hsw hview hvis ?_ ?_)
      · rintro user asset amount rfl
        obtain ⟨rfl, rfl⟩ := key_of_concerns hvis
        exact hdeposit ⟨amount, rfl⟩
      · rintro user asset amount (rfl | rfl)
        · obtain ⟨rfl, rfl⟩ := key_of_concerns hvis
          exact hv.amount amount (.inl rfl)
        · obtain ⟨rfl, rfl⟩ := key_of_concerns hvis
          exact hv.amount amount (.inr rfl)

def exitRate (v : TierVault) (asset : Address) : ℤ :=
  if v.emergency asset then 0 else (v.params.map TierParams.exitFeeFp).getD 0

theorem exitRate_mem (v : TierVault) (asset : Address) :
    0 ≤ v.exitRate asset ∧ v.exitRate asset ≤ 250_000 := by
  unfold exitRate
  split
  · decide
  · cases v <;>
      simp only [params, Option.map_some, Option.map_none, Option.getD_some, Option.getD_none] <;> decide

theorem exitFee_eq (v : TierVault) (asset : Address) {amount : ℤ} (ha : 0 ≤ amount) :
    v.exitFee asset amount = amount * v.exitRate asset / SCALING_FACTOR := by
  rw [← Int.tdiv_eq_ediv_of_nonneg (Int.mul_nonneg ha (exitRate_mem v asset).1)]
  cases hp : v.params with
  | none => simp [exitFee, exitRate, hp]
  | some p =>
    rw [exitFee_of_params hp]
    unfold Locked.feeOf exitRate
    split <;> simp [hp]

theorem feeFits_of_le {asset : Address} {amount : ℤ} (h0 : 0 ≤ amount) (hle : amount ≤ 10 ^ 32) :
    v.FeeFitsAt asset amount := by
  intro p hp
  have hp : v.params = some p := hp
  have hmem := exitFee_mem v asset h0
  rw [exitFee_of_params hp] at hmem
  have hbig : ∀ x : ℤ, 0 ≤ x → x ≤ 10 ^ 32 * 250_000 → InI128 x :=
    fun x hx hle => ⟨le_trans (by decide) hx, hle.trans (by decide)⟩
  have hrate : 0 ≤ p.exitFeeFp ∧ p.exitFeeFp ≤ 250_000 := by
    cases v <;> cases hp <;> decide
  have hprod : 0 ≤ amount * p.exitFeeFp := Int.mul_nonneg h0 hrate.1
  have hprodle : amount * p.exitFeeFp ≤ 10 ^ 32 * 250_000 :=
    Int.mul_le_mul hle hrate.2 hrate.1 (by decide)
  refine ⟨fun hem => ⟨hbig _ hprod hprodle, ?_⟩, hbig _ (by omega) (by omega)⟩
  simp only [Locked.feeOf, hem, Bool.false_eq_true, if_false] at hmem
  exact hbig _ hmem.1 (by omega)

/-- Everything a position holds can be taken out, early with the fee and matured without. -/
theorem sound_exits {user asset : Address} {b : ℤ} (hv : v.Sound) (ha : v.AdminAuthorized env)
    (hb : v.balance user asset = b) (h0 : 0 < b) (hle : b ≤ 10 ^ 32) :
    (∃ v', step env v (.earlyExit user asset b) =
      .ok (v', ⟨.i128 (b - b * v.exitRate asset / SCALING_FACTOR),
        [.earlyExit user asset (b - b * v.exitRate asset / SCALING_FACTOR)]⟩)) ∧
    (v.lockUntil (user, asset) ≤ env.ledger → ∃ v', step env v (.withdraw user asset b) =
      .ok (v', ⟨.i128 b, [.withdraw user asset b]⟩)) := by
  have hcover : b ≤ v.balance user asset := hb.ge
  have hfull : b < v.balance user asset → InI128 (v.sharesOf user asset * b) := by omega
  constructor
  · obtain ⟨⟨v', reply⟩, h⟩ := (exit_iff .early hv ha h0).mpr ⟨feeFits_of_le h0.le hle, hcover, hfull⟩
    have hout : Outcome env v v' (.earlyExit user asset b) reply := step_outcome (exit_operation .early) h
    rw [← exitFee_eq v asset h0.le]
    cases hout with
    | earlyExit => exact ⟨v', h⟩
    | other _ _ _ _ _ _ hno => exact absurd rfl (hno _ _ _)
  · intro hlock
    obtain ⟨⟨v', reply⟩, h⟩ := (exit_iff .withdraw hv ha h0).mpr ⟨.inr hlock, hcover, hfull⟩
    have hout : Outcome env v v' (.withdraw user asset b) reply := step_outcome (exit_operation .withdraw) h
    cases hout with
    | withdraw => exact ⟨v', h⟩
    | other _ _ _ _ _ hno => exact absurd rfl (hno _ _ _)

/-- Two runs with the same calls about a position answer them alike and leave it the same, and in
every state the whole balance can be taken out. -/
theorem run_isolated {t : Tier} (hv : Initialised t v) :
    (∀ k cs ds, Meets exec (Respects k) v cs → Meets exec (Respects k) v ds →
      cs.filter (sees k) = ds.filter (sees k) →
      observed exec (sees k) (view k) v cs = observed exec (sees k) (view k) v ds ∧
        view k (run exec v cs) = view k (run exec v ds)) ∧
    ∀ cs : List Invocation, (∀ c ∈ cs, IsOperation c.2) → ∀ env user asset b,
      (run exec v cs).AdminAuthorized env → (run exec v cs).balance user asset = b →
      0 < b → b ≤ 10 ^ 32 →
      (∃ v', step env (run exec v cs) (.earlyExit user asset b) =
        .ok (v', ⟨.i128 (b - b * (run exec v cs).exitRate asset / SCALING_FACTOR),
          [.earlyExit user asset (b - b * (run exec v cs).exitRate asset / SCALING_FACTOR)]⟩)) ∧
      ((run exec v cs).lockUntil (user, asset) ≤ env.ledger →
        ∃ v', step env (run exec v cs) (.withdraw user asset b) =
          .ok (v', ⟨.i128 b, [.withdraw user asset b]⟩)) := by
  have hsound : v.Sound := initialised_sound hv
  refine ⟨fun k cs ds hcs hds hsame => ?_, fun cs hcs env user asset b ha hb h0 hle => ?_⟩
  · exact (unwinding k).observed_eq hsound hsound rfl hcs hds hsame
  · exact sound_exits (hsound.run hcs) ha hb h0 hle

/-- Account 7 deposits and exits in part; beside it account 8 comes and goes with signed amounts. -/
def aloneRun : List Invocation :=
  [(⟨[1], none, 10⟩, .deposit (.account 7) (.account 5) 500_000_001),
   (⟨[1], none, 12⟩, .earlyExit (.account 7) (.account 5) 3)]

def crowdedRun : List Invocation :=
  [(⟨[1], none, 9⟩, .deposit (.account 8) (.account 5) 600_000_000),
   (⟨[1], none, 10⟩, .deposit (.account 7) (.account 5) 500_000_001),
   (⟨[1], none, 11⟩, .earlyExit (.account 8) (.account 5) (-70_000)),
   (⟨[1], none, 12⟩, .earlyExit (.account 7) (.account 5) 3)]

theorem run_isolated_guarded :
    observed exec (sees (.account 7, .account 5)) (view (.account 7, .account 5)) guarded aloneRun =
      observed exec (sees (.account 7, .account 5)) (view (.account 7, .account 5)) guarded crowdedRun ∧
    ∃ v', step ⟨[1], none, 13⟩ (run exec guarded aloneRun)
      (.earlyExit (.account 7) (.account 5) 499_999_998) =
        .ok (v', ⟨.i128 497_499_999, [.earlyExit (.account 7) (.account 5) 497_499_999]⟩) := by
  have hiso := run_isolated guarded_initialised
  constructor
  · refine (hiso.1 (.account 7, .account 5) aloneRun crowdedRun ?_ ?_ rfl).1
    · exact ⟨⟨by simp [IsOperation], fun _ h => ⟨_, rfl⟩, by simp⟩,
        ⟨by simp [IsOperation], by simp, by simp⟩, trivial⟩
    · exact ⟨⟨by simp [IsOperation], by simp, by simp⟩,
        ⟨by simp [IsOperation], fun _ h => ⟨_, rfl⟩, by simp⟩,
        ⟨by simp [IsOperation], by simp, by simp⟩,
        ⟨by simp [IsOperation], by simp, by simp⟩, trivial⟩
  · exact (hiso.2 aloneRun (by simp [aloneRun, IsOperation]) ⟨[1], none, 13⟩ (.account 7) (.account 5)
      499_999_998 ⟨.account 1, rfl, by decide⟩ rfl (by decide) (by decide)).1

end TierVault
end YieldLadder
