import YieldLadder.Vault.Isolation
import YieldLadder.Vault.Positions

/-! # The entries of a position, and how each operation moves them

A position is recorded under separate keys: its balance and shares, the ledger its
lock ends and its checkpoint. `Move` lists what a successful operation does to the
four. In a locked vault they come and go together except for one operation, which
writes the lock without looking at the balance.
-/
namespace YieldLadder
open Foundation

def VaultCall.isDeposit (k : Key) : VaultCall → Bool
  | .deposit user asset _ => decide ((user, asset) = k)
  | _ => false

def VaultCall.isExit (k : Key) : VaultCall → Bool
  | .withdraw user asset _ => decide ((user, asset) = k)
  | .earlyExit user asset _ => decide ((user, asset) = k)
  | _ => false

def VaultCall.isRelock (k : Key) : VaultCall → Bool
  | .relock user asset => decide ((user, asset) = k)
  | _ => false

namespace TierVault

/-- The call is an exit of `amount` from the position `k`. -/
def ExitOf (k : Key) (amount : ℤ) (call : VaultCall) : Prop :=
  call = .withdraw k.1 k.2 amount ∨ call = .earlyExit k.1 k.2 amount

/-- What a successful operation does to the entries of the position `k`. -/
inductive Move (env : Env) (k : Key) (v v' : TierVault) : VaultCall → Prop
  | deposit (amount : ℤ) (hauth : v.AdminAuthorized env) (h0 : 0 < amount)
      (hbal : v'.balances.get k = some (v.balances.getD k 0 + amount))
      (hlock : v'.locks.get k = v.params.map fun p => env.ledger + p.lockDuration)
      (hcp : v'.checkpoints.get k = some (env.ledger + 1)) :
      Move env k v v' (.deposit k.1 k.2 amount)
  | reduce (call : VaultCall) (amount : ℤ) (hexit : ExitOf k amount call)
      (hauth : v.AdminAuthorized env) (hlt : amount < v.balances.getD k 0)
      (hne : v.balances.getD k 0 ≠ 0)
      (hbal : v'.balances.get k = some (v.balances.getD k 0 - amount))
      (hlock : v'.locks.get k = v.locks.get k) (hcp : v'.checkpoints.get k = v.checkpoints.get k) :
      Move env k v v' call
  | close (call : VaultCall) (hexit : ExitOf k (v.balances.getD k 0) call)
      (hauth : v.AdminAuthorized env) (hflex : v.tier = .flex → 0 < v.balances.getD k 0)
      (hbal : v'.balances.get k = none) (hlock : v'.locks.get k = none)
      (hcp : v'.checkpoints.get k = if v.tier = .flex then v.checkpoints.get k else none) :
      Move env k v v' call
  | relock (p : TierParams) (hp : v.params = some p) (hauth : v.AdminAuthorized env)
      (hfits : env.ledger + p.lockDuration < 2 ^ 32)
      (hbal : v'.balances.get k = v.balances.get k)
      (hlock : v'.locks.get k = some (env.ledger + p.lockDuration))
      (hcp : v'.checkpoints.get k = v.checkpoints.get k) : Move env k v v' (.relock k.1 k.2)
  | idle (call : VaultCall) (hd : call.isDeposit k = false) (he : call.isExit k = false)
      (hr : call.isRelock k = false) (hbal : v'.balances.get k = v.balances.get k)
      (hlock : v'.locks.get k = v.locks.get k) (hcp : v'.checkpoints.get k = v.checkpoints.get k) :
      Move env k v v' call

variable {env : Env} {v v' : TierVault} {call : VaultCall} {r : TierVault × Reply} {reply : Reply}
variable {k : Key} {user asset : Address} {amount : ℤ} {p : TierParams} {s s' : Locked.State}

theorem tier_of_params (hp : v.params = some p) : v.tier ≠ .flex := by
  cases v with
  | flex s => cases hp
  | _ => simp [tier]

theorem record_balance (v : TierVault) (k : Key) : (v.record k).balance = v.balances.get k := by
  cases v <;> rfl

theorem record_lockUntil (v : TierVault) (k : Key) : (v.record k).lockUntil = v.locks.get k := by
  cases v <;> rfl

theorem record_checkpoint (v : TierVault) (k : Key) :
    (v.record k).checkpoint = v.checkpoints.get k := by
  cases v <;> rfl

theorem Move.of_record (hd : call.isDeposit k = false) (he : call.isExit k = false)
    (hr : call.isRelock k = false) (h : v'.record k = v.record k) : Move env k v v' call := by
  refine .idle call hd he hr ?_ ?_ ?_
  · rw [← record_balance, h, record_balance]
  · rw [← record_lockUntil, h, record_lockUntil]
  · rw [← record_checkpoint, h, record_checkpoint]

theorem isDeposit_of_concerns (h : call.concerns k = false) : call.isDeposit k = false := by
  cases call <;> first | rfl | exact h

theorem isExit_of_concerns (h : call.concerns k = false) : call.isExit k = false := by
  cases call <;> first | rfl | exact h

theorem isRelock_of_concerns (h : call.concerns k = false) : call.isRelock k = false := by
  cases call <;> first | rfl | exact h

/-- An exit of a locked vault, whichever of the two it is. -/
theorem takeOut_move {i : Locked.Instance} (hs : v.core = some s) (hs' : v'.core = some s')
    (hexit : ExitOf (user, asset) amount call) (hauth : v.AdminAuthorized env) (hi : s.inst = some i)
    (hle : amount ≤ s.balance.getD (user, asset) 0)
    (h : Locked.takeOut i s user asset amount = .ok s') : Move env (user, asset) v v' call := by
  obtain ⟨hbook, h0, _, hlock, hcp⟩ := Locked.takeOut_ok hi h
  have hb : v.balances = s.balance := balances_of_core hs
  have hb' : v'.balances = (s.book.takeOut (user, asset) amount).principal :=
    (balances_of_core hs').trans (congrArg Book.principal hbook)
  have htier : v.tier ≠ .flex := by
    cases v with
    | flex s => cases hs
    | _ => simp [tier]
  by_cases hfull : s.balance.getD (user, asset) 0 ≤ amount
  · obtain rfl : amount = v.balances.getD (user, asset) 0 := by
      rw [hb]
      omega
    rw [if_pos hfull] at hlock hcp
    refine .close call hexit hauth (fun hflex => absurd hflex htier) ?_ ?_ ?_
    · rw [hb', Book.takeOut_of_le hfull]
      exact Store.get_remove_self _ _
    · rw [locks_of_core hs', hlock]
      exact Store.get_remove_self _ _
    · rw [checkpoints_of_core hs', hcp, if_neg htier]
      exact Store.get_remove_self _ _
  · rw [if_neg hfull] at hlock hcp
    have hlt : amount < s.balance.getD (user, asset) 0 := not_le.mp hfull
    refine .reduce call amount hexit hauth ?_ ?_ ?_ ?_ ?_
    · rwa [hb]
    · rw [hb]
      exact h0 hlt
    · rw [hb', Book.takeOut_of_lt hlt, hb]
      exact Store.get_set_self _ _ _
    · rw [locks_of_core hs', locks_of_core hs, hlock]
    · rw [checkpoints_of_core hs', checkpoints_of_core hs, hcp]

theorem locked_move (hp : v.params = some p) (hs : v.core = some s) (hs' : v'.core = some s')
    (h : Locked.operate p v.emergency env s call = .ok (s', reply)) (k : Key) :
    Move env k v v' call := by
  have hother : call.concerns k = false → Move env k v v' call := fun hvis => by
    refine .of_record (isDeposit_of_concerns hvis) (isExit_of_concerns hvis) (isRelock_of_concerns hvis) ?_
    rw [record_of_core hs, record_of_core hs']
    exact Locked.operate_record hvis h
  have hauthor : ∀ i, s.inst = some i → env.Authorized i.admin → v.AdminAuthorized env :=
    fun i hi ha => ⟨i.admin, by rw [admin_of_core hs, hi]; rfl, ha⟩
  have hb : v.balances = s.balance := balances_of_core hs
  cases Locked.operate_effect h with
  | deposit user asset amount i hi hauth hmin _ _ hbook hlock hcp =>
    by_cases hk : (user, asset) = k
    · subst hk
      have hpos : 0 < amount := by
        have := v.minDeposit_pos
        simp only [minDeposit, hp, Option.map_some, Option.getD_some] at this
        omega
      have hb' : v'.balances = _ := (balances_of_core hs').trans (congrArg Book.principal hbook)
      refine .deposit amount (hauthor i hi hauth) hpos ?_ ?_ ?_
      · rw [hb', hb]
        exact Store.get_set_self _ _ _
      · rw [locks_of_core hs', hlock, hp]
        exact Store.get_set_self _ _ _
      · rw [checkpoints_of_core hs', hcp]
        exact Store.get_set_self _ _ _
    · exact hother (decide_eq_false hk)
  | withdraw user asset amount i hi hauth _ hle htake =>
    by_cases hk : (user, asset) = k
    · subst hk
      exact takeOut_move hs hs' (.inl rfl) (hauthor i hi hauth) hi hle htake
    · exact hother (decide_eq_false hk)
  | earlyExit user asset amount i hi hauth hle htake =>
    by_cases hk : (user, asset) = k
    · subst hk
      exact takeOut_move hs hs' (.inr rfl) (hauthor i hi hauth) hi hle htake
    · exact hother (decide_eq_false hk)
  | relock user asset i hi hauth _ hr =>
    by_cases hk : (user, asset) = k
    · subst hk
      simp only [Locked.operate, bind_eq_ok] at h
      obtain ⟨q, hq, _⟩ := h
      obtain ⟨_, hfits⟩ := (relock_ok_iff hi hauth).mp ⟨q, hq⟩
      refine .relock p hp (hauthor i hi hauth) hfits ?_ ?_ ?_
      · rw [balances_of_core hs', hb, hr]
      · rw [locks_of_core hs', hr]
        exact Store.get_set_self _ _ _
      · rw [checkpoints_of_core hs', checkpoints_of_core hs, hr]
    · exact hother (decide_eq_false hk)
  | setMaxTvl => exact hother rfl
  | query => exact hother rfl

theorem flex_move {s s' : VaultFlex.State} (hc : IsOperation call)
    (h : VaultFlex.step env s call = .ok (s', reply)) (k : Key) : Move env k (.flex s) (.flex s') call := by
  have hother : call.concerns k = false → Move env k (.flex s) (.flex s') call := fun hvis =>
    .of_record (isDeposit_of_concerns hvis) (isExit_of_concerns hvis) (isRelock_of_concerns hvis)
      (VaultFlex.step_record hc hvis h)
  have hauthor : ∀ i, s.inst = some i → env.Authorized i.admin →
      (TierVault.flex s).AdminAuthorized env :=
    fun i hi ha => ⟨i.admin, by simp [TierVault.admin, hi], ha⟩
  have heffect : VaultFlex.Effect env s s' call reply := VaultFlex.step_effect hc h
  cases heffect with
  | deposit user asset amount i hi hauth hmin _ hbook hcp =>
    by_cases hk : (user, asset) = k
    · subst hk
      have hbal : s'.balance = _ := congrArg Book.principal hbook
      refine .deposit amount (hauthor i hi hauth) (lt_of_lt_of_le (by decide) hmin) ?_ rfl ?_
      · exact (congrArg (Store.get · (user, asset)) hbal).trans (Store.get_set_self _ _ _)
      · exact (congrArg (Store.get · (user, asset)) hcp).trans (Store.get_set_self _ _ _)
    · exact hother (decide_eq_false hk)
  | exit _ _ user asset amount hexit i hi hauth _ hpos hle _ hbook hcp =>
    by_cases hk : (user, asset) = k
    · subst hk
      have hcall : ExitOf (user, asset) amount call := by
        rcases hexit with ⟨rfl, _⟩ | ⟨rfl, _⟩
        · exact .inl rfl
        · exact .inr rfl
      have hbal : s'.balance = (s.book.takeOut (user, asset) amount).principal := congrArg Book.principal hbook
      by_cases hfull : s.balance.getD (user, asset) 0 ≤ amount
      · obtain rfl : amount = (TierVault.flex s).balances.getD (user, asset) 0 := le_antisymm hle hfull
        rw [Book.takeOut_of_le hfull] at hbal
        refine .close call hcall (hauthor i hi hauth) (fun _ => hpos) ?_ rfl ?_
        · exact (congrArg (Store.get · (user, asset)) hbal).trans (Store.get_remove_self _ _)
        · exact congrArg (Store.get · (user, asset)) hcp
      · rw [Book.takeOut_of_lt (not_le.mp hfull)] at hbal
        refine .reduce call amount hcall (hauthor i hi hauth) (not_le.mp hfull) hpos.ne' ?_ rfl ?_
        · exact (congrArg (Store.get · (user, asset)) hbal).trans (Store.get_set_self _ _ _)
        · exact congrArg (Store.get · (user, asset)) hcp
    · refine hother ?_
      rcases hexit with ⟨rfl, _⟩ | ⟨rfl, _⟩ <;> exact decide_eq_false hk
  | query => exact hother rfl

theorem step_move (hc : IsOperation call) (h : step env v call = .ok r) (k : Key) :
    Move env k v r.1 call := by
  rcases v.flex_or_locked with ⟨s, rfl⟩ | ⟨p, s, hp, hs⟩
  · simp only [step, bind_eq_ok, pure_eq_ok] at h
    obtain ⟨⟨s', reply⟩, hq, rfl⟩ := h
    exact flex_move hc hq k
  · obtain ⟨s', hs', _, ⟨hop, _⟩ | ⟨args, _, _, _, _, _, rfl, _⟩ | ⟨hflag, rfl, _⟩⟩ := step_core hp hs h
    · exact locked_move hp hs hs' hop k
    · exact absurd rfl (hc args)
    · have hrecord : r.1.record k = v.record k := by rw [record_of_core hs, record_of_core hs']
      rcases hflag with ⟨_, _, rfl⟩ | ⟨_, rfl⟩ <;> exact .of_record rfl rfl rfl hrecord

def lastLedger (q : VaultCall → Bool) (l : List (Invocation × Reply)) : Option ℕ :=
  (l.reverse.find? fun e => q e.1.2).map fun e => clock e.1

theorem lastLedger_concat (q : VaultCall → Bool) (l : List (Invocation × Reply)) (c : Invocation)
    (reply : Reply) :
    lastLedger q (l ++ [(c, reply)]) = if q c.2 then some (clock c) else lastLedger q l := by
  unfold lastLedger
  rw [List.reverse_append, List.reverse_singleton, List.singleton_append, List.find?_cons]
  cases q c.2 <;> rfl

theorem ExitOf.amount_eq {b : ℤ} (h : ExitOf k amount call) (h' : ExitOf k b call) : amount = b := by
  rcases h with rfl | rfl <;> rcases h' with h' | h' <;> cases h' <;> rfl

theorem ExitOf.isExit (h : ExitOf k amount call) : call.isExit k = true := by
  rcases h with rfl | rfl <;> exact decide_eq_true rfl

theorem ExitOf.not_deposit (h : ExitOf k amount call) : call.isDeposit k = false := by
  rcases h with rfl | rfl <;> rfl

theorem ExitOf.not_relock (h : ExitOf k amount call) : call.isRelock k = false := by
  rcases h with rfl | rfl <;> rfl

theorem ExitOf.isOperation (h : ExitOf k amount call) : IsOperation call := by
  rcases h with rfl | rfl <;> simp [IsOperation]

def stamps (k : Key) (call : VaultCall) : Bool := call.isDeposit k || call.isRelock k

/-- Nothing is recorded of the position. -/
structure Untraced (v : TierVault) (k : Key) : Prop where
  balance : v.balances.get k = none
  shares : v.shares.get k = none
  lock : v.locks.get k = none
  checkpoint : v.checkpoints.get k = none

/-- All four entries are recorded of the position. -/
structure Complete (v : TierVault) (k : Key) : Prop where
  balance : v.balances.get k ≠ none
  shares : v.shares.get k ≠ none
  lock : v.locks.get k ≠ none
  checkpoint : v.checkpoints.get k ≠ none

/-- The records of a locked vault: each position is complete or untraced, and its lock ends a lock
duration after the last deposit or relock of it. -/
structure Recorded (p : TierParams) (v : TierVault) (l : List (Invocation × Reply)) : Prop where
  whole : ∀ k, v.Untraced k ∨ v.Complete k
  lock : ∀ k n, v.locks.get k = some n →
    ∃ m, lastLedger (stamps k) l = some m ∧ n = m + p.lockDuration

/-- The call renews the lock of a position without principal, and nothing refuses it. -/
def RelocksEmpty (v : TierVault) (c : Invocation) : Prop :=
  ∃ k p, c.2 = .relock k.1 k.2 ∧ v.balances.get k = none ∧ v.params = some p ∧
    c.1.ledger + p.lockDuration < 2 ^ 32 ∧ v.AdminAuthorized c.1

/-- What the records of a locked vault need to be kept. -/
structure Filed (p : TierParams) (v : TierVault) : Prop where
  params : v.params = some p
  sound : v.Sound
  whole : ∀ k, v.Untraced k ∨ v.Complete k

theorem lockUntil_eq (v : TierVault) (k : Key) : v.lockUntil k = v.locks.getD k 0 := by
  cases v <;> rfl

theorem Sound.untraced (hv : v.Sound) (hb : v.balances.get k = none) (hl : v.locks.get k = none)
    (hc : v.checkpoints.get k = none) : v.Untraced k :=
  ⟨hb, (hv.coherent.same_keys k).mp hb, hl, hc⟩

theorem Sound.complete (hv : v.Sound) (hb : v.balances.get k ≠ none) (hl : v.locks.get k ≠ none)
    (hc : v.checkpoints.get k ≠ none) : v.Complete k :=
  ⟨hb, fun hs => hb ((hv.coherent.same_keys k).mpr hs), hl, hc⟩

theorem Filed.whole_of_eq (hf : Filed p v) (hv : v'.Sound) (hb : v'.balances.get k = v.balances.get k)
    (hl : v'.locks.get k = v.locks.get k) (hc : v'.checkpoints.get k = v.checkpoints.get k) :
    v'.Untraced k ∨ v'.Complete k := by
  rcases hf.whole k with h | h
  · exact .inl (hv.untraced (hb.trans h.balance) (hl.trans h.lock) (hc.trans h.checkpoint))
  · exact .inr (hv.complete (hb ▸ h.balance) (hl ▸ h.lock) (hc ▸ h.checkpoint))

theorem Filed.complete (hf : Filed p v) (hk : v.balances.get k ≠ none) : v.Complete k :=
  (hf.whole k).resolve_left fun h => hk h.balance

theorem balances_ne_none (h : v.balances.getD k 0 ≠ 0) : v.balances.get k ≠ none :=
  fun hnone => h (Store.getD_of_none hnone 0)

theorem Filed.step {c : Invocation} (hf : Filed p v) (hc : IsOperation c.2) (hgood : ¬RelocksEmpty v c)
    (h : exec v c = .ok r) : Filed p r.1 := by
  have hsound : r.1.Sound := hf.sound.step hc h
  refine ⟨(step_params h).trans hf.params, hsound, fun k => ?_⟩
  have hmove : Move c.1 k v r.1 c.2 := step_move hc h k
  obtain ⟨env, call⟩ := c
  cases hmove with
  | deposit amount _ _ hbal hlock hcp =>
    rw [hf.params] at hlock
    exact .inr (hsound.complete (by simp [hbal]) (by simp [hlock]) (by simp [hcp]))
  | reduce _ amount _ _ _ hne hbal hlock hcp =>
    have hcomplete : v.Complete k := hf.complete (balances_ne_none hne)
    exact .inr (hsound.complete (by simp [hbal]) (hlock ▸ hcomplete.lock) (hcp ▸ hcomplete.checkpoint))
  | close _ _ _ _ hbal hlock hcp =>
    rw [if_neg (tier_of_params hf.params)] at hcp
    exact .inl (hsound.untraced hbal hlock hcp)
  | relock q hq hauth hfits hbal hlock hcp =>
    have hopen : v.balances.get k ≠ none := fun hnone => hgood ⟨k, q, rfl, hnone, hq, hfits, hauth⟩
    exact .inr (hsound.complete (hbal ▸ hopen) (by simp [hlock]) (hcp ▸ (hf.complete hopen).checkpoint))
  | idle _ _ _ _ hbal hlock hcp => exact hf.whole_of_eq hsound hbal hlock hcp

/-- Renewing the lock of an empty position goes through and leaves the lock alone. -/
theorem relocksEmpty_broken {c : Invocation} (hf : Filed p v) (h : RelocksEmpty v c) :
    ¬Filed p (next exec v c) := by
  obtain ⟨k, q, hcall, hnone, hq, hfits, hauth⟩ := h
  obtain ⟨env, call⟩ := c
  dsimp only at hcall hfits hauth
  subst hcall
  have hlock : v.lockUntil k = 0 := by
    rw [lockUntil_eq]
    refine Store.getD_of_none ?_ 0
    exact (hf.whole k).elim Untraced.lock fun hcomplete => absurd hnone hcomplete.balance
  have hrenewable : Renewable v env k.1 k.2 q := ⟨hq, hlock ▸ Nat.zero_le _, hfits⟩
  obtain ⟨v', n, hstep⟩ := hrenewable.step hauth
  have hstep : exec v (env, .relock k.1 k.2) = .ok (v', ⟨.u32 n, []⟩) := hstep
  have hmove : Move env k v v' (.relock k.1 k.2) := step_move (by simp [IsOperation]) hstep k
  rw [next_ok hstep]
  intro hafter
  have hboth : v'.balances.get k = none ∧ v'.locks.get k ≠ none := by
    cases hmove with
    | relock _ _ _ _ hbal hlock => exact ⟨hbal.trans hnone, by simp [hlock]⟩
    | reduce _ _ hexit => exact absurd hexit.isExit (by simp [VaultCall.isExit])
    | close _ hexit => exact absurd hexit.isExit (by simp [VaultCall.isExit])
    | idle _ _ _ hr => exact absurd hr (by simp [VaultCall.isRelock])
  rcases hafter.whole k with hwhole | hwhole
  · exact hboth.2 hwhole.lock
  · exact hwhole.balance hboth.1

theorem next_filed_iff (c : Invocation) (hc : IsOperation c.2) (hf : Filed p v) :
    Filed p (next exec v c) ↔ ¬RelocksEmpty v c :=
  ⟨fun hnext hbad => relocksEmpty_broken hf hbad hnext,
    fun hgood => next_induction hf fun _ h => hf.step hc hgood h⟩

/-- Every lock ends a lock duration after the last deposit or relock of its position. -/
structure Stamped (p : TierParams) (v : TierVault) (l : List (Invocation × Reply)) : Prop where
  params : v.params = some p
  lock : ∀ k n, v.locks.get k = some n →
    ∃ m, lastLedger (stamps k) l = some m ∧ n = m + p.lockDuration

theorem Stamped.step {c : Invocation} {l : List (Invocation × Reply)} (hs : Stamped p v l)
    (hc : IsOperation c.2) (h : exec v c = .ok r) : Stamped p r.1 (l ++ [(c, r.2)]) := by
  refine ⟨(step_params h).trans hs.params, fun k n hn => ?_⟩
  have hmove : Move c.1 k v r.1 c.2 := step_move hc h k
  rw [lastLedger_concat]
  have hkept : stamps k c.2 = false → r.1.locks.get k = v.locks.get k →
      ∃ m, (if stamps k c.2 then some (clock c) else lastLedger (stamps k) l) = some m ∧
        n = m + p.lockDuration := by
    intro hno hlock
    rw [hno]
    exact hs.lock k n (hlock ▸ hn)
  obtain ⟨env, call⟩ := c
  cases hmove with
  | deposit amount _ _ _ hlock =>
    have hyes : stamps k (.deposit k.1 k.2 amount) = true := by simp [stamps, VaultCall.isDeposit]
    rw [hlock, hs.params] at hn
    exact ⟨env.ledger, by rw [hyes]; rfl, (Option.some.inj hn).symm⟩
  | reduce _ amount hexit _ _ _ _ hlock =>
    exact hkept (by simp [stamps, hexit.not_deposit, hexit.not_relock]) hlock
  | close _ _ _ _ _ hlock => rw [hlock] at hn; cases hn
  | relock q hq _ _ _ hlock =>
    have hyes : stamps k (.relock k.1 k.2) = true := by simp [stamps, VaultCall.isRelock]
    obtain rfl : q = p := Option.some.inj (hq.symm.trans hs.params)
    rw [hlock] at hn
    exact ⟨env.ledger, by rw [hyes]; rfl, (Option.some.inj hn).symm⟩
  | idle _ hd _ hr _ hlock => exact hkept (by simp [stamps, hd, hr]) hlock

theorem fullExit_untraced (hv : v.Sound) (hp : v.params = some p)
    (hexit : ExitOf k (v.balances.getD k 0) call) (h : step env v call = .ok r) : r.1.Untraced k := by
  have hsound : r.1.Sound := hv.step hexit.isOperation h
  have hmove : Move env k v r.1 call := step_move hexit.isOperation h k
  cases hmove with
  | deposit => exact absurd hexit.not_deposit (by simp [VaultCall.isDeposit])
  | reduce _ amount hexit' _ hlt => exact absurd (hexit'.amount_eq hexit) hlt.ne
  | close _ _ _ _ hbal hlock hcp =>
    rw [if_neg (tier_of_params hp)] at hcp
    exact hsound.untraced hbal hlock hcp
  | relock => exact absurd hexit.not_relock (by simp [VaultCall.isRelock])
  | idle _ _ he => exact absurd hexit.isExit (by simp [he])

theorem initialised_same {t : Tier} (hv : Initialised t v) : SamePositions (deployed t) v := by
  rcases initialised_cases hv with ⟨⟨_, _, _, _⟩, rfl, rfl, rfl, rfl⟩ | ⟨_, _, _, _, _, hs, hs'⟩
  · exact ⟨rfl, rfl, rfl⟩
  · exact .of_core hs hs' rfl rfl rfl

theorem initialised_untraced {t : Tier} (hv : Initialised t v) (k : Key) : v.Untraced k := by
  obtain ⟨hbook, hlocks, hcps⟩ := initialised_same hv
  have hb : v.balances = (deployed t).balances := congrArg Book.principal hbook
  have hs : v.shares = (deployed t).shares := congrArg Book.shares hbook
  constructor
  · rw [hb]
    cases t <;> rfl
  · rw [hs]
    cases t <;> rfl
  · rw [hlocks]
    cases t <;> rfl
  · rw [hcps]
    cases t <;> rfl

/-- The records of a locked vault stay whole exactly while nobody renews the lock of an empty
position; a full exit leaves no trace in any case. -/
theorem run_recorded_iff {t : Tier} (hv : Initialised t v) (hp : v.params = some p)
    {cs : List Invocation} (hcs : ∀ c ∈ cs, IsOperation c.2) :
    ((∀ ds, ds <+: cs → Recorded p (run exec v ds) (log exec v ds)) ↔
      Meets exec (fun w c => ¬RelocksEmpty w c) v cs) ∧
    ∀ env k call r, ExitOf k ((run exec v cs).balances.getD k 0) call →
      step env (run exec v cs) call = .ok r → r.1.Untraced k := by
  have hsound : v.Sound := initialised_sound hv
  have hstart : Filed p v := ⟨hp, hsound, fun k => .inl (initialised_untraced hv k)⟩
  have hfiled : (∀ ds, ds <+: cs → Filed p (run exec v ds)) ↔
      Meets exec (fun w c => ¬RelocksEmpty w c) v cs :=
    forall_prefix_iff_meets (fun _ c hc hf => next_filed_iff c hc hf) hstart hcs
  have hops : ∀ ds, ds <+: cs → ∀ c ∈ ds, IsOperation c.2 := fun ds hds c hc => hcs c (hds.subset hc)
  have hstamped : ∀ ds, ds <+: cs → Stamped p (run exec v ds) (log exec v ds) := by
    intro ds hds
    have hm : Meets exec (fun _ c => IsOperation c.2) v ds := meets_of_forall (hops ds hds)
    refine run_log_invariant_of_meets (I := Stamped p) (fun _ _ _ _ hc hs h => hs.step hc h) ?_ hm
    refine ⟨hp, fun k n hn => ?_⟩
    rw [(initialised_untraced hv k).lock] at hn
    cases hn
  constructor
  · rw [← hfiled]
    constructor
    · intro hall ds hds
      exact ⟨(run_params ds).trans hp, hsound.run (hops ds hds), (hall ds hds).whole⟩
    · intro hall ds hds
      exact ⟨(hall ds hds).whole, (hstamped ds hds).lock⟩
  · intro env k call r hexit h
    exact fullExit_untraced (hsound.run hcs) ((run_params cs).trans hp) hexit h

def renewalRun : List Invocation :=
  [(⟨[1], none, 10⟩, .deposit (.account 7) (.account 5) 500_000_001),
   (⟨[1], none, 777_610⟩, .relock (.account 7) (.account 5))]

theorem run_recorded_iff_guarded :
    Recorded VaultL3.params (run exec guarded renewalRun) (log exec guarded renewalRun) := by
  have hoperations : ∀ c ∈ renewalRun, IsOperation c.2 := by simp [renewalRun, IsOperation]
  have hmeets : Meets exec (fun w c => ¬RelocksEmpty w c) guarded renewalRun := by
    refine ⟨?_, ?_, trivial⟩
    · rintro ⟨k, q, hcall, _⟩
      cases hcall
    · rintro ⟨⟨user, asset⟩, q, hcall, hnone, _⟩
      cases hcall
      exact absurd hnone (by decide)
  exact (run_recorded_iff guarded_initialised rfl hoperations).1.mpr hmeets renewalRun
    (List.prefix_refl _)

/-- A lock for a position that never held anything. -/
theorem guarded_relocked_empty :
    ∃ r, exec guarded (⟨[1], none, 10⟩, .relock (.account 7) (.account 5)) = .ok r ∧
      r.1.locks.get (.account 7, .account 5) = some 777_610 ∧
      r.1.balances.get (.account 7, .account 5) = none :=
  ⟨_, rfl, rfl, rfl⟩

end TierVault
end YieldLadder
