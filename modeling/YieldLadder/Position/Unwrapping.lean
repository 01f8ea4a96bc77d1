import YieldLadder.Position.Receipts

/-! # What a tier vault learns from an unwrap

`unwrap` sends the tier vault the position token's address and the holder's. The
original owner of the id, recorded by `wrap`, is removed without being read: two
receipts of one vault in one hand are unwrapped by the same message, whosever
positions they stand for.
-/
namespace YieldLadder.PositionToken
open Foundation

/-- What `unwrap` asks of the tier vault: it goes through, for some signers, when `m` is all that the
vaults accept. -/
def Sends (self : Address) (s : State) (id : ℕ) (m : Message) : Prop :=
  ∃ env r, exec self s ⟨env, fun m' => if m' = m then .ok () else .error .unauthorized, .unwrap id⟩ =
    .ok r

/-- The records of a receipt that `wrap` made: who holds it, in which vault, and for whom. -/
structure Receipt (s : State) (id : ℕ) (holder vault depositor : Address) : Prop where
  owner : s.owner.get id = some holder
  vault : s.tierVault.get id = some vault
  original : s.originalOwner.get id = some depositor

variable {self vault holder holder₁ holder₂ depositor₁ depositor₂ : Address} {s : State}
variable {id id₁ id₂ : ℕ} {m : Message}

theorem exists_authorized (a : Address) : ∃ env : Env, env.Authorized a := by
  cases a with
  | account n => exact ⟨⟨[n], none, 0⟩, .inl ⟨n, List.mem_singleton_self n, rfl⟩⟩
  | contract n => exact ⟨⟨[], some (.contract n), 0⟩, .inr rfl⟩

theorem sends_iff : Sends self s id m ↔ ∃ holder vault, s.owner.get id = some holder ∧
    s.tierVault.get id = some vault ∧ m = ⟨vault, self, holder⟩ := by
  constructor
  · rintro ⟨env, r, h⟩
    obtain ⟨holder, vault, howner, hvault, _, hsent, _⟩ := exec_unwrap_iff.mp h
    refine ⟨holder, vault, howner, hvault, ?_⟩
    split at hsent
    · next heq => exact heq.symm
    · cases hsent
  · rintro ⟨holder, vault, howner, hvault, rfl⟩
    obtain ⟨env, hauth⟩ := exists_authorized holder
    exact ⟨env, _, exec_unwrap_iff.mpr ⟨holder, vault, howner, hvault, hauth, if_pos rfl, rfl⟩⟩

theorem Receipt.sends (h : Receipt s id holder vault depositor₁) :
    Sends self s id ⟨vault, self, holder⟩ :=
  sends_iff.mpr ⟨holder, vault, h.owner, h.vault, rfl⟩

theorem Receipt.messages_ne_iff (h₁ : Receipt s id₁ holder₁ vault depositor₁)
    (h₂ : Receipt s id₂ holder₂ vault depositor₂) :
    (∀ m₁ m₂, Sends self s id₁ m₁ → Sends self s id₂ m₂ → m₁ ≠ m₂) ↔ holder₁ ≠ holder₂ := by
  constructor
  · rintro hne rfl
    exact hne _ _ h₁.sends h₂.sends rfl
  · rintro hne m₁ m₂ hm₁ hm₂ rfl
    obtain ⟨a, v, ha, hv, rfl⟩ := sends_iff.mp hm₁
    obtain ⟨b, w, hb, hw, heq⟩ := sends_iff.mp hm₂
    obtain rfl : holder₁ = a := Option.some.inj (h₁.owner.symm.trans ha)
    obtain rfl : holder₂ = b := Option.some.inj (h₂.owner.symm.trans hb)
    exact hne (congrArg Message.newAuth heq)

/-- The message tells the original owner exactly when no one holds receipts of different original
owners in one vault. -/
theorem determines_iff :
    (∀ id₁ id₂ m, Sends self s id₁ m → Sends self s id₂ m →
        s.originalOwner.get id₁ = s.originalOwner.get id₂) ↔
      ∀ id₁ id₂ holder vault, s.owner.get id₁ = some holder → s.owner.get id₂ = some holder →
        s.tierVault.get id₁ = some vault → s.tierVault.get id₂ = some vault →
        s.originalOwner.get id₁ = s.originalOwner.get id₂ := by
  constructor
  · intro h id₁ id₂ holder vault ho₁ ho₂ hv₁ hv₂
    have hsent₁ : Sends self s id₁ ⟨vault, self, holder⟩ := sends_iff.mpr ⟨holder, vault, ho₁, hv₁, rfl⟩
    have hsent₂ : Sends self s id₂ ⟨vault, self, holder⟩ := sends_iff.mpr ⟨holder, vault, ho₂, hv₂, rfl⟩
    exact h id₁ id₂ _ hsent₁ hsent₂
  · intro h id₁ id₂ m hm₁ hm₂
    obtain ⟨a, v, ho₁, hv₁, rfl⟩ := sends_iff.mp hm₁
    obtain ⟨b, w, ho₂, hv₂, heq⟩ := sends_iff.mp hm₂
    have hholder : a = b := congrArg Message.newAuth heq
    have hvault : v = w := congrArg Message.tierVault heq
    subst hholder hvault
    exact h id₁ id₂ a v ho₁ ho₂ hv₁ hv₂

/-- In every state a run reaches: the messages that unwrap two receipts of one vault differ exactly
when the receipts have different holders, and the message of an unwrap determines the original owner
exactly when nobody holds receipts of different original owners in one vault. -/
theorem run_unwrap_messages (cs : List Invocation) :
    (∀ id₁ id₂ holder₁ holder₂ vault depositor₁ depositor₂,
      Receipt (run (exec self) .empty cs) id₁ holder₁ vault depositor₁ →
      Receipt (run (exec self) .empty cs) id₂ holder₂ vault depositor₂ →
      ((∀ m₁ m₂, Sends self (run (exec self) .empty cs) id₁ m₁ →
        Sends self (run (exec self) .empty cs) id₂ m₂ → m₁ ≠ m₂) ↔ holder₁ ≠ holder₂)) ∧
    ((∀ id₁ id₂ m, Sends self (run (exec self) .empty cs) id₁ m →
        Sends self (run (exec self) .empty cs) id₂ m →
        (run (exec self) .empty cs).originalOwner.get id₁ =
          (run (exec self) .empty cs).originalOwner.get id₂) ↔
      ∀ id₁ id₂ holder vault, (run (exec self) .empty cs).owner.get id₁ = some holder →
        (run (exec self) .empty cs).owner.get id₂ = some holder →
        (run (exec self) .empty cs).tierVault.get id₁ = some vault →
        (run (exec self) .empty cs).tierVault.get id₂ = some vault →
        (run (exec self) .empty cs).originalOwner.get id₁ =
          (run (exec self) .empty cs).originalOwner.get id₂) :=
  ⟨fun _ _ _ _ _ _ _ h₁ h₂ => h₁.messages_ne_iff h₂, determines_iff⟩

def twoWraps : List Invocation :=
  [⟨⟨[7], none, 1⟩, fun _ => .ok (), .wrap (.account 7) (.contract 2)⟩,
   ⟨⟨[8], none, 2⟩, fun _ => .ok (), .wrap (.account 8) (.contract 2)⟩]

theorem run_unwrap_messages_twoWraps :
    ∀ m₁ m₂, Sends (.contract 20) (run (exec (.contract 20)) .empty twoWraps) 0 m₁ →
      Sends (.contract 20) (run (exec (.contract 20)) .empty twoWraps) 1 m₂ → m₁ ≠ m₂ :=
  ((run_unwrap_messages twoWraps).1 0 1 (.account 7) (.account 8) (.contract 2) (.account 7)
    (.account 8) ⟨rfl, rfl, rfl⟩ ⟨rfl, rfl, rfl⟩).mpr (by decide)

/-- Both receipts go to account 9. -/
def gathered : List Invocation :=
  twoWraps ++
    [⟨⟨[7], none, 3⟩, fun _ => .ok (), .transfer (.account 7) (.account 9) 0⟩,
     ⟨⟨[8], none, 4⟩, fun _ => .ok (), .transfer (.account 8) (.account 9) 1⟩]

/-- The receipts of accounts 7 and 8 in one vault are then unwrapped by one and the same message. -/
theorem gathered_same_message :
    Receipt (run (exec (.contract 20)) .empty gathered) 0 (.account 9) (.contract 2) (.account 7) ∧
      Receipt (run (exec (.contract 20)) .empty gathered) 1 (.account 9) (.contract 2) (.account 8) ∧
      ∃ m, Sends (.contract 20) (run (exec (.contract 20)) .empty gathered) 0 m ∧
        Sends (.contract 20) (run (exec (.contract 20)) .empty gathered) 1 m := by
  have h₀ : Receipt (run (exec (.contract 20)) .empty gathered) 0 (.account 9) (.contract 2)
      (.account 7) := ⟨rfl, rfl, rfl⟩
  have h₁ : Receipt (run (exec (.contract 20)) .empty gathered) 1 (.account 9) (.contract 2)
      (.account 8) := ⟨rfl, rfl, rfl⟩
  exact ⟨h₀, h₁, _, h₀.sends, h₁.sends⟩

end YieldLadder.PositionToken
