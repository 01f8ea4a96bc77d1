import YieldLadder.Foundation.Store
import YieldLadder.Soroban.Host

/-! # One standard token for every asset

A transfer needs the authorization of the holder it takes from and moves exactly
the amount. `TokenRule.grants` lists, besides the host's rule, which contracts a
token lets move another address's balance when they are the direct caller; the
host itself grants nothing, and `payouts` is the rule under which a vault's
admin may pay out of the vault.
-/
namespace YieldLadder
open Foundation

/-- Balances by asset and holder. -/
abbrev Tokens := Address → Address → ℤ

/-- Contract `c` may move `v`'s balance when it is the direct caller. -/
structure TokenRule where
  grants : (c v : Address) → Bool

/-- No contract calls `authorize_as_current_contract`, so nothing is granted. -/
def TokenRule.host : TokenRule := ⟨fun _ _ => false⟩

/-- Contract `admin` may pay out of every address `custodian` accepts. -/
def TokenRule.payouts (admin : Address) (custodian : Address → Bool) : TokenRule :=
  ⟨fun c v => decide (c = admin) && custodian v⟩

def TokenRule.Allows (rule : TokenRule) (env : Env) (holder : Address) : Prop :=
  env.Authorized holder ∨ ∃ c ∈ env.caller, rule.grants c holder = true

instance (rule : TokenRule) (env : Env) (holder : Address) : Decidable (rule.Allows env holder) :=
  inferInstanceAs (Decidable (_ ∨ ∃ c, c ∈ env.caller ∧ _))

namespace Tokens

def credit (t : Tokens) (asset holder : Address) (x : ℤ) : Tokens :=
  fun a h => if a = asset ∧ h = holder then t a h + x else t a h

def move (t : Tokens) (asset src dst : Address) (x : ℤ) : Tokens :=
  (t.credit asset src (-x)).credit asset dst x

def transfer (rule : TokenRule) (env : Env) (t : Tokens) (asset src dst : Address) (x : ℤ) :
    Except Fault Tokens := do
  failIf (¬rule.Allows env src) .unauthorized
  failIf (x < 0) .negativeAmount
  failIf (t asset src < x) .insufficientBalance
  pure (t.move asset src dst x)

@[simp] theorem transfer_eq_ok {rule : TokenRule} {env : Env} {t t' : Tokens}
    {asset src dst : Address} {x : ℤ} : transfer rule env t asset src dst x = .ok t' ↔
      rule.Allows env src ∧ 0 ≤ x ∧ x ≤ t asset src ∧ t.move asset src dst x = t' := by
  simp [transfer]

@[simp] theorem move_other_asset (t : Tokens) {a asset : Address} (h : a ≠ asset)
    (src dst : Address) (x : ℤ) (holder : Address) :
    t.move asset src dst x a holder = t a holder := by
  simp [move, credit, h]

theorem move_src (t : Tokens) (asset : Address) {src dst : Address} (h : src ≠ dst) (x : ℤ) :
    t.move asset src dst x asset src = t asset src - x := by
  simp only [move, credit, true_and, if_neg h, if_true]
  omega

theorem move_dst (t : Tokens) (asset : Address) {src dst : Address} (h : src ≠ dst) (x : ℤ) :
    t.move asset src dst x asset dst = t asset dst + x := by
  simp [move, credit, h.symm]

theorem move_other (t : Tokens) (asset : Address) {src dst holder : Address} (hs : holder ≠ src)
    (hd : holder ≠ dst) (x : ℤ) : t.move asset src dst x asset holder = t asset holder := by
  simp [move, credit, hs, hd]

theorem move_of_ne_src (t : Tokens) (asset : Address) {src holder : Address} (h : holder ≠ src)
    (dst : Address) (x : ℤ) :
    t.move asset src dst x asset holder = t asset holder + if holder = dst then x else 0 := by
  by_cases hd : holder = dst
  · subst hd
    rw [move_dst t asset h.symm, if_pos rfl]
  · rw [move_other t asset h hd, if_neg hd, add_zero]

@[simp] theorem move_zero (t : Tokens) (asset src dst : Address) : t.move asset src dst 0 = t := by
  funext a h
  simp [move, credit]

theorem move_self (t : Tokens) (asset holder : Address) (x : ℤ) :
    t.move asset holder holder x = t := by
  funext a h
  by_cases hk : a = asset ∧ h = holder
  · simp only [move, credit, if_pos hk]
    omega
  · simp only [move, credit, if_neg hk]

theorem le_move_src (t : Tokens) (asset src dst : Address) {x : ℤ} (hx : 0 ≤ x) :
    t asset src - x ≤ t.move asset src dst x asset src := by
  by_cases h : src = dst
  · rw [h, move_self]
    omega
  · rw [move_src t asset h]

theorem credit_comm (t : Tokens) (a h b k : Address) (x y : ℤ) :
    (t.credit a h x).credit b k y = (t.credit b k y).credit a h x := by
  funext c holder
  unfold credit
  split <;> split <;> omega

theorem move_right_comm (t : Tokens) (asset src dst dst' : Address) (x y : ℤ) :
    (t.move asset src dst x).move asset src dst' y =
      (t.move asset src dst' y).move asset src dst x := by
  have hpaid := credit_comm (t.credit asset src (-x)) asset dst asset src x (-y)
  have hback := credit_comm (t.credit asset src (-y)) asset src asset dst' (-x) y
  unfold move
  rw [hpaid, credit_comm t asset src asset src (-x) (-y), credit_comm _ asset dst asset dst' x y, hback]

def moveAll (t : Tokens) (asset src : Address) (l : List (Address × ℤ)) : Tokens :=
  l.foldl (fun t e => t.move asset src e.1 e.2) t

theorem moveAll_other_asset (t : Tokens) {a asset : Address} (h : a ≠ asset) (src : Address)
    (l : List (Address × ℤ)) (holder : Address) : t.moveAll asset src l a holder = t a holder := by
  induction l generalizing t with
  | nil => rfl
  | cons e l ih =>
    have hrest := ih (t.move asset src e.1 e.2)
    rw [move_other_asset t h] at hrest
    exact hrest

theorem moveAll_src (t : Tokens) (asset src : Address) (l : List (Address × ℤ)) :
    t.moveAll asset src l asset src = t asset src - ((l.filter (·.1 ≠ src)).map Prod.snd).sum := by
  induction l generalizing t with
  | nil => simp [moveAll]
  | cons e l ih =>
    have hrest := ih (t.move asset src e.1 e.2)
    have hstep : t.moveAll asset src (e :: l) = (t.move asset src e.1 e.2).moveAll asset src l := rfl
    rw [hstep, hrest]
    by_cases he : e.1 = src
    · simp [he, move_self]
    · rw [move_src t asset (Ne.symm he), List.filter_cons_of_pos (by simpa using he), List.map_cons,
        List.sum_cons]
      omega

theorem moveAll_of_ne (t : Tokens) (asset : Address) {src holder : Address} (h : holder ≠ src)
    (l : List (Address × ℤ)) : t.moveAll asset src l asset holder =
      t asset holder + ((l.filter (·.1 = holder)).map Prod.snd).sum := by
  induction l generalizing t with
  | nil => simp [moveAll]
  | cons e l ih =>
    have hrest := ih (t.move asset src e.1 e.2)
    have hstep : t.moveAll asset src (e :: l) = (t.move asset src e.1 e.2).moveAll asset src l := rfl
    rw [hstep, hrest, move_of_ne_src t asset h]
    by_cases he : e.1 = holder
    · rw [if_pos he.symm, List.filter_cons_of_pos (by simpa using he), List.map_cons, List.sum_cons]
      omega
    · rw [if_neg (Ne.symm he), List.filter_cons_of_neg (by simpa using he)]
      omega

end Tokens

/-- A token as its caller meets it: a transfer leaves balances, or it is refused, maybe with
an error code of the token. -/
structure TokenContract where
  transfer : Env → Tokens → (asset src dst : Address) → ℤ → Except Fault Tokens

instance : Coe TokenRule TokenContract where
  coe rule := ⟨Tokens.transfer rule⟩

end YieldLadder
