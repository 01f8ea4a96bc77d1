import Mathlib.Data.Int.Order.Basic
import Mathlib.Tactic.NormNum
import YieldLadder.Foundation.Fallible

/-! # The host: addresses, authorization, ledger and checked arithmetic

An address is an account, which can sign, or a contract, which cannot. The
release profile keeps overflow checks on, so every `i128`, `u32` and `u64`
operation either gives the mathematical result or ends the call; the values are
integers and naturals, and the checks are explicit.
-/
namespace YieldLadder
open Foundation

inductive Address
  | account (id : ℕ)
  | contract (id : ℕ)
  deriving DecidableEq, Repr

/-- Why a call ended without effect. `error` carries the code of a `panic_with_error!`,
`panic` the text of a `panic!`, `expect` or `assert!`. -/
inductive Fault
  | unauthorized
  | overflow
  | divisionByZero
  | error (code : ℕ)
  | panic (message : String)
  | insufficientBalance
  | negativeAmount
  | missingContract
  | missingFunction
  deriving DecidableEq, Repr

/-- What a contract sees of the invocation it runs in: the accounts that signed,
the contract that made the call directly, and the ledger sequence. -/
structure Env where
  signers : List ℕ
  caller : Option Address
  ledger : ℕ

namespace Env

/-- The authorization rule: an account that signed, or the direct caller. -/
def Authorized (env : Env) (a : Address) : Prop :=
  (∃ n ∈ env.signers, a = .account n) ∨ env.caller = some a

instance (env : Env) (a : Address) : Decidable (env.Authorized a) :=
  inferInstanceAs (Decidable ((∃ n ∈ env.signers, a = .account n) ∨ env.caller = some a))

def requireAuth (env : Env) (a : Address) : Except Fault Unit :=
  failIf (¬env.Authorized a) .unauthorized

/-- The environment of a call that contract `c` makes while it runs in `env`. -/
def calledBy (env : Env) (c : Address) : Env := { env with caller := some c }

@[simp] theorem requireAuth_eq_ok {env : Env} {a : Address} {u : Unit} :
    env.requireAuth a = .ok u ↔ env.Authorized a := by
  simp [requireAuth]

@[simp] theorem calledBy_ledger (env : Env) (c : Address) : (env.calledBy c).ledger = env.ledger := rfl

theorem authorized_calledBy (env : Env) (c : Address) : (env.calledBy c).Authorized c := Or.inr rfl

/-- A contract's authorization is only ever the direct call. -/
theorem authorized_contract {env : Env} {i : ℕ} :
    env.Authorized (.contract i) ↔ env.caller = some (.contract i) := by
  simp [Authorized]

end Env

def i128Min : ℤ := -2 ^ 127
def i128Max : ℤ := 2 ^ 127 - 1

def InI128 (x : ℤ) : Prop := i128Min ≤ x ∧ x ≤ i128Max

instance (x : ℤ) : Decidable (InI128 x) := inferInstanceAs (Decidable (_ ∧ _))

theorem inI128_of_le {x y : ℤ} (h0 : 0 ≤ x) (hxy : x ≤ y) (hy : InI128 y) : InI128 x :=
  ⟨le_trans (by decide) h0, hxy.trans hy.2⟩

def inI128 (x : ℤ) : Except Fault ℤ := if InI128 x then .ok x else .error .overflow

def addI128 (a b : ℤ) : Except Fault ℤ := inI128 (a + b)
def subI128 (a b : ℤ) : Except Fault ℤ := inI128 (a - b)
def mulI128 (a b : ℤ) : Except Fault ℤ := inI128 (a * b)

/-- Division truncates toward zero. -/
def divI128 (a b : ℤ) : Except Fault ℤ := do
  failIf (b = 0) .divisionByZero
  inI128 (a.tdiv b)

def addU32 (a b : ℕ) : Except Fault ℕ := if a + b < 2 ^ 32 then .ok (a + b) else .error .overflow
def addU64 (a b : ℕ) : Except Fault ℕ := if a + b < 2 ^ 64 then .ok (a + b) else .error .overflow

@[simp] theorem inI128_eq_ok {x y : ℤ} : inI128 x = .ok y ↔ InI128 x ∧ x = y := by
  unfold inI128
  split <;> simp_all

@[simp] theorem addI128_eq_ok {a b y : ℤ} : addI128 a b = .ok y ↔ InI128 (a + b) ∧ a + b = y :=
  inI128_eq_ok

@[simp] theorem subI128_eq_ok {a b y : ℤ} : subI128 a b = .ok y ↔ InI128 (a - b) ∧ a - b = y :=
  inI128_eq_ok

@[simp] theorem mulI128_eq_ok {a b y : ℤ} : mulI128 a b = .ok y ↔ InI128 (a * b) ∧ a * b = y :=
  inI128_eq_ok

@[simp] theorem divI128_eq_ok {a b y : ℤ} :
    divI128 a b = .ok y ↔ b ≠ 0 ∧ InI128 (a.tdiv b) ∧ a.tdiv b = y := by
  simp [divI128]

@[simp] theorem addU32_eq_ok {a b y : ℕ} : addU32 a b = .ok y ↔ a + b < 2 ^ 32 ∧ a + b = y := by
  unfold addU32
  split <;> simp_all

@[simp] theorem addU64_eq_ok {a b y : ℕ} : addU64 a b = .ok y ↔ a + b < 2 ^ 64 ∧ a + b = y := by
  unfold addU64
  split <;> simp_all

theorem inI128_fails (x : ℤ) : FailsOnly (· = Fault.overflow) (inI128 x) := by
  intro e h
  unfold inI128 at h
  split at h <;> cases h
  rfl

theorem divI128_fails (a : ℤ) {b : ℤ} (hb : b ≠ 0) : FailsOnly (· = Fault.overflow) (divI128 a b) :=
  .bind (.of_ok (failIf_of_not hb)) fun _ _ => inI128_fails _

theorem addU32_fails (a b : ℕ) : FailsOnly (· = Fault.overflow) (addU32 a b) := by
  intro e h
  unfold addU32 at h
  split at h <;> cases h
  rfl

/-- Seven decimal places, the precision of a stroop. -/
def SCALING_FACTOR : ℤ := 10_000_000

/-- Fixed-point product: the exact product, checked, then truncated. -/
def mulFp (a bFp : ℤ) : Except Fault ℤ := do
  let product ← mulI128 a bFp
  divI128 product SCALING_FACTOR

@[simp] theorem mulFp_eq_ok {a b y : ℤ} : mulFp a b = .ok y ↔
    InI128 (a * b) ∧ InI128 ((a * b).tdiv SCALING_FACTOR) ∧ (a * b).tdiv SCALING_FACTOR = y := by
  simp [mulFp, SCALING_FACTOR]

theorem mulFp_fails (a bFp : ℤ) : FailsOnly (· = Fault.overflow) (mulFp a bFp) :=
  .bind (inI128_fails _) fun _ _ => divI128_fails _ (by decide)

end YieldLadder
