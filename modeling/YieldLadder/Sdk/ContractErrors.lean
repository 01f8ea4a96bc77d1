import YieldLadder.Foundation.Decimal
import YieldLadder.Router.Codes
import YieldLadder.Sdk.Transactions

/-! # The error of a rejected simulation

The host writes the code of a contract error into the text of the simulation, where the SDK
looks for it, and names an error after the code and the method. The codes of the router, of
the locked vaults and of the token overlap. The first two are told apart, because of who can
raise what; a code of the token below 8 is taken for one of theirs.
-/
namespace YieldLadder.Sdk
open Foundation Foundation.EcmaScript

def marker : List Char := "Error(Contract,".toList

def rendered (code : ℕ) : List Char := marker ++ ' ' :: '#' :: (Nat.toDigits 10 code ++ [')'])

/-- How the host reports a call that ended: the code of a contract error where there is one, and nothing of the
kind before it or where there is none. -/
structure HostReport (report : Fault → String) : Prop where
  coded : ∀ code, ∃ before after, ¬marker <:+: before ∧
    (report (.error code)).toList = before ++ rendered code ++ after
  uncoded : ∀ e : Fault, e.code = none → ¬marker <:+: (report e).toList

/-- The symbol by which the SDK invokes the router. -/
def method : VaultRouter.Call → String
  | .initialise _ _ _ _ _ => "initialize"
  | .pause => "pause"
  | .unpause => "unpause"
  | .isPaused => "is_paused"
  | .deposit _ _ _ _ => "deposit"
  | .withdraw _ _ _ _ => "withdraw"
  | .earlyExit _ _ _ _ => "early_exit"
  | .setMaxTvl _ _ => "set_max_tvl"
  | .vaultCapacity _ => "vault_capacity"
  | .relock _ _ _ => "relock"
  | .addDepositAsset _ _ => "add_deposit_asset"
  | .removeDepositAsset _ _ => "remove_deposit_asset"
  | .isDepositAssetAllowed _ => "is_deposit_asset_allowed"
  | .position _ _ _ => "position"
  | .getAdmin => "get_admin"
  | .getGuardian => "get_guardian"
  | .getVault _ => "get_vault"

section Text
variable {text before after : List Char} {code : ℕ}

theorem matchContractError_eq_none (h : ¬marker <+: text) : matchContractError text = none := by
  unfold matchContractError
  exact if_neg h

theorem findContractError_eq_none (h : ¬marker <:+: text) : findContractError text = none := by
  induction text with
  | nil => rfl
  | cons c rest ih =>
    have hhere : ¬marker <+: c :: rest := fun hprefix => h hprefix.isInfix
    have hlater : ¬marker <:+: rest := fun hoccurs => h (hoccurs.trans (List.suffix_cons c rest).isInfix)
    rw [findContractError, matchContractError_eq_none hhere, ih hlater]
    rfl

/-- The marker has its first letter once, so it does not begin before a text that begins with that letter and end
in it. -/
theorem not_starts_marker {c : Char} {rest : List Char} (h : ¬marker <:+: c :: before)
    (hrest : rest.head? = some 'E') : ¬marker <+: c :: before ++ rest := by
  have honce : ∀ k < marker.length, 0 < k → marker[k]? ≠ some 'E' := by decide
  intro hprefix
  rcases Nat.lt_or_ge (c :: before).length marker.length with hshort | hlong
  · refine honce _ hshort (Nat.succ_pos _) ?_
    obtain ⟨tail, htail⟩ := hprefix
    have hsame : (marker ++ tail)[(c :: before).length]? = (c :: before ++ rest)[(c :: before).length]? := by
      rw [htail]
    rwa [List.getElem?_append_left hshort, List.getElem?_append_right (Nat.le_refl _), Nat.sub_self,
      ← List.head?_eq_getElem?, hrest] at hsame
  · exact h (List.prefix_of_prefix_length_le hprefix (List.prefix_append _ _) hlong).isInfix

theorem findContractError_append {rest : List Char} (h : ¬marker <:+: before) (hrest : rest.head? = some 'E') :
    findContractError (before ++ rest) = findContractError rest := by
  induction before with
  | nil => rfl
  | cons c before ih =>
    have hlater : ¬marker <:+: before := fun hoccurs => h (hoccurs.trans (List.suffix_cons c before).isInfix)
    rw [List.cons_append, findContractError, ← List.cons_append,
      matchContractError_eq_none (not_starts_marker h hrest), ih hlater]
    rfl

theorem matchContractError_rendered (code : ℕ) (after : List Char) :
    matchContractError (rendered code ++ after) = some (Nat.toDigits 10 code) := by
  have hdigits : ∀ c ∈ Nat.toDigits 10 code, c.isDigit = true :=
    fun c hc => Nat.isDigit_of_mem_toDigits (by decide) (by decide) hc
  have htake : (Nat.toDigits 10 code ++ ')' :: after).takeWhile Char.isDigit = Nat.toDigits 10 code := by
    rw [List.takeWhile_append_of_pos hdigits]
    simp
  have hdrop : (Nat.toDigits 10 code ++ ')' :: after).dropWhile Char.isDigit = ')' :: after := by
    rw [List.dropWhile_append_of_pos hdigits]
    simp
  have htext : rendered code ++ after = marker ++ (' ' :: '#' :: (Nat.toDigits 10 code ++ ')' :: after)) := by
    simp [rendered]
  have hspace : (' ' :: '#' :: (Nat.toDigits 10 code ++ ')' :: after)).dropWhile (isWhiteSpace ·.toNat) =
      '#' :: (Nat.toDigits 10 code ++ ')' :: after) := rfl
  have hmarker : "Error(Contract,".toList = marker := rfl
  obtain ⟨first, rest, hdigit⟩ := List.exists_cons_of_ne_nil (Nat.toDigits_ne_nil (n := code) (b := 10))
  simp only [matchContractError, hmarker, htext, List.prefix_append, if_true, List.drop_left]
  simp only [hspace, htake, hdrop]
  rw [hdigit]
  rfl

theorem number_toDigits (code : ℕ) : number (Nat.toDigits 10 code) = code := numeral_decimal code

theorem findContractError_rendered (h : ¬marker <:+: before) :
    findContractError (before ++ rendered code ++ after) = some (Nat.toDigits 10 code) := by
  rw [List.append_assoc, findContractError_append h rfl]
  have hmatch := matchContractError_rendered code after
  obtain ⟨c, rest, hcons⟩ : ∃ c rest, rendered code ++ after = c :: rest := ⟨_, _, rfl⟩
  rw [hcons] at hmatch ⊢
  rw [findContractError, hmatch]
  rfl

variable {report : Fault → String} {S : Type}

theorem HostReport.thrown_of_code (hr : HostReport report) (code : ℕ) (method : String) :
    throwIfSimulationFailed (.error (report (.error code)) : SimulateTransactionResponse S) method =
      .error (.ladder (mapContractError method code (report (.error code)))) := by
  obtain ⟨before, after, hbefore, htext⟩ := hr.coded code
  have hfind : findContractError (report (.error code)).toList = some (Nat.toDigits 10 code) := by
    rw [htext]
    exact findContractError_rendered hbefore
  simp only [throwIfSimulationFailed, hfind, number_toDigits]

theorem HostReport.thrown_of_none (hr : HostReport report) {e : Fault} (he : e.code = none) (method : String) :
    throwIfSimulationFailed (.error (report e) : SimulateTransactionResponse S) method =
      .error (.ladder (.simulationFailed ("Simulating \"" ++ method ++ "\" failed: " ++ report e) (report e))) := by
  simp only [throwIfSimulationFailed, findContractError_eq_none (hr.uncoded e he)]

end Text

/-- The token refused the transfer of the call with this code. -/
def Refused (D : Deployment) (token : TokenContract) (w : World) (env : Env) : VaultRouter.Call → ℕ → Prop
  | .deposit user tier asset amount, code =>
    token.transfer (env.calledBy D.router) w.tokens asset user (D.vault tier) amount = .error (.error code)
  | .withdraw user tier asset amount, code => ∃ v p, w.vaults (D.vault tier) = some v ∧
    v.Owes (env.calledBy D.router) (.withdraw user asset amount) p ∧
    token.transfer (env.calledBy D.router) w.tokens asset (D.vault tier) user p = .error (.error code)
  | .earlyExit user tier asset amount, code => ∃ v p, w.vaults (D.vault tier) = some v ∧
    v.Owes (env.calledBy D.router) (.earlyExit user asset amount) p ∧
    token.transfer (env.calledBy D.router) w.tokens asset (D.vault tier) user p = .error (.error code)
  | _, _ => False

/-- What the error says of the deployment that the call was simulated in. -/
def Holds (D : Deployment) (token : TokenContract) (w : World) (env : Env) (call : VaultRouter.Call) :
    YieldLadderError → Prop
  | .protocolPaused => VaultRouter.isPaused w.router = true
  | .assetNotAllowed => ∃ user tier asset amount, call = .deposit user tier asset amount ∧
      w.router.allowlist.isAssetAllowed asset = false
  | .belowMinDeposit => ∃ user tier asset amount, call = .deposit user tier asset amount ∧
      amount < VaultRouter.minDeposit tier
  | .depositCapExceeded => ∃ user tier asset amount v, call = .deposit user tier asset amount ∧
      w.vaults (D.vault tier) = some v ∧ v.Full amount
  | .lockNotExpired => ∃ user tier asset amount v, call = .withdraw user tier asset amount ∧
      w.vaults (D.vault tier) = some v ∧ v.StillLocked env.ledger user asset
  | .amountExceedsBalance => ∃ user tier asset amount v,
      (call = .withdraw user tier asset amount ∨ call = .earlyExit user tier asset amount) ∧
      w.vaults (D.vault tier) = some v ∧ v.Short user asset amount
  | .notYetMatured => ∃ user tier asset v, call = .relock user tier asset ∧
      w.vaults (D.vault tier) = some v ∧ env.ledger < v.locks.getD (user, asset) 0
  | .vaultContract code _ => Refused D token w env call code
  | .simulationFailed _ _ => True
  | _ => False

section Truth
variable {D : Deployment} {rule : TokenRule} {token : TokenContract} {w : World} {env : Env}
variable {call : VaultRouter.Call} {code : ℕ} {report : Fault → String} {S : Type} {e : Fault}

/-- The codes that the router and the vaults do not use keep their number. -/
theorem holds_of_refused (h : Refused D token w env call code) (hcode : code < 1 ∨ 7 < code) (raw : String) :
    Holds D token w env call (mapContractError (method call) code raw) := by
  have hname : mapContractError (method call) code raw = .vaultContract code raw := by
    unfold mapContractError
    split <;> first | rfl | omega
  rw [hname]
  exact h

/-- The name given to a code is the name of what raised it, or the code is the token's and has a name already. -/
theorem holds_of_cause (h : D.Cause token w env call code) (raw : String) :
    Holds D token w env call (mapContractError (method call) code raw) ∨
      Refused D token w env call code ∧ 1 ≤ code ∧ code ≤ 7 := by
  have htoken : Refused D token w env call code →
      Holds D token w env call (mapContractError (method call) code raw) ∨
        Refused D token w env call code ∧ 1 ≤ code ∧ code ≤ 7 := by
    intro hrefused
    by_cases hnamed : 1 ≤ code ∧ code ≤ 7
    · exact .inr ⟨hrefused, hnamed⟩
    · exact .inl (holds_of_refused hrefused (by omega) raw)
  cases h with
  | protocolPaused _ hgate hp => exact .inl hp
  | assetNotAllowed user tier asset amount _ _ hlisted => exact .inl ⟨user, tier, asset, amount, rfl, hlisted⟩
  | belowMinDeposit user tier asset amount _ hlt => exact .inl ⟨user, tier, asset, amount, rfl, hlt⟩
  | paymentRefused user tier asset amount _ _ _ hrefused => exact htoken hrefused
  | depositCapExceeded user tier asset amount _ _ _ _ v hv hfull =>
    exact .inl ⟨user, tier, asset, amount, v, rfl, hv, hfull⟩
  | lockNotExpired user tier asset amount _ _ v hv hlock =>
    exact .inl ⟨user, tier, asset, amount, v, rfl, hv, hlock⟩
  | exceedsBalance user tier asset amount _ _ v hv _ hshort =>
    exact .inl ⟨user, tier, asset, amount, v, .inl rfl, hv, hshort⟩
  | exceedsBalanceEarly user tier asset amount _ _ v hv hshort =>
    exact .inl ⟨user, tier, asset, amount, v, .inr rfl, hv, hshort⟩
  | withdrawalRefused user tier asset amount p _ _ _ v hv hp hrefused => exact htoken ⟨v, p, hv, hp, hrefused⟩
  | earlyExitRefused user tier asset amount p _ _ _ v hv hp hrefused => exact htoken ⟨v, p, hv, hp, hrefused⟩
  | notYetMatured user tier asset _ v hv hlt => exact .inl ⟨user, tier, asset, v, rfl, hv, hlt⟩

theorem mapContractError_named (method : String) (code : ℕ) (raw message other : String) :
    mapContractError method code raw ≠ .simulationFailed message other := by
  unfold mapContractError
  split <;> try split
  all_goals rintro ⟨⟩

/-- In every state that a run from a fresh deployment reaches, and whatever the token answers there, what the SDK
makes of a rejected simulation of a user-facing call holds there, unless the token refused with a code from 1 to 7;
and it names a check exactly when one with a code failed. -/
theorem run_explained (hr : HostReport report) {w : World} (hf : D.Fresh w) (hg : D.Guards rule)
    {cs : List World.Invocation} (hcs : ∀ c ∈ cs, D.Admits c) (hc : call.UserFacing)
    (he : VaultRouter.step token D.router env (run (World.exec rule D.router) w cs) call = .error e) :
    ∃ error, throwIfSimulationFailed (.error (report e) : SimulateTransactionResponse S) (method call) =
        .error (.ladder error) ∧
      (Holds D token (run (World.exec rule D.router) w cs) env call error ∨
        ∃ code, Refused D token (run (World.exec rule D.router) w cs) env call code ∧ 1 ≤ code ∧ code ≤ 7 ∧
          error = mapContractError (method call) code (report e)) ∧
      ((∃ message raw, error = .simulationFailed message raw) ↔
        ∀ code, ¬D.Cause token (run (World.exec rule D.router) w cs) env call code) := by
  have hw := Deployment.run_wired hf.wired hg hcs
  cases hcode : e.code with
  | none =>
    refine ⟨_, hr.thrown_of_none hcode (method call), .inl trivial,
      iff_of_true ⟨_, _, rfl⟩ fun code hcause => ?_⟩
    rw [← Deployment.step_eq_error hw hc, he] at hcause
    cases hcause
    cases hcode
  | some code =>
    obtain rfl : e = .error code := by
      cases e <;> cases hcode
      rfl
    have hcause := (Deployment.step_eq_error hw hc).mp he
    refine ⟨_, hr.thrown_of_code code (method call), ?_, iff_of_false ?_ fun hno => hno code hcause⟩
    · refine (holds_of_cause hcause _).imp_right ?_
      rintro ⟨hrefused, hlow, hhigh⟩
      exact ⟨code, hrefused, hlow, hhigh, rfl⟩
    · rintro ⟨message, raw, heq⟩
      exact mapContractError_named _ code _ message raw heq

open Deployment (assetContract harness harnessWorld usdc harness_fresh guards_host signed admits_signed)

def hostError : Fault → String
  | .error code => String.ofList ("HostError: ".toList ++ rendered code)
  | _ => "HostError: Error(WasmVm, InvalidAction)"

theorem hostError_of_none {e : Fault} (he : e.code = none) :
    hostError e = "HostError: Error(WasmVm, InvalidAction)" := by
  cases e with
  | error code => cases he
  | _ => rfl

theorem hostError_report : HostReport hostError := by
  have hletter : 'C' ∈ marker := by
    unfold marker
    simp
  constructor
  · intro code
    have hbefore : ¬marker <:+: "HostError: ".toList := by
      intro h
      have hfree : 'C' ∉ "HostError: ".toList := by simp
      exact hfree (h.subset hletter)
    have htext : (hostError (.error code)).toList = "HostError: ".toList ++ rendered code := String.toList_ofList
    exact ⟨_, [], hbefore, htext.trans (List.append_nil _).symm⟩
  · intro e he
    have hfree : 'C' ∉ (hostError e).toList := by
      rw [hostError_of_none he]
      simp
    exact fun h => hfree (h.subset hletter)

/-- Account 8 has less than it deposits and the asset contract refuses with code 10: the SDK passes the code on,
and the code is the token's. -/
theorem run_explained_short : ∃ error,
    throwIfSimulationFailed (.error (hostError (.error 10)) : SimulateTransactionResponse Unit) "deposit" =
        .error (.ladder error) ∧
      (Holds harness (assetContract .host) (run (World.exec .host harness.router) harnessWorld
          [signed 1 (.deposit (.account 7) .l3 usdc 500_000_000)]) ⟨[7, 8], none, 2⟩
          (.deposit (.account 8) .l3 usdc 30_000_000_000) error ∨
        ∃ code, Refused harness (assetContract .host) (run (World.exec .host harness.router) harnessWorld
            [signed 1 (.deposit (.account 7) .l3 usdc 500_000_000)]) ⟨[7, 8], none, 2⟩
            (.deposit (.account 8) .l3 usdc 30_000_000_000) code ∧ 1 ≤ code ∧ code ≤ 7 ∧
          error = mapContractError "deposit" code (hostError (.error 10))) ∧
      ((∃ message raw, error = .simulationFailed message raw) ↔
        ∀ code, ¬harness.Cause (assetContract .host) (run (World.exec .host harness.router) harnessWorld
            [signed 1 (.deposit (.account 7) .l3 usdc 500_000_000)]) ⟨[7, 8], none, 2⟩
          (.deposit (.account 8) .l3 usdc 30_000_000_000) code) :=
  run_explained hostError_report harness_fresh guards_host (by simp [admits_signed]) (.deposit _ _ _ _) rfl

end Truth
end YieldLadder.Sdk
