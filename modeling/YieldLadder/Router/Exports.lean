import YieldLadder.Router.VaultRouter
import YieldLadder.Soroban.ScVal

/-! # What the router and the vaults export

A call names an export and carries a list of contract values. The host hands it to the export when
there is one of that name, the list has the right length and every value the shape of its parameter.
-/
namespace YieldLadder
open Foundation ScVal

namespace VaultRouter

def positionArgs : Codec (List ScVal) (Address × Tier × Address × Unit) :=
  ofAddress.cons (ofTier.cons (ofAddress.cons .none))

def amountArgs : Codec (List ScVal) (Address × Tier × Address × ℤ × Unit) :=
  ofAddress.cons (ofTier.cons (ofAddress.cons (ofI128.cons .none)))

def assetArgs : Codec (List ScVal) (Address × Address × Unit) := ofAddress.cons (ofAddress.cons .none)

def initialiseArgs : Codec (List ScVal)
    (Address × Address × Address × Address × Address × Address × Address × List Address × Unit) :=
  ofAddress.cons (ofAddress.cons (ofAddress.cons (ofAddress.cons (ofAddress.cons (ofAddress.cons
    (ofAddress.cons ((ofVec.comp ofAddress.list).cons .none)))))))

/-- Four addresses, by the tier of the vault. -/
def vaultsOf (flex l3 l6 l12 : Address) : Tier → Address
  | .flex => flex
  | .l3 => l3
  | .l6 => l6
  | .l12 => l12

theorem vaultsOf_eta (vaults : Tier → Address) :
    vaultsOf (vaults .flex) (vaults .l3) (vaults .l6) (vaults .l12) = vaults := by
  funext t
  cases t <;> rfl

/-- The exports by name, each with how it takes its arguments. -/
def exports : List (String × (List ScVal → Option Call)) :=
  [("initialize", fun args => (initialiseArgs.decode args).map fun a =>
      .initialise a.1 a.2.1 a.2.2.1
        (vaultsOf a.2.2.2.1 a.2.2.2.2.1 a.2.2.2.2.2.1 a.2.2.2.2.2.2.1) a.2.2.2.2.2.2.2.1),
   ("pause", fun args => (Codec.none.decode args).map fun _ => .pause),
   ("unpause", fun args => (Codec.none.decode args).map fun _ => .unpause),
   ("is_paused", fun args => (Codec.none.decode args).map fun _ => .isPaused),
   ("deposit", fun args => (amountArgs.decode args).map fun a => .deposit a.1 a.2.1 a.2.2.1 a.2.2.2.1),
   ("withdraw", fun args => (amountArgs.decode args).map fun a => .withdraw a.1 a.2.1 a.2.2.1 a.2.2.2.1),
   ("early_exit", fun args => (amountArgs.decode args).map fun a => .earlyExit a.1 a.2.1 a.2.2.1 a.2.2.2.1),
   ("set_max_tvl", fun args => ((ofTier.cons (ofI128.cons .none)).decode args).map fun a => .setMaxTvl a.1 a.2.1),
   ("vault_capacity", fun args => ((ofTier.cons .none).decode args).map fun a => .vaultCapacity a.1),
   ("relock", fun args => (positionArgs.decode args).map fun a => .relock a.1 a.2.1 a.2.2.1),
   ("add_deposit_asset", fun args => (assetArgs.decode args).map fun a => .addDepositAsset a.1 a.2.1),
   ("remove_deposit_asset", fun args => (assetArgs.decode args).map fun a => .removeDepositAsset a.1 a.2.1),
   ("is_deposit_asset_allowed", fun args =>
      ((ofAddress.cons .none).decode args).map fun a => .isDepositAssetAllowed a.1),
   ("position", fun args => (positionArgs.decode args).map fun a => .position a.1 a.2.1 a.2.2.1),
   ("get_admin", fun args => (Codec.none.decode args).map fun _ => .getAdmin),
   ("get_guardian", fun args => (Codec.none.decode args).map fun _ => .getGuardian),
   ("get_vault", fun args => ((ofTier.cons .none).decode args).map fun a => .getVault a.1)]

def decode (method : String) (args : List ScVal) : Option Call := (exports.lookup method).bind (· args)

theorem decode_encode {α : Type} {c : Codec (List ScVal) α} {m : String} {f : α → Call}
    (h : exports.lookup m = some fun args => (c.decode args).map f) (a : α) : decode m (c.encode a) = some (f a) := by
  rw [decode, h, Option.bind_some]
  exact congrArg (Option.map f) (c.decode_encode a)

/-- The arguments as the callers of the contract encode them. -/
def Call.args : Call → List ScVal
  | .initialise admin governance guardian vaults initialAssets =>
    initialiseArgs.encode (admin, governance, guardian, vaults .flex, vaults .l3, vaults .l6, vaults .l12,
      initialAssets, ())
  | .deposit user tier asset amount => amountArgs.encode (user, tier, asset, amount, ())
  | .withdraw user tier asset amount => amountArgs.encode (user, tier, asset, amount, ())
  | .earlyExit user tier asset amount => amountArgs.encode (user, tier, asset, amount, ())
  | .setMaxTvl tier newCap => (ofTier.cons (ofI128.cons .none)).encode (tier, newCap, ())
  | .vaultCapacity tier => (ofTier.cons .none).encode (tier, ())
  | .relock user tier asset => positionArgs.encode (user, tier, asset, ())
  | .addDepositAsset admin asset => assetArgs.encode (admin, asset, ())
  | .removeDepositAsset admin asset => assetArgs.encode (admin, asset, ())
  | .isDepositAssetAllowed asset => (ofAddress.cons .none).encode (asset, ())
  | .position user tier asset => positionArgs.encode (user, tier, asset, ())
  | .getVault tier => (ofTier.cons .none).encode (tier, ())
  | _ => []

end VaultRouter

namespace TierVault

def keyArgs : Codec (List ScVal) (Address × Address × Unit) := ofAddress.cons (ofAddress.cons .none)

/-- The getters by name; a vault answers those it exports. -/
def getters : List (String × (List ScVal → Option Query)) :=
  [("balance", fun args => (keyArgs.decode args).map fun a => .balance a.1 a.2.1),
   ("shares", fun args => (keyArgs.decode args).map fun a => .shares a.1 a.2.1),
   ("lock_until", fun args => (keyArgs.decode args).map fun a => .lockUntil a.1 a.2.1),
   ("total_shares", fun args => (Codec.none.decode args).map fun _ => .totalShares),
   ("total_balance", fun args => (Codec.none.decode args).map fun _ => .totalBalance),
   ("max_tvl", fun args => (Codec.none.decode args).map fun _ => .maxTvl),
   ("remaining_capacity", fun args => (Codec.none.decode args).map fun _ => .remainingCapacity),
   ("emergency_unlock", fun args => ((ofAddress.cons .none).decode args).map fun a => .emergencyUnlock a.1)]

def decode (method : String) (args : List ScVal) : Option Query := (getters.lookup method).bind (· args)

end TierVault
end YieldLadder
