import YieldLadder.Vault.Locked

/-! # The three locked vaults, entry by entry

VaultL3, VaultL6 and VaultL12 are three hand copies of one contract. Here each is
written down on its own, on the level of its storage: an entry for every key, read
with its default and written in the order of the source, with the numbers that
stand in the text. VaultL3 reads the emergency flag of the asset as well, before
the lock in a withdrawal and after the balance in an early exit.
-/
namespace YieldLadder
open Foundation

/-- The storage of a locked vault, a field for each kind of key. Only VaultL3 has the keys
`Guardian` and `EmergencyUnlock`. -/
structure Entries where
  totalShares : Option ℤ
  totalBalance : Option ℤ
  admin : Option Address
  governance : Option Address
  guardian : Option Address
  strategy : Option Address
  usdc : Option Address
  maxTvl : Option ℤ
  balance : Store Key ℤ
  shares : Store Key ℤ
  lockUntil : Store Key ℕ
  checkpoint : Store Key ℕ
  emergencyUnlock : Store Address Bool

namespace Entries

def DEFAULT_MAX_TVL : ℤ := 10_000_000_000_000

/-- The read-only entry points, the same in the three texts. -/
def answer (st : Entries) : Query → Except Fault Value
  | .balance user asset => pure (.i128 (st.balance.getD (user, asset) 0))
  | .shares user asset => pure (.i128 (st.shares.getD (user, asset) 0))
  | .lockUntil user asset => pure (.u32 (st.lockUntil.getD (user, asset) 0))
  | .totalShares => pure (.i128 (st.totalShares.getD 0))
  | .totalBalance => pure (.i128 (st.totalBalance.getD 0))
  | .maxTvl => pure (.i128 (st.maxTvl.getD DEFAULT_MAX_TVL))
  | .remainingCapacity => do
    let remaining ← subI128 (st.maxTvl.getD DEFAULT_MAX_TVL) (st.totalBalance.getD 0)
    pure (.i128 (max remaining 0))
  | .emergencyUnlock _ => throw .missingFunction

namespace VaultL3

def initialise (env : Env) (st : Entries) (admin governance guardian strategy usdc : Address)
    (maxTvl : ℤ) : Except Fault Entries := do
  env.requireAuth admin
  let st := { st with admin := some admin }
  let st := { st with governance := some governance }
  let st := { st with guardian := some guardian }
  let st := { st with strategy := some strategy }
  let st := { st with usdc := some usdc }
  let st := { st with totalShares := some 0 }
  let st := { st with totalBalance := some 0 }
  let cap := if maxTvl > 0 then maxTvl else DEFAULT_MAX_TVL
  pure { st with maxTvl := some cap }

def setEmergencyUnlock (env : Env) (st : Entries) (asset : Address) (active : Bool) :
    Except Fault Entries := do
  let guardian ← expect (.panic "not initialized") st.guardian
  env.requireAuth guardian
  pure { st with emergencyUnlock := st.emergencyUnlock.set asset active }

def deposit (env : Env) (st : Entries) (user asset : Address) (amount : ℤ) :
    Except Fault (Entries × Reply) := do
  let admin ← expect (.panic "not initialized") st.admin
  env.requireAuth admin
  failIf (amount < 500_000_000) VaultError.belowMinDeposit.fault
  let totalBalance := st.totalBalance.getD 0
  let maxTvl := st.maxTvl.getD DEFAULT_MAX_TVL
  let raised ← addI128 totalBalance amount
  failIf (raised > maxTvl) VaultError.depositCapExceeded.fault
  let newShares ← mulFp amount 10_500_000
  let currentBalance := st.balance.getD (user, asset) 0
  let currentShares := st.shares.getD (user, asset) 0
  let newBalance ← addI128 currentBalance amount
  let st := { st with balance := st.balance.set (user, asset) newBalance }
  let allShares ← addI128 currentShares newShares
  let st := { st with shares := st.shares.set (user, asset) allShares }
  let totalShares := st.totalShares.getD 0
  let moreShares ← addI128 totalShares newShares
  let st := { st with totalShares := some moreShares }
  let moreBalance ← addI128 totalBalance amount
  let st := { st with totalBalance := some moreBalance }
  let lockUntil ← addU32 env.ledger 777_600
  let st := { st with lockUntil := st.lockUntil.set (user, asset) lockUntil }
  let checkpoint ← addU32 env.ledger 1
  let st := { st with checkpoint := st.checkpoint.set (user, asset) checkpoint }
  pure (st, ⟨.unit, [.deposit user asset amount]⟩)

def doWithdraw (env : Env) (st : Entries) (user asset : Address) (amount : ℤ) :
    Except Fault (Entries × ℤ) := do
  let admin ← expect (.panic "not initialized") st.admin
  env.requireAuth admin
  let emergency := st.emergencyUnlock.getD asset false
  if emergency then pure () else do
    let lockUntil := st.lockUntil.getD (user, asset) 0
    failIf (env.ledger < lockUntil) VaultError.lockNotExpired.fault
  let balance := st.balance.getD (user, asset) 0
  let userShares := st.shares.getD (user, asset) 0
  let totalShares := st.totalShares.getD 0
  failIf (amount > balance) VaultError.amountExceedsBalance.fault
  if amount ≥ balance then do
    let totalBalance := st.totalBalance.getD 0
    let lessShares ← subI128 totalShares userShares
    let st := { st with totalShares := some lessShares }
    let lessBalance ← subI128 totalBalance balance
    let st := { st with totalBalance := some (max lessBalance 0) }
    let st := { st with balance := st.balance.remove (user, asset) }
    let st := { st with shares := st.shares.remove (user, asset) }
    let st := { st with lockUntil := st.lockUntil.remove (user, asset) }
    let st := { st with checkpoint := st.checkpoint.remove (user, asset) }
    pure (st, balance)
  else do
    let product ← mulI128 userShares amount
    let sharesToBurn ← divI128 product balance
    let totalBalance := st.totalBalance.getD 0
    let newBalance ← subI128 balance amount
    let st := { st with balance := st.balance.set (user, asset) newBalance }
    let newShares ← subI128 userShares sharesToBurn
    let st := { st with shares := st.shares.set (user, asset) newShares }
    let lessShares ← subI128 totalShares sharesToBurn
    let st := { st with totalShares := some lessShares }
    let lessBalance ← subI128 totalBalance amount
    let st := { st with totalBalance := some lessBalance }
    pure (st, amount)

def withdraw (env : Env) (st : Entries) (user asset : Address) (amount : ℤ) :
    Except Fault (Entries × Reply) := do
  let (st, payout) ← doWithdraw env st user asset amount
  pure (st, ⟨.i128 payout, [.withdraw user asset payout]⟩)

def doEarlyExit (env : Env) (st : Entries) (user asset : Address) (amount : ℤ) :
    Except Fault (Entries × ℤ) := do
  let admin ← expect (.panic "not initialized") st.admin
  env.requireAuth admin
  let balance := st.balance.getD (user, asset) 0
  let userShares := st.shares.getD (user, asset) 0
  let totalShares := st.totalShares.getD 0
  failIf (amount > balance) VaultError.amountExceedsBalance.fault
  let emergency := st.emergencyUnlock.getD asset false
  let netAmount ← if emergency then pure amount else do
    let fee ← mulFp amount 50_000
    subI128 amount fee
  if amount ≥ balance then do
    let totalBalance := st.totalBalance.getD 0
    let lessShares ← subI128 totalShares userShares
    let st := { st with totalShares := some lessShares }
    let lessBalance ← subI128 totalBalance balance
    let st := { st with totalBalance := some (max lessBalance 0) }
    let st := { st with balance := st.balance.remove (user, asset) }
    let st := { st with shares := st.shares.remove (user, asset) }
    let st := { st with lockUntil := st.lockUntil.remove (user, asset) }
    let st := { st with checkpoint := st.checkpoint.remove (user, asset) }
    pure (st, netAmount)
  else do
    let product ← mulI128 userShares amount
    let sharesToBurn ← divI128 product balance
    let totalBalance := st.totalBalance.getD 0
    let newBalance ← subI128 balance amount
    let st := { st with balance := st.balance.set (user, asset) newBalance }
    let newShares ← subI128 userShares sharesToBurn
    let st := { st with shares := st.shares.set (user, asset) newShares }
    let lessShares ← subI128 totalShares sharesToBurn
    let st := { st with totalShares := some lessShares }
    let lessBalance ← subI128 totalBalance amount
    let st := { st with totalBalance := some lessBalance }
    pure (st, netAmount)

def earlyExit (env : Env) (st : Entries) (user asset : Address) (amount : ℤ) :
    Except Fault (Entries × Reply) := do
  let (st, netAmount) ← doEarlyExit env st user asset amount
  pure (st, ⟨.i128 netAmount, [.earlyExit user asset netAmount]⟩)

def setMaxTvl (env : Env) (st : Entries) (newCap : ℤ) : Except Fault Entries := do
  let governance ← expect (.panic "called `Option::unwrap()` on a `None` value") st.governance
  env.requireAuth governance
  pure { st with maxTvl := some newCap }

def relock (env : Env) (st : Entries) (user asset : Address) : Except Fault (Entries × ℕ) := do
  let admin ← expect (.panic "not initialized") st.admin
  env.requireAuth admin
  let lockUntil := st.lockUntil.getD (user, asset) 0
  failIf (env.ledger < lockUntil) VaultError.notYetMatured.fault
  let newLockUntil ← addU32 env.ledger 777_600
  let st := { st with lockUntil := st.lockUntil.set (user, asset) newLockUntil }
  pure (st, newLockUntil)

def step (env : Env) (st : Entries) : VaultCall → Except Fault (Entries × Reply)
  | .initialise (.guarded admin governance guardian strategy usdc maxTvl) => do
    let st ← initialise env st admin governance guardian strategy usdc maxTvl
    pure (st, ⟨.unit, []⟩)
  | .initialise _ => throw .missingFunction
  | .deposit user asset amount => deposit env st user asset amount
  | .withdraw user asset amount => withdraw env st user asset amount
  | .earlyExit user asset amount => earlyExit env st user asset amount
  | .relock user asset => do
    let (st, lock) ← relock env st user asset
    pure (st, ⟨.u32 lock, []⟩)
  | .setMaxTvl newCap => do
    let st ← setMaxTvl env st newCap
    pure (st, ⟨.unit, []⟩)
  | .setEmergencyUnlock asset active => do
    let st ← setEmergencyUnlock env st asset active
    pure (st, ⟨.unit, []⟩)
  | .query (.emergencyUnlock asset) => pure (st, ⟨.bool (st.emergencyUnlock.getD asset false), []⟩)
  | .query q => do
    let value ← answer st q
    pure (st, ⟨value, []⟩)

end VaultL3

namespace VaultL6

def initialise (env : Env) (st : Entries) (admin governance strategy usdc : Address)
    (maxTvl : ℤ) : Except Fault Entries := do
  env.requireAuth admin
  let st := { st with admin := some admin }
  let st := { st with governance := some governance }
  let st := { st with strategy := some strategy }
  let st := { st with usdc := some usdc }
  let st := { st with totalShares := some 0 }
  let st := { st with totalBalance := some 0 }
  let cap := if maxTvl > 0 then maxTvl else DEFAULT_MAX_TVL
  pure { st with maxTvl := some cap }

def deposit (env : Env) (st : Entries) (user asset : Address) (amount : ℤ) :
    Except Fault (Entries × Reply) := do
  let admin ← expect (.panic "not initialized") st.admin
  env.requireAuth admin
  failIf (amount < 1_000_000_000) VaultError.belowMinDeposit.fault
  let totalBalance := st.totalBalance.getD 0
  let maxTvl := st.maxTvl.getD DEFAULT_MAX_TVL
  let raised ← addI128 totalBalance amount
  failIf (raised > maxTvl) VaultError.depositCapExceeded.fault
  let newShares ← mulFp amount 11_500_000
  let currentBalance := st.balance.getD (user, asset) 0
  let currentShares := st.shares.getD (user, asset) 0
  let newBalance ← addI128 currentBalance amount
  let st := { st with balance := st.balance.set (user, asset) newBalance }
  let allShares ← addI128 currentShares newShares
  let st := { st with shares := st.shares.set (user, asset) allShares }
  let totalShares := st.totalShares.getD 0
  let moreShares ← addI128 totalShares newShares
  let st := { st with totalShares := some moreShares }
  let moreBalance ← addI128 totalBalance amount
  let st := { st with totalBalance := some moreBalance }
  let lockUntil ← addU32 env.ledger 1_555_200
  let st := { st with lockUntil := st.lockUntil.set (user, asset) lockUntil }
  let checkpoint ← addU32 env.ledger 1
  let st := { st with checkpoint := st.checkpoint.set (user, asset) checkpoint }
  pure (st, ⟨.unit, [.deposit user asset amount]⟩)

def doWithdraw (env : Env) (st : Entries) (user asset : Address) (amount : ℤ) :
    Except Fault (Entries × ℤ) := do
  let admin ← expect (.panic "not initialized") st.admin
  env.requireAuth admin
  let lockUntil := st.lockUntil.getD (user, asset) 0
  failIf (env.ledger < lockUntil) VaultError.lockNotExpired.fault
  let balance := st.balance.getD (user, asset) 0
  let userShares := st.shares.getD (user, asset) 0
  let totalShares := st.totalShares.getD 0
  failIf (amount > balance) VaultError.amountExceedsBalance.fault
  if amount ≥ balance then do
    let totalBalance := st.totalBalance.getD 0
    let lessShares ← subI128 totalShares userShares
    let st := { st with totalShares := some lessShares }
    let lessBalance ← subI128 totalBalance balance
    let st := { st with totalBalance := some (max lessBalance 0) }
    let st := { st with balance := st.balance.remove (user, asset) }
    let st := { st with shares := st.shares.remove (user, asset) }
    let st := { st with lockUntil := st.lockUntil.remove (user, asset) }
    let st := { st with checkpoint := st.checkpoint.remove (user, asset) }
    pure (st, balance)
  else do
    let product ← mulI128 userShares amount
    let sharesToBurn ← divI128 product balance
    let totalBalance := st.totalBalance.getD 0
    let newBalance ← subI128 balance amount
    let st := { st with balance := st.balance.set (user, asset) newBalance }
    let newShares ← subI128 userShares sharesToBurn
    let st := { st with shares := st.shares.set (user, asset) newShares }
    let lessShares ← subI128 totalShares sharesToBurn
    let st := { st with totalShares := some lessShares }
    let lessBalance ← subI128 totalBalance amount
    let st := { st with totalBalance := some lessBalance }
    pure (st, amount)

def withdraw (env : Env) (st : Entries) (user asset : Address) (amount : ℤ) :
    Except Fault (Entries × Reply) := do
  let (st, payout) ← doWithdraw env st user asset amount
  pure (st, ⟨.i128 payout, [.withdraw user asset payout]⟩)

def doEarlyExit (env : Env) (st : Entries) (user asset : Address) (amount : ℤ) :
    Except Fault (Entries × ℤ) := do
  let admin ← expect (.panic "not initialized") st.admin
  env.requireAuth admin
  let balance := st.balance.getD (user, asset) 0
  let userShares := st.shares.getD (user, asset) 0
  let totalShares := st.totalShares.getD 0
  failIf (amount > balance) VaultError.amountExceedsBalance.fault
  let fee ← mulFp amount 125_000
  let netAmount ← subI128 amount fee
  if amount ≥ balance then do
    let totalBalance := st.totalBalance.getD 0
    let lessShares ← subI128 totalShares userShares
    let st := { st with totalShares := some lessShares }
    let lessBalance ← subI128 totalBalance balance
    let st := { st with totalBalance := some (max lessBalance 0) }
    let st := { st with balance := st.balance.remove (user, asset) }
    let st := { st with shares := st.shares.remove (user, asset) }
    let st := { st with lockUntil := st.lockUntil.remove (user, asset) }
    let st := { st with checkpoint := st.checkpoint.remove (user, asset) }
    pure (st, netAmount)
  else do
    let product ← mulI128 userShares amount
    let sharesToBurn ← divI128 product balance
    let totalBalance := st.totalBalance.getD 0
    let newBalance ← subI128 balance amount
    let st := { st with balance := st.balance.set (user, asset) newBalance }
    let newShares ← subI128 userShares sharesToBurn
    let st := { st with shares := st.shares.set (user, asset) newShares }
    let lessShares ← subI128 totalShares sharesToBurn
    let st := { st with totalShares := some lessShares }
    let lessBalance ← subI128 totalBalance amount
    let st := { st with totalBalance := some lessBalance }
    pure (st, netAmount)

def earlyExit (env : Env) (st : Entries) (user asset : Address) (amount : ℤ) :
    Except Fault (Entries × Reply) := do
  let (st, netAmount) ← doEarlyExit env st user asset amount
  pure (st, ⟨.i128 netAmount, [.earlyExit user asset netAmount]⟩)

def setMaxTvl (env : Env) (st : Entries) (newCap : ℤ) : Except Fault Entries := do
  let governance ← expect (.panic "called `Option::unwrap()` on a `None` value") st.governance
  env.requireAuth governance
  pure { st with maxTvl := some newCap }

def relock (env : Env) (st : Entries) (user asset : Address) : Except Fault (Entries × ℕ) := do
  let admin ← expect (.panic "not initialized") st.admin
  env.requireAuth admin
  let lockUntil := st.lockUntil.getD (user, asset) 0
  failIf (env.ledger < lockUntil) VaultError.notYetMatured.fault
  let newLockUntil ← addU32 env.ledger 1_555_200
  let st := { st with lockUntil := st.lockUntil.set (user, asset) newLockUntil }
  pure (st, newLockUntil)

def step (env : Env) (st : Entries) : VaultCall → Except Fault (Entries × Reply)
  | .initialise (.locked admin governance strategy usdc maxTvl) => do
    let st ← initialise env st admin governance strategy usdc maxTvl
    pure (st, ⟨.unit, []⟩)
  | .initialise _ => throw .missingFunction
  | .deposit user asset amount => deposit env st user asset amount
  | .withdraw user asset amount => withdraw env st user asset amount
  | .earlyExit user asset amount => earlyExit env st user asset amount
  | .relock user asset => do
    let (st, lock) ← relock env st user asset
    pure (st, ⟨.u32 lock, []⟩)
  | .setMaxTvl newCap => do
    let st ← setMaxTvl env st newCap
    pure (st, ⟨.unit, []⟩)
  | .setEmergencyUnlock _ _ => throw .missingFunction
  | .query q => do
    let value ← answer st q
    pure (st, ⟨value, []⟩)

end VaultL6

namespace VaultL12

def initialise (env : Env) (st : Entries) (admin governance strategy usdc : Address)
    (maxTvl : ℤ) : Except Fault Entries := do
  env.requireAuth admin
  let st := { st with admin := some admin }
  let st := { st with governance := some governance }
  let st := { st with strategy := some strategy }
  let st := { st with usdc := some usdc }
  let st := { st with totalShares := some 0 }
  let st := { st with totalBalance := some 0 }
  let cap := if maxTvl > 0 then maxTvl else DEFAULT_MAX_TVL
  pure { st with maxTvl := some cap }

def deposit (env : Env) (st : Entries) (user asset : Address) (amount : ℤ) :
    Except Fault (Entries × Reply) := do
  let admin ← expect (.panic "not initialized") st.admin
  env.requireAuth admin
  failIf (amount < 2_500_000_000) VaultError.belowMinDeposit.fault
  let totalBalance := st.totalBalance.getD 0
  let maxTvl := st.maxTvl.getD DEFAULT_MAX_TVL
  let raised ← addI128 totalBalance amount
  failIf (raised > maxTvl) VaultError.depositCapExceeded.fault
  let newShares ← mulFp amount 13_000_000
  let currentBalance := st.balance.getD (user, asset) 0
  let currentShares := st.shares.getD (user, asset) 0
  let newBalance ← addI128 currentBalance amount
  let st := { st with balance := st.balance.set (user, asset) newBalance }
  let allShares ← addI128 currentShares newShares
  let st := { st with shares := st.shares.set (user, asset) allShares }
  let totalShares := st.totalShares.getD 0
  let moreShares ← addI128 totalShares newShares
  let st := { st with totalShares := some moreShares }
  let moreBalance ← addI128 totalBalance amount
  let st := { st with totalBalance := some moreBalance }
  let lockUntil ← addU32 env.ledger 3_110_400
  let st := { st with lockUntil := st.lockUntil.set (user, asset) lockUntil }
  let checkpoint ← addU32 env.ledger 1
  let st := { st with checkpoint := st.checkpoint.set (user, asset) checkpoint }
  pure (st, ⟨.unit, [.deposit user asset amount]⟩)

def doWithdraw (env : Env) (st : Entries) (user asset : Address) (amount : ℤ) :
    Except Fault (Entries × ℤ) := do
  let admin ← expect (.panic "not initialized") st.admin
  env.requireAuth admin
  let lockUntil := st.lockUntil.getD (user, asset) 0
  failIf (env.ledger < lockUntil) VaultError.lockNotExpired.fault
  let balance := st.balance.getD (user, asset) 0
  let userShares := st.shares.getD (user, asset) 0
  let totalShares := st.totalShares.getD 0
  failIf (amount > balance) VaultError.amountExceedsBalance.fault
  if amount ≥ balance then do
    let totalBalance := st.totalBalance.getD 0
    let lessShares ← subI128 totalShares userShares
    let st := { st with totalShares := some lessShares }
    let lessBalance ← subI128 totalBalance balance
    let st := { st with totalBalance := some (max lessBalance 0) }
    let st := { st with balance := st.balance.remove (user, asset) }
    let st := { st with shares := st.shares.remove (user, asset) }
    let st := { st with lockUntil := st.lockUntil.remove (user, asset) }
    let st := { st with checkpoint := st.checkpoint.remove (user, asset) }
    pure (st, balance)
  else do
    let product ← mulI128 userShares amount
    let sharesToBurn ← divI128 product balance
    let totalBalance := st.totalBalance.getD 0
    let newBalance ← subI128 balance amount
    let st := { st with balance := st.balance.set (user, asset) newBalance }
    let newShares ← subI128 userShares sharesToBurn
    let st := { st with shares := st.shares.set (user, asset) newShares }
    let lessShares ← subI128 totalShares sharesToBurn
    let st := { st with totalShares := some lessShares }
    let lessBalance ← subI128 totalBalance amount
    let st := { st with totalBalance := some lessBalance }
    pure (st, amount)

def withdraw (env : Env) (st : Entries) (user asset : Address) (amount : ℤ) :
    Except Fault (Entries × Reply) := do
  let (st, payout) ← doWithdraw env st user asset amount
  pure (st, ⟨.i128 payout, [.withdraw user asset payout]⟩)

def doEarlyExit (env : Env) (st : Entries) (user asset : Address) (amount : ℤ) :
    Except Fault (Entries × ℤ) := do
  let admin ← expect (.panic "not initialized") st.admin
  env.requireAuth admin
  let balance := st.balance.getD (user, asset) 0
  let userShares := st.shares.getD (user, asset) 0
  let totalShares := st.totalShares.getD 0
  failIf (amount > balance) VaultError.amountExceedsBalance.fault
  let fee ← mulFp amount 250_000
  let netAmount ← subI128 amount fee
  if amount ≥ balance then do
    let totalBalance := st.totalBalance.getD 0
    let lessShares ← subI128 totalShares userShares
    let st := { st with totalShares := some lessShares }
    let lessBalance ← subI128 totalBalance balance
    let st := { st with totalBalance := some (max lessBalance 0) }
    let st := { st with balance := st.balance.remove (user, asset) }
    let st := { st with shares := st.shares.remove (user, asset) }
    let st := { st with lockUntil := st.lockUntil.remove (user, asset) }
    let st := { st with checkpoint := st.checkpoint.remove (user, asset) }
    pure (st, netAmount)
  else do
    let product ← mulI128 userShares amount
    let sharesToBurn ← divI128 product balance
    let totalBalance := st.totalBalance.getD 0
    let newBalance ← subI128 balance amount
    let st := { st with balance := st.balance.set (user, asset) newBalance }
    let newShares ← subI128 userShares sharesToBurn
    let st := { st with shares := st.shares.set (user, asset) newShares }
    let lessShares ← subI128 totalShares sharesToBurn
    let st := { st with totalShares := some lessShares }
    let lessBalance ← subI128 totalBalance amount
    let st := { st with totalBalance := some lessBalance }
    pure (st, netAmount)

def earlyExit (env : Env) (st : Entries) (user asset : Address) (amount : ℤ) :
    Except Fault (Entries × Reply) := do
  let (st, netAmount) ← doEarlyExit env st user asset amount
  pure (st, ⟨.i128 netAmount, [.earlyExit user asset netAmount]⟩)

def setMaxTvl (env : Env) (st : Entries) (newCap : ℤ) : Except Fault Entries := do
  let governance ← expect (.panic "called `Option::unwrap()` on a `None` value") st.governance
  env.requireAuth governance
  pure { st with maxTvl := some newCap }

def relock (env : Env) (st : Entries) (user asset : Address) : Except Fault (Entries × ℕ) := do
  let admin ← expect (.panic "not initialized") st.admin
  env.requireAuth admin
  let lockUntil := st.lockUntil.getD (user, asset) 0
  failIf (env.ledger < lockUntil) VaultError.notYetMatured.fault
  let newLockUntil ← addU32 env.ledger 3_110_400
  let st := { st with lockUntil := st.lockUntil.set (user, asset) newLockUntil }
  pure (st, newLockUntil)

def step (env : Env) (st : Entries) : VaultCall → Except Fault (Entries × Reply)
  | .initialise (.locked admin governance strategy usdc maxTvl) => do
    let st ← initialise env st admin governance strategy usdc maxTvl
    pure (st, ⟨.unit, []⟩)
  | .initialise _ => throw .missingFunction
  | .deposit user asset amount => deposit env st user asset amount
  | .withdraw user asset amount => withdraw env st user asset amount
  | .earlyExit user asset amount => earlyExit env st user asset amount
  | .relock user asset => do
    let (st, lock) ← relock env st user asset
    pure (st, ⟨.u32 lock, []⟩)
  | .setMaxTvl newCap => do
    let st ← setMaxTvl env st newCap
    pure (st, ⟨.unit, []⟩)
  | .setEmergencyUnlock _ _ => throw .missingFunction
  | .query q => do
    let value ← answer st q
    pure (st, ⟨value, []⟩)

end VaultL12

end Entries
end YieldLadder
