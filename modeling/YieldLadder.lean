import YieldLadder.Governance.Watch
import YieldLadder.Harvester.Cadence
import YieldLadder.Payment.Attempts
import YieldLadder.Payment.OnChain
import YieldLadder.Payment.Recovery
import YieldLadder.Payment.Rpc
import YieldLadder.Payment.Session
import YieldLadder.Payment.Submission
import YieldLadder.Position.Approvals
import YieldLadder.Position.Unwrapping
import YieldLadder.Reconcile.Harvests
import YieldLadder.Reconcile.Job
import YieldLadder.Reconcile.Report
import YieldLadder.Reconcile.VaultEvents
import YieldLadder.Router.Authority
import YieldLadder.Router.Caps
import YieldLadder.Router.Exits
import YieldLadder.Router.Exports
import YieldLadder.Router.Fees
import YieldLadder.Router.Guardian
import YieldLadder.Router.Pause
import YieldLadder.Router.Payout
import YieldLadder.Router.Views
import YieldLadder.Router.Wiring
import YieldLadder.Sdk.Client
import YieldLadder.Sdk.ContractErrors
import YieldLadder.Sdk.InFlight
import YieldLadder.Sdk.Minimums
import YieldLadder.Sdk.Polling
import YieldLadder.Sdk.Positions
import YieldLadder.Sdk.Transactions
import YieldLadder.Sdk.Wire
import YieldLadder.Strategy.Custody
import YieldLadder.Strategy.Governed
import YieldLadder.Strategy.SingleRebalance
import YieldLadder.Strategy.Yield
import YieldLadder.Vault.Agreement
import YieldLadder.Vault.Checkpoints
import YieldLadder.Vault.Drift
import YieldLadder.Vault.LockSafety
import YieldLadder.Vault.OneMachine
import YieldLadder.Vault.Privilege
import YieldLadder.Vault.Splitting
