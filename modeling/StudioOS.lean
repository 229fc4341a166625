import StudioOS.Idempotency.Replay
import StudioOS.Sync.Drain
import StudioOS.Sync.Survival
import StudioOS.Events.Delivery
import StudioOS.Launch.Expiry
import StudioOS.Outbox.Keeping
import StudioOS.AiLibrary.Concurrency
import StudioOS.Resolution.Agreement
import StudioOS.Resolution.Precedence
import StudioOS.Roadmaps.Numbers
import StudioOS.Roadmaps.Preview
import StudioOS.Sse.RoundTrip
import StudioOS.RefreshTokens.Revocation
import StudioOS.Transfers.Lifecycle
import StudioOS.Admission.AllOrNothing
import StudioOS.Budgets.Approval
import StudioOS.Budgets.Meters
import StudioOS.Budgets.Slots
import StudioOS.Usage.Ledger
import StudioOS.Vault.History
import StudioOS.LocalUsage.Progress
import StudioOS.LocalUsage.Deltas
import StudioOS.Worktrees.Cleanup
import StudioOS.ResponseBudget.Answers
import StudioOS.Daemon.Reports
import StudioOS.CodeGraph.Requests
import StudioOS.CodeGraph.Ready
import StudioOS.Bootstrap.Undo
import StudioOS.HookSync.Consent
import StudioOS.DecisionNumbers.Distinct
import StudioOS.Builds.Converge
import StudioOS.Csp.Gains
import StudioOS.Registry.Bindings
import StudioOS.ServerMirror.Exact
import StudioOS.ServerMirror.Scope
import StudioOS.Knowledge.Incremental
import StudioOS.Knowledge.Paging
import StudioOS.CodeQueries.Answers
import StudioOS.CodeQueries.Paging
import StudioOS.HookSync.Exact
import StudioOS.Accounts.Sessions
import StudioOS.AiWork.Announced
import StudioOS.WorkSessions.Identity
import StudioOS.Accounts.SecretsDie
import StudioOS.Harness.Redaction
import StudioOS.DecisionNotes.Own
import StudioOS.Tasks
