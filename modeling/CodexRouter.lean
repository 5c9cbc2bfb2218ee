import CodexRouter.Admission.Dispatch
import CodexRouter.Admission.Handler
import CodexRouter.Admission.Leases
import CodexRouter.Admission.LocalChoice
import CodexRouter.Admission.Ownership
import CodexRouter.Admission.Refresh
import CodexRouter.Admission.Service
import CodexRouter.Admission.Settled
import CodexRouter.Admission.Snapshot
import CodexRouter.ContextManager.Normalize
import CodexRouter.Evolver.Connectivity
import CodexRouter.Evolver.Effective
import CodexRouter.Evolver.Invariant
import CodexRouter.Evolver.Store
import CodexRouter.Evolver.Workflow
import CodexRouter.ExecPolicy.Policy
import CodexRouter.ExecServer.CompleteRecovery
import CodexRouter.ExecServer.Following
import CodexRouter.ExecServer.Process
import CodexRouter.ExecServer.RecoverEvents
import CodexRouter.ExecServer.Recovery
import CodexRouter.ExecServer.Session
import CodexRouter.ExecServer.SessionRegistry
import CodexRouter.ExecServer.SessionState
import CodexRouter.ExecServer.StdinWrites
import CodexRouter.Ledger.Abandoned
import CodexRouter.Ledger.Basic
import CodexRouter.Ledger.Lifecycle
import CodexRouter.Ledger.Load
import CodexRouter.Ledger.Steps
import CodexRouter.Lib.CommonPrefix
import CodexRouter.Lib.Fallible
import CodexRouter.Lib.Glob
import CodexRouter.Lib.Index
import CodexRouter.Lib.Interleaving
import CodexRouter.Lib.Json
import CodexRouter.Lib.Longest
import CodexRouter.Lib.OrderedMap
import CodexRouter.Lib.Outcome
import CodexRouter.Lib.Positions
import CodexRouter.Lib.Run
import CodexRouter.Lib.Search
import CodexRouter.Lib.SwapRemove
import CodexRouter.Lib.Table
import CodexRouter.Lib.Text
import CodexRouter.Lib.Transducer
import CodexRouter.Lib.Writes
import CodexRouter.LocalScheduler.Basic
import CodexRouter.LocalScheduler.Cancellation
import CodexRouter.LocalScheduler.Capacity
import CodexRouter.LocalScheduler.Choice
import CodexRouter.LocalScheduler.Distinct
import CodexRouter.LocalScheduler.Guard
import CodexRouter.LocalScheduler.Importance
import CodexRouter.LocalScheduler.Oldest
import CodexRouter.LocalScheduler.Rounds
import CodexRouter.LocalScheduler.Scorers
import CodexRouter.LocalScheduler.System
import CodexRouter.NetworkProxy.Ceiling
import CodexRouter.NetworkProxy.Constraints
import CodexRouter.NetworkProxy.DomainPattern
import CodexRouter.NoiseRelay.Channel
import CodexRouter.NoiseRelay.Framing
import CodexRouter.NoiseRelay.Ordering
import CodexRouter.Patch.Agreement
import CodexRouter.Patch.Apply
import CodexRouter.Patch.Delta
import CodexRouter.Patch.FileUpdate
import CodexRouter.Patch.Verify
import CodexRouter.Permissions.AdditionalPermissions
import CodexRouter.Permissions.FullDiskWrite
import CodexRouter.Permissions.IntersectionBound
import CodexRouter.Permissions.LocalPath
import CodexRouter.Permissions.LocalPolicy
import CodexRouter.Permissions.Policy
import CodexRouter.Permissions.ProfileIntersection
import CodexRouter.Permissions.Reordering
import CodexRouter.Permissions.WritableRoots
import CodexRouter.Policies.ConsistentHash
import CodexRouter.Policies.Registry
import CodexRouter.PrefixTree.Basic
import CodexRouter.PrefixTree.Bytes
import CodexRouter.PrefixTree.Counts
import CodexRouter.PrefixTree.Insert
import CodexRouter.PrefixTree.Lookup
import CodexRouter.PrefixTree.Refinement
import CodexRouter.PrefixTree.Removal
import CodexRouter.PrefixTree.Shape
import CodexRouter.Readiness.Flag
import CodexRouter.Readiness.Tokens
import CodexRouter.Registry.Agreement
import CodexRouter.Registry.Basic
import CodexRouter.RemoteControl.ClientTracker
import CodexRouter.Responses.Store
import CodexRouter.Rollout.Reconstruction
import CodexRouter.Rollout.ReverseScan
import CodexRouter.Rollout.Rollback
import CodexRouter.Routers.VllmTwoStage
import CodexRouter.Routing.Cost
import CodexRouter.Routing.Evidence
import CodexRouter.Routing.Identity
import CodexRouter.Routing.LmCache
import CodexRouter.Routing.Permutation
import CodexRouter.Routing.Selection
import CodexRouter.Routing.SessionHomes
import CodexRouter.Routing.Sessions
import CodexRouter.Routing.Shared
import CodexRouter.StreamParser.AssistantText
import CodexRouter.StreamParser.HiddenTags
import CodexRouter.StreamParser.TaggedLines
import CodexRouter.Streaming.Chunks
import CodexRouter.Streaming.TerminalEvents
import CodexRouter.Telemetry.Bridge
import CodexRouter.Telemetry.BridgeSync
import CodexRouter.Telemetry.Replay
import CodexRouter.Telemetry.RouterSync
import CodexRouter.Telemetry.Sync
import CodexRouter.Telemetry.System
import CodexRouter.Telemetry.Worker
import CodexRouter.Truncate.Middle
import CodexRouter.UnifiedExec.HeadTailBuffer
