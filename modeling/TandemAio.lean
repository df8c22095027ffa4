import TandemAio.Reasoning.Prog
import TandemAio.Reasoning.Interleave
import TandemAio.Store
import TandemAio.TaskQueue
import TandemAio.Zkp
import TandemAio.Nodes
import TandemAio.Worker
import TandemAio.Run
import TandemAio.Effects
import TandemAio.Moves
import TandemAio.Requests
import TandemAio.Frames
import TandemAio.Reachable
import TandemAio.Tame
import TandemAio.Coherence
import TandemAio.Ownership
import TandemAio.Fencing
import TandemAio.JobStatus
import TandemAio.Membership
import TandemAio.Deregistration
import TandemAio.Payload
import TandemAio.Receipts
import TandemAio.Crash
import TandemAio.Recovery
import TandemAio.Reasoning.Bytes
import TandemAio.Reasoning.Percent
import TandemAio.Reasoning.Http
import TandemAio.Reasoning.Scored
import TandemAio.Reasoning.Expiring
import TandemAio.Artifact
import TandemAio.Framing
import TandemAio.BuildCache
import TandemAio.Filenames
import TandemAio.Manifest
import TandemAio.Start
import TandemAio.Startable
import TandemAio.Submit
import TandemAio.PythonSyntax
import TandemAio.Validator
import TandemAio.Proxy
import TandemAio.Hosting
import TandemAio.Replicas
import TandemAio.Web
import TandemAio.Pairing
import TandemAio.Replies
import TandemAio.Purge
import TandemAio.Durability
import TandemAio.Builders
import TandemAio.FailedApps
import TandemAio.Removal
import TandemAio.ServeLoop
import TandemAio.Sweeper
import TandemAio.Accounts
import TandemAio.Reasoning.Glob
import TandemAio.Sessions
import TandemAio.StartJob
import TandemAio.Charges
import TandemAio.Metering
import TandemAio.Refusals
import TandemAio.Lease
import TandemAio.Claiming
import TandemAio.RateLimit
import TandemAio.Runtimes
import TandemAio.Timeouts
import TandemAio.Relay
import TandemAio.Failover
import TandemAio.Analysis
import TandemAio.Annotations
import TandemAio.CacheDamage
import TandemAio.CallScan
import TandemAio.HelperGraph
import TandemAio.ManifestPlan
import TandemAio.ManifestTyped
import TandemAio.Overlap
import TandemAio.PythonRuns
import TandemAio.StringExprs
import TandemAio.Transpiler
import TandemAio.SourceHash
import TandemAio.HandOut
import TandemAio.TaskLoop
import TandemAio.NodeDaemon
import TandemAio.Reasoning.Raising
import TandemAio.Reasoning.Toml
import TandemAio.Reasoning.FileTree
import TandemAio.ProjectConfig
import TandemAio.BuildClean
import TandemAio.NodeIdentity
import TandemAio.AccessTokens
import TandemAio.Credentials
import TandemAio.QuotaWindow
