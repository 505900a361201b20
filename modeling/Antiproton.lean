import Antiproton.Runtime.Consent
import Antiproton.Runtime.LiveHolds
import Antiproton.Runtime.Held
import Antiproton.Runtime.Keys
import Antiproton.Store.OneStore
import Antiproton.Store.SeedFiles
import Antiproton.Store.Refs
import Antiproton.Store.MaskRefs
import Antiproton.Plugins.State
import Antiproton.Store.StateBytes
import Antiproton.Plugins.StateWrites
import Antiproton.Store.SeedRecord
import Antiproton.Store.SeedOnce
import Antiproton.Store.SeedHistory
import Antiproton.Store.SeedSeal
import Antiproton.Store.Advance
import Antiproton.Lib.Rely
import Antiproton.Usage.Metered
import Antiproton.Usage.Active
import Antiproton.Usage.HeldTime
import Antiproton.Usage.Folds
import Antiproton.Agents.Pages
import Antiproton.Agents.ReadBack
import Antiproton.Drive.Settle
import Antiproton.Prompt.Told
import Antiproton.Prompt.SeedLines
import Antiproton.Spend.Gate
import Antiproton.Trace.Passes
import Antiproton.Trace.TurnBook
import Antiproton.Overflow.Bounded
import Antiproton.Overflow.Chain
import Antiproton.Inbound.Accepted
import Antiproton.Import.Once
import Antiproton.Background.Once
import Antiproton.Publish.Converges
import Antiproton.Raft.Inbox
import Antiproton.Raft.RuleOrder
import Antiproton.Raft.TurnReports
import Antiproton.Memory.ContextSlices
import Antiproton.Egress.Answers
import Antiproton.Artifacts.Paged
import Antiproton.Copies.Kept
import Antiproton.PluginDb.Lawful
import Antiproton.Connect.Accounted
import Antiproton.Export.Follow
import Antiproton.Store.FollowUps
import Antiproton.Images.Resolve
import Antiproton.Runtime.IdlePass
import Antiproton.Runtime.ModelJobs
import Antiproton.Conversations.Whole
import Antiproton.Document.Append
import Antiproton.Document.Insert
import Antiproton.Store.Budgets
import Antiproton.Plugins.Routes
import Antiproton.Plugins.HostRanges
import Antiproton.Runtime.ToolNames
import Antiproton.Runtime.Gates
import Antiproton.Runtime.ApprovedRow
import Antiproton.Runtime.MountQueue
import Antiproton.Runtime.AnswerCheck
import Antiproton.Lib.Runs
import Antiproton.Core.JsonScan
import Antiproton.Runtime.RedactBody
import Antiproton.Runtime.ToolsTold
import Antiproton.Agents.Watch
import Antiproton.Raft.ImageFiles
import Antiproton.Provision.ImportSound
