import YHub.Tasks
import YHub.LiveIds
import YHub.Quarantine
import YHub.Lib.FirstWins
import YHub.Lib.InsertionMap
import YHub.Lib.Interleave
import YHub.Lib.SortedLog
import YHub.Persistence
import YHub.Yjs
import YHub.GetDoc
import YHub.Invariant
import YHub.Preservation
import YHub.RunTask
import YHub.Compaction
import YHub.Snapshot
import YHub.ObjectStore
import YHub.Transparency
import YHub.TrimCompletes
import YHub.Subscription
import YHub.UnsafePersist
import YHub.Site
import YHub.HardDeletion
import YHub.PurgedObjects
import YHub.OpenHandler
import YHub.Recheck
import YHub.DocDeleted
import YHub.Delivery
import YHub.WSUser
import YHub.Lib.JsNumber
import YHub.Lib.Strings
import YHub.ContentFilter
import YHub.ContentTasks
import YHub.Activity
import YHub.ActivityGroups
import YHub.AuthorFilter
import YHub.TimeWindow
import YHub.SameFilter
import YHub.SubscriptionLoop
import YHub.ResponseCache
import YHub.References
import YHub.Purge
import YHub.Pruning
import YHub.ComputePool
import YHub.Leases
import YHub.ClockOrder
import YHub.PersistCalls
import YHub.ActivityCredit
import YHub.AgentTask
import YHub.Awareness
import YHub.GhostCursors
import YHub.Lib.PercentEncoding
import YHub.UriComponents
import YHub.AssetPaths
import YHub.Lib.Pattern
import YHub.RoomKeys
import YHub.Lib.Glob
import YHub.ScanPatterns
import YHub.QuarantineKeys
import YHub.CacheKeys
import YHub.Cors
import YHub.Origins
import YHub.Responses
import YHub.ApiHandler
import YHub.Upgrade
import YHub.CustomAttributions
import YHub.Lib.Codec
import YHub.Protocol
import YHub.ReadYourWrites
import YHub.PatchYdoc
import YHub.Authorship
import YHub.Sync
import YHub.Lib.Lease
import YHub.Workers
import YHub.OneWorker
import YHub.Lib.UrlTemplate
import YHub.Routes
import YHub.Dispatch
import YHub.CorsHeaders
import YHub.Preflight
