import Kiagent.Theory.Table
import Kiagent.Theory.SeqLog
import Kiagent.Store.Rows
import Kiagent.Store.Batch
import Kiagent.Store.Db
import Kiagent.Sync.Tracking
import Kiagent.Sync.Converge
import Kiagent.Sync.Promote
import Kiagent.Store.Documents
import Kiagent.Store.Commit
import Kiagent.Theory.Replay
import Kiagent.Store.Pieces
import Kiagent.Engine.Ingest
import Kiagent.Sync.Owned
import Kiagent.Theory.Runs
import Kiagent.Sync.Fleet
import Kiagent.Sync.VaultStamp
import Kiagent.Engine.Reconcile
import Kiagent.Store.Reconcile
import Kiagent.Store.Feed
import Kiagent.Sync.ChangeLog
import Kiagent.Sync.Queue
import Kiagent.Engine.AccountConfig
import Kiagent.Sync.Gate
import Kiagent.Engine.PullLoop
import Kiagent.Store.SearchIndex
import Kiagent.Sync.DatabaseFile
import Kiagent.Sync.Swap
import Kiagent.Attention.Items
import Kiagent.Db.Exclusive
import Kiagent.Converter.Accounts
import Kiagent.Plugin.Tombstone
import Kiagent.Plugin.Upgrade
import Kiagent.Calendar.Create
import Kiagent.Sync.SplitSize
import Kiagent.Outbound.Outbox
import Kiagent.Theory.Async
import Kiagent.Admission.Schedule
import Kiagent.Db.PluginAuthorizer
import Kiagent.Theory.Tally
import Kiagent.Store.Chronicle
import Kiagent.App.Projection
import Kiagent.Platform.Endpoint
import Kiagent.Platform.Records
import Kiagent.Platform.Serving
import Kiagent.Platform.Pair
import Kiagent.Outbound.Rate
import Kiagent.Outbound.ErrorCopy
import Kiagent.Outbound.Spread
import Kiagent.Outbound.Content
import Kiagent.Scheduling.Coalesce
import Kiagent.Store.Announce
import Kiagent.App.Lead
import Kiagent.App.LeadOrder
import Kiagent.App.LeadCaughtUp
import Kiagent.Theory.CivilDate
import Kiagent.Calendar.Zone
import Kiagent.Calendar.Lanes
import Kiagent.Theory.Paging
import Kiagent.Store.SearchPages
import Kiagent.Theory.MatchExpr
import Kiagent.Store.FtsQuery
import Kiagent.Store.FtsReading
import Kiagent.Store.FuzzyFallback
import Kiagent.Calendar.Slots
import Kiagent.Calendar.Collect
import Kiagent.Calendar.DayModel
import Kiagent.Theory.Lines
import Kiagent.Converter.Records
import Kiagent.Converter.RecordSplit
import Kiagent.Converter.Elements
import Kiagent.Converter.Expand
import Kiagent.Converter.MailAppend
import Kiagent.Platform.FileTree
import Kiagent.Platform.ScopedFiles
import Kiagent.Platform.NetAddress
import Kiagent.Platform.NetFetch
import Kiagent.Asr.Loops
import Kiagent.Asr.Cleanup
import Kiagent.Converter.PageBounds
import Kiagent.Converter.Zip
import Kiagent.Converter.ZipWalk
import Kiagent.Plugin.SqlMarkers
import Kiagent.Mcp.SqlRunner
import Kiagent.Mcp.SqlOwned
import Kiagent.Mcp.SqlAccounts
import Kiagent.Mcp.SqlServed
import Kiagent.Marketplace.Installer
import Kiagent.Marketplace.Trust
import Kiagent.Marketplace.DataMove
import Kiagent.Calendar.DayStart
import Kiagent.LocalLlm.Downloader
import Kiagent.LocalLlm.Resume
import Kiagent.Audio.Mp3Duration
import Kiagent.Inference.Identity
import Kiagent.Store.FirstChange
import Kiagent.LocalFolder.FolderPaths
import Kiagent.LocalFolder.FolderRoots
import Kiagent.Imap.Scope
import Kiagent.Imap.ScopeRows
import Kiagent.Imap.ScopeAgree
import Kiagent.Attention.Hint
import Kiagent.Outbound.Sends
import Kiagent.Db.PluginNamespace
import Kiagent.Sync.Sources
