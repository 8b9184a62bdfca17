import Cadsa.Lib.Runs
import Cadsa.Lib.Calls
import Cadsa.Lib.Utf8
import Cadsa.Lib.PyText
import Cadsa.Lib.Chunks
import Cadsa.Lib.PosixPath
import Cadsa.Lib.PyJson
import Cadsa.Lib.Table
import Cadsa.Lib.Slots
import Cadsa.Lib.Outcomes
import Cadsa.Lib.Window
import Cadsa.Lib.Regex
import Cadsa.Lib.IpNetwork
import Cadsa.Lib.Coroutines
import Cadsa.Lib.Grouping
import Cadsa.Lib.IsoTime
import Cadsa.Lib.Retained
import Cadsa.Lib.JsonDump
import Cadsa.Lib.Ranking
import Cadsa.Lib.Interpolation
import Cadsa.Lib.NamedValues
import Cadsa.Core.LogWatcher
import Cadsa.Core.LiveTail
import Cadsa.Core.Rotation
import Cadsa.Core.Restart
import Cadsa.Core.Discovery
import Cadsa.Core.AdminApi
import Cadsa.Core.Watching
import Cadsa.Core.LogParser
import Cadsa.Core.Ingestion
import Cadsa.Core.Accounting
import Cadsa.Core.SourceIdentity
import Cadsa.Lib.Scanning
import Cadsa.Core.Caddyfile
import Cadsa.Core.SourceLabels
import Cadsa.Core.NumericFields
import Cadsa.Core.UriSplit
import Cadsa.Core.BackfillTail
import Cadsa.Core.FastTimestamp
import Cadsa.Core.SecurityEngine
import Cadsa.Lib.Lowercase
import Cadsa.Lib.AddressText
import Cadsa.Lib.PercentEncoding
import Cadsa.Core.CleanNames
import Cadsa.Core.HostResolution
import Cadsa.Core.LoggerIds
import Cadsa.Core.BotClassification
import Cadsa.Core.EncodedAttacks
import Cadsa.Core.Detection
import Cadsa.Core.DirectoryScan
import Cadsa.Core.Schedules
import Cadsa.Core.Whitelisting
import Cadsa.Core.LiveMetrics
import Cadsa.Core.LiveRates
import Cadsa.Core.StatusCounts
import Cadsa.Db.Users
import Cadsa.Db.RefreshTokens
import Cadsa.Db.StoredTimes
import Cadsa.Db.TokenLifecycle
import Cadsa.Db.AlertRules
import Cadsa.Db.AlertLog
import Cadsa.Db.Analytics
import Cadsa.Db.Timeseries
import Cadsa.Lib.Paging
import Cadsa.Lib.Utf16
import Cadsa.Lib.UrlParse
import Cadsa.Lib.JsonText
import Cadsa.Db.RequestsPage
import Cadsa.Db.Aggregation
import Cadsa.Db.DuckDb
import Cadsa.Db.SecurityEvents
import Cadsa.Db.Retention
import Cadsa.Db.Breakdowns
import Cadsa.Db.Percentiles
import Cadsa.Db.AddressPage
import Cadsa.Core.EventPipeline
import Cadsa.Db.Whitelist
import Cadsa.Api.Auth
import Cadsa.Api.Effects
import Cadsa.Api.Lockout
import Cadsa.Api.RuleUpdates
import Cadsa.Api.SecondFactor
import Cadsa.Api.SecurityLists
import Cadsa.Api.BackupCodes
import Cadsa.Api.LoginRace
import Cadsa.Api.Enrolment
import Cadsa.Api.Realtime
import Cadsa.Api.Replay
import Cadsa.Api.PartialTokens
import Cadsa.Api.Onboarding
import Cadsa.Api.CustomDay
import Cadsa.Api.RuleStore
import Cadsa.Api.ChartSizes
import Cadsa.Api.AccessTokens
import Cadsa.Api.Startup
import Cadsa.Api.AuditTrail
import Cadsa.Frontend.WebSocket
import Cadsa.Frontend.SocketLife
import Cadsa.Frontend.Api
import Cadsa.Frontend.Refresh
import Cadsa.Frontend.Session
import Cadsa.Frontend.Submission
import Cadsa.Frontend.RealTime
import Cadsa.Frontend.LocalMetrics
import Cadsa.Frontend.HostFilter
import Cadsa.Frontend.FilterAgreement
import Cadsa.Frontend.RouteGuards
import Cadsa.Frontend.UrlFilters
import Cadsa.Frontend.IpActions
import Cadsa.Frontend.SignedIn
import Cadsa.Alerts.Engine
import Cadsa.Alerts.Threshold
import Cadsa.Alerts.Ticks
import Cadsa.Alerts.Cooldown
