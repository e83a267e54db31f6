import Precall.Lib.Bytes
import Precall.Lib.Table
import Precall.Lib.Ledger
import Precall.Lib.Text
import Precall.Lib.Durable
import Precall.Lib.Interference
import Precall.Lib.Runs
import Precall.Lib.Paging
import Precall.Lib.Incremental
import Precall.Lib.Sorting
import Precall.Lib.Grouping
import Precall.Lib.RankFusion
import Precall.Lib.FusedScores
import Precall.Lib.FairQueue
import Precall.Lib.Following
import Precall.Lib.Census
import Precall.Lib.Timers
import Precall.Lib.Calendar
import Precall.Lib.Decode
import Precall.Lib.Json
import Precall.Lib.Quoted
import Precall.Lib.Digest
import Precall.Lib.Paths
import Precall.Lib.Transaction
import Precall.Lib.Batches
import Precall.Lib.Knowledge
import Precall.Lib.Kept
import Precall.Lib.Pool
import Precall.Lib.Shards
import Precall.Lib.Serde
import Precall.Lib.Straight
import Precall.Proto.Gfx
import Precall.Proto.GfxRoundTrip
import Precall.Proto.Codec
import Precall.Proto.Pinning
import Precall.Proto.Metadata
import Precall.Proto.Handshake
import Precall.Store.Objects
import Precall.Store.Ukg
import Precall.Store.Fulltext
import Precall.Store.Semantic
import Precall.Store.Scan
import Precall.Store.Reopened
import Precall.Store.Client
import Precall.Store.Queues
import Precall.Store.Dates
import Precall.Store.Dwell
import Precall.Store.ObjectKey
import Precall.Store.HexSecrets
import Precall.Store.Placement
import Precall.Store.Apart
import Precall.Store.Integrity
import Precall.Store.Archive
import Precall.Api.Guards
import Precall.Api.ImageLeg
import Precall.Api.TextLeg
import Precall.Api.Spaces
import Precall.Api.Search
import Precall.Broker.Session
import Precall.Broker.Pairing
import Precall.Broker.Written
import Precall.Broker.Resend
import Precall.Broker.Admission
import Precall.Broker.SessionCap
import Precall.Broker.Assembly
import Precall.Api.Wipe
import Precall.Api.UuidForms
import Precall.Api.Confined
import Precall.Api.Auth
import Precall.Api.Bookkeeping
import Precall.Api.Fairness
import Precall.Api.Verdicts
import Precall.Api.ImageRoute
import Precall.Api.Snapshot
import Precall.Api.Timeline
import Precall.Api.Spelling
import Precall.Api.LiveStream
import Precall.Api.SearchRoute
import Precall.Api.MatchText
import Precall.Api.SearchOrder
import Precall.Api.SearchRanks
import Precall.Api.Healthy
import Precall.Api.Convergence
import Precall.Api.Archived
import Precall.Api.Outages
import Precall.Api.Tenancy
import Precall.Api.SearchComplete
import Precall.Client.Session
import Precall.Client.Privacy
import Precall.Client.Urls
import Precall.Client.Wire
import Precall.Client.Mock
import Precall.Client.Run
import Precall.Client.Dedup
import Precall.Client.Reconnect
import Precall.Client.Uploads
import Precall.Client.Pause
import Precall.Client.Audio
import Precall.Client.Heartbeat
import Precall.Client.Rejection
import Precall.Web.Sessions
