import Sovereign.AcmeChallenge
import Sovereign.BackgroundTasks
import Sovereign.Base64Url
import Sovereign.BodyLimit
import Sovereign.Broadcast
import Sovereign.ByteRanges
import Sovereign.Coercion
import Sovereign.CompleteMediation
import Sovereign.CompressionStack
import Sovereign.ConnectionRelease
import Sovereign.ContentDisposition
import Sovereign.ContentPolicy
import Sovereign.ControlFrames
import Sovereign.CsrfSession
import Sovereign.DependencyRace
import Sovereign.FileUrls
import Sovereign.FormData
import Sovereign.FramingDecision
import Sovereign.HeaderLimit
import Sovereign.HeaderStructure
import Sovereign.Heartbeat
import Sovereign.HubAdapters
import Sovereign.HubConsistency
import Sovereign.HubRace
import Sovereign.JsonMessages
import Sovereign.JsonReader
import Sovereign.KeepAlive
import Sovereign.Lib.CookieJar
import Sovereign.Lib.JsonSyntax
import Sovereign.Lib.References
import Sovereign.Lib.SqliteOrder
import Sovereign.Lib.SqliteRelation
import Sovereign.Lib.ThreadPool
import Sovereign.LoginRace
import Sovereign.MiddlewareAgreement
import Sovereign.MultipartLimits
import Sovereign.MultipartRoundTrip
import Sovereign.OpenApi
import Sovereign.OrmAnswers
import Sovereign.OrmCells
import Sovereign.OrmCodec
import Sovereign.OrmDocuments
import Sovereign.OrmFindable
import Sovereign.OrmInserted
import Sovereign.OrmIntegrity
import Sovereign.OrmKeys
import Sovereign.OrmMap
import Sovereign.OrmQueries
import Sovereign.OrmQuery
import Sovereign.OrmRoundTrip
import Sovereign.OrmSaved
import Sovereign.OrmStructured
import Sovereign.OrmTable
import Sovereign.PageRoute
import Sovereign.ParserTerms
import Sovereign.Password
import Sovereign.Pipeline
import Sovereign.Pipelining
import Sovereign.PromotedGuard
import Sovereign.QueryString
import Sovereign.ReaderCalls
import Sovereign.RecvDepth
import Sovereign.RequestDeadline
import Sovereign.RequestPath
import Sovereign.ResponseFraming
import Sovereign.ResponseSplitting
import Sovereign.RetryAfter
import Sovereign.RetryLaw
import Sovereign.Revocation
import Sovereign.RevocationDelay
import Sovereign.SafeJoin
import Sovereign.Schema
import Sovereign.SchemaAgreement
import Sovereign.ServerLifecycle
import Sovereign.ServerSentEvents
import Sovereign.ServerShutdown
import Sovereign.SharedRateLimit
import Sovereign.SseSession
import Sovereign.StreamRoundTrip
import Sovereign.TaskArguments
import Sovereign.TaskClaims
import Sovereign.TaskRecovery
import Sovereign.Template
import Sovereign.TokenErrors
import Sovereign.TypeHints
import Sovereign.UnclearedLogins
import Sovereign.ValidatedBody
import Sovereign.ValidatedQuery
import Sovereign.Validation
import Sovereign.VaryHeader
import Sovereign.Verdict
import Sovereign.WebSocketMessages
import Sovereign.WebSocketWriter
import Sovereign.WellTyped
