import TyoMq.Admin.NonceCache
import TyoMq.Auth.FailedSync
import TyoMq.Auth.RealmKeys
import TyoMq.Auth.RoundTrip
import TyoMq.Auth.Store
import TyoMq.Broker.AtLeastOnce
import TyoMq.Broker.Conservation
import TyoMq.Broker.Directory
import TyoMq.Broker.Groups
import TyoMq.Broker.Reliable
import TyoMq.Broker.Routing
import TyoMq.Broker.Sealed
import TyoMq.Broker.SealedAccess
import TyoMq.Broker.SealedDrains
import TyoMq.Broker.SealedLedger
import TyoMq.Broker.Settlement
import TyoMq.Broker.Subscriptions
import TyoMq.Broker.Topics
import TyoMq.Chat.Atomic
import TyoMq.Chat.OneShot
import TyoMq.Chat.Prekeys
import TyoMq.Chat.Tickets
import TyoMq.Cluster.Convergence
import TyoMq.Cluster.Freshness
import TyoMq.Cluster.Settings
import TyoMq.Cluster.SharedDocuments
import TyoMq.Config.Env
import TyoMq.Config.Merge
import TyoMq.Config.MergeLaws
import TyoMq.Config.Reload
import TyoMq.Http.Admission
import TyoMq.Http.CatchUp
import TyoMq.Http.Deliveries
import TyoMq.Http.History
import TyoMq.Http.Resumption
import TyoMq.Http.Streams
import TyoMq.Jwks.Cache
import TyoMq.Jwks.Token
import TyoMq.Lib.Agenda
import TyoMq.Lib.Books
import TyoMq.Lib.Envelope
import TyoMq.Lib.Journal
import TyoMq.Lib.JsMap
import TyoMq.Lib.JsObject
import TyoMq.Lib.JsString
import TyoMq.Lib.Json
import TyoMq.Lib.JsonString
import TyoMq.Lib.JsonTree
import TyoMq.Lib.LiveObject
import TyoMq.Lib.OwnProperties
import TyoMq.Lib.ReadCell
import TyoMq.Lib.Redis
import TyoMq.Lib.Related
import TyoMq.Lib.ReplayGuard
import TyoMq.Lib.RoundRobin
import TyoMq.Lib.RowTable
import TyoMq.Lib.Runs
import TyoMq.Lib.SharedCell
import TyoMq.Lib.Sides
import TyoMq.Lib.Tally
import TyoMq.Lib.Utf8
import TyoMq.Lib.Utf8Decoder
import TyoMq.Lib.Window
import TyoMq.Limits.Basic
import TyoMq.Limits.Conformance
import TyoMq.Limits.Connections
import TyoMq.Limits.RetryAfter
import TyoMq.Notify.Actions
import TyoMq.Notify.Auth
import TyoMq.Notify.Binding
import TyoMq.Notify.Listen
import TyoMq.Notify.Message
import TyoMq.Notify.Ring
import TyoMq.Notify.RingSpec
import TyoMq.Push.AccessTokens
import TyoMq.Push.Accounting
import TyoMq.Push.Address
import TyoMq.Push.AddressText
import TyoMq.Push.AlertFrame
import TyoMq.Push.Apns
import TyoMq.Push.Coalescing
import TyoMq.Push.Delivery
import TyoMq.Push.EvictionOrder
import TyoMq.Push.ExactTexts
import TyoMq.Push.Fcm
import TyoMq.Push.Independence
import TyoMq.Push.Logs
import TyoMq.Push.LooseTexts
import TyoMq.Push.Mirror
import TyoMq.Push.Payload
import TyoMq.Push.PayloadSize
import TyoMq.Push.RealmInvariant
import TyoMq.Push.RealmSteps
import TyoMq.Push.Registry
import TyoMq.Push.RegistrySteps
import TyoMq.Push.Renaming
import TyoMq.Push.Representation
import TyoMq.Push.Reserved
import TyoMq.Push.Restart
import TyoMq.Push.SafeUrl
import TyoMq.Push.Spellings
import TyoMq.Push.WakeRegistry
import TyoMq.Remote.Isolation
import TyoMq.Remote.Namespace
import TyoMq.Remote.Table
import TyoMq.Remote.Unlisted
import TyoMq.Storage.Commands
import TyoMq.Storage.Connect
import TyoMq.Storage.CrashSafety
import TyoMq.Storage.DeadLetters
import TyoMq.Storage.Equivalence
import TyoMq.Storage.Interleaving
import TyoMq.Storage.Keys
import TyoMq.Storage.Ledger
import TyoMq.Storage.Memory
import TyoMq.Storage.Message
import TyoMq.Storage.NoLoss
import TyoMq.Storage.Order
import TyoMq.Storage.Purge
import TyoMq.Storage.QueueIsolation
import TyoMq.Storage.Redis
import TyoMq.Storage.RedisFiling
import TyoMq.Storage.RedisOrder
import TyoMq.Storage.Sqlite
import TyoMq.Storage.TableOrder
import TyoMq.Chat.PrekeyMirror
import TyoMq.Storage.Doubles
