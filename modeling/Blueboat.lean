import Blueboat.Library.LockMachine
import Blueboat.Library.MessagePack
import Blueboat.Json
import Blueboat.JsonText
import Blueboat.MsgpackCodec
import Blueboat.SioProtocol
import Blueboat.SioGrammar
import Blueboat.MemoryStorage
import Blueboat.RoomFetcher
import Blueboat.MemoryPubSub
import Blueboat.Room
import Blueboat.Server
import Blueboat.KeepAlive
import Blueboat.Inactivity
import Blueboat.Client
import Blueboat.ClientThreads
import Blueboat.ClientRuns
import Blueboat.ClientJoins
import Blueboat.ClientDuplicates
import Blueboat.ClientRooms
import Blueboat.Ledger
import Blueboat.Effects
import Blueboat.Wiring
import Blueboat.Bookkeeping
import Blueboat.StackOrder
import Blueboat.Provenance
import Blueboat.Confinement
import Blueboat.Registry
import Blueboat.Disposal
import Blueboat.Shutdown
import Blueboat.Unchanged
import Blueboat.Membership
import Blueboat.Presence
import Blueboat.Callback
import Blueboat.OnceCallbacks
import Blueboat.Library.Machine
import Blueboat.Deliveries
import Blueboat.Scheduler
import Blueboat.ClientEvents
import Blueboat.Snapshots
import Blueboat.Teardown
import Blueboat.Reconnection
import Blueboat.Metadata
import Blueboat.Admin
import Blueboat.Joining
import Blueboat.TimedMap
import Blueboat.StartOrder
import Blueboat.Values
import Blueboat.Subscriptions
import Blueboat.Http
import Blueboat.Headers
import Blueboat.Handshake
import Blueboat.Library.Base64
import Blueboat.BasicAuth
import Blueboat.Library.Incremental
import Blueboat.ReceiveLoop
import Blueboat.Creation
import Blueboat.Departures
import Blueboat.Inquiries
import Blueboat.Agreement
import Blueboat.Windows
import Blueboat.Lifetime
import Blueboat.Escapes
import Blueboat.Library.Framing
import Blueboat.Sending
import Blueboat.Notices
import Blueboat.Progress
import Blueboat.RoomCare
import Blueboat.SessionTables
import Blueboat.Responses
import Blueboat.Outgoing
import Blueboat.Upgrade
import Blueboat.Survival
import Blueboat.Requests
import Blueboat.ClientManager
import Blueboat.ClientMessages
import Blueboat.Conversation
