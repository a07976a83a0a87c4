import Kiko.Lib.Transition
import Kiko.Core.Protocol
import Kiko.Core.TimedFrames
import Kiko.Core.Compression
import Kiko.Lib.Sha256
import Kiko.Core.Crypto
import Kiko.Core.PairingCode
import Kiko.Core.Pake
import Kiko.Core.Imohash
import Kiko.Core.MessageText
import Kiko.Core.Endpoint
import Kiko.Core.Proxy
import Kiko.Core.Cancellation
import Kiko.Relay.Race
import Kiko.Relay.Rooms
import Kiko.Relay.Hello
import Kiko.Relay.Isolation
import Kiko.Relay.Meeting
import Kiko.Relay.Pipe
import Kiko.Relay.RouteState
import Kiko.Relay.Server
import Kiko.Connect.RouteSession
import Kiko.Connect.RouteAgreement
import Kiko.Connect.DirectMux
import Kiko.Connect.Direct
import Kiko.Connect.LanUpgrade
import Kiko.Relay.Codec
import Kiko.Lib.KeyMap
import Kiko.Lib.Json
import Kiko.Lib.Pieces
import Kiko.Lib.LexicalPath
import Kiko.Lib.FileTree
import Kiko.Lib.Dialogue
import Kiko.Lib.Ensures
import Kiko.Lib.TreeGrowth
import Kiko.Lib.JsonFile
import Kiko.Lib.History
import Kiko.Transfer.Wire
import Kiko.Transfer.ReceivePaths
import Kiko.Transfer.Wildmatch
import Kiko.Transfer.GitIgnore
import Kiko.Transfer.Manifest
import Kiko.Transfer.ManifestJson
import Kiko.Transfer.ReceivePlan
import Kiko.Transfer.FileSession
import Kiko.Transfer.TransferLoop
import Kiko.Transfer.Exchange
import Kiko.Transfer.Conversation
import Kiko.Transfer.Stream
import Kiko.Transfer.StreamTransfer
import Kiko.Transfer.MuxSend
import Kiko.Transfer.MuxScheduler
import Kiko.Transfer.MuxReceive
import Kiko.Transfer.MuxPayload
import Kiko.Transfer.MuxDelivery
import Kiko.Transfer.Mux
import Kiko.Transfer.MuxTransfer
import Kiko.Transfer.Ends
import Kiko.Transfer.Agreement
import Kiko.Transfer.Spelling
import Kiko.Transfer.Intake
import Kiko.Transfer.Duplicates
import Kiko.Transfer.Placement
import Kiko.Transfer.Preflight
import Kiko.Transfer.Footprint
import Kiko.Transfer.ConflictPolicy
import Kiko.Transfer.DeclaredSize
import Kiko.Transfer.Acknowledged
import Kiko.Transfer.Targets
import Kiko.Transfer.PlanPaths
import Kiko.Transfer.Resume
import Kiko.Transfer.Containment
import Kiko.Transfer.Interrupted
import Kiko.Transfer.Reconnect
import Kiko.Transfer.Retry
import Kiko.Transfer.ProgressRun
import Kiko.Note.Protocol
import Kiko.Note.Workspace
import Kiko.Note.Codec
import Kiko.Note.LocalEdit
import Kiko.Note.Session
import Kiko.Note.Outbox
import Kiko.Note.Sync
import Kiko.Note.Convergence
import Kiko.Note.Editor
import Kiko.Web.Job
import Kiko.Web.Upload
import Kiko.Settings.AtomicFile
import Kiko.Settings.Profile
import Kiko.Settings.ProfileCounts
import Kiko.Settings.UserConfig
import Kiko.Settings.Preserved
import Kiko.Connect.RoutePlanner
import Kiko.Transfer.ConnectionCount
import Kiko.Lib.Preorder
import Kiko.Transfer.CollectFiles
import Kiko.Transfer.WalkedPaths
import Kiko.Transfer.FollowLinks
import Kiko.Lib.Rounds
import Kiko.Diagnostics.NetworkProbe
import Kiko.Lib.Feedback
import Kiko.Core.Hkdf
import Kiko.Lib.Search
import Kiko.Web.HttpRequest
import Kiko.Lib.CheckedInt
import Kiko.Connect.CandidateScoring
