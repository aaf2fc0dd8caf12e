import Paranoia.Proof.Frame
import Paranoia.Proof.HighWater
import Paranoia.Proof.Replay
import Paranoia.Proof.Authorship
import Paranoia.Proof.Receipts
import Paranoia.Proof.Positions
import Paranoia.Proof.Convergence
import Paranoia.Proof.Binding
import Paranoia.Proof.PutOnce
import Paranoia.Proof.AdminReplay
import Paranoia.Proof.CoverLoss
import Paranoia.Proof.TurnRoute
import Paranoia.Proof.Shutdown
import Paranoia.Proof.OwnPackets
import Paranoia.Proof.CallMailbox
import Paranoia.Proof.ConfigFile
import Paranoia.Proof.Prune
import Paranoia.Proof.Isolation
import Paranoia.Proof.Startup
import Paranoia.Proof.Inbox
import Paranoia.Proof.PinChange
import Paranoia.Proof.Chat
import Paranoia.Proof.ChannelPush
import Paranoia.Proof.CoverAgreement
import Paranoia.Proof.Unread
import Paranoia.Proof.KeyReap
import Paranoia.Proof.Recovery
import Paranoia.Proof.Lockout
import Paranoia.Proof.CallHandOff
import Paranoia.Proof.MessagePoll
import Paranoia.Proof.Termination
import Paranoia.Proof.FileGuard
import Paranoia.Proof.PlainReceive
import Paranoia.Proof.Timeline
import Paranoia.Proof.VideoLoss
import Paranoia.Proof.Jitter
import Paranoia.Proof.TurnBuilder
import Paranoia.Proof.Ranges
import Paranoia.Proof.ChunkAssembly
import Paranoia.Proof.Download
import Paranoia.Proof.TopicDeletion
import Paranoia.Proof.DialogueList
import Paranoia.Proof.NonceQueue
import Paranoia.Proof.Nginx
import Paranoia.Proof.KeyringJson
import Paranoia.Proof.Reactions
import Paranoia.Proof.MessageDeletion
import Paranoia.Proof.DurableLog
import Paranoia.Proof.ProfileMove
import Paranoia.Proof.ProfileSettings
import Paranoia.Proof.ProfileImport
import Paranoia.Proof.EphemeralDelivery
import Paranoia.Proof.SchemaGen
import Paranoia.Proof.Corporate
import Paranoia.Proof.CallRelay
import Paranoia.Proof.VideoCall
import Paranoia.Proof.ProfileExport
