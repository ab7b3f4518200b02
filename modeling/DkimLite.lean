import DkimLite.Rust.Str
import DkimLite.Rust.Path
import DkimLite.BodySpec
import DkimLite.Header
import DkimLite.Sign
import DkimLite.MailboxSpec
import DkimLite.Text.Joined
import DkimLite.Verifier
import DkimLite.VerifierSpec
import DkimLite.Binding
import DkimLite.Rust.Stream
import DkimLite.Milter
import DkimLite.MilterSpec
import DkimLite.MilterRun
import DkimLite.Replies
import DkimLite.Message
import DkimLite.Coverage
import DkimLite.Permission
import DkimLite.System
import DkimLite.Reload
import DkimLite.Socket
import DkimLite.Connection
import DkimLite.Safety
import DkimLite.Limits
import DkimLite.Framing
import DkimLite.Canonical
import DkimLite.Selection
import DkimLite.Unlisted
import DkimLite.Log
import DkimLite.MailboxLex
import DkimLite.Rfc5322
import DkimLite.Text.Respace
import DkimLite.Refolding
import DkimLite.BodyStable
import DkimLite.Rust.Net
import DkimLite.ConfigFile
import DkimLite.ConfigGrammar
import DkimLite.ConfigLimits
import DkimLite.Folding
import DkimLite.Rust.Prog
import DkimLite.Rust.Disk
import DkimLite.Keygen
import DkimLite.Rust.Owned
import DkimLite.KeyInstall
import DkimLite.KeyTrace
import DkimLite.KeyRecord
import DkimLite.Rust.Machine
import DkimLite.Backlog
import DkimLite.Serve
import DkimLite.Rust.Along
import DkimLite.Deadline
import DkimLite.ReloadSteps
import DkimLite.Rust.Threads
import DkimLite.Rust.Channel
import DkimLite.Pool
import DkimLite.PoolEnd
import DkimLite.ReloadAtomic
import DkimLite.Daemon
import DkimLite.DaemonEnd
import DkimLite.DaemonSystem
import DkimLite.DaemonConnections
import DkimLite.Receiver
import DkimLite.KeyLife
import DkimLite.DaemonBounds
import DkimLite.EndToEnd
import DkimLite.Rotation
import DkimLite.Session
import DkimLite.CommandLine
import DkimLite.Rust.Sockets
import DkimLite.Bind
