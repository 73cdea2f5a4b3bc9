import Nav.C.Bytes
import Nav.C.Strtok
import Nav.C.Number
import Nav.C.Stdio
import Nav.C.Buffer
import Nav.Lib.Run
import Nav.Lib.OrderedMap
import Nav.Lib.Keyed
import Nav.Lib.Writes
import Nav.Lib.PerKey
import Nav.Lib.Purge
import Nav.Lib.Linked
import Nav.Lib.Mailbox
import Nav.Lib.MailboxNames
import Nav.Lib.Script
import Nav.Lib.Servers
import Nav.Lib.PrefixTable
import Nav.Lib.Blocks
import Nav.Daemon.List
import Nav.Daemon.State
import Nav.Daemon.Whitespace
import Nav.Daemon.TagFile
import Nav.Daemon.Commands
import Nav.Daemon.Recognition
import Nav.Daemon.Setup
import Nav.Daemon.Exits
import Nav.Daemon.Changes
import Nav.Daemon.Invariant
import Nav.Daemon.Loading
import Nav.Daemon.Codec
import Nav.Daemon.LineBuffer
import Nav.Daemon.LinkedList
import Nav.Daemon.Sequence
import Nav.Daemon.Memory
import Nav.Daemon.Chains
import Nav.Daemon.Intact
import Nav.Daemon.Emptying
import Nav.Daemon.FileLines
import Nav.Daemon.LoadedPaths
import Nav.Daemon.Fragments
import Nav.Daemon.Arguments
import Nav.Daemon.Restart
import Nav.Daemon.ActionStack
import Nav.Daemon.Isolation
import Nav.Daemon.TagStore
import Nav.Daemon.ReplyBuffers
import Nav.Daemon.Scans
import Nav.Daemon.Replies
import Nav.Daemon.Saving
import Nav.Daemon.Interruption
import Nav.Daemon.Loop
import Nav.Daemon.Reading
import Nav.Daemon.Landing
import Nav.Daemon.History
import Nav.Daemon.Service
import Nav.Daemon.Outage
import Nav.Daemon.PidFidelity
import Nav.Daemon.StoredPaths
import Nav.Daemon.Takeover
import Nav.Daemon.Alloc
import Nav.Daemon.Layout
import Nav.Daemon.Owned
import Nav.Daemon.Accounts
import Nav.Daemon.Settling
import Nav.Daemon.Ledger
import Nav.Daemon.Signals
import Nav.Client.Process
import Nav.Client.Framing
import Nav.Client.Requests
import Nav.Client.PushPath
import Nav.Client.Wrapper
import Nav.Client.Exchange
import Nav.Client.Addresses
import Nav.Client.Navigation
import Nav.Client.Protocol
import Nav.Client.Shells
import Nav.Client.Browsing
import Nav.Client.Reached
