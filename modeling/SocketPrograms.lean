import SocketPrograms.Lib.Machine
import SocketPrograms.Lib.Fair
import SocketPrograms.Lib.Frames
import SocketPrograms.Lib.Attempts
import SocketPrograms.Lib.Sweep
import SocketPrograms.Lib.CString
import SocketPrograms.Lib.Words
import SocketPrograms.Lib.Format
import SocketPrograms.Lib.Numerals
import SocketPrograms.Poll.Table
import SocketPrograms.Poll.Server
import SocketPrograms.Poll.Invariant
import SocketPrograms.Poll.Pass
import SocketPrograms.Poll.Completeness
import SocketPrograms.Poll.Soundness
import SocketPrograms.Poll.Broadcast
import SocketPrograms.Poll.Echo
import SocketPrograms.Poll.Fairness
import SocketPrograms.Poll.Capacity
import SocketPrograms.Select.Server
import SocketPrograms.Select.Descriptors
import SocketPrograms.Select.Readiness
import SocketPrograms.Setup.Descriptors
import SocketPrograms.Setup.Client
import SocketPrograms.Setup.Server
import SocketPrograms.Select.Range
import SocketPrograms.Sigio.Handler
import SocketPrograms.Sigio.System
import SocketPrograms.Sigio.Delivery
import SocketPrograms.EchoServer.Loops
import SocketPrograms.EchoClient.Receive
import SocketPrograms.EchoClient.Segmentation
import SocketPrograms.Greeting.Protocol
import SocketPrograms.Greeting.Correct
import SocketPrograms.Greeting.Termination
import SocketPrograms.EchoSystem.Connection
import SocketPrograms.EchoSystem.Correct
import SocketPrograms.EchoSystem.Completion
import SocketPrograms.Vote.DelimFramer
import SocketPrograms.Vote.Framer
import SocketPrograms.Vote.LengthFramer
import SocketPrograms.Vote.EncodingText
import SocketPrograms.Vote.WireFormat
import SocketPrograms.Vote.EncodingText2
import SocketPrograms.Vote.Server
import SocketPrograms.Vote.Turn
import SocketPrograms.Vote.Numbers
import SocketPrograms.Vote.Codecs
import SocketPrograms.Vote.Encoder
import SocketPrograms.Vote.Tally
import SocketPrograms.Vote.Isolation
import SocketPrograms.Vote.Survival
import SocketPrograms.Vote.Session
import SocketPrograms.Vote.Reply
import SocketPrograms.Vote.Exchange
import SocketPrograms.Vote.ClientReport
import SocketPrograms.EchoSystem.Service
import SocketPrograms.EchoSystem.Apart
import SocketPrograms.EchoSystem.AllServed
import SocketPrograms.Poll.Reflection
import SocketPrograms.Lib.Parts
import SocketPrograms.Vote.Fragments
import SocketPrograms.Vote.Requests
import SocketPrograms.Vote.Election
import SocketPrograms.Select.Sessions
import SocketPrograms.Setup.Listener
import SocketPrograms.Vote.LengthStream
import SocketPrograms.Greeting.Failures
import SocketPrograms.Greeting.Completion
import SocketPrograms.Select.Lifetime
import SocketPrograms.Poll.Agreement
import SocketPrograms.Poll.Starvation
import SocketPrograms.Vote.Channel
