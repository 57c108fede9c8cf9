import Yrmcds.Lib.Endian
import Yrmcds.Lib.Query
import Yrmcds.Lib.Framing
import Yrmcds.Lib.Headed
import Yrmcds.Lib.Gather
import Yrmcds.Lib.FrameLog
import Yrmcds.Lib.Run
import Yrmcds.Lib.Slots
import Yrmcds.Lib.Source
import Yrmcds.Lib.Checked
import Yrmcds.Lib.Lz77
import Yrmcds.Lib.Lengths
import Yrmcds.Lib.Scripted
import Yrmcds.Model.Basic
import Yrmcds.Model.Lz4
import Yrmcds.Model.Kernel
import Yrmcds.Model.Recv
import Yrmcds.Model.RecvBuf
import Yrmcds.Model.Send
import Yrmcds.Model.Counter
import Yrmcds.Model.CounterRecv
import Yrmcds.Model.Link
import Yrmcds.Model.Client
import Yrmcds.Model.Methods
import Yrmcds.Model.Session
import Yrmcds.Model.Threads
import Yrmcds.Model.Receiver
import Yrmcds.Model.Yc
import Yrmcds.Model.YcCommands
import Yrmcds.Model.YcCnt
import Yrmcds.Model.Wire
import Yrmcds.Model.Codec.Memory
import Yrmcds.Model.Codec.Decompress
import Yrmcds.Model.Codec.Compress
import Yrmcds.Model.Codec.Codec
import Yrmcds.Spec.ResponseFormat
import Yrmcds.Spec.CounterFormat
import Yrmcds.Spec.RequestFormat
import Yrmcds.Spec.Retrieval
import Yrmcds.Spec.SessionServer
import Yrmcds.Spec.ObjectServer
import Yrmcds.Spec.CounterServer
import Yrmcds.Spec.Replies
import Yrmcds.Spec.ListingServer
import Yrmcds.Spec.ChangeServer
import Yrmcds.Proofs.YcCnt.Runs
import Yrmcds.Proofs.YcCnt.Servers
import Yrmcds.Spec.BlockFormat
import Yrmcds.Proofs.Recv.Queue
import Yrmcds.Proofs.Recv.Deliver
import Yrmcds.Proofs.Recv.Calls
import Yrmcds.Proofs.Recv.Source
import Yrmcds.Proofs.Recv.Buffer
import Yrmcds.Proofs.Recv.Decode
import Yrmcds.Proofs.Recv.Refinement
import Yrmcds.Proofs.Recv.Inside
import Yrmcds.Proofs.Recv.Progress
import Yrmcds.Proofs.Recv.Steps
import Yrmcds.Proofs.Counter.Statistics
import Yrmcds.Proofs.Counter.Refinement
import Yrmcds.Proofs.Counter.Progress
import Yrmcds.Proofs.Send.Writev
import Yrmcds.Proofs.Send.Sync
import Yrmcds.Proofs.Compression
import Yrmcds.Proofs.Send.Sizes
import Yrmcds.Proofs.Send.Requests
import Yrmcds.Proofs.Counter.Requests
import Yrmcds.Proofs.Client.Steps
import Yrmcds.Proofs.Client.Ownership
import Yrmcds.Proofs.Client.Leaks
import Yrmcds.Proofs.Client.Handover
import Yrmcds.Proofs.Client.Delivery
import Yrmcds.Proofs.Client.Sharing
import Yrmcds.Proofs.Client.Methods
import Yrmcds.Proofs.Client.Integers
import Yrmcds.Proofs.Session.Durability
import Yrmcds.Proofs.Session.Reads
import Yrmcds.Proofs.Session.Replies
import Yrmcds.Proofs.Session.Exclusion
import Yrmcds.Proofs.Session.Locks
import Yrmcds.Proofs.Session.Steps
import Yrmcds.Proofs.Threads.Steps
import Yrmcds.Proofs.Threads.Receiver
import Yrmcds.Proofs.Recv.Bounds
import Yrmcds.Proofs.Recv.Outcome
import Yrmcds.Proofs.Threads.Senders
import Yrmcds.Proofs.Yc.Loop
import Yrmcds.Proofs.Yc.Runs
import Yrmcds.Proofs.Yc.Quiet
import Yrmcds.Proofs.Yc.Commands
import Yrmcds.Proofs.Yc.Single
import Yrmcds.Proofs.Yc.Listings
import Yrmcds.Proofs.Yc.Changes
import Yrmcds.Proofs.Yc.Storing
import Yrmcds.Proofs.Codec.Memory
import Yrmcds.Proofs.Codec.Match
import Yrmcds.Proofs.Codec.Lengths
import Yrmcds.Proofs.Codec.Decode
import Yrmcds.Proofs.Codec.Decompress
import Yrmcds.Proofs.Codec.Extent
import Yrmcds.Proofs.Codec.Count
import Yrmcds.Proofs.Codec.Search
import Yrmcds.Proofs.Codec.Emit
import Yrmcds.Proofs.Codec.Compress
import Yrmcds.Proofs.Codec.Lawful
import Yrmcds.Proofs.Codec.Receive
import Yrmcds.Proofs.Wire.Requests
import Yrmcds.Proofs.Wire.Refinement
import Yrmcds.Proofs.Wire.Exchanges
import Yrmcds.Proofs.Wire.Handover
