import DartSync.Common.Constant
import DartSync.Foundation.FirstDistinct
import DartSync.Foundation.Keyed
import DartSync.Foundation.Slots
import DartSync.Foundation.Transition
import DartSync.Peer.Compare
import DartSync.Peer.Monitor
import DartSync.System.Model
import DartSync.Tracker.FileTable
import DartSync.Tracker.ReportSummary
import DartSync.Tracker.SourceList
import DartSync.System.View
import DartSync.System.Change
import DartSync.System.SourceSoundness
import DartSync.System.Quiescence
import DartSync.System.LocalEdits
import DartSync.Common.Pkt
import DartSync.Tracker.Handshake
import DartSync.Tracker.Reassembly
import DartSync.Tracker.Robustness
import DartSync.Foundation.Codec
import DartSync.Common.Wire
import DartSync.Common.Framing
import DartSync.Foundation.Shuffle
import DartSync.Tracker.Broadcast
import DartSync.Foundation.Memory
import DartSync.Transfer.Piece
import DartSync.Peer.Calls
import DartSync.Peer.Deletions
import DartSync.Peer.TablePass
import DartSync.Peer.VersionOrder
import DartSync.Foundation.Parts
import DartSync.Transfer.Layout
import DartSync.Transfer.Resume
import DartSync.Transfer.Sources
import DartSync.Foundation.Newest
import DartSync.Tracker.MergeOrder
import DartSync.Foundation.LinkedList
import DartSync.Tracker.PeerList
import DartSync.System.Calls
import DartSync.Tracker.Connections
import DartSync.Peer.Mirror
import DartSync.Peer.Watches
import DartSync.Tracker.AcceptLoop
import DartSync.Tracker.ConcurrentMerge
import DartSync.Peer.ConcurrentSend
import DartSync.Peer.TableGrowth
import DartSync.Transfer.Partition
import DartSync.Transfer.ResumeCount
import DartSync.Tracker.Sweep
import DartSync.Tracker.BroadcastLoop
import DartSync.Transfer.Segments
import DartSync.Transfer.BrokenSource
import DartSync.Transfer.FrameWindows
import DartSync.Transfer.CopyBounds
import DartSync.Transfer.LargeSizes
import DartSync.Foundation.Paths
import DartSync.Transfer.Requests
import DartSync.Transfer.TempNames
import DartSync.Peer.DirectoryTree
import DartSync.Common.PeerWire
import DartSync.Tracker.TableStream
import DartSync.System.Wire
import DartSync.System.WireRefinement
import DartSync.System.WireRuns
import DartSync.System.VersionFlow
import DartSync.Foundation.ListLoops
import DartSync.Tracker.TableMemory
import DartSync.Transfer.Exchange
import DartSync.Transfer.TempFiles
import DartSync.Transfer.PeerDownload
import DartSync.Transfer.Replication
import DartSync.Foundation.Records
import DartSync.Peer.EventBuffer
import DartSync.Peer.TableMemory
import DartSync.Foundation.Potential
import DartSync.System.Convergence
import DartSync.System.Membership
import DartSync.System.ListedPeers
import DartSync.Peer.Config
import DartSync.Foundation.SharedStore
import DartSync.Transfer.PieceThreads
import DartSync.Transfer.ThreadOrder
import DartSync.Transfer.Interruption
import DartSync.Transfer.SideBySide
import DartSync.System.UserDeletions
