import HdfStream.Lib.Cells
import HdfStream.Lib.Counting
import HdfStream.Lib.Descriptors
import HdfStream.Lib.DoublyLinked
import HdfStream.Lib.Msgpack
import HdfStream.Lib.Packer
import HdfStream.Lib.Fields
import HdfStream.Lib.Zipper
import HdfStream.Lib.HeightBalanced
import HdfStream.Lib.Intervals
import HdfStream.Lib.JavaArray
import HdfStream.Lib.Separated
import HdfStream.Lib.JavaString
import HdfStream.Lib.LinkedMap
import HdfStream.Lib.LinkedTree
import HdfStream.Lib.Loop
import HdfStream.Lib.Machine
import HdfStream.Lib.Memory
import HdfStream.Lib.OrderedMap
import HdfStream.Lib.Outcome
import HdfStream.Lib.Permits
import HdfStream.Lib.Pieces
import HdfStream.Lib.Recency
import HdfStream.Lib.SearchTree
import HdfStream.Lib.Semaphore
import HdfStream.Lib.TokenRing
import HdfStream.Lib.Trie
import HdfStream.Lib.Unpacker
import HdfStream.Maps.AvlTree
import HdfStream.Maps.NodeHeight
import HdfStream.Maps.TreeState
import HdfStream.Maps.Rebalance
import HdfStream.Maps.Updates
import HdfStream.Maps.AvlRuns
import HdfStream.Maps.Balance
import HdfStream.Maps.Keys
import HdfStream.Maps.LinkedList
import HdfStream.Maps.OrderedMap
import HdfStream.Maps.MapState
import HdfStream.Maps.MapRuns
import HdfStream.Ring.Model
import HdfStream.Ring.Window
import HdfStream.Ring.Invariant
import HdfStream.Ring.WorkerSteps
import HdfStream.Ring.ClientSteps
import HdfStream.Ring.Runs
import HdfStream.Ring.Fifo
import HdfStream.Ring.Interrupted
import HdfStream.Ring.Sessions
import HdfStream.Pool.Model
import HdfStream.Pool.Invariant
import HdfStream.Pool.Steps
import HdfStream.Pool.Transitions
import HdfStream.Pool.CacheInfo
import HdfStream.Pool.Safety
import HdfStream.Pool.Shutdown
import HdfStream.Pool.Interrupted
import HdfStream.Pool.Custody
import HdfStream.Pool.Recovery
import HdfStream.Pool.Rotation
import HdfStream.Pool.Signals
import HdfStream.Pool.Stranded
import HdfStream.Framing.Model
import HdfStream.Framing.Decoding
import HdfStream.Framing.Invariant
import HdfStream.Framing.Runs
import HdfStream.Cache.Model
import HdfStream.Cache.Mirror
import HdfStream.Cache.Handles
import HdfStream.Cache.Expiry
import HdfStream.Cache.Inclusion
import HdfStream.Slices.Model
import HdfStream.Slices.Request
import HdfStream.Slices.Iterator
import HdfStream.Slices.Delivery
import HdfStream.Slices.RowSize
import HdfStream.Slices.Validation
import HdfStream.Slices.WrongRank
import HdfStream.Virtual.Model
import HdfStream.Virtual.Paths
import HdfStream.Virtual.Tree
import HdfStream.Virtual.Access
import HdfStream.Virtual.Growth
import HdfStream.Virtual.Views
import HdfStream.Virtual.Configuration
import HdfStream.Virtual.CanonicalPath
import HdfStream.Virtual.Inheritance
import HdfStream.Virtual.Listing
import HdfStream.Virtual.TarFile
import HdfStream.Select.Model
import HdfStream.Select.Slices
import HdfStream.Pack.Datatype
import HdfStream.Pack.Contents
import HdfStream.Pack.RoundTrip
import HdfStream.Pack.Variable
import HdfStream.Pack.Attributes
import HdfStream.Pack.Stored
import HdfStream.Pack.Dataset
import HdfStream.Pack.Descriptor
import HdfStream.Pack.Traps
import HdfStream.Pack.Entries
import HdfStream.Pack.Values
import HdfStream.Pack.Object
import HdfStream.Streams.Model
import HdfStream.Streams.Invariant
import HdfStream.Streams.Steps
import HdfStream.Streams.Safety
import HdfStream.Reading.Model
import HdfStream.Reading.Contract
import HdfStream.Webapp.SliceInfo
import HdfStream.Webapp.Request
import HdfStream.Webapp.StreamCopier
import HdfStream.Webapp.ResponseCache
import HdfStream.Webapp.Server
import HdfStream.Webapp.ServerSteps
import HdfStream.Webapp.Configurations
import HdfStream.Webapp.Visibility
import HdfStream.Webapp.Answers
import HdfStream.Webapp.Downloads
import HdfStream.Webapp.SlicePack
import HdfStream.Webapp.GetPost
import HdfStream.Webapp.OpenSlices
import HdfStream.Webapp.SliceGrammar
import HdfStream.Delivery.Model
import HdfStream.Delivery.Fetch
import HdfStream.Delivery.Reads
import HdfStream.Delivery.Invariant
import HdfStream.Delivery.Delivered
import HdfStream.Descriptors.Model
import HdfStream.Descriptors.Steps
import HdfStream.Descriptors.Ownership
import HdfStream.Descriptors.Death
import HdfStream.Descriptors.Orphans
import HdfStream.Library.Model
import HdfStream.Library.Invariant
import HdfStream.Library.Affinity
import HdfStream.Startup.Model
import HdfStream.Startup.Steps
import HdfStream.Startup.Invariant
import HdfStream.Startup.Safety
