import LzLib.Foundation.Runs
import LzLib.Foundation.Rings
import LzLib.Foundation.NullLists
import LzLib.Hash.HashFn
import LzLib.Foundation.Gather
import LzLib.Foundation.Numerals
import LzLib.Dict.DataDef
import LzLib.Dict.DictDef
import LzLib.Dict.Representation
import LzLib.Dict.Values
import LzLib.Dict.FiniteMap
import LzLib.Dict.SerializeDef
import LzLib.Dict.UnserializeSafety
import LzLib.Dict.UnserializeMerge
import LzLib.Dict.RoundTrip
import LzLib.Dict.Buckets
import LzLib.Dict.BufferSize
import LzLib.Dict.IntegersDef
import LzLib.Dict.Integers
import LzLib.Dict.OldFormatDef
import LzLib.Dict.VectorForm
import LzLib.Dict.OldRoundTrip
import LzLib.Dict.FamilyDef
import LzLib.Dict.Keyed
import LzLib.Dict.References
import LzLib.Dict.FamilyRuns
import LzLib.Dict.Lookups
import LzLib.Dict.Merging
import LzLib.Socket.RwvDef
import LzLib.Socket.Rwv
import LzLib.Event.Registry
import LzLib.Socket.OutgoingDef
import LzLib.Socket.ProtoDef
import LzLib.Socket.Outgoing
import LzLib.Socket.Submit
import LzLib.Socket.Framing
import LzLib.Socket.Delivery
import LzLib.Iobuf.PoolDef
import LzLib.Iobuf.Arenas
import LzLib.Iobuf.PoolRuns
import LzLib.Iobuf.Contraction
import LzLib.Iobuf.Pages
import LzLib.Iobuf.Destroy
import LzLib.Event.RegistryRuns
import LzLib.Event.Atomicity
import LzLib.Socket.Agreement
import LzLib.Socket.PageFit
import LzLib.Socket.Progress
import LzLib.MemPool.MemPoolDef
import LzLib.MemPool.Conservation
import LzLib.MemPool.Membership
import LzLib.Timer.TimerDef
import LzLib.Timer.TimerInvariant
import LzLib.Timer.TimerRuns
import LzLib.Timer.Interleaving
import LzLib.Timer.Deadline
import LzLib.Foundation.ItemSets
import LzLib.Foundation.Scanning
import LzLib.Foundation.Literals
import LzLib.Foundation.Tokens
import LzLib.Foundation.Blocks
import LzLib.Foundation.Strings
import LzLib.Foundation.Memory
import LzLib.CommonUtils.NumbersDef
import LzLib.CommonUtils.ByteSize
import LzLib.Rbthash.RbthashDef
import LzLib.Rbthash.RbthashMap
import LzLib.Rbthash.RbthashLedger
import LzLib.Iobuf.IobrefDef
import LzLib.Iobuf.IobrefInvariant
import LzLib.Iobuf.IobrefRuns
import LzLib.Socket.OwnershipDef
import LzLib.Socket.Ownership
import LzLib.Socket.Accounts
import LzLib.Foundation.Traced
import LzLib.Socket.Creation
import LzLib.Socket.ConnectDef
import LzLib.Socket.Connect
import LzLib.Socket.CreationDef
import LzLib.CommonUtils.FixedWidth
import LzLib.CommonUtils.Durations
import LzLib.CommonUtils.TokensDef
import LzLib.CommonUtils.Strsplit
import LzLib.CommonUtils.Strstr
import LzLib.CommonUtils.IovSubset
import LzLib.Checksum.WeakChecksum
import LzLib.Foundation.SeededXor
import LzLib.CommonUtils.FileChecksumDef
import LzLib.CommonUtils.FileChecksum
import LzLib.CommonUtils.ByteCoverage
import LzLib.Hash.DmHash
import LzLib.Hash.DmHashDef
import LzLib.Hash.ReallySimple
import LzLib.Logging.ClientLogDef
import LzLib.Logging.ClientLogs
import LzLib.Foundation.Batches
import LzLib.CommonUtils.ResolverDef
import LzLib.CommonUtils.Resolver
import LzLib.Name.InetDef
import LzLib.Name.Ports
import LzLib.Foundation.Copies
import LzLib.Name.UnixDef
import LzLib.Name.Paths
import LzLib.Foundation.Comparators
import LzLib.Rbthash.ComparatorOrder
import LzLib.Foundation.RedBlack
import LzLib.Foundation.RedBlackRepair
import LzLib.Foundation.SearchTrees
import LzLib.Foundation.SortedSets
import LzLib.Foundation.Refinement
import LzLib.Rb.RbDef
import LzLib.Rb.Represent
import LzLib.Rb.Probe
import LzLib.Rb.Delete
import LzLib.Rb.RbRuns
import LzLib.Rb.Destroy
import LzLib.Rbthash.TreesDef
import LzLib.Rbthash.TreesMap
import LzLib.Foundation.Pieces
import LzLib.Foundation.Sines
import LzLib.Checksum.Md5Def
import LzLib.Checksum.Md5
import LzLib.Socket.Arrival
import LzLib.Socket.Conversation
import LzLib.Foundation.Walks
import LzLib.Rb.TraverserDef
import LzLib.Rb.Walking
import LzLib.Rb.Slots
import LzLib.Rb.TraverserRuns
import LzLib.Rb.Traversal
import LzLib.Event.DispatchDef
import LzLib.Event.Dispatch
import LzLib.Event.Poll
