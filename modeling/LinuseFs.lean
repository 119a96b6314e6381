import LinuseFs.Analysis.DirectoryUpdate
import LinuseFs.Analysis.DirectoryScan
import LinuseFs.Analysis.RequestCodec
import LinuseFs.Analysis.RequestHandling
import LinuseFs.Model.Serialization
import LinuseFs.Model.Server
import LinuseFs.Model.Format
import LinuseFs.Analysis.ReadReply
import LinuseFs.Analysis.Operations
import LinuseFs.Analysis.BlockOwnership
import LinuseFs.Analysis.NameRuns
import LinuseFs.Analysis.RemovalEffect
import LinuseFs.Analysis.TruncateEffect
import LinuseFs.Analysis.GrowthEffect
import LinuseFs.Analysis.GapEffect
import LinuseFs.Analysis.DescriptorEffect
import LinuseFs.Analysis.RenameEffect
import LinuseFs.Analysis.SearchRuns
import LinuseFs.Analysis.FileContents
import LinuseFs.Analysis.FormattedDisk
import LinuseFs.Analysis.LookupFrame
import LinuseFs.Computation.Buffer
import LinuseFs.Analysis.PointerSlots
import LinuseFs.Analysis.ConnectionSlots
import LinuseFs.Computation.Run
import LinuseFs.Model.Sacio
import LinuseFs.Interface.WellFormed
import LinuseFs.Computation.Namespace
import LinuseFs.Computation.Exclusive
import LinuseFs.Computation.ByteFile
import LinuseFs.Analysis.Paths
import LinuseFs.Analysis.Creation
import LinuseFs.Analysis.Deletion
import LinuseFs.Analysis.Renaming
import LinuseFs.Analysis.FileBlocks
import LinuseFs.Analysis.FileWrite
import LinuseFs.Analysis.FileRead
import LinuseFs.Analysis.FileTruncate
import LinuseFs.Analysis.OverwriteEffect
import LinuseFs.Analysis.DirectoryIteration
import LinuseFs.Analysis.OutOfBlocks
import LinuseFs.Analysis.ReaddirReply
import LinuseFs.Analysis.RenameFailure
import LinuseFs.Analysis.StoredNames
import LinuseFs.Analysis.EntryAddition
import LinuseFs.Analysis.EntryDeletion
import LinuseFs.Analysis.DirectoryLeaks
import LinuseFs.Analysis.BitmapStorage
import LinuseFs.Analysis.DiskAddressing
import LinuseFs.Analysis.Allocation
import LinuseFs.Analysis.NodeCodec
import LinuseFs.Analysis.PathDecomposition
import LinuseFs.Analysis.FileOwnership
import LinuseFs.Computation.Steps
import LinuseFs.Model.Threads
import LinuseFs.Analysis.ThreadSteps
import LinuseFs.Analysis.ConcurrentCreation
import LinuseFs.Model.Main
import LinuseFs.Analysis.ReservationOrder
import LinuseFs.Analysis.BlocksTaken
import LinuseFs.Analysis.Restart
import LinuseFs.Computation.FileTree
import LinuseFs.Analysis.TreeOnDisk
import LinuseFs.Analysis.TreeRefinement
import LinuseFs.Analysis.TreeRuns
import LinuseFs.Model.Fuse
import LinuseFs.Analysis.RemoteCall
import LinuseFs.Analysis.KernelCalls
import LinuseFs.Analysis.FileCopies
import LinuseFs.Analysis.KilledServer
import LinuseFs.Computation.Interference
import LinuseFs.Analysis.RacingCreation
import LinuseFs.Analysis.KilledCreations
