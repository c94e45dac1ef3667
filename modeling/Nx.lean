import Nx.SharedFaults
import Nx.CowRaces
import Nx.KernelPages
import Nx.MmapRights
import Nx.ThreadArray
import Nx.IoPorts
import Nx.Mailbox
import Nx.Wakeups
import Nx.Semaphores
import Nx.RpcAssertions
import Nx.RpcIsolation
import Nx.RpcReplies
import Nx.ArrayOrder
import Nx.ChunkLists
import Nx.ListWorlds
import Nx.StringRuns
import Nx.BucketRuns
import Nx.BucketSweeps
import Nx.BucketRepeats
import Nx.TreeBalance
import Nx.TreeIndex
import Nx.AllocationSizes
import Nx.PmmInit
import Nx.RpcPending
import Nx.SignalBlocking
import Nx.SignalLeaves
import Nx.TicketMapping
import Nx.Madt
import Nx.ExclusiveTickets
import Nx.TarfsReads
import Nx.TarfsPaths
import Nx.VfsServer
import Nx.NodeCache
import Nx.Params
import Nx.RingBuffers
import Nx.RuntimeMap
import Nx.GzipHeaders
import Nx.EfxOptions
import Nx.CStrings
import Nx.FallbackConsole
import Nx.ZprPrint
import Nx.ThreadTls
import Nx.ExitHandlers
