import Numactl.Base.Words
import Numactl.Base.Runs
import Numactl.Base.CString
import Numactl.Base.NumberList
import Numactl.Base.FlagCache
import Numactl.Bitmask
import Numactl.BitmaskSets
import Numactl.ParseBitmap
import Numactl.BitmapRoundTrip
import Numactl.NodeCpus
import Numactl.NodeCpusHistory
import Numactl.NodeString
import Numactl.ListSets
import Numactl.NodeList
import Numactl.ListInversion
import Numactl.Policy
import Numactl.PolicyHistory
import Numactl.Compat
import Numactl.Shm
import Numactl.Options
import Numactl.RegionPolicy
import Numactl.PolicyConflict
import Numactl.RunNodes
import Numactl.Attach
import Numactl.MaskBits
import Numactl.ReadMask
import Numactl.TaskConstraints
import Numactl.Rtnetlink
import Numactl.Distance
import Numactl.Base.SelectionSort
import Numactl.Table
import Numactl.Base.LineLayout
import Numactl.Numastat
import Numactl.TableDisplay
import Numactl.NumastatTables
import Numactl.NumastatRuns
import Numactl.Base.RoundRobin
import Numactl.CpuBinding
import Numactl.InterleaveOrder
import Numactl.DeviceItems
import Numactl.MembindVersions
import Numactl.PreferredManyProbe
import Numactl.SizeText
import Numactl.CpuList
import Numactl.SortColumn
import Numactl.ProcessTotals
import Numactl.Base.LineBuffer
import Numactl.MapsAccounting
import Numactl.NodeQueries
import Numactl.DistanceStores
import Numactl.Base.Ranges
import Numactl.NodesInit
import Numactl.Hardware
import Numactl.Base.ProbeTable
import Numactl.Base.RunLength
import Numactl.ShmDump
import Numactl.SystemFiles
import Numactl.SystemTables
import Numactl.Base.Chains
import Numactl.PointerChase
import Numactl.Affinity
import Numactl.Base.Doubling
import Numactl.Base.Recurrence
import Numactl.Base.Regions
import Numactl.Heap
import Numactl.LibraryInit
import Numactl.Memtest
import Numactl.RouteRequest
import Numactl.Base.Compaction
import Numactl.NumastatMain
import Numactl.Base.FieldLines
import Numactl.Show
import Numactl.ShowLaunch
import Numactl.HardwareReport
import Numactl.HugePages
