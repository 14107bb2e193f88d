import SysMonitor.Guarantees.RecordDelivery
import SysMonitor.Guarantees.FdMap
import SysMonitor.Guarantees.HeapSafety
import SysMonitor.Guarantees.SingleReader
import SysMonitor.Guarantees.HandleOwnership
import SysMonitor.Guarantees.SessionFraming
import SysMonitor.Guarantees.SemaphoreBalance
import SysMonitor.Guarantees.SafeUnload
import SysMonitor.Guarantees.HookInstall
import SysMonitor.Guarantees.HookRemoval
import SysMonitor.Guarantees.ReaderSilence
import SysMonitor.Guarantees.MemoryLoss
import SysMonitor.Guarantees.RecordIdentity
import SysMonitor.Guarantees.OpenDescriptors
import SysMonitor.Guarantees.LoggedPath
import SysMonitor.Guarantees.LogBlocks
import SysMonitor.Guarantees.SlotIsolation
import SysMonitor.Guarantees.ReadFaults
import SysMonitor.Guarantees.UserStrings
import SysMonitor.Guarantees.DetailsBuffer
import SysMonitor.Guarantees.DetailsText
import SysMonitor.Guarantees.RecordSize
import SysMonitor.Guarantees.ParamPositions
import SysMonitor.Guarantees.ContentStrings
import SysMonitor.Guarantees.WrapperBranches
import SysMonitor.Guarantees.TableScan
import SysMonitor.Guarantees.FilterVerdicts
import SysMonitor.Guarantees.FilterSentences
import SysMonitor.Guarantees.FilterOperators
import SysMonitor.Guarantees.PrintedLine
import SysMonitor.Guarantees.PagewiseRead
import SysMonitor.Guarantees.MemoryReferences
import SysMonitor.Guarantees.PathResolution
import SysMonitor.Guarantees.HotCacheAge
import SysMonitor.Guarantees.ProcessNames
import SysMonitor.Guarantees.HotCacheBisection
import SysMonitor.Guarantees.RegexMatching
import SysMonitor.Guarantees.RegexBuilding
import SysMonitor.Guarantees.HookRecords
import SysMonitor.Guarantees.ModuleLives
import SysMonitor.Guarantees.ModuleLives
