import Rystemd.JobTable
import Rystemd.StopTimeout
import Rystemd.JobAccounts
import Rystemd.References
import Rystemd.PidOwnership
import Rystemd.JobPresence
import Rystemd.JobChanges
import Rystemd.Failures
import Rystemd.Emissions
import Rystemd.Library.Paths
import Rystemd.StaleExits
import Rystemd.StoppedUnits
import Rystemd.WaitGraph
import Rystemd.Library.SocketFilter
import Rystemd.Syscalls
import Rystemd.Library.Text
import Rystemd.Library.Overlay
import Rystemd.SyscallFilters
import Rystemd.SeccompGates
import Rystemd.BoundingSet
import Rystemd.PrivilegeDrop
import Rystemd.DropIns
import Rystemd.BadUnitFiles
import Rystemd.MaskedUnits
import Rystemd.ControlClients
import Rystemd.Devices
import Rystemd.Journal
import Rystemd.Readiness
import Rystemd.LocalTime
import Rystemd.RawUnitFile
import Rystemd.RepoWrites
import Rystemd.Directories
import Rystemd.FilteredSetup
import Rystemd.SocketStart
import Rystemd.StartSequence
import Rystemd.EventLoop
import Rystemd.OnFailure
import Rystemd.StartLimit
import Rystemd.Library.Simulation
import Rystemd.Deadlines
import Rystemd.CalendarText
import Rystemd.FieldValues
import Rystemd.Library.Partial
import Rystemd.CalendarEnds
import Rystemd.FieldExpressions
import Rystemd.Library.LeastSearch
import Rystemd.CalendarOrder
import Rystemd.Elapse
import Rystemd.WeekdayAndDate
import Rystemd.Library.FileTree
import Rystemd.Library.Recursion
import Rystemd.Enable
import Rystemd.Masking
import Rystemd.AlsoCycles
import Rystemd.StrayLinks
import Rystemd.UnitNames
import Rystemd.EnabledUnits
import Rystemd.Words
import Rystemd.Listeners
import Rystemd.Expand
import Rystemd.DropInOrder
import Rystemd.Output
import Rystemd.Closure
import Rystemd.ObjectPaths
import Rystemd.Sysctl
import Rystemd.MountPaths
import Rystemd.GlobMatch
import Rystemd.TimeSpanText
import Rystemd.PathWatch
import Rystemd.KillSettings
import Rystemd.StateChanges
import Rystemd.Spawned
import Rystemd.JobAnswers
import Rystemd.Schedule
import Rystemd.TimeSpanDisplay
import Rystemd.ControlExchange
import Rystemd.UnitObjects
import Rystemd.BusNames
