import Rsupervisord.EventListener.ProgramStatus
import Rsupervisord.EventListener.WireFormat
import Rsupervisord.EventListener.ExitReport
import Rsupervisord.Logging.RingRefinement
import Rsupervisord.Logging.Seeding
import Rsupervisord.Logging.BackEnds
import Rsupervisord.Logging.Polling
import Rsupervisord.Logging.Rotation
import Rsupervisord.Program.LifecycleInvariants
import Rsupervisord.Program.HealthIsolation
import Rsupervisord.EventListener.Dispatch
import Rsupervisord.Manager.GraphInvariant
import Rsupervisord.Manager.PoolInvariant
import Rsupervisord.Manager.Reload
import Rsupervisord.Manager.DagLayers
import Rsupervisord.EventListener.Handshake
import Rsupervisord.Program.Logs
import Rsupervisord.Program.StartupRetries
import Rsupervisord.Compat.XmlRpc.RoundTrip
import Rsupervisord.Manager.Timeouts
import Rsupervisord.Manager.CronRuns
import Rsupervisord.Manager.Bracketing
import Rsupervisord.Manager.GroupOrder
import Rsupervisord.Config.ResolveOrder
import Rsupervisord.Config.CommandLineRoundTrip
import Rsupervisord.Cli.Commands
import Rsupervisord.Cli.StatusFilter
import Rsupervisord.Config.LogTranslation
import Rsupervisord.Config.LogJoining
import Rsupervisord.Config.DoubleExpansion
import Rsupervisord.Config.SecondEvaluation
import Rsupervisord.Config.TranslatePaths
import Rsupervisord.Config.ExpandsOnce
import Rsupervisord.EventListener.PidReport
import Rsupervisord.Logging.RingReads
import Rsupervisord.Logging.RingLines
import Rsupervisord.Logging.Windows
import Rsupervisord.Compat.XmlRpc.TailOffsets
import Rsupervisord.Logging.RotatorRecovery
import Rsupervisord.Logging.RotationFrame
import Rsupervisord.Logging.SyslogGrammar
import Rsupervisord.Program.Stdin
import Rsupervisord.Logging.LiveLines
import Rsupervisord.Logging.Pump
import Rsupervisord.Logging.Retention
import Rsupervisord.Manager.WatchIsolation
import Rsupervisord.Manager.WatchActions
import Rsupervisord.Manager.WatchedDirectories
import Rsupervisord.EventListener.Overflow
import Rsupervisord.EventListener.GroupEvents
import Rsupervisord.Config.Instances
import Rsupervisord.Config.LogSpelling
import Rsupervisord.Config.Pipeline
import Rsupervisord.Config.Substitution
import Rsupervisord.Compat.Ini.Printing
import Rsupervisord.Compat.Ini.Values
import Rsupervisord.Server.PercentDecode
import Rsupervisord.Manager.Dependents
import Rsupervisord.Manager.HealthReports
import Rsupervisord.Manager.CronWakeup
import Rsupervisord.Platform.Paths
import Rsupervisord.Compat.XmlRpc.Multicall
import Rsupervisord.Support.XmlTokens
import Rsupervisord.Compat.XmlRpc.Tokens
import Rsupervisord.Compat.XmlRpc.CutValues
import Rsupervisord.Compat.XmlRpc.Truncation
import Rsupervisord.Logging.Syslog
import Rsupervisord.Server.SyncStart
import Rsupervisord.Server.Sessions
import Rsupervisord.Cli.Credentials
import Rsupervisord.Logging.LogPumps
import Rsupervisord.Logging.LogFiles
import Rsupervisord.Support.Json
import Rsupervisord.Config.SerdeUtil
import Rsupervisord.Compat.Ini.Adapter
import Rsupervisord.Compat.Ini.Tree
