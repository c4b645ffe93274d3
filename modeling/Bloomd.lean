import Bloomd.RecoveryInvariant
import Bloomd.MissingLog
import Bloomd.AddAfterRestart
import Bloomd.ControlSafety
import Bloomd.TornRestart
import Bloomd.FilterLimit
import Bloomd.LoadComparison
import Bloomd.FilterSetMap
import Bloomd.LogRoundTrip
import Bloomd.HashInjectivity
import Bloomd.ServerCounters
import Bloomd.CreateNumerals
import Bloomd.RootSpelling
import Bloomd.RequestRollback
import Bloomd.DropMeaning
import Bloomd.ServerHistory
import Bloomd.ControlStore
import Bloomd.EventLoopSockets
import Bloomd.EventLoopTimes
