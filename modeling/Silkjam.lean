import Silkjam.Backup.Archive
import Silkjam.Backup.Autosave
import Silkjam.Backup.Format
import Silkjam.Backup.Retention
import Silkjam.Backup.Schedule
import Silkjam.Models.Semantics
import Silkjam.Models.ServerProperties
import Silkjam.Orchestrator.Applied
import Silkjam.Orchestrator.Stored
import Silkjam.Protocol.Buffer
import Silkjam.Protocol.Forward
import Silkjam.Protocol.LegacyReading
import Silkjam.Protocol.LegacyRoundTrip
import Silkjam.Protocol.Malformed
import Silkjam.Protocol.RoundTrip
import Silkjam.Proxy.Datagrams
import Silkjam.Proxy.Relaying
import Silkjam.Proxy.Status
import Silkjam.Proxy.Voice
import Silkjam.Server.Closing
import Silkjam.Server.FailedStart
import Silkjam.Server.OnlineCount
import Silkjam.Server.Players
import Silkjam.Server.SleepTimer
import Silkjam.Server.StatusChecker
import Silkjam.Supervisor.CleanStop
import Silkjam.Supervisor.Countdown
import Silkjam.Supervisor.Forced
import Silkjam.Supervisor.Outcomes
import Silkjam.Supervisor.Pairing
import Silkjam.Supervisor.Registry
import Silkjam.Supervisor.Chronicle
