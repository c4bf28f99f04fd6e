import Fwknox.AddrProofs
import Fwknox.AuthorizationProofs
import Fwknox.BackendProofs
import Fwknox.BitPrefixProofs
import Fwknox.BootProofs
import Fwknox.BucketProofs
import Fwknox.BuildProofs
import Fwknox.CapabilityProofs
import Fwknox.CaptureProofs
import Fwknox.ClientProofs
import Fwknox.ClockProofs
import Fwknox.ClockStepProofs
import Fwknox.CompletenessProofs
import Fwknox.ConfigProofs
import Fwknox.ConformanceProofs
import Fwknox.ConsumptionProofs
import Fwknox.CrashProofs
import Fwknox.DaemonProofs
import Fwknox.EnforcementProofs
import Fwknox.HeaderProofs
import Fwknox.IpcProofs
import Fwknox.LimiterProofs
import Fwknox.LruProofs
import Fwknox.MatcherProofs
import Fwknox.NetfilterProofs
import Fwknox.NftProofs
import Fwknox.OrderProofs
import Fwknox.OutcomeProofs
import Fwknox.PacketProofs
import Fwknox.PersistProofs
import Fwknox.PipelineProofs
import Fwknox.PoisonProofs
import Fwknox.ProgProofs
import Fwknox.PromotionProofs
import Fwknox.RaceProofs
import Fwknox.ReaderProofs
import Fwknox.RemovalProofs
import Fwknox.ReplayProofs
import Fwknox.RestartProofs
import Fwknox.RetentionProofs
import Fwknox.SandboxProofs
import Fwknox.ScheduleProofs
import Fwknox.SharedProofs
import Fwknox.ShutdownProofs
import Fwknox.SourceKeyProofs
import Fwknox.SuperviseProofs
import Fwknox.TextProofs
import Fwknox.ThroughputProofs
import Fwknox.TrackingProofs
import Fwknox.TrustProofs
import Fwknox.TypesProofs
import Fwknox.WatchProofs
import Fwknox.WorkerProofs
import Fwknox.WorldProofs
