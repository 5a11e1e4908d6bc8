import DemoStore.MachineRunProofs
import DemoStore.ProbeTableProofs
import DemoStore.SparseFileProofs
import DemoStore.PageStoreProofs
import DemoStore.SplitSnapshotProofs
import DemoStore.PageQueryProofs
import DemoStore.ObjectHeapProofs
import DemoStore.SnapshotDriverProofs
import DemoStore.DriverFrameProofs
import DemoStore.TemplateLifeCycleProofs
import DemoStore.FaultMappingProofs
import DemoStore.VmaDataProofs
import DemoStore.PagePoolProofs
import DemoStore.PageAccountingProofs
import DemoStore.DataLifeProofs
import DemoStore.TemplateLifetimeProofs
import DemoStore.TemplateContentProofs
import DemoStore.PoolSectionProofs
import DemoStore.PoolThreadsProofs
import DemoStore.PoolConcurrencyProofs
import DemoStore.TemplateUsersProofs
import DemoStore.DriverThreadsProofs
import DemoStore.DriverInvariantProofs
import DemoStore.PoolResetProofs
import DemoStore.GuestMemoryProofs
import DemoStore.RestoreHandlerProofs
import DemoStore.RestoreMemoryProofs
import DemoStore.LazyRestoreProofs
import DemoStore.HandlerFailureProofs
import DemoStore.SharedZoneProofs
import DemoStore.ClientIsolationProofs
import DemoStore.RestoreHostProofs
import DemoStore.PageLedgerProofs
import DemoStore.PageStateProofs
import DemoStore.FaultSiteProofs
import DemoStore.FaultWakeProofs
import DemoStore.FaultPresenceProofs
import DemoStore.ShortTransferProofs
import DemoStore.SnapshotLayoutProofs
import DemoStore.TemplateServiceProofs
import DemoStore.ServiceEquivalenceProofs
import DemoStore.FirstSeenProofs
import DemoStore.ServiceMetricsProofs
import DemoStore.LoadProtocolProofs
import DemoStore.LoadFailureProofs
import DemoStore.RemoteControllerProofs
import DemoStore.ControllerThreadsProofs
import DemoStore.SandboxStopProofs
import DemoStore.UffdCowProofs
import DemoStore.SharedPagesProofs
import DemoStore.UblkLoopProofs
import DemoStore.PageBitmapProofs
import DemoStore.ClientSessionProofs
import DemoStore.CheckpointProofs
import DemoStore.OverlayLookupProofs
import DemoStore.RangeCoherenceProofs
import DemoStore.SplitCountProofs
import DemoStore.TemplateIdProofs
import DemoStore.CowFailureProofs
import DemoStore.PrivatePageProofs
import DemoStore.FaultReleaseProofs
import DemoStore.ByteSpanProofs
import DemoStore.DirtyLogProofs
import DemoStore.RangePartitionProofs
import DemoStore.UblkQueueProofs
import DemoStore.TurnTakingProofs
import DemoStore.ChildSessionProofs
import DemoStore.DemoHandshakeProofs
import DemoStore.SendGateProofs
import DemoStore.SendGateProgressProofs
import DemoStore.SendCoverProofs
import DemoStore.MemoryTransferProofs
import DemoStore.PrecopyProofs
import DemoStore.SocketStreamProofs
import DemoStore.HandoverProofs
import DemoStore.HandoverSourceProofs
import DemoStore.HandoverDestProofs
import DemoStore.HandoverSafetyProofs
