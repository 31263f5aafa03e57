import Flinter.RunProofs
import Flinter.LinkageProofs
import Flinter.LinkageEffectProofs
import Flinter.FramingProofs
import Flinter.LinkageReceiveProofs
import Flinter.LinkageFramingProofs
import Flinter.LinkageCloseProofs
import Flinter.LinkageSendProofs
import Flinter.LinkageWatchProofs
import Flinter.LinkageJamProofs
import Flinter.EasyServerCountProofs
import Flinter.EasyServerHistoryProofs
import Flinter.EasyServerChannelProofs
import Flinter.EasyServerHandlerProofs
import Flinter.OrderedMapProofs
import Flinter.TicketProofs
import Flinter.CouncilProofs
import Flinter.CouncilNameProofs
import Flinter.CouncilElectionProofs
import Flinter.CouncilTrackProofs
import Flinter.CouncilAttendProofs
import Flinter.ZooKeeperTrackerProofs
import Flinter.ZooKeeperCoverageProofs
import Flinter.ObjectMapProofs
import Flinter.TimeoutPoolProofs
import Flinter.AsyncRouterProofs
import Flinter.LockProofs
import Flinter.EasyServerLockProofs
import Flinter.MonitorProofs
import Flinter.EasyServerJobProofs
import Flinter.WorkerCommandProofs
import Flinter.LinkageLifeProofs
import Flinter.WorkerReleaseProofs
import Flinter.WorkerReleaseRunProofs
import Flinter.LinkageRetryProofs
import Flinter.LinkageTimeoutProofs
import Flinter.EasyServerLimitProofs
import Flinter.AsyncRouterTaskProofs
import Flinter.WorkerTableProofs
import Flinter.EasyServerInitProofs
import Flinter.TallyProofs
import Flinter.GrowableThreadPoolProofs
import Flinter.GrowableThreadPoolBalanceProofs
import Flinter.GrowableThreadPoolShutdownProofs
import Flinter.DeskProofs
import Flinter.ThreadDaemonProofs
import Flinter.ThreadPlaceProofs
import Flinter.FixedThreadPoolProofs
import Flinter.KeyedThreadPoolProofs
import Flinter.GrowableThreadPoolJobProofs
import Flinter.GrowableThreadPoolServeProofs
import Flinter.GrowableThreadPoolThreadProofs
import Flinter.ThreadObjectProofs
import Flinter.ThreadPoolRefusalProofs
import Flinter.CouncilDeliveryProofs
import Flinter.CouncilCallbackProofs
import Flinter.CouncilFailureProofs
import Flinter.CouncilLimboProofs
import Flinter.ZooKeeperMissingProofs
import Flinter.ZooKeeperPendingProofs
import Flinter.ZooKeeperDetachProofs
import Flinter.ZooKeeperSessionProofs
import Flinter.RoundingProofs
import Flinter.NumeralProofs
import Flinter.DecimalProofs
import Flinter.DecimalPrintProofs
import Flinter.DecimalParseProofs
import Flinter.DecimalArithmeticProofs
import Flinter.DecimalCopyProofs
import Flinter.DecimalRangeProofs
import Flinter.ReadWriteLockProofs
import Flinter.CgiProofs
import Flinter.CgiFramingProofs
import Flinter.ForestProofs
import Flinter.ForestLeafProofs
import Flinter.PositionProofs
import Flinter.TreeProofs
import Flinter.TreeWorldProofs
import Flinter.TreeMergeProofs
import Flinter.TreeOverlapProofs
import Flinter.TreeAliasProofs
import Flinter.TreeParseProofs
import Flinter.TreeRunProofs
import Flinter.TreePathProofs
import Flinter.TreeKeyProofs
import Flinter.TreeXmlProofs
import Flinter.TreeXmlKeyProofs
import Flinter.SplittingProofs
import Flinter.PlaceProofs
import Flinter.CleanPathProofs
import Flinter.CleanPathScanProofs
import Flinter.RejectionProofs
import Flinter.RangedRandProofs
import Flinter.ResolverProofs
import Flinter.ResolverCallProofs
import Flinter.ResolverRetryProofs
import Flinter.ResolverRemovalProofs
import Flinter.ExplodeProofs
import Flinter.ExplodeListProofs
import Flinter.ExplodeListsProofs
import Flinter.SafeIoProofs
import Flinter.SafeIoTransferProofs
import Flinter.CodeProofs
import Flinter.EncodeHexProofs
import Flinter.EscapeHtmlProofs
import Flinter.IntegerTextProofs
import Flinter.ConvertProofs
import Flinter.RmdirsProofs
import Flinter.MkdirsProofs
import Flinter.BindingsProofs
import Flinter.DispatcherEnvProofs
import Flinter.CmdlineSetupProofs
import Flinter.CmdlineTitleProofs
import Flinter.TimeoutPoolCallProofs
import Flinter.ZooKeeperTrackProofs
import Flinter.CandidateNameProofs
import Flinter.NamingProofs
import Flinter.ObjectMapNextProofs
import Flinter.LinkageBufferProofs
import Flinter.CustodyProofs
import Flinter.ObjectPoolProofs
import Flinter.MixingProofs
import Flinter.MurmurHashProofs
import Flinter.PidfileProofs
import Flinter.FramingWholeProofs
import Flinter.LinkageOutgoingProofs
import Flinter.LinkageArrivalProofs
import Flinter.LinkagePeersProofs
import Flinter.CouncilQuiescenceProofs
import Flinter.MsleepProofs
import Flinter.DoHashProofs
import Flinter.BabysitterProofs
import Flinter.DispatcherProofs
import Flinter.DescriptorProofs
import Flinter.DaemonProofs
import Flinter.LoggerProofs
import Flinter.BufferProofs
import Flinter.LogLineProofs
import Flinter.InterfaceProofs
import Flinter.SystemTimedProofs
