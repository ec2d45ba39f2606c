import AsyncNetLob.LinkedSegmentProofs
import AsyncNetLob.SortedMapProofs
import AsyncNetLob.StateExceptProofs
import AsyncNetLob.MachineRunProofs
import AsyncNetLob.PrecedenceProofs
import AsyncNetLob.GreedyFillProofs
import AsyncNetLob.CoarserLotsProofs
import AsyncNetLob.CheapestFillProofs
import AsyncNetLob.PrefixCodeProofs
import AsyncNetLob.TransitionProofs
import AsyncNetLob.WrappingCounterProofs
import AsyncNetLob.ReleaseAcquireProofs
import AsyncNetLob.LobTypes
import AsyncNetLob.LobObjectPool
import AsyncNetLob.LobHeap
import AsyncNetLob.LobOrderBook
import AsyncNetLob.LobLadder
import AsyncNetLob.LobReference
import AsyncNetLob.LobIntrusiveListProofs
import AsyncNetLob.LobRepresentationProofs
import AsyncNetLob.LobMatchingProofs
import AsyncNetLob.LobLadderProofs
import AsyncNetLob.LobRefinementProofs
import AsyncNetLob.LobBookInvariantProofs
import AsyncNetLob.LobPoolProofs
import AsyncNetLob.LobThrowProofs
import AsyncNetLob.LobMemorySafetyProofs
import AsyncNetLob.LobVolumeProofs
import AsyncNetLob.LobRelabellingProofs
import AsyncNetLob.LobMirrorProofs
import AsyncNetLob.LobLotsProofs
import AsyncNetLob.LobReferenceProofs
import AsyncNetLob.LobTracelessProofs
import AsyncNetLob.LobShownProofs
import AsyncNetLob.LobHoldingProofs
import AsyncNetLob.LobLedgerProofs
import AsyncNetLob.LobExecutionProofs
import AsyncNetLob.LobBestExecutionProofs
import AsyncNetLob.LobSplitProofs
import AsyncNetLob.LobAggressionProofs
import AsyncNetLob.LobCommuteProofs
import AsyncNetLob.LobEffectProofs
import AsyncNetLob.LobPriorityProofs
import AsyncNetLob.LobDepth
import AsyncNetLob.LobDepthProofs
import AsyncNetLob.LobPrint
import AsyncNetLob.LobPrintProofs
import AsyncNetLob.LobPriceBandProofs
import AsyncNetLob.LobBenchmark
import AsyncNetLob.LobBenchmarkProofs
import AsyncNetLob.LobLockFreeQueue
import AsyncNetLob.LobLockFreeQueueProofs
import AsyncNetLob.LobQueueObserverProofs
import AsyncNetLob.LobWeakQueue
import AsyncNetLob.LobWeakQueueProofs
import AsyncNetLob.NetCommon
import AsyncNetLob.NetProtocol
import AsyncNetLob.NetSession
import AsyncNetLob.NetServer
import AsyncNetLob.NetProtocolProofs
import AsyncNetLob.NetSessionProofs
import AsyncNetLob.NetFramingProofs
import AsyncNetLob.NetDeliveryProofs
import AsyncNetLob.NetRepliesProofs
import AsyncNetLob.NetEncoderProofs
import AsyncNetLob.NetWorkProofs
import AsyncNetLob.NetRestProofs
import AsyncNetLob.NetBackpressureProofs
import AsyncNetLob.NetClient
import AsyncNetLob.NetClientProofs
import AsyncNetLob.NetBenchmarkProofs
import AsyncNetLob.NetDisturbedProofs
import AsyncNetLob.NetLifecycleProofs
import AsyncNetLob.NetRegistryProofs
import AsyncNetLob.NetIsolationProofs
import AsyncNetLob.NetShutdownProofs
import AsyncNetLob.NetStoppedProofs
import AsyncNetLob.NetSignal
import AsyncNetLob.NetSignalProofs
import AsyncNetLob.NetSignalEndProofs
import AsyncNetLob.LobPriceGuardProofs
