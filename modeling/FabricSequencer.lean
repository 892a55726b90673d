import FabricSequencer.NopaxosAgreement
import FabricSequencer.SimulationValidity
import FabricSequencer.BlockWriterChain
import FabricSequencer.PurgeMarkers
import FabricSequencer.PvtDataRuns
import FabricSequencer.PvtDataCycle
import FabricSequencer.PvtStateConsistency
import FabricSequencer.RaftChainInflight
import FabricSequencer.SnapshotRequests
import FabricSequencer.SmartbftDeliver
import FabricSequencer.BlockDeliveryChain
import FabricSequencer.StateProvider
import FabricSequencer.EndorsementLayouts
import FabricSequencer.PolicyManager
import FabricSequencer.PvtDataCoordinator
import FabricSequencer.PvtDataPull
import FabricSequencer.ValidationFlags
import FabricSequencer.ValidationProgress
import FabricSequencer.DeliverRange
import FabricSequencer.ClusterService
import FabricSequencer.Registrar
import FabricSequencer.LeaderElection
import FabricSequencer.PolicyEvaluation
import FabricSequencer.PrincipalSets
import FabricSequencer.BatchBounds
import FabricSequencer.GatewaySubmit
import FabricSequencer.TxIDIndex
import FabricSequencer.OrderedKeys
import FabricSequencer.BlockCache
import FabricSequencer.StopTimes
