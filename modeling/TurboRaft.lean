import TurboRaft.RaftLogSafety
import TurboRaft.RaftReadBarriers
import TurboRaft.RaftMulticoreSafety
import TurboRaft.RaftNodeAcceptance
import TurboRaft.RaftGroupIsolation
import TurboRaft.RaftRuntimeSafety
import TurboRaft.RaftProposalResults
import TurboRaft.RaftServiceSafety
import TurboRaft.RaftJointQuorums
import TurboRaft.RaftHandshakeAgreement
import TurboRaft.RaftApplyOrdering
import TurboRaft.RaftCflowStateMachine
import TurboRaft.RaftDataDurability
import TurboRaft.RaftTransferContracts
import TurboRaft.RaftSnapshotManager
