import TurboRaft.Executions
import TurboRaft.RaftCore

/-! # Clusters of cores

Hosts run one core each. A host that gets a Ready persists it and then sends its messages,
so a call, its persistence and its sends are one event: a crash before the write is
`crash` instead of the call, and a crash after it is `crash` with the messages lost.
The network keeps every message ever sent; loss is never delivering one, and delay,
reordering and duplication are the free choice of the delivered position. -/
namespace RaftCluster

open RaftTypes RaftCoreState RaftCore Executions

structure Settings where
  heartbeatTicks : ℕ
  electionMinTicks : ℕ
  electionMaxTicks : ℕ
  maxLogEntries : ℕ
  maxPendingReads : ℕ
  maxInflightAppendRequests : ℕ
  deriving DecidableEq, Repr

/-- What all hosts agree on beforehand: the stable configuration every core starts from. -/
structure ClusterConfig where
  voters : List NodeId
  learners : List NodeId
  settings : NodeId → Settings

/-- The durable state of one host. The configuration belongs to the snapshot index. -/
structure Disk where
  term : ℕ
  votedFor : NodeId
  snapshotIndex : ℕ
  snapshotTerm : ℕ
  configuration : Option Conf
  entries : List Entry
  commitIndex : ℕ
  deriving DecidableEq, Repr

def emptyDisk : Disk :=
  { term := 0
    votedFor := 0
    snapshotIndex := 0
    snapshotTerm := 0
    configuration := none
    entries := []
    commitIndex := 0 }

structure Node where
  core : Option Core
  disk : Disk

/-- A snapshot on its way to a peer, as its leader's host started the transfer. -/
structure SnapshotOffer where
  fromId : NodeId
  toId : NodeId
  leaderTerm : ℕ
  snapshotIndex : ℕ
  snapshotTerm : ℕ
  configuration : Conf
  deriving DecidableEq, Repr

structure Cluster where
  nodes : NodeId → Node
  network : List Message
  offers : List SnapshotOffer
  installed : List (NodeId × ℕ)

def initialCluster : Cluster :=
  { nodes := fun _ => { core := none, disk := emptyDisk }
    network := []
    offers := []
    installed := [] }

inductive Operation where
  | tick (tick : Tick)
  | propose (proposals : List Proposal)
  | changeMembership (change : MembershipChange)
  | transferLeadership (transferee : NodeId)
  | readIndex (contextId : UInt64)
  | poll
  | snapshotCompleted (peer : NodeId) (snapshotIndex : ℕ)
  deriving DecidableEq, Repr

inductive Event where
  | start (node : NodeId) (electionTimeout applied : ℕ)
  | crash (node : NodeId)
  | deliver (position capacity : ℕ)
  | call (node : NodeId) (operation : Operation) (capacity : ℕ)
  | ackReady (node : NodeId) (admitted : ℕ)
  | ackApplied (node : NodeId) (index : ℕ)
  | advance (node : NodeId)
  | setPeerPaused (node peer : NodeId) (paused : Bool)
  | compact (node : NodeId)
  | install (position : ℕ)
  deriving DecidableEq, Repr

instance : Inhabited Event := ⟨.crash 0⟩

def createConfig (C : ClusterConfig) (node : NodeId) (disk : Disk)
    (electionTimeout applied : ℕ) : CoreConfig :=
  { selfId := node
    voters := C.voters
    learners := C.learners
    initialConfiguration := disk.configuration
    heartbeatTicks := (C.settings node).heartbeatTicks
    electionMinTicks := (C.settings node).electionMinTicks
    electionMaxTicks := (C.settings node).electionMaxTicks
    initialElectionTimeoutTicks := electionTimeout
    initialTerm := disk.term
    initialVote := disk.votedFor
    initialLastLogIndex := disk.snapshotIndex
    initialLastLogTerm := disk.snapshotTerm
    initialLogEntries := disk.entries
    initialCommitIndex := disk.commitIndex
    initialAppliedIndex := applied
    maxLogEntries := (C.settings node).maxLogEntries
    maxPendingReads := (C.settings node).maxPendingReads
    maxInflightAppendRequests := (C.settings node).maxInflightAppendRequests }

def persistEntries (disk : Disk) (ready : Ready) : List Entry :=
  if ready.logChanged then
    (if ready.logTruncateFrom == 0 then disk.entries
      else disk.entries.take (ready.logTruncateFrom - disk.snapshotIndex - 1)) ++ ready.logEntries
  else
    disk.entries

/-- Hard state, log and commit index are written in one storage transaction. -/
def persistReady (disk : Disk) (ready : Ready) : Disk :=
  { disk with
    term := if ready.hardStateChanged then ready.term else disk.term
    votedFor := if ready.hardStateChanged then ready.votedFor else disk.votedFor
    entries := persistEntries disk ready
    commitIndex := if ready.commitChanged then ready.commitIndex else disk.commitIndex }

/-- A transfer starts only for the snapshot the host really holds. -/
def offerOf (node : NodeId) (disk : Disk) (request : SnapshotRequest) : Option SnapshotOffer :=
  if request.snapshotIndex == disk.snapshotIndex && request.snapshotTerm == disk.snapshotTerm then
    disk.configuration.map fun configuration =>
      { fromId := node
        toId := request.peerId
        leaderTerm := request.leaderTerm
        snapshotIndex := request.snapshotIndex
        snapshotTerm := request.snapshotTerm
        configuration }
  else
    none

def setNode (s : Cluster) (node : NodeId) (value : Node) : Cluster :=
  { s with nodes := Function.update s.nodes node value }

/-- A successful call is persisted and its messages are sent; after a failed one the host
keeps the core and drops the Ready. -/
def settleCall (s : Cluster) (node : NodeId) (result : Status × Call) : Cluster :=
  let disk := (s.nodes node).disk
  match result with
  | (.ok, call) =>
    let persisted := persistReady disk call.ready
    { setNode s node { core := some call.core, disk := persisted } with
      network := s.network ++ call.ready.messages
      offers := s.offers ++ call.ready.snapshotRequests.filterMap (offerOf node persisted) }
  | (_, call) => setNode s node { core := some call.core, disk }

def performOperation (core : Core) (operation : Operation) (capacity : ℕ) : Status × Call :=
  match operation with
  | .tick tick => coreTick core tick capacity
  | .propose proposals => coreProposeBatch core proposals capacity
  | .changeMembership change => coreChangeMembership core change capacity
  | .transferLeadership transferee => coreTransferLeadership core transferee capacity
  | .readIndex contextId => coreReadIndex core contextId capacity
  | .poll => corePoll core capacity
  | .snapshotCompleted peer snapshotIndex => coreSnapshotCompleted core peer snapshotIndex capacity

/-- A host reports a snapshot as completed only after the peer installed it durably. -/
def operationEnabled (s : Cluster) : Operation → Bool
  | .snapshotCompleted peer snapshotIndex => s.installed.contains (peer, snapshotIndex)
  | _ => true

def setCore (s : Cluster) (node : NodeId) (core : Core) : Cluster :=
  setNode s node { s.nodes node with core := some core }

def compactDisk (disk : Disk) (point : SnapshotPoint) : Disk :=
  { disk with
    snapshotIndex := point.index
    snapshotTerm := point.term
    configuration := some point.configuration
    entries := disk.entries.drop (point.index - disk.snapshotIndex) }

def installRefused (disk : Disk) (offer : SnapshotOffer) : Bool :=
  decide (offer.leaderTerm < disk.term) || decide (offer.snapshotIndex ≤ disk.snapshotIndex) ||
    decide (offer.snapshotIndex < disk.commitIndex)

/-- Entries after the snapshot stay when the log already holds its last entry. -/
def installDisk (disk : Disk) (offer : SnapshotOffer) : Disk :=
  let offset := offer.snapshotIndex - disk.snapshotIndex - 1
  let matching := (disk.entries[offset]?).any (fun entry => entry.term == offer.snapshotTerm)
  { term := offer.leaderTerm
    votedFor := if disk.term < offer.leaderTerm then 0 else disk.votedFor
    snapshotIndex := offer.snapshotIndex
    snapshotTerm := offer.snapshotTerm
    configuration := some offer.configuration
    entries := if matching then disk.entries.drop (offset + 1) else []
    commitIndex := offer.snapshotIndex }

/-- One event. A core that a snapshot was installed under is dropped and re-created. -/
def clusterStep (C : ClusterConfig) (s : Cluster) : Event → Option Cluster
  | .start node electionTimeout applied =>
    match (s.nodes node).core with
    | some _ => none
    | none =>
      match coreCreate (createConfig C node (s.nodes node).disk electionTimeout applied) with
      | .error _ => none
      | .ok core => some (setCore s node core)
  | .crash node => some (setNode s node { s.nodes node with core := none })
  | .deliver position capacity =>
    match s.network[position]? with
    | none => none
    | some message =>
      (s.nodes message.toId).core.map fun core =>
        settleCall s message.toId (coreStep core message capacity)
  | .call node operation capacity =>
    if operationEnabled s operation then
      (s.nodes node).core.map fun core =>
        settleCall s node (performOperation core operation capacity)
    else
      none
  | .ackReady node admitted =>
    (s.nodes node).core.map fun core => setCore s node (coreAckReady core admitted).2
  | .ackApplied node index =>
    (s.nodes node).core.map fun core => setCore s node (coreAckApplied core index).2
  | .advance node => (s.nodes node).core.map fun core => setCore s node (coreAdvance core).2
  | .setPeerPaused node peer paused =>
    (s.nodes node).core.map fun core => setCore s node (coreSetPeerPaused core peer paused).2
  | .compact node =>
    match (s.nodes node).core with
    | none => none
    | some core =>
      match coreSnapshotPoint core with
      | .error _ => none
      | .ok point =>
        match coreCompact core point with
        | (.ok, compacted) =>
          some (setNode s node
            { core := some compacted, disk := compactDisk (s.nodes node).disk point })
        | _ => none
  | .install position =>
    match s.offers[position]? with
    | none => none
    | some offer =>
      if installRefused (s.nodes offer.toId).disk offer then
        none
      else
        some { setNode s offer.toId
            { core := none, disk := installDisk (s.nodes offer.toId).disk offer } with
          installed := (offer.toId, offer.snapshotIndex) :: s.installed }

def clusterSystem (C : ClusterConfig) : StepSystem Cluster Event :=
  { init := initialCluster, step := clusterStep C }

def coreAt (s : Cluster) (node : NodeId) : Option Core := (s.nodes node).core

end RaftCluster
