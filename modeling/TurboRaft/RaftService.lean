import Mathlib.Logic.Function.Basic
import TurboRaft.RaftCluster
import TurboRaft.RaftRuntime

/-! # The service around a core and its runtime

The service runs every call of its core through the runtime, stages what the transport has no
room for, compacts the log after snapshots and keeps completed reads until they are taken. Its
callbacks are functions on the state of their host.

The diagnostics of a delivery, its counters and its last error, are left out, and so is the last
result of the runtime: no operation reads them. -/
namespace RaftService

open RaftTypes RaftLog RaftCoreState RaftCoreEmit RaftCore RaftCluster
open RaftRuntime Function

/-- The staged messages of a peer, oldest first; the source keeps them in a ring. -/
structure PeerDelivery where
  nodeId : NodeId
  paused : Bool
  messages : List Message
  snapshot : Option SnapshotRequest
  deriving DecidableEq, Repr

def PeerDelivery.blank : PeerDelivery :=
  { nodeId := 0, paused := false, messages := [], snapshot := none }

abbrev Deliveries := Fin maxMembers → PeerDelivery

def blankDeliveries : Deliveries := fun _ => .blank

def deliveryEmpty (delivery : PeerDelivery) : Bool :=
  delivery.messages.length == 0 && delivery.snapshot.isNone

def deliveryPending (delivery : PeerDelivery) : Bool :=
  delivery.paused || !deliveryEmpty delivery

def hasPendingTransport (deliveries : Deliveries) : Bool :=
  (List.finRange maxMembers).any fun slot => deliveryPending (deliveries slot)

def slotWith (deliveries : Deliveries) (holds : PeerDelivery → Bool) : Option (Fin maxMembers) :=
  (List.finRange maxMembers).find? fun slot => holds (deliveries slot)

def findDelivery (deliveries : Deliveries) (peerId : NodeId) : Option (Fin maxMembers) :=
  slotWith deliveries fun delivery => delivery.nodeId == peerId

def deliveryReusable (core : Core) (delivery : PeerDelivery) : Bool :=
  !deliveryPending delivery &&
    match corePeerPaused core delivery.nodeId with
    | .error .enoent => true
    | _ => false

/-- The slot of a peer, taken from the free or reusable ones when it has none yet. -/
def createDelivery (core : Core) (deliveries : Deliveries) (peerId : NodeId) :
    Option (Fin maxMembers × Deliveries) :=
  match findDelivery deliveries peerId with
  | some slot => some (slot, deliveries)
  | none =>
    match (findDelivery deliveries 0).or (slotWith deliveries (deliveryReusable core)) with
    | none => none
    | some slot =>
      some (slot, update deliveries slot { PeerDelivery.blank with nodeId := peerId })

def stageMessage (message : Message) (deliveries : Deliveries) (slot : Fin maxMembers) :
    Status × Deliveries :=
  let delivery := deliveries slot
  if delivery.messages.length == maxVoters then (.eproto, deliveries)
  else
    (.ok, update deliveries slot
      { delivery with messages := delivery.messages ++ [message] })

def stageSnapshot (request : SnapshotRequest) (deliveries : Deliveries) (slot : Fin maxMembers) :
    Status × Deliveries :=
  let delivery := deliveries slot
  if delivery.snapshot.isSome then (.eproto, deliveries)
  else (.ok, update deliveries slot { delivery with snapshot := some request })

def pauseDelivery (core : Core) (deliveries : Deliveries) (slot : Fin maxMembers) :
    Status × Core × Deliveries :=
  let delivery := deliveries slot
  if delivery.paused then (.ok, core, deliveries)
  else
    let (status, core) := coreSetPeerPaused core delivery.nodeId true
    if status ≠ .ok then (status, core, deliveries)
    else (.ok, core, update deliveries slot { delivery with paused := true })

section Host

structure SourceInfo where
  readable : Bool
  size : ℕ
  deriving DecidableEq, Repr

/-- A host writes its snapshots from a source, or through the buffer of the service. -/
inductive SnapshotMaker (σ : Type) where
  | streaming (create : ℕ → σ → Status × SourceInfo × σ)
      (store : SnapshotPoint → SourceInfo → σ → Status × σ)
  | buffered (create : ℕ → ℕ → σ → Status × ℕ × σ)
      (store : SnapshotPoint → ℕ → σ → Status × σ)

structure SnapshotPolicy (σ : Type) where
  appliedEntryThreshold : ℕ
  maxSnapshotBytes : ℕ
  maxBufferedSnapshotBytes : ℕ
  maker : SnapshotMaker σ
  journalCompact : Option (ℕ → ℕ → σ → Status × σ)

abbrev Storage (σ : Type) := StorageStep → σ → Status × σ

/-- The callbacks of a service; a host without snapshots has no policy. -/
structure ServiceHost (σ : Type) where
  enqueue : Option (Message → σ → Status × σ)
  enqueueSnapshot : Option (SnapshotRequest → σ → Status × σ)
  applyBatch : Option (List Entry → σ → Status × σ)
  policy : Option (SnapshotPolicy σ)

variable {σ : Type}

def snapshotPolicyValid (policy : SnapshotPolicy σ) (maxLogEntries : ℕ) : Bool :=
  policy.appliedEntryThreshold != 0 && decide (policy.appliedEntryThreshold ≤ maxLogEntries) &&
    policy.maxSnapshotBytes != 0 &&
    match policy.maker with
    | .streaming _ _ => policy.maxBufferedSnapshotBytes == 0
    | .buffered _ _ =>
      policy.maxBufferedSnapshotBytes != 0 &&
        decide (policy.maxBufferedSnapshotBytes ≤ policy.maxSnapshotBytes)

/-- The answers of the state machine, of the snapshot callbacks and of the journal, for statements
about the runs of a service. -/
inductive HostAnswer where
  | applied (status : Status)
  | snapshot (index : ℕ) (status : Status)
  | journal (index term : ℕ) (status : Status)
  deriving DecidableEq, Repr

/-- What the callbacks of the runtime work on besides the core. -/
structure Staging (σ : Type) where
  deliveries : Deliveries
  host : σ
  answers : List HostAnswer

structure Service (σ : Type) where
  core : Core
  runtime : Runtime
  storage : Option (Storage σ)
  staging : Staging σ
  pendingSnapshot : Option SnapshotPoint
  backupPrepared : Bool
  readStates : List ReadState
  maxCompletedReads : ℕ
  fault : Option Status

abbrev Outcome (σ : Type) := Status × Service σ

def Staging.put (staging : Staging σ) (slot : Fin maxMembers) (delivery : PeerDelivery) :
    Staging σ :=
  { staging with deliveries := update staging.deliveries slot delivery }

def Staging.hear (staging : Staging σ) (host : σ) (answer : HostAnswer) : Staging σ :=
  { staging with host, answers := staging.answers ++ [answer] }

def serviceFault (service : Service σ) (cause : Status) : Outcome σ :=
  (cause, { service with fault := some cause })

end Host

section Enqueue

variable {σ : Type}

def pausedSlot (deliveries : Deliveries) (peerId : NodeId) : Option (Fin maxMembers) :=
  (findDelivery deliveries peerId).filter fun slot => (deliveries slot).paused

def holdBack (peerId : NodeId) (stage : Deliveries → Fin maxMembers → Status × Deliveries)
    (core : Core) (staging : Staging σ) : Status × Core × Staging σ :=
  match createDelivery core staging.deliveries peerId with
  | none => (.enospc, core, staging)
  | some (slot, deliveries) =>
    let (status, core, deliveries) := pauseDelivery core deliveries slot
    if status ≠ .ok then (status, core, { staging with deliveries })
    else
      let (status, deliveries) := stage deliveries slot
      (status, core, { staging with deliveries })

def enqueueParcel (peerId : NodeId) (send : Option (σ → Status × σ))
    (stage : Deliveries → Fin maxMembers → Status × Deliveries) :
    Callback (Staging σ) := fun core staging =>
  match send with
  | none => (.einval, core, staging)
  | some send =>
    match pausedSlot staging.deliveries peerId with
    | some slot =>
      let (status, deliveries) := stage staging.deliveries slot
      (status, core, { staging with deliveries })
    | none =>
      let (status, host) := send staging.host
      if status ≠ .enospc then (status, core, { staging with host })
      else holdBack peerId stage core { staging with host }

def enqueueMessage (host : ServiceHost σ) (message : Message) : Callback (Staging σ) :=
  enqueueParcel message.toId (host.enqueue.map fun send => send message) (stageMessage message)

def enqueueSnapshot (host : ServiceHost σ) (request : SnapshotRequest) : Callback (Staging σ) :=
  enqueueParcel request.peerId (host.enqueueSnapshot.map fun send => send request)
    (stageSnapshot request)

end Enqueue

section Drain

variable {σ : Type}

/-- Staged messages go out in order up to the first that the transport does not take. -/
def drainMessages (send : Message → σ → Status × σ) :
    List Message → σ → Status × List Message × σ
  | [], host => (.ok, [], host)
  | message :: rest, host =>
    let (status, host) := send message host
    if status ≠ .ok then (status, message :: rest, host) else drainMessages send rest host

def resumePeer (service : Service σ) (slot : Fin maxMembers) : Outcome σ :=
  let delivery := service.staging.deliveries slot
  if delivery.paused && deliveryEmpty delivery then
    let (status, core) := coreSetPeerPaused service.core delivery.nodeId false
    if status ≠ .ok ∧ status ≠ .enoent then serviceFault { service with core } status
    else
      (.ok, { service with
        core
        staging := service.staging.put slot { delivery with paused := false } })
  else (.ok, service)

def drainSnapshot (host : ServiceHost σ) (service : Service σ) (slot : Fin maxMembers) :
    Outcome σ :=
  let delivery := service.staging.deliveries slot
  match delivery.snapshot with
  | none => resumePeer service slot
  | some request =>
    let (status, state) :=
      (host.enqueueSnapshot.getD fun _ state => (.einval, state)) request service.staging.host
    let service := { service with staging := { service.staging with host := state } }
    if status = .enospc then (.ok, service)
    else if status ≠ .ok then serviceFault service status
    else
      resumePeer { service with staging := service.staging.put slot { delivery with snapshot := none } }
        slot

def drainDelivery (host : ServiceHost σ) (service : Service σ) (slot : Fin maxMembers) :
    Outcome σ :=
  let delivery := service.staging.deliveries slot
  match corePeerPaused service.core delivery.nodeId with
  | .error .enoent => (.ok, { service with staging := service.staging.put slot .blank })
  | .error status => serviceFault service status
  | .ok _ =>
    let (status, left, state) :=
      drainMessages (host.enqueue.getD fun _ state => (.einval, state)) delivery.messages
        service.staging.host
    let staging := { service.staging with host := state }
    let service := { service with staging := staging.put slot { delivery with messages := left } }
    if status = .enospc then (.ok, service)
    else if status ≠ .ok then serviceFault service status
    else drainSnapshot host service slot

def drainSlots (host : ServiceHost σ) : List (Fin maxMembers) → Service σ → Outcome σ
  | [], service => (.ok, service)
  | slot :: rest, service =>
    let delivery := service.staging.deliveries slot
    if delivery.nodeId = 0 ∨ deliveryPending delivery = false then drainSlots host rest service
    else
      let (status, service) := drainDelivery host service slot
      if status ≠ .ok then (status, service) else drainSlots host rest service

def drainTransport (host : ServiceHost σ) (service : Service σ) : Outcome σ :=
  drainSlots host (List.finRange maxMembers) service

/-- The transport is asked again before anything else, also by operations that are refused. -/
def drainPending (host : ServiceHost σ) (service : Service σ) : Outcome σ :=
  if service.fault.isSome then (.eproto, service)
  else if service.backupPrepared then (.ebusy, service)
  else if hasPendingTransport service.staging.deliveries then drainTransport host service
  else (.ok, service)

def mutationGuard (host : ServiceHost σ) (service : Service σ) : Outcome σ :=
  let (status, service) := drainPending host service
  if status ≠ .ok then (status, service)
  else if service.runtime.applyBlocked then (.ebusy, service)
  else (.ok, service)

end Drain

section Snapshots

variable {σ : Type}

def Service.hear (service : Service σ) (host : σ) (answer : HostAnswer) : Service σ :=
  { service with staging := service.staging.hear host answer }

def compactCore (service : Service σ) (point : SnapshotPoint) : Outcome σ :=
  let (status, core) := coreCompact service.core point
  if status ≠ .ok then serviceFault { service with core } status
  else (.ok, { service with core, pendingSnapshot := none })

/-- A journal that reports an I/O error is asked again later, about the same point. -/
def finishJournalCompaction (compact : ℕ → ℕ → σ → Status × σ) (point : SnapshotPoint)
    (service : Service σ) : Outcome σ :=
  let (status, state) := compact point.index point.term service.staging.host
  let service := service.hear state (.journal point.index point.term status)
  if status = .eio then (.eio, service)
  else if status ≠ .ok then serviceFault service status
  else compactCore service point

def makeSnapshot (policy : SnapshotPolicy σ) (point : SnapshotPoint) (state : σ) : Status × σ :=
  match policy.maker with
  | .streaming create store =>
    let (status, source, state) := create point.index state
    if status ≠ .ok then (status, state)
    else if !source.readable || decide (policy.maxSnapshotBytes < source.size) then (.eproto, state)
    else store point source state
  | .buffered create store =>
    let (status, size, state) := create point.index policy.maxBufferedSnapshotBytes state
    if status ≠ .ok then (status, state)
    else if policy.maxBufferedSnapshotBytes < size then (.enospc, state)
    else store point size state

def takeSnapshot (policy : SnapshotPolicy σ) (service : Service σ) : Outcome σ :=
  match coreSnapshotPoint service.core with
  | .error status => serviceFault service status
  | .ok point =>
    let (status, state) := makeSnapshot policy point service.staging.host
    let service := service.hear state (.snapshot point.index status)
    if status ≠ .ok then serviceFault service status
    else
      match policy.journalCompact with
      | none => compactCore service point
      | some compact =>
        finishJournalCompaction compact point { service with pendingSnapshot := some point }

def serviceSnapshot (host : ServiceHost σ) (force : Bool) (service : Service σ) : Outcome σ :=
  match host.policy with
  | none => (if force then .eprotonosupport else .ok, service)
  | some policy =>
    match service.pendingSnapshot, policy.journalCompact with
    | some point, some compact => finishJournalCompaction compact point service
    | _, _ =>
      let applied := service.core.appliedIndex
      let base := service.core.log.baseIndex
      if applied = base then (if force then .enoent else .ok, service)
      else if !force && decide (applied - base < policy.appliedEntryThreshold) then (.ok, service)
      else takeSnapshot policy service

end Snapshots

section Ready

variable {σ : Type}

def enqueueReadStates (service : Service σ) (ready : Ready) : Outcome σ :=
  if service.maxCompletedReads - service.readStates.length < ready.readStates.length then
    (.eproto, service)
  else (.ok, { service with readStates := service.readStates ++ ready.readStates })

def onHost (call : σ → Status × σ) : Callback (Staging σ) := fun core staging =>
  let (status, state) := call staging.host
  (status, core, { staging with host := state })

def serviceHandlers (host : ServiceHost σ) (storage : Option (Storage σ)) :
    Handlers (Staging σ) where
  storage := storage.map fun storage step => onHost (storage step)
  enqueue := some (enqueueMessage host)
  enqueueSnapshot := some (enqueueSnapshot host)
  applyBatch := host.applyBatch.map fun apply entries core staging =>
    let (status, state) := apply entries staging.host
    (status, core, staging.hear state (.applied status))

def afterRuntime (service : Service σ) (drive : Drive (Staging σ)) : Service σ :=
  { service with runtime := drive.runtime, core := drive.core, staging := drive.host }

def serviceProcessReady (host : ServiceHost σ) (ready : Ready) (service : Service σ) : Outcome σ :=
  if !readyHasEffects ready then
    if service.pendingSnapshot.isSome then serviceSnapshot host false service else (.ok, service)
  else
    let (status, drive) := runtimeProcess (serviceHandlers host service.storage) service.runtime
      service.core service.staging ready
    let service := afterRuntime service drive
    if status = .ebusy ∧ service.runtime.applyBlocked = true then
      let (status, service) := enqueueReadStates service ready
      if status ≠ .ok then serviceFault service status else (.ebusy, service)
    else if status ≠ .ok then
      serviceFault { service with
        staging := { service.staging with deliveries := blankDeliveries } } status
    else
      let (status, service) := enqueueReadStates service ready
      if status ≠ .ok then serviceFault service status else serviceSnapshot host false service

def serviceCall (host : ServiceHost σ) (call : Core → Status × Call) (service : Service σ) :
    Outcome σ :=
  let (status, next) := call service.core
  let service := { service with core := next.core }
  if status ≠ .ok then (status, service) else serviceProcessReady host next.ready service

end Ready

variable {σ : Type}

def readyCapacity : ℕ := maxVoters

def guarded (host : ServiceHost σ) (body : Service σ → Outcome σ) (service : Service σ) :
    Outcome σ :=
  let (status, service) := mutationGuard host service
  if status ≠ .ok then (status, service) else body service

def serviceOperation (host : ServiceHost σ) (operation : Operation) : Service σ → Outcome σ :=
  guarded host (serviceCall host fun core => performOperation core operation readyCapacity)

def serviceTick (host : ServiceHost σ) (tick : Tick) : Service σ → Outcome σ :=
  serviceOperation host (.tick tick)

def serviceStepMessage (host : ServiceHost σ) (message : Message) : Service σ → Outcome σ :=
  guarded host (serviceCall host fun core => coreStep core message readyCapacity)

def serviceProposeBatch (host : ServiceHost σ) (proposals : List Proposal) (service : Service σ) :
    Outcome σ :=
  if proposals.length = 0 ∨ maxProposalBatch < proposals.length then (.einval, service)
  else serviceOperation host (.propose proposals) service

/-- The part of a batch with receipts that changes the service. -/
def serviceProposeBatchWithReceipts (host : ServiceHost σ) (proposals : List Proposal)
    (receiptCapacity : ℕ) (service : Service σ) : Outcome σ :=
  if proposals.length = 0 ∨ maxProposalBatch < proposals.length then (.einval, service)
  else if receiptCapacity < proposals.length then (.enospc, service)
  else
    let (status, service) := serviceProposeBatch host proposals service
    if status ≠ .ok then (status, service)
    else if logLastIndex service.core.log < proposals.length then serviceFault service .eproto
    else (.ok, service)

def serviceTransferLeadership (host : ServiceHost σ) (transferee : NodeId) (service : Service σ) :
    Outcome σ :=
  if transferee = 0 then (.einval, service)
  else serviceOperation host (.transferLeadership transferee) service

def serviceChangeMembership (host : ServiceHost σ) (change : MembershipChange) :
    Service σ → Outcome σ :=
  serviceOperation host (.changeMembership change)

def serviceReadIndex (host : ServiceHost σ) (contextId : UInt64) (service : Service σ) : Outcome σ :=
  if contextId = 0 then (.einval, service)
  else
    guarded host (fun service =>
      if service.readStates.any fun state => state.contextId == contextId then (.ealready, service)
      else if service.maxCompletedReads ≤ service.readStates.length + readTotalCount service.core then
        (.enospc, service)
      else
        serviceCall host (fun core => performOperation core (.readIndex contextId) readyCapacity)
          service) service

/-- A completed read is handed out only after the state machine has reached its index. -/
def serviceTakeReadState (host : ServiceHost σ) : Service σ → Outcome σ :=
  guarded host fun service =>
    match service.readStates with
    | [] => (.enoent, service)
    | state :: rest =>
      if service.core.appliedIndex < state.index then (.ebusy, service)
      else (.ok, { service with readStates := rest })

def servicePoll (host : ServiceHost σ) (service : Service σ) : Outcome σ :=
  let (status, service) := drainPending host service
  if status ≠ .ok then (status, service)
  else if service.runtime.applyBlocked then
    let (status, drive) := runtimeRetryApply (serviceHandlers host service.storage) service.runtime
      service.core service.staging
    let service := afterRuntime service drive
    if status = .ebusy then (.ebusy, service)
    else if status ≠ .ok then serviceFault service status
    else serviceSnapshot host false service
  else serviceCall host (fun core => performOperation core .poll readyCapacity) service

def serviceTriggerSnapshot (host : ServiceHost σ) : Service σ → Outcome σ :=
  guarded host (serviceSnapshot host true)

def serviceSnapshotCompleted (host : ServiceHost σ) (peer : NodeId) (snapshotIndex : ℕ)
    (service : Service σ) : Outcome σ :=
  if peer = 0 ∨ snapshotIndex = 0 then (.einval, service)
  else serviceOperation host (.snapshotCompleted peer snapshotIndex) service

def servicePrepareBackup (host : ServiceHost σ) : Service σ → Outcome σ :=
  guarded host fun service =>
    if service.pendingSnapshot.isSome || !service.readStates.isEmpty ||
        hasPendingTransport service.staging.deliveries || service.core.readyOutstanding then
      (.ebusy, service)
    else (.ok, { service with backupPrepared := true })

/-- A backup ends with a new storage, none when a callback of it is missing. -/
def serviceResumeBackup (storage : Option (Storage σ)) (service : Service σ) : Outcome σ :=
  if !service.backupPrepared || storage.isNone then (.einval, service)
  else (.ok, { service with runtime := .fresh, storage, backupPrepared := false })

/-- A reload replaces the core and the runtime. It does not touch a compaction that is still
pending for the core it replaces. -/
def serviceReload (config : CoreConfig) (service : Service σ) : Outcome σ :=
  if service.backupPrepared then (.ebusy, service)
  else if service.fault.isNone && service.core.readyOutstanding then (.ebusy, service)
  else
    match coreCreate config with
    | .error status => serviceFault service status
    | .ok core =>
      (.ok, { service with
        core
        runtime := .fresh
        readStates := []
        staging := { service.staging with deliveries := blankDeliveries }
        fault := none })

def serviceCreate (host : ServiceHost σ) (storage : Option (Storage σ)) (config : CoreConfig)
    (state : σ) : Except Status (Service σ) :=
  let maxLogEntries :=
    if config.maxLogEntries == 0 then defaultMaxLogEntries else config.maxLogEntries
  if host.policy.any fun policy => !snapshotPolicyValid policy maxLogEntries then .error .einval
  else
    match coreCreate config with
    | .error status => .error status
    | .ok core =>
      .ok
        { core
          runtime := .fresh
          storage
          staging := { deliveries := blankDeliveries, host := state, answers := [] }
          pendingSnapshot := none
          backupPrepared := false
          readStates := []
          maxCompletedReads :=
            if config.maxPendingReads == 0 then defaultMaxPendingReads else config.maxPendingReads
          fault := none }

inductive ServiceEvent (σ : Type) where
  | tick (tick : Tick)
  | step (message : Message)
  | propose (proposals : List Proposal)
  | proposeWithReceipts (proposals : List Proposal) (receiptCapacity : ℕ)
  | transferLeadership (transferee : NodeId)
  | changeMembership (change : MembershipChange)
  | readIndex (contextId : UInt64)
  | takeReadState
  | poll
  | triggerSnapshot
  | snapshotCompleted (peer : NodeId) (snapshotIndex : ℕ)
  | prepareBackup
  | resumeBackup (storage : Option (Storage σ))
  | reload (config : CoreConfig)

def serviceRun (host : ServiceHost σ) (service : Service σ) : ServiceEvent σ → Outcome σ
  | .tick tick => serviceTick host tick service
  | .step message => serviceStepMessage host message service
  | .propose proposals => serviceProposeBatch host proposals service
  | .proposeWithReceipts proposals receiptCapacity =>
    serviceProposeBatchWithReceipts host proposals receiptCapacity service
  | .transferLeadership transferee => serviceTransferLeadership host transferee service
  | .changeMembership change => serviceChangeMembership host change service
  | .readIndex contextId => serviceReadIndex host contextId service
  | .takeReadState => serviceTakeReadState host service
  | .poll => servicePoll host service
  | .triggerSnapshot => serviceTriggerSnapshot host service
  | .snapshotCompleted peer snapshotIndex =>
    serviceSnapshotCompleted host peer snapshotIndex service
  | .prepareBackup => servicePrepareBackup host service
  | .resumeBackup storage => serviceResumeBackup storage service
  | .reload config => serviceReload config service

def serviceNext (host : ServiceHost σ) (service : Service σ) (event : ServiceEvent σ) : Service σ :=
  (serviceRun host service event).2

end RaftService
