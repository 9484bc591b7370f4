import TurboRaft.RaftCoreState

/-! # Ready construction

The frame of one call (`begin`, the capacity check and `finish`), message emission, the
append windows of a leader and the role changes that emit messages. -/
namespace RaftCoreEmit

open RaftTypes RaftMembership RaftLog RaftCoreState

def resetReady (capacity : ℕ) : Ready :=
  { messageCapacity := capacity
    messages := []
    hardStateChanged := false
    term := 0
    votedFor := 0
    roleChanged := false
    role := .follower
    logChanged := false
    logTruncateFrom := 0
    logEntries := []
    commitChanged := false
    commitIndex := 0
    committedEntries := []
    readStates := []
    snapshotRequests := []
    emissionRoles := [] }

structure Before where
  role : Role
  term : ℕ
  votedFor : NodeId
  deriving DecidableEq, Repr

def beforeOf (core : Core) : Before :=
  { role := core.role, term := core.term, votedFor := core.votedFor }

def beginCall (core : Core) (capacity : ℕ) : Call :=
  { core := { core with inCall := true }, ready := resetReady capacity }

/-- A call is refused while another one runs or its Ready is outstanding. -/
def beginRefused (core : Core) : Bool := core.inCall || core.readyOutstanding

/-- The end of a call that failed: the Ready is emptied, core changes stay. -/
def abandonCall (call : Call) : Call :=
  { core := { call.core with inCall := false }, ready := resetReady call.ready.messageCapacity }

def lacksCapacity (call : Call) (required : ℕ) : Bool :=
  decide (call.ready.messageCapacity < required)

/-- Committed entries not yet handed to the state machine become part of the Ready. -/
def admitCommitted (call : Call) : Call :=
  if call.core.applyAdmittedIndex < call.core.commitIndex then
    { core := { call.core with pendingApplyIndex := call.core.commitIndex }
      ready := { call.ready with
        committedEntries := logSlice call.core.log (call.core.applyAdmittedIndex + 1)
          (call.core.commitIndex - call.core.applyAdmittedIndex) } }
  else
    call

def readyHasEffects (ready : Ready) : Bool :=
  ready.messages.length != 0 || ready.hardStateChanged || ready.roleChanged ||
    ready.logChanged || ready.commitChanged || ready.committedEntries.length != 0 ||
    ready.readStates.length != 0 || ready.snapshotRequests.length != 0

def finishReady (before : Before) (call : Call) : Ready :=
  { call.ready with
    hardStateChanged := before.term != call.core.term || before.votedFor != call.core.votedFor
    term := call.core.term
    votedFor := call.core.votedFor
    roleChanged := before.role != call.core.role
    role := call.core.role }

def finish (before : Before) (call : Call) : Call :=
  let admitted := admitCommitted call
  let ready := finishReady before admitted
  { core := { admitted.core with readyOutstanding := readyHasEffects ready, inCall := false }
    ready }

def newMessage (core : Core) (type : MessageType) (toId : NodeId) (granted : Bool) : Message :=
  { type
    fromId := core.selfId
    toId
    term := core.term
    campaignTerm := core.campaignTerm
    lastLogIndex := logLastIndex core.log
    lastLogTerm := logLastTerm core.log
    leaderCommit := 0
    previousLogIndex := 0
    previousLogTerm := 0
    matchIndex := 0
    rejectHint := 0
    entries := []
    granted
    contextId := 0 }

def emitWith (call : Call) (type : MessageType) (toId : NodeId) (granted : Bool)
    (edit : Message → Message) : Call × Bool :=
  if peerPaused call.core toId then
    (call, false)
  else
    ({ call with ready := { call.ready with
        messages := call.ready.messages ++ [edit (newMessage call.core type toId granted)]
        emissionRoles := call.ready.emissionRoles ++ [call.core.role] } },
      true)

def emit (call : Call) (type : MessageType) (toId : NodeId) (granted : Bool) : Call × Bool :=
  emitWith call type toId granted id

def emitSnapshotRequest (call : Call) (peer : ℕ) : Call :=
  if peerIndexPaused call.core peer then
    call
  else if call.ready.snapshotRequests.any (fun r => r.peerId == peerId call.core peer) then
    call
  else
    { call with ready := { call.ready with
        snapshotRequests := call.ready.snapshotRequests ++
          [{ peerId := peerId call.core peer
             leaderTerm := call.core.term
             snapshotIndex := call.core.log.baseIndex
             snapshotTerm := call.core.log.baseTerm }]
        emissionRoles := call.ready.emissionRoles ++ [call.core.role] } }

def forPeers (call : Call) (body : Call → ℕ → Call) : Call :=
  (List.range call.core.peers.length).foldl body call

def remoteVoter (core : Core) (peer : ℕ) : Bool :=
  peerId core peer != core.selfId && membershipIsVoter (coreMembership core) (peerId core peer)

def broadcast (call : Call) (type : MessageType) : Call :=
  forPeers call fun call peer =>
    if remoteVoter call.core peer then (emit call type (peerId call.core peer) false).1 else call

def broadcastReadIndex (call : Call) (contextId : UInt64) : Call :=
  forPeers call fun call peer =>
    if remoteVoter call.core peer then
      (emitWith call .readIndexRequest (peerId call.core peer) false
        (fun message => { message with contextId })).1
    else
      call

def setWindow (core : Core) (peer : ℕ) (window : AppendWindow) : Core :=
  { core with appendWindows := Function.update core.appendWindows peer window }

def setNext (core : Core) (peer next : ℕ) : Core :=
  { core with nextIndex := Function.update core.nextIndex peer next }

def setMatch (core : Core) (peer matched : ℕ) : Core :=
  { core with matchIndex := Function.update core.matchIndex peer matched }

/-- The term written for an index the leader neither retains nor has as its base is zero. -/
def previousTerm (log : Log) (index : ℕ) : ℕ :=
  if index == log.baseIndex then log.baseTerm else ((logGet log index).map Entry.term).getD 0

def windowLimit (core : Core) (peer : ℕ) : ℕ :=
  if (core.appendWindows peer).probe then defaultMaxInflightAppendRequests
  else core.maxInflightAppendRequests

def replicationCount (core : Core) (peer : ℕ) : ℕ :=
  min (logLastIndex core.log + 1 - core.nextIndex peer) maxAppendEntries

def replicationMessage (core : Core) (peer : ℕ) (message : Message) : Message :=
  { message with
    previousLogIndex := core.nextIndex peer - 1
    previousLogTerm := previousTerm core.log (core.nextIndex peer - 1)
    leaderCommit := core.commitIndex
    entries := logSlice core.log (core.nextIndex peer) (replicationCount core peer) }

def emitAppend (call : Call) (peer : ℕ) : Call × Bool :=
  let next := call.core.nextIndex peer
  let count := replicationCount call.core peer
  match emitWith call .appendRequest (peerId call.core peer) false
      (replicationMessage call.core peer) with
  | (_, false) => (call, false)
  | (emitted, true) =>
    match appendWindowPush (call.core.appendWindows peer) (next - 1) (next + count - 1) with
    | none => (call, false)
    | some window =>
      ({ emitted with core := setNext (setWindow emitted.core peer window) peer (next + count) },
        true)

def messagesFull (ready : Ready) : Bool := decide (ready.messageCapacity ≤ ready.messages.length)

def emitReplication (call : Call) (peer : ℕ) (allowHeartbeat : Bool) : Call × Bool :=
  if peerIndexPaused call.core peer then
    (call, false)
  else if call.core.nextIndex peer ≤ call.core.log.baseIndex then
    (emitSnapshotRequest
      { call with core := setWindow call.core peer (appendWindowReset true) } peer, true)
  else if call.core.nextIndex peer ≤ logLastIndex call.core.log then
    if windowLimit call.core peer ≤ (call.core.appendWindows peer).items.length ||
        messagesFull call.ready then
      (call, false)
    else
      emitAppend call peer
  else if !allowHeartbeat || messagesFull call.ready then
    (call, false)
  else
    emitWith call .heartbeatRequest (peerId call.core peer) false
      (replicationMessage call.core peer)

def broadcastReplication (call : Call) : Call :=
  forPeers call fun call peer =>
    if peerId call.core peer != call.core.selfId then (emitReplication call peer true).1 else call

def needsSnapshot (core : Core) (peer : ℕ) : Bool :=
  peerId core peer != core.selfId && decide (core.nextIndex peer ≤ core.log.baseIndex)

def needsEntries (core : Core) (peer : ℕ) : Bool :=
  peerId core peer != core.selfId && decide (core.log.baseIndex < core.nextIndex peer) &&
    decide (core.nextIndex peer ≤ logLastIndex core.log)

/-- One round over all peers; the flag tells whether anything was emitted in it. -/
def fillRound (call : Call) : Call × Bool :=
  (List.range call.core.peers.length).foldl
    (fun round peer =>
      if !messagesFull round.1.ready && needsEntries round.1.core peer then
        let next := emitReplication round.1 peer false
        (next.1, next.2 || round.2)
      else
        round)
    (call, false)

/-- The rounds end when one emits nothing or the Ready is full; each round that
continues fills one more message, so the free capacity bounds their number. -/
def fillRounds : ℕ → Call → Call
  | 0, call => (fillRound call).1
  | fuel + 1, call =>
    let round := fillRound call
    if round.2 && !messagesFull round.1.ready then fillRounds fuel round.1 else round.1

def fillReplicationWindows (call : Call) : Call :=
  if call.core.role != .leader then
    call
  else
    let requested := forPeers call fun call peer =>
      if needsSnapshot call.core peer then (emitReplication call peer false).1 else call
    fillRounds (requested.ready.messageCapacity - requested.ready.messages.length) requested

def fillPeerLoop (peer : ℕ) : ℕ → Call → Call
  | 0, call => call
  | fuel + 1, call =>
    if !messagesFull call.ready && decide (call.core.nextIndex peer ≤ logLastIndex call.core.log) then
      match emitReplication call peer false with
      | (next, true) => fillPeerLoop peer fuel next
      | (next, false) => next
    else
      call

def fillPeerReplicationWindow (call : Call) (peer : ℕ) : Call :=
  if call.core.nextIndex peer ≤ call.core.log.baseIndex then
    (emitReplication call peer false).1
  else
    fillPeerLoop peer (call.ready.messageCapacity - call.ready.messages.length) call

/-- The completed contexts replace whatever read states the Ready held. -/
def readEmitActive (call : Call) : Call :=
  { core := readClearActive call.core
    ready := { call.ready with
      readStates := call.core.pendingReadContexts.map
        (fun contextId => { contextId, index := call.core.pendingReadIndex }) } }

def readMoveWaitingToActive (core : Core) : Core :=
  { core with pendingReadContexts := core.waitingReadContexts, waitingReadContexts := [] }

def readBarrier (core : Core) : Core :=
  { core with
    pendingReadContextId := core.pendingReadContexts.headD 0
    pendingReadIndex := core.commitIndex
    pendingReadAcks := indexBit (voterIndex core core.selfId) }

def readStartActiveBarrier (call : Call) : Call :=
  let core := readBarrier call.core
  if coreHasQuorum core core.pendingReadAcks then
    readEmitActive { call with core }
  else
    broadcastReadIndex { call with core } core.pendingReadContextId

def leaderState (core : Core) : Core :=
  let next := logLastIndex core.log + 1
  let reset :=
    readResetAll
      { core with
        role := .leader
        leaderId := core.selfId
        campaignTerm := 0
        preVotes := 0
        votes := 0
        electionElapsedTicks := 0
        heartbeatElapsedTicks := 0
        checkQuorumElapsedTicks := 0
        recentActive := indexBit (voterIndex core core.selfId)
        leadershipTransferTarget := 0
        leadershipTransferElapsedTicks := 0
        leadershipTransferSent := false
        appendWindows := fun peer =>
          if peer < core.peers.length then appendWindowReset true else core.appendWindows peer
        nextIndex := fun peer => if peer < core.peers.length then next else core.nextIndex peer
        matchIndex := fun peer => if peer < core.peers.length then 0 else core.matchIndex peer }
  match voterIndex core core.selfId with
  | none => reset
  | some self =>
    setWindow (setMatch reset self (next - 1)) self { reset.appendWindows self with probe := false }

def becomeLeader (call : Call) : Call :=
  broadcastReplication { call with core := leaderState call.core }

def candidateState (core : Core) : Core :=
  { core with
    term := core.campaignTerm
    campaignTerm := 0
    role := .candidate
    leaderId := 0
    votedFor := core.selfId
    preVotes := 0
    votes := indexBit (voterIndex core core.selfId) }

def startElection (call : Call) : Call :=
  let core := candidateState call.core
  if coreHasQuorum core core.votes then
    becomeLeader { call with core }
  else
    broadcast { call with core } .voteRequest

def preCandidateState (core : Core) : Core :=
  { core with
    role := .preCandidate
    leaderId := 0
    campaignTerm := core.term + 1
    preVotes := indexBit (voterIndex core core.selfId)
    votes := 0 }

def startPreVote (call : Call) : Call :=
  let core := preCandidateState call.core
  if coreHasQuorum core core.preVotes then
    startElection { call with core }
  else
    broadcast { call with core } .preVoteRequest

end RaftCoreEmit
