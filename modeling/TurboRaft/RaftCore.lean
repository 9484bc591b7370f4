import TurboRaft.RaftCoreStep

/-! # The core interface

Creation from durable state, ticks, messages, client calls, acknowledgements and
log compaction. A call returns its status with the core and the Ready it leaves behind;
a caller that gets a status other than OK does not use the Ready. -/
namespace RaftCore

open RaftTypes RaftConfiguration RaftMembership RaftMembershipTransition RaftLog
open RaftCoreState RaftCoreEmit RaftCoreStep

def settingsInvalid (config : CoreConfig) : Bool :=
  config.selfId == 0 || config.voters.length == 0 || decide (maxVoters < config.voters.length) ||
    decide (maxMembers < config.learners.length) ||
    decide (maxMembers < config.voters.length + config.learners.length) ||
    config.heartbeatTicks == 0 || decide (config.electionMinTicks ≤ config.heartbeatTicks) ||
    decide (config.electionMaxTicks < config.electionMinTicks) ||
    decide (config.initialElectionTimeoutTicks < config.electionMinTicks) ||
    decide (config.electionMaxTicks < config.initialElectionTimeoutTicks) ||
    decide (RaftTypes.maxInflightAppendRequests < config.maxInflightAppendRequests) ||
    decide (maxPendingReadsLimit < config.maxPendingReads) ||
    !idsAscending config.voters || !idsAscending config.learners ||
    config.learners.any (fun id => config.voters.contains id)

def configuredSelfCount (config : CoreConfig) : ℕ :=
  match config.initialConfiguration with
  | some configuration => (memberIds configuration).count config.selfId
  | none => config.voters.count config.selfId + config.learners.count config.selfId

def configuredVoter (config : CoreConfig) (nodeId : NodeId) : Bool :=
  match config.initialConfiguration with
  | some configuration =>
    configuration.members.any (fun m => m.nodeId == nodeId && hasRole m.roles confVoterRoles)
  | none => config.voters.any (fun id => id == nodeId)

/-- The recovered vote and the core itself are looked up in the initial configuration. -/
def identityInvalid (config : CoreConfig) : Bool :=
  config.initialConfiguration.any (fun configuration => confValidate configuration != .ok) ||
    configuredSelfCount config != 1 ||
    (config.initialVote != 0 && !configuredVoter config config.initialVote) ||
    (config.initialVote != 0 && !configuredVoter config config.selfId)

def createTransition (config : CoreConfig) : Except Status MembershipTransition :=
  match config.initialConfiguration with
  | some configuration => membershipTransitionInitConfiguration configuration
  | none => membershipTransitionInit config.voters config.learners

def createLog (config : CoreConfig) : Except Status Log :=
  match logInit
      (if config.maxLogEntries == 0 then defaultMaxLogEntries else config.maxLogEntries)
      config.initialLastLogIndex config.initialLastLogTerm with
  | .error status => .error status
  | .ok log =>
    if config.initialLogEntries.length == 0 then
      .ok log
    else
      match logReconcile log config.initialLastLogIndex config.initialLastLogTerm
          config.initialLogEntries 0 with
      | .error status => .error status
      | .ok (filled, reconcile) => if reconcile.matched then .ok filled else .error .eproto

def orBase (config : CoreConfig) (index : ℕ) : ℕ :=
  if config.initialLastLogIndex != 0 && index == 0 then config.initialLastLogIndex else index

def blankCore (config : CoreConfig) (transition : MembershipTransition) (peers : List NodeId)
    (log : Log) : Core :=
  { selfId := config.selfId
    membershipTransition := transition
    peers
    selfIsVoter := (peerSetIndex peers config.selfId).isSome &&
      membershipIsVoter transition.committed config.selfId
    role := .follower
    leaderId := 0
    term := config.initialTerm
    votedFor := config.initialVote
    log
    commitIndex := orBase config config.initialCommitIndex
    appliedIndex := orBase config config.initialAppliedIndex
    applyAdmittedIndex := orBase config config.initialAppliedIndex
    pendingApplyIndex := 0
    campaignTerm := 0
    heartbeatTicks := config.heartbeatTicks
    electionMinTicks := config.electionMinTicks
    electionMaxTicks := config.electionMaxTicks
    electionTimeoutTicks := config.initialElectionTimeoutTicks
    electionElapsedTicks := 0
    heartbeatElapsedTicks := 0
    checkQuorumElapsedTicks := 0
    recentActive := 0
    pausedPeers := 0
    leadershipTransferTarget := 0
    leadershipTransferElapsedTicks := 0
    leadershipTransferSent := false
    pendingReadContextId := 0
    pendingReadContexts := []
    pendingReadIndex := 0
    pendingReadAcks := 0
    waitingReadContexts := []
    maxPendingReads :=
      if config.maxPendingReads == 0 then defaultMaxPendingReads else config.maxPendingReads
    preVotes := 0
    votes := 0
    nextIndex := fun _ => 0
    matchIndex := fun _ => 0
    appendWindows := fun _ => appendWindowReset true
    maxInflightAppendRequests :=
      if config.maxInflightAppendRequests == 0 then defaultMaxInflightAppendRequests
      else config.maxInflightAppendRequests
    readyOutstanding := false
    inCall := false }

def indicesInvalid (config : CoreConfig) (core : Core) : Bool :=
  decide (core.appliedIndex < config.initialLastLogIndex) ||
    decide (core.commitIndex < core.appliedIndex) ||
    decide (logLastIndex core.log < core.commitIndex)

def coreCreate (config : CoreConfig) : Except Status Core :=
  if settingsInvalid config || identityInvalid config then
    .error .einval
  else
    match createTransition config with
    | .error status => .error status
    | .ok transition =>
      match peerSetBuild [transition.committed] with
      | .error status => .error status
      | .ok peers =>
        match createLog config with
        | .error status => .error status
        | .ok log =>
          let core := blankCore config transition peers log
          if indicesInvalid config core then
            .error .einval
          else
            match coreReplayMembershipLog core with
            | .error status => .error status
            | .ok replayed =>
              .ok { replayed with appendWindows := fun peer =>
                { replayed.appendWindows peer with probe := true } }

def refuse (core : Core) (capacity : ℕ) (status : Status) : Status × Call :=
  (status, { core, ready := resetReady capacity })

/-- Wraps the body of a call: the refusal of an overlapping call, the cleanup of a
failed one and the summary of a successful one. -/
def runCall (core : Core) (capacity : ℕ) (body : Call → Status × Call) : Status × Call :=
  if beginRefused core then
    refuse core capacity .eproto
  else
    match body (beginCall core capacity) with
    | (.ok, call) => (.ok, finish (beforeOf core) call)
    | (status, call) => (status, abandonCall call)

/-- A 32-bit counter reaches `limit` with these ticks, or would wrap. -/
def tickReached (elapsed ticks limit : ℕ) : Bool :=
  decide (uint32Max - elapsed < ticks) || decide (limit ≤ elapsed + ticks)

def tickQuorum (core : Core) (ticks : ℕ) : Core :=
  if tickReached core.checkQuorumElapsedTicks ticks core.electionTimeoutTicks then
    { core with
      checkQuorumElapsedTicks := 0
      recentActive := indexBit (voterIndex core core.selfId) }
  else
    { core with checkQuorumElapsedTicks := core.checkQuorumElapsedTicks + ticks }

def tickTransfer (core : Core) (ticks : ℕ) : Core :=
  if core.leadershipTransferTarget == 0 then
    core
  else if tickReached core.leadershipTransferElapsedTicks ticks core.electionTimeoutTicks then
    { core with
      leadershipTransferTarget := 0
      leadershipTransferElapsedTicks := 0
      leadershipTransferSent := false }
  else
    { core with leadershipTransferElapsedTicks := core.leadershipTransferElapsedTicks + ticks }

def windowTimedOut (core : Core) (ticks peer : ℕ) : Bool :=
  decide (peer < core.peers.length) && !peerIndexPaused core peer &&
    (core.appendWindows peer).items.any
      (fun item => tickReached item.elapsedTicks ticks core.heartbeatTicks)

def agedWindow (window : AppendWindow) (ticks : ℕ) : AppendWindow :=
  { window with
    items := window.items.map (fun item => { item with elapsedTicks := item.elapsedTicks + ticks }) }

/-- A window with a request older than one heartbeat restarts after the match index. -/
def tickWindows (core : Core) (ticks : ℕ) : Core :=
  { core with
    nextIndex := fun peer =>
      if windowTimedOut core ticks peer then core.matchIndex peer + 1 else core.nextIndex peer
    appendWindows := fun peer =>
      if windowTimedOut core ticks peer then appendWindowReset true
      else if peer < core.peers.length && !peerIndexPaused core peer then
        agedWindow (core.appendWindows peer) ticks
      else core.appendWindows peer }

def tickHeartbeat (call : Call) (ticks required : ℕ) : Status × Call :=
  if tickReached call.core.heartbeatElapsedTicks ticks call.core.heartbeatTicks then
    if lacksCapacity call required then
      (.enospc, call)
    else
      (.ok, broadcastReplication
        { call with core := { call.core with heartbeatElapsedTicks := 0 } })
  else
    (.ok, { call with core :=
      { call.core with heartbeatElapsedTicks := call.core.heartbeatElapsedTicks + ticks } })

def tickLeader (call : Call) (ticks : ℕ) : Status × Call :=
  if tickReached call.core.checkQuorumElapsedTicks ticks call.core.electionTimeoutTicks &&
      !coreHasQuorum call.core call.core.recentActive then
    (.ok, { call with core := becomeFollower call.core call.core.term })
  else
    tickHeartbeat
      { call with core := tickWindows (tickTransfer (tickQuorum call.core ticks) ticks) ticks }
      ticks (unpausedRemotePeerCount call.core)

def tickFinal (call : Call) : Status × Call :=
  match membershipTransitionFinal call.core.membershipTransition with
  | .error status => (status, call)
  | .ok configuration => coreAppendConfiguration call configuration

def tickElection (call : Call) (tick : Tick) : Status × Call :=
  if tickReached call.core.electionElapsedTicks tick.elapsedTicks call.core.electionTimeoutTicks then
    if !call.core.selfIsVoter then
      (.ok, { call with core :=
        { call.core with
          electionElapsedTicks := 0
          electionTimeoutTicks := tick.nextElectionTimeoutTicks } })
    else if call.core.term == uint64Max then
      (.eproto, call)
    else if lacksCapacity call (unpausedRemotePeerCount call.core) then
      (.enospc, call)
    else
      (.ok, startPreVote { call with core :=
        { call.core with
          electionElapsedTicks := 0
          electionTimeoutTicks := tick.nextElectionTimeoutTicks } })
  else
    (.ok, { call with core :=
      { call.core with
        electionElapsedTicks := call.core.electionElapsedTicks + tick.elapsedTicks } })

def tickBody (tick : Tick) (call : Call) : Status × Call :=
  if !timeoutValid call.core tick.nextElectionTimeoutTicks then
    (.einval, call)
  else if call.core.role == .leader then
    if membershipTransitionNeedsFinal call.core.membershipTransition then tickFinal call
    else tickLeader call tick.elapsedTicks
  else
    tickElection call tick

def coreTick (core : Core) (tick : Tick) (capacity : ℕ) : Status × Call :=
  if tick.elapsedTicks == 0 then refuse core capacity .einval
  else runCall core capacity (tickBody tick)

def answerCapacity (core : Core) (message : Message) : ℕ :=
  if peerPaused core message.fromId then 0 else 1

/-- The number of messages the handler of `message` may emit besides window filling. -/
def stepRequired (core : Core) (message : Message) : ℕ :=
  match message.type with
  | .preVoteRequest | .voteRequest | .heartbeatRequest | .appendRequest =>
    answerCapacity core message
  | .preVoteResponse =>
    if willPreVoteWin core message (voterIndex core message.fromId) then
      unpausedRemotePeerCount core
    else 0
  | .voteResponse =>
    if willVoteWin core message (voterIndex core message.fromId) then
      unpausedRemotePeerCount core
    else 0
  | .heartbeatResponse | .appendResponse =>
    if core.role == .leader && message.term == core.term && message.granted &&
        !core.leadershipTransferSent && core.leadershipTransferTarget == message.fromId &&
        message.matchIndex == logLastIndex core.log then 1
    else 0
  | .timeoutNow => if timeoutNowAccepted core message then unpausedRemoteVoterCount core else 0
  | .readIndexRequest => if readIndexAccepted core message then answerCapacity core message else 0
  | .readIndexResponse => 0

def requestMalformed (message : Message) : Bool :=
  decide (maxAppendEntries < message.entries.length) ||
    (message.type == .heartbeatRequest && message.entries.length != 0)

def stepDispatch (message : Message) (peer : ℕ) (call : Call) : Status × Call :=
  let voter := voterIndex call.core message.fromId
  match message.type with
  | .preVoteRequest => (.ok, stepPreVoteRequest call message)
  | .preVoteResponse => (.ok, stepPreVoteResponse call message voter)
  | .voteRequest => (.ok, stepVoteRequest call message)
  | .voteResponse => (.ok, stepVoteResponse call message voter)
  | .heartbeatRequest | .appendRequest =>
    if requestMalformed message then (.einval, call) else stepHeartbeatRequest call message
  | .heartbeatResponse | .appendResponse => stepHeartbeatResponse call message peer
  | .timeoutNow => (.ok, stepTimeoutNow call message)
  | .readIndexRequest => (.ok, stepReadIndexRequest call message)
  | .readIndexResponse => (.ok, stepReadIndexResponse call message voter)

def stepBody (message : Message) (peer : ℕ) (call : Call) : Status × Call :=
  if lacksCapacity call (stepRequired call.core message) then (.enospc, call)
  else stepDispatch message peer call

/-- Only replication responses are taken from peers that are not voters. -/
def senderRefused (core : Core) (message : Message) : Bool :=
  (voterIndex core message.fromId).isNone && message.type != .heartbeatResponse &&
    message.type != .appendResponse

def coreStep (core : Core) (message : Message) (capacity : ℕ) : Status × Call :=
  if message.toId != core.selfId || message.fromId == core.selfId then
    refuse core capacity .einval
  else
    match peerIndex core message.fromId with
    | none => refuse core capacity .einval
    | some peer =>
      if senderRefused core message then refuse core capacity .einval
      else runCall core capacity (stepBody message peer)

def proposeBody (proposals : List Proposal) (call : Call) : Status × Call :=
  if call.core.role != .leader then
    (.eproto, call)
  else if call.core.leadershipTransferTarget != 0 then
    (.ebusy, call)
  else if lacksCapacity call (unpausedRemotePeerCount call.core) then
    (.enospc, call)
  else
    match logAppendLocalBatch call.core.log call.core.term proposals with
    | .error status => (status, call)
    | .ok (log, entries) =>
      let appended := { call.core with log }
      afterAppend
        { call with core :=
            matchSelf appended (voterIndex appended appended.selfId) (logLastIndex log) }
        entries

def coreProposeBatch (core : Core) (proposals : List Proposal) (capacity : ℕ) : Status × Call :=
  if proposals.length == 0 || maxProposalBatch < proposals.length || !proposals.all proposalValid then
    refuse core capacity .einval
  else
    runCall core capacity (proposeBody proposals)

def corePropose (core : Core) (proposal : Proposal) (capacity : ℕ) : Status × Call :=
  coreProposeBatch core [proposal] capacity

def changeMembershipBody (change : MembershipChange) (call : Call) : Status × Call :=
  if call.core.role != .leader then
    (.eperm, call)
  else if call.core.leadershipTransferTarget != 0 || readTotalCount call.core != 0 then
    (.ebusy, call)
  else
    match membershipTransitionPropose call.core.membershipTransition change.voters
        change.learners change.transitionId with
    | .error status => (status, call)
    | .ok joint => coreAppendConfiguration call joint

def coreChangeMembership (core : Core) (change : MembershipChange) (capacity : ℕ) : Status × Call :=
  if change.transitionId == 0 then refuse core capacity .einval
  else runCall core capacity (changeMembershipBody change)

def startTransfer (call : Call) (transferee : NodeId) (peer : ℕ) : Call :=
  let targeted := { call with core :=
    { call.core with
      leadershipTransferTarget := transferee
      leadershipTransferElapsedTicks := 0 } }
  let sent :=
    if logLastIndex call.core.log ≤ call.core.matchIndex peer then
      emit targeted .timeoutNow transferee false
    else
      ((emitReplication targeted peer false).1, false)
  { core := { sent.1.core with leadershipTransferSent := sent.2 }, ready := sent.1.ready }

def transferBody (transferee : NodeId) (peer : ℕ) (call : Call) : Status × Call :=
  if call.core.role != .leader then
    (.eproto, call)
  else if call.core.leadershipTransferTarget != 0 || readTotalCount call.core != 0 ||
      peerIndexPaused call.core peer then
    (.ebusy, call)
  else if lacksCapacity call 1 then
    (.enospc, call)
  else
    (.ok, startTransfer call transferee peer)

def coreTransferLeadership (core : Core) (transferee : NodeId) (capacity : ℕ) : Status × Call :=
  if transferee == 0 || transferee == core.selfId then
    refuse core capacity .einval
  else
    match voterIndex core transferee with
    | none => refuse core capacity .einval
    | some peer => runCall core capacity (transferBody transferee peer)

/-- A context joins the active barrier when the commit index has not moved since the
barrier started, and waits for the next one otherwise. -/
def joinRead (core : Core) (contextId : UInt64) : Core :=
  if core.commitIndex == core.pendingReadIndex then
    { core with pendingReadContexts := core.pendingReadContexts ++ [contextId] }
  else
    { core with waitingReadContexts := core.waitingReadContexts ++ [contextId] }

def readIndexBody (contextId : UInt64) (call : Call) : Status × Call :=
  if call.core.role != .leader then
    (.eproto, call)
  else if call.core.leadershipTransferTarget != 0 || !hasCommittedCurrentTerm call.core then
    (.ebusy, call)
  else if readContextExists call.core contextId then
    (.ealready, call)
  else if call.core.maxPendingReads ≤ readTotalCount call.core then
    (.enospc, call)
  else if call.core.pendingReadContexts.length != 0 then
    (.ok, { call with core := joinRead call.core contextId })
  else if lacksCapacity call (unpausedRemoteVoterCount call.core) then
    (.enospc, call)
  else
    let queued :=
      { call.core with waitingReadContexts := call.core.waitingReadContexts ++ [contextId] }
    (.ok, readStartActiveBarrier { call with core := readMoveWaitingToActive queued })

def coreReadIndex (core : Core) (contextId : UInt64) (capacity : ℕ) : Status × Call :=
  if contextId == 0 then refuse core capacity .einval
  else runCall core capacity (readIndexBody contextId)

def pollBody (call : Call) : Status × Call :=
  if call.core.role == .leader && call.core.pendingReadContexts.length == 0 &&
      call.core.waitingReadContexts.length != 0 then
    if lacksCapacity call (unpausedRemoteVoterCount call.core) then
      (.enospc, call)
    else
      (.ok, fillReplicationWindows (readStartActiveBarrier
        { call with core := readMoveWaitingToActive call.core }))
  else
    (.ok, fillReplicationWindows call)

def corePoll (core : Core) (capacity : ℕ) : Status × Call := runCall core capacity pollBody

def coreAckReady (core : Core) (admittedEntryCount : ℕ) : Status × Core :=
  if core.inCall || !core.readyOutstanding then
    (.eproto, core)
  else if core.pendingApplyIndex != 0 && decide (core.pendingApplyIndex < core.applyAdmittedIndex) then
    (.eproto, core)
  else
    let pendingCount :=
      if core.pendingApplyIndex != 0 then core.pendingApplyIndex - core.applyAdmittedIndex else 0
    if pendingCount < admittedEntryCount then
      (.einval, core)
    else
      (.ok, { core with
        applyAdmittedIndex := core.applyAdmittedIndex + admittedEntryCount
        pendingApplyIndex := 0
        readyOutstanding := false })

def coreAckApplied (core : Core) (index : ℕ) : Status × Core :=
  if index == 0 then (.einval, core)
  else if core.inCall then (.eproto, core)
  else if index ≤ core.appliedIndex then (.ealready, core)
  else if core.appliedIndex == uint64Max || index != core.appliedIndex + 1 then (.eproto, core)
  else if core.applyAdmittedIndex < index then (.ebusy, core)
  else (.ok, { core with appliedIndex := index })

def coreAdvance (core : Core) : Status × Core :=
  if core.inCall || !core.readyOutstanding then
    (.eproto, core)
  else if core.pendingApplyIndex != 0 then
    if core.applyAdmittedIndex != core.appliedIndex ||
        decide (core.pendingApplyIndex < core.applyAdmittedIndex) then
      (.ebusy, core)
    else
      (.ok, { core with
        applyAdmittedIndex := core.pendingApplyIndex
        appliedIndex := core.pendingApplyIndex
        pendingApplyIndex := 0
        readyOutstanding := false })
  else
    (.ok, { core with readyOutstanding := false })

def coreSnapshotPoint (core : Core) : Except Status SnapshotPoint :=
  if core.inCall || core.readyOutstanding || core.appliedIndex != core.commitIndex then
    .error .ebusy
  else if core.appliedIndex ≤ core.log.baseIndex then
    .error .enoent
  else
    match logGet core.log core.appliedIndex with
    | none => .error .eproto
    | some entry =>
      .ok { index := core.appliedIndex
            term := entry.term
            configuration := coreMembership core }

def coreCompact (core : Core) (point : SnapshotPoint) : Status × Core :=
  match coreSnapshotPoint core with
  | .error status => (status, core)
  | .ok current =>
    if point != current then
      (.eproto, core)
    else
      match logCompact core.log point.index point.term with
      | .error status => (status, core)
      | .ok log => (.ok, { core with log })

def restartPeer (core : Core) (peer snapshotIndex : ℕ) : Core :=
  let matched :=
    if core.matchIndex peer < snapshotIndex then setMatch core peer snapshotIndex else core
  setWindow (setNext matched peer (snapshotIndex + 1)) peer (appendWindowReset true)

def snapshotCompletedBody (peer snapshotIndex : ℕ) (call : Call) : Status × Call :=
  if call.core.role != .leader then
    (.ebusy, call)
  else if lacksCapacity call (if peerIndexPaused call.core peer then 0 else 1) then
    (.enospc, call)
  else
    (.ok, fillPeerReplicationWindow
      { call with core := restartPeer call.core peer snapshotIndex } peer)

def coreSnapshotCompleted (core : Core) (nodeId : NodeId) (snapshotIndex capacity : ℕ) :
    Status × Call :=
  if nodeId == 0 || nodeId == core.selfId || snapshotIndex == 0 then
    refuse core capacity .einval
  else
    match peerIndex core nodeId with
    | none => refuse core capacity .einval
    | some peer =>
      if core.log.baseIndex < snapshotIndex then refuse core capacity .einval
      else runCall core capacity (snapshotCompletedBody peer snapshotIndex)

def setBit (mask bit : ℕ) (value : Bool) : ℕ :=
  if value then mask ||| (1 <<< bit)
  else if mask.testBit bit then mask ^^^ (1 <<< bit) else mask

def coreSetPeerPaused (core : Core) (nodeId : NodeId) (paused : Bool) : Status × Core :=
  if nodeId == 0 || nodeId == core.selfId then (.einval, core)
  else if core.inCall then (.ebusy, core)
  else
    match peerIndex core nodeId with
    | none => (.enoent, core)
    | some peer => (.ok, { core with pausedPeers := setBit core.pausedPeers peer paused })

def corePeerPaused (core : Core) (nodeId : NodeId) : Except Status Bool :=
  if nodeId == 0 || nodeId == core.selfId then .error .einval
  else
    match peerIndex core nodeId with
    | none => .error .enoent
    | some peer => .ok (peerIndexPaused core peer)

def retainedState (core : Core) (entry : Entry) (term index : ℕ) : OperationState :=
  if entry.term != term then .lost
  else if index ≤ core.appliedIndex then .applied
  else if index ≤ core.commitIndex then .committed
  else .pending

def coreOperationStatus (core : Core) (term index : ℕ) : Except Status OperationStatus :=
  let report := fun state =>
    { state, term, index
      commitIndex := core.commitIndex
      appliedIndex := core.appliedIndex }
  if term == 0 || index == 0 then
    .error .einval
  else if index < core.log.baseIndex then
    .ok (report .expired)
  else if index == core.log.baseIndex then
    .ok (report (if term == core.log.baseTerm then .applied else .lost))
  else if logLastIndex core.log < index then
    if core.term < term then .error .einval else .ok (report .lost)
  else
    match logGet core.log index with
    | none => .error .eproto
    | some entry => .ok (report (retainedState core entry term index))

end RaftCore
