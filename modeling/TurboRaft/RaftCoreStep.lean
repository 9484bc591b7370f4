import TurboRaft.RaftCoreEmit

/-! # Message handlers

One function per message type of `coreStep`, the commit rules of leader and
follower, and the append of a configuration entry. -/
namespace RaftCoreStep

open RaftTypes RaftMembership RaftMembershipTransition RaftLog
open RaftCoreState RaftCoreEmit

def bitUnset (mask : ℕ) (voter : Option ℕ) : Bool := (mask &&& indexBit voter) == 0

def willPreVoteWin (core : Core) (message : Message) (voter : Option ℕ) : Bool :=
  core.role == .preCandidate && decide (message.term ≤ core.term) &&
    message.campaignTerm == core.campaignTerm && message.granted &&
    bitUnset core.preVotes voter && coreHasQuorum core (core.preVotes ||| indexBit voter)

def willVoteWin (core : Core) (message : Message) (voter : Option ℕ) : Bool :=
  core.role == .candidate && message.term == core.term && message.granted &&
    bitUnset core.votes voter && coreHasQuorum core (core.votes ||| indexBit voter)

/-- The answer carries the campaign term of the request; afterwards the campaign term
of this core is zero, also when it was campaigning itself. -/
def stepPreVoteRequest (call : Call) (request : Message) : Call :=
  let termAvailable :=
    call.core.term != uint64Max && decide (call.core.term + 1 ≤ request.campaignTerm)
  let granted := call.core.selfIsVoter && termAvailable && logIsUpToDate call.core request
  let answered := (emit { call with core := { call.core with campaignTerm := request.campaignTerm } }
    .preVoteResponse request.fromId granted).1
  { answered with core := { answered.core with campaignTerm := 0 } }

def stepPreVoteResponse (call : Call) (response : Message) (voter : Option ℕ) : Call :=
  if call.core.term < response.term then
    { call with core := becomeFollower call.core response.term }
  else if call.core.role != .preCandidate || response.campaignTerm != call.core.campaignTerm ||
      !response.granted || !bitUnset call.core.preVotes voter then
    call
  else
    let core := { call.core with preVotes := call.core.preVotes ||| indexBit voter }
    if coreHasQuorum core core.preVotes then startElection { call with core }
    else { call with core }

def voteGranted (core : Core) (request : Message) : Bool :=
  core.selfIsVoter && request.term == core.term &&
    (core.votedFor == 0 || core.votedFor == request.fromId) && logIsUpToDate core request

def stepVoteRequest (call : Call) (request : Message) : Call :=
  let core :=
    if call.core.term < request.term then becomeFollower call.core request.term else call.core
  if voteGranted core request then
    (emit { call with core :=
        { core with votedFor := request.fromId, electionElapsedTicks := 0 } }
      .voteResponse request.fromId true).1
  else
    (emit { call with core } .voteResponse request.fromId false).1

def stepVoteResponse (call : Call) (response : Message) (voter : Option ℕ) : Call :=
  if call.core.term < response.term then
    { call with core := becomeFollower call.core response.term }
  else if call.core.role != .candidate || response.term != call.core.term ||
      !response.granted || !bitUnset call.core.votes voter then
    call
  else
    let core := { call.core with votes := call.core.votes ||| indexBit voter }
    if coreHasQuorum core core.votes then becomeLeader { call with core }
    else { call with core }

/-- Moves the commit index, applies the configurations it covers and rebuilds the peers.
The new commit index and configuration stay when the rebuild fails. -/
def advanceCommit (core : Core) (index : ℕ) : Status × Core :=
  let applied :=
    { core with
      commitIndex := index
      membershipTransition := membershipTransitionApply core.membershipTransition index }
  match coreSyncMembership applied with
  | .error status => (status, applied)
  | .ok synced => (.ok, synced)

def responseType (request : Message) : MessageType :=
  if request.type == .appendRequest then .appendResponse else .heartbeatResponse

/-- The transition a matching request leads to; the current one when it does not match. -/
def requestTransition (core : Core) (request : Message) : Except Status MembershipTransition :=
  if logMatches core.log request.previousLogIndex request.previousLogTerm then
    coreRebuildPendingTransition core request.previousLogIndex request.entries
  else
    .ok core.membershipTransition

def acceptLeader (core : Core) (request : Message) (log : Log) : Core :=
  { becomeFollower { core with log } request.term with
    leaderId := request.fromId
    electionElapsedTicks := 0 }

/-- The follower's commit candidate is bounded by the end of its own log, which may lie
beyond the entries of the request. -/
def followerCommit (core : Core) (request : Message) : Status × Core :=
  if core.commitIndex < request.leaderCommit then
    advanceCommit core (membershipTransitionCommitLimit core.membershipTransition
      (min request.leaderCommit (logLastIndex core.log)))
  else
    (.ok, core)

def adoptTransition (core : Core) (request : Message) (transition : MembershipTransition) :
    Status × Core :=
  match coreBuildPeerSet transition with
  | .error _ => (.eproto, { core with membershipTransition := transition })
  | .ok peers =>
    followerCommit (coreRefreshPeers { core with membershipTransition := transition } peers) request

def reportLog (ready : Ready) (log : Log) (reconcile : ReconcileResult) : Ready :=
  if reconcile.changed then
    { ready with
      logChanged := true
      logTruncateFrom := reconcile.truncateFrom
      logEntries := logSlice log reconcile.appendFrom reconcile.appendCount }
  else
    ready

def reportCommit (ready : Ready) (oldCommit commitIndex : ℕ) : Ready :=
  if commitIndex != oldCommit then
    { ready with commitChanged := true, commitIndex }
  else
    ready

def answerRequest (call : Call) (request : Message) (reconcile : ReconcileResult) : Call :=
  (emitWith call (responseType request) request.fromId reconcile.matched fun message =>
    { message with
      matchIndex :=
        if reconcile.matched then request.previousLogIndex + request.entries.length else 0
      rejectHint := reconcile.rejectHint
      previousLogIndex := request.previousLogIndex }).1

def rejectStale (call : Call) (request : Message) : Call :=
  (emitWith call (responseType request) request.fromId false fun message =>
    { message with rejectHint := logLastIndex call.core.log + 1 }).1

/-- Heartbeat and append requests share one handler. -/
def stepHeartbeatRequest (call : Call) (request : Message) : Status × Call :=
  if request.term < call.core.term then
    (.ok, rejectStale call request)
  else
    match requestTransition call.core request with
    | .error status => (status, call)
    | .ok transition =>
      match logReconcile call.core.log request.previousLogIndex request.previousLogTerm
          request.entries call.core.commitIndex with
      | .error status => (status, call)
      | .ok (log, reconcile) =>
        let accepted := acceptLeader call.core request log
        let adopted :=
          if reconcile.matched then adoptTransition accepted request transition
          else (.ok, accepted)
        match adopted with
        | (.ok, core) =>
          (.ok, answerRequest
            { core
              ready := reportCommit (reportLog call.ready core.log reconcile)
                call.core.commitIndex core.commitIndex }
            request reconcile)
        | (status, core) => (status, { call with core })

/-- The largest committable index at or below `candidate`: an entry of the current term
that a quorum matches. -/
def commitCandidate (core : Core) : ℕ → Option ℕ
  | 0 => none
  | candidate + 1 =>
    if candidate + 1 ≤ core.commitIndex then
      none
    else if (logGet core.log (candidate + 1)).any (fun entry => entry.term == core.term) &&
        coreMatchQuorum core (candidate + 1) then
      some (candidate + 1)
    else
      commitCandidate core candidate

def updateCommit (call : Call) : Status × Call :=
  match commitCandidate call.core
      (membershipTransitionCommitLimit call.core.membershipTransition
        (logLastIndex call.core.log)) with
  | none => (.ok, call)
  | some candidate =>
    match advanceCommit call.core candidate with
    | (.ok, core) =>
      (.ok, { core
              ready := { call.ready with commitChanged := true, commitIndex := candidate } })
    | (status, core) => (status, { call with core })

def matchSelf (core : Core) (self : Option ℕ) (index : ℕ) : Core :=
  match self with
  | none => core
  | some self => setNext (setMatch core self index) self (index + 1)

/-- What follows every local append: report it, try to commit, replicate. -/
def afterAppend (call : Call) (entries : List Entry) : Status × Call :=
  match updateCommit { call with
      ready := { call.ready with logChanged := true, logEntries := entries } } with
  | (.ok, committed) => (.ok, broadcastReplication committed)
  | failed => failed

def coreAppendConfiguration (call : Call) (configuration : Conf) : Status × Call :=
  match membershipTransitionStage call.core.membershipTransition configuration
      (logLastIndex call.core.log + 1) with
  | .error status => (status, call)
  | .ok staged =>
    match coreBuildPeerSet staged with
    | .error status => (status, call)
    | .ok peers =>
      if lacksCapacity call (peerSetUnpausedRemoteCount call.core peers) then
        (.enospc, call)
      else
        match logAppendConfiguration call.core.log call.core.term configuration with
        | .error status => (status, call)
        | .ok (log, entry) =>
          let refreshed :=
            coreRefreshPeers { call.core with log, membershipTransition := staged } peers
          afterAppend
            { call with
              core := matchSelf refreshed (peerIndex refreshed refreshed.selfId) entry.index }
            [entry]

/-- A grant releases the confirmed part of the window and raises the match index. -/
def acceptGrant (call : Call) (response : Message) (peer : ℕ) : Status × Call :=
  let released :=
    setWindow call.core peer
      { appendWindowReleaseThrough (call.core.appendWindows peer) response.matchIndex with
        probe := false }
  if released.matchIndex peer < response.matchIndex then
    let matched := setMatch released peer response.matchIndex
    updateCommit
      { call with core :=
          if matched.nextIndex peer < response.matchIndex + 1 then
            setNext matched peer (response.matchIndex + 1)
          else
            matched }
  else
    (.ok, { call with core := released })

def backoffNext (core : Core) (response : Message) (peer : ℕ)
    (inflight : Option AppendInflight) : ℕ :=
  let start :=
    match inflight with
    | some item => item.previousIndex
    | none =>
      if core.log.baseIndex + 1 < core.nextIndex peer then core.nextIndex peer - 1
      else core.nextIndex peer
  let hinted :=
    if response.rejectHint != 0 && decide (response.rejectHint < start) then response.rejectHint
    else start
  if hinted < core.matchIndex peer + 1 then core.matchIndex peer + 1 else hinted

def acceptReject (core : Core) (response : Message) (peer : ℕ)
    (inflight : Option AppendInflight) : Core :=
  setNext (setWindow core peer (appendWindowReset true)) peer
    (backoffNext core response peer inflight)

def markActive (core : Core) (nodeId : NodeId) (peer : ℕ) : Core :=
  if membershipIsVoter (coreMembership core) nodeId then
    { core with recentActive := core.recentActive ||| (1 <<< peer) }
  else
    core

/-- An append response only counts when it answers a request of the current window. -/
def responseIgnored (core : Core) (response : Message) (peer : ℕ) : Bool :=
  (response.granted && decide (logLastIndex core.log < response.matchIndex)) ||
    (response.type == .appendResponse &&
      match appendWindowFind (core.appendWindows peer) response.previousLogIndex with
      | none => true
      | some item => response.granted && response.matchIndex != item.lastIndex)

def responseInflight (core : Core) (response : Message) (peer : ℕ) : Option AppendInflight :=
  if response.type == .appendResponse then
    appendWindowFind (core.appendWindows peer) response.previousLogIndex
  else
    none

def continueReplication (call : Call) (response : Message) (peer lastIndex : ℕ) : Call :=
  if response.granted && !call.core.leadershipTransferSent &&
      call.core.leadershipTransferTarget == response.fromId &&
      decide (lastIndex ≤ call.core.matchIndex peer) then
    let sent := emit call .timeoutNow response.fromId false
    { core := { sent.1.core with leadershipTransferSent := sent.2 }, ready := sent.1.ready }
  else if call.core.nextIndex peer ≤ lastIndex || !response.granted then
    fillPeerReplicationWindow call peer
  else
    call

def stepHeartbeatResponse (call : Call) (response : Message) (peer : ℕ) : Status × Call :=
  if call.core.term < response.term then
    (.ok, { call with core := becomeFollower call.core response.term })
  else if call.core.role != .leader || response.term != call.core.term ||
      responseIgnored call.core response peer then
    (.ok, call)
  else
    let lastIndex := logLastIndex call.core.log
    let active := { call with core := markActive call.core response.fromId peer }
    let processed :=
      if response.granted then acceptGrant active response peer
      else
        (.ok,
          { active with
            core := acceptReject active.core response peer
              (responseInflight call.core response peer) })
    match processed with
    | (.ok, next) => (.ok, continueReplication next response peer lastIndex)
    | failed => failed

def timeoutNowAccepted (core : Core) (request : Message) : Bool :=
  core.selfIsVoter && core.role == .follower && request.term == core.term &&
    core.leaderId == request.fromId && core.term != uint64Max

def stepTimeoutNow (call : Call) (request : Message) : Call :=
  if timeoutNowAccepted call.core request then
    startElection
      { call with core :=
          { call.core with campaignTerm := call.core.term + 1, electionElapsedTicks := 0 } }
  else
    call

def readIndexAccepted (core : Core) (request : Message) : Bool :=
  core.selfIsVoter && request.contextId != 0 && core.role == .follower &&
    request.term == core.term && core.leaderId == request.fromId

def stepReadIndexRequest (call : Call) (request : Message) : Call :=
  if readIndexAccepted call.core request then
    (emitWith call .readIndexResponse request.fromId false
      (fun message => { message with contextId := request.contextId })).1
  else
    call

/-- A completed barrier hands over to the waiting contexts when their requests fit. -/
def completeBarrier (call : Call) : Call :=
  let required := unpausedRemoteVoterCount call.core
  let completed := readEmitActive call
  if completed.core.waitingReadContexts.length != 0 &&
      decide (required ≤ completed.ready.messageCapacity - completed.ready.messages.length) then
    readStartActiveBarrier { completed with core := readMoveWaitingToActive completed.core }
  else
    completed

def stepReadIndexResponse (call : Call) (response : Message) (voter : Option ℕ) : Call :=
  if call.core.term < response.term then
    { call with core := becomeFollower call.core response.term }
  else if call.core.role != .leader || response.term != call.core.term ||
      response.contextId == 0 || response.contextId != call.core.pendingReadContextId ||
      call.core.pendingReadContexts.length == 0 ||
      !bitUnset call.core.pendingReadAcks voter then
    call
  else
    let core := { call.core with pendingReadAcks := call.core.pendingReadAcks ||| indexBit voter }
    if coreHasQuorum core core.pendingReadAcks then completeBarrier { call with core }
    else { call with core }

end RaftCoreStep
