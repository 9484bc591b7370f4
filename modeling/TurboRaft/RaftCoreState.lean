import TurboRaft.RaftMembershipTransition
import TurboRaft.RaftLog

/-! # Core state helpers

Append windows, peer lookups, quorum tests of one core, the role change to
follower, and the functions that keep peers and membership in step with the log. -/
namespace RaftCoreState

open RaftTypes RaftConfiguration RaftMembership RaftMembershipTransition RaftLog

def appendWindowReset (probe : Bool) : AppendWindow := { items := [], probe }

def appendWindowPush (window : AppendWindow) (previousIndex lastIndex : ℕ) : Option AppendWindow :=
  if RaftTypes.maxInflightAppendRequests ≤ window.items.length then
    none
  else
    some { window with
      items := window.items ++
        [{ previousIndex, lastIndex, elapsedTicks := 0 }] }

def appendWindowFind (window : AppendWindow) (previousIndex : ℕ) : Option AppendInflight :=
  window.items.find? (fun item => item.previousIndex == previousIndex)

def appendWindowReleaseThrough (window : AppendWindow) (matchIndex : ℕ) : AppendWindow :=
  { window with items := window.items.dropWhile (fun item => decide (item.lastIndex ≤ matchIndex)) }

def timeoutValid (core : Core) (timeout : ℕ) : Bool :=
  decide (core.electionMinTicks ≤ timeout) && decide (timeout ≤ core.electionMaxTicks)

def coreMembership (core : Core) : Conf := core.membershipTransition.committed

def peerIndex (core : Core) (nodeId : NodeId) : Option ℕ := peerSetIndex core.peers nodeId

def voterIndex (core : Core) (nodeId : NodeId) : Option ℕ :=
  match peerIndex core nodeId with
  | none => none
  | some index => if membershipIsVoter (coreMembership core) nodeId then some index else none

def peerId (core : Core) (index : ℕ) : NodeId := (core.peers[index]?).getD 0

/-- The bit of a peer index. A missing index is minus one in the source, and a shift
by it selects bit 31, which no peer has. -/
def indexBit : Option ℕ → ℕ
  | some index => 1 <<< index
  | none => 1 <<< 31

def peerIndexPaused (core : Core) (index : ℕ) : Bool :=
  decide (index < core.peers.length) && core.pausedPeers.testBit index

def peerPaused (core : Core) (nodeId : NodeId) : Bool :=
  match peerIndex core nodeId with
  | none => false
  | some index => peerIndexPaused core index

def unpausedRemotePeerCount (core : Core) : ℕ :=
  core.peers.zipIdx.countP (fun p => p.1 != core.selfId && !peerIndexPaused core p.2)

def unpausedRemoteVoterCount (core : Core) : ℕ :=
  core.peers.zipIdx.countP (fun p => p.1 != core.selfId &&
    membershipIsVoter (coreMembership core) p.1 && !peerIndexPaused core p.2)

def peerSetUnpausedRemoteCount (core : Core) (peers : List NodeId) : ℕ :=
  peers.countP (fun id => id != core.selfId && !peerPaused core id)

def memberIdAt (membership : Conf) (index : ℕ) : NodeId :=
  ((memberIds membership)[index]?).getD 0

def memberAcknowledged (core : Core) (peerAcknowledgements index : ℕ) : Bool :=
  match peerIndex core (memberIdAt (coreMembership core) index) with
  | none => false
  | some peer => peerAcknowledgements.testBit peer

def coreHasQuorum (core : Core) (peerAcknowledgements : ℕ) : Bool :=
  membershipHasQuorum (coreMembership core)
    (maskOf (coreMembership core).members.length (memberAcknowledged core peerAcknowledgements))

def memberMatch (core : Core) (index : ℕ) : ℕ :=
  match peerIndex core (memberIdAt (coreMembership core) index) with
  | none => 0
  | some peer => core.matchIndex peer

def coreMatchQuorum (core : Core) (candidateIndex : ℕ) : Bool :=
  membershipMatchQuorum (coreMembership core) (memberMatch core) candidateIndex

def coreBuildPeerSet (transition : MembershipTransition) : Except Status (List NodeId) :=
  peerSetBuild (transition.committed :: pendingConfs transition)

def readTotalCount (core : Core) : ℕ :=
  core.pendingReadContexts.length + core.waitingReadContexts.length

def readContextExists (core : Core) (contextId : UInt64) : Bool :=
  core.pendingReadContexts.contains contextId || core.waitingReadContexts.contains contextId

def readClearActive (core : Core) : Core :=
  { core with
    pendingReadContextId := 0
    pendingReadIndex := 0
    pendingReadAcks := 0
    pendingReadContexts := [] }

def readResetAll (core : Core) : Core :=
  { readClearActive core with waitingReadContexts := [] }

def becomeFollower (core : Core) (term : ℕ) : Core :=
  readResetAll
    { core with
      term := if core.term < term then term else core.term
      votedFor := if core.term < term then 0 else core.votedFor
      role := .follower
      leaderId := 0
      campaignTerm := 0
      preVotes := 0
      votes := 0
      electionElapsedTicks := 0
      heartbeatElapsedTicks := 0
      checkQuorumElapsedTicks := 0
      recentActive := 0
      leadershipTransferTarget := 0
      leadershipTransferElapsedTicks := 0
      leadershipTransferSent := false
      appendWindows := fun _ => appendWindowReset true }

def carryMask (oldPeers nextPeers : List NodeId) (mask : ℕ) : ℕ :=
  maskOf nextPeers.length fun i =>
    match peerSetIndex oldPeers ((nextPeers[i]?).getD 0) with
    | none => false
    | some old => mask.testBit old

def carriedMatch (core : Core) (nextPeers : List NodeId) (index : ℕ) : ℕ :=
  if index < nextPeers.length then
    match peerSetIndex core.peers ((nextPeers[index]?).getD 0) with
    | none => 0
    | some old => core.matchIndex old
  else
    0

def carriedNext (core : Core) (nextPeers : List NodeId) (index : ℕ) : ℕ :=
  if index < nextPeers.length then
    match peerSetIndex core.peers ((nextPeers[index]?).getD 0) with
    | none => logLastIndex core.log + 1
    | some old => core.matchIndex old + 1
  else
    0

def carriedPeers (core : Core) (nextPeers : List NodeId) : Core :=
  { core with
    peers := nextPeers
    matchIndex := carriedMatch core nextPeers
    nextIndex := carriedNext core nextPeers
    appendWindows := fun index => appendWindowReset (decide (index < nextPeers.length))
    recentActive := carryMask core.peers nextPeers core.recentActive
    pausedPeers := carryMask core.peers nextPeers core.pausedPeers }

/-- A leader always counts itself as matched to its own last entry. -/
def refreshSelf (core : Core) : Core :=
  match peerIndex core core.selfId with
  | none => core
  | some self =>
    { core with
      matchIndex := Function.update core.matchIndex self (logLastIndex core.log)
      nextIndex := Function.update core.nextIndex self (logLastIndex core.log + 1)
      appendWindows := Function.update core.appendWindows self (appendWindowReset false)
      recentActive := core.recentActive ||| (1 <<< self) }

def coreRefreshPeers (core : Core) (nextPeers : List NodeId) : Core :=
  if core.peers == nextPeers then
    core
  else if core.role == .leader then
    refreshSelf (carriedPeers core nextPeers)
  else
    carriedPeers core nextPeers

def coreSyncMembership (core : Core) : Except Status Core :=
  match coreBuildPeerSet core.membershipTransition with
  | .error status => .error status
  | .ok peers =>
    let refreshed := coreRefreshPeers core peers
    let synced :=
      { refreshed with
        selfIsVoter := membershipIsVoter (coreMembership refreshed) refreshed.selfId }
    if !synced.selfIsVoter && synced.role == .leader then
      .ok (becomeFollower synced synced.term)
    else
      .ok synced

def stageEntries : MembershipTransition → List Entry → Except Status MembershipTransition
  | transition, [] => .ok transition
  | transition, entry :: rest =>
    if confEntryIsConfiguration entry then
      match membershipTransitionStageEntry transition entry with
      | .error status => .error status
      | .ok staged => stageEntries staged rest
    else
      stageEntries transition rest

/-- Recovery stages every retained configuration entry before it applies the commit index. -/
def coreReplayMembershipLog (core : Core) : Except Status Core :=
  match stageEntries core.membershipTransition core.log.entries with
  | .error status => .error status
  | .ok staged =>
    coreSyncMembership
      { core with membershipTransition := membershipTransitionApply staged core.commitIndex }

def retainedEntries (core : Core) (retainedThrough : ℕ) : List Entry :=
  (List.range' (core.commitIndex + 1)
    (min retainedThrough (logLastIndex core.log) - core.commitIndex)).filterMap (logGet core.log)

/-- The pending configurations of the kept log up to `retainedThrough`, followed by
those of the incoming entries above the commit index. -/
def coreRebuildPendingTransition (core : Core) (retainedThrough : ℕ) (incoming : List Entry) :
    Except Status MembershipTransition :=
  stageEntries { core.membershipTransition with pending := [] }
    (retainedEntries core retainedThrough ++
      incoming.filter (fun entry => decide (core.commitIndex < entry.index)))

def logIsUpToDate (core : Core) (message : Message) : Bool :=
  if message.lastLogTerm != logLastTerm core.log then
    decide (logLastTerm core.log < message.lastLogTerm)
  else
    decide (logLastIndex core.log ≤ message.lastLogIndex)

def hasCommittedCurrentTerm (core : Core) : Bool :=
  if core.commitIndex == 0 then
    false
  else if core.commitIndex == core.log.baseIndex then
    core.log.baseTerm == core.term
  else
    (logGet core.log core.commitIndex).any (fun entry => entry.term == core.term)

end RaftCoreState
