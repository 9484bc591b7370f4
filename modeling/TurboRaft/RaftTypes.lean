import Mathlib.Algebra.Group.Nat.Defs
import Mathlib.Data.List.Basic
import Mathlib.Logic.Function.Basic

/-! # Data types of the TurboRaft core

The public structures of the core header and the private state of one core.
Identifiers are 64-bit words; terms, log indices and tick counters are naturals,
with the comparisons against the largest word kept where the source makes them.
Arrays with a count are lists, and bitmasks over peers are naturals. -/
namespace RaftTypes

abbrev NodeId := UInt64

/-- The 16 bytes that tell one cluster from another. -/
structure ClusterId where
  bytes : List UInt8
  size : bytes.length = 16
  deriving DecidableEq, Repr

def ClusterId.zero : ClusterId := ⟨List.replicate 16 0, rfl⟩

theorem sixteen_ones : (List.replicate 16 (1 : UInt8)).length = 16 := rfl

abbrev maxVoters : ℕ := 31
abbrev maxMembers : ℕ := maxVoters
abbrev maxEntryBytes : ℕ := 512
abbrev maxAppendEntries : ℕ := 8
abbrev maxProposalBatch : ℕ := 16
abbrev defaultMaxInflightAppendRequests : ℕ := 1
abbrev maxInflightAppendRequests : ℕ := 64
abbrev defaultMaxLogEntries : ℕ := 1024
abbrev defaultMaxPendingReads : ℕ := 16
abbrev maxPendingReadsLimit : ℕ := 64
abbrev uint32Max : ℕ := 2 ^ 32 - 1
abbrev uint64Max : ℕ := 2 ^ 64 - 1

/-- Result codes of the core, of the modules it calls and of the layers around it. -/
inductive Status where
  | ok
  | einval
  | enospc
  | eproto
  | ebusy
  | ealready
  | eperm
  | enoent
  | ecanceled
  | eshutdown
  | erange
  | efbig
  | eio
  | enomem
  | enotsup
  | eprotonosupport
  | enobufs
  deriving DecidableEq, Repr

inductive Role where
  | follower
  | preCandidate
  | candidate
  | leader
  deriving DecidableEq, Repr

inductive MessageType where
  | preVoteRequest
  | preVoteResponse
  | voteRequest
  | voteResponse
  | heartbeatRequest
  | heartbeatResponse
  | appendRequest
  | appendResponse
  | timeoutNow
  | readIndexRequest
  | readIndexResponse
  deriving DecidableEq, Repr

/-- A log entry; the data length of the source is the length of `data`. -/
structure Entry where
  index : ℕ
  term : ℕ
  commandId : UInt64
  data : List UInt8
  deriving DecidableEq, Repr

inductive ConfPhase where
  | joint
  | final
  deriving DecidableEq, Repr

structure ConfMember where
  nodeId : NodeId
  roles : UInt8
  deriving DecidableEq, Repr

/-- Canonical membership, stored separately from application bytes. -/
structure Conf where
  phase : ConfPhase
  transitionId : UInt64
  members : List ConfMember
  deriving DecidableEq, Repr

/-- One peer message; the entry count of the source is the length of `entries`. -/
structure Message where
  type : MessageType
  fromId : NodeId
  toId : NodeId
  term : ℕ
  campaignTerm : ℕ
  lastLogIndex : ℕ
  lastLogTerm : ℕ
  leaderCommit : ℕ
  previousLogIndex : ℕ
  previousLogTerm : ℕ
  matchIndex : ℕ
  rejectHint : ℕ
  entries : List Entry
  granted : Bool
  contextId : UInt64
  deriving DecidableEq, Repr

structure ReadState where
  contextId : UInt64
  index : ℕ
  deriving DecidableEq, Repr

structure SnapshotRequest where
  peerId : NodeId
  leaderTerm : ℕ
  snapshotIndex : ℕ
  snapshotTerm : ℕ
  deriving DecidableEq, Repr

/-- The effects of one call. Pointers into the log are the entries they point at. -/
structure Ready where
  messageCapacity : ℕ
  messages : List Message
  hardStateChanged : Bool
  term : ℕ
  votedFor : NodeId
  roleChanged : Bool
  role : Role
  logChanged : Bool
  logTruncateFrom : ℕ
  logEntries : List Entry
  commitChanged : Bool
  commitIndex : ℕ
  committedEntries : List Entry
  readStates : List ReadState
  snapshotRequests : List SnapshotRequest
  /-- Not in the source: the role of the core at every emission of the call. -/
  emissionRoles : List Role
  deriving DecidableEq, Repr

structure Log where
  entries : List Entry
  maxEntries : ℕ
  baseIndex : ℕ
  baseTerm : ℕ
  deriving DecidableEq, Repr

structure AppendInflight where
  previousIndex : ℕ
  lastIndex : ℕ
  elapsedTicks : ℕ
  deriving DecidableEq, Repr

/-- The ring of one peer in logical order: its head is the oldest request. -/
structure AppendWindow where
  items : List AppendInflight
  probe : Bool
  deriving DecidableEq, Repr

/-- The committed configuration and the appended ones not yet committed, each
with its log index. -/
structure MembershipTransition where
  committed : Conf
  pending : List (Conf × ℕ)
  deriving DecidableEq, Repr

structure Core where
  selfId : NodeId
  membershipTransition : MembershipTransition
  peers : List NodeId
  selfIsVoter : Bool
  role : Role
  leaderId : NodeId
  term : ℕ
  votedFor : NodeId
  log : Log
  commitIndex : ℕ
  appliedIndex : ℕ
  applyAdmittedIndex : ℕ
  pendingApplyIndex : ℕ
  campaignTerm : ℕ
  heartbeatTicks : ℕ
  electionMinTicks : ℕ
  electionMaxTicks : ℕ
  electionTimeoutTicks : ℕ
  electionElapsedTicks : ℕ
  heartbeatElapsedTicks : ℕ
  checkQuorumElapsedTicks : ℕ
  recentActive : ℕ
  pausedPeers : ℕ
  leadershipTransferTarget : NodeId
  leadershipTransferElapsedTicks : ℕ
  leadershipTransferSent : Bool
  pendingReadContextId : UInt64
  pendingReadContexts : List UInt64
  pendingReadIndex : ℕ
  pendingReadAcks : ℕ
  waitingReadContexts : List UInt64
  maxPendingReads : ℕ
  preVotes : ℕ
  votes : ℕ
  nextIndex : ℕ → ℕ
  matchIndex : ℕ → ℕ
  appendWindows : ℕ → AppendWindow
  maxInflightAppendRequests : ℕ
  readyOutstanding : Bool
  inCall : Bool

structure CoreConfig where
  selfId : NodeId
  voters : List NodeId
  learners : List NodeId
  initialConfiguration : Option Conf
  heartbeatTicks : ℕ
  electionMinTicks : ℕ
  electionMaxTicks : ℕ
  initialElectionTimeoutTicks : ℕ
  initialTerm : ℕ
  initialVote : NodeId
  initialLastLogIndex : ℕ
  initialLastLogTerm : ℕ
  initialLogEntries : List Entry
  initialCommitIndex : ℕ
  initialAppliedIndex : ℕ
  maxLogEntries : ℕ
  maxPendingReads : ℕ
  maxInflightAppendRequests : ℕ

structure Proposal where
  commandId : UInt64
  data : List UInt8
  deriving DecidableEq, Repr

structure MembershipChange where
  transitionId : UInt64
  voters : List NodeId
  learners : List NodeId
  deriving DecidableEq, Repr

structure Tick where
  elapsedTicks : ℕ
  nextElectionTimeoutTicks : ℕ
  deriving DecidableEq, Repr

structure SnapshotPoint where
  index : ℕ
  term : ℕ
  configuration : Conf
  deriving DecidableEq, Repr

inductive OperationState where
  | pending
  | committed
  | applied
  | lost
  | expired
  deriving DecidableEq, Repr

structure OperationStatus where
  state : OperationState
  term : ℕ
  index : ℕ
  commitIndex : ℕ
  appliedIndex : ℕ
  deriving DecidableEq, Repr

structure Call where
  core : Core
  ready : Ready

end RaftTypes
