import TurboRaft.RaftMembership

/-! # Peer sets and membership transitions

The peer set is the ascending union of the member identifiers of up to three
memberships. A transition keeps the committed configuration and at most two
appended configurations, a joint one and its final one. -/
namespace RaftMembershipTransition

open RaftTypes RaftConfiguration RaftMembership

abbrev peerSetMaxSources : ℕ := 3
abbrev membershipMaxPending : ℕ := 2

def peerSetMembershipValid (membership : Conf) : Bool :=
  membership.members.length != 0 && decide (membership.members.length ≤ maxMembers) &&
  idsAscending (memberIds membership)

/-- The smallest head below the largest word; a head equal to it is never taken. -/
def peerSetNext (sources : List (List NodeId)) : Option NodeId :=
  let next := sources.foldl headMin uint64MaxId
  if next == uint64MaxId then none else some next

def peerSetLoop : ℕ → List (List NodeId) → Except Status (List NodeId)
  | capacity, sources =>
    match peerSetNext sources with
    | none => .ok []
    | some next =>
      match capacity with
      | 0 => .error .enospc
      | capacity + 1 =>
        match peerSetLoop capacity (sources.map (dropHead next)) with
        | .error status => .error status
        | .ok ids => .ok (next :: ids)

def peerSetBuild (memberships : List Conf) : Except Status (List NodeId) :=
  if memberships.length == 0 || peerSetMaxSources < memberships.length then
    .error .einval
  else if !memberships.all peerSetMembershipValid then
    .error .einval
  else
    peerSetLoop maxMembers (memberships.map memberIds)

def peerSetIndex (peers : List NodeId) (nodeId : NodeId) : Option ℕ := ascendingIndex peers nodeId

/-- The walk skips non-voters of the stable side and non-old-voters of the joint
side, and compares what remains. -/
def jointOldVotersMatch (stable joint : Conf) : Bool :=
  (stable.members.filter (fun m => membershipIsVoter stable m.nodeId)).map ConfMember.nodeId ==
    membersWith joint confOldVoter

def pendingConfs (transition : MembershipTransition) : List Conf := transition.pending.map Prod.fst

def transitionBase (transition : MembershipTransition) : Conf :=
  ((transition.pending.getLast?).map Prod.fst).getD transition.committed

def membershipTransitionValidateNext (transition : MembershipTransition) (configuration : Conf) :
    Status :=
  if confValidate configuration != .ok then
    .eproto
  else if peerSetMaxSources - 2 < transition.pending.length then
    .eproto
  else
    match peerSetBuild (transition.committed :: pendingConfs transition ++ [configuration]) with
    | .error _ => .eproto
    | .ok _ =>
      match configuration.phase with
      | .joint =>
        if transition.pending.length != 0 || transition.committed.phase != .final ||
            !jointOldVotersMatch transition.committed configuration then
          .eproto
        else
          .ok
      | .final =>
        if (transitionBase transition).phase == .joint then
          match membershipFinal (transitionBase transition) with
          | .error _ => .eproto
          | .ok expected => if expected == configuration then .ok else .eproto
        else
          .eproto

def membershipTransitionInit (voters learners : List NodeId) : Except Status MembershipTransition :=
  match membershipStable voters learners with
  | .error status => .error status
  | .ok membership => .ok { committed := membership, pending := [] }

def membershipTransitionInitConfiguration (configuration : Conf) :
    Except Status MembershipTransition :=
  if confValidate configuration != .ok then .error .einval
  else .ok { committed := configuration, pending := [] }

def membershipTransitionPropose (transition : MembershipTransition)
    (targetVoters targetLearners : List NodeId) (transitionId : UInt64) : Except Status Conf :=
  if transition.committed.phase != .final || transition.pending.length != 0 then
    .error .ebusy
  else
    membershipJoint transition.committed targetVoters targetLearners transitionId

def membershipTransitionStage (transition : MembershipTransition) (configuration : Conf)
    (logIndex : ℕ) : Except Status MembershipTransition :=
  if logIndex == 0 then
    .error .einval
  else if membershipMaxPending < transition.pending.length then
    .error .eproto
  else
    match transition.pending.find? (fun p => p.2 == logIndex) with
    | some staged => if staged.1 == configuration then .ok transition else .error .eproto
    | none =>
      if transition.pending.length == membershipMaxPending ||
          transition.pending.getLast?.any (fun p => decide (logIndex ≤ p.2)) then
        .error .eproto
      else
        match membershipTransitionValidateNext transition configuration with
        | .ok =>
          .ok { transition with pending := transition.pending ++ [(configuration, logIndex)] }
        | status => .error status

def membershipTransitionStageEntry (transition : MembershipTransition) (entry : Entry) :
    Except Status MembershipTransition :=
  match confEntryDecode entry with
  | .error status => .error status
  | .ok configuration => membershipTransitionStage transition configuration entry.index

def membershipTransitionCommitLimit (transition : MembershipTransition) (candidateIndex : ℕ) : ℕ :=
  match transition.pending with
  | [] => candidateIndex
  | first :: _ => if candidateIndex < first.2 then candidateIndex else first.2

def applyPending (commitIndex : ℕ) (committed : Conf) : List (Conf × ℕ) → MembershipTransition
  | [] => { committed, pending := [] }
  | first :: rest =>
    if first.2 ≤ commitIndex then applyPending commitIndex first.1 rest
    else { committed, pending := first :: rest }

def membershipTransitionApply (transition : MembershipTransition) (commitIndex : ℕ) :
    MembershipTransition :=
  applyPending commitIndex transition.committed transition.pending

def membershipTransitionNeedsFinal (transition : MembershipTransition) : Bool :=
  transition.committed.phase == .joint && transition.pending.length == 0

def membershipTransitionFinal (transition : MembershipTransition) : Except Status Conf :=
  if !membershipTransitionNeedsFinal transition then .error .einval
  else membershipFinal transition.committed

end RaftMembershipTransition
