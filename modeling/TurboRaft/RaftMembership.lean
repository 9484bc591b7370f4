import TurboRaft.RaftConfiguration

/-! # Memberships and quorums

Stable, joint and final memberships, the lookup of a node, and the quorum tests
over a bitmask indexed by member. -/
namespace RaftMembership

open RaftTypes RaftConfiguration

/-- The bits `i < count` with `p i`, as the acknowledgement loops set them. -/
def maskOf (count : ℕ) (p : ℕ → Bool) : ℕ :=
  (List.range count).foldl (fun mask i => if p i then mask ||| (1 <<< i) else mask) 0

/-- The shared search over ascending identifiers; it stops at the first larger one. -/
def ascendingFind (nodeId : NodeId) : List NodeId → ℕ → Option ℕ
  | [], _ => none
  | id :: rest, index =>
    if id == nodeId then some index
    else if nodeId < id then none
    else ascendingFind nodeId rest (index + 1)

def ascendingIndex (ids : List NodeId) (nodeId : NodeId) : Option ℕ :=
  if nodeId == 0 then none else ascendingFind nodeId ids 0

/-- The two-pointer walk that finds an identifier common to both ascending lists. -/
def setsDisjoint : ℕ → List NodeId → List NodeId → Bool
  | fuel + 1, v :: voters, l :: learners =>
    if v == l then false
    else if v < l then setsDisjoint fuel voters (l :: learners)
    else setsDisjoint fuel (v :: voters) learners
  | _, _, _ => true

def membershipValidateSet (voters learners : List NodeId) : Status :=
  if voters.length == 0 || maxMembers < voters.length ||
      maxMembers - voters.length < learners.length then
    .einval
  else if !idsAscending voters || !idsAscending learners then
    .einval
  else if !setsDisjoint (voters.length + learners.length) voters learners then
    .einval
  else
    .ok

def membershipStableValid (membership : Conf) : Bool :=
  membership.phase == .final && membership.members.length != 0 &&
  decide (membership.members.length ≤ maxMembers) && idsAscending (memberIds membership) &&
  membership.members.all (fun m => m.roles == confVoterRoles || m.roles == confLearner) &&
  membership.members.any (fun m => m.roles == confVoterRoles)

def dropHead (next : NodeId) : List NodeId → List NodeId
  | [] => []
  | id :: rest => if id == next then rest else id :: rest

def headMin (next : NodeId) : List NodeId → NodeId
  | [] => next
  | id :: _ => if id < next then id else next

def uint64MaxId : NodeId := 0xFFFFFFFFFFFFFFFF

/-- Every round takes at least one head, so the summed lengths bound the rounds. -/
def membershipUnionLoop : ℕ → List NodeId → List NodeId → List NodeId → ℕ
  | 0, _, _, _ => 0
  | fuel + 1, current, voters, learners =>
    if current.isEmpty && voters.isEmpty && learners.isEmpty then
      0
    else
      let next := headMin (headMin (headMin uint64MaxId current) voters) learners
      1 + membershipUnionLoop fuel (dropHead next current) (dropHead next voters)
        (dropHead next learners)

def membershipUnionCount (current : Conf) (targetVoters targetLearners : List NodeId) : ℕ :=
  membershipUnionLoop (current.members.length + targetVoters.length + targetLearners.length)
    (memberIds current) targetVoters targetLearners

def membershipStableLoop : ℕ → List NodeId → List NodeId → List ConfMember
  | fuel + 1, voters, learners =>
    match voters, learners with
    | v :: vs, [] => ⟨v, confVoterRoles⟩ :: membershipStableLoop fuel vs []
    | v :: vs, l :: ls =>
      if v < l then ⟨v, confVoterRoles⟩ :: membershipStableLoop fuel vs (l :: ls)
      else ⟨l, confLearner⟩ :: membershipStableLoop fuel (v :: vs) ls
    | [], l :: ls => ⟨l, confLearner⟩ :: membershipStableLoop fuel [] ls
    | [], [] => []
  | 0, _, _ => []

def membershipStable (voters learners : List NodeId) : Except Status Conf :=
  if membershipValidateSet voters learners != .ok then
    .error .einval
  else
    .ok { phase := .final
          transitionId := 0
          members := membershipStableLoop (voters.length + learners.length) voters learners }

def headIs (next : NodeId) : List NodeId → Bool
  | [] => false
  | id :: _ => id == next

/-- The three-way merge of the current voters and the target sets. Learners of the
current membership are skipped, and the largest word ends the walk. -/
def membershipJointLoop : ℕ → List NodeId → List NodeId → List NodeId → List ConfMember
  | 0, _, _, _ => []
  | fuel + 1, current, voters, learners =>
    let next := headMin (headMin (headMin uint64MaxId current) voters) learners
    if next == uint64MaxId then
      []
    else
      let roles := (if headIs next current then confOldVoter else 0) |||
        (if headIs next voters then confNewVoter else 0) |||
        (if headIs next learners then confLearner else 0)
      ⟨next, roles⟩ :: membershipJointLoop fuel (dropHead next current) (dropHead next voters)
        (dropHead next learners)

def membershipJoint (current : Conf) (targetVoters targetLearners : List NodeId)
    (transitionId : UInt64) : Except Status Conf :=
  if transitionId == 0 || !membershipStableValid current ||
      membershipValidateSet targetVoters targetLearners != .ok then
    .error .einval
  else if maxMembers < membershipUnionCount current targetVoters targetLearners then
    .error .enospc
  else
    let joint : Conf :=
      { phase := .joint
        transitionId
        members := membershipJointLoop
          (current.members.length + targetVoters.length + targetLearners.length)
          ((current.members.filter (fun m => m.roles != confLearner)).map ConfMember.nodeId)
          targetVoters targetLearners }
    if confValidate joint != .ok then .error .einval else .ok joint

def finalMember (source : ConfMember) : Option ConfMember :=
  if hasRole source.roles (confNewVoter ||| confLearner) then
    some ⟨source.nodeId,
      if hasRole source.roles confNewVoter then confVoterRoles else confLearner⟩
  else
    none

def membershipFinal (joint : Conf) : Except Status Conf :=
  if joint.phase != .joint || confValidate joint != .ok then
    .error .einval
  else
    let finalMembership : Conf :=
      { phase := .final
        transitionId := joint.transitionId
        members := joint.members.filterMap finalMember }
    if confValidate finalMembership != .ok then .error .einval else .ok finalMembership

def membershipIndex (membership : Conf) (nodeId : NodeId) : Option ℕ :=
  ascendingIndex (memberIds membership) nodeId

def membershipRoles (membership : Conf) (nodeId : NodeId) : UInt8 :=
  match membershipIndex membership nodeId with
  | none => 0
  | some index => ((membership.members[index]?).map ConfMember.roles).getD 0

def membershipIsVoter (membership : Conf) (nodeId : NodeId) : Bool :=
  hasRole (membershipRoles membership nodeId) confVoterRoles

def roleCount (membership : Conf) (flag : UInt8) : ℕ :=
  membership.members.countP (fun m => hasRole m.roles flag)

def roleAcks (membership : Conf) (flag : UInt8) (acknowledgements : ℕ) : ℕ :=
  membership.members.zipIdx.countP
    (fun m => hasRole m.1.roles flag && acknowledgements.testBit m.2)

def membershipHasQuorum (membership : Conf) (acknowledgements : ℕ) : Bool :=
  if membership.members.length == 0 || maxMembers < membership.members.length then
    false
  else
    roleCount membership confOldVoter != 0 && roleCount membership confNewVoter != 0 &&
    decide (roleCount membership confOldVoter / 2 + 1 ≤
      roleAcks membership confOldVoter acknowledgements) &&
    decide (roleCount membership confNewVoter / 2 + 1 ≤
      roleAcks membership confNewVoter acknowledgements)

def membershipMatchQuorum (membership : Conf) (matchIndices : ℕ → ℕ) (candidateIndex : ℕ) : Bool :=
  if candidateIndex == 0 || maxMembers < membership.members.length then
    false
  else
    membershipHasQuorum membership
      (maskOf membership.members.length (fun i => decide (candidateIndex ≤ matchIndices i)))

end RaftMembership
