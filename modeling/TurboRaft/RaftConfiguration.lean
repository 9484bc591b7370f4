import TurboRaft.RaftTypes

/-! # Configuration payloads

Validation of a membership and its version-1 byte encoding in network order. A
log entry with command identifier zero carries such a payload. -/
namespace RaftConfiguration

open RaftTypes

abbrev confHeaderSize : ℕ := 16
abbrev confMemberSize : ℕ := 9
abbrev confOldVoter : UInt8 := 0x01
abbrev confNewVoter : UInt8 := 0x02
abbrev confLearner : UInt8 := 0x04
abbrev confVoterRoles : UInt8 := 0x03

def confMagic : List UInt8 := [0x54, 0x52, 0x43, 0x46]

def confCodecVersion : UInt8 := 1

/-- Writes `count` bytes of `value`, the least significant one last. -/
def putBytes : ℕ → ℕ → List UInt8 → List UInt8
  | 0, _, tail => tail
  | count + 1, value, tail => putBytes count (value / 256) (UInt8.ofNat (value % 256) :: tail)

def confPutU64 (value : UInt64) : List UInt8 := putBytes 8 value.toNat []

def confGetU64 (input : List UInt8) : UInt64 :=
  UInt64.ofNat (input.foldl (fun value byte => value * 256 + byte.toNat) 0)

def confPhaseByte : ConfPhase → UInt8
  | .joint => 1
  | .final => 2

def hasRole (roles flags : UInt8) : Bool := (roles &&& flags) != 0

def confRolesValid (phase : ConfPhase) (roles : UInt8) : Bool :=
  if roles == 0 || hasRole roles (~~~(confVoterRoles ||| confLearner)) ||
      (hasRole roles confNewVoter && hasRole roles confLearner) then
    false
  else
    match phase with
    | .final => roles == confVoterRoles || roles == confLearner
    | .joint => true

/-- Non-zero and strictly ascending: every set of node identifiers is kept so. -/
def idsAscending (ids : List NodeId) : Bool :=
  ids.all (fun id => id != 0) && decide (ids.IsChain (· < ·))

def memberIds (configuration : Conf) : List NodeId := configuration.members.map ConfMember.nodeId

def membersWith (configuration : Conf) (flags : UInt8) : List NodeId :=
  (configuration.members.filter (fun m => hasRole m.roles flags)).map ConfMember.nodeId

def confValidate (configuration : Conf) : Status :=
  if (configuration.phase == .joint && configuration.transitionId == 0) ||
      configuration.members.length == 0 || maxMembers < configuration.members.length then
    .einval
  else if !idsAscending (memberIds configuration) ||
      !configuration.members.all (fun m => confRolesValid configuration.phase m.roles) then
    .einval
  else if (membersWith configuration confOldVoter).length != 0 &&
      (membersWith configuration confNewVoter).length != 0 then
    .ok
  else
    .einval

def confEncodeMember (member : ConfMember) : List UInt8 := confPutU64 member.nodeId ++ [member.roles]

def confEncode (configuration : Conf) (outputCapacity : ℕ) : Except Status (List UInt8) :=
  if confValidate configuration != .ok then
    .error .einval
  else if outputCapacity < confHeaderSize + confMemberSize * configuration.members.length then
    .error .enospc
  else
    .ok (confMagic ++
      [confCodecVersion, confPhaseByte configuration.phase,
        UInt8.ofNat configuration.members.length, 0] ++
      confPutU64 configuration.transitionId ++
      configuration.members.flatMap confEncodeMember)

def confDecodeMembers : ℕ → List UInt8 → List ConfMember
  | 0, _ => []
  | count + 1, input =>
    ⟨confGetU64 (input.take 8), input.getD 8 0⟩ :: confDecodeMembers count (input.drop confMemberSize)

def confDecodePhase (byte : UInt8) : Option ConfPhase :=
  if byte == 1 then some .joint else if byte == 2 then some .final else none

/-- A phase byte outside the enumeration fails validation in the source, so it is
refused here before the members are read. -/
def confDecode (input : List UInt8) : Except Status Conf :=
  if input.length < confHeaderSize || input.take 4 != confMagic ||
      input.getD 4 0 != confCodecVersion || input.getD 7 0 != 0 then
    .error .eproto
  else
    let memberCount := (input.getD 6 0).toNat
    if memberCount == 0 || maxMembers < memberCount then
      .error .eproto
    else if input.length != confHeaderSize + confMemberSize * memberCount then
      .error .eproto
    else
      match confDecodePhase (input.getD 5 0) with
      | none => .error .eproto
      | some phase =>
        let configuration : Conf :=
          { phase
            transitionId := confGetU64 ((input.drop 8).take 8)
            members := confDecodeMembers memberCount (input.drop confHeaderSize) }
        if confValidate configuration != .ok then .error .eproto else .ok configuration

def confEntryIsConfiguration (entry : Entry) : Bool := entry.commandId == 0

def confEntryEncode (configuration : Conf) (index term : ℕ) : Except Status Entry :=
  if index == 0 || term == 0 then
    .error .einval
  else
    match confEncode configuration maxEntryBytes with
    | .error status => .error status
    | .ok data => .ok { index, term, commandId := 0, data }

def confEntryDecode (entry : Entry) : Except Status Conf :=
  if !confEntryIsConfiguration entry then
    .error .enoent
  else if entry.index == 0 || entry.term == 0 || maxEntryBytes < entry.data.length then
    .error .eproto
  else
    confDecode entry.data

end RaftConfiguration
