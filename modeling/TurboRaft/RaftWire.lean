import TurboRaft.ByteFormats
import TurboRaft.RaftConfiguration

/-! # Wire frames

A frame is an envelope of 48 bytes in network order and a payload of one of five kinds. Raft
messages and snapshot payloads are generated little-endian records, a block of fixed fields
before length-prefixed strings; data payloads are written by hand in network order. -/
namespace RaftWire

open RaftTypes RaftConfiguration ByteFormats

abbrev wireVersion : ℕ := 6
abbrev wireHeaderSize : ℕ := 48
abbrev maxRaftPayloadSize : ℕ := 8192
abbrev digestSize : ℕ := 32
abbrev maxSnapshotChunkBytes : ℕ := 64 * 1024
abbrev maxSnapshotPayloadSize : ℕ := maxSnapshotChunkBytes + 4096
abbrev maxDataChunkBytes : ℕ := 64 * 1024
abbrev maxDataPayloadSize : ℕ := maxDataChunkBytes + 128
abbrev maxFrameSize : ℕ := wireHeaderSize + maxSnapshotPayloadSize
abbrev confMaxEncodedSize : ℕ := confHeaderSize + confMemberSize * maxMembers
abbrev dataChunkFixedSize : ℕ := 85
abbrev dataAckFixedSize : ℕ := 82
abbrev snapshotChunkBlockLength : ℕ := 57
abbrev snapshotAckBlockLength : ℕ := 49

structure Digest where
  bytes : List UInt8
  size : bytes.length = digestSize
  deriving DecidableEq, Repr

theorem digest_of_zeros : (List.replicate digestSize (0 : UInt8)).length = digestSize := rfl

theorem digest_of_head (bytes : List UInt8) :
    ((bytes ++ List.replicate digestSize 1).take digestSize).length = digestSize := by simp

/-- The configuration is present with the first chunk only. -/
structure SnapshotChunk where
  fromId : NodeId
  toId : NodeId
  term : ℕ
  snapshotIndex : ℕ
  snapshotTerm : ℕ
  snapshotOffset : ℕ
  snapshotSize : ℕ
  snapshotDigest : Digest
  configuration : Option Conf
  data : List UInt8
  done : Bool
  deriving DecidableEq, Repr

structure SnapshotAck where
  fromId : NodeId
  toId : NodeId
  term : ℕ
  snapshotIndex : ℕ
  snapshotSize : ℕ
  nextOffset : ℕ
  snapshotDigest : Digest
  accepted : Bool
  deriving DecidableEq, Repr

structure DataChunk where
  fromId : NodeId
  toId : NodeId
  term : ℕ
  streamId : UInt64
  streamOffset : ℕ
  streamSize : ℕ
  streamDigest : Digest
  data : List UInt8
  done : Bool
  deriving DecidableEq, Repr

structure DataAck where
  fromId : NodeId
  toId : NodeId
  term : ℕ
  streamId : UInt64
  streamSize : ℕ
  nextOffset : ℕ
  streamDigest : Digest
  accepted : Bool
  durable : Bool
  deriving DecidableEq, Repr

structure WireMetadata where
  clusterId : ClusterId
  groupId : UInt64
  messageId : UInt64
  deriving DecidableEq, Repr

inductive PayloadKind where
  | raft
  | snapshotChunk
  | snapshotAck
  | dataChunk
  | dataAck
  deriving DecidableEq, Repr

def PayloadKind.number : PayloadKind → ℕ
  | .raft => 1
  | .snapshotChunk => 2
  | .snapshotAck => 3
  | .dataChunk => 4
  | .dataAck => 5

def payloadKindOf : ℕ → Option PayloadKind
  | 1 => some .raft
  | 2 => some .snapshotChunk
  | 3 => some .snapshotAck
  | 4 => some .dataChunk
  | 5 => some .dataAck
  | _ => none

def wirePayloadLimit (kind : ℕ) : ℕ :=
  match payloadKindOf kind with
  | some .raft => maxRaftPayloadSize
  | some .snapshotChunk | some .snapshotAck => maxSnapshotPayloadSize
  | some .dataChunk | some .dataAck => maxDataPayloadSize
  | none => 0

def wireMetadataValid (metadata : WireMetadata) : Bool := metadata.groupId != 0

def isReadMessage (type : MessageType) : Bool :=
  type == .readIndexRequest || type == .readIndexResponse

/-- The index of an entry is computed in a 64-bit word. -/
def entryValid (previousLogIndex : ℕ) (entry : Entry) (i : ℕ) : Bool :=
  entry.index != 0 && entry.term != 0 && decide (entry.data.length ≤ maxEntryBytes) &&
    entry.index == (previousLogIndex + i + 1) % 2 ^ 64 &&
    (!confEntryIsConfiguration entry || (confEntryDecode entry).isOk)

def messageValid (m : Message) : Bool :=
  m.fromId != 0 && m.toId != 0 && decide (m.entries.length ≤ maxAppendEntries) &&
    if isReadMessage m.type then
      m.contextId != 0 && m.term != 0 && m.entries.length == 0
    else
      m.contextId == 0 &&
        (m.entries.length == 0 ||
          (m.type == .appendRequest &&
            m.entries.zipIdx.all fun (entry, i) => entryValid m.previousLogIndex entry i))

def snapshotChunkValid (c : SnapshotChunk) : Bool :=
  c.fromId != 0 && c.toId != 0 && c.term != 0 && c.snapshotIndex != 0 && c.snapshotTerm != 0 &&
    decide (c.snapshotTerm ≤ c.term) && decide (c.snapshotOffset ≤ c.snapshotSize) &&
    decide (c.data.length ≤ maxSnapshotChunkBytes) &&
    decide (c.data.length ≤ c.snapshotSize - c.snapshotOffset) &&
    (if c.snapshotOffset == 0 then c.configuration.any (fun conf => confValidate conf == .ok)
      else c.configuration.isNone) &&
    c.done == (c.snapshotOffset + c.data.length == c.snapshotSize) &&
    (c.done || c.data.length != 0)

def snapshotAckValid (a : SnapshotAck) : Bool :=
  a.fromId != 0 && a.toId != 0 && a.term != 0 && a.snapshotIndex != 0 &&
    decide (a.nextOffset ≤ a.snapshotSize)

def dataChunkValid (c : DataChunk) : Bool :=
  c.fromId != 0 && c.toId != 0 && c.term != 0 && c.streamId != 0 &&
    decide (c.streamOffset ≤ c.streamSize) && decide (c.data.length ≤ maxDataChunkBytes) &&
    decide (c.data.length ≤ c.streamSize - c.streamOffset) &&
    c.done == (c.streamOffset + c.data.length == c.streamSize) && (c.done || c.data.length != 0)

def dataAckValid (a : DataAck) : Bool :=
  a.fromId != 0 && a.toId != 0 && a.term != 0 && a.streamId != 0 &&
    decide (a.nextOffset ≤ a.streamSize) &&
    (!a.durable || (a.accepted && a.nextOffset == a.streamSize))

def wireMagic : List UInt8 := [0x54, 0x52, 0x46, 0x54]

structure Envelope where
  magic : List UInt8
  version : ℕ
  headerSize : ℕ
  payloadLength : ℕ
  payloadKind : ℕ
  metadata : WireMetadata
  deriving DecidableEq, Repr

def clusterIdFormat : Format ClusterId :=
  Format.fixed 16 ClusterId.bytes (fun l h => ⟨l, h⟩) ClusterId.size fun _ _ => rfl

def digestFormat : Format Digest :=
  Format.fixed digestSize Digest.bytes (fun l h => ⟨l, h⟩) Digest.size fun _ _ => rfl

/-- The fields at offsets 0, 4, 6, 8, 12, 16, 32 and 40. -/
def envelopeFormat : Format Envelope :=
  ((Format.u8.many 4).seq <| (Format.be 2).seq <| (Format.be 2).seq <| (Format.be 4).seq <|
    (Format.be 4).seq <| clusterIdFormat.seq <| Format.u64be.seq Format.u64be).map
    (fun e => (e.magic, e.version, e.headerSize, e.payloadLength, e.payloadKind,
      e.metadata.clusterId, e.metadata.groupId, e.metadata.messageId))
    (fun (magic, version, headerSize, payloadLength, payloadKind, clusterId, groupId, messageId) =>
      { magic, version, headerSize, payloadLength, payloadKind
        metadata := { clusterId, groupId, messageId } })
    (fun _ => rfl)

def wireWriteEnvelope (kind : PayloadKind) (payloadLength : ℕ) (metadata : WireMetadata) :
    List UInt8 :=
  envelopeFormat.put
    { magic := wireMagic
      version := wireVersion
      headerSize := wireHeaderSize
      payloadLength
      payloadKind := kind.number
      metadata }

def wireReadEnvelope (frame : List UInt8) (kind : PayloadKind) :
    Option (WireMetadata × List UInt8) := do
  let (e, payload) ← envelopeFormat.get frame
  if e.magic != wireMagic || e.version != wireVersion || e.headerSize != wireHeaderSize ||
      e.payloadKind != kind.number || wirePayloadLimit kind.number < e.payloadLength ||
      frame.length != wireHeaderSize + e.payloadLength || e.metadata.groupId == 0 then
    none
  else
    some (e.metadata, payload)

def wirePeekPayloadKind (frame : List UInt8) : Except Status PayloadKind :=
  if frame.length < wireHeaderSize then
    .error .einval
  else
    match envelopeFormat.get frame with
    | none => .error .eproto
    | some (e, _) =>
      if e.magic != wireMagic || e.version != wireVersion || e.headerSize != wireHeaderSize ||
          wirePayloadLimit e.payloadKind < e.payloadLength ||
          frame.length != wireHeaderSize + e.payloadLength then
        .error .eproto
      else
        match payloadKindOf e.payloadKind with
        | none => .error .eproto
        | some kind => .ok kind

structure EntrySlot where
  index : ℕ
  term : ℕ
  commandId : UInt64
  deriving DecidableEq, Repr

/-- The generated record with its eight entry slots. -/
structure WireMessageV3 where
  messageType : ℕ
  granted : ℕ
  reserved : ℕ
  entryCount : ℕ
  fromNode : UInt64
  toNode : UInt64
  term : ℕ
  campaignTerm : ℕ
  lastLogIndex : ℕ
  lastLogTerm : ℕ
  leaderCommit : ℕ
  previousLogIndex : ℕ
  previousLogTerm : ℕ
  matchIndex : ℕ
  rejectHint : ℕ
  slots : List EntrySlot
  data : List (List UInt8)
  deriving DecidableEq, Repr

def slotFormat : Format EntrySlot :=
  ((Format.le 8).seq <| (Format.le 8).seq Format.u64le).map
    (fun s => (s.index, s.term, s.commandId))
    (fun (index, term, commandId) => { index, term, commandId })
    (fun _ => rfl)

def wireV3Format : Format WireMessageV3 :=
  ((Format.le 1).seq <| (Format.le 1).seq <| (Format.le 2).seq <| (Format.le 4).seq <|
    Format.u64le.seq <| Format.u64le.seq <| (Format.le 8).seq <| (Format.le 8).seq <|
    (Format.le 8).seq <| (Format.le 8).seq <| (Format.le 8).seq <| (Format.le 8).seq <|
    (Format.le 8).seq <| (Format.le 8).seq <| (Format.le 8).seq <|
    (slotFormat.many maxAppendEntries).seq (Format.varData.many maxAppendEntries)).map
    (fun w => (w.messageType, w.granted, w.reserved, w.entryCount, w.fromNode, w.toNode, w.term,
      w.campaignTerm, w.lastLogIndex, w.lastLogTerm, w.leaderCommit, w.previousLogIndex,
      w.previousLogTerm, w.matchIndex, w.rejectHint, w.slots, w.data))
    (fun (messageType, granted, reserved, entryCount, fromNode, toNode, term, campaignTerm,
        lastLogIndex, lastLogTerm, leaderCommit, previousLogIndex, previousLogTerm, matchIndex,
        rejectHint, slots, data) =>
      { messageType, granted, reserved, entryCount, fromNode, toNode, term, campaignTerm
        lastLogIndex, lastLogTerm, leaderCommit, previousLogIndex, previousLogTerm, matchIndex
        rejectHint, slots, data })
    (fun _ => rfl)

def messageTypeNumber : MessageType → ℕ
  | .preVoteRequest => 0
  | .preVoteResponse => 1
  | .voteRequest => 2
  | .voteResponse => 3
  | .heartbeatRequest => 4
  | .heartbeatResponse => 5
  | .appendRequest => 6
  | .appendResponse => 7
  | .timeoutNow => 8
  | .readIndexRequest => 9
  | .readIndexResponse => 10

def messageTypeOf : ℕ → Option MessageType
  | 0 => some .preVoteRequest
  | 1 => some .preVoteResponse
  | 2 => some .voteRequest
  | 3 => some .voteResponse
  | 4 => some .heartbeatRequest
  | 5 => some .heartbeatResponse
  | 6 => some .appendRequest
  | 7 => some .appendResponse
  | 8 => some .timeoutNow
  | 9 => some .readIndexRequest
  | 10 => some .readIndexResponse
  | _ => none

def flagByte (flag : Bool) : ℕ := if flag then 1 else 0

def emptySlot : EntrySlot := { index := 0, term := 0, commandId := 0 }

def slotOf (entry : Entry) : EntrySlot :=
  { index := entry.index, term := entry.term, commandId := entry.commandId }

/-- A read message carries its context in the field of the campaign term. -/
def wireV3FromMessage (m : Message) : WireMessageV3 :=
  let unused := maxAppendEntries - m.entries.length
  { messageType := messageTypeNumber m.type
    granted := flagByte m.granted
    reserved := 0
    entryCount := m.entries.length
    fromNode := m.fromId
    toNode := m.toId
    term := m.term
    campaignTerm := if isReadMessage m.type then m.contextId.toNat else m.campaignTerm
    lastLogIndex := m.lastLogIndex
    lastLogTerm := m.lastLogTerm
    leaderCommit := m.leaderCommit
    previousLogIndex := m.previousLogIndex
    previousLogTerm := m.previousLogTerm
    matchIndex := m.matchIndex
    rejectHint := m.rejectHint
    slots := m.entries.map slotOf ++ List.replicate unused emptySlot
    data := m.entries.map Entry.data ++ List.replicate unused [] }

def slotValid (w : WireMessageV3) (i : ℕ) : Bool :=
  let slot := w.slots.getD i emptySlot
  let data := w.data.getD i []
  decide (data.length ≤ maxEntryBytes) &&
    if i < w.entryCount then
      slot.index != 0 && slot.term != 0 && slot.index == (w.previousLogIndex + i + 1) % 2 ^ 64 &&
        (slot.commandId != 0 || (confDecode data).isOk)
    else
      slot.index == 0 && slot.term == 0 && slot.commandId == 0 && data.length == 0

def wireV3FieldsValid (w : WireMessageV3) (type : MessageType) : Bool :=
  w.reserved == 0 && decide (w.granted ≤ 1) && w.fromNode != 0 && w.toNode != 0 &&
    decide (w.entryCount ≤ maxAppendEntries) &&
    (!isReadMessage type || (w.campaignTerm != 0 && w.term != 0 && w.entryCount == 0)) &&
    (w.entryCount == 0 || type == .appendRequest) &&
    (List.range maxAppendEntries).all (slotValid w)

def wireV3ToMessage (w : WireMessageV3) (type : MessageType) : Message :=
  { type
    fromId := w.fromNode
    toId := w.toNode
    term := w.term
    campaignTerm := if isReadMessage type then 0 else w.campaignTerm
    lastLogIndex := w.lastLogIndex
    lastLogTerm := w.lastLogTerm
    leaderCommit := w.leaderCommit
    previousLogIndex := w.previousLogIndex
    previousLogTerm := w.previousLogTerm
    matchIndex := w.matchIndex
    rejectHint := w.rejectHint
    entries := (List.range w.entryCount).map fun i =>
      let slot := w.slots.getD i emptySlot
      { index := slot.index
        term := slot.term
        commandId := slot.commandId
        data := w.data.getD i [] }
    granted := w.granted != 0
    contextId := if isReadMessage type then UInt64.ofNat w.campaignTerm else 0 }

def wireEncode (metadata : WireMetadata) (m : Message) (outputCapacity : ℕ) :
    Except Status (List UInt8) :=
  if !wireMetadataValid metadata || !messageValid m then
    .error .einval
  else if outputCapacity < wireHeaderSize then
    .error .enospc
  else
    let payload := wireV3Format.put (wireV3FromMessage m)
    if outputCapacity < wireHeaderSize + payload.length then
      .error .enospc
    else if maxRaftPayloadSize < payload.length then
      .error .eproto
    else
      .ok (wireWriteEnvelope .raft payload.length metadata ++ payload)

def wireDecodeV3 (payload : List UInt8) : Except Status Message :=
  match wireV3Format.get payload with
  | some (w, []) =>
    match messageTypeOf w.messageType with
    | none => .error .eproto
    | some type =>
      if wireV3FieldsValid w type then .ok (wireV3ToMessage w type) else .error .eproto
  | _ => .error .eproto

def wireDecode (frame : List UInt8) : Except Status (WireMetadata × Message) :=
  match wireReadEnvelope frame .raft with
  | none => .error .eproto
  | some (metadata, payload) =>
    match wireDecodeV3 payload with
    | .error status => .error status
    | .ok m => .ok (metadata, m)

structure WireSnapshotChunk where
  fromNode : UInt64
  toNode : UInt64
  term : ℕ
  snapshotIndex : ℕ
  snapshotTerm : ℕ
  snapshotOffset : ℕ
  snapshotSize : ℕ
  done : ℕ
  configuration : List UInt8
  digest : List UInt8
  data : List UInt8
  deriving DecidableEq, Repr

def wireSnapshotChunkFormat : Format WireSnapshotChunk :=
  (Format.u64le.seq <| Format.u64le.seq <| (Format.le 8).seq <| (Format.le 8).seq <|
    (Format.le 8).seq <| (Format.le 8).seq <| (Format.le 8).seq <| (Format.le 1).seq <|
    Format.varData.seq <| Format.varData.seq Format.varData).map
    (fun w => (w.fromNode, w.toNode, w.term, w.snapshotIndex, w.snapshotTerm, w.snapshotOffset,
      w.snapshotSize, w.done, w.configuration, w.digest, w.data))
    (fun (fromNode, toNode, term, snapshotIndex, snapshotTerm, snapshotOffset, snapshotSize, done,
        configuration, digest, data) =>
      { fromNode, toNode, term, snapshotIndex, snapshotTerm, snapshotOffset, snapshotSize, done
        configuration, digest, data })
    (fun _ => rfl)

def encodedConfiguration (configuration : Option Conf) : Except Status (List UInt8) :=
  match configuration with
  | none => .ok []
  | some conf => confEncode conf confMaxEncodedSize

def wireFromSnapshotChunk (c : SnapshotChunk) (configuration : List UInt8) : WireSnapshotChunk :=
  { fromNode := c.fromId
    toNode := c.toId
    term := c.term
    snapshotIndex := c.snapshotIndex
    snapshotTerm := c.snapshotTerm
    snapshotOffset := c.snapshotOffset
    snapshotSize := c.snapshotSize
    done := flagByte c.done
    configuration
    digest := c.snapshotDigest.bytes
    data := c.data }

/-- The fields before the data and the length of the data. -/
def wireSnapshotChunkPrefix (w : WireSnapshotChunk) : List UInt8 :=
  (Format.u64le.seq <| Format.u64le.seq <| (Format.le 8).seq <| (Format.le 8).seq <|
    (Format.le 8).seq <| (Format.le 8).seq <| (Format.le 8).seq <| (Format.le 1).seq <|
    Format.varData.seq <| Format.varData.seq (Format.le 4)).put
    (w.fromNode, w.toNode, w.term, w.snapshotIndex, w.snapshotTerm, w.snapshotOffset,
      w.snapshotSize, w.done, w.configuration, w.digest, w.data.length)

def wireEncodeSnapshotChunkPrefix (metadata : WireMetadata) (c : SnapshotChunk)
    (outputCapacity : ℕ) : Except Status (List UInt8) × ℕ × ℕ :=
  if !wireMetadataValid metadata || !snapshotChunkValid c then
    (.error .einval, 0, 0)
  else
    match encodedConfiguration c.configuration with
    | .error status => (.error status, 0, 0)
    | .ok configuration =>
      let prefixLength := snapshotChunkBlockLength + 12 + configuration.length + digestSize
      let lengths := (wireHeaderSize + prefixLength, wireHeaderSize + prefixLength + c.data.length)
      if outputCapacity < wireHeaderSize + prefixLength then
        (.error .enospc, lengths)
      else if maxSnapshotPayloadSize < prefixLength + c.data.length then
        (.error .eproto, lengths)
      else
        (.ok (wireWriteEnvelope .snapshotChunk (prefixLength + c.data.length) metadata ++
          wireSnapshotChunkPrefix (wireFromSnapshotChunk c configuration)), lengths)

def wireEncodeSnapshotChunk (metadata : WireMetadata) (c : SnapshotChunk) (outputCapacity : ℕ) :
    Except Status (List UInt8) :=
  if !wireMetadataValid metadata || !snapshotChunkValid c then
    .error .einval
  else if outputCapacity < wireHeaderSize then
    .error .enospc
  else
    match encodedConfiguration c.configuration with
    | .error status => .error status
    | .ok configuration =>
      let prefixLength := snapshotChunkBlockLength + 12 + configuration.length + digestSize
      if outputCapacity < wireHeaderSize + prefixLength then
        .error .enospc
      else if maxSnapshotPayloadSize < prefixLength + c.data.length then
        .error .eproto
      else if outputCapacity < wireHeaderSize + prefixLength + c.data.length then
        .error .enospc
      else
        .ok (wireWriteEnvelope .snapshotChunk (prefixLength + c.data.length) metadata ++
          wireSnapshotChunkFormat.put (wireFromSnapshotChunk c configuration))

/-- An empty configuration string stands for a chunk without one. -/
def decodedConfiguration (bytes : List UInt8) : Except Status (Option Conf) :=
  if bytes.length == 0 then
    .ok none
  else
    match confDecode bytes with
    | .error _ => .error .eproto
    | .ok conf => .ok (some conf)

def wireDecodeSnapshotChunk (frame : List UInt8) : Except Status (WireMetadata × SnapshotChunk) :=
  match wireReadEnvelope frame .snapshotChunk with
  | none => .error .eproto
  | some (metadata, payload) =>
    match wireSnapshotChunkFormat.get payload with
    | some (w, []) =>
      if h : w.digest.length = digestSize then
        if 1 < w.done || confMaxEncodedSize < w.configuration.length ||
            maxSnapshotChunkBytes < w.data.length || w.snapshotSize < w.snapshotOffset then
          .error .eproto
        else
          match decodedConfiguration w.configuration with
          | .error status => .error status
          | .ok configuration =>
            let c : SnapshotChunk :=
              { fromId := w.fromNode
                toId := w.toNode
                term := w.term
                snapshotIndex := w.snapshotIndex
                snapshotTerm := w.snapshotTerm
                snapshotOffset := w.snapshotOffset
                snapshotSize := w.snapshotSize
                snapshotDigest := ⟨w.digest, h⟩
                configuration
                data := w.data
                done := w.done != 0 }
            if snapshotChunkValid c then .ok (metadata, c) else .error .eproto
      else
        .error .eproto
    | _ => .error .eproto

structure WireSnapshotAck where
  fromNode : UInt64
  toNode : UInt64
  term : ℕ
  snapshotIndex : ℕ
  snapshotSize : ℕ
  nextOffset : ℕ
  accepted : ℕ
  digest : List UInt8
  deriving DecidableEq, Repr

def wireSnapshotAckFormat : Format WireSnapshotAck :=
  (Format.u64le.seq <| Format.u64le.seq <| (Format.le 8).seq <| (Format.le 8).seq <|
    (Format.le 8).seq <| (Format.le 8).seq <| (Format.le 1).seq Format.varData).map
    (fun w => (w.fromNode, w.toNode, w.term, w.snapshotIndex, w.snapshotSize, w.nextOffset,
      w.accepted, w.digest))
    (fun (fromNode, toNode, term, snapshotIndex, snapshotSize, nextOffset, accepted, digest) =>
      { fromNode, toNode, term, snapshotIndex, snapshotSize, nextOffset, accepted, digest })
    (fun _ => rfl)

def wireFromSnapshotAck (a : SnapshotAck) : WireSnapshotAck :=
  { fromNode := a.fromId
    toNode := a.toId
    term := a.term
    snapshotIndex := a.snapshotIndex
    snapshotSize := a.snapshotSize
    nextOffset := a.nextOffset
    accepted := flagByte a.accepted
    digest := a.snapshotDigest.bytes }

def wireEncodeSnapshotAck (metadata : WireMetadata) (a : SnapshotAck) (outputCapacity : ℕ) :
    Except Status (List UInt8) :=
  let payloadLength := snapshotAckBlockLength + 4 + digestSize
  if !wireMetadataValid metadata || !snapshotAckValid a then
    .error .einval
  else if outputCapacity < wireHeaderSize + payloadLength then
    .error .enospc
  else
    .ok (wireWriteEnvelope .snapshotAck payloadLength metadata ++
      wireSnapshotAckFormat.put (wireFromSnapshotAck a))

def wireDecodeSnapshotAck (frame : List UInt8) : Except Status (WireMetadata × SnapshotAck) :=
  match wireReadEnvelope frame .snapshotAck with
  | none => .error .eproto
  | some (metadata, payload) =>
    match wireSnapshotAckFormat.get payload with
    | some (w, []) =>
      if h : w.digest.length = digestSize then
        let a : SnapshotAck :=
          { fromId := w.fromNode
            toId := w.toNode
            term := w.term
            snapshotIndex := w.snapshotIndex
            snapshotSize := w.snapshotSize
            nextOffset := w.nextOffset
            snapshotDigest := ⟨w.digest, h⟩
            accepted := w.accepted != 0 }
        if 1 < w.accepted || !snapshotAckValid a then .error .eproto else .ok (metadata, a)
      else
        .error .eproto
    | _ => .error .eproto

structure WireDataChunk where
  fromNode : UInt64
  toNode : UInt64
  term : ℕ
  streamId : UInt64
  streamOffset : ℕ
  streamSize : ℕ
  digest : Digest
  done : ℕ
  dataLength : ℕ
  deriving DecidableEq, Repr

def wireDataChunkFormat : Format WireDataChunk :=
  (Format.u64be.seq <| Format.u64be.seq <| (Format.be 8).seq <| Format.u64be.seq <|
    (Format.be 8).seq <| (Format.be 8).seq <| digestFormat.seq <| (Format.be 1).seq
      (Format.be 4)).map
    (fun w => (w.fromNode, w.toNode, w.term, w.streamId, w.streamOffset, w.streamSize, w.digest,
      w.done, w.dataLength))
    (fun (fromNode, toNode, term, streamId, streamOffset, streamSize, digest, done, dataLength) =>
      { fromNode, toNode, term, streamId, streamOffset, streamSize, digest, done, dataLength })
    (fun _ => rfl)

def wireFromDataChunk (c : DataChunk) : WireDataChunk :=
  { fromNode := c.fromId
    toNode := c.toId
    term := c.term
    streamId := c.streamId
    streamOffset := c.streamOffset
    streamSize := c.streamSize
    digest := c.streamDigest
    done := flagByte c.done
    dataLength := c.data.length }

def wireEncodeDataChunkPrefix (metadata : WireMetadata) (c : DataChunk) (outputCapacity : ℕ) :
    Except Status (List UInt8) × ℕ × ℕ :=
  let prefixLength := wireHeaderSize + dataChunkFixedSize
  let payloadLength := dataChunkFixedSize + c.data.length
  if !wireMetadataValid metadata || !dataChunkValid c then
    (.error .einval, 0, 0)
  else if outputCapacity < prefixLength then
    (.error .enospc, prefixLength, wireHeaderSize + payloadLength)
  else
    (.ok (wireWriteEnvelope .dataChunk payloadLength metadata ++
      wireDataChunkFormat.put (wireFromDataChunk c)), prefixLength, wireHeaderSize + payloadLength)

def wireEncodeDataChunk (metadata : WireMetadata) (c : DataChunk) (outputCapacity : ℕ) :
    Except Status (List UInt8) :=
  if !wireMetadataValid metadata || !dataChunkValid c then
    .error .einval
  else if outputCapacity < wireHeaderSize + dataChunkFixedSize + c.data.length then
    .error .enospc
  else
    .ok (wireWriteEnvelope .dataChunk (dataChunkFixedSize + c.data.length) metadata ++
      (wireDataChunkFormat.put (wireFromDataChunk c) ++ c.data))

def wireDecodeDataChunk (frame : List UInt8) : Except Status (WireMetadata × DataChunk) :=
  match wireReadEnvelope frame .dataChunk with
  | none => .error .eproto
  | some (metadata, payload) =>
    match wireDataChunkFormat.get payload with
    | none => .error .eproto
    | some (w, data) =>
      let c : DataChunk :=
        { fromId := w.fromNode
          toId := w.toNode
          term := w.term
          streamId := w.streamId
          streamOffset := w.streamOffset
          streamSize := w.streamSize
          streamDigest := w.digest
          data
          done := w.done != 0 }
      if w.dataLength != data.length || 1 < w.done || !dataChunkValid c then .error .eproto
      else .ok (metadata, c)

structure WireDataAck where
  fromNode : UInt64
  toNode : UInt64
  term : ℕ
  streamId : UInt64
  streamSize : ℕ
  nextOffset : ℕ
  digest : Digest
  accepted : ℕ
  durable : ℕ
  deriving DecidableEq, Repr

def wireDataAckFormat : Format WireDataAck :=
  (Format.u64be.seq <| Format.u64be.seq <| (Format.be 8).seq <| Format.u64be.seq <|
    (Format.be 8).seq <| (Format.be 8).seq <| digestFormat.seq <| (Format.be 1).seq
      (Format.be 1)).map
    (fun w => (w.fromNode, w.toNode, w.term, w.streamId, w.streamSize, w.nextOffset, w.digest,
      w.accepted, w.durable))
    (fun (fromNode, toNode, term, streamId, streamSize, nextOffset, digest, accepted, durable) =>
      { fromNode, toNode, term, streamId, streamSize, nextOffset, digest, accepted, durable })
    (fun _ => rfl)

def wireFromDataAck (a : DataAck) : WireDataAck :=
  { fromNode := a.fromId
    toNode := a.toId
    term := a.term
    streamId := a.streamId
    streamSize := a.streamSize
    nextOffset := a.nextOffset
    digest := a.streamDigest
    accepted := flagByte a.accepted
    durable := flagByte a.durable }

def wireEncodeDataAck (metadata : WireMetadata) (a : DataAck) (outputCapacity : ℕ) :
    Except Status (List UInt8) :=
  if !wireMetadataValid metadata || !dataAckValid a then
    .error .einval
  else if outputCapacity < wireHeaderSize + dataAckFixedSize then
    .error .enospc
  else
    .ok (wireWriteEnvelope .dataAck dataAckFixedSize metadata ++
      wireDataAckFormat.put (wireFromDataAck a))

def wireDecodeDataAck (frame : List UInt8) : Except Status (WireMetadata × DataAck) :=
  match wireReadEnvelope frame .dataAck with
  | none => .error .eproto
  | some (metadata, payload) =>
    match wireDataAckFormat.get payload with
    | some (w, []) =>
      let a : DataAck :=
        { fromId := w.fromNode
          toId := w.toNode
          term := w.term
          streamId := w.streamId
          streamSize := w.streamSize
          nextOffset := w.nextOffset
          streamDigest := w.digest
          accepted := w.accepted != 0
          durable := w.durable != 0 }
      if 1 < w.accepted || 1 < w.durable || !dataAckValid a then .error .eproto
      else .ok (metadata, a)
    | _ => .error .eproto

end RaftWire
