import TurboRaft.RaftWire

/-! # Transport sessions

A session encodes payloads for one authenticated peer into length-prefixed packets and decodes
the byte stream of that peer. The sink is the host's payload handler; it may answer by what it has
been given before. A sink does not destroy the session that calls it. -/
namespace RaftTransport

open RaftTypes RaftWire ByteFormats

abbrev lengthPrefixSize : ℕ := 4
abbrev handshakeWireMajor : ℕ := 1
abbrev handshakeWireMinor : ℕ := 0

inductive PayloadBody where
  | raft (message : Message)
  | snapshotChunk (chunk : SnapshotChunk)
  | snapshotAck (ack : SnapshotAck)
  | dataChunk (chunk : DataChunk)
  | dataAck (ack : DataAck)
  deriving DecidableEq, Repr

structure TransportPayload where
  groupId : UInt64
  body : PayloadBody
  deriving DecidableEq, Repr

def payloadNodes : PayloadBody → NodeId × NodeId
  | .raft m => (m.fromId, m.toId)
  | .snapshotChunk c => (c.fromId, c.toId)
  | .snapshotAck a => (a.fromId, a.toId)
  | .dataChunk c => (c.fromId, c.toId)
  | .dataAck a => (a.fromId, a.toId)

structure HandshakeResult where
  complete : Bool
  clusterId : ClusterId
  localNodeId : NodeId
  peerNodeId : NodeId
  peerProcessIncarnation : List UInt8
  featureBits : UInt64
  wireMajor : ℕ
  wireMinor : ℕ
  maxFrameSize : ℕ
  maxSnapshotChunkSize : ℕ
  deriving DecidableEq, Repr

structure SessionConfig where
  clusterId : ClusterId
  localNodeId : NodeId
  peerNodeId : NodeId
  firstOutboundMessageId : UInt64
  handshake : HandshakeResult
  deriving DecidableEq, Repr

inductive TransportState where
  | ready
  | faulted
  deriving DecidableEq, Repr

structure TransportStatus where
  state : TransportState
  lastOutboundMessageId : UInt64
  lastInboundMessageId : UInt64
  framesEncoded : ℕ
  framesDecoded : ℕ
  bytesEncoded : ℕ
  bytesDecoded : ℕ
  groupRoutingRejections : ℕ
  lastRejectedGroupId : UInt64
  lastGroupRoutingError : Status
  deriving DecidableEq, Repr

/-- The used parts of the length prefix and of the frame buffer are lists. -/
structure Session where
  clusterId : ClusterId
  localNodeId : NodeId
  peerNodeId : NodeId
  snapshotChunkSize : ℕ
  maxFrameSize : ℕ
  nextOutboundMessageId : UInt64
  lastInboundMessageId : UInt64
  outboundIdsExhausted : Bool
  status : TransportStatus
  lengthPrefix : List UInt8
  frame : List UInt8
  expectedFrameSize : ℕ
  deriving DecidableEq, Repr

def isActive (s : Session) : Bool := s.status.state == .ready

def faultSession (s : Session) : Session := { s with status := { s.status with state := .faulted } }

def handshakeResultValidate (result : HandshakeResult) (clusterId : ClusterId)
    (localNodeId peerNodeId : NodeId) : Status :=
  if !result.complete || result.localNodeId != localNodeId || result.peerNodeId != peerNodeId ||
      result.clusterId != clusterId || !result.peerProcessIncarnation.any (· != 0) then
    .eproto
  else if result.featureBits != 0 || result.wireMajor != handshakeWireMajor ||
      result.wireMinor != handshakeWireMinor || result.maxFrameSize < RaftWire.maxFrameSize ||
      result.maxSnapshotChunkSize < maxSnapshotChunkBytes then
    .eprotonosupport
  else
    .ok

/-- The creation repeats the last check of the validation, which has made it. -/
def sessionCreate (config : SessionConfig) : Except Status Session :=
  if !config.clusterId.bytes.any (· != 0) || config.localNodeId == 0 || config.peerNodeId == 0 ||
      config.localNodeId == config.peerNodeId || config.firstOutboundMessageId == 0 then
    .error .einval
  else
    match handshakeResultValidate config.handshake config.clusterId config.localNodeId
        config.peerNodeId with
    | .ok =>
      .ok
        { clusterId := config.clusterId
          localNodeId := config.localNodeId
          peerNodeId := config.peerNodeId
          snapshotChunkSize := maxSnapshotChunkBytes
          maxFrameSize := config.handshake.maxFrameSize
          nextOutboundMessageId := config.firstOutboundMessageId
          lastInboundMessageId := 0
          outboundIdsExhausted := false
          status :=
            { state := .ready
              lastOutboundMessageId := 0
              lastInboundMessageId := 0
              framesEncoded := 0
              framesDecoded := 0
              bytesEncoded := 0
              bytesDecoded := 0
              groupRoutingRejections := 0
              lastRejectedGroupId := 0
              lastGroupRoutingError := .ok }
          lengthPrefix := []
          frame := []
          expectedFrameSize := 0 }
    | status => .error status

def prepareOutbound (s : Session) (payload : TransportPayload) : Except Status WireMetadata :=
  if payload.groupId == 0 then
    .error .einval
  else if !isActive s || s.outboundIdsExhausted || (payloadNodes payload.body).1 != s.localNodeId ||
      (payloadNodes payload.body).2 != s.peerNodeId then
    .error .eproto
  else
    .ok
      { clusterId := s.clusterId
        groupId := payload.groupId
        messageId := s.nextOutboundMessageId }

def commitOutbound (s : Session) (packetSize : ℕ) : Session :=
  let exhausted := s.nextOutboundMessageId.toNat == uint64Max
  { s with
    nextOutboundMessageId :=
      if exhausted then s.nextOutboundMessageId else s.nextOutboundMessageId + 1
    outboundIdsExhausted := s.outboundIdsExhausted || exhausted
    status :=
      { s.status with
        lastOutboundMessageId := s.nextOutboundMessageId
        framesEncoded := s.status.framesEncoded + 1
        bytesEncoded := s.status.bytesEncoded + packetSize } }

def encodeBody (s : Session) (metadata : WireMetadata) (body : PayloadBody) (capacity : ℕ) :
    Except Status (List UInt8) :=
  match body with
  | .raft m => wireEncode metadata m capacity
  | .snapshotChunk c =>
    if s.snapshotChunkSize < c.data.length then .error .eprotonosupport
    else wireEncodeSnapshotChunk metadata c capacity
  | .snapshotAck a => wireEncodeSnapshotAck metadata a capacity
  | .dataChunk c => wireEncodeDataChunk metadata c capacity
  | .dataAck a => wireEncodeDataAck metadata a capacity

/-- The packet, or an error that leaves the session as it was. -/
def encodePayload (s : Session) (payload : TransportPayload) (outputCapacity : ℕ) :
    Except Status (List UInt8) × Session :=
  if outputCapacity < lengthPrefixSize then
    (.error .einval, s)
  else
    match prepareOutbound s payload with
    | .error status => (.error status, s)
    | .ok metadata =>
      match encodeBody s metadata payload.body (outputCapacity - lengthPrefixSize) with
      | .error status => (.error status, s)
      | .ok frame =>
        if uint32Max < frame.length then
          (.error .eproto, s)
        else
          (.ok (beBytes lengthPrefixSize frame.length ++ frame),
            commitOutbound s (lengthPrefixSize + frame.length))

structure Delivery where
  messageId : UInt64
  payload : TransportPayload
  deriving DecidableEq, Repr

abbrev Sink := List Delivery → TransportPayload → Status

structure Receiver where
  session : Session
  delivered : List Delivery
  deriving DecidableEq, Repr

def groupRoutingRejection (error : Status) : Bool := error == .enoent || error == .eshutdown

def decodeBody (s : Session) (frame : List UInt8) :
    PayloadKind → Except Status (WireMetadata × PayloadBody)
  | .raft => (wireDecode frame).map fun (metadata, m) => (metadata, .raft m)
  | .snapshotChunk =>
    match wireDecodeSnapshotChunk frame with
    | .error status => .error status
    | .ok (metadata, c) =>
      if s.snapshotChunkSize < c.data.length then .error .eproto
      else .ok (metadata, .snapshotChunk c)
  | .snapshotAck => (wireDecodeSnapshotAck frame).map fun (metadata, a) => (metadata,
      .snapshotAck a)
  | .dataChunk => (wireDecodeDataChunk frame).map fun (metadata, c) => (metadata, .dataChunk c)
  | .dataAck => (wireDecodeDataAck frame).map fun (metadata, a) => (metadata, .dataAck a)

def decodeFrame (s : Session) (frame : List UInt8) : Except Status (WireMetadata × PayloadBody) :=
  match wirePeekPayloadKind frame with
  | .error status => .error status
  | .ok kind => decodeBody s frame kind

def metadataRefused (s : Session) (metadata : WireMetadata) (body : PayloadBody) : Bool :=
  metadata.clusterId != s.clusterId || metadata.groupId == 0 || metadata.messageId == 0 ||
    decide (metadata.messageId ≤ s.lastInboundMessageId) ||
    (payloadNodes body).1 != s.peerNodeId || (payloadNodes body).2 != s.localNodeId

def acceptMetadata (s : Session) (metadata : WireMetadata) : Session :=
  { s with
    lastInboundMessageId := metadata.messageId
    status :=
      { s.status with
        lastInboundMessageId := metadata.messageId
        framesDecoded := s.status.framesDecoded + 1 } }

def recordRejection (s : Session) (groupId : UInt64) (error : Status) : Session :=
  { s with status :=
      { s.status with
        groupRoutingRejections := s.status.groupRoutingRejections + 1
        lastRejectedGroupId := groupId
        lastGroupRoutingError := error } }

def settleAnswer (s : Session) (groupId : UInt64) (answer : Status) : Status × Session :=
  if groupRoutingRejection answer then (.ok, recordRejection s groupId answer)
  else if answer != .ok then (answer, faultSession s)
  else (.ok, s)

def dispatchFrame (sink : Sink) (r : Receiver) : Status × Receiver :=
  match decodeFrame r.session r.session.frame with
  | .error status => (status, { r with session := faultSession r.session })
  | .ok (metadata, body) =>
    if metadataRefused r.session metadata body then
      (.eproto, { r with session := faultSession r.session })
    else
      let payload : TransportPayload := { groupId := metadata.groupId, body }
      let (status, session) := settleAnswer (acceptMetadata r.session metadata) metadata.groupId
        (sink r.delivered payload)
      (status,
        { session
          delivered := r.delivered ++ [{ messageId := metadata.messageId, payload }] })

inductive PrefixProgress where
  | short
  | refused
  | complete
  deriving DecidableEq, Repr

def frameSizeRefused (s : Session) : Bool :=
  decide (s.expectedFrameSize < wireHeaderSize) || decide (s.maxFrameSize < s.expectedFrameSize) ||
    decide (RaftWire.maxFrameSize < s.expectedFrameSize)

/-- The first half of one turn of the feed loop: the length prefix, if it is not complete. -/
def readPrefix (s : Session) (data : List UInt8) : PrefixProgress × Session × List UInt8 :=
  if s.lengthPrefix.length < lengthPrefixSize then
    let copied := min (lengthPrefixSize - s.lengthPrefix.length) data.length
    let filled := { s with lengthPrefix := s.lengthPrefix ++ data.take copied }
    if filled.lengthPrefix.length < lengthPrefixSize then
      (.short, filled, data.drop copied)
    else
      let sized := { filled with expectedFrameSize := beValue filled.lengthPrefix }
      (if frameSizeRefused sized then .refused else .complete, sized, data.drop copied)
  else
    (.complete, s, data)

def readFrame (s : Session) (data : List UInt8) : Session × List UInt8 :=
  let copied := min (s.expectedFrameSize - s.frame.length) data.length
  ({ s with frame := s.frame ++ data.take copied }, data.drop copied)

def resetFrame (s : Session) : Session :=
  { s with lengthPrefix := [], expectedFrameSize := 0, frame := [] }

/-- Every turn takes at least one byte, so the length of the data bounds the turns. -/
def feedLoop (sink : Sink) : ℕ → Receiver → List UInt8 → Status × Receiver
  | 0, r, _ => (.ok, r)
  | fuel + 1, r, data =>
    if data.isEmpty then
      (.ok, r)
    else
      match readPrefix r.session data with
      | (.short, s, rest) => feedLoop sink fuel { r with session := s } rest
      | (.refused, s, _) => (.eproto, { r with session := faultSession s })
      | (.complete, s, rest) =>
        let (s, rest) := readFrame s rest
        if s.frame.length < s.expectedFrameSize then
          feedLoop sink fuel { r with session := s } rest
        else
          match dispatchFrame sink { r with session := s } with
          | (.ok, r) => feedLoop sink fuel { r with session := resetFrame r.session } rest
          | (status, r) => (status, r)

def transportFeed (sink : Sink) (r : Receiver) (data : List UInt8) : Status × Receiver :=
  if !isActive r.session then
    (.eproto, r)
  else
    let counted := { r.session with status :=
      { r.session.status with bytesDecoded := r.session.status.bytesDecoded + data.length } }
    feedLoop sink data.length { r with session := counted } data

end RaftTransport
