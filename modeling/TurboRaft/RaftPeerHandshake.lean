import TurboRaft.RaftTransport

/-! # Peer handshakes

Before two nodes exchange frames they exchange a hello and an acknowledgement, each a packet of
fixed size. An exchange reads the packets of its peer from a byte stream that arrives in pieces
and negotiates the limits of the connection. -/
namespace RaftPeerHandshake

open RaftTypes RaftWire RaftTransport ByteFormats

abbrev handshakeFormatVersion : ℕ := 1
abbrev handshakeRecordSize : ℕ := 84
abbrev handshakeLengthPrefixSize : ℕ := 4
abbrev handshakePacketSize : ℕ := handshakeLengthPrefixSize + handshakeRecordSize

def handshakeMagic : List UInt8 := [0x54, 0x52, 0x48, 0x53]

inductive HandshakeMessageType where
  | hello
  | helloAck
  deriving DecidableEq, Repr

def HandshakeMessageType.number : HandshakeMessageType → ℕ
  | .hello => 1
  | .helloAck => 2

def handshakeTypeOf : ℕ → Option HandshakeMessageType
  | 1 => some .hello
  | 2 => some .helloAck
  | _ => none

/-- The 16 bytes that tell one process of a node from the next. -/
structure ProcessIncarnation where
  bytes : List UInt8
  size : bytes.length = 16
  deriving Repr

instance : DecidableEq ProcessIncarnation := fun a b =>
  decidable_of_iff (a.bytes = b.bytes) (by cases a; cases b; simp)

structure HandshakeConfig where
  clusterId : ClusterId
  localNodeId : NodeId
  processIncarnation : ProcessIncarnation
  configEpoch : UInt64
  featureBits : UInt64
  wireMajorMin : UInt16
  wireMajorMax : UInt16
  wireMinorMin : UInt16
  wireMinorMax : UInt16
  maxFrameSize : UInt32
  maxSnapshotChunkSize : UInt32
  deriving DecidableEq, Repr

structure HandshakeMessage where
  type : HandshakeMessageType
  wireMajorMin : UInt16
  wireMajorMax : UInt16
  wireMinorMin : UInt16
  wireMinorMax : UInt16
  featureBits : UInt64
  clusterId : ClusterId
  nodeId : NodeId
  processIncarnation : ProcessIncarnation
  configEpoch : UInt64
  maxFrameSize : UInt32
  maxSnapshotChunkSize : UInt32
  deriving DecidableEq, Repr

/-- What a session reads of a result, and the epoch of the peer. -/
structure NegotiationResult extends HandshakeResult where
  peerConfigEpoch : UInt64
  deriving DecidableEq, Repr

def bytesNonzero (bytes : List UInt8) : Bool := bytes.any (· != 0)

def handshakeMessageValidate (m : HandshakeMessage) : Status :=
  if m.wireMajorMin == 0 || m.wireMajorMax < m.wireMajorMin || m.wireMinorMax < m.wireMinorMin ||
      m.wireMajorMin.toNat != handshakeWireMajor || m.wireMajorMax.toNat != handshakeWireMajor ||
      m.wireMinorMin.toNat != handshakeWireMinor || m.wireMinorMax.toNat != handshakeWireMinor ||
      m.featureBits != 0 || !bytesNonzero m.clusterId.bytes || m.nodeId == 0 ||
      !bytesNonzero m.processIncarnation.bytes || m.maxFrameSize.toNat < maxFrameSize ||
      m.maxSnapshotChunkSize.toNat < maxSnapshotChunkBytes then
    .eproto
  else if m.type == .helloAck &&
      (m.wireMajorMin != m.wireMajorMax || m.wireMinorMin != m.wireMinorMax) then
    .eproto
  else
    .ok

def helloMessage (config : HandshakeConfig) : HandshakeMessage :=
  { type := .hello
    wireMajorMin := config.wireMajorMin
    wireMajorMax := config.wireMajorMax
    wireMinorMin := config.wireMinorMin
    wireMinorMax := config.wireMinorMax
    featureBits := config.featureBits
    clusterId := config.clusterId
    nodeId := config.localNodeId
    processIncarnation := config.processIncarnation
    configEpoch := config.configEpoch
    maxFrameSize := config.maxFrameSize
    maxSnapshotChunkSize := config.maxSnapshotChunkSize }

def handshakeConfigValidate (config : HandshakeConfig) : Status :=
  handshakeMessageValidate (helloMessage config)

def handshakeMakeHello (config : HandshakeConfig) : Except Status HandshakeMessage :=
  match handshakeConfigValidate config with
  | .ok => .ok (helloMessage config)
  | status => .error status

structure HandshakeRecord where
  magic : List UInt8
  version : ℕ
  type : ℕ
  wireMajorMin : UInt16
  wireMajorMax : UInt16
  wireMinorMin : UInt16
  wireMinorMax : UInt16
  featureBits : UInt64
  clusterId : ClusterId
  nodeId : NodeId
  processIncarnation : ProcessIncarnation
  configEpoch : UInt64
  maxFrameSize : UInt32
  maxSnapshotChunkSize : UInt32
  reserved : ℕ
  deriving DecidableEq, Repr

def u16be : Format UInt16 :=
  (Format.be 2).map UInt16.toNat UInt16.ofNat fun _ => UInt16.ofNat_toNat

def u32be : Format UInt32 :=
  (Format.be 4).map UInt32.toNat UInt32.ofNat fun _ => UInt32.ofNat_toNat

def incarnationFormat : Format ProcessIncarnation :=
  Format.fixed 16 ProcessIncarnation.bytes (fun l h => ⟨l, h⟩) ProcessIncarnation.size fun _ _ => rfl

/-- The fields at offsets 0, 4, 6, 8, 10, 12, 14, 16, 24, 40, 48, 64, 72, 76 and 80. -/
def recordFormat : Format HandshakeRecord :=
  ((Format.u8.many 4).seq <| (Format.be 2).seq <| (Format.be 2).seq <| u16be.seq <| u16be.seq <|
    u16be.seq <| u16be.seq <| Format.u64be.seq <| clusterIdFormat.seq <| Format.u64be.seq <|
    incarnationFormat.seq <| Format.u64be.seq <| u32be.seq <| u32be.seq (Format.be 4)).map
    (fun r => (r.magic, r.version, r.type, r.wireMajorMin, r.wireMajorMax, r.wireMinorMin,
      r.wireMinorMax, r.featureBits, r.clusterId, r.nodeId, r.processIncarnation, r.configEpoch,
      r.maxFrameSize, r.maxSnapshotChunkSize, r.reserved))
    (fun (magic, version, type, wireMajorMin, wireMajorMax, wireMinorMin, wireMinorMax, featureBits,
        clusterId, nodeId, processIncarnation, configEpoch, maxFrameSize, maxSnapshotChunkSize,
        reserved) =>
      { magic, version, type, wireMajorMin, wireMajorMax, wireMinorMin, wireMinorMax, featureBits
        clusterId, nodeId, processIncarnation, configEpoch, maxFrameSize, maxSnapshotChunkSize
        reserved })
    (fun _ => rfl)

def recordOf (m : HandshakeMessage) : HandshakeRecord :=
  { magic := handshakeMagic
    version := handshakeFormatVersion
    type := m.type.number
    wireMajorMin := m.wireMajorMin
    wireMajorMax := m.wireMajorMax
    wireMinorMin := m.wireMinorMin
    wireMinorMax := m.wireMinorMax
    featureBits := m.featureBits
    clusterId := m.clusterId
    nodeId := m.nodeId
    processIncarnation := m.processIncarnation
    configEpoch := m.configEpoch
    maxFrameSize := m.maxFrameSize
    maxSnapshotChunkSize := m.maxSnapshotChunkSize
    reserved := 0 }

def recordMessage (type : HandshakeMessageType) (r : HandshakeRecord) : HandshakeMessage :=
  { type
    wireMajorMin := r.wireMajorMin
    wireMajorMax := r.wireMajorMax
    wireMinorMin := r.wireMinorMin
    wireMinorMax := r.wireMinorMax
    featureBits := r.featureBits
    clusterId := r.clusterId
    nodeId := r.nodeId
    processIncarnation := r.processIncarnation
    configEpoch := r.configEpoch
    maxFrameSize := r.maxFrameSize
    maxSnapshotChunkSize := r.maxSnapshotChunkSize }

def packetOf (m : HandshakeMessage) : List UInt8 :=
  beBytes 4 handshakeRecordSize ++ recordFormat.put (recordOf m)

def handshakeEncode (m : HandshakeMessage) (outputCapacity : ℕ) : Except Status (List UInt8) :=
  if outputCapacity < handshakePacketSize then
    .error .einval
  else
    match handshakeMessageValidate m with
    | .ok => .ok (packetOf m)
    | status => .error status

def packetLength (packet : List UInt8) : ℕ := beValue (packet.take handshakeLengthPrefixSize)

/-- An unknown type fails the validation in the source, as every wrong field does. -/
def handshakeDecode (packet : List UInt8) : Except Status HandshakeMessage :=
  if packet.length != handshakePacketSize || packetLength packet != handshakeRecordSize then
    .error .eproto
  else
    match recordFormat.get (packet.drop handshakeLengthPrefixSize) with
    | none => .error .eproto
    | some (r, _) =>
      if r.magic != handshakeMagic || r.version != handshakeFormatVersion || r.reserved != 0 then
        .error .eproto
      else
        match handshakeTypeOf r.type with
        | none => .error .eproto
        | some type =>
          match handshakeMessageValidate (recordMessage type r) with
          | .ok => .ok (recordMessage type r)
          | status => .error status

def negotiated (config : HandshakeConfig) (hello : HandshakeMessage) :
    HandshakeMessage × NegotiationResult :=
  let wireMajor := min config.wireMajorMax hello.wireMajorMax
  let wireMinor := min config.wireMinorMax hello.wireMinorMax
  let featureBits := config.featureBits &&& hello.featureBits
  let maxFrame := min config.maxFrameSize hello.maxFrameSize
  let maxChunk := min config.maxSnapshotChunkSize hello.maxSnapshotChunkSize
  ({ type := .helloAck
     wireMajorMin := wireMajor
     wireMajorMax := wireMajor
     wireMinorMin := wireMinor
     wireMinorMax := wireMinor
     featureBits
     clusterId := config.clusterId
     nodeId := config.localNodeId
     processIncarnation := config.processIncarnation
     configEpoch := config.configEpoch
     maxFrameSize := maxFrame
     maxSnapshotChunkSize := maxChunk },
   { complete := false
     clusterId := config.clusterId
     localNodeId := config.localNodeId
     peerNodeId := hello.nodeId
     peerProcessIncarnation := hello.processIncarnation.bytes
     peerConfigEpoch := hello.configEpoch
     featureBits
     wireMajor := wireMajor.toNat
     wireMinor := wireMinor.toNat
     maxFrameSize := maxFrame.toNat
     maxSnapshotChunkSize := maxChunk.toNat })

def handshakeNegotiate (config : HandshakeConfig) (authenticatedPeerNodeId : NodeId)
    (hello : HandshakeMessage) : Except Status (HandshakeMessage × NegotiationResult) :=
  if authenticatedPeerNodeId == 0 then
    .error .einval
  else
    match handshakeConfigValidate config with
    | .ok =>
      if handshakeMessageValidate hello != .ok || hello.type != .hello ||
          hello.nodeId != authenticatedPeerNodeId || hello.nodeId == config.localNodeId ||
          hello.clusterId != config.clusterId then
        .error .eproto
      else if min config.wireMajorMax hello.wireMajorMax < max config.wireMajorMin hello.wireMajorMin ||
          min config.wireMinorMax hello.wireMinorMax < max config.wireMinorMin hello.wireMinorMin then
        .error .eprotonosupport
      else
        .ok (negotiated config hello)
    | status => .error status

def handshakeValidateAck (result : NegotiationResult) (ack : HandshakeMessage) :
    Except Status NegotiationResult :=
  if result.complete then
    .error .einval
  else if handshakeMessageValidate ack != .ok || ack.type != .helloAck ||
      ack.nodeId != result.peerNodeId || ack.clusterId != result.clusterId ||
      ack.processIncarnation.bytes != result.peerProcessIncarnation ||
      ack.configEpoch != result.peerConfigEpoch || ack.wireMajorMin.toNat != result.wireMajor ||
      ack.wireMinorMin.toNat != result.wireMinor || ack.featureBits != result.featureBits ||
      ack.maxFrameSize.toNat != result.maxFrameSize ||
      ack.maxSnapshotChunkSize.toNat != result.maxSnapshotChunkSize then
    .error .eproto
  else
    .ok { result with complete := true }

inductive ExchangeState where
  | new
  | waitHello
  | waitAck
  | complete
  | faulted
  deriving DecidableEq, Repr

/-- The used part of the packet buffer is a list. -/
structure Exchange where
  config : HandshakeConfig
  authenticatedPeerNodeId : NodeId
  state : ExchangeState
  result : NegotiationResult
  packet : List UInt8
  deriving DecidableEq, Repr

def emptyResult : NegotiationResult :=
  { complete := false
    clusterId := ClusterId.zero
    localNodeId := 0
    peerNodeId := 0
    peerProcessIncarnation := List.replicate 16 0
    peerConfigEpoch := 0
    featureBits := 0
    wireMajor := 0
    wireMinor := 0
    maxFrameSize := 0
    maxSnapshotChunkSize := 0 }

def exchangeFault (exchange : Exchange) : Exchange := { exchange with state := .faulted }

def exchangeCreate (config : HandshakeConfig) (authenticatedPeerNodeId : NodeId) :
    Except Status Exchange :=
  if authenticatedPeerNodeId == 0 then
    .error .einval
  else
    match handshakeConfigValidate config with
    | .ok =>
      if authenticatedPeerNodeId == config.localNodeId then
        .error .eproto
      else
        .ok
          { config, authenticatedPeerNodeId
            state := .new
            result := emptyResult
            packet := [] }
    | status => .error status

def exchangeStart (exchange : Exchange) (outputCapacity : ℕ) : Status × Exchange × List UInt8 :=
  if exchange.state != .new then
    (.eproto, exchange, [])
  else
    match (handshakeMakeHello exchange.config).bind (handshakeEncode · outputCapacity) with
    | .ok output => (.ok, { exchange with state := .waitHello }, output)
    | .error status => (status, exchangeFault exchange, [])

structure FeedResult where
  status : Status
  exchange : Exchange
  consumed : ℕ
  output : List UInt8
  deriving DecidableEq, Repr

def exchangeReceive (exchange : Exchange) (outputCapacity : ℕ) (output : List UInt8) :
    Status × Exchange × List UInt8 :=
  match handshakeDecode exchange.packet with
  | .error status => (status, exchangeFault exchange, output)
  | .ok message =>
    let emptied := { exchange with packet := [] }
    if exchange.state == .waitHello then
      match handshakeNegotiate exchange.config exchange.authenticatedPeerNodeId message with
      | .error status => (status, exchangeFault emptied, output)
      | .ok (ack, result) =>
        match handshakeEncode ack outputCapacity with
        | .error status => (status, exchangeFault { emptied with result }, output)
        | .ok bytes => (.ok, { emptied with result, state := .waitAck }, bytes)
    else
      match handshakeValidateAck exchange.result message with
      | .error status => (status, exchangeFault emptied, output)
      | .ok result => (.ok, { emptied with result, state := .complete }, output)

/-- Every round takes at least one byte, so the size of the data bounds the rounds. -/
def exchangeFeedLoop (outputCapacity : ℕ) : ℕ → Exchange → List UInt8 → ℕ → List UInt8 → FeedResult
  | 0, exchange, _, consumed, output => ⟨.ok, exchange, consumed, output⟩
  | rounds + 1, exchange, data, consumed, output =>
    if data.isEmpty || exchange.state == .complete then
      ⟨.ok, exchange, consumed, output⟩
    else
      let copied := min (handshakePacketSize - exchange.packet.length) data.length
      let filled := { exchange with packet := exchange.packet ++ data.take copied }
      if decide (handshakeLengthPrefixSize ≤ filled.packet.length) &&
          packetLength filled.packet != handshakeRecordSize then
        ⟨.eproto, exchangeFault filled, consumed + copied, output⟩
      else if filled.packet.length != handshakePacketSize then
        exchangeFeedLoop outputCapacity rounds filled (data.drop copied) (consumed + copied) output
      else
        match exchangeReceive filled outputCapacity output with
        | (.ok, next, output) =>
          exchangeFeedLoop outputCapacity rounds next (data.drop copied) (consumed + copied) output
        | (status, next, output) => ⟨status, next, consumed + copied, output⟩

def exchangeFeed (exchange : Exchange) (data : List UInt8) (outputCapacity : ℕ) : FeedResult :=
  if outputCapacity < handshakePacketSize then
    ⟨.einval, exchange, 0, []⟩
  else if exchange.state != .waitHello && exchange.state != .waitAck then
    ⟨.eproto, exchange, 0, []⟩
  else
    exchangeFeedLoop outputCapacity data.length exchange data 0 []

def exchangeGetResult (exchange : Exchange) : Except Status NegotiationResult :=
  if exchange.state != .complete || !exchange.result.complete then
    .error .eproto
  else
    .ok exchange.result

end RaftPeerHandshake
