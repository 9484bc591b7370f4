import TurboRaft.Executions
import TurboRaft.RaftMembership
import TurboRaft.RaftWire

/-! # Data streams

A leader stages a large command as a stream on its peers before it proposes the stream's
descriptor. One sender for each peer cuts the stream into chunks within a bounded window, the
peer's receiver writes them into a sink and commits it when the digest is right, and a tracker
counts the members on which the stream is durable. The hash and the answers of the callbacks are
parameters. -/
namespace RaftDataStream

open RaftTypes RaftConfiguration RaftWire ByteFormats Executions Function

abbrev dataStreamMaxInflightChunks : ℕ := 16
abbrev dataDescriptorVersion : ℕ := 1
abbrev dataDescriptorEncodedSize : ℕ := 56
abbrev wireMaxDataStreamBytes : ℕ := uint64Max

def zeroDigest : Digest := ⟨List.replicate digestSize 0, digest_of_zeros⟩

structure DataDescriptor where
  streamId : UInt64
  streamSize : ℕ
  streamDigest : Digest
  deriving DecidableEq, Repr

def dataDescriptorMagic : List UInt8 := [0x54, 0x52, 0x44, 0x53]

structure DescriptorRecord where
  magic : List UInt8
  version : ℕ
  reserved : ℕ
  descriptor : DataDescriptor

/-- The fields at offsets 0, 4, 6, 8, 16 and 24. -/
def descriptorFormat : Format DescriptorRecord :=
  ((Format.u8.many 4).seq <| (Format.be 2).seq <| (Format.be 2).seq <| Format.u64be.seq <|
    (Format.be 8).seq digestFormat).map
    (fun r => (r.magic, r.version, r.reserved, r.descriptor.streamId, r.descriptor.streamSize,
      r.descriptor.streamDigest))
    (fun (magic, version, reserved, streamId, streamSize, streamDigest) =>
      { magic, version, reserved
        descriptor :=
          { streamId, streamSize, streamDigest } })
    fun _ => rfl

def dataDescriptorEncode (descriptor : DataDescriptor) (outputCapacity : ℕ) :
    Except Status (List UInt8) :=
  if descriptor.streamId == 0 || decide (wireMaxDataStreamBytes < descriptor.streamSize) then
    .error .einval
  else if outputCapacity < dataDescriptorEncodedSize then
    .error .enospc
  else
    .ok (descriptorFormat.put
      { magic := dataDescriptorMagic
        version := dataDescriptorVersion
        reserved := 0
        descriptor })

def dataDescriptorDecode (input : List UInt8) : Except Status DataDescriptor :=
  if input.length != dataDescriptorEncodedSize then
    .error .eproto
  else
    match descriptorFormat.get input with
    | none => .error .eproto
    | some (r, _) =>
      if r.magic != dataDescriptorMagic || r.version != dataDescriptorVersion ||
          r.reserved != 0 then
        .error .eproto
      else if r.descriptor.streamId != 0 && r.descriptor.streamSize ≤ wireMaxDataStreamBytes then
        .ok r.descriptor
      else
        .error .eproto

structure DataQuorumConfig where
  selfId : NodeId
  term : ℕ
  configuration : Conf
  descriptor : DataDescriptor
  deriving DecidableEq, Repr

structure DataQuorum where
  config : DataQuorumConfig
  durable : List Bool
  deriving DecidableEq, Repr

def dataMajority (voters : ℕ) : ℕ := voters / 2 + 1

def dataMemberIndex (configuration : Conf) (nodeId : NodeId) : Option ℕ :=
  configuration.members.findIdx? fun member => member.nodeId == nodeId

def dataQuorumCreate (config : DataQuorumConfig) : Except Status DataQuorum :=
  if config.selfId == 0 || config.term == 0 || config.descriptor.streamId == 0 ||
      decide (wireMaxDataStreamBytes < config.descriptor.streamSize) ||
      confValidate config.configuration != .ok then
    .error .einval
  else
    match dataMemberIndex config.configuration config.selfId with
    | none => .error .einval
    | some index =>
      if (config.configuration.members[index]?).any fun member =>
          hasRole member.roles confVoterRoles then
        .ok { config, durable := List.replicate maxMembers false }
      else
        .error .einval

def DataQuorum.mark (quorum : DataQuorum) (nodeId : NodeId) : Status × DataQuorum :=
  match dataMemberIndex quorum.config.configuration nodeId with
  | none => (.eproto, quorum)
  | some index => (.ok, { quorum with durable := quorum.durable.set index true })

def dataQuorumMarkLocalDurable (quorum : DataQuorum) : Status × DataQuorum :=
  quorum.mark quorum.config.selfId

def dataQuorumAcknowledge (quorum : DataQuorum) (ack : DataAck) : Status × DataQuorum :=
  if ack.toId != quorum.config.selfId || ack.term != quorum.config.term ||
      ack.streamId != quorum.config.descriptor.streamId ||
      ack.streamSize != quorum.config.descriptor.streamSize ||
      ack.nextOffset != ack.streamSize || !ack.accepted || !ack.durable ||
      ack.streamDigest != quorum.config.descriptor.streamDigest then
    (.eproto, quorum)
  else
    quorum.mark ack.fromId

def dataVoters (quorum : DataQuorum) (flag : UInt8) : ℕ × ℕ :=
  quorum.config.configuration.members.zipIdx.foldl
    (fun (voters, durable) (member, index) =>
      if hasRole member.roles flag then
        (voters + 1, durable + if quorum.durable.getD index false then 1 else 0)
      else (voters, durable))
    (0, 0)

def dataQuorumReady (quorum : DataQuorum) : Bool :=
  let (oldVoters, oldDurable) := dataVoters quorum confOldVoter
  let (newVoters, newDurable) := dataVoters quorum confNewVoter
  oldVoters != 0 && newVoters != 0 && decide (dataMajority oldVoters ≤ oldDurable) &&
    decide (dataMajority newVoters ≤ newDurable)

def dataQuorumMakeProposal (quorum : DataQuorum) (commandId : UInt64) : Except Status Proposal :=
  if commandId == 0 then
    .error .einval
  else if !dataQuorumReady quorum then
    .error .ebusy
  else
    (dataDescriptorEncode quorum.config.descriptor dataDescriptorEncodedSize).map fun encoded =>
      { commandId, data := encoded }

/-- A copy in memory, or a source of the host's that says how long it is and what its digest is. -/
inductive DataSource where
  | memory (bytes : List UInt8) (digest : Digest)
  | external (size : ℕ) (digest : Digest)
  deriving DecidableEq, Repr

def DataSource.size : DataSource → ℕ
  | .memory bytes _ => bytes.length
  | .external size _ => size

def DataSource.digest : DataSource → Digest
  | .memory _ digest => digest
  | .external _ digest => digest

structure DataSenderConfig where
  selfId : NodeId
  peerId : NodeId
  maxStreamBytes : ℕ
  chunkSize : ℕ
  maxInflightChunks : ℕ
  deriving DecidableEq, Repr

structure DataClaim where
  offset : ℕ
  length : ℕ
  slot : ℕ
  deriving DecidableEq, Repr

/-- The buffers of the chunk storage are filled and handed out in one call, so that only their
slots are kept. -/
structure DataSender where
  config : DataSenderConfig
  source : Option DataSource
  size : ℕ
  term : ℕ
  streamId : UInt64
  acknowledgedOffset : ℕ
  nextOffset : ℕ
  digest : Digest
  claims : List DataClaim
  active : Bool
  complete : Bool
  deriving DecidableEq, Repr

def senderReleaseSource (s : DataSender) : DataSender := { s with source := none }

def senderClear (s : DataSender) : DataSender :=
  { senderReleaseSource s with
    size := 0
    term := 0
    streamId := 0
    acknowledgedOffset := 0
    nextOffset := 0
    digest := zeroDigest
    claims := []
    active := false
    complete := false }

def senderCreate (config : DataSenderConfig) : Except Status DataSender :=
  if config.selfId == 0 || config.peerId == 0 || config.selfId == config.peerId ||
      config.maxStreamBytes == 0 then
    .error .einval
  else if config.chunkSize == 0 || decide (maxDataChunkBytes < config.chunkSize) ||
      config.maxInflightChunks == 0 ||
      decide (dataStreamMaxInflightChunks < config.maxInflightChunks) then
    .error .einval
  else
    .ok
      { config
        source := none
        size := 0
        term := 0
        streamId := 0
        acknowledgedOffset := 0
        nextOffset := 0
        digest := zeroDigest
        claims := []
        active := false
        complete := false }

def senderBeginSource (s : DataSender) (term : ℕ) (streamId : UInt64) (source : DataSource) :
    Status × DataSender :=
  if term == 0 || streamId == 0 || decide (s.config.maxStreamBytes < source.size) then
    (.einval, s)
  else if s.active && !s.complete then
    (.ebusy, s)
  else
    (.ok,
      { senderClear s with
        source := some source
        size := source.size
        term, streamId
        digest := source.digest
        active := true })

def senderBegin (sha : List UInt8 → Digest) (s : DataSender) (term : ℕ) (streamId : UInt64)
    (data : List UInt8) : Status × DataSender :=
  if term == 0 || streamId == 0 || decide (s.config.maxStreamBytes < data.length) then
    (.einval, s)
  else
    senderBeginSource s term streamId (.memory data (sha data))

def senderSlotInUse (s : DataSender) (slot : ℕ) : Bool := s.claims.any (·.slot == slot)

def senderFindFreeSlot (s : DataSender) : Option ℕ :=
  (List.range s.config.maxInflightChunks).find? fun slot => !senderSlotInUse s slot

def memoryReadAt (bytes : List UInt8) (offset capacity : ℕ) : Except Status (List UInt8) :=
  if bytes.length < offset || bytes.length - offset < capacity then .error .einval
  else .ok ((bytes.drop offset).take capacity)

def senderRead (s : DataSender) (length : ℕ) (answer : Except Status (List UInt8)) :
    Except Status (List UInt8) :=
  if length == 0 then
    .ok []
  else
    match s.source with
    | some (.memory bytes _) => memoryReadAt bytes s.nextOffset length
    | _ => answer

def senderNext (s : DataSender) (answer : Except Status (List UInt8)) :
    Except Status DataChunk × DataSender :=
  if !s.active || s.complete || decide (s.config.maxInflightChunks ≤ s.claims.length) ||
      (s.nextOffset == s.size && s.claims.length != 0) then
    (.error .ebusy, s)
  else
    let length := min (s.size - s.nextOffset) s.config.chunkSize
    match senderFindFreeSlot s with
    | none => (.error .ebusy, s)
    | some slot =>
      match senderRead s length answer with
      | .error status => (.error status, s)
      | .ok data =>
        if data.length != length then
          (.error .eproto, s)
        else
          (.ok
            { fromId := s.config.selfId
              toId := s.config.peerId
              term := s.term
              streamId := s.streamId
              streamOffset := s.nextOffset
              streamSize := s.size
              streamDigest := s.digest
              data
              done := s.nextOffset + length == s.size },
            { s with
              claims := s.claims ++ [{ offset := s.nextOffset, length, slot }]
              nextOffset := s.nextOffset + length })

def senderCancel (s : DataSender) (streamOffset : ℕ) : Status × DataSender :=
  match s.claims.getLast? with
  | none => (.einval, s)
  | some claim =>
    if claim.offset != streamOffset then (.eproto, s)
    else (.ok, { s with nextOffset := claim.offset, claims := s.claims.dropLast })

def senderResume (s : DataSender) : Status × DataSender :=
  if !s.active || s.complete then (.ebusy, s)
  else (.ok, { s with nextOffset := s.acknowledgedOffset, claims := [] })

/-- The acknowledgement is of another transfer, or ahead of this one. -/
def ackForeign (s : DataSender) (ack : DataAck) : Bool :=
  ack.fromId != s.config.peerId || ack.toId != s.config.selfId || ack.term != s.term ||
    ack.streamId != s.streamId || ack.streamSize != s.size || ack.streamDigest != s.digest ||
    decide (s.nextOffset < ack.nextOffset)

def senderAcknowledge (s : DataSender) (ack : DataAck) : Status × DataSender :=
  if !s.active then
    (.ebusy, s)
  else if ackForeign s ack then
    (.eproto, s)
  else if !ack.accepted then
    if ack.durable || decide (s.acknowledgedOffset < ack.nextOffset) then (.eproto, s)
    else senderResume { s with acknowledgedOffset := ack.nextOffset }
  else if ack.nextOffset < s.acknowledgedOffset then
    (.eproto, s)
  else if ack.nextOffset != s.acknowledgedOffset &&
      !s.claims.any (fun claim => claim.offset + claim.length == ack.nextOffset) then
    (.eproto, s)
  else
    -- The window moves even where the rest of the acknowledgement is then found wrong.
    let moved :=
      { s with
        acknowledgedOffset := ack.nextOffset
        claims := s.claims.dropWhile fun claim =>
          decide (claim.offset + claim.length ≤ ack.nextOffset) }
    if ack.nextOffset == s.size then
      if !ack.durable then (.eproto, moved)
      else (.ok, senderReleaseSource { moved with complete := true })
    else if ack.durable then
      (.eproto, moved)
    else
      (.ok, moved)

structure DataReceiverConfig where
  selfId : NodeId
  maxStreamBytes : ℕ
  deriving DecidableEq, Repr

/-- `hashed` is what the hash has been given since its last reset. -/
structure DataReceiver where
  config : DataReceiverConfig
  leaderId : NodeId
  term : ℕ
  streamId : UInt64
  streamSize : ℕ
  nextOffset : ℕ
  digest : Digest
  hashed : List UInt8
  active : Bool
  committed : Bool
  deriving DecidableEq, Repr

inductive SinkCall where
  | begin (leaderId : NodeId) (term : ℕ) (streamId : UInt64) (streamSize : ℕ) (digest : Digest)
      (answer : Status)
  | write (offset : ℕ) (data : List UInt8) (answer : Status)
  | commit (answer : Status)
  | abort
  deriving DecidableEq, Repr

structure ReceiverAnswers where
  hashReset : Bool
  begin : Status
  hashUpdate : Bool
  write : Status
  hashFinish : Bool
  commit : Status
  deriving DecidableEq, Repr

def receiverCreate (config : DataReceiverConfig) : Except Status DataReceiver :=
  if config.selfId == 0 || config.maxStreamBytes == 0 then
    .error .einval
  else
    .ok
      { config
        leaderId := 0
        term := 0
        streamId := 0
        streamSize := 0
        nextOffset := 0
        digest := zeroDigest
        hashed := []
        active := false
        committed := false }

def receiverClear (r : DataReceiver) : DataReceiver × List SinkCall :=
  ({ r with
      leaderId := 0
      term := 0
      streamId := 0
      streamSize := 0
      nextOffset := 0
      digest := zeroDigest
      active := false
      committed := false },
    if r.active && !r.committed then [.abort] else [])

structure Handled where
  status : Status
  ack : DataAck
  committed : Bool
  receiver : DataReceiver
  calls : List SinkCall
  deriving DecidableEq, Repr

def giveUp (status : Status) (ack : DataAck) (r : DataReceiver) (calls : List SinkCall) : Handled :=
  let cleared := receiverClear r
  { status, ack
    committed := false
    receiver := cleared.1
    calls := calls ++ cleared.2 }

def blankAck (r : DataReceiver) (c : DataChunk) : DataAck :=
  { fromId := r.config.selfId
    toId := c.fromId
    term := c.term
    streamId := c.streamId
    streamSize := c.streamSize
    nextOffset := 0
    streamDigest := c.streamDigest
    accepted := false
    durable := false }

def chunkMalformed (r : DataReceiver) (c : DataChunk) : Bool :=
  c.fromId == 0 || c.toId != r.config.selfId || c.term == 0 || c.streamId == 0 ||
    decide (r.config.maxStreamBytes < c.streamSize) || decide (c.streamSize < c.streamOffset) ||
    decide (maxDataChunkBytes < c.data.length) ||
    decide (c.streamSize - c.streamOffset < c.data.length) ||
    c.done != (c.streamOffset + c.data.length == c.streamSize)

def chunkForeign (r : DataReceiver) (c : DataChunk) : Bool :=
  r.leaderId != c.fromId || r.term != c.term || r.streamId != c.streamId ||
    r.streamSize != c.streamSize || r.digest != c.streamDigest

/-- The last chunk has been written: the digest is compared and the sink commits. -/
def receiverFinish (sha : List UInt8 → Digest) (r : DataReceiver) (ack : DataAck)
    (answers : ReceiverAnswers) (calls : List SinkCall) : Handled :=
  let refused := { ack with accepted := false, nextOffset := 0 }
  if !answers.hashFinish || sha r.hashed != r.digest then
    giveUp .eproto refused r calls
  else
    let calls := calls ++ [.commit answers.commit]
    if answers.commit ≠ .ok then
      giveUp answers.commit refused r calls
    else
      { status := .ok
        ack := { ack with durable := true }
        committed := true
        receiver := { r with committed := true }
        calls }

def receiverTake (sha : List UInt8 → Digest) (r : DataReceiver) (c : DataChunk)
    (answers : ReceiverAnswers) (calls : List SinkCall) : Handled :=
  let blank := blankAck r c
  let known := { blank with nextOffset := r.nextOffset }
  if r.committed then
    { status := .ok
      ack := { known with accepted := true, durable := true }
      committed := false
      receiver := r
      calls }
  else if c.streamOffset < r.nextOffset then
    { status := .ok, ack := { known with accepted := true }, committed := false, receiver := r
      calls }
  else if c.streamOffset != r.nextOffset then
    { status := .eproto, ack := known, committed := false, receiver := r, calls }
  else if c.data.length != 0 && !answers.hashUpdate then
    giveUp .eproto blank r calls
  else
    let writes := if c.data.length != 0 then [.write r.nextOffset c.data answers.write] else []
    if c.data.length != 0 && answers.write ≠ .ok then
      giveUp answers.write blank r (calls ++ writes)
    else
      let taken :=
        { r with
          hashed := r.hashed ++ c.data
          nextOffset := r.nextOffset + c.data.length }
      let ack := { blank with nextOffset := taken.nextOffset, accepted := true }
      if !c.done then
        { status := .ok, ack, committed := false, receiver := taken
          calls := calls ++ writes }
      else
        receiverFinish sha taken ack answers (calls ++ writes)

def receiverOpen (sha : List UInt8 → Digest) (r : DataReceiver) (c : DataChunk)
    (answers : ReceiverAnswers) : Handled :=
  let named :=
    { r with
      leaderId := c.fromId
      term := c.term
      streamId := c.streamId
      streamSize := c.streamSize
      digest := c.streamDigest }
  if !answers.hashReset then
    { status := .eproto, ack := blankAck r c, committed := false, receiver := named, calls := [] }
  else
    let opened := { named with hashed := [] }
    let calls :=
      [.begin c.fromId c.term c.streamId c.streamSize c.streamDigest answers.begin]
    if answers.begin ≠ .ok then
      giveUp answers.begin (blankAck r c) opened calls
    else
      receiverTake sha { opened with active := true } c answers calls

def receiverHandle (sha : List UInt8 → Digest) (r : DataReceiver) (c : DataChunk)
    (answers : ReceiverAnswers) : Handled :=
  let refused : Handled :=
    { status := .eproto, ack := blankAck r c, committed := false, receiver := r, calls := [] }
  if chunkMalformed r c then
    refused
  else if !r.active then
    if c.streamOffset != 0 then refused else receiverOpen sha r c answers
  else if chunkForeign r c then
    refused
  else
    receiverTake sha r c answers []

structure StagedStream where
  leaderId : NodeId
  term : ℕ
  streamId : UInt64
  bytes : List UInt8
  deriving DecidableEq, Repr

structure SinkState where
  staged : Option StagedStream
  committed : List StagedStream
  deriving DecidableEq, Repr

/-- The meaning of the calls: what was written in order since the last successful begin is what a
successful commit keeps. Whatever fails or comes out of order leaves nothing to commit. -/
def sinkStep (sink : SinkState) : SinkCall → SinkState
  | .begin leaderId term streamId _ _ .ok =>
    { sink with
      staged := some { leaderId, term, streamId, bytes := [] } }
  | .write offset data .ok =>
    { sink with
      staged := sink.staged.bind fun stream =>
        if stream.bytes.length = offset then some { stream with bytes := stream.bytes ++ data }
        else none }
  | .commit .ok => { staged := none, committed := sink.committed ++ sink.staged.toList }
  | _ => { sink with staged := none }

def sinkAfter (calls : List SinkCall) : SinkState :=
  calls.foldl sinkStep { staged := none, committed := [] }

def committedStreams (calls : List SinkCall) : List StagedStream := (sinkAfter calls).committed

/-- The nodes by their identifiers: the senders of the leader by their peers, the receivers with
the calls of their sinks, the calls of the sinks in which a node stages its own streams, and the
tracker. `begun` is the stream last begun for a peer. -/
structure StreamWorld where
  senders : NodeId → Option DataSender
  begun : NodeId → List UInt8
  receivers : NodeId → Option DataReceiver
  sinks : NodeId → List SinkCall
  locals : NodeId → List SinkCall
  quorum : Option DataQuorum
  acks : List DataAck

def StreamWorld.empty : StreamWorld :=
  { senders := fun _ => none
    begun := fun _ => []
    receivers := fun _ => none
    sinks := fun _ => []
    locals := fun _ => []
    quorum := none
    acks := [] }

/-- The network may deliver any chunk to a receiver, any number of times, or never, and any
acknowledgement that a receiver has produced. Senders, receivers and the tracker may be created
again at any time. -/
inductive StreamEvent where
  | createSender (config : DataSenderConfig)
  | begin (peer : NodeId) (term : ℕ) (streamId : UInt64) (bytes : List UInt8)
  | beginSource (peer : NodeId) (term : ℕ) (streamId : UInt64) (bytes : List UInt8)
  | next (peer : NodeId) (answer : Except Status (List UInt8))
  | cancel (peer : NodeId) (streamOffset : ℕ)
  | resume (peer : NodeId)
  | resetSender (peer : NodeId)
  | acknowledge (peer : NodeId) (ack : DataAck)
  | createReceiver (config : DataReceiverConfig)
  | handle (node : NodeId) (chunk : DataChunk) (answers : ReceiverAnswers)
  | resetReceiver (node : NodeId)
  | stage (node : NodeId) (calls : List SinkCall)
  | createQuorum (config : DataQuorumConfig)
  | markLocalDurable
  | quorumAcknowledge (ack : DataAck)

instance : Inhabited StreamEvent := ⟨.markLocalDurable⟩

def StreamWorld.withSender (w : StreamWorld) (peer : NodeId) (call : DataSender → DataSender) :
    StreamWorld :=
  { w with senders := update w.senders peer ((w.senders peer).map call) }

def StreamWorld.beginWith (w : StreamWorld) (peer : NodeId) (bytes : List UInt8)
    (call : DataSender → Status × DataSender) : StreamWorld :=
  match w.senders peer with
  | none => w
  | some sender =>
    match call sender with
    | (.ok, sender) =>
      { w with
        senders := update w.senders peer (some sender)
        begun := update w.begun peer bytes }
    | (_, sender) => { w with senders := update w.senders peer (some sender) }

def stagedLocally (sha : List UInt8 → Digest) (w : StreamWorld) (config : DataQuorumConfig) : Bool :=
  (committedStreams (w.locals config.selfId)).any fun stream =>
    stream.leaderId == config.selfId && stream.term == config.term &&
      stream.streamId == config.descriptor.streamId &&
      stream.bytes.length == config.descriptor.streamSize &&
      sha stream.bytes == config.descriptor.streamDigest

def streamStep (sha : List UInt8 → Digest) (w : StreamWorld) : StreamEvent → Option StreamWorld
  | .createSender config =>
    match senderCreate config with
    | .ok sender => some { w with senders := update w.senders config.peerId (some sender) }
    | .error _ => none
  | .begin peer term streamId bytes =>
    some (w.beginWith peer bytes fun sender => senderBegin sha sender term streamId bytes)
  | .beginSource peer term streamId bytes =>
    some (w.beginWith peer bytes fun sender =>
      senderBeginSource sender term streamId (.external bytes.length (sha bytes)))
  | .next peer answer => some (w.withSender peer fun sender => (senderNext sender answer).2)
  | .cancel peer offset => some (w.withSender peer fun sender => (senderCancel sender offset).2)
  | .resume peer => some (w.withSender peer fun sender => (senderResume sender).2)
  | .resetSender peer => some (w.withSender peer senderClear)
  | .acknowledge peer ack =>
    if ack ∈ w.acks then
      some (w.withSender peer fun sender => (senderAcknowledge sender ack).2)
    else none
  | .createReceiver config =>
    match receiverCreate config with
    | .ok receiver =>
      some { w with receivers := update w.receivers config.selfId (some receiver) }
    | .error _ => none
  | .handle node chunk answers =>
    match w.receivers node with
    | none => none
    | some receiver =>
      let handled := receiverHandle sha receiver chunk answers
      some { w with
        receivers := update w.receivers node (some handled.receiver)
        sinks := update w.sinks node (w.sinks node ++ handled.calls)
        acks := w.acks ++ [handled.ack] }
  | .resetReceiver node =>
    match w.receivers node with
    | none => none
    | some receiver =>
      let cleared := receiverClear receiver
      some { w with
        receivers := update w.receivers node (some cleared.1)
        sinks := update w.sinks node (w.sinks node ++ cleared.2) }
  | .stage node calls =>
    some { w with locals := update w.locals node (w.locals node ++ calls) }
  | .createQuorum config =>
    match dataQuorumCreate config with
    | .ok quorum => some { w with quorum := some quorum }
    | .error _ => none
  | .markLocalDurable =>
    match w.quorum with
    | none => none
    | some quorum =>
      if stagedLocally sha w quorum.config then
        some { w with quorum := some (dataQuorumMarkLocalDurable quorum).2 }
      else none
  | .quorumAcknowledge ack =>
    match w.quorum with
    | none => none
    | some quorum =>
      if ack ∈ w.acks then some { w with quorum := some (dataQuorumAcknowledge quorum ack).2 }
      else none

def streamSystem (sha : List UInt8 → Digest) : StepSystem StreamWorld StreamEvent where
  init := StreamWorld.empty
  step := streamStep sha

end RaftDataStream
