import TurboRaft.Executions
import TurboRaft.RaftWire

/-! # Snapshot transfer

A sender cuts a snapshot into chunks within a bounded window, and a receiver collects them, in a
buffer or through a stream sink, checks the digest and installs the snapshot. The hash and the
results of the callbacks are parameters. -/
namespace RaftSnapshotTransfer

open RaftTypes RaftConfiguration RaftWire Executions

abbrev snapshotMaxInflightChunks : ℕ := 4

/-- The configuration of an idle node, which nothing reads. -/
def noConf : Conf := { phase := .final, transitionId := 0, members := [] }

def noDigest : Digest := ⟨List.replicate digestSize 0, digest_of_zeros⟩

structure SnapshotSource where
  bytes : List UInt8
  digest : Digest
  deriving DecidableEq, Repr

structure SenderConfig where
  selfId : NodeId
  peerId : NodeId
  maxSnapshotBytes : ℕ
  chunkSize : ℕ
  maxInflightChunks : ℕ
  deriving DecidableEq, Repr

structure Claim where
  offset : ℕ
  length : ℕ
  slot : ℕ
  deriving DecidableEq, Repr

/-- A slot of the chunk storage holds the bytes last read into it. -/
structure Sender where
  config : SenderConfig
  source : Option SnapshotSource
  chunkStorage : List (List UInt8)
  size : ℕ
  digest : Digest
  leaderTerm : ℕ
  snapshotIndex : ℕ
  snapshotTerm : ℕ
  configuration : Conf
  acknowledgedOffset : ℕ
  nextOffset : ℕ
  claims : List Claim
  active : Bool
  complete : Bool
  deriving DecidableEq, Repr

def releaseSource (s : Sender) : Sender := { s with source := none }

def clearSender (s : Sender) : Sender :=
  { s with
    source := none
    size := 0
    digest := noDigest
    leaderTerm := 0
    snapshotIndex := 0
    snapshotTerm := 0
    configuration := noConf
    acknowledgedOffset := 0
    nextOffset := 0
    claims := []
    active := false
    complete := false }

def senderCreate (config : SenderConfig) : Except Status Sender :=
  if config.selfId == 0 || config.peerId == 0 || config.selfId == config.peerId ||
      config.maxSnapshotBytes == 0 then
    .error .einval
  else if config.chunkSize == 0 || decide (maxSnapshotChunkBytes < config.chunkSize) ||
      config.maxInflightChunks == 0 ||
      decide (snapshotMaxInflightChunks < config.maxInflightChunks) then
    .error .einval
  else
    .ok
      { config
        source := none
        chunkStorage := List.replicate config.maxInflightChunks []
        size := 0
        digest := noDigest
        leaderTerm := 0
        snapshotIndex := 0
        snapshotTerm := 0
        configuration := noConf
        acknowledgedOffset := 0
        nextOffset := 0
        claims := []
        active := false
        complete := false }

def slotInUse (s : Sender) (slot : ℕ) : Bool := s.claims.any (·.slot == slot)

def findFreeSlot (s : Sender) : Option ℕ :=
  (List.range s.config.maxInflightChunks).find? fun slot => !slotInUse s slot

def fillChunk (s : Sender) (claim : Claim) : SnapshotChunk :=
  { fromId := s.config.selfId
    toId := s.config.peerId
    term := s.leaderTerm
    snapshotIndex := s.snapshotIndex
    snapshotTerm := s.snapshotTerm
    snapshotOffset := claim.offset
    snapshotSize := s.size
    snapshotDigest := s.digest
    configuration := if claim.offset == 0 then some s.configuration else none
    data := if claim.length == 0 then [] else s.chunkStorage.getD claim.slot []
    done := claim.offset + claim.length == s.size }

def senderBeginSource (s : Sender) (leaderTerm snapshotIndex snapshotTerm : ℕ)
    (configuration : Conf)
    (source : SnapshotSource) : Status × Sender :=
  if confValidate configuration != .ok || leaderTerm == 0 || snapshotIndex == 0 ||
      snapshotTerm == 0 || decide (leaderTerm < snapshotTerm) ||
      decide (s.config.maxSnapshotBytes < source.bytes.length) then
    (.einval, s)
  else if s.active && !s.complete then
    (.ebusy, s)
  else
    (.ok,
      { clearSender s with
        source := some source
        size := source.bytes.length
        digest := source.digest
        leaderTerm, snapshotIndex, snapshotTerm, configuration
        active := true })

/-- What a read of the source returns: an error, or the number of bytes it has put into the
buffer. -/
inductive ReadOutcome where
  | failed (status : Status)
  | bytes (size : ℕ)
  deriving DecidableEq, Repr

def readSource (s : Sender) (offset length : ℕ) (outcome : ReadOutcome) :
    Except Status (List UInt8) :=
  if length == 0 then
    .ok []
  else
    match outcome with
    | .failed status => .error status
    | .bytes size =>
      if size != length then .error .eproto
      else .ok (((s.source.map SnapshotSource.bytes).getD []).drop offset |>.take length)

def senderNextChunk (s : Sender) (outcome : ReadOutcome) : Except Status SnapshotChunk × Sender :=
  if !s.active || s.complete then
    (.error .ebusy, s)
  else if s.config.maxInflightChunks ≤ s.claims.length then
    if s.config.maxInflightChunks != 1 then
      (.error .ebusy, s)
    else
      -- A window of one chunk hands out its only claim again.
      match s.claims with
      | [] => (.error .ebusy, s)
      | claim :: _ => (.ok (fillChunk s claim), s)
  else if s.nextOffset == s.size && s.claims.length != 0 then
    (.error .ebusy, s)
  else
    let length := min (s.size - s.nextOffset) s.config.chunkSize
    match findFreeSlot s with
    | none => (.error .ebusy, s)
    | some slot =>
      match readSource s s.nextOffset length outcome with
      | .error status => (.error status, s)
      | .ok data =>
        let claim : Claim := { offset := s.nextOffset, length, slot }
        let claimed :=
          { s with
            chunkStorage := s.chunkStorage.set slot data
            claims := s.claims ++ [claim]
            nextOffset := s.nextOffset + length }
        (.ok (fillChunk claimed claim), claimed)

def senderCancelChunk (s : Sender) (offset : ℕ) : Status × Sender :=
  match s.claims.getLast? with
  | none => (.einval, s)
  | some claim =>
    if claim.offset != offset then
      (.eproto, s)
    else
      (.ok, { s with nextOffset := claim.offset, claims := s.claims.dropLast })

def senderPrepareResume (s : Sender) : Status × Sender :=
  if !s.active || s.complete then (.ebusy, s)
  else (.ok, { s with nextOffset := s.acknowledgedOffset, claims := [] })

def ackRefused (s : Sender) (ack : SnapshotAck) : Bool :=
  ack.fromId != s.config.peerId || ack.toId != s.config.selfId || ack.term != s.leaderTerm ||
    ack.snapshotIndex != s.snapshotIndex || ack.snapshotSize != s.size ||
    ack.snapshotDigest != s.digest

def senderAcknowledge (s : Sender) (ack : SnapshotAck) : Status × Sender :=
  if !s.active then
    (.ebusy, s)
  else if ackRefused s ack then
    (.eproto, s)
  else if s.complete then
    (if ack.accepted && ack.nextOffset == s.size then .ok else .eproto, s)
  else if s.nextOffset < ack.nextOffset ||
      (ack.nextOffset != s.size && ack.nextOffset % s.config.chunkSize != 0) then
    (.eproto, s)
  else if !ack.accepted then
    if s.acknowledgedOffset < ack.nextOffset then
      (.eproto, s)
    else
      (.ok,
        { s with
          acknowledgedOffset := ack.nextOffset
          nextOffset := ack.nextOffset
          claims := [] })
  else if ack.nextOffset < s.acknowledgedOffset then
    (.eproto, s)
  else if ack.nextOffset != s.acknowledgedOffset &&
      !s.claims.any (fun claim => claim.offset + claim.length == ack.nextOffset) then
    (.eproto, s)
  else
    let acknowledged :=
      { s with
        acknowledgedOffset := ack.nextOffset
        claims := s.claims.dropWhile fun claim => decide
          (claim.offset + claim.length ≤ ack.nextOffset)
        complete := ack.nextOffset == s.size }
    (.ok, if acknowledged.complete then releaseSource acknowledged else acknowledged)

/-- A receiver with a stream sink has no buffer. -/
structure ReceiverConfig where
  selfId : NodeId
  maxSnapshotBytes : ℕ
  maxBufferedSnapshotBytes : ℕ
  streaming : Bool
  deriving DecidableEq, Repr

/-- `data` is what has been copied to the buffer or written to the stream, `hashed` what the hash
has been given, and `aborts` counts the calls of the abort of the stream. -/
structure SnapshotReceiver where
  config : ReceiverConfig
  leaderId : NodeId
  leaderTerm : ℕ
  snapshotIndex : ℕ
  snapshotTerm : ℕ
  configuration : Conf
  snapshotSize : ℕ
  nextOffset : ℕ
  digest : Digest
  data : List UInt8
  hashed : List UInt8
  streamStarted : Bool
  aborts : ℕ
  active : Bool
  completed : Bool
  deriving DecidableEq, Repr

def clearReceiver (r : SnapshotReceiver) : SnapshotReceiver :=
  { r with
    leaderId := 0
    leaderTerm := 0
    snapshotIndex := 0
    snapshotTerm := 0
    configuration := noConf
    snapshotSize := 0
    nextOffset := 0
    digest := noDigest
    data := []
    streamStarted := false
    aborts := r.aborts + r.streamStarted.toNat
    active := false
    completed := false }

def receiverCreate (config : ReceiverConfig) : Except Status SnapshotReceiver :=
  if config.selfId == 0 || config.maxSnapshotBytes == 0 then
    .error .einval
  else if !config.streaming && (config.maxBufferedSnapshotBytes == 0 ||
      decide (config.maxSnapshotBytes < config.maxBufferedSnapshotBytes)) then
    .error .einval
  else if config.streaming && config.maxBufferedSnapshotBytes != 0 then
    .error .einval
  else
    .ok
      { config
        leaderId := 0
        leaderTerm := 0
        snapshotIndex := 0
        snapshotTerm := 0
        configuration := noConf
        snapshotSize := 0
        nextOffset := 0
        digest := noDigest
        data := []
        hashed := []
        streamStarted := false
        aborts := 0
        active := false
        completed := false }

def chunkValid (r : SnapshotReceiver) (c : SnapshotChunk) : Bool :=
  c.fromId != 0 && c.toId == r.config.selfId && c.term != 0 && c.snapshotIndex != 0 &&
    c.snapshotTerm != 0 && decide (c.snapshotTerm ≤ c.term) &&
    decide (c.snapshotSize ≤ r.config.maxSnapshotBytes) &&
    decide (c.snapshotOffset ≤ c.snapshotSize) && decide (c.data.length ≤ maxSnapshotChunkBytes) &&
    decide (c.data.length ≤ c.snapshotSize - c.snapshotOffset) &&
    (if c.snapshotOffset == 0 then c.configuration.any (fun conf => confValidate conf == .ok)
      else c.configuration.isNone) &&
    c.done == (c.snapshotOffset + c.data.length == c.snapshotSize) &&
    (c.done || c.data.length != 0)

def identityMatches (r : SnapshotReceiver) (c : SnapshotChunk) : Bool :=
  (c.snapshotOffset != 0 || c.configuration == some r.configuration) &&
    r.leaderId == c.fromId && r.leaderTerm == c.term && r.snapshotIndex == c.snapshotIndex &&
    r.snapshotTerm == c.snapshotTerm && r.snapshotSize == c.snapshotSize &&
    r.digest == c.snapshotDigest

/-- What the allocator, the hash and the callbacks answer during one call. -/
structure ReceiveCalls where
  allocated : Bool
  hashReset : Bool
  streamBegin : Status
  hashUpdate : Bool
  streamWrite : Status
  hashFinish : Bool
  install : Status
  deriving DecidableEq, Repr

def receiverStart (r : SnapshotReceiver) (c : SnapshotChunk) (calls : ReceiveCalls) :
    Status × SnapshotReceiver :=
  if !r.config.streaming && c.snapshotSize != 0 &&
      decide (r.config.maxBufferedSnapshotBytes < c.snapshotSize) then
    (.efbig, r)
  else if !r.config.streaming && c.snapshotSize != 0 && !calls.allocated then
    (.enomem, r)
  else
    let started :=
      { clearReceiver r with
        leaderId := c.fromId
        leaderTerm := c.term
        snapshotIndex := c.snapshotIndex
        snapshotTerm := c.snapshotTerm
        configuration := c.configuration.getD noConf
        snapshotSize := c.snapshotSize
        digest := c.snapshotDigest
        active := true }
    if !calls.hashReset then
      (.eproto, clearReceiver started)
    else
      let started := { started with hashed := [] }
      if r.config.streaming then
        if calls.streamBegin != .ok then (calls.streamBegin, clearReceiver started)
        else (.ok, { started with streamStarted := true })
      else
        (.ok, started)

structure Install where
  leaderTerm : ℕ
  snapshotIndex : ℕ
  snapshotTerm : ℕ
  configuration : Conf
  data : List UInt8
  deriving DecidableEq, Repr

/-- What one call leaves: its result, the acknowledgement, the receiver and the installed
snapshot, if there is one. -/
structure Received where
  status : Status
  ack : SnapshotAck
  receiver : SnapshotReceiver
  installed : Option Install
  deriving DecidableEq, Repr

def prepareAck (r : SnapshotReceiver) (c : SnapshotChunk) : SnapshotAck :=
  { fromId := r.config.selfId
    toId := c.fromId
    term := c.term
    snapshotIndex := c.snapshotIndex
    snapshotSize := c.snapshotSize
    nextOffset := 0
    snapshotDigest := c.snapshotDigest
    accepted := false }

def receiverFinish (sha : List UInt8 → Digest) (r : SnapshotReceiver) (ack : SnapshotAck)
    (calls : ReceiveCalls) : Received :=
  let refused := { ack with accepted := false, nextOffset := 0 }
  if !calls.hashFinish || sha r.hashed != r.digest then
    { status := .eproto, ack := refused, receiver := clearReceiver r, installed := none }
  else if calls.install != .ok then
    { status := calls.install, ack := refused, receiver := clearReceiver r, installed := none }
  else
    { status := .ok
      ack
      receiver := { r with streamStarted := false, data := [], completed := true }
      installed := some
        { leaderTerm := r.leaderTerm
          snapshotIndex := r.snapshotIndex
          snapshotTerm := r.snapshotTerm
          configuration := r.configuration
          data := r.data } }

def receiverAccept (sha : List UInt8 → Digest) (r : SnapshotReceiver) (c : SnapshotChunk)
    (calls : ReceiveCalls) : Received :=
  let prepared := prepareAck r c
  let progress := { prepared with nextOffset := r.nextOffset }
  if r.completed then
    { status := .ok, ack := { progress with accepted := true }, receiver := r, installed := none }
  else if c.snapshotOffset < r.nextOffset then
    { status := .ok, ack := { progress with accepted := true }, receiver := r, installed := none }
  else if c.snapshotOffset != r.nextOffset then
    { status := .eproto, ack := progress, receiver := r, installed := none }
  else if c.data.length != 0 && !calls.hashUpdate then
    { status := .eproto, ack := prepared, receiver := clearReceiver r, installed := none }
  else if c.data.length != 0 && r.streamStarted && calls.streamWrite != .ok then
    { status := calls.streamWrite, ack := prepared, receiver := clearReceiver r, installed := none }
  else
    let taken :=
      { r with
        data := r.data ++ c.data
        hashed := r.hashed ++ c.data
        nextOffset := r.nextOffset + c.data.length }
    let ack := { prepared with nextOffset := taken.nextOffset, accepted := true }
    if !c.done then
      { status := .ok, ack, receiver := taken, installed := none }
    else
      receiverFinish sha taken ack calls

def receiverHandle (sha : List UInt8 → Digest) (r : SnapshotReceiver) (c : SnapshotChunk)
    (calls : ReceiveCalls) : Received :=
  let refused := fun status r nextOffset =>
    ({ status, ack := { prepareAck r c with nextOffset }, receiver := r,
       installed := none } : Received)
  let begin := fun _ : Unit =>
    match receiverStart r c calls with
    | (.ok, started) => receiverAccept sha started c calls
    | (status, r) => refused status r 0
  if !chunkValid r c then
    refused .eproto r 0
  else if !r.active then
    if c.snapshotOffset != 0 then refused .eproto r 0
    else begin ()
  else if !identityMatches r c then
    if c.snapshotOffset != 0 || decide (c.snapshotIndex ≤ r.snapshotIndex) ||
        decide (c.term < r.leaderTerm) then
      refused .eproto r r.nextOffset
    else
      begin ()
  else
    receiverAccept sha r c calls

structure Transfer where
  leaderTerm : ℕ
  snapshotIndex : ℕ
  snapshotTerm : ℕ
  configuration : Conf
  bytes : List UInt8
  deriving DecidableEq, Repr

/-- The two nodes and everything that was ever sent between them, with the transfers begun and the
snapshots installed so far. -/
structure TransferWorld where
  sender : Sender
  receiver : SnapshotReceiver
  chunks : List SnapshotChunk
  acks : List SnapshotAck
  begun : List Transfer
  installs : List Install
  deriving DecidableEq, Repr

/-- Chunks and acknowledgements may be delivered in any order, any number of times or never. Either
node may drop its transfer or be created again. -/
inductive TransferEvent where
  | begin (transfer : Transfer)
  | nextChunk (outcome : ReadOutcome)
  | cancelChunk (offset : ℕ)
  | resume
  | resetSender
  | createSender (config : SenderConfig)
  | deliverChunk (chunk : SnapshotChunk) (calls : ReceiveCalls)
  | deliverAck (ack : SnapshotAck)
  | resetReceiver
  | createReceiver (config : ReceiverConfig)
  deriving DecidableEq, Repr

instance : Inhabited TransferEvent := ⟨.resume⟩

def transferStep (sha : List UInt8 → Digest) (w : TransferWorld) :
    TransferEvent → Option TransferWorld
  | .begin t =>
    match senderBeginSource w.sender t.leaderTerm t.snapshotIndex t.snapshotTerm t.configuration
        ⟨t.bytes, sha t.bytes⟩ with
    | (.ok, sender) => some { w with sender, begun := w.begun ++ [t] }
    | (_, sender) => some { w with sender }
  | .nextChunk outcome =>
    match senderNextChunk w.sender outcome with
    | (.ok chunk, sender) => some { w with sender, chunks := w.chunks ++ [chunk] }
    | (.error _, sender) => some { w with sender }
  | .cancelChunk offset => some { w with sender := (senderCancelChunk w.sender offset).2 }
  | .resume => some { w with sender := (senderPrepareResume w.sender).2 }
  | .resetSender => some { w with sender := clearSender w.sender }
  | .createSender config =>
    match senderCreate config with
    | .ok sender => some { w with sender }
    | .error _ => none
  | .deliverChunk chunk calls =>
    if chunk ∈ w.chunks then
      let received := receiverHandle sha w.receiver chunk calls
      some { w with
        receiver := received.receiver
        acks := w.acks ++ [received.ack]
        installs := w.installs ++ received.installed.toList }
    else none
  | .deliverAck ack =>
    if ack ∈ w.acks then some { w with sender := (senderAcknowledge w.sender ack).2 } else none
  | .resetReceiver => some { w with receiver := clearReceiver w.receiver }
  | .createReceiver config =>
    match receiverCreate config with
    | .ok receiver => some { w with receiver }
    | .error _ => none

def transferSystem (sha : List UInt8 → Digest) (sender : Sender) (receiver : SnapshotReceiver) :
    StepSystem TransferWorld TransferEvent where
  init :=
    { sender, receiver
      chunks := []
      acks := []
      begun := []
      installs := [] }
  step := transferStep sha

end RaftSnapshotTransfer
