import TurboRaft.RaftPeerHandshake

/-! # Agreement of two handshake exchanges

Two exchanges are joined by two byte streams. Each side reads the other's stream in pieces of any
size, and sends bytes of its application only behind its acknowledgement. What a side has read
fixes its state: the part of the hello or of the acknowledgement that is still open, and the
result negotiated from the other side's hello. -/
namespace RaftHandshakeAgreement

open RaftTypes RaftWire RaftPeerHandshake ByteFormats

section Packets

@[simp] theorem u16be_fits (a : UInt16) : u16be.fits a := a.toNat_lt

@[simp] theorem u32be_fits (a : UInt32) : u32be.fits a := a.toNat_lt

variable (m : HandshakeMessage)

theorem recordFormat_fits : recordFormat.fits (recordOf m) := by
  have hmagic : (Format.u8.many 4).fits handshakeMagic := ⟨rfl, fun _ _ => trivial⟩
  have htype : m.type.number < 256 ^ 2 := by cases m.type <;> decide
  have hversion : handshakeFormatVersion < 256 ^ 2 := by decide
  have hreserved : 0 < 256 ^ 4 := by decide
  exact ⟨hmagic, hversion, htype, u16be_fits _, u16be_fits _, u16be_fits _, u16be_fits _,
    Format.u64be_fits _, trivial, Format.u64be_fits _, trivial, Format.u64be_fits _,
    u32be_fits _, u32be_fits _, hreserved⟩

@[simp] theorem packetOf_length : (packetOf m).length = handshakePacketSize := by
  have hmagic : ((Format.u8.many 4).put handshakeMagic).length = 4 := rfl
  have hrecord : (recordFormat.put (recordOf m)).length = handshakeRecordSize := by
    simp [recordFormat, recordOf, u16be, u32be, clusterIdFormat, incarnationFormat, hmagic]
  rw [packetOf, List.length_append, beBytes_length, hrecord]

theorem packetLength_packetOf : packetLength (packetOf m) = handshakeRecordSize := by
  rw [packetLength, packetOf, List.take_left' (beBytes_length 4 _)]
  exact beValue_beBytes (by decide)

theorem packetLength_take {count : ℕ}
    (h : handshakeLengthPrefixSize ≤ ((packetOf m).take count).length) :
    packetLength ((packetOf m).take count) = handshakeRecordSize := by
  have hcount : handshakeLengthPrefixSize ≤ count := by
    rw [List.length_take] at h
    omega
  rw [packetLength, List.take_take, Nat.min_eq_left hcount]
  exact packetLength_packetOf m

theorem recordMessage_recordOf : recordMessage m.type (recordOf m) = m := rfl

theorem handshakeTypeOf_number (type : HandshakeMessageType) :
    handshakeTypeOf type.number = some type := by
  cases type <;> rfl

theorem handshakeDecode_packetOf {m : HandshakeMessage} (h : handshakeMessageValidate m = .ok) :
    handshakeDecode (packetOf m) = .ok m := by
  have hdrop : (packetOf m).drop handshakeLengthPrefixSize = recordFormat.put (recordOf m) :=
    List.drop_left' (beBytes_length 4 _)
  unfold handshakeDecode
  rw [packetOf_length, packetLength_packetOf, if_neg (by decide), hdrop,
    recordFormat.get_put_all (recordFormat_fits m)]
  have htype : handshakeTypeOf (recordOf m).type = some m.type := handshakeTypeOf_number m.type
  dsimp only
  rw [if_neg (by exact Bool.false_ne_true), htype]
  dsimp only
  rw [recordMessage_recordOf, h]

theorem handshakeMessageValidate_cases :
    handshakeMessageValidate m = .ok ∨ handshakeMessageValidate m = .eproto := by
  unfold handshakeMessageValidate
  split_ifs
  · exact Or.inr rfl
  · exact Or.inr rfl
  · exact Or.inl rfl

theorem handshakeEncode_ok {m : HandshakeMessage} {capacity : ℕ} {bytes : List UInt8}
    (h : handshakeEncode m capacity = .ok bytes) :
    handshakeMessageValidate m = .ok ∧ bytes = packetOf m := by
  unfold handshakeEncode at h
  split_ifs at h
  rcases handshakeMessageValidate_cases m with hvalid | hvalid <;> rw [hvalid] at h <;> cases h
  exact ⟨hvalid, rfl⟩

end Packets

inductive Side where
  | left
  | right
  deriving DecidableEq, Repr

/-- One side of a connection. Next to its exchange stand all bytes it has sent, the part of them
that the exchange has written, and how many bytes of the other side it has consumed. -/
structure Endpoint where
  exchange : Exchange
  sent : List UInt8
  written : List UInt8
  acknowledged : Bool
  consumed : ℕ
  deriving DecidableEq, Repr

structure Connection where
  left : Endpoint
  right : Endpoint
  deriving DecidableEq, Repr

/-- What a host may do with its side: start, feed the next bytes of the stream, send bytes of its
application. -/
inductive HostAction where
  | start (outputCapacity : ℕ)
  | feed (size outputCapacity : ℕ)
  | send (bytes : List UInt8)
  deriving DecidableEq, Repr

def Endpoint.write (endpoint : Endpoint) (exchange : Exchange) (output : List UInt8) : Endpoint :=
  { endpoint with
    exchange
    sent := endpoint.sent ++ output
    written := endpoint.written ++ output }

/-- An action of one side, next to the stream of the other. Application bytes wait for the
acknowledgement. -/
def Endpoint.act (endpoint : Endpoint) (stream : List UInt8) : HostAction → Endpoint
  | .start outputCapacity =>
    let started := exchangeStart endpoint.exchange outputCapacity
    endpoint.write started.2.1 started.2.2
  | .feed size outputCapacity =>
    let fed := exchangeFeed endpoint.exchange ((stream.drop endpoint.consumed).take size)
      outputCapacity
    { endpoint.write fed.exchange fed.output with
      acknowledged := endpoint.acknowledged || !fed.output.isEmpty
      consumed := endpoint.consumed + fed.consumed }
  | .send bytes =>
    if endpoint.acknowledged then { endpoint with sent := endpoint.sent ++ bytes } else endpoint

def Connection.step (connection : Connection) : Side × HostAction → Connection
  | (.left, action) =>
    { connection with left := connection.left.act connection.right.sent action }
  | (.right, action) =>
    { connection with right := connection.right.act connection.left.sent action }

def Connection.run (connection : Connection) (actions : List (Side × HostAction)) : Connection :=
  actions.foldl Connection.step connection

def Endpoint.new (exchange : Exchange) : Endpoint :=
  { exchange, sent := [], written := [], acknowledged := false, consumed := 0 }

section Sides

structure Party where
  config : HandshakeConfig
  authenticated : NodeId

abbrev Party.exchange (own : Party) (state : ExchangeState) (result : NegotiationResult)
    (packet : List UInt8) : Exchange :=
  ⟨own.config, own.authenticated, state, result, packet⟩

variable {own peer : Party}

def Accepts (own peer : Party) : Prop :=
  handshakeNegotiate own.config own.authenticated (helloMessage peer.config) =
    .ok (negotiated own.config (helloMessage peer.config))

def helloPacket (party : Party) : List UInt8 := packetOf (helloMessage party.config)

def ackMessage (own peer : Party) : HandshakeMessage :=
  (negotiated own.config (helloMessage peer.config)).1

def agreed (own peer : Party) : NegotiationResult :=
  (negotiated own.config (helloMessage peer.config)).2

def ackPacket (own peer : Party) : List UInt8 := packetOf (ackMessage own peer)

theorem handshakeNegotiate_ok {config : HandshakeConfig} {authenticated : NodeId}
    {hello : HandshakeMessage} {outcome : HandshakeMessage × NegotiationResult}
    (h : handshakeNegotiate config authenticated hello = .ok outcome) :
    outcome = negotiated config hello ∧ hello.nodeId = authenticated ∧
      hello.clusterId = config.clusterId := by
  unfold handshakeNegotiate at h
  unfold handshakeConfigValidate at h
  rcases handshakeMessageValidate_cases (helloMessage config) with hvalid | hvalid <;>
    rw [hvalid] at h
  · split_ifs at h with _ hrefused
    cases h
    simp only [Bool.or_eq_true, bne_iff_ne, ne_eq, not_or, not_not] at hrefused
    exact ⟨rfl, hrefused.1.1.2, hrefused.2⟩
  · split_ifs at h

/-- What a side has written, by how far its exchange has come. -/
inductive Written (own peer : Party) : List UInt8 → Bool → Prop
  | silent : Written own peer [] false
  | greeted (hvalid : handshakeMessageValidate (helloMessage own.config) = .ok) :
      Written own peer (helloPacket own) false
  | answered (hvalid : handshakeMessageValidate (helloMessage own.config) = .ok)
      (haccepts : Accepts own peer)
      (hack : handshakeMessageValidate (ackMessage own peer) = .ok) :
      Written own peer (helloPacket own ++ ackPacket own peer) true

/-- What has been consumed of the peer's packets fixes the state of an exchange. -/
inductive Reads (own peer : Party) (position : ℕ) : Exchange → Prop
  | new (result) (hposition : position = 0) :
      Reads own peer position (own.exchange .new result [])
  | waitHello (result) (hposition : position < handshakePacketSize) :
      Reads own peer position (own.exchange .waitHello result ((helloPacket peer).take position))
  | waitAck (count : ℕ) (haccepts : Accepts own peer)
      (hposition : position = handshakePacketSize + count) (hcount : count < handshakePacketSize) :
      Reads own peer position
        (own.exchange .waitAck (agreed own peer) ((ackPacket peer own).take count))
  | complete (packet) (haccepts : Accepts own peer)
      (hposition : position = handshakePacketSize + handshakePacketSize) :
      Reads own peer position
        (own.exchange .complete { agreed own peer with complete := true } packet)
  | faulted (result packet) :
      Reads own peer position (own.exchange .faulted result packet)

end Sides

section Feeding

variable {own peer : Party} {exchange : Exchange} {data : List UInt8} {capacity rounds : ℕ}

variable {status : Status} {written application : List UInt8} {acknowledged : Bool}
  {position count size : ℕ}

theorem take_copied (whole tail : List UInt8) (copied : ℕ) (hcount : count ≤ whole.length)
    (hdata : data = (whole.drop count ++ tail).take size)
    (hcopied : copied = min (whole.length - count) data.length) :
    whole.take count ++ data.take copied = whole.take (count + copied) := by
  have hlength : data.length ≤ size := by
    rw [hdata, List.length_take]
    omega
  have hsize : copied ≤ size := by omega
  have hdrop : copied ≤ (whole.drop count).length := by
    rw [List.length_drop]
    omega
  rw [List.take_add, hdata, List.take_take, Nat.min_eq_left hsize,
    List.take_append_of_le_length hdrop]

def afterReceive (capacity rounds : ℕ) (rest : List UInt8) (consumed : ℕ) :
    Status × Exchange × List UInt8 → FeedResult
  | (.ok, next, output) => exchangeFeedLoop capacity rounds next rest consumed output
  | (status, next, output) => ⟨status, next, consumed, output⟩

theorem afterReceive_failed (h : status ≠ .ok) (rest : List UInt8) (consumed : ℕ) (next : Exchange)
    (output : List UInt8) :
    afterReceive capacity rounds rest consumed (status, next, output) =
      ⟨status, next, consumed, output⟩ := by
  cases status <;> first | rfl | exact absurd rfl h

theorem exchangeFeedLoop_packet {m : HandshakeMessage} {stream tail : List UInt8}
    (hstream : stream.drop position = (packetOf m).drop count ++ tail)
    (hcount : count < handshakePacketSize) (hpacket : exchange.packet = (packetOf m).take count)
    (hstate : exchange.state ≠ .complete) (hdata : data = (stream.drop position).take size)
    (hsome : data ≠ []) (consumed : ℕ) (output : List UInt8) :
    ∃ copied, count + copied ≤ handshakePacketSize ∧
      data.drop copied = (stream.drop (position + copied)).take (size - copied) ∧
      exchangeFeedLoop capacity (rounds + 1) exchange data consumed output =
        if count + copied < handshakePacketSize then
          exchangeFeedLoop capacity rounds { exchange with packet := (packetOf m).take (count + copied) }
            (data.drop copied) (consumed + copied) output
        else
          afterReceive capacity rounds (data.drop copied) (consumed + copied)
            (exchangeReceive { exchange with packet := packetOf m } capacity output) := by
  have hlength := packetOf_length m
  have hused : exchange.packet.length = count := by
    rw [hpacket, List.length_take]
    omega
  generalize hcopied : min (handshakePacketSize - exchange.packet.length) data.length = copied
  have hbound : count + copied ≤ handshakePacketSize := by omega
  have hfill := take_copied (packetOf m) tail copied (by omega) (hstream ▸ hdata)
    (by rw [hlength, ← hcopied, hused])
  have hnow : ((packetOf m).take (count + copied)).length = count + copied := by
    rw [List.length_take]
    omega
  refine ⟨copied, hbound, by rw [hdata, List.drop_take, List.drop_drop], ?_⟩
  rw [exchangeFeedLoop, if_neg (by simp [hsome, hstate]), hcopied]
  dsimp only
  rw [hpacket, hfill]
  have hhead : (decide (handshakeLengthPrefixSize ≤ ((packetOf m).take (count + copied)).length) &&
      packetLength ((packetOf m).take (count + copied)) != handshakeRecordSize) = false := by
    by_cases hlong : handshakeLengthPrefixSize ≤ ((packetOf m).take (count + copied)).length
    · rw [packetLength_take m hlong]
      simp
    · rw [decide_eq_false hlong, Bool.false_and]
  rw [hhead, if_neg Bool.false_ne_true, hnow]
  by_cases hfull : count + copied < handshakePacketSize
  · rw [if_pos (by simp; omega), if_pos hfull]
  · have heq : count + copied = handshakePacketSize := by omega
    have hwhole : (packetOf m).take (count + copied) = packetOf m := by
      rw [heq, ← hlength, List.take_length]
    rw [if_neg (by simp [heq]), if_neg hfull, hwhole]
    rfl

theorem handshakeNegotiate_error {config : HandshakeConfig} {authenticated : NodeId}
    {hello : HandshakeMessage} (h : handshakeNegotiate config authenticated hello = .error status)
    : status ≠ .ok := by
  rintro rfl
  unfold handshakeNegotiate handshakeConfigValidate at h
  rcases handshakeMessageValidate_cases (helloMessage config) with hvalid | hvalid <;>
    rw [hvalid] at h <;> split_ifs at h
  all_goals cases h

theorem handshakeEncode_error {m : HandshakeMessage}
    (h : handshakeEncode m capacity = .error status) : status ≠ .ok := by
  rintro rfl
  unfold handshakeEncode at h
  rcases handshakeMessageValidate_cases m with hvalid | hvalid <;> rw [hvalid] at h <;>
    split_ifs at h
  all_goals cases h

theorem handshakeValidateAck_cases (result : NegotiationResult) (ack : HandshakeMessage) :
    handshakeValidateAck result ack = .ok { result with complete := true } ∨
      ∃ status, status ≠ .ok ∧ handshakeValidateAck result ack = .error status := by
  unfold handshakeValidateAck
  split_ifs
  · exact Or.inr ⟨.einval, by decide, rfl⟩
  · exact Or.inr ⟨.eproto, by decide, rfl⟩
  · exact Or.inl rfl

theorem exchangeReceive_hello (hvalid : handshakeMessageValidate (helloMessage peer.config) = .ok)
    (result : NegotiationResult) (output : List UInt8) :
    (∃ status kept packet, status ≠ .ok ∧
      exchangeReceive (own.exchange .waitHello result (helloPacket peer)) capacity output =
        (status, own.exchange .faulted kept packet, output)) ∨
    (Accepts own peer ∧ handshakeMessageValidate (ackMessage own peer) = .ok ∧
      exchangeReceive (own.exchange .waitHello result (helloPacket peer)) capacity output =
        (.ok, own.exchange .waitAck (agreed own peer) [], ackPacket own peer)) := by
  unfold exchangeReceive
  rw [helloPacket, handshakeDecode_packetOf hvalid]
  dsimp only
  cases hnegotiate : handshakeNegotiate own.config own.authenticated (helloMessage peer.config) with
  | error status =>
    exact Or.inl ⟨status, _, _, handshakeNegotiate_error hnegotiate, rfl⟩
  | ok outcome =>
    obtain ⟨rfl, _⟩ := handshakeNegotiate_ok hnegotiate
    dsimp only
    cases hencode : handshakeEncode (negotiated own.config (helloMessage peer.config)).1 capacity with
    | error status => exact Or.inl ⟨status, _, _, handshakeEncode_error hencode, rfl⟩
    | ok bytes =>
      obtain ⟨hack, rfl⟩ := handshakeEncode_ok hencode
      exact Or.inr ⟨hnegotiate, hack, rfl⟩

theorem exchangeReceive_ack (hvalid : handshakeMessageValidate (ackMessage peer own) = .ok)
    (output : List UInt8) :
    (∃ status packet, status ≠ .ok ∧
      exchangeReceive (own.exchange .waitAck (agreed own peer) (ackPacket peer own)) capacity output =
        (status, own.exchange .faulted (agreed own peer) packet, output)) ∨
    exchangeReceive (own.exchange .waitAck (agreed own peer) (ackPacket peer own)) capacity output =
      (.ok, own.exchange .complete { agreed own peer with complete := true } [], output) := by
  unfold exchangeReceive
  rw [ackPacket, handshakeDecode_packetOf hvalid]
  dsimp only
  rcases handshakeValidateAck_cases (agreed own peer) (ackMessage peer own) with hok | ⟨status, hfailed, herror⟩
  · rw [hok]
    exact Or.inr rfl
  · rw [herror]
    exact Or.inl ⟨status, _, hfailed, rfl⟩

/-- What feeding some bytes of the peer's stream leaves behind. The output is new only where the
exchange has answered the hello. -/
structure Fed (own peer : Party) (written : List UInt8) (position : ℕ) (exchange : Exchange)
    (consumed : ℕ) (output : List UInt8) (fed : FeedResult) : Prop where
  taken : ∃ taken, fed.consumed = consumed + taken ∧ position + taken ≤ written.length ∧
    Reads own peer (position + taken) fed.exchange
  started : fed.exchange.state ≠ .new
  answered : (fed.output = output ∧
      (fed.exchange.state = .waitHello → exchange.state = .waitHello)) ∨
    (exchange.state = .waitHello ∧ fed.exchange.state ≠ .waitHello ∧ Accepts own peer ∧
      handshakeMessageValidate (ackMessage own peer) = .ok ∧ fed.output = ackPacket own peer)

theorem Fed.after {output : List UInt8} {consumed copied : ℕ} {next : Exchange} {fed : FeedResult}
    (h : Fed own peer written (position + copied) next (consumed + copied) output fed)
    (hstate : next.state = .waitHello → exchange.state = .waitHello) :
    Fed own peer written position exchange consumed output fed where
  taken := by
    obtain ⟨taken, hconsumed, hwithin, hreads⟩ := h.taken
    exact ⟨copied + taken, by omega, by omega, by rwa [← Nat.add_assoc]⟩
  started := h.started
  answered := by
    rcases h.answered with ⟨hsame, hwait⟩ | ⟨hwait, hrest⟩
    · exact Or.inl ⟨hsame, fun hnow => hstate (hwait hnow)⟩
    · exact Or.inr ⟨hstate hwait, hrest⟩

theorem Fed.stay {output : List UInt8} {consumed : ℕ} (hreads : Reads own peer position exchange)
    (hwithin : position ≤ written.length) (hstarted : exchange.state ≠ .new) :
    Fed own peer written position exchange consumed output ⟨status, exchange, consumed, output⟩ where
  taken := ⟨0, rfl, hwithin, hreads⟩
  started := hstarted
  answered := Or.inl ⟨rfl, id⟩

theorem Fed.refused {output packet : List UInt8} {consumed copied : ℕ} {result : NegotiationResult}
    (hwithin : position + copied ≤ written.length) :
    Fed own peer written position exchange consumed output
      ⟨status, own.exchange .faulted result packet, consumed + copied, output⟩ where
  taken := ⟨copied, rfl, hwithin, .faulted _ _⟩
  started := ExchangeState.noConfusion
  answered := Or.inl ⟨rfl, ExchangeState.noConfusion⟩

variable (hwritten : Written peer own written acknowledged)

include hwritten

variable (happlication : acknowledged = false → application = [])

include happlication

/-- Where the stream goes on behind a position, the packet at that position is there. -/
theorem stream_hello (hposition : position < handshakePacketSize)
    (hsome : (written ++ application).drop position ≠ []) :
    handshakeMessageValidate (helloMessage peer.config) = .ok ∧
      handshakePacketSize ≤ written.length ∧
      ∃ tail, (written ++ application).drop position = (helloPacket peer).drop position ++ tail := by
  have hlength : (helloPacket peer).length = handshakePacketSize := packetOf_length _
  cases hwritten with
  | silent =>
    rw [happlication rfl] at hsome
    simp at hsome
  | greeted hvalid =>
    refine ⟨hvalid, hlength.ge, application, ?_⟩
    exact List.drop_append_of_le_length (by omega)
  | answered hvalid _ _ =>
    refine ⟨hvalid, ?_, ackPacket peer own ++ application, ?_⟩
    · rw [List.length_append]
      omega
    · rw [List.append_assoc]
      exact List.drop_append_of_le_length (by omega)

theorem stream_ack (hcount : count < handshakePacketSize)
    (hsome : (written ++ application).drop (handshakePacketSize + count) ≠ []) :
    handshakeMessageValidate (ackMessage peer own) = .ok ∧
      written.length = handshakePacketSize + handshakePacketSize ∧
      (written ++ application).drop (handshakePacketSize + count) =
        (ackPacket peer own).drop count ++ application := by
  have hlength : (helloPacket peer).length = handshakePacketSize := packetOf_length _
  have hackLength : (ackPacket peer own).length = handshakePacketSize := packetOf_length _
  cases hwritten with
  | silent =>
    rw [happlication rfl] at hsome
    simp at hsome
  | greeted hvalid =>
    rw [happlication rfl, List.append_nil, List.drop_eq_nil_of_le (by omega)] at hsome
    exact absurd rfl hsome
  | answered _ _ hack =>
    refine ⟨hack, by rw [List.length_append, hlength, hackLength], ?_⟩
    rw [List.append_assoc, ← List.drop_drop, ← hlength, List.drop_left]
    exact List.drop_append_of_le_length (by omega)

theorem exchangeFeedLoop_fed
    (hreads : Reads own peer position exchange) (hnew : exchange.state ≠ .new)
    (hfaulted : exchange.state ≠ .faulted) (hwithin : position ≤ written.length)
    (hdata : data = ((written ++ application).drop position).take size) (consumed : ℕ)
    (output : List UInt8) :
    Fed own peer written position exchange consumed output
      (exchangeFeedLoop capacity rounds exchange data consumed output) := by
  induction rounds generalizing exchange data position size consumed output with
  | zero => exact .stay hreads hwithin hnew
  | succ rounds ih =>
    by_cases hdone : data = [] ∨ exchange.state = .complete
    · rw [exchangeFeedLoop, if_pos (by simpa using hdone)]
      exact .stay hreads hwithin hnew
    obtain ⟨hsome, hcomplete⟩ := not_or.mp hdone
    have hmore : (written ++ application).drop position ≠ [] := by
      intro hnil
      apply hsome
      rw [hdata, hnil, List.take_nil]
    cases hreads with
    | new => exact absurd rfl hnew
    | faulted => exact absurd rfl hfaulted
    | complete => exact absurd rfl hcomplete
    | waitHello result hposition =>
      obtain ⟨hvalid, hlong, tail, hstream⟩ :=
        stream_hello hwritten happlication hposition hmore
      obtain ⟨copied, hbound, hrest, hloop⟩ :=
        exchangeFeedLoop_packet hstream hposition rfl hcomplete hdata hsome consumed output
      rw [hloop]
      split_ifs with hopen
      · refine Fed.after (ih (.waitHello result hopen) hnew hfaulted (by omega) hrest _ _) ?_
        exact fun _ => rfl
      · have hfull : position + copied = handshakePacketSize := by omega
        change Fed own peer written position _ consumed output (afterReceive capacity rounds _ _
          (exchangeReceive (own.exchange .waitHello result (helloPacket peer))
            capacity output))
        rcases @exchangeReceive_hello own peer capacity hvalid result output with
          ⟨status, kept, packet, hfailed, hreceive⟩ | ⟨haccepts, hack, hreceive⟩
        · rw [hreceive, afterReceive_failed hfailed]
          exact .refused (by omega)
        · rw [hreceive]
          have hnext := @ih (own.exchange .waitAck (agreed own peer) []) _ _ _
            (.waitAck 0 haccepts hfull (by decide)) ExchangeState.noConfusion
            ExchangeState.noConfusion (by omega) hrest (consumed + copied) (ackPacket own peer)
          obtain ⟨taken, hconsumed, hinside, hnow⟩ := hnext.taken
          refine ⟨⟨copied + taken, ?_, by omega, by rwa [← Nat.add_assoc]⟩, hnext.started, ?_⟩
          · rw [← Nat.add_assoc]
            exact hconsumed
          rcases hnext.answered with ⟨hsame, hwait⟩ | ⟨hwait, _⟩
          · exact Or.inr ⟨rfl, fun h => ExchangeState.noConfusion (hwait h), haccepts, hack, hsame⟩
          · cases hwait
    | waitAck count haccepts hposition hcount =>
      subst hposition
      obtain ⟨hvalid, hlong, hstream⟩ := stream_ack hwritten happlication hcount hmore
      obtain ⟨copied, hbound, hrest, hloop⟩ :=
        exchangeFeedLoop_packet hstream hcount rfl hcomplete hdata hsome consumed output
      rw [hloop]
      split_ifs with hopen
      · refine Fed.after (ih (.waitAck (count + copied) haccepts (by omega) hopen) hnew hfaulted
          (by omega) hrest _ _) ?_
        exact id
      · change Fed own peer written (handshakePacketSize + count) _ consumed output
          (afterReceive capacity rounds _ _
            (exchangeReceive (own.exchange .waitAck (agreed own peer) (ackPacket peer own))
              capacity output))
        rcases @exchangeReceive_ack own peer capacity hvalid output with
          ⟨status, packet, hfailed, hreceive⟩ | hreceive
        · rw [hreceive, afterReceive_failed hfailed]
          exact .refused (by omega)
        · rw [hreceive]
          refine Fed.after (ih (.complete _ haccepts (by omega)) ExchangeState.noConfusion
            ExchangeState.noConfusion (by omega) hrest _ _) ?_
          exact ExchangeState.noConfusion

end Feeding

section Runs

variable {own peer : Party} {endpoint other : Endpoint}

structure Joined (own peer : Party) (endpoint other : Endpoint) : Prop where
  reads : Reads own peer endpoint.consumed endpoint.exchange
  within : endpoint.consumed ≤ other.written.length
  writes : Written own peer endpoint.written endpoint.acknowledged
  sends : ∃ application, endpoint.sent = endpoint.written ++ application ∧
    (endpoint.acknowledged = false → application = [])
  silent : endpoint.exchange.state = .new → endpoint.written = []
  greeted : endpoint.exchange.state = .waitHello →
    endpoint.acknowledged = false ∧ endpoint.written = helloPacket own

theorem Joined.extended {later : Endpoint} (h : Joined own peer endpoint other)
    (hgrown : other.written.length ≤ later.written.length) : Joined own peer endpoint later :=
  { h with within := h.within.trans hgrown }

theorem exchangeStart_cases (exchange : Exchange) (capacity : ℕ) :
    (exchangeStart exchange capacity).2 = (exchange, []) ∨
      exchange.state = .new ∧
        ((exchangeStart exchange capacity).2 = (exchangeFault exchange, []) ∨
          handshakeMessageValidate (helloMessage exchange.config) = .ok ∧
            (exchangeStart exchange capacity).2 =
              ({ exchange with state := .waitHello }, packetOf (helloMessage exchange.config))) := by
  unfold exchangeStart
  split_ifs with hstate
  · exact Or.inl rfl
  refine Or.inr ⟨by simpa using hstate, ?_⟩
  unfold handshakeMakeHello handshakeConfigValidate
  rcases handshakeMessageValidate_cases (helloMessage exchange.config) with hvalid | hvalid <;>
    rw [hvalid]
  · dsimp only [Except.bind]
    cases hencode : handshakeEncode (helloMessage exchange.config) capacity with
    | error status => exact Or.inl rfl
    | ok output =>
      obtain ⟨_, rfl⟩ := handshakeEncode_ok hencode
      exact Or.inr ⟨rfl, rfl⟩
  · exact Or.inl rfl

section

variable (h : Joined own peer endpoint other)

include h

theorem Joined.start (capacity : ℕ) :
    Joined own peer (endpoint.act other.sent (.start capacity)) other := by
  obtain ⟨exchange, sent, written, acknowledged, consumed⟩ := endpoint
  change Joined own peer (Endpoint.write _ (exchangeStart exchange capacity).2.1
    (exchangeStart exchange capacity).2.2) other
  rcases exchangeStart_cases exchange capacity with hsame | ⟨hnew, hfault | ⟨hvalid, hstarted⟩⟩
  · rw [hsame]
    simpa [Endpoint.write] using h
  · rw [hfault]
    obtain ⟨hreads, hwithin, hwrites, hsends, _, _⟩ := h
    dsimp only at hreads
    simp only [Endpoint.write, List.append_nil]
    refine ⟨?_, hwithin, hwrites, hsends, ExchangeState.noConfusion, ExchangeState.noConfusion⟩
    cases hreads <;> exact .faulted _ _
  · rw [hstarted]
    obtain ⟨hreads, hwithin, hwrites, ⟨application, hsent, hnone⟩, hsilent, _⟩ := h
    dsimp only at hreads hwithin hwrites hsent hnone
    obtain rfl : written = [] := hsilent hnew
    -- an endpoint that has written nothing has not sent anything either
    have hquiet : acknowledged = false := by
      cases hwrites with
      | silent => rfl
    obtain rfl : application = [] := hnone hquiet
    cases hreads with
    | new result hposition =>
      subst hposition
      refine ⟨.waitHello result (Nat.zero_lt_succ _), hwithin, ?_, ⟨[], ?_, fun _ => rfl⟩,
        ExchangeState.noConfusion, fun _ => ⟨hquiet, rfl⟩⟩
      · rw [hquiet]
        exact .greeted hvalid
      · change sent ++ helloPacket own = ([] ++ helloPacket own) ++ []
        rw [show sent = [] from hsent]
        simp
    | _ => cases hnew

theorem Joined.feed (hother : Joined peer own other endpoint)
    (size capacity : ℕ) : Joined own peer (endpoint.act other.sent (.feed size capacity)) other := by
  obtain ⟨exchange, sent, written, acknowledged, consumed⟩ := endpoint
  obtain ⟨hreads, hwithin, hwrites, ⟨application, hsent, hnone⟩, hsilent, hgreeted⟩ := h
  dsimp only at hreads hwithin hwrites hsent hnone hsilent hgreeted
  obtain ⟨theirs, htheirs, hquiet⟩ := hother.sends
  unfold Endpoint.act Endpoint.write
  dsimp only
  generalize hcall : exchangeFeed exchange ((other.sent.drop consumed).take size) capacity = fed
  have hfed : fed.exchange = exchange ∧ fed.consumed = 0 ∧ fed.output = [] ∨
      Fed own peer other.written consumed exchange 0 [] fed := by
    rw [← hcall]
    unfold exchangeFeed
    split_ifs with _ hstate
    · exact Or.inl ⟨rfl, rfl, rfl⟩
    · exact Or.inl ⟨rfl, rfl, rfl⟩
    · refine Or.inr (exchangeFeedLoop_fed hother.writes hquiet hreads ?_ ?_ hwithin
        (congrArg (fun stream => (stream.drop consumed).take size) htheirs) 0 [])
      · intro hnew
        simp [hnew] at hstate
      · intro hfaulted
        simp [hfaulted] at hstate
  obtain ⟨status, next, more, output⟩ := fed
  rcases hfed with ⟨rfl, rfl, rfl⟩ | ⟨⟨taken, htaken, hinside, hnow⟩, hstarted, hanswered⟩
  · simpa using Joined.mk hreads hwithin hwrites ⟨application, hsent, hnone⟩ hsilent hgreeted
  · rw [Nat.zero_add] at htaken
    subst htaken
    rcases hanswered with ⟨rfl, hwait⟩ | ⟨hwait, hpast, haccepts, hack, rfl⟩
    · simp only [List.append_nil, List.isEmpty_nil, Bool.not_true, Bool.or_false]
      exact ⟨hnow, hinside, hwrites, ⟨application, hsent, hnone⟩,
        fun hnew => absurd hnew hstarted, fun hstill => hgreeted (hwait hstill)⟩
    · obtain ⟨rfl, rfl⟩ := hgreeted hwait
      obtain rfl : application = [] := hnone rfl
      have hvalid : handshakeMessageValidate (helloMessage own.config) = .ok := by
        generalize hpacket : helloPacket own = packet at hwrites
        cases hwrites with
        | silent =>
          have hlength := congrArg List.length hpacket
          cases hlength
        | greeted hvalid => exact hvalid
      refine ⟨hnow, hinside, ?_, ⟨[], ?_, fun _ => rfl⟩, fun hnew => absurd hnew hstarted,
        fun hstill => absurd hstill hpast⟩
      · exact .answered hvalid haccepts hack
      · rw [hsent, List.append_nil, List.append_nil]

theorem Joined.send (bytes : List UInt8) :
    Joined own peer (endpoint.act other.sent (.send bytes)) other := by
  unfold Endpoint.act
  dsimp only
  split_ifs with hacknowledged
  · obtain ⟨application, hsent, _⟩ := h.sends
    refine { h with sends := ⟨application ++ bytes, ?_, ?_⟩ }
    · rw [hsent, List.append_assoc]
    · intro hnot
      exact absurd (hacknowledged.symm.trans hnot) Bool.noConfusion
  · exact h

theorem Joined.act (hother : Joined peer own other endpoint)
    (action : HostAction) : Joined own peer (endpoint.act other.sent action) other := by
  cases action with
  | start capacity => exact h.start capacity
  | feed size capacity => exact h.feed hother size capacity
  | send bytes => exact h.send bytes

end

theorem written_le_act (endpoint : Endpoint) (stream : List UInt8) (action : HostAction) :
    endpoint.written.length ≤ (endpoint.act stream action).written.length := by
  cases action with
  | start capacity | feed size capacity => exact (List.prefix_append _ _).length_le
  | send bytes =>
    unfold Endpoint.act
    split_ifs <;> exact Nat.le_refl _

def Paired (left right : Party) (connection : Connection) : Prop :=
  Joined left right connection.left connection.right ∧
    Joined right left connection.right connection.left

variable {left right : Party} {connection : Connection}

theorem Paired.step (h : Paired left right connection) (action : Side × HostAction) :
    Paired left right (connection.step action) := by
  obtain ⟨side, action⟩ := action
  cases side with
  | left => exact ⟨h.1.act h.2 action, h.2.extended (written_le_act _ _ action)⟩
  | right => exact ⟨h.1.extended (written_le_act _ _ action), h.2.act h.1 action⟩

theorem Paired.run (h : Paired left right connection) (actions : List (Side × HostAction)) :
    Paired left right (connection.run actions) := by
  induction actions generalizing connection with
  | nil => exact h
  | cons action rest ih => exact ih (h.step action)

theorem exchangeCreate_ok {party : Party} {exchange : Exchange}
    (h : exchangeCreate party.config party.authenticated = .ok exchange) :
    exchange = party.exchange .new emptyResult [] := by
  unfold exchangeCreate handshakeConfigValidate at h
  rcases handshakeMessageValidate_cases (helloMessage party.config) with hvalid | hvalid <;>
    rw [hvalid] at h <;> split_ifs at h
  cases h
  rfl

theorem Joined.new (own peer : Party) (other : Endpoint) :
    Joined own peer (.new (own.exchange .new emptyResult [])) other where
  reads := .new _ rfl
  within := Nat.zero_le _
  writes := .silent
  sends := ⟨[], rfl, fun _ => rfl⟩
  silent _ := rfl
  greeted := ExchangeState.noConfusion

end Runs

structure Mirrored (left right : HandshakeConfig) (l r : NegotiationResult) : Prop where
  local_ids : l.localNodeId = left.localNodeId ∧ r.localNodeId = right.localNodeId
  peer_ids : l.peerNodeId = r.localNodeId ∧ r.peerNodeId = l.localNodeId
  incarnations : l.peerProcessIncarnation = right.processIncarnation.bytes ∧
    r.peerProcessIncarnation = left.processIncarnation.bytes
  epochs : l.peerConfigEpoch = right.configEpoch ∧ r.peerConfigEpoch = left.configEpoch
  cluster : l.clusterId = r.clusterId
  wire : l.wireMajor = r.wireMajor ∧ l.wireMinor = r.wireMinor
  features : l.featureBits = r.featureBits
  frames : l.maxFrameSize = min left.maxFrameSize.toNat right.maxFrameSize.toNat ∧
    r.maxFrameSize = l.maxFrameSize
  chunks : l.maxSnapshotChunkSize =
      min left.maxSnapshotChunkSize.toNat right.maxSnapshotChunkSize.toNat ∧
    r.maxSnapshotChunkSize = l.maxSnapshotChunkSize

theorem uint16_toNat_min (a b : UInt16) : (min a b).toNat = min a.toNat b.toNat := by
  change (if a ≤ b then a else b).toNat = _
  split_ifs with h <;> rw [UInt16.le_iff_toNat_le] at h <;> omega

theorem uint32_toNat_min (a b : UInt32) : (min a b).toNat = min a.toNat b.toNat := by
  change (if a ≤ b then a else b).toNat = _
  split_ifs with h <;> rw [UInt32.le_iff_toNat_le] at h <;> omega

theorem negotiated_mirrored {left right : Party} (h : Accepts left right) :
    Mirrored left.config right.config
      { (negotiated left.config (helloMessage right.config)).2 with complete := true }
      { (negotiated right.config (helloMessage left.config)).2 with complete := true } where
  local_ids := ⟨rfl, rfl⟩
  peer_ids := ⟨rfl, rfl⟩
  incarnations := ⟨rfl, rfl⟩
  epochs := ⟨rfl, rfl⟩
  cluster := (handshakeNegotiate_ok h).2.2.symm
  wire := by
    simp only [negotiated, uint16_toNat_min]
    exact ⟨Nat.min_comm _ _, Nat.min_comm _ _⟩
  features := UInt64.and_comm _ _
  frames := by
    simp only [negotiated, uint32_toNat_min]
    exact ⟨rfl, Nat.min_comm _ _⟩
  chunks := by
    simp only [negotiated, uint32_toNat_min]
    exact ⟨rfl, Nat.min_comm _ _⟩

/-- Every byte that a side has consumed is one that the other side's exchange has written. -/
def ConsumesHandshake (reader writer : Endpoint) : Prop :=
  reader.consumed ≤ writer.written.length ∧
    writer.sent.take reader.consumed = writer.written.take reader.consumed

variable {own peer : Party} {endpoint other : Endpoint}

theorem Joined.consumes (h : Joined own peer endpoint other)
    (hother : Joined peer own other endpoint) : ConsumesHandshake endpoint other := by
  obtain ⟨application, hsent, _⟩ := hother.sends
  refine ⟨h.within, ?_⟩
  rw [hsent, List.take_append_of_le_length h.within]

/-- A complete side has accepted the other's hello, and the other has accepted its own: no more
than the hello is written before that. -/
theorem Joined.complete (h : Joined own peer endpoint other)
    (hother : Joined peer own other endpoint) (hcomplete : endpoint.exchange.state = .complete) :
    Accepts own peer ∧ Accepts peer own ∧
      exchangeGetResult endpoint.exchange =
        .ok { agreed own peer with complete := true } := by
  obtain ⟨exchange, sent, written, acknowledged, consumed⟩ := endpoint
  obtain ⟨hreads, hwithin, _, _, _, _⟩ := h
  have hwrites := hother.writes
  dsimp only at hreads hwithin hcomplete
  cases hreads with
  | complete packet haccepts hposition =>
    refine ⟨haccepts, ?_, rfl⟩
    have hlength : (helloPacket peer).length = handshakePacketSize := packetOf_length _
    generalize other.written = theirs, other.acknowledged = theirAck at hwrites hwithin
    cases hwrites with
    | silent =>
      rw [hposition] at hwithin
      exact absurd hwithin (by decide)
    | greeted =>
      rw [hlength, hposition] at hwithin
      exact absurd hwithin (by decide)
    | answered _ hpeer _ => exact hpeer
  | _ => cases hcomplete

theorem Accepts.corresponds (h : Accepts own peer) :
    peer.config.localNodeId = own.authenticated ∧ peer.config.clusterId = own.config.clusterId :=
  (handshakeNegotiate_ok h).2

/-- In every run of two exchanges, both sides that complete have mirrored results, no byte of an
application is consumed, and neither side completes unless the cluster and the authenticated
identities correspond. -/
theorem handshake_agreement {left right : Party} {leftExchange rightExchange : Exchange}
    (hleft : exchangeCreate left.config left.authenticated = .ok leftExchange)
    (hright : exchangeCreate right.config right.authenticated = .ok rightExchange)
    {connection : Connection} {actions : List (Side × HostAction)}
    (hrun : (Connection.mk (.new leftExchange) (.new rightExchange)).run actions = connection) :
    (connection.left.exchange.state = .complete → connection.right.exchange.state = .complete →
      ∃ l r, exchangeGetResult connection.left.exchange = .ok l ∧
        exchangeGetResult connection.right.exchange = .ok r ∧
        Mirrored left.config right.config l r) ∧
    ConsumesHandshake connection.left connection.right ∧
    ConsumesHandshake connection.right connection.left ∧
    (left.config.clusterId ≠ right.config.clusterId ∨
        left.authenticated ≠ right.config.localNodeId ∨
        right.authenticated ≠ left.config.localNodeId →
      connection.left.exchange.state ≠ .complete ∧
        connection.right.exchange.state ≠ .complete) := by
  obtain rfl := exchangeCreate_ok hleft
  obtain rfl := exchangeCreate_ok hright
  have hpaired : Paired left right connection := by
    rw [← hrun]
    exact Paired.run ⟨.new left right _, .new right left _⟩ actions
  obtain ⟨hl, hr⟩ := hpaired
  refine ⟨?_, hl.consumes hr, hr.consumes hl, ?_⟩
  · intro hleftComplete hrightComplete
    obtain ⟨haccepts, _, hleftResult⟩ := hl.complete hr hleftComplete
    obtain ⟨_, _, hrightResult⟩ := hr.complete hl hrightComplete
    exact ⟨_, _, hleftResult, hrightResult, negotiated_mirrored haccepts⟩
  · intro hdiffer
    have hno : ¬ (Accepts left right ∧ Accepts right left) := by
      rintro ⟨hforth, hback⟩
      obtain ⟨hnode, hcluster⟩ := hforth.corresponds
      rcases hdiffer with hcase | hcase | hcase
      · exact hcase hcluster.symm
      · exact hcase hnode.symm
      · exact hcase hback.corresponds.1.symm
    constructor
    · intro hcomplete
      obtain ⟨hforth, hback, _⟩ := hl.complete hr hcomplete
      exact hno ⟨hforth, hback⟩
    · intro hcomplete
      obtain ⟨hback, hforth, _⟩ := hr.complete hl hcomplete
      exact hno ⟨hforth, hback⟩

def sampleConfig (node : NodeId) (extra : UInt32) : HandshakeConfig :=
  { clusterId := ⟨List.replicate 16 1, sixteen_ones⟩
    localNodeId := node
    processIncarnation := ⟨List.replicate 16 2, rfl⟩
    configEpoch := 9
    featureBits := 0
    wireMajorMin := 1
    wireMajorMax := 1
    wireMinorMin := 0
    wireMinorMax := 0
    maxFrameSize := UInt32.ofNat RaftWire.maxFrameSize + extra
    maxSnapshotChunkSize := UInt32.ofNat maxSnapshotChunkBytes + extra }

/-- Both sides start; the right one reads the hello in two pieces and answers, with application
bytes behind the acknowledgement, which the left one gets in one piece. -/
def sampleActions : List (Side × HostAction) :=
  [(.left, .start 88), (.right, .start 88), (.right, .feed 3 88), (.right, .feed 500 88),
    (.right, .send [7, 7]), (.left, .feed 500 88), (.right, .feed 500 88)]

theorem sample_handshake_agrees :
    ∃ connection : Connection, connection.left.consumed = 176 ∧ connection.right.sent.length = 178 ∧
      ∃ l r, exchangeGetResult connection.left.exchange = .ok l ∧
        exchangeGetResult connection.right.exchange = .ok r ∧
        Mirrored (sampleConfig 1 0) (sampleConfig 2 5) l r := by
  let left : Party := ⟨sampleConfig 1 0, 2⟩
  let right : Party := ⟨sampleConfig 2 5, 1⟩
  have hleft : exchangeCreate left.config left.authenticated =
      .ok ⟨left.config, left.authenticated, .new, emptyResult, []⟩ := by decide +kernel
  have hright : exchangeCreate right.config right.authenticated =
      .ok ⟨right.config, right.authenticated, .new, emptyResult, []⟩ := by decide +kernel
  refine ⟨_, ?_, ?_, (handshake_agreement hleft hright (Eq.refl (Connection.run _ sampleActions))).1
    ?_ ?_⟩
  all_goals decide +kernel

end RaftHandshakeAgreement
