import TurboRaft.RaftDataStream
import TurboRaft.RaftQuorum

/-! # A proposed stream is durable on every quorum

A durable acknowledgement comes only from a sink that has committed a stream of its size and
digest. So a complete sender has a committed copy at its peer, and the marks of the tracker name
members with a committed copy. The tracker's count is the quorum test of the membership, and two
quorums meet. -/
namespace RaftDataDurability

open RaftTypes RaftConfiguration RaftConfigurationLemmas RaftMembership RaftWire RaftQuorum
open RaftDataStream Executions Function

variable {sha : List UInt8 → Digest}

/-- What a stream is told apart by: who leads it, its number and what has to be in it. -/
structure StreamName where
  leaderId : NodeId
  term : ℕ
  streamId : UInt64
  size : ℕ
  digest : Digest

section Sinks

variable {calls more : List SinkCall} {name : StreamName}

def stagedName (sha : List UInt8 → Digest) (stream : StagedStream) : StreamName :=
  ⟨stream.leaderId, stream.term, stream.streamId, stream.bytes.length, sha stream.bytes⟩

def Keeps (sha : List UInt8 → Digest) (calls : List SinkCall) (name : StreamName) : Prop :=
  ∃ stream ∈ committedStreams calls, stagedName sha stream = name

theorem sinkAfter_append (calls more : List SinkCall) :
    sinkAfter (calls ++ more) = more.foldl sinkStep (sinkAfter calls) :=
  List.foldl_append

theorem sinkStep_committed (sink : SinkState) (call : SinkCall) :
    sink.committed <+: (sinkStep sink call).committed := by
  unfold sinkStep
  split
  · exact List.prefix_rfl
  · exact List.prefix_rfl
  · exact List.prefix_append _ _
  · exact List.prefix_rfl

theorem foldl_sinkStep_committed (sink : SinkState) (more : List SinkCall) :
    sink.committed <+: (more.foldl sinkStep sink).committed := by
  induction more generalizing sink with
  | nil => exact List.prefix_rfl
  | cons call rest ih => exact (sinkStep_committed sink call).trans (ih _)

theorem Keeps.append (h : Keeps sha calls name) (more : List SinkCall) :
    Keeps sha (calls ++ more) name := by
  obtain ⟨stream, hmem, hstream⟩ := h
  refine ⟨stream, ?_, hstream⟩
  rw [committedStreams, sinkAfter_append]
  exact (foldl_sinkStep_committed _ more).subset hmem

theorem Keeps.update {sinks : NodeId → List SinkCall} {node other : NodeId}
    (h : Keeps sha (sinks other) name) (more : List SinkCall) :
    Keeps sha (update sinks node (sinks node ++ more) other) name := by
  by_cases heq : other = node
  · rw [heq, update_self]
    exact (heq ▸ h).append more
  · rwa [update_of_ne heq]

end Sinks

section Receivers

variable {calls : List SinkCall} {r : DataReceiver} {c : DataChunk} {answers : ReceiverAnswers}
  {before : List SinkCall}

def receiverName (r : DataReceiver) : StreamName :=
  ⟨r.leaderId, r.term, r.streamId, r.streamSize, r.digest⟩

def ackName (ack : DataAck) : StreamName :=
  ⟨ack.toId, ack.term, ack.streamId, ack.streamSize, ack.streamDigest⟩

def Staged (calls : List SinkCall) (r : DataReceiver) : Prop :=
  (sinkAfter calls).staged = some ⟨r.leaderId, r.term, r.streamId, r.hashed⟩ ∧
    r.hashed.length = r.nextOffset

/-- An open transfer has written what it has hashed, and a committed one is in the sink. -/
structure Written (sha : List UInt8 → Digest) (calls : List SinkCall) (r : DataReceiver) : Prop where
  idle : r.active = false → r.nextOffset = 0 ∧ r.committed = false
  staged : r.active = true → r.committed = false → Staged calls r
  kept : r.active = true → r.committed = true → Keeps sha calls (receiverName r)

def AckKept (sha : List UInt8 → Digest) (calls : List SinkCall) (ack : DataAck) : Prop :=
  ack.durable = true → Keeps sha calls (ackName ack)

/-- What a call leaves behind, after the calls of the sink before it. -/
structure Answered (sha : List UInt8 → Digest) (before : List SinkCall) (r : DataReceiver)
    (handled : Handled) : Prop where
  config : handled.receiver.config = r.config
  from_self : handled.ack.fromId = r.config.selfId
  written : Written sha (before ++ handled.calls) handled.receiver
  ack : AckKept sha (before ++ handled.calls) handled.ack

theorem Written.of_idle (h : r.active = false) (hoffset : r.nextOffset = 0)
    (hcommitted : r.committed = false) : Written sha calls r :=
  ⟨fun _ => ⟨hoffset, hcommitted⟩, fun hactive => absurd (h.symm.trans hactive) Bool.noConfusion,
    fun hactive => absurd (h.symm.trans hactive) Bool.noConfusion⟩

theorem giveUp_answered {status : Status} {ack : DataAck}
    (hself : ack.fromId = r.config.selfId) (hack : ack.durable = false) :
    Answered sha before r (giveUp status ack r calls) :=
  ⟨rfl, hself, .of_idle rfl rfl rfl, fun htrue => absurd (hack.symm.trans htrue) Bool.noConfusion⟩

theorem answered_same {handled : Handled}
    (h : Written sha (before ++ handled.calls) r) (hsame : handled.receiver = r)
    (hself : handled.ack.fromId = r.config.selfId) (hack : handled.ack.durable = false) :
    Answered sha before r handled :=
  ⟨by rw [hsame], hself, hsame.symm ▸ h,
    fun htrue => absurd (hack.symm.trans htrue) Bool.noConfusion⟩

theorem receiverFinish_answered {before : List SinkCall} {ack : DataAck}
    (hself : ack.fromId = r.config.selfId) (hdurable : ack.durable = false)
    (hactive : r.active = true) (hsize : r.nextOffset = r.streamSize)
    (hstaged : Staged (before ++ calls) r) (hnamed : ackName ack = receiverName r) :
    Answered sha before r (receiverFinish sha r ack answers calls) := by
  unfold receiverFinish
  split_ifs with hdigest hcommit
  · exact giveUp_answered hself hdurable
  · exact giveUp_answered hself hdurable
  have hsha : sha r.hashed = r.digest := by
    simp only [Bool.or_eq_true, Bool.not_eq_true', bne_iff_ne, ne_eq, not_or, not_not] at hdigest
    exact hdigest.2
  have hkept : Keeps sha (before ++ (calls ++ [.commit answers.commit])) (receiverName r) := by
    refine ⟨⟨r.leaderId, r.term, r.streamId, r.hashed⟩, ?_, ?_⟩
    · rw [← List.append_assoc, committedStreams, sinkAfter_append, not_not.mp hcommit]
      simp [sinkStep, hstaged.1]
    · rw [stagedName, receiverName, hstaged.2, hsize, hsha]
  refine ⟨rfl, hself, ⟨fun hidle => ?_, fun _ hopen => Bool.noConfusion hopen, fun _ _ => hkept⟩,
    fun _ => hnamed ▸ hkept⟩
  exact absurd (hactive.symm.trans hidle) Bool.noConfusion

theorem staged_write (hstaged : Staged before r)
    (data : List UInt8) (answer : Status) (hok : data.length = 0 ∨ answer = .ok) :
    (sinkAfter (before ++
        if data.length != 0 then [.write r.nextOffset data answer] else [])).staged =
      some ⟨r.leaderId, r.term, r.streamId, r.hashed ++ data⟩ := by
  by_cases hempty : data.length = 0
  · obtain rfl := List.length_eq_zero_iff.mp hempty
    simpa using hstaged.1
  · rw [if_pos (by simpa using hempty), hok.resolve_left hempty, sinkAfter_append]
    simp [sinkStep, hstaged.1, hstaged.2]

theorem receiverTake_answered {before : List SinkCall} (hwritten : Written sha (before ++ calls) r)
    (hactive : r.active = true) (hforeign : chunkForeign r c = false)
    (hmalformed : chunkMalformed r c = false) :
    Answered sha before r (receiverTake sha r c answers calls) := by
  have hnamed : ackName (blankAck r c) = receiverName r := by
    simp only [chunkForeign, Bool.or_eq_false_iff, bne_eq_false_iff_eq] at hforeign
    obtain ⟨⟨⟨⟨hleader, hterm⟩, hid⟩, hsize⟩, hdigest⟩ := hforeign
    rw [receiverName, hleader, hterm, hid, hsize, hdigest]
    rfl
  unfold receiverTake
  by_cases hcommitted : r.committed = true
  · rw [if_pos hcommitted]
    exact ⟨rfl, rfl, hwritten, fun _ => hnamed ▸ hwritten.kept hactive hcommitted⟩
  have hstaged := hwritten.staged hactive (by simpa using hcommitted)
  have hnow := staged_write hstaged c.data answers.write
  rw [List.append_assoc] at hnow
  generalize (if (c.data.length != 0) = true then [SinkCall.write r.nextOffset c.data answers.write]
    else []) = writes at hnow ⊢
  split_ifs with hold hgap hhash hwrite hmore
  · exact answered_same hwritten rfl rfl rfl
  · exact answered_same hwritten rfl rfl rfl
  · exact giveUp_answered rfl rfl
  · exact giveUp_answered rfl rfl
  all_goals
    have hnow := hnow (by
      by_contra hno
      push Not at hno
      exact hwrite (by simpa using hno))
    have hlength : (r.hashed ++ c.data).length = r.nextOffset + c.data.length := by
      rw [List.length_append, hstaged.2]
  · refine ⟨rfl, rfl, ⟨fun hidle => ?_, fun _ _ => ⟨hnow, hlength⟩, fun _ htrue => ?_⟩,
      fun htrue => Bool.noConfusion htrue⟩
    · exact absurd (hactive.symm.trans hidle) Bool.noConfusion
    · exact absurd htrue hcommitted
  · have hdone : r.nextOffset + c.data.length = r.streamSize := by
      simp only [chunkMalformed, Bool.or_eq_false_iff, bne_eq_false_iff_eq] at hmalformed
      have hend := hmalformed.2
      rw [Bool.not_eq_true', Bool.not_eq_false] at hmore
      rw [hmore] at hend
      have hoffset : c.streamOffset = r.nextOffset := by simpa using hgap
      have hsize : c.streamSize = r.streamSize := congrArg StreamName.size hnamed
      rw [← hsize, ← hoffset]
      exact beq_iff_eq.mp hend.symm
    have hend := @receiverFinish_answered sha (calls ++ writes)
      { r with hashed := r.hashed ++ c.data, nextOffset := r.nextOffset + c.data.length } answers
      before { blankAck r c with nextOffset := r.nextOffset + c.data.length, accepted := true }
      rfl rfl hactive hdone ⟨hnow, hlength⟩ hnamed
    exact ⟨hend.config, hend.from_self, hend.written, hend.ack⟩

theorem receiverHandle_answered (hwritten : Written sha calls r) (c : DataChunk)
    (answers : ReceiverAnswers) : Answered sha calls r (receiverHandle sha r c answers) := by
  have hsame : Written sha (calls ++ []) r := by rwa [List.append_nil]
  unfold receiverHandle
  by_cases hmalformed : chunkMalformed r c = true
  · rw [if_pos hmalformed]
    exact answered_same hsame rfl rfl rfl
  rw [if_neg hmalformed]
  by_cases hactive : r.active = true
  · rw [hactive, Bool.not_true, if_neg Bool.false_ne_true]
    split_ifs with hforeign
    · exact answered_same hsame rfl rfl rfl
    · exact receiverTake_answered hsame hactive (by simpa using hforeign) (by simpa using hmalformed)
  have hidle := hwritten.idle (by simpa using hactive)
  rw [if_pos (by simpa using hactive)]
  split_ifs with hoffset
  · exact answered_same hsame rfl rfl rfl
  unfold receiverOpen
  split_ifs with hreset hbegin
  · exact ⟨rfl, rfl, .of_idle (by simpa using hactive) hidle.1 hidle.2,
      fun htrue => Bool.noConfusion htrue⟩
  · exact ⟨rfl, rfl, .of_idle rfl rfl rfl, fun htrue => Bool.noConfusion htrue⟩
  · have htaken := @receiverTake_answered sha
      [.begin c.fromId c.term c.streamId c.streamSize c.streamDigest answers.begin]
      { r with
        leaderId := c.fromId
        term := c.term
        streamId := c.streamId
        streamSize := c.streamSize
        digest := c.streamDigest
        hashed := []
        active := true } c answers calls
      ⟨fun h => Bool.noConfusion h, fun _ _ => ⟨?_, hidle.1.symm⟩, fun _ htrue => ?_⟩ rfl
      (by simp [chunkForeign]) (by simpa [chunkMalformed] using hmalformed)
    · exact ⟨htaken.config, htaken.from_self, htaken.written, htaken.ack⟩
    · rw [not_not.mp hbegin, sinkAfter_append]
      rfl
    · exact absurd (hidle.2.symm.trans htrue) Bool.noConfusion

end Receivers

section Senders

variable {s s' : DataSender} {bytes : List UInt8}

def senderName (s : DataSender) : StreamName :=
  ⟨s.config.selfId, s.term, s.streamId, s.size, s.digest⟩

structure SameStream (s s' : DataSender) : Prop where
  config : s'.config = s.config
  active : s'.active = s.active
  name : senderName s' = senderName s

/-- The transfer goes on and is not complete by itself. -/
structure GoesOn (s s' : DataSender) : Prop extends SameStream s s' where
  complete : s'.complete = s.complete

theorem senderNext_same (s : DataSender) (answer : Except Status (List UInt8)) :
    GoesOn s (senderNext s answer).2 := by
  unfold senderNext
  dsimp only
  split_ifs
  · exact ⟨⟨rfl, rfl, rfl⟩, rfl⟩
  cases senderFindFreeSlot s with
  | none => exact ⟨⟨rfl, rfl, rfl⟩, rfl⟩
  | some slot =>
    cases senderRead s (min (s.size - s.nextOffset) s.config.chunkSize) answer with
    | error status => exact ⟨⟨rfl, rfl, rfl⟩, rfl⟩
    | ok data =>
      dsimp only
      split_ifs <;> exact ⟨⟨rfl, rfl, rfl⟩, rfl⟩

theorem senderCancel_same (s : DataSender) (offset : ℕ) : GoesOn s (senderCancel s offset).2 := by
  unfold senderCancel
  cases s.claims.getLast? with
  | none => exact ⟨⟨rfl, rfl, rfl⟩, rfl⟩
  | some claim =>
    dsimp only
    split_ifs <;> exact ⟨⟨rfl, rfl, rfl⟩, rfl⟩

theorem senderResume_same (s : DataSender) : GoesOn s (senderResume s).2 := by
  unfold senderResume
  split_ifs <;> exact ⟨⟨rfl, rfl, rfl⟩, rfl⟩

theorem senderAcknowledge_same (s : DataSender) (ack : DataAck) :
    SameStream s (senderAcknowledge s ack).2 ∧
      ((senderAcknowledge s ack).2.complete = true → s.complete = true ∨
        (s.active = true ∧ ackForeign s ack = false ∧ ack.durable = true)) := by
  unfold senderAcknowledge
  dsimp only
  split_ifs with hidle hforeign hrefused hwrong hbehind hboundary hend hweak hearly
  · exact ⟨⟨rfl, rfl, rfl⟩, Or.inl⟩
  · exact ⟨⟨rfl, rfl, rfl⟩, Or.inl⟩
  · exact ⟨⟨rfl, rfl, rfl⟩, Or.inl⟩
  · obtain ⟨hsame, hcomplete⟩ := senderResume_same { s with acknowledgedOffset := ack.nextOffset }
    exact ⟨⟨hsame.config, hsame.active, hsame.name⟩, fun htrue => Or.inl (hcomplete.symm.trans htrue)⟩
  · exact ⟨⟨rfl, rfl, rfl⟩, Or.inl⟩
  · exact ⟨⟨rfl, rfl, rfl⟩, Or.inl⟩
  · exact ⟨⟨rfl, rfl, rfl⟩, Or.inl⟩
  · exact ⟨⟨rfl, rfl, rfl⟩, fun _ => Or.inr ⟨by simpa using hidle, by simpa using hforeign,
      by simpa using hweak⟩⟩
  · exact ⟨⟨rfl, rfl, rfl⟩, Or.inl⟩
  · exact ⟨⟨rfl, rfl, rfl⟩, Or.inl⟩

end Senders

def durableMask (quorum : DataQuorum) : ℕ :=
  maskOf quorum.config.configuration.members.length fun i => quorum.durable.getD i false

theorem dataVoters_eq (quorum : DataQuorum) (flag : UInt8) :
    dataVoters quorum flag = (roleCount quorum.config.configuration flag,
      roleAcks quorum.config.configuration flag (durableMask quorum)) := by
  have hfold : ∀ (count : ℕ × ℕ → ConfMember × ℕ → ℕ × ℕ), (∀ a b m, count (a, b) m =
      if hasRole m.1.roles flag then (a + 1, b + if quorum.durable.getD m.2 false then 1 else 0)
      else (a, b)) → ∀ (members : List (ConfMember × ℕ)) (a b : ℕ), members.foldl count (a, b) =
      (a + members.countP (fun m => hasRole m.1.roles flag),
        b + members.countP fun m => hasRole m.1.roles flag && quorum.durable.getD m.2 false) := by
    intro count hcount members
    induction members with
    | nil => exact fun _ _ => rfl
    | cons member rest ih =>
      intro a b
      rw [List.foldl_cons, hcount, List.countP_cons, List.countP_cons]
      by_cases hrole : hasRole member.1.roles flag = true
      · rw [if_pos hrole, ih, if_pos hrole, hrole, Bool.true_and]
        exact Prod.ext (by dsimp only; omega) (by dsimp only; omega)
      · rw [if_neg hrole, ih, if_neg hrole, if_neg (by simp [hrole])]
        rfl
  unfold dataVoters roleCount roleAcks
  rw [hfold _ fun _ _ _ => rfl, Nat.zero_add, Nat.zero_add]
  refine Prod.ext ?_ (List.countP_congr fun m hm => ?_)
  · have hfst : quorum.config.configuration.members.zipIdx.map Prod.fst =
        quorum.config.configuration.members := by simp
    conv_rhs => rw [← hfst, List.countP_map]
    rfl
  · obtain ⟨hlt, _⟩ := List.getElem?_eq_some_iff.mp (List.mem_zipIdx_iff_getElem?.mp hm)
    rw [durableMask, testBit_maskOf, decide_eq_true hlt, Bool.true_and]

theorem dataQuorumReady_eq {quorum : DataQuorum}
    (h : confValidate quorum.config.configuration = .ok) :
    dataQuorumReady quorum =
      membershipHasQuorum quorum.config.configuration (durableMask quorum) := by
  obtain ⟨hsome, hmax, _⟩ := confValidate_members h
  unfold dataQuorumReady membershipHasQuorum
  rw [dataVoters_eq, dataVoters_eq, if_neg (by simp [hmax, List.length_eq_zero_iff.not.mp hsome])]
  rfl

theorem dataMemberIndex_some {configuration : Conf} {nodeId : NodeId} {index : ℕ}
    (h : dataMemberIndex configuration nodeId = some index) :
    (memberIds configuration)[index]? = some nodeId := by
  obtain ⟨hlt, hname, _⟩ := List.findIdx?_eq_some_iff_getElem.mp h
  rw [memberIds, List.getElem?_map, List.getElem?_eq_getElem hlt]
  exact congrArg some (beq_iff_eq.mp hname)

section Worlds

variable {w w' : StreamWorld}
  {quorum : DataQuorum} {peer : NodeId} {bytes : List UInt8} {ack : DataAck}

structure SenderSafe (sha : List UInt8 → Digest) (calls : List SinkCall) (bytes : List UInt8)
    (peer : NodeId) (s : DataSender) : Prop where
  peer : s.config.peerId = peer
  stream : s.active = true → (senderName s).digest = sha bytes
  complete : s.complete = true → s.active = true ∧ Keeps sha calls (senderName s)

def trackedName (config : DataQuorumConfig) : StreamName :=
  ⟨config.selfId, config.term, config.descriptor.streamId, config.descriptor.streamSize,
    config.descriptor.streamDigest⟩

def DurableAt (sha : List UInt8 → Digest) (w : StreamWorld) (config : DataQuorumConfig)
    (nodeId : NodeId) : Prop :=
  Keeps sha (w.sinks nodeId) (trackedName config) ∨ Keeps sha (w.locals nodeId) (trackedName config)

structure TrackerSafe (sha : List UInt8 → Digest) (w : StreamWorld) (quorum : DataQuorum) : Prop where
  valid : confValidate quorum.config.configuration = .ok
  marked : ∀ i, quorum.durable.getD i false = true →
    ∃ id, (memberIds quorum.config.configuration)[i]? = some id ∧
      DurableAt sha w quorum.config id

structure StreamSafe (sha : List UInt8 → Digest) (w : StreamWorld) : Prop where
  senders : ∀ peer s, w.senders peer = some s → SenderSafe sha (w.sinks peer) (w.begun peer) peer s
  receivers : ∀ node r, w.receivers node = some r →
    r.config.selfId = node ∧ Written sha (w.sinks node) r
  acks : ∀ ack ∈ w.acks, AckKept sha (w.sinks ack.fromId) ack
  quorum : ∀ quorum, w.quorum = some quorum → TrackerSafe sha w quorum

theorem SenderSafe.same {calls : List SinkCall} {s s' : DataSender}
    (h : SenderSafe sha calls bytes peer s) (hsame : SameStream s s')
    (hcomplete : s'.complete = true → s.complete = true ∨
      Keeps sha calls (senderName s) ∧ s.active = true) :
    SenderSafe sha calls bytes peer s' := by
  refine ⟨hsame.config ▸ h.peer, fun hactive => ?_, fun htrue => ?_⟩
  · rw [hsame.name]
    exact h.stream (hsame.active ▸ hactive)
  · rw [hsame.active, hsame.name]
    rcases hcomplete htrue with hbefore | ⟨hkept, hactive⟩
    · exact h.complete hbefore
    · exact ⟨hactive, hkept⟩

theorem SenderSafe.goesOn {calls : List SinkCall} {s s' : DataSender}
    (h : SenderSafe sha calls bytes peer s) (hgoes : GoesOn s s') :
    SenderSafe sha calls bytes peer s' :=
  h.same hgoes.toSameStream fun htrue => Or.inl (hgoes.complete ▸ htrue)

theorem StreamSafe.setSender (h : StreamSafe sha w) {peer : NodeId} {sender : Option DataSender}
    {bytes : List UInt8}
    (hsafe : ∀ s, sender = some s → SenderSafe sha (w.sinks peer) bytes peer s) :
    StreamSafe sha { w with
      senders := update w.senders peer sender
      begun := update w.begun peer bytes } := by
  refine ⟨fun other s hs => ?_, h.receivers, h.acks, fun q hq => ⟨(h.quorum q hq).valid,
    (h.quorum q hq).marked⟩⟩
  dsimp only at hs ⊢
  by_cases heq : other = peer
  · subst heq
    rw [update_self] at hs ⊢
    exact hsafe s hs
  · rw [update_of_ne heq] at hs ⊢
    exact h.senders other s hs

theorem StreamSafe.withSender (h : StreamSafe sha w) {call : DataSender → DataSender}
    (hcall : ∀ s, SenderSafe sha (w.sinks peer) (w.begun peer) peer s →
      SenderSafe sha (w.sinks peer) (w.begun peer) peer (call s)) :
    StreamSafe sha (w.withSender peer call) := by
  have hset := @StreamSafe.setSender sha w h peer ((w.senders peer).map call) (w.begun peer)
    fun s hs => by
      obtain ⟨before, hbefore, rfl⟩ := Option.map_eq_some_iff.mp hs
      exact hcall before (h.senders peer before hbefore)
  rwa [update_eq_self] at hset

theorem StreamSafe.grow (h : StreamSafe sha w) {node : NodeId} {receiver : DataReceiver}
    {calls : List SinkCall} {acks : List DataAck} (hself : receiver.config.selfId = node)
    (hwritten : Written sha (w.sinks node ++ calls) receiver)
    (hacks : ∀ ack ∈ acks, ack.fromId = node ∧ AckKept sha (w.sinks node ++ calls) ack) :
    StreamSafe sha { w with
      receivers := update w.receivers node (some receiver)
      sinks := update w.sinks node (w.sinks node ++ calls)
      acks := w.acks ++ acks } := by
  refine ⟨fun peer s hs => ?_, fun other r hr => ?_, fun ack hack hdurable => ?_, fun q hq => ?_⟩
  · have hsender := h.senders peer s hs
    exact ⟨hsender.peer, hsender.stream, fun htrue =>
      ⟨(hsender.complete htrue).1, (hsender.complete htrue).2.update calls⟩⟩
  · dsimp only at hr ⊢
    by_cases heq : other = node
    · subst heq
      rw [update_self] at hr ⊢
      obtain rfl := Option.some.inj hr
      exact ⟨hself, hwritten⟩
    · rw [update_of_ne heq] at hr ⊢
      exact h.receivers other r hr
  · rcases List.mem_append.mp hack with hold | hnew
    · exact (h.acks ack hold hdurable).update calls
    · obtain ⟨hfrom, hkept⟩ := hacks ack hnew
      dsimp only
      rw [hfrom, update_self]
      exact hkept hdurable
  · refine ⟨(h.quorum q hq).valid, fun i hi => ?_⟩
    obtain ⟨id, hid, hkept | hkept⟩ := (h.quorum q hq).marked i hi
    · exact ⟨id, hid, Or.inl (hkept.update calls)⟩
    · exact ⟨id, hid, Or.inr hkept⟩

theorem TrackerSafe.mark (h : TrackerSafe sha w quorum) {nodeId : NodeId}
    (hdurable : DurableAt sha w quorum.config nodeId) :
    TrackerSafe sha w (quorum.mark nodeId).2 := by
  unfold DataQuorum.mark
  cases hindex : dataMemberIndex quorum.config.configuration nodeId with
  | none => exact h
  | some index =>
    refine ⟨h.valid, fun i hi => ?_⟩
    by_cases heq : i = index
    · subst heq
      exact ⟨nodeId, dataMemberIndex_some hindex, hdurable⟩
    · refine h.marked i ?_
      rwa [List.getD_eq_getElem?_getD, List.getElem?_set_ne (Ne.symm heq),
        ← List.getD_eq_getElem?_getD] at hi

theorem StreamSafe.setQuorum (h : StreamSafe sha w)
    (hsafe : TrackerSafe sha w quorum) : StreamSafe sha { w with quorum := some quorum } := by
  refine ⟨h.senders, h.receivers, h.acks, fun q hq => ?_⟩
  obtain rfl := Option.some.inj hq
  exact ⟨hsafe.valid, hsafe.marked⟩

theorem senderBeginSource_cases (s : DataSender) (term : ℕ) (streamId : UInt64)
    (source : DataSource) :
    ((senderBeginSource s term streamId source).1 ≠ .ok ∧
      (senderBeginSource s term streamId source).2 = s) ∨
    ((senderBeginSource s term streamId source).1 = .ok ∧
      (senderBeginSource s term streamId source).2.config = s.config ∧
      (senderBeginSource s term streamId source).2.digest = source.digest ∧
      (senderBeginSource s term streamId source).2.complete = false) := by
  unfold senderBeginSource
  split_ifs
  · exact Or.inl ⟨Status.noConfusion, rfl⟩
  · exact Or.inl ⟨Status.noConfusion, rfl⟩
  · exact Or.inr ⟨rfl, rfl, rfl, rfl⟩

variable (h : StreamSafe sha w)

include h

theorem StreamSafe.beginWith {call : DataSender → Status × DataSender}
    (hcall : ∀ s, ((call s).1 ≠ .ok ∧ (call s).2 = s) ∨
      ((call s).1 = .ok ∧ (call s).2.config = s.config ∧ (call s).2.digest = sha bytes ∧
        (call s).2.complete = false)) :
    StreamSafe sha (w.beginWith peer bytes call) := by
  unfold StreamWorld.beginWith
  cases hsender : w.senders peer with
  | none => exact h
  | some sender =>
    have hsafe := h.senders peer sender hsender
    dsimp only
    rcases hcall sender with ⟨hfailed, hsame⟩ | ⟨hok, hconfig, hdigest, hcomplete⟩
    · have hset := @StreamSafe.setSender sha w h peer (some sender) (w.begun peer)
        fun s hs => Option.some.inj hs ▸ hsafe
      rw [update_eq_self] at hset
      generalize call sender = result at hfailed hsame
      obtain ⟨status, after⟩ := result
      subst hsame
      cases status <;> first | exact hset | exact absurd rfl hfailed
    · generalize call sender = result at hok hconfig hdigest hcomplete
      obtain ⟨status, after⟩ := result
      subst hok
      refine h.setSender fun s hs => ?_
      obtain rfl := Option.some.inj hs
      exact ⟨hconfig ▸ hsafe.peer, fun _ => hdigest,
        fun htrue => absurd (hcomplete.symm.trans htrue) Bool.noConfusion⟩

theorem StreamSafe.acknowledge (hack : ack ∈ w.acks) (peer : NodeId) :
    StreamSafe sha (w.withSender peer fun sender => (senderAcknowledge sender ack).2) := by
  refine h.withSender fun s hs => ?_
  obtain ⟨hsame, hcomplete⟩ := senderAcknowledge_same s ack
  refine hs.same hsame fun htrue => (hcomplete htrue).imp id ?_
  rintro ⟨hactive, hforeign, hdurable⟩
  simp only [ackForeign, Bool.or_eq_false_iff, bne_eq_false_iff_eq] at hforeign
  obtain ⟨⟨⟨⟨⟨⟨hfrom, hto⟩, hterm⟩, hid⟩, hsize⟩, hdigest⟩, _⟩ := hforeign
  have hkept := h.acks ack hack hdurable
  rw [ackName, hfrom, hs.peer, hto, hterm, hid, hsize, hdigest] at hkept
  exact ⟨hkept, hactive⟩

theorem StreamSafe.trackAck (hack : ack ∈ w.acks) (hquorum : w.quorum = some quorum) :
    StreamSafe sha { w with quorum := some (dataQuorumAcknowledge quorum ack).2 } := by
  have hsafe := h.quorum quorum hquorum
  refine h.setQuorum ?_
  unfold dataQuorumAcknowledge
  split_ifs with hwrong
  · exact hsafe
  simp only [Bool.or_eq_true, bne_iff_ne, ne_eq, not_or, not_not, Bool.not_eq_true',
    Bool.not_eq_false] at hwrong
  obtain ⟨⟨⟨⟨⟨⟨⟨hto, hterm⟩, hid⟩, hsize⟩, _⟩, _⟩, hdurable⟩, hdigest⟩ := hwrong
  have hkept := h.acks ack hack hdurable
  rw [ackName, hto, hterm, hid, hsize, hdigest] at hkept
  exact hsafe.mark (Or.inl hkept)

theorem StreamSafe.markLocal
    (hquorum : w.quorum = some quorum) (hstaged : stagedLocally sha w quorum.config = true) :
    StreamSafe sha { w with quorum := some (dataQuorumMarkLocalDurable quorum).2 } := by
  obtain ⟨stream, hmem, hstream⟩ := List.any_eq_true.mp hstaged
  simp only [Bool.and_eq_true, beq_iff_eq] at hstream
  obtain ⟨⟨⟨⟨hleader, hterm⟩, hid⟩, hsize⟩, hdigest⟩ := hstream
  refine h.setQuorum ((h.quorum quorum hquorum).mark (Or.inr ⟨stream, hmem, ?_⟩))
  rw [stagedName, trackedName, hleader, hterm, hid, hsize, hdigest]

theorem streamStep_safe {event : StreamEvent}
    (hstep : streamStep sha w event = some w') : StreamSafe sha w' := by
  cases event with
  | createSender config =>
    simp only [streamStep] at hstep
    split at hstep
    next sender hcreate =>
      cases hstep
      have hset := @StreamSafe.setSender sha w h config.peerId (some sender) (w.begun config.peerId)
        fun s hs => by
          obtain rfl := Option.some.inj hs
          unfold senderCreate at hcreate
          split_ifs at hcreate
          cases hcreate
          exact ⟨rfl, Bool.noConfusion, Bool.noConfusion⟩
      rwa [update_eq_self] at hset
    next => cases hstep
  | begin peer term streamId bytes =>
    cases hstep
    refine h.beginWith fun s => ?_
    unfold senderBegin
    split_ifs
    · exact Or.inl ⟨Status.noConfusion, rfl⟩
    · exact senderBeginSource_cases s term streamId _
  | beginSource peer term streamId bytes =>
    cases hstep
    exact h.beginWith fun s => senderBeginSource_cases s term streamId _
  | next peer answer =>
    cases hstep
    exact h.withSender fun s hs => hs.goesOn (senderNext_same s answer)
  | cancel peer offset =>
    cases hstep
    exact h.withSender fun s hs => hs.goesOn (senderCancel_same s offset)
  | resume peer =>
    cases hstep
    exact h.withSender fun s hs => hs.goesOn (senderResume_same s)
  | resetSender peer =>
    cases hstep
    exact h.withSender fun s hs => ⟨hs.peer, Bool.noConfusion, Bool.noConfusion⟩
  | acknowledge peer ack =>
    simp only [streamStep] at hstep
    split_ifs at hstep with hack
    cases hstep
    exact h.acknowledge hack peer
  | createReceiver config =>
    simp only [streamStep] at hstep
    split at hstep
    next receiver hcreate =>
      cases hstep
      have hnew : receiver.config = config ∧ receiver.active = false ∧ receiver.nextOffset = 0 ∧
          receiver.committed = false := by
        unfold receiverCreate at hcreate
        split_ifs at hcreate
        cases hcreate
        exact ⟨rfl, rfl, rfl, rfl⟩
      have hgrown := @StreamSafe.grow sha w h config.selfId receiver [] []
        (congrArg DataReceiverConfig.selfId hnew.1) (.of_idle hnew.2.1 hnew.2.2.1 hnew.2.2.2)
        fun _ hack => by cases hack
      rwa [List.append_nil, update_eq_self, List.append_nil] at hgrown
    next => cases hstep
  | handle node chunk answers =>
    simp only [streamStep] at hstep
    split at hstep
    next => cases hstep
    next receiver hreceiver =>
      cases hstep
      obtain ⟨hself, hwritten⟩ := h.receivers node receiver hreceiver
      have hanswered := receiverHandle_answered hwritten chunk answers
      refine h.grow (hanswered.config ▸ hself) hanswered.written fun ack hack => ?_
      obtain rfl := List.mem_singleton.mp hack
      exact ⟨hanswered.from_self.trans hself, hanswered.ack⟩
  | resetReceiver node =>
    simp only [streamStep] at hstep
    split at hstep
    next => cases hstep
    next receiver hreceiver =>
      cases hstep
      have hgrown := @StreamSafe.grow sha w h node (receiverClear receiver).1
        (receiverClear receiver).2 [] (h.receivers node receiver hreceiver).1
        (.of_idle rfl rfl rfl) fun _ hack => by cases hack
      rwa [List.append_nil] at hgrown
  | stage node calls =>
    cases hstep
    refine ⟨h.senders, h.receivers, h.acks, fun q hq => ⟨(h.quorum q hq).valid, fun i hi => ?_⟩⟩
    obtain ⟨id, hid, hkept | hkept⟩ := (h.quorum q hq).marked i hi
    · exact ⟨id, hid, Or.inl hkept⟩
    · exact ⟨id, hid, Or.inr (hkept.update calls)⟩
  | createQuorum config =>
    simp only [streamStep] at hstep
    split at hstep
    next quorum hcreate =>
      cases hstep
      refine h.setQuorum ?_
      unfold dataQuorumCreate at hcreate
      split_ifs at hcreate with hinvalid
      simp only [Bool.or_eq_true, bne_iff_ne, ne_eq, not_or, not_not] at hinvalid
      split at hcreate
      next => cases hcreate
      next =>
        split_ifs at hcreate
        cases hcreate
        refine ⟨hinvalid.2, fun i hi => ?_⟩
        rw [List.getD_eq_getElem?_getD, List.getElem?_replicate] at hi
        split_ifs at hi <;> cases hi
    next => cases hstep
  | markLocalDurable =>
    simp only [streamStep] at hstep
    split at hstep
    next => cases hstep
    next quorum hquorum =>
      split_ifs at hstep with hstaged
      cases hstep
      exact h.markLocal hquorum hstaged
  | quorumAcknowledge ack =>
    simp only [streamStep] at hstep
    split at hstep
    next => cases hstep
    next quorum hquorum =>
      split_ifs at hstep with hack
      cases hstep
      exact h.trackAck hack hquorum

end Worlds

/-- The node has committed exactly these bytes under the name of the stream. -/
def CommittedAt (w : StreamWorld) (nodeId leaderId : NodeId) (term : ℕ) (streamId : UInt64)
    (bytes : List UInt8) : Prop :=
  ⟨leaderId, term, streamId, bytes⟩ ∈ committedStreams (w.sinks nodeId) ∨
    ⟨leaderId, term, streamId, bytes⟩ ∈ committedStreams (w.locals nodeId)

def CollisionFree (sha : List UInt8 → Digest) (w : StreamWorld) (bytes : List UInt8) : Prop :=
  ∀ nodeId, ∀ stream ∈ committedStreams (w.sinks nodeId) ++ committedStreams (w.locals nodeId),
    sha stream.bytes = sha bytes → stream.bytes = bytes

theorem Keeps.exact {calls : List SinkCall} {name : StreamName} {bytes : List UInt8}
    (h : Keeps sha calls name) (hdigest : name.digest = sha bytes)
    (hfree : ∀ stream ∈ committedStreams calls, sha stream.bytes = sha bytes → stream.bytes = bytes) :
    ⟨name.leaderId, name.term, name.streamId, bytes⟩ ∈ committedStreams calls := by
  obtain ⟨⟨_, _, _, data⟩, hmem, rfl⟩ := h
  have hbytes : data = bytes := hfree _ hmem hdigest
  rwa [← hbytes]

/-- In every state of every run, a complete sender's stream has been committed by the sink of its
peer, byte for byte; and when the tracker makes a proposal, every quorum of its configuration has a
member that has committed the stream. -/
theorem data_stream_durable (run : Execution (streamSystem sha)) {k : ℕ} (hk : k ≤ run.length) :
    (∀ peer s, (run.state k).senders peer = some s → s.complete = true →
      CollisionFree sha (run.state k) ((run.state k).begun peer) →
      ⟨s.config.selfId, s.term, s.streamId, (run.state k).begun peer⟩ ∈
        committedStreams ((run.state k).sinks peer)) ∧
    ∀ quorum commandId proposal bytes, (run.state k).quorum = some quorum →
      dataQuorumMakeProposal quorum commandId = .ok proposal →
      quorum.config.descriptor.streamDigest = sha bytes →
      CollisionFree sha (run.state k) bytes →
      ∀ acknowledgements,
        membershipHasQuorum quorum.config.configuration acknowledgements = true →
        ∃ i id, (memberIds quorum.config.configuration)[i]? = some id ∧
          acknowledgements.testBit i = true ∧
          CommittedAt (run.state k) id quorum.config.selfId quorum.config.term
            quorum.config.descriptor.streamId bytes := by
  have hmeets : run.Meets fun _ _ => True := fun _ _ => trivial
  have hinit : StreamSafe sha (streamSystem sha).init :=
    ⟨by simp [streamSystem, StreamWorld.empty], by simp [streamSystem, StreamWorld.empty],
      by simp [streamSystem, StreamWorld.empty], by simp [streamSystem, StreamWorld.empty]⟩
  have hsafe : StreamSafe sha (run.state k) := run.invariant hmeets (StreamSafe sha) hinit
    (fun _ _ _ h _ hstep => streamStep_safe h hstep) k hk
  constructor
  · intro peer s hs hcomplete hfree
    obtain ⟨hactive, hkept⟩ := (hsafe.senders peer s hs).complete hcomplete
    exact hkept.exact ((hsafe.senders peer s hs).stream hactive)
      fun stream hmem => hfree peer stream (List.mem_append_left _ hmem)
  · intro quorum commandId proposal bytes hquorum hproposal hdigest hfree acks hacks
    have htracker := hsafe.quorum quorum hquorum
    have hready : dataQuorumReady quorum = true := by
      unfold dataQuorumMakeProposal at hproposal
      split_ifs at hproposal with hzero hbusy
      simpa using hbusy
    rw [dataQuorumReady_eq htracker.valid] at hready
    -- The marked members and the given quorum are both quorums of one configuration.
    have hmarked : ConfQuorum quorum.config.configuration
        {id | DurableAt sha (run.state k) quorum.config id} := by
      refine membershipHasQuorum_sound hready fun i id hid hbit => ?_
      rw [durableMask, testBit_maskOf, Bool.and_eq_true] at hbit
      obtain ⟨other, hother, hdurable⟩ := htracker.marked i hbit.2
      obtain rfl := Option.some.inj (hid.symm.trans hother)
      exact hdurable
    have hgiven : ConfQuorum quorum.config.configuration
        {id | ∃ i, (memberIds quorum.config.configuration)[i]? = some id ∧ acks.testBit i = true} :=
      membershipHasQuorum_sound hacks fun i id hid hbit => ⟨i, hid, hbit⟩
    obtain ⟨id, _, hdurable, i, hid, hbit⟩ := hmarked.1.meet hgiven.1
    refine ⟨i, id, hid, hbit, ?_⟩
    rcases hdurable with hkept | hkept
    · exact Or.inl (hkept.exact hdigest fun stream hmem =>
        hfree id stream (List.mem_append_left _ hmem))
    · exact Or.inr (hkept.exact hdigest fun stream hmem =>
        hfree id stream (List.mem_append_right _ hmem))

def firstBytes (bytes : List UInt8) : Digest :=
  ⟨(bytes ++ List.replicate digestSize 1).take digestSize, digest_of_head bytes⟩

def sampleAnswers : ReceiverAnswers :=
  { hashReset := true
    begin := .ok
    hashUpdate := true
    write := .ok
    hashFinish := true
    commit := .ok }

def sampleChunk (offset : ℕ) (data : List UInt8) : DataChunk :=
  { fromId := 1
    toId := 2
    term := 4
    streamId := 9
    streamOffset := offset
    streamSize := 3
    streamDigest := firstBytes [10, 20, 30]
    data
    done := offset + data.length == 3 }

def sampleAck (nextOffset : ℕ) (durable : Bool) : DataAck :=
  { fromId := 2
    toId := 1
    term := 4
    streamId := 9
    streamSize := 3
    nextOffset
    streamDigest := firstBytes [10, 20, 30]
    accepted := true
    durable }

def sampleTracker : DataQuorumConfig :=
  { selfId := 1
    term := 4
    configuration :=
      { phase := .final
        transitionId := 0
        members := [⟨1, confVoterRoles⟩, ⟨2, confVoterRoles⟩, ⟨3, confVoterRoles⟩] }
    descriptor := { streamId := 9, streamSize := 3, streamDigest := firstBytes [10, 20, 30] } }

/-- The stream goes to one of two peers, whose first chunk comes twice, and into the leader's own
sink. -/
def sampleEvents : List StreamEvent :=
  [.createSender ⟨1, 2, 100, 2, 2⟩, .createReceiver ⟨2, 100⟩, .begin 2 4 9 [10, 20, 30],
    .next 2 (.error .eio), .next 2 (.error .eio), .handle 2 (sampleChunk 0 [10, 20]) sampleAnswers,
    .handle 2 (sampleChunk 0 [10, 20]) sampleAnswers, .handle 2 (sampleChunk 2 [30]) sampleAnswers,
    .acknowledge 2 (sampleAck 3 true), .createQuorum sampleTracker,
    .stage 1 [.begin 1 4 9 3 (firstBytes [10, 20, 30]) .ok, .write 0 [10, 20, 30] .ok, .commit .ok],
    .markLocalDurable, .quorumAcknowledge (sampleAck 3 true)]

def sampleRun : Execution (streamSystem firstBytes) :=
  Execution.ofEvents _ sampleEvents (by decide +kernel)

theorem sample_free : CollisionFree firstBytes (sampleRun.state 13) [10, 20, 30] := by
  intro nodeId stream hstream _
  have hsinks : nodeId ≠ 2 → (sampleRun.state 13).sinks nodeId = [] := by
    intro hne
    change update (update (update (fun _ => []) 2 _) 2 _) 2 _ nodeId = []
    rw [update_of_ne hne, update_of_ne hne, update_of_ne hne]
  have hlocals : nodeId ≠ 1 → (sampleRun.state 13).locals nodeId = [] := by
    intro hne
    change update (fun _ => []) 1 _ nodeId = []
    rw [update_of_ne hne]
  have hpeer : committedStreams ((sampleRun.state 13).sinks 2) = [⟨1, 4, 9, [10, 20, 30]⟩] := by
    decide +kernel
  have hself : committedStreams ((sampleRun.state 13).locals 1) = [⟨1, 4, 9, [10, 20, 30]⟩] := by
    decide +kernel
  rcases List.mem_append.mp hstream with hmem | hmem
  · by_cases hnode : nodeId = 2
    · rw [hnode, hpeer, List.mem_singleton] at hmem
      rw [hmem]
    · rw [hsinks hnode] at hmem
      cases hmem
  · by_cases hnode : nodeId = 1
    · rw [hnode, hself, List.mem_singleton] at hmem
      rw [hmem]
    · rw [hlocals hnode] at hmem
      cases hmem

/-- The sender is complete, and nodes 2 and 3 without the leader still have the stream. -/
theorem sample_stream_durable :
    (∃ s, (sampleRun.state 13).senders 2 = some s ∧ s.complete = true ∧
      ⟨s.config.selfId, s.term, s.streamId, [10, 20, 30]⟩ ∈
        committedStreams ((sampleRun.state 13).sinks 2)) ∧
    ∃ quorum proposal, (sampleRun.state 13).quorum = some quorum ∧
      dataQuorumMakeProposal quorum 7 = .ok proposal ∧
      ∃ i id, (memberIds quorum.config.configuration)[i]? = some id ∧
        (6 : ℕ).testBit i = true ∧
        CommittedAt (sampleRun.state 13) id quorum.config.selfId quorum.config.term
          quorum.config.descriptor.streamId [10, 20, 30] := by
  obtain ⟨hsender, htracker⟩ := data_stream_durable sampleRun (le_refl 13)
  obtain ⟨s, hs⟩ := Option.isSome_iff_exists.mp
    (by decide +kernel : ((sampleRun.state 13).senders 2).isSome = true)
  obtain ⟨quorum, hquorum⟩ := Option.isSome_iff_exists.mp
    (by decide +kernel : (sampleRun.state 13).quorum.isSome = true)
  have hcomplete : ∀ s ∈ (sampleRun.state 13).senders 2, s.complete = true := by decide +kernel
  have hproposal : ∀ quorum ∈ (sampleRun.state 13).quorum,
      (dataQuorumMakeProposal quorum 7).isOk = true ∧
      quorum.config.descriptor.streamDigest = firstBytes [10, 20, 30] ∧
      membershipHasQuorum quorum.config.configuration 6 = true := by decide +kernel
  obtain ⟨hok, hdigest, hmajority⟩ := hproposal quorum hquorum
  refine ⟨⟨s, hs, hcomplete s hs, ?_⟩, quorum, ?_⟩
  · have hkept := hsender 2 s hs (hcomplete s hs)
    exact hkept sample_free
  · cases hmade : dataQuorumMakeProposal quorum 7 with
    | error status =>
      rw [hmade] at hok
      cases hok
    | ok proposal =>
      exact ⟨proposal, hquorum, rfl,
        htracker quorum 7 proposal [10, 20, 30] hquorum hmade hdigest sample_free 6 hmajority⟩

end RaftDataDurability
