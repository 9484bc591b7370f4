import TurboRaft.RaftFlowmqOwner
import TurboRaft.RaftTransportSafety

/-! # Isolation of the groups on one peer link

A session survives an answer of the adapter only if it is success or a routing rejection. Two
runs that differ in such an answer make the same deliveries afterwards. -/
namespace RaftGroupIsolation

open RaftTypes ByteFormats RaftWire RaftTransport RaftTransportSafety RaftFlowmqOwner

variable {s : Session} {groupId : UInt64} {peers : List Peer} {r t : Receiver}

section Services

variable {n : ℕ} {sink other : Sink} {peers' : List Peer}

structure AlikePeers (p q : Peer) : Prop where
  identity : p.identity = q.identity
  faulted : p.faulted = q.faulted
  sessions : AlikeSessions p.session q.session

/-- Peer services of two runs after `n` deliveries or more. -/
structure AlikeServices (n : ℕ) (a b : PeerService) : Prop where
  peers : List.Forall₂ AlikePeers a.peers b.peers
  batch : a.maxReceiveBatchItems = b.maxReceiveBatchItems
  frames : a.framesReceived = b.framesReceived
  router : a.router = b.router
  delivered : a.delivered = b.delivered
  beyond : n ≤ a.delivered.length

theorem feedPeer_alike (hsinks : AgreeFrom n sink other) {delivered : List Delivery}
    (hbeyond : n ≤ delivered.length) (identity packet : List UInt8)
    (h : List.Forall₂ AlikePeers peers peers') :
    (feedPeer sink delivered identity packet peers = none ∧
      feedPeer other delivered identity packet peers' = none) ∨
    ∃ status delivered' after after',
      feedPeer sink delivered identity packet peers = some (status, delivered', after) ∧
      feedPeer other delivered identity packet peers' = some (status, delivered', after') ∧
      List.Forall₂ AlikePeers after after' ∧ n ≤ delivered'.length := by
  induction h with
  | nil => exact .inl ⟨rfl, rfl⟩
  | @cons p q peers peers' hpq hrest ih =>
    simp only [feedPeer, hpq.identity, hpq.faulted]
    cases q.identity == identity with
    | true =>
      obtain ⟨hstatus, hsessions, hdelivered, hbeyond'⟩ := transportFeed_alike hsinks packet
        (r := ⟨p.session, delivered⟩) (t := ⟨q.session, delivered⟩) ⟨hpq.sessions, rfl, hbeyond⟩
      rw [← hstatus, ← hdelivered]
      exact .inr ⟨_, _, _, _, rfl, rfl, .cons ⟨rfl, rfl, hsessions⟩ hrest, hbeyond'⟩
    | false =>
      simp only [Bool.false_eq_true, if_false, Option.map_eq_none_iff, Option.map_eq_some_iff]
      obtain ⟨hnone, hnone'⟩ | ⟨status, delivered', after, after', hsome, hsome', hafter, hmore⟩ :=
        ih
      · exact .inl ⟨hnone, hnone'⟩
      · exact .inr ⟨status, delivered', p :: after, q :: after', ⟨_, hsome, rfl⟩, ⟨_, hsome', rfl⟩,
          .cons hpq hafter, hmore⟩

variable {a b : PeerService}

theorem receiveOne_alike (hsinks : AgreeFrom n sink other) (h : AlikeServices n a b)
    (read : RouterRead) :
    Likewise (AlikeServices n) (receiveOne sink a read) (receiveOne other b read) := by
  cases read with
  | failed status => exact ⟨rfl, h⟩
  | message identity packet =>
    obtain ⟨hnone, hnone'⟩ | ⟨status, delivered, after, after', hsome, hsome', hafter, hmore⟩ :=
      feedPeer_alike hsinks h.beyond identity packet h.peers
    · rw [h.delivered] at hnone'
      simp only [receiveOne, hnone, hnone']
      exact ⟨rfl, h⟩
    · rw [h.delivered] at hsome'
      simp only [receiveOne, hsome, hsome']
      exact ⟨rfl, hafter, h.batch, by rw [h.frames], h.router, rfl, hmore⟩

theorem receiveLoop_alike (hsinks : AgreeFrom n sink other) (budget : ℕ) :
    ∀ {a b : PeerService}, AlikeServices n a b →
      Likewise (AlikeServices n) (receiveLoop sink budget a) (receiveLoop other budget b) := by
  induction budget with
  | zero => exact fun h => ⟨rfl, h⟩
  | succ budget ih =>
    intro a b h
    unfold receiveLoop
    rw [h.router]
    cases b.router with
    | nil => exact ⟨rfl, h⟩
    | cons read router =>
      have htaken : AlikeServices n { a with router } { b with router } :=
        ⟨h.peers, h.batch, h.frames, rfl, h.delivered, h.beyond⟩
      obtain ⟨hstatus, hafter⟩ := receiveOne_alike hsinks htaken read
      dsimp only
      generalize receiveOne sink { a with router } read = one at *
      generalize receiveOne other { b with router } read = two at *
      obtain ⟨status, after⟩ := one
      obtain ⟨same, after'⟩ := two
      cases hstatus
      cases status with
      | ok => exact ih hafter
      | _ => exact ⟨rfl, hafter⟩

theorem sendPeers_alike (h : List.Forall₂ AlikePeers peers peers')
    (firstError : Status) (results : List SendResult) :
    Likewise (List.Forall₂ AlikePeers) (sendPeers firstError peers results)
      (sendPeers firstError peers' results) := by
  induction h generalizing firstError results with
  | nil => exact ⟨rfl, .nil⟩
  | @cons p q peers peers' hpq hrest ih =>
    cases results with
    | nil => exact ⟨rfl, .cons hpq hrest⟩
    | cons result results =>
      simp only [sendPeers, hpq.faulted]
      cases q.faulted with
      | true => exact ⟨(ih firstError results).status, .cons hpq (ih firstError results).after⟩
      | false =>
        cases result with
        | failed status =>
          exact ⟨(ih _ results).status, .cons ⟨hpq.identity, rfl, hpq.sessions⟩ (ih _ results).after⟩
        | _ => exact ⟨(ih firstError results).status, .cons hpq (ih firstError results).after⟩

theorem finishStep_alike (hsinks : AgreeFrom n sink other) (h : AlikeServices n a b)
    (budget : ℕ) (results : List SendResult) :
    Likewise (AlikeServices n) (finishStep sink budget a results)
      (finishStep other budget b results) := by
  obtain ⟨hstatus, hafter⟩ := receiveLoop_alike hsinks budget h
  obtain ⟨herror, hpeers⟩ := sendPeers_alike hafter.peers (receiveLoop sink budget a).1 results
  unfold finishStep
  dsimp only
  rw [← hstatus]
  exact ⟨herror, hpeers, hafter.batch, hafter.frames, hafter.router, hafter.delivered,
    hafter.beyond⟩

theorem peerServiceStep_alike (hsinks : AgreeFrom n sink other) (h : AlikeServices n a b)
    (inputs : StepInputs) :
    Likewise (AlikeServices n) (peerServiceStep sink a inputs) (peerServiceStep other b inputs) := by
  have harrived : AlikeServices n { a with router := a.router ++ inputs.arrivals }
      { b with router := b.router ++ inputs.arrivals } :=
    ⟨h.peers, h.batch, h.frames, by rw [h.router], h.delivered, h.beyond⟩
  unfold peerServiceStep
  rw [h.batch]
  split
  · obtain ⟨herror, hpeers⟩ := sendPeers_alike h.peers inputs.pollResult inputs.sendResults
    exact ⟨herror, hpeers, rfl, h.frames, harrived.router, h.delivered, h.beyond⟩
  · rw [h.batch] at harrived
    exact finishStep_alike hsinks harrived _ _

variable {link peerLink : OwnerLink}

theorem passes_alike (hsinks : AgreeFrom n (ownerReceive link) (ownerReceive peerLink))
    (passes : List Pass) :
    ∀ {o o' : LinkOwner}, AlikeServices n o.service o'.service → o.stopping = o'.stopping →
      AlikeServices n (passes.foldl (ownerPass link) o).service
        (passes.foldl (ownerPass peerLink) o').service := by
  induction passes with
  | nil => exact fun h _ => h
  | cons pass passes ih =>
    intro o o' h hstopping
    rw [List.foldl_cons, List.foldl_cons]
    unfold ownerPass
    rw [hstopping]
    obtain ⟨hstatus, hafter⟩ := peerServiceStep_alike hsinks h pass.inputs
    split
    · exact ih h rfl
    · exact ih hafter (by rw [settlePoll, settlePoll, hstatus])

end Services

section Frames

variable {sink : Sink} {r : Receiver} {frame : List UInt8}

def heldFrame (r : Receiver) (frame : List UInt8) : Receiver :=
  let counted := countBytes (beBytes lengthPrefixSize frame.length ++ frame).length r
  { counted with session := holdFrame counted.session frame }

theorem transportFeed_packet (hactive : isActive r.session = true)
    (hlead : r.session.lengthPrefix = []) (hidle : r.session.frame = [])
    (hlow : wireHeaderSize ≤ frame.length) (hhigh : frame.length ≤ RaftWire.maxFrameSize)
    (hmax : frame.length ≤ r.session.maxFrameSize) :
    transportFeed sink r (beBytes lengthPrefixSize frame.length ++ frame) =
      ((dispatchFrame sink (heldFrame r frame)).1, settleFrame sink (heldFrame r frame)) := by
  simp only [transportFeed, hactive, Bool.not_true, Bool.false_eq_true, if_false]
  exact feedLoop_packet (r := countBytes _ r) hlead hidle hlow hhigh hmax _

theorem dispatchFrame_answer (sink : Sink) {metadata : WireMetadata} {body : PayloadBody}
    (hdecode : decodeFrame r.session frame = .ok (metadata, body))
    (hmetadata : metadataRefused r.session metadata body = false) :
    dispatchFrame sink (heldFrame r frame) =
      let settled := settleAnswer (acceptMetadata
        (heldFrame r frame).session metadata) metadata.groupId
        (sink r.delivered ⟨metadata.groupId, body⟩)
      (settled.1,
        { session := settled.2
          delivered := r.delivered ++ [⟨metadata.messageId, metadata.groupId, body⟩] }) := by
  have hdecode' : decodeFrame (heldFrame r frame).session (heldFrame r frame).session.frame =
      .ok (metadata, body) := hdecode
  have hmetadata' : metadataRefused (heldFrame r frame).session metadata body = false := hmetadata
  unfold dispatchFrame
  rw [hdecode']
  simp only [hmetadata', Bool.false_eq_true, if_false]
  rfl

end Frames

section Isolation

variable {link : OwnerLink} {service : PeerService} {identity packet : List UInt8}
  {payload : TransportPayload} {result : Status} {sink : Sink}

def answering (past : List Delivery) (result : Status) (link : OwnerLink) : OwnerLink :=
  { link with
    serviceStep := fun later groupId m =>
      if later = past then result else link.serviceStep later groupId m
    onPayload := link.onPayload.map fun handler later payload =>
      if later = past then result else handler later payload }

/-- The adapter hands the payload to the Service of its group, itself or through the handler. -/
def Routed (link : OwnerLink) (payload : TransportPayload) : Prop :=
  payload.groupId ∈ link.groups ∧ payload.groupId ∈ link.services ∧
    ((∃ m, payload.body = .raft m) ∨ link.onPayload.isSome = true)

/-- The packet is one well-formed frame of the peer with this identity, whose session is active
and between two frames. -/
def WellFormed (service : PeerService) (identity packet : List UInt8) (payload : TransportPayload) :
    Prop :=
  ∃ peer frame metadata,
    service.peers.find? (fun p => p.identity == identity) = some peer ∧
    isActive peer.session = true ∧ peer.session.lengthPrefix = [] ∧ peer.session.frame = [] ∧
    packet = beBytes lengthPrefixSize frame.length ++ frame ∧
    wireHeaderSize ≤ frame.length ∧ frame.length ≤ RaftWire.maxFrameSize ∧
    frame.length ≤ peer.session.maxFrameSize ∧
    decodeFrame peer.session frame = .ok (metadata, payload.body) ∧
    metadataRefused peer.session metadata payload.body = false ∧ metadata.groupId = payload.groupId

/-- The rest of the run when the next message of the batch is this packet and its Service answers
`result`. -/
def laterRun (link : OwnerLink) (service : PeerService) (identity packet : List UInt8)
    (result : Status) (budget : ℕ) (sendResults : List SendResult) (passes : List Pass) :
    PeerService :=
  let link := answering service.delivered result link
  let arrived := { service with router := .message identity packet :: service.router }
  (passes.foldl (ownerPass link)
    (settlePoll (finishStep (ownerReceive link) (budget + 1) arrived sendResults))).service

/-- The session survives the packet, and every later payload is delivered as if the Service had
accepted this one. -/
structure GroupIsolation (link : OwnerLink) (service : PeerService) (identity packet : List UInt8)
    (result : Status) : Prop where
  unfaulted : ∀ peer,
    (receiveOne (ownerReceive (answering service.delivered result link)) service
      (.message identity packet)).2.peers.find? (fun p => p.identity == identity) = some peer →
    peer.session.status.state = .ready
  undisturbed : ∀ budget sendResults passes,
    (laterRun link service identity packet result budget sendResults passes).delivered =
      (laterRun link service identity packet .ok budget sendResults passes).delivered

theorem ownerReceive_answering (hrouted : Routed link payload) (past : List Delivery) :
    ownerReceive (answering past result link) past payload = result := by
  obtain ⟨hgroup, hservice, hkind⟩ := hrouted
  have hgroup' : (answering past result link).groups.contains payload.groupId = true := by
    simpa [answering] using hgroup
  have hservice' : (answering past result link).services.contains payload.groupId = true := by
    simpa [answering] using hservice
  unfold ownerReceive
  simp only [hgroup', hservice', Bool.not_true, Bool.false_eq_true, if_false]
  cases hbody : payload.body with
  | raft m => simp [answering]
  | _ =>
    obtain ⟨m, hm⟩ | hhandler := hkind
    · simp [hbody] at hm
    · obtain ⟨handler, hsome⟩ := Option.isSome_iff_exists.mp hhandler
      simp [answering, hsome]

theorem answering_agree (link : OwnerLink) (past : List Delivery) (one two : Status) :
    AgreeFrom (past.length + 1) (ownerReceive (answering past one link))
      (ownerReceive (answering past two link)) := by
  intro later payload hlater
  have hne : later ≠ past := by
    rintro rfl
    exact absurd hlater (Nat.not_succ_le_self _)
  unfold ownerReceive answering
  cases link.onPayload <;> simp only [Option.map, if_neg hne]

def replacePeer (identity : List UInt8) (updated : Peer) : List Peer → List Peer
  | [] => []
  | peer :: peers =>
    if peer.identity == identity then updated :: peers
    else peer :: replacePeer identity updated peers

theorem feedPeer_found {delivered : List Delivery} {peer : Peer}
    (h : peers.find? (fun p => p.identity == identity) = some peer) :
    let fed := transportFeed sink ⟨peer.session, delivered⟩ packet
    feedPeer sink delivered identity packet peers = some (fed.1, fed.2.delivered,
      replacePeer identity
        { peer with session := fed.2.session, faulted := peer.faulted || fed.1 != .ok } peers) := by
  induction peers with
  | nil => cases h
  | cons first peers ih =>
    rw [List.find?_cons] at h
    unfold feedPeer replacePeer
    cases hfirst : first.identity == identity with simp only [hfirst] at h
    | true =>
      cases h
      rfl
    | false =>
      simp only [Bool.false_eq_true, if_false, ih h]
      rfl

theorem replacePeer_found {peer updated : Peer}
    (h : peers.find? (fun p => p.identity == identity) = some peer)
    (hidentity : updated.identity = peer.identity) :
    (replacePeer identity updated peers).find? (fun p => p.identity == identity) =
      some updated := by
  have hmatch : (updated.identity == identity) = true := by
    rw [hidentity]
    exact List.find?_some (p := fun p : Peer => p.identity == identity) h
  induction peers with
  | nil => cases h
  | cons first peers ih =>
    rw [List.find?_cons] at h
    unfold replacePeer
    cases hfirst : first.identity == identity with
    | true => simp only [if_true, List.find?_cons, hmatch]
    | false =>
      simp only [hfirst] at h
      simp only [Bool.false_eq_true, if_false, List.find?_cons, hfirst, ih h]

theorem replacePeer_alike {one two : Peer} (h : AlikePeers one two) (peers : List Peer) :
    List.Forall₂ AlikePeers (replacePeer identity one peers) (replacePeer identity two peers) := by
  have hrefl (peer : Peer) : AlikePeers peer peer := ⟨rfl, rfl, AlikeSessions.refl _⟩
  induction peers with
  | nil => exact .nil
  | cons first peers ih =>
    unfold replacePeer
    split
    · exact .cons h (List.forall₂_same.mpr fun peer _ => hrefl peer)
    · exact .cons (hrefl first) ih

theorem settleAnswer_ok_iff :
    (settleAnswer s groupId result).1 = .ok ↔ result = .ok ∨
      groupRoutingRejection result = true := by
  cases result <;> simp [settleAnswer, groupRoutingRejection]

theorem settleAnswer_active (hactive : isActive s = true)
    (hanswer : result = .ok ∨ groupRoutingRejection result = true) :
    isActive (settleAnswer s groupId result).2 = true := by
  unfold settleAnswer
  obtain rfl | hrejected := hanswer
  · exact hactive
  · rw [if_pos hrejected]
    exact hactive

theorem settleAnswer_alike (hanswer : result = .ok ∨ groupRoutingRejection result = true) :
    AlikeSessions (resetFrame (settleAnswer s groupId result).2)
      (resetFrame (settleAnswer s groupId .ok).2) := by
  obtain rfl | hrejected := hanswer
  · exact AlikeSessions.refl _
  · refine ⟨countersOf s, ?_⟩
    simp only [settleAnswer, hrejected, if_true]
    rfl

theorem finishStep_next {read : RouterRead} {budget : ℕ}
    {sendResults : List SendResult} (h : (receiveOne sink service read).1 = .ok) :
    finishStep sink (budget + 1) { service with router := read :: service.router } sendResults =
      finishStep sink budget (receiveOne sink service read).2 sendResults := by
  obtain ⟨after, hafter⟩ : ∃ after, receiveOne sink service read = (.ok, after) :=
    ⟨_, Prod.ext h rfl⟩
  have hloop : receiveLoop sink (budget + 1) { service with router := read :: service.router } =
      receiveLoop sink budget after := by
    simp only [receiveLoop, hafter]
  rw [finishStep, hloop, hafter]
  rfl

section

variable (hframe : WellFormed service identity packet payload)

include hframe

theorem wellFormed_feed (hrouted : Routed link payload) :
    ∃ (peer : Peer) (base : Session) (delivery : Delivery),
      service.peers.find? (fun p => p.identity == identity) = some peer ∧ isActive base = true ∧
      ∀ answer,
        let settled := settleAnswer base payload.groupId answer
        transportFeed (ownerReceive (answering service.delivered answer link))
            ⟨peer.session, service.delivered⟩ packet =
          (settled.1,
            { session := if settled.1 = .ok then resetFrame settled.2 else settled.2
              delivered := service.delivered ++ [delivery] }) := by
  obtain ⟨peer, frame, metadata, hfound, hactive, hlead, hidle, rfl, hlow, hhigh, hmax, hdecode,
    hmetadata, hgroup⟩ := hframe
  let start : Receiver := ⟨peer.session, service.delivered⟩
  refine ⟨peer, acceptMetadata (heldFrame start frame).session metadata,
    ⟨metadata.messageId, metadata.groupId, payload.body⟩, hfound, hactive, fun answer => ?_⟩
  have hanswer : ownerReceive (answering service.delivered answer link) service.delivered
      ⟨metadata.groupId, payload.body⟩ = answer := by
    rw [hgroup]
    exact ownerReceive_answering hrouted _
  have hdispatch := dispatchFrame_answer (ownerReceive (answering service.delivered answer link))
    (r := start) hdecode hmetadata
  dsimp only at hdispatch ⊢
  rw [hanswer, hgroup] at hdispatch
  rw [transportFeed_packet (r := start) hactive hlead hidle hlow hhigh hmax, hgroup]
  by_cases hok : (settleAnswer (acceptMetadata (heldFrame start frame).session metadata)
      payload.groupId answer).1 = .ok
  · rw [settleFrame_ok (by rw [hdispatch]; exact hok), hdispatch, if_pos hok]
  · rw [settleFrame_failed (by rw [hdispatch]; exact hok), hdispatch, if_neg hok]

theorem receiveOne_survived (hrouted : Routed link payload) :
    ∃ (peer : Peer) (base : Session) (delivery : Delivery),
      service.peers.find? (fun p => p.identity == identity) = some peer ∧ isActive base = true ∧
      ∀ answer, answer = .ok ∨ groupRoutingRejection answer = true →
        receiveOne (ownerReceive (answering service.delivered answer link)) service
            (.message identity packet) =
          (.ok,
            { service with
              peers := replacePeer identity
                { peer with session := resetFrame (settleAnswer base payload.groupId answer).2 }
                service.peers
              delivered := service.delivered ++ [delivery]
              framesReceived := service.framesReceived + 1 }) := by
  obtain ⟨peer, base, delivery, hfound, hactive, hfed⟩ := wellFormed_feed hframe hrouted
  refine ⟨peer, base, delivery, hfound, hactive, fun answer hanswer => ?_⟩
  have hok : (settleAnswer base payload.groupId answer).1 = .ok := settleAnswer_ok_iff.mpr hanswer
  simp only [receiveOne, feedPeer_found hfound, hfed answer, hok, if_true, bne_self_eq_false,
    Bool.or_false, beq_self_eq_true]

theorem receiveOne_faulted (hrouted : Routed link payload)
      (hanswer : ¬ (result = .ok ∨ groupRoutingRejection result = true)) :
    ∃ peer, (receiveOne (ownerReceive (answering service.delivered result link)) service
        (.message identity packet)).2.peers.find? (fun p => p.identity == identity) = some peer ∧
      peer.session.status.state = .faulted := by
  obtain ⟨peer, base, delivery, hfound, hactive, hfed⟩ := wellFormed_feed hframe hrouted
  have hfailed : (settleAnswer base payload.groupId result).1 ≠ .ok := fun hok =>
    hanswer (settleAnswer_ok_iff.mp hok)
  have hstate : (settleAnswer base payload.groupId result).2.status.state = .faulted := by
    rw [not_or] at hanswer
    simp [settleAnswer, hanswer.1, hanswer.2, faultSession]
  simp only [receiveOne, feedPeer_found hfound, hfed result, if_neg hfailed]
  exact ⟨_, replacePeer_found hfound rfl, hstate⟩

end

/-- The groups on a link are isolated from each other exactly for the answers of a Service that
count as success or as a routing rejection. -/
theorem group_isolation_iff (hframe : WellFormed service identity packet payload)
    (hrouted : Routed link payload) :
    GroupIsolation link service identity packet result ↔
      result = .ok ∨ result = .enoent ∨ result = .eshutdown := by
  have hanswers : (result = .ok ∨ result = .enoent ∨ result = .eshutdown) ↔
      (result = .ok ∨ groupRoutingRejection result = true) := by
    simp [groupRoutingRejection]
  rw [hanswers]
  constructor
  · intro hisolated
    by_contra hanswer
    obtain ⟨peer, hfound, hfaulted⟩ := receiveOne_faulted hframe hrouted hanswer
    rw [hisolated.unfaulted peer hfound] at hfaulted
    cases hfaulted
  · intro hanswer
    obtain ⟨peer, base, delivery, hfound, hactive, hreceive⟩ := receiveOne_survived hframe hrouted
    refine ⟨fun after hafter => ?_, fun budget sendResults passes => ?_⟩
    · rw [hreceive result hanswer] at hafter
      have hupdated := Option.some.inj (hafter.symm.trans (replacePeer_found hfound (by rfl)))
      rw [hupdated]
      exact beq_iff_eq.mp (settleAnswer_active hactive hanswer)
    · -- Both runs go on from services that differ in the counted rejections.
      have hsinks := answering_agree link service.delivered result .ok
      have halike : AlikeServices (service.delivered.length + 1)
          (receiveOne (ownerReceive (answering service.delivered result link)) service
            (.message identity packet)).2
          (receiveOne (ownerReceive (answering service.delivered .ok link)) service
            (.message identity packet)).2 := by
        rw [hreceive result hanswer, hreceive .ok (.inl rfl)]
        have hpeers : AlikePeers
            { peer with session := resetFrame (settleAnswer base payload.groupId result).2 }
            { peer with session := resetFrame (settleAnswer base payload.groupId .ok).2 } :=
          ⟨rfl, rfl, settleAnswer_alike hanswer⟩
        exact ⟨replacePeer_alike hpeers _, rfl, rfl, rfl, rfl, by simp⟩
      obtain ⟨hstatus, hstep⟩ := finishStep_alike hsinks halike budget sendResults
      unfold laterRun
      dsimp only
      rw [finishStep_next (by rw [hreceive result hanswer]),
        finishStep_next (by rw [hreceive .ok (.inl rfl)])]
      exact (passes_alike hsinks passes hstep (by rw [settlePoll, settlePoll, hstatus])).delivered

end Isolation

def otherRequest : Attempt :=
  { payload := { groupId := 8, body := readRequest.payload.body }
    capacity := 4096
    words := readRequest.words }

def requestPackets : List (List UInt8) :=
  (encodeAll sessionOne [readRequest, otherRequest]).map Prod.snd

def firstPacket : List UInt8 := requestPackets.getD 0 []

def sharedLink : OwnerLink :=
  { groups := [7, 8]
    services := [7, 8]
    serviceStep := fun _ _ _ => .ok
    onPayload := none }

def sharedService : PeerService :=
  { peers := [{ identity := [1], session := sessionTwo, faulted := false }]
    maxReceiveBatchItems := 4
    framesReceived := 0
    lastError := .ok
    router := [.message [1] (requestPackets.getD 1 [])]
    delivered := [] }

theorem firstPacket_wellFormed :
    WellFormed sharedService [1] firstPacket readRequest.payload := by
  refine ⟨⟨[1], sessionTwo, false⟩, firstPacket.drop lengthPrefixSize,
    ⟨(endpoint 1 2).clusterId, 7, 1⟩, ?_, ?_, ?_, ?_, ?_, ?_, ?_, ?_, ?_, ?_, ?_⟩
  all_goals decide +kernel

/-- A Service that has no room for the message of its group takes the link of the other group
down with it. -/
theorem saturated_group_stops_link :
    WellFormed sharedService [1] firstPacket readRequest.payload ∧
      Routed sharedLink readRequest.payload ∧
      ((receiveOne (ownerReceive (answering sharedService.delivered .enospc sharedLink)) sharedService
        (.message [1] firstPacket)).2.peers.map fun p => p.session.status.state) = [.faulted] ∧
      ((laterRun sharedLink sharedService [1] firstPacket .enospc 3 [] []).delivered.map
        fun d => d.payload.groupId) = [7] ∧
      ((laterRun sharedLink sharedService [1] firstPacket .ok 3 [] []).delivered.map
        fun d => d.payload.groupId) = [7, 8] := by
  refine ⟨firstPacket_wellFormed, ?_, ?_, ?_, ?_⟩
  · exact ⟨by decide, by decide, .inl ⟨_, rfl⟩⟩
  all_goals decide +kernel

theorem stopped_group_keeps_link :
    GroupIsolation sharedLink sharedService [1] firstPacket .eshutdown :=
  (group_isolation_iff firstPacket_wellFormed ⟨by decide, by decide, .inl ⟨_, rfl⟩⟩).mpr
    (.inr (.inr rfl))

end RaftGroupIsolation
