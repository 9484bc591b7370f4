import TurboRaft.RaftSnapshotSafety
import TurboRaft.RaftTransport

/-! # Snapshot manager

A coordinator keeps the window of a snapshot sender filled, and the manager has one for every peer
and starts the transfers that the leader asks for. The manager is connected to a transport; what
the transport, the sources and the providers answer is a parameter. -/
namespace RaftSnapshotManager

open RaftTypes RaftConfiguration RaftWire RaftTransport RaftSnapshotTransfer RaftSnapshotSafety

structure Turn where
  read : ReadOutcome
  emit : Status

structure Filled where
  status : Status
  sender : Sender
  chunks : List SnapshotChunk

/-- Every turn but the last adds a claim, so there are no more turns than places in the window. -/
def fillWindow (turns : ℕ → Turn) : ℕ → Sender → Filled
  | 0, s => ⟨.ok, s, []⟩
  | fuel + 1, s =>
    match senderNextChunk s (turns fuel).read with
    | (.error status, s) => ⟨if status == .ebusy then .ok else status, s, []⟩
    | (.ok chunk, s) =>
      if (turns fuel).emit != .ok then
        let cancelled := senderCancelChunk s chunk.snapshotOffset
        ⟨if cancelled.1 == .ok then (turns fuel).emit else cancelled.1, cancelled.2, []⟩
      else if s.config.maxInflightChunks ≤ s.claims.length then
        ⟨.ok, s, [chunk]⟩
      else
        let rest := fillWindow turns fuel s
        { rest with chunks := chunk :: rest.chunks }

def fillAfter (turns : ℕ → Turn) : Status × Sender → Filled
  | (.ok, s) => fillWindow turns s.config.maxInflightChunks s
  | (status, s) => ⟨status, s, []⟩

/-- Begins with a copy of the bytes; `memory` is the result of copying and hashing them. -/
def senderBegin (sha : List UInt8 → Digest) (s : Sender) (leaderTerm : ℕ) (point : SnapshotPoint)
    (data : List UInt8) (memory : Status) : Status × Sender :=
  if s.config.maxSnapshotBytes < data.length then
    (.einval, s)
  else if memory != .ok then
    (memory, s)
  else
    senderBeginSource s leaderTerm point.index point.term point.configuration ⟨data, sha data⟩

def coordinatorHandleAck (turns : ℕ → Turn) (s : Sender) (ack : SnapshotAck) : Filled :=
  match senderAcknowledge s ack with
  | (.ok, s) => if s.complete then ⟨.ok, s, []⟩ else fillAfter turns (.ok, s)
  | (status, s) => ⟨status, s, []⟩

def coordinatorResume (turns : ℕ → Turn) (s : Sender) : Filled :=
  fillAfter turns (senderPrepareResume s)

/-- A manager with both a source provider and a buffer provider is refused. -/
inductive Provider where
  | absent
  | source
  | buffer
  deriving DecidableEq, Repr

structure ManagerConfig where
  selfId : NodeId
  groupId : UInt64
  peerNodeIds : List NodeId
  maxSnapshotBytes : ℕ
  maxBufferedSnapshotBytes : ℕ
  snapshotChunkSize : ℕ
  snapshotMaxInflightChunks : ℕ
  provider : Provider
  notifies : Bool
  deriving DecidableEq, Repr

structure ManagedPeer where
  nodeId : NodeId
  sender : Sender
  completionNotified : Bool
  deriving DecidableEq, Repr

structure Manager where
  config : ManagerConfig
  peers : List ManagedPeer
  deriving DecidableEq, Repr

def managerCreate (config : ManagerConfig) : Except Status Manager :=
  if config.selfId == 0 || config.groupId == 0 || config.peerNodeIds.length == 0 ||
      decide (maxVoters - 1 < config.peerNodeIds.length) || config.maxSnapshotBytes == 0 ||
      config.provider == .source && config.maxBufferedSnapshotBytes != 0 ||
      config.provider == .buffer && (config.maxBufferedSnapshotBytes == 0 ||
        decide (config.maxSnapshotBytes < config.maxBufferedSnapshotBytes)) ||
      config.peerNodeIds.any (fun id => id == 0 || id == config.selfId) ||
      !decide (config.peerNodeIds.Pairwise (· < ·)) then
    .error .einval
  else do
    let peers ← config.peerNodeIds.mapM fun id => do
      let sender ← senderCreate ⟨config.selfId, id, config.maxSnapshotBytes,
        config.snapshotChunkSize, config.snapshotMaxInflightChunks⟩
      .ok (ManagedPeer.mk id sender false)
    .ok ⟨config, peers⟩

def findPeer (m : Manager) (peerId : NodeId) : Option ManagedPeer :=
  m.peers.find? (·.nodeId == peerId)

def updatePeer (m : Manager) (peerId : NodeId) (f : ManagedPeer → ManagedPeer) : Manager :=
  { m with peers := m.peers.map fun peer => if peer.nodeId == peerId then f peer else peer }

/-- What a provider hands out. A source that cannot be read has no reader. -/
structure Provided where
  point : SnapshotPoint
  source : SnapshotSource
  readable : Bool

structure HostAnswers where
  provide : Status
  provided : Provided
  memory : Status
  turns : ℕ → Turn
  complete : Status

structure Managed where
  status : Status
  manager : Manager
  chunks : List SnapshotChunk

def noteStarted (m : Manager) (peerId : NodeId) (snapshotIndex : ℕ) (filled : Filled) : Managed :=
  ⟨filled.status, updatePeer m peerId fun peer =>
    { peer with
      sender := filled.sender
      completionNotified := peer.completionNotified &&
        !(filled.sender.active && filled.sender.snapshotIndex == snapshotIndex) }, filled.chunks⟩

def managerBegin (sha : List UInt8 → Digest) (m : Manager) (peerId : NodeId) (leaderTerm : ℕ)
    (point : SnapshotPoint) (data : List UInt8) (host : HostAnswers) : Managed :=
  match findPeer m peerId with
  | none => ⟨.eproto, m, []⟩
  | some peer => noteStarted m peerId point.index
    (fillAfter host.turns (senderBegin sha peer.sender leaderTerm point data host.memory))

def requestMalformed (m : Manager) (request : SnapshotRequest) : Bool :=
  request.peerId == 0 || request.leaderTerm == 0 || request.snapshotIndex == 0 ||
    request.snapshotTerm == 0 || m.config.provider == .absent

/-- The provider's snapshot is not the requested one, or too large. -/
def providedWrong (m : Manager) (request : SnapshotRequest) (p : Provided) : Bool :=
  p.point.index != request.snapshotIndex || p.point.term != request.snapshotTerm ||
    confValidate p.point.configuration != .ok ||
    if m.config.provider == .source then
      !p.readable || decide (m.config.maxSnapshotBytes < p.source.bytes.length)
    else decide (m.config.maxBufferedSnapshotBytes < p.source.bytes.length)

def managerEnqueueRequest (sha : List UInt8 → Digest) (m : Manager) (request : SnapshotRequest)
    (host : HostAnswers) : Managed :=
  if requestMalformed m request then
    ⟨.einval, m, []⟩
  else
    match findPeer m request.peerId with
    | none => ⟨.eproto, m, []⟩
    | some peer =>
      if peer.sender.active && !peer.sender.complete then
        ⟨if peer.sender.snapshotIndex == request.snapshotIndex then .ok else .ebusy, m, []⟩
      else if host.provide != .ok then
        ⟨host.provide, m, []⟩
      else
        let p := host.provided
        if providedWrong m request p then
          ⟨.eproto, m, []⟩
        else
          noteStarted m request.peerId p.point.index (fillAfter host.turns
            (if m.config.provider == .source then
              senderBeginSource peer.sender request.leaderTerm p.point.index p.point.term
                p.point.configuration p.source
            else senderBegin sha peer.sender request.leaderTerm p.point p.source.bytes host.memory))

def managerHandlePayload (m : Manager) (payload : TransportPayload) (host : HostAnswers) :
    Managed :=
  match payload.body with
  | .snapshotAck ack =>
    if payload.groupId != m.config.groupId || ack.toId != m.config.selfId then
      ⟨.eproto, m, []⟩
    else
      match findPeer m ack.fromId with
      | none => ⟨.eproto, m, []⟩
      | some peer =>
        let filled := coordinatorHandleAck host.turns peer.sender ack
        let moved := updatePeer m ack.fromId fun peer => { peer with sender := filled.sender }
        if filled.status != .ok || !filled.sender.complete || peer.completionNotified then
          ⟨filled.status, moved, filled.chunks⟩
        else if m.config.notifies && host.complete != .ok then
          ⟨host.complete, moved, filled.chunks⟩
        else
          ⟨.ok, updatePeer moved ack.fromId fun peer => { peer with completionNotified := true },
            filled.chunks⟩
  | _ => ⟨.eproto, m, []⟩

def managerResume (m : Manager) (peerId : NodeId) (host : HostAnswers) : Managed :=
  match findPeer m peerId with
  | none => ⟨.eproto, m, []⟩
  | some peer =>
    let filled := coordinatorResume host.turns peer.sender
    ⟨filled.status, updatePeer m peerId fun peer => { peer with sender := filled.sender },
      filled.chunks⟩

inductive ManagerCall where
  | begin (peerId : NodeId) (leaderTerm : ℕ) (point : SnapshotPoint) (data : List UInt8)
  | enqueueRequest (request : SnapshotRequest)
  | handlePayload (payload : TransportPayload)
  | resume (peerId : NodeId)

def managerPerform (sha : List UInt8 → Digest) (m : Manager) (host : HostAnswers) :
    ManagerCall → Managed
  | .begin peerId leaderTerm point data => managerBegin sha m peerId leaderTerm point data host
  | .enqueueRequest request => managerEnqueueRequest sha m request host
  | .handlePayload payload => managerHandlePayload m payload host
  | .resume peerId => managerResume m peerId host

def managerRun (sha : List UInt8 → Digest) (m : Manager)
    (calls : List (ManagerCall × HostAnswers)) : Manager :=
  calls.foldl (fun m call => (managerPerform sha m call.2 call.1).manager) m

variable {s : Sender} {m : Manager} {request : SnapshotRequest} {begun : Status × Sender}

def windowless (s : Sender) : Sender :=
  { s with chunkStorage := [], nextOffset := 0, claims := [] }

theorem senderNextChunk_windowless (s : Sender) (outcome : ReadOutcome) :
    windowless (senderNextChunk s outcome).2 = windowless s := by
  unfold senderNextChunk
  dsimp only
  split_ifs
  · rfl
  · rfl
  · split <;> rfl
  · rfl
  · split
    · rfl
    · split <;> rfl

theorem senderCancelChunk_windowless (s : Sender) (offset : ℕ) :
    windowless (senderCancelChunk s offset).2 = windowless s := by
  unfold senderCancelChunk
  split
  · rfl
  · split_ifs <;> rfl

theorem fillWindow_windowless (turns : ℕ → Turn) (fuel : ℕ) (s : Sender) :
    windowless (fillWindow turns fuel s).sender = windowless s := by
  induction fuel generalizing s with
  | zero => rfl
  | succ fuel ih =>
    have hnext := senderNextChunk_windowless s (turns fuel).read
    unfold fillWindow
    split
    next hresult => rwa [hresult] at hnext
    next hresult =>
      rw [hresult] at hnext
      split_ifs
      · exact (senderCancelChunk_windowless _ _).trans hnext
      · exact hnext
      · exact (ih _).trans hnext

/-- The peer has the requested transfer, and every chunk it sends is of the requesting leader. -/
structure Requested (s : Sender) (request : SnapshotRequest) : Prop where
  active : s.active = true
  leaderTerm : s.leaderTerm = request.leaderTerm
  snapshotIndex : s.snapshotIndex = request.snapshotIndex
  snapshotTerm : s.snapshotTerm = request.snapshotTerm
  chunks : ∀ claim, (fillChunk s claim).term = request.leaderTerm

theorem Requested.of_windowless {s' : Sender} (h : Requested s request)
    (hsame : windowless s' = windowless s) : Requested s' request := by
  have hactive := congrArg Sender.active hsame
  have hterm := congrArg Sender.leaderTerm hsame
  have hindex := congrArg Sender.snapshotIndex hsame
  have hpoint := congrArg Sender.snapshotTerm hsame
  exact ⟨hactive.trans h.active, hterm.trans h.leaderTerm, hindex.trans h.snapshotIndex,
    hpoint.trans h.snapshotTerm, fun _ => hterm.trans h.leaderTerm⟩

/-- A transfer that has begun is the one that was asked for. -/
theorem senderBeginSource_requested {point : SnapshotPoint} {source : SnapshotSource}
    (hindex : point.index = request.snapshotIndex) (hterm : point.term = request.snapshotTerm)
    (hbegun : senderBeginSource s request.leaderTerm point.index
      point.term point.configuration source = begun) (h : begun.1 = .ok) :
    Requested begun.2 request := by
  subst hbegun
  unfold senderBeginSource at h ⊢
  split_ifs at h ⊢
  exact ⟨rfl, rfl, hindex, hterm, fun _ => rfl⟩

theorem fillAfter_requested {turns : ℕ → Turn}
    (h : (fillAfter turns begun).status = .ok) (hbegun : begun.1 = .ok → Requested begun.2 request) :
    Requested (fillAfter turns begun).sender request := by
  obtain ⟨status, s⟩ := begun
  cases status with
  | ok => exact (hbegun rfl).of_windowless (fillWindow_windowless _ _ _)
  | _ => exact hbegun h

theorem findPeer_updatePeer {peer : ManagedPeer} {peerId : NodeId} {f : ManagedPeer → ManagedPeer}
    (hfind : findPeer m peerId = some peer) (hf : ∀ p, (f p).nodeId = p.nodeId) :
    findPeer (updatePeer m peerId f) peerId = some (f peer) := by
  have hid := List.find?_some hfind
  have hsame : (fun p : ManagedPeer => p.nodeId == peerId) ∘
      (fun p => if p.nodeId == peerId then f p else p) = (·.nodeId == peerId) := by
    funext p
    simp only [Function.comp_apply]
    split_ifs
    · rw [hf]
    · rfl
  unfold findPeer updatePeer at *
  rw [List.find?_map, hsame, hfind, Option.map_some, if_pos hid]

/-- An unfinished transfer of the requested snapshot index was begun in another term, or for a
snapshot of another term. -/
def otherTransfer (m : Manager) (request : SnapshotRequest) : Bool :=
  !requestMalformed m request && (findPeer m request.peerId).any fun peer =>
    peer.sender.active && !peer.sender.complete &&
      peer.sender.snapshotIndex == request.snapshotIndex &&
      (peer.sender.leaderTerm != request.leaderTerm ||
        peer.sender.snapshotTerm != request.snapshotTerm)

/-- An accepted request is what the peer's transfer is about, unless the manager takes another
transfer of the same snapshot index for it. -/
theorem accepted_request_transferred (sha : List UInt8 → Digest) (m : Manager)
    (request : SnapshotRequest) (host : HostAnswers) :
    ((managerEnqueueRequest sha m request host).status = .ok →
      ∃ peer, findPeer (managerEnqueueRequest sha m request host).manager request.peerId =
        some peer ∧ Requested peer.sender request) ↔ otherTransfer m request = false := by
  unfold managerEnqueueRequest otherTransfer
  cases hmalformed : requestMalformed m request with
  | true => simp
  | false =>
    cases hfind : findPeer m request.peerId with
    | none => simp
    | some peer =>
      simp only [Bool.false_eq_true, if_false, Bool.not_false, Bool.true_and, Option.any_some]
      cases hopen : peer.sender.active && !peer.sender.complete with
      | true =>
        simp only [if_true, hfind, Option.some.injEq, exists_eq_left', Bool.true_and]
        rw [Bool.and_eq_true] at hopen
        constructor
        · intro h
          by_contra hother
          simp only [Bool.not_eq_false, Bool.and_eq_true, beq_iff_eq, Bool.or_eq_true,
            bne_iff_ne] at hother
          have hrequested := h (if_pos (beq_iff_eq.mpr hother.1))
          rcases hother.2 with hterm | hterm
          · exact hterm hrequested.leaderTerm
          · exact hterm hrequested.snapshotTerm
        · intro hsame hok
          split_ifs at hok with hindex
          simp only [hindex, Bool.true_and, Bool.or_eq_false_iff, bne_eq_false_iff_eq] at hsame
          exact ⟨hopen.1, hsame.1, beq_iff_eq.mp hindex, hsame.2, fun _ => hsame.1⟩
      | false =>
        simp only [Bool.false_eq_true, if_false, Bool.false_and, iff_true]
        split_ifs with hprovide hwrong hsource
        · exact fun hok => absurd hok (bne_iff_ne.mp hprovide)
        · exact False.elim
        all_goals
          intro hok
          simp only [providedWrong, Bool.or_eq_true, not_or, bne_iff_ne, not_not] at hwrong
          obtain ⟨⟨⟨hindex, hterm⟩, -⟩, -⟩ := hwrong
          refine ⟨_, findPeer_updatePeer hfind fun _ => rfl, fillAfter_requested hok ?_⟩
        · exact senderBeginSource_requested hindex hterm rfl
        · unfold senderBegin
          split_ifs with hlarge hmemory
          · exact False.elim
          · exact fun hbegun => absurd hbegun (bne_iff_ne.mp hmemory)
          · exact senderBeginSource_requested hindex hterm rfl

def requestOf (leaderTerm : ℕ) : SnapshotRequest := ⟨2, leaderTerm, 5, 1⟩

def providing : HostAnswers :=
  { provide := .ok
    provided := ⟨⟨5, 1, smallTransfer.configuration⟩, ⟨[10, 20], headDigest [10, 20]⟩, true⟩
    memory := .ok
    turns := fun _ => ⟨.bytes 2, .ok⟩
    complete := .ok }

def newManager : Manager :=
  (managerCreate ⟨1, 1, [2], 100, 0, 2, 2, .source, false⟩).toOption.get (by decide)

/-- The leader of term 3 asks for the snapshot that the transfer of term 2 is still about. -/
theorem request_of_later_term_unheeded :
    let held := managerRun headDigest newManager [(.enqueueRequest (requestOf 2), providing)]
    let again := managerEnqueueRequest headDigest held (requestOf 3) providing
    again.status = .ok ∧ (findPeer again.manager 2).map (·.sender.leaderTerm) = some 2 := by
  decide +kernel

end RaftSnapshotManager
