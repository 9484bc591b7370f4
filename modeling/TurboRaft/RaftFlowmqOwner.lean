import TurboRaft.RaftTransport

/-! # One peer link for many groups

An owner polls a FlowMQ service with one transport session per peer. The sessions hand every
decoded payload to the owner adapter, which routes it to the Service of its group. The answers of
the Services are parameters that see all payloads delivered before. The outbound side of the
service shows in its results only. -/
namespace RaftFlowmqOwner

open RaftTypes RaftTransport

/-- The groups bound to the link, those of them the owner runs a Service for, and what the Services
and the handler for other payloads answer. -/
structure OwnerLink where
  groups : List UInt64
  services : List UInt64
  serviceStep : List Delivery → UInt64 → Message → Status
  onPayload : Option (List Delivery → TransportPayload → Status)

def ownerReceive (link : OwnerLink) : Sink := fun past payload =>
  if !link.groups.contains payload.groupId then
    .enoent
  else if !link.services.contains payload.groupId then
    .enoent
  else
    match payload.body with
    | .raft m => link.serviceStep past payload.groupId m
    | _ =>
      match link.onPayload with
      | none => .enotsup
      | some handler => handler past payload

structure Peer where
  identity : List UInt8
  session : Session
  faulted : Bool
  deriving DecidableEq, Repr

/-- What the two reads of a router message give: an error, or an identity with a packet. -/
inductive RouterRead where
  | failed (status : Status)
  | message (identity packet : List UInt8)
  deriving DecidableEq, Repr

/-- `delivered` records the calls of the adapter, over all peers. -/
structure PeerService where
  peers : List Peer
  maxReceiveBatchItems : ℕ
  framesReceived : ℕ
  lastError : Status
  router : List RouterRead
  delivered : List Delivery
  deriving DecidableEq, Repr

def feedPeer (sink : Sink) (delivered : List Delivery) (identity packet : List UInt8) :
    List Peer → Option (Status × List Delivery × List Peer)
  | [] => none
  | peer :: peers =>
    if peer.identity == identity then
      let (status, r) := transportFeed sink ⟨peer.session, delivered⟩ packet
      some (status, r.delivered,
        { peer with session := r.session, faulted := peer.faulted || status != .ok } :: peers)
    else
      (feedPeer sink delivered identity packet peers).map fun (status, delivered, peers) =>
        (status, delivered, peer :: peers)

def receiveOne (sink : Sink) (service : PeerService) : RouterRead → Status × PeerService
  | .failed status => (status, service)
  | .message identity packet =>
    match feedPeer sink service.delivered identity packet service.peers with
    | none => (.eperm, service)
    | some (status, delivered, peers) =>
      (status,
        { service with
          peers, delivered
          framesReceived :=
            if status == .ok then service.framesReceived + 1 else service.framesReceived })

/-- An empty router answers that it is busy, and so may the handling of a message; either ends the
batch without an error. -/
def receiveLoop (sink : Sink) : ℕ → PeerService → Status × PeerService
  | 0, service => (.ok, service)
  | budget + 1, service =>
    match service.router with
    | [] => (.ok, service)
    | read :: router =>
      match receiveOne sink { service with router } read with
      | (.ok, service) => receiveLoop sink budget service
      | (.ebusy, service) => (.ok, service)
      | (status, service) => (status, service)

inductive SendResult where
  | done
  | blocked
  | failed (status : Status)
  deriving DecidableEq, Repr

def sendPeers (firstError : Status) : List Peer → List SendResult → Status × List Peer
  | peer :: peers, result :: results =>
    let (firstError, peer) :=
      if peer.faulted then (firstError, peer)
      else
        match result with
        | .failed status =>
          (if firstError == .ok then status else firstError, { peer with faulted := true })
        | _ => (firstError, peer)
    let (firstError, peers) := sendPeers firstError peers results
    (firstError, peer :: peers)
  | peers, _ => (firstError, peers)

structure StepInputs where
  arrivals : List RouterRead
  pollResult : Status
  readable : Bool
  sendResults : List SendResult
  deriving DecidableEq, Repr

def finishStep (sink : Sink) (budget : ℕ) (service : PeerService) (sendResults : List SendResult) :
    Status × PeerService :=
  let (firstError, service) := receiveLoop sink budget service
  let (firstError, peers) := sendPeers firstError service.peers sendResults
  (firstError, { service with peers, lastError := firstError })

def peerServiceStep (sink : Sink) (service : PeerService) (inputs : StepInputs) :
    Status × PeerService :=
  let service := { service with router := service.router ++ inputs.arrivals }
  if inputs.pollResult != .ok then
    let (firstError, peers) := sendPeers inputs.pollResult service.peers inputs.sendResults
    (firstError, { service with peers, lastError := firstError })
  else
    finishStep sink (if inputs.readable then service.maxReceiveBatchItems else 0) service
      inputs.sendResults

/-- An owner that stops polls no more. -/
structure LinkOwner where
  service : PeerService
  stopping : Bool
  deriving DecidableEq, Repr

/-- What the owner loop does with the result of a poll: an error stops the whole runtime. -/
def settlePoll (outcome : Status × PeerService) : LinkOwner :=
  { service := outcome.2, stopping := outcome.1 != .ok }

structure Pass where
  stopRequested : Bool
  inputs : StepInputs
  deriving DecidableEq, Repr

def ownerPass (link : OwnerLink) (o : LinkOwner) (pass : Pass) : LinkOwner :=
  if o.stopping || pass.stopRequested then
    { o with stopping := true }
  else
    settlePoll (peerServiceStep (ownerReceive link) o.service pass.inputs)

end RaftFlowmqOwner
