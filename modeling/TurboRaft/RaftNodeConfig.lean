import TurboRaft.RaftCore
import TurboRaft.RaftMulticore

/-! # Node settings

The conversion of a parsed node document into settings, and their validation. A pointer with a
count is a span: the items and whether the pointer is set. A value of the document is what the
getters return for it, so a scalar is absent when its getter fails. -/
namespace RaftNodeConfig

open RaftTypes RaftMulticore

abbrev maxIdentitySize : ℕ := 255
abbrev maxCertificatesPerPeer : ℕ := 4
abbrev maxOutboundQueueCapacity : ℕ := 65536
abbrev wireMaxSnapshotChunkBytes : ℕ := 64 * 1024
abbrev wireMaxFrameSize : ℕ := 48 + (wireMaxSnapshotChunkBytes + 4096)
abbrev handshakeWireMajor : ℕ := 1
abbrev handshakeWireMinor : ℕ := 0

/-- The bytes of a string without its terminator. -/
abbrev Text := List UInt8

def textOf (characters : List Char) : Text := characters.map Char.toUInt8

structure Span (α : Type) where
  present : Bool
  items : List α
  deriving DecidableEq, Repr

structure TlsConfig where
  caFile : Option Text
  certFile : Option Text
  keyFile : Option Text
  keyPassword : Option Text
  serverName : Option Text
  requireClientCertificate : Bool
  deriving DecidableEq, Repr

structure PeerConfig where
  nodeId : NodeId
  identity : Option Text
  certificates : Span (Option Text)
  endpoint : Option Text
  tls : TlsConfig
  deriving DecidableEq, Repr

structure HandshakeConfig where
  clusterId : ClusterId
  localNodeId : NodeId
  configEpoch : UInt64
  wireMajorMin : ℕ
  wireMajorMax : ℕ
  wireMinorMin : ℕ
  wireMinorMax : ℕ
  maxFrameSize : ℕ
  maxSnapshotChunkSize : ℕ
  deriving DecidableEq, Repr

structure QueueLimits where
  totalItemCapacity : ℕ
  perGroupItemCapacity : ℕ
  maxActiveGroups : ℕ
  totalDataBytes : ℕ
  perGroupDataBytes : ℕ
  deriving DecidableEq, Repr

structure PeerServiceConfig where
  protocol : HandshakeConfig
  bindEndpoint : Option Text
  localIdentity : Option Text
  tls : TlsConfig
  peers : Span PeerConfig
  outboundLimits : QueueLimits
  maxSendBatchItems : ℕ
  maxReceiveBatchItems : ℕ
  sendHwmMessages : ℕ
  receiveHwmMessages : ℕ
  sendHwmBytes : ℕ
  receiveHwmBytes : ℕ
  reconnectInitialMs : ℕ
  reconnectMaxMs : ℕ
  heartbeatIntervalMs : ℕ
  heartbeatTimeoutMs : ℕ
  deriving DecidableEq, Repr

/-- A core configuration together with its two member pointers. -/
structure CoreSettings where
  config : CoreConfig
  votersPresent : Bool
  learnersPresent : Bool

structure NodeGroupConfig where
  groupId : UInt64
  storagePath : Option Text
  core : CoreSettings

structure NodeSettings where
  runtime : MulticoreConfig
  clusterId : ClusterId
  nodeId : NodeId
  networkEnabled : Bool
  groups : Option (List NodeGroupConfig)
  owners : Option (List PeerServiceConfig)

/-- The creation of a core from a configuration with pointers: a set pointer needs a count and a
count needs a set pointer. -/
def coreCreateSettings (s : CoreSettings) : Except Status Core :=
  if !s.votersPresent || (s.config.learners.length != 0 && !s.learnersPresent) ||
      (s.config.learners.length == 0 && s.learnersPresent) then
    .error .einval
  else
    RaftCore.coreCreate s.config

def letter (c : UInt8) : Bool :=
  (decide ('A'.toUInt8 ≤ c) && decide (c ≤ 'Z'.toUInt8)) ||
    (decide ('a'.toUInt8 ≤ c) && decide (c ≤ 'z'.toUInt8))

def nodeAbsolute (path : Option Text) : Bool :=
  match path with
  | none => false
  | some text =>
    match text with
    | [] => false
    | first :: rest =>
      first == '/'.toUInt8 ||
        (first == '\\'.toUInt8 && rest.head? == some '\\'.toUInt8) ||
        (letter first && rest.head? == some ':'.toUInt8 &&
          (rest[1]? == some '/'.toUInt8 || rest[1]? == some '\\'.toUInt8))

def nodeText (text : Option Text) : Bool := text.any fun t => !t.isEmpty

def tlsScheme : Text := textOf ['t', 'l', 's', ':', '/', '/']

def tcpScheme : Text := textOf ['t', 'c', 'p', ':', '/', '/']

def nodeTls (endpoint : Option Text) : Bool := endpoint.any fun t => t.take 6 == tlsScheme

def nodeEndpoint (endpoint : Option Text) : Bool :=
  endpoint.any fun t => (t.take 6 == tcpScheme || nodeTls (some t)) && decide (6 < t.length)

def nodeTlsValid (tls : TlsConfig) (endpoint : Option Text) (listener : Bool) : Bool :=
  if !nodeEndpoint endpoint then
    false
  else if !nodeTls endpoint then
    !nodeText tls.caFile && !nodeText tls.certFile && !nodeText tls.keyFile &&
      !nodeText tls.serverName && !nodeText tls.keyPassword
  else
    nodeAbsolute tls.caFile && nodeAbsolute tls.certFile && nodeAbsolute tls.keyFile &&
      (if listener then tls.requireClientCertificate else nodeText tls.serverName)

def sha256Label : Text := textOf ['s', 'h', 'a', '2', '5', '6', ':']

def nodeFingerprint (text : Option Text) : Bool :=
  text.any fun t => t.length == 71 && t.take 7 == sha256Label &&
    (t.drop 7).all fun c =>
      (decide ('0'.toUInt8 ≤ c) && decide (c ≤ '9'.toUInt8)) ||
        (decide ('a'.toUInt8 ≤ c) && decide (c ≤ 'f'.toUInt8))

def identityValid (identity : Option Text) : Bool :=
  nodeText identity && identity.any fun t => decide (t.length ≤ maxIdentitySize)

def batchValid (items : ℕ) : Bool := items != 0 && decide (items ≤ maxOutboundQueueCapacity)

def limitsValid (limits : QueueLimits) : Bool :=
  batchValid limits.totalItemCapacity && limits.perGroupItemCapacity != 0 &&
    decide (limits.perGroupItemCapacity ≤ limits.totalItemCapacity) &&
    limits.maxActiveGroups != 0 && limits.perGroupDataBytes != 0 &&
    decide (limits.perGroupDataBytes ≤ limits.totalDataBytes)

def peerValid (s : NodeSettings) (o : PeerServiceConfig) (earlier : List PeerConfig)
    (p : PeerConfig) : Bool :=
  p.nodeId != 0 && p.nodeId != s.nodeId && identityValid p.identity &&
    nodeTlsValid p.tls p.endpoint false && nodeTls o.bindEndpoint == nodeTls p.endpoint &&
    (if nodeTls o.bindEndpoint then
      p.certificates.items.length != 0 &&
        decide (p.certificates.items.length ≤ maxCertificatesPerPeer) && p.certificates.present
    else
      p.certificates.items.length == 0) &&
    p.certificates.items.all nodeFingerprint &&
    earlier.all fun other => p.nodeId != other.nodeId && p.identity != other.identity

def ownerValid (s : NodeSettings) (earlier : List PeerServiceConfig) (o : PeerServiceConfig) : Bool :=
  nodeTlsValid o.tls o.bindEndpoint true && identityValid o.localIdentity &&
    o.protocol.localNodeId == s.nodeId && o.protocol.clusterId == s.clusterId &&
    o.peers.items.length != 0 && decide (o.peers.items.length < maxMembers) && o.peers.present &&
    batchValid o.maxSendBatchItems && batchValid o.maxReceiveBatchItems &&
    batchValid o.sendHwmMessages && batchValid o.receiveHwmMessages &&
    decide (wireMaxFrameSize ≤ o.sendHwmBytes) && decide (wireMaxFrameSize ≤ o.receiveHwmBytes) &&
    o.reconnectInitialMs != 0 && decide (o.reconnectInitialMs ≤ o.reconnectMaxMs) &&
    o.heartbeatIntervalMs != 0 && decide (o.heartbeatIntervalMs < o.heartbeatTimeoutMs) &&
    limitsValid o.outboundLimits &&
    earlier.all (fun other => o.bindEndpoint != other.bindEndpoint) &&
    (List.range o.peers.items.length).all fun j =>
      (o.peers.items[j]?).all (peerValid s o (o.peers.items.take j))

/-- A member of a group is new, and it is the node itself or a peer of the group's owner. -/
def memberValid (s : NodeSettings) (a : GroupAssignment) (earlier : List NodeId) (id : NodeId) :
    Bool :=
  id != 0 && !earlier.contains id &&
    (id == s.nodeId ||
      (s.networkEnabled &&
        ((s.owners.bind (·[a.ownerIndex]?)).any fun o => o.peers.items.any (·.nodeId == id))))

def groupValid (s : NodeSettings) (earlier : List NodeGroupConfig) (g : NodeGroupConfig)
    (a : GroupAssignment) : Bool :=
  let c := g.core.config
  let ids := c.voters ++ c.learners
  g.groupId == a.groupId && nodeAbsolute g.storagePath && c.selfId == s.nodeId &&
    g.core.votersPresent && c.voters.length != 0 && decide (c.voters.length ≤ maxMembers) &&
    decide (c.learners.length ≤ maxMembers - c.voters.length) &&
    (c.learners.length == 0 || g.core.learnersPresent) && c.heartbeatTicks != 0 &&
    decide (c.heartbeatTicks < c.electionMinTicks) &&
    decide (c.electionMinTicks ≤ c.electionMaxTicks) &&
    c.electionMinTicks == a.electionMinTicks && c.electionMaxTicks == a.electionMaxTicks &&
    decide (c.electionMinTicks ≤ c.initialElectionTimeoutTicks) &&
    decide (c.initialElectionTimeoutTicks ≤ c.electionMaxTicks) && c.maxLogEntries != 0 &&
    earlier.all (fun other => g.storagePath != other.storagePath) &&
    (List.range ids.length).all (fun j => (ids[j]?).all (memberValid s a (ids.take j))) &&
    ids.contains s.nodeId

/-- The arrays have as many elements as the counts in the runtime settings say. -/
def nodeSettingsValidate (sizes : ElementSizes) (s : NodeSettings) : Status :=
  match s.groups with
  | none => .einval
  | some groups =>
    if s.nodeId == 0 || s.clusterId == ClusterId.zero then
      .einval
    else if multicoreConfigValidate sizes s.runtime != .ok then
      multicoreConfigValidate sizes s.runtime
    else if s.networkEnabled != s.owners.isSome then
      .einval
    else if s.networkEnabled && !(List.range s.runtime.ownerCount).all (fun i =>
        (s.owners.bind (·[i]?)).any (ownerValid s ((s.owners.getD []).take i))) then
      .einval
    else if !(List.range s.runtime.groups.length).all (fun i =>
        match groups[i]?, s.runtime.groups[i]? with
        | some g, some a => groupValid s (groups.take i) g a
        | _, _ => false) then
      .einval
    else
      .ok

/-- A string of the document: its field may be absent, or its bytes may hold a terminator. -/
inductive DocumentText where
  | absent
  | unusable
  | text (bytes : Text)
  deriving DecidableEq, Repr

def nodeString : DocumentText → Option Text
  | .text bytes => some bytes
  | _ => none

structure TlsDocument where
  caFile : DocumentText
  certFile : DocumentText
  keyFile : DocumentText
  serverName : DocumentText
  requireClientCertificate : Option Bool
  deriving DecidableEq, Repr

structure PeerDocument where
  nodeId : Option UInt64
  identity : DocumentText
  endpoint : DocumentText
  certificates : List DocumentText
  tls : TlsDocument
  deriving DecidableEq, Repr

structure OwnerDocument where
  bindEndpoint : DocumentText
  identity : DocumentText
  peers : List PeerDocument
  tls : TlsDocument
  deriving DecidableEq, Repr

structure GroupDocument where
  groupId : Option UInt64
  ownerIndex : Option UInt64
  heartbeatTicks : Option UInt64
  electionMinTicks : Option UInt64
  electionMaxTicks : Option UInt64
  maxLogEntries : Option UInt64
  voters : List (Option UInt64)
  learners : List (Option UInt64)
  storagePath : DocumentText
  deriving DecidableEq, Repr

structure NodeDocument where
  version : Option UInt64
  nodeId : Option UInt64
  clusterId : Option ClusterId
  configEpoch : Option UInt64
  ownerCount : Option UInt64
  capacity : Option UInt64
  workBudget : Option UInt64
  tickMs : Option UInt64
  idleMs : Option UInt64
  networkEnabled : Option Bool
  networkBatch : Option UInt64
  networkQueueItems : Option UInt64
  networkQueueBytes : Option UInt64
  reconnectInitialMs : Option UInt64
  reconnectMaxMs : Option UInt64
  heartbeatIntervalMs : Option UInt64
  heartbeatTimeoutMs : Option UInt64
  owners : List OwnerDocument
  groups : List GroupDocument
  deriving DecidableEq, Repr

def nodeU32 (value : Option UInt64) : Option ℕ :=
  value.bind fun v => if v.toNat ≤ uint32Max then some v.toNat else none

def nodeParseTls (tls : TlsDocument) : Option TlsConfig := do
  let required ← tls.requireClientCertificate
  if tls.caFile == .unusable || tls.certFile == .unusable || tls.keyFile == .unusable ||
      tls.serverName == .unusable then
    none
  else
    some
      { caFile := nodeString tls.caFile
        certFile := nodeString tls.certFile
        keyFile := nodeString tls.keyFile
        keyPassword := none
        serverName := nodeString tls.serverName
        requireClientCertificate := required }

/-- Both member pointers are set, whatever the counts are; nothing is recovered. -/
def convertGroup (nodeId : NodeId) (v : GroupDocument) : Option (NodeGroupConfig × GroupAssignment) :=
  do
  let groupId ← v.groupId
  let ownerIndex ← nodeU32 v.ownerIndex
  let heartbeatTicks ← nodeU32 v.heartbeatTicks
  let electionMinTicks ← nodeU32 v.electionMinTicks
  let electionMaxTicks ← nodeU32 v.electionMaxTicks
  let maxLogEntries ← nodeU32 v.maxLogEntries
  if maxMembers < v.voters.length || maxMembers < v.learners.length then
    none
  else
    let voters ← v.voters.mapM id
    let learners ← v.learners.mapM id
    some
      ({ groupId
         storagePath := nodeString v.storagePath
         core :=
          { votersPresent := true
            learnersPresent := true
            config :=
              { selfId := nodeId
                voters, learners
                initialConfiguration := none
                heartbeatTicks, electionMinTicks, electionMaxTicks
                initialElectionTimeoutTicks := electionMinTicks
                initialTerm := 0
                initialVote := 0
                initialLastLogIndex := 0
                initialLastLogTerm := 0
                initialLogEntries := []
                initialCommitIndex := 0
                initialAppliedIndex := 0
                maxLogEntries
                maxPendingReads := 0
                maxInflightAppendRequests := 0 } } },
       { groupId, ownerIndex, electionMinTicks, electionMaxTicks })

def convertPeer (p : PeerDocument) : Option PeerConfig := do
  let nodeId ← p.nodeId
  let tls ← nodeParseTls p.tls
  if maxCertificatesPerPeer < p.certificates.length then
    none
  else
    some
      { nodeId
        identity := nodeString p.identity
        certificates :=
          { present := p.certificates.length != 0
            items := p.certificates.map nodeString }
        endpoint := nodeString p.endpoint
        tls }

structure NetworkValues where
  batch : ℕ
  items : ℕ
  bytes : ℕ
  reconnectInitialMs : ℕ
  reconnectMaxMs : ℕ
  heartbeatIntervalMs : ℕ
  heartbeatTimeoutMs : ℕ
  configEpoch : UInt64

def convertOwner (runtime : MulticoreConfig) (clusterId : ClusterId) (nodeId : NodeId)
    (network : NetworkValues) (i : ℕ) (v : OwnerDocument) : Option PeerServiceConfig := do
  let tls ← nodeParseTls v.tls
  if maxMembers ≤ v.peers.length then
    none
  else
    let peers ← v.peers.mapM convertPeer
    some
      { protocol :=
          { clusterId
            localNodeId := nodeId
            configEpoch := network.configEpoch
            wireMajorMin := handshakeWireMajor
            wireMajorMax := handshakeWireMajor
            wireMinorMin := handshakeWireMinor
            wireMinorMax := handshakeWireMinor
            maxFrameSize := wireMaxFrameSize
            maxSnapshotChunkSize := wireMaxSnapshotChunkBytes }
        bindEndpoint := nodeString v.bindEndpoint
        localIdentity := nodeString v.identity
        tls
        peers := { present := true, items := peers }
        outboundLimits :=
          { totalItemCapacity := network.items
            perGroupItemCapacity := runtime.capacity
            maxActiveGroups := runtime.groups.countP fun a => a.ownerIndex == i
            totalDataBytes := network.bytes
            perGroupDataBytes := network.bytes }
        maxSendBatchItems := network.batch
        maxReceiveBatchItems := network.batch
        sendHwmMessages := network.items
        receiveHwmMessages := network.items
        sendHwmBytes := network.bytes
        receiveHwmBytes := network.bytes
        reconnectInitialMs := network.reconnectInitialMs
        reconnectMaxMs := network.reconnectMaxMs
        heartbeatIntervalMs := network.heartbeatIntervalMs
        heartbeatTimeoutMs := network.heartbeatTimeoutMs }

def convertSettings (document : NodeDocument) : Option NodeSettings := do
  let version ← nodeU32 document.version
  let ownerCount ← nodeU32 document.ownerCount
  let capacity ← nodeU32 document.capacity
  let workBudget ← nodeU32 document.workBudget
  let tickMs ← nodeU32 document.tickMs
  let idleMs ← nodeU32 document.idleMs
  let batch ← nodeU32 document.networkBatch
  let items ← nodeU32 document.networkQueueItems
  let bytes ← nodeU32 document.networkQueueBytes
  let reconnectInitialMs ← nodeU32 document.reconnectInitialMs
  let reconnectMaxMs ← nodeU32 document.reconnectMaxMs
  let heartbeatIntervalMs ← nodeU32 document.heartbeatIntervalMs
  let heartbeatTimeoutMs ← nodeU32 document.heartbeatTimeoutMs
  let nodeId ← document.nodeId
  let clusterId ← document.clusterId
  let configEpoch ← document.configEpoch
  let enabled ← document.networkEnabled
  if ownerCount == 0 || maxOwners < ownerCount || document.groups.length == 0 ||
      maxGroups < document.groups.length ||
      document.owners.length != (if enabled then ownerCount else 0) then
    none
  else
    let groups ← document.groups.mapM (convertGroup nodeId)
    let runtime : MulticoreConfig :=
      { version, ownerCount, capacity, workBudget, tickMs, idleMs
        groups := groups.map Prod.snd }
    let network : NetworkValues :=
      { batch, items, bytes, reconnectInitialMs, reconnectMaxMs, heartbeatIntervalMs
        heartbeatTimeoutMs, configEpoch }
    let settings : NodeSettings :=
      { runtime, clusterId, nodeId
        networkEnabled := enabled
        groups := some (groups.map Prod.fst)
        owners := none }
    if enabled then
      let owners ← document.owners.zipIdx.mapM fun (v, i) =>
        convertOwner runtime clusterId nodeId network i v
      some { settings with owners := some owners }
    else
      some settings

def nodeConvert (sizes : ElementSizes) (document : NodeDocument) : Except Status NodeSettings :=
  match convertSettings document with
  | none => .error .einval
  | some settings =>
    match nodeSettingsValidate sizes settings with
    | .ok => .ok settings
    | status => .error status

end RaftNodeConfig
