import TurboRaft.RaftEmission
import TurboRaft.RaftTransitionLemmas

/-! # What a call writes into its Ready

Replication writes at most one message or snapshot request at a time and looks at the capacity
first. A broadcast writes one message for every voter that is not paused and does not look. -/
namespace RaftOutbox

open RaftTypes RaftConfiguration RaftLog RaftCoreState
open RaftCoreEmit RaftConfigurationLemmas RaftEmission

variable {call call' mid next : Call} {peer : ℕ}

section Replication

/-- What one replication attempt for a peer wrote. -/
inductive Wrote (call : Call) (peer : ℕ) : Call → Prop where
  | nothing : Wrote call peer call
  | snapshot (requests : List SnapshotRequest)
      (fresh : requests = [] ∨ requests = [snapshotRequestFor call.core peer] ∧
        ∀ r ∈ call.ready.snapshotRequests, r.peerId ≠ peerId call.core peer) :
      Wrote call peer ⟨setWindow call.core peer (appendWindowReset true),
        withEmissions call [] requests⟩
  | append (window : AppendWindow) (following : ℕ)
      (room : call.ready.messages.length < call.ready.messageCapacity)
      (short : (call.core.appendWindows peer).items.length < windowLimit call.core peer)
      (longer : window.items.length = (call.core.appendWindows peer).items.length + 1) :
      Wrote call peer ⟨setNext (setWindow call.core peer window) peer following,
        withEmissions call [replicationMessage call.core peer
          (newMessage call.core .appendRequest (peerId call.core peer) false)] []⟩
  | heartbeat (room : call.ready.messages.length < call.ready.messageCapacity) :
      Wrote call peer ⟨call.core, withEmissions call [replicationMessage call.core peer
        (newMessage call.core .heartbeatRequest (peerId call.core peer) false)] []⟩

theorem withEmissions_nothing (call : Call) : withEmissions call [] [] = call.ready := by
  simp [withEmissions]

theorem emitSnapshotRequest_wrote (call : Call) (peer : ℕ) :
    Wrote call peer (emitSnapshotRequest
      { call with core := setWindow call.core peer (appendWindowReset true) } peer) := by
  unfold emitSnapshotRequest
  have hnone : Wrote call peer ⟨setWindow call.core peer (appendWindowReset true),
      withEmissions call [] []⟩ := .snapshot [] (Or.inl rfl)
  rw [withEmissions_nothing] at hnone
  split_ifs with hpaused hknown
  · exact hnone
  · exact hnone
  · have hfresh : ∀ r ∈ call.ready.snapshotRequests, r.peerId ≠ peerId call.core peer := by
      intro r hr hsame
      exact hknown (List.any_eq_true.mpr ⟨r, hr, beq_iff_eq.mpr hsame⟩)
    have hone := Wrote.snapshot _ (Or.inr ⟨rfl, hfresh⟩)
    unfold withEmissions at hone
    rwa [List.append_nil] at hone

theorem emitAppend_wrote (hroom : call.ready.messages.length < call.ready.messageCapacity)
    (hshort : (call.core.appendWindows peer).items.length < windowLimit call.core peer) :
    Wrote call peer (emitAppend call peer).1 := by
  unfold emitAppend emitWith
  cases hpaused : peerPaused call.core (peerId call.core peer) with
  | true => exact .nothing
  | false =>
    rw [if_neg Bool.false_ne_true]
    unfold appendWindowPush
    split_ifs with hlimit
    · exact .nothing
    · have hone := Wrote.append
        { call.core.appendWindows peer with
          items := (call.core.appendWindows peer).items ++
            [{ previousIndex := call.core.nextIndex peer - 1
               lastIndex := call.core.nextIndex peer + replicationCount call.core peer - 1
               elapsedTicks := 0 }] }
        (call.core.nextIndex peer + replicationCount call.core peer) hroom hshort
        List.length_append
      unfold withEmissions at hone
      rwa [List.append_nil] at hone

theorem emitReplication_wrote (call : Call) (peer : ℕ) (allowHeartbeat : Bool) :
    Wrote call peer (emitReplication call peer allowHeartbeat).1 := by
  unfold emitReplication messagesFull
  split_ifs with hpaused hbase hlast hfull hfull
  · exact .nothing
  · exact emitSnapshotRequest_wrote call peer
  · exact .nothing
  · simp only [Bool.or_eq_true, decide_eq_true_eq, not_or, not_le] at hfull
    exact emitAppend_wrote hfull.2 hfull.1
  · exact .nothing
  · simp only [Bool.or_eq_true, decide_eq_true_eq, not_or, not_le] at hfull
    unfold emitWith
    split_ifs
    · exact .nothing
    · have hone : Wrote call peer _ := .heartbeat hfull.2
      unfold withEmissions at hone
      rwa [List.append_nil] at hone

/-- Replication for allowed peers, in any order and number. -/
inductive Sending (allowed : ℕ → Prop) (call : Call) : Call → Prop where
  | refl : Sending allowed call call
  | step {mid : Call} {peer : ℕ} (allowHeartbeat : Bool) (before : Sending allowed call mid)
      (permitted : allowed peer) :
      Sending allowed call (emitReplication mid peer allowHeartbeat).1

variable {allowed : ℕ → Prop}

theorem Wrote.progressed (h : Wrote call peer next) : Progressed call.core next.core := by
  cases h with
  | nothing => exact .refl _
  | snapshot | append => exact ⟨_, _, rfl⟩
  | heartbeat => exact .refl _

theorem Sending.keeps (h : Sending allowed call next) (I : Call → Prop) (hstart : I call)
    (hstep : ∀ mid peer after, Progressed call.core mid.core → allowed peer → I mid →
      Wrote mid peer after → I after) : Progressed call.core next.core ∧ I next := by
  induction h with
  | refl => exact ⟨.refl _, hstart⟩
  | @step mid peer allowHeartbeat _ permitted ih =>
    obtain ⟨hprogress, hkept⟩ := ih
    have hwrote := emitReplication_wrote mid peer allowHeartbeat
    exact ⟨hprogress.trans hwrote.progressed, hstep _ _ _ hprogress permitted hkept hwrote⟩

theorem Sending.progressed (h : Sending allowed call next) : Progressed call.core next.core :=
  (h.keeps (fun _ => True) trivial fun _ _ _ _ _ _ _ => trivial).1

def RemotePeer (core : Core) (peer : ℕ) : Prop :=
  peer < core.peers.length ∧ peerId core peer ≠ core.selfId

theorem remotePeer_progressed {core core' : Core} (h : Progressed core core') (peer : ℕ) :
    RemotePeer core' peer ↔ RemotePeer core peer := by
  obtain ⟨_, _, rfl⟩ := h
  exact Iff.rfl

theorem RemotePeer.mem {core : Core} {peer : ℕ} (h : RemotePeer core peer) : peerId core peer ∈ core.peers := by
  rw [peerId, List.getElem?_eq_getElem h.1]
  exact List.getElem_mem h.1

theorem foldl_sending {body : Call → ℕ → Call} (peers : List ℕ)
    (hbody : ∀ c k, k ∈ peers → Progressed call.core c.core →
      body c k = c ∨ allowed k ∧ ∃ allowHeartbeat, body c k = (emitReplication c k allowHeartbeat).1)
    (hmid : Sending allowed call mid) : Sending allowed call (peers.foldl body mid) := by
  induction peers generalizing mid with
  | nil => exact hmid
  | cons k rest ih =>
    apply ih
    · exact fun c j hj => hbody c j (List.mem_cons_of_mem k hj)
    · rcases hbody mid k List.mem_cons_self hmid.progressed with hsame | ⟨hk, b, hwritten⟩
      · rwa [hsame]
      · rw [hwritten]
        exact .step b hmid hk

theorem broadcastReplication_sending (call : Call) :
    Sending (RemotePeer call.core) call (broadcastReplication call) := by
  apply foldl_sending _ _ .refl
  intro c k hk hc
  by_cases hother : (peerId c.core k != c.core.selfId) = true
  · have hremote : RemotePeer c.core k := by
      refine ⟨?_, bne_iff_ne.mp hother⟩
      obtain ⟨_, _, hcore⟩ := hc
      rw [hcore]
      exact List.mem_range.mp hk
    exact Or.inr ⟨(remotePeer_progressed hc k).mp hremote, true, if_pos hother⟩
  · exact Or.inl (if_neg hother)

theorem fillRound_sending (hmid : Sending (RemotePeer call.core) call mid) :
    Sending (RemotePeer call.core) call (fillRound mid).1 := by
  have hpeers : ∀ k ∈ List.range mid.core.peers.length, k < call.core.peers.length := by
    obtain ⟨_, _, hcore⟩ := hmid.progressed
    intro k hk
    rw [hcore] at hk
    exact List.mem_range.mp hk
  unfold fillRound
  generalize List.range mid.core.peers.length = peers at hpeers
  generalize hstart : (mid, false) = start
  have hbegin : Sending (RemotePeer call.core) call start.1 := by
    rw [← hstart]
    exact hmid
  clear hstart
  induction peers generalizing start with
  | nil => exact hbegin
  | cons k rest ih =>
    rw [List.foldl_cons]
    apply ih (fun j hj => hpeers j (List.mem_cons_of_mem k hj))
    split_ifs with hneeds
    · simp only [needsEntries, Bool.and_eq_true, bne_iff_ne] at hneeds
      refine .step false hbegin ⟨hpeers k List.mem_cons_self, ?_⟩
      obtain ⟨_, _, hcore⟩ := hbegin.progressed
      rw [hcore] at hneeds
      exact hneeds.2.1.1
    · exact hbegin

theorem fillRounds_sending (fuel : ℕ) (hmid : Sending (RemotePeer call.core) call mid) :
    Sending (RemotePeer call.core) call (fillRounds fuel mid) := by
  induction fuel generalizing mid with
  | zero => exact fillRound_sending hmid
  | succ fuel ih =>
    have hround := fillRound_sending hmid
    unfold fillRounds
    dsimp only
    split_ifs
    · exact ih hround
    · exact hround

theorem fillReplicationWindows_sending (call : Call) :
    Sending (RemotePeer call.core) call (fillReplicationWindows call) := by
  unfold fillReplicationWindows
  split_ifs
  · exact .refl
  · apply fillRounds_sending
    apply foldl_sending _ _ .refl
    intro c k hk hc
    by_cases hneeds : needsSnapshot c.core k = true
    · refine Or.inr ⟨⟨List.mem_range.mp hk, ?_⟩, false, if_pos hneeds⟩
      simp only [needsSnapshot, Bool.and_eq_true, bne_iff_ne] at hneeds
      obtain ⟨_, _, hcore⟩ := hc
      rw [hcore] at hneeds
      exact hneeds.1
    · exact Or.inl (if_neg hneeds)

theorem fillPeerLoop_sending (fuel : ℕ) (hmid : Sending (· = peer) call mid) :
    Sending (· = peer) call (fillPeerLoop peer fuel mid) := by
  induction fuel generalizing mid with
  | zero => exact hmid
  | succ fuel ih =>
    unfold fillPeerLoop
    split_ifs
    · have hstep : Sending (· = peer) call (emitReplication mid peer false).1 := .step false hmid rfl
      cases hnext : emitReplication mid peer false with
      | mk after sent =>
        rw [hnext] at hstep
        cases sent with
        | true => exact ih hstep
        | false => exact hstep
    · exact hmid

theorem fillPeerReplicationWindow_sending (call : Call) (peer : ℕ) :
    Sending (· = peer) call (fillPeerReplicationWindow call peer) := by
  unfold fillPeerReplicationWindow
  split_ifs
  · exact .step false .refl rfl
  · exact fillPeerLoop_sending _ .refl

/-- Replication to the peer has something to say and, its window apart, room for it. -/
def reaches (core : Core) (capacity peer : ℕ) : Bool :=
  !peerIndexPaused core peer &&
    (decide (core.nextIndex peer ≤ core.log.baseIndex) || capacity != 0)

def Sent (ready : Ready) : Prop := ready.messages ≠ [] ∨ ready.snapshotRequests ≠ []

theorem Sending.sent (h : Sending allowed call next) (hsent : Sent call.ready) :
    Sent next.ready := by
  refine (h.keeps (fun mid => Sent mid.ready) hsent ?_).2
  intro mid peer after _ _ hmid hwrote
  have hadded : ∀ messages requests, Sent (withEmissions mid messages requests) := fun _ _ =>
    hmid.imp (List.append_ne_nil_of_left_ne_nil · _) (List.append_ne_nil_of_left_ne_nil · _)
  cases hwrote with
  | nothing => exact hmid
  | snapshot | append | heartbeat => exact hadded _ _

theorem peerPaused_at {core : Core} (h : idsAscending core.peers = true) {k : ℕ}
    (hk : k < core.peers.length) : peerPaused core (peerId core k) = peerIndexPaused core k := by
  have hget : core.peers[k]? = some (peerId core k) := by
    rw [peerId, List.getElem?_eq_getElem hk]
    rfl
  have hindex : peerIndex core (peerId core k) = some k := ascendingIndex_complete h hget
  unfold peerPaused
  rw [hindex]

theorem emitReplication_unreached
    (h : reaches call.core call.ready.messageCapacity peer = false) (allowHeartbeat : Bool) :
    emitReplication call peer allowHeartbeat = (call, false) := by
  simp only [reaches, Bool.and_eq_false_iff, Bool.not_eq_false', Bool.or_eq_false_iff,
    decide_eq_false_iff_not, bne_eq_false_iff_eq] at h
  unfold emitReplication
  rcases h with hpaused | ⟨hbase, hzero⟩
  · rw [if_pos hpaused]
  · simp [hbase, messagesFull, hzero]

theorem fillPeerReplicationWindow_unreached
    (h : reaches call.core call.ready.messageCapacity peer = false) :
    fillPeerReplicationWindow call peer = call := by
  have hnothing := emitReplication_unreached h false
  unfold fillPeerReplicationWindow
  split_ifs
  · rw [hnothing]
  · cases call.ready.messageCapacity - call.ready.messages.length with
    | zero => rfl
    | succ fuel =>
      unfold fillPeerLoop
      rw [hnothing]
      split_ifs <;> rfl

section Reaching

variable (h : reaches call.core call.ready.messageCapacity peer = true)
  (hrequests : call.ready.snapshotRequests = [])

include h hrequests

theorem emitReplication_snapshot (hbase : call.core.nextIndex peer ≤ call.core.log.baseIndex)
    (allowHeartbeat : Bool) :
    (emitReplication call peer allowHeartbeat).1.ready.snapshotRequests =
      [snapshotRequestFor call.core peer] := by
  simp only [reaches, Bool.and_eq_true, Bool.not_eq_true'] at h
  have hlive : peerIndexPaused (setWindow call.core peer (appendWindowReset true)) peer = false :=
    h.1
  rw [emitReplication, h.1, if_neg Bool.false_ne_true, if_pos hbase]
  simp only [emitSnapshotRequest, hlive, hrequests, List.any_nil, Bool.false_eq_true, if_false,
    List.nil_append]
  rfl

theorem emitReplication_reached (hmessages : call.ready.messages = [])
    (hfresh : call.core.appendWindows peer = appendWindowReset true)
    (hlive : peerPaused call.core (peerId call.core peer) = peerIndexPaused call.core peer)
    (allowHeartbeat : Bool)
    (hmore : allowHeartbeat = true ∨ call.core.nextIndex peer ≤ logLastIndex call.core.log) :
    Sent (emitReplication call peer allowHeartbeat).1.ready := by
  by_cases hbase : call.core.nextIndex peer ≤ call.core.log.baseIndex
  · refine Or.inr ?_
    rw [emitReplication_snapshot h hrequests hbase]
    exact List.cons_ne_nil _ _
  simp only [reaches, hbase, decide_false, Bool.false_or, Bool.and_eq_true, Bool.not_eq_true',
    bne_iff_ne] at h
  have hroom : ¬ call.ready.messageCapacity ≤ 0 := by omega
  refine Or.inl ?_
  rw [emitReplication, h.1, if_neg Bool.false_ne_true, if_neg hbase]
  split_ifs with hlast hfull hfull
  · simp [windowLimit, hfresh, appendWindowReset, messagesFull, hmessages, hroom] at hfull
  · rw [emitAppend, emitWith, hlive, h.1, if_neg Bool.false_ne_true, appendWindowPush, hfresh,
      if_neg (by decide)]
    simp
  · simp only [messagesFull, hmessages, List.length_nil, hroom, decide_false, Bool.or_false,
      Bool.not_eq_true'] at hfull
    rcases hmore with htrue | hle
    · exact absurd (hfull.symm.trans htrue) Bool.false_ne_true
    · exact absurd hle hlast
  · rw [emitWith, hlive, h.1, if_neg Bool.false_ne_true]
    simp

theorem fillPeerReplicationWindow_reached (hmessages : call.ready.messages = [])
    (hfresh : call.core.appendWindows peer = appendWindowReset true)
    (hlive : peerPaused call.core (peerId call.core peer) = peerIndexPaused call.core peer)
    (hmore : call.core.nextIndex peer ≤ logLastIndex call.core.log) :
    Sent (fillPeerReplicationWindow call peer).ready := by
  have hsent := emitReplication_reached h hrequests hmessages hfresh hlive false (Or.inr hmore)
  unfold fillPeerReplicationWindow
  split_ifs with hbase
  · exact hsent
  simp only [reaches, hbase, decide_false, Bool.false_or, Bool.and_eq_true, bne_iff_ne] at h
  rw [hmessages, List.length_nil, Nat.sub_zero]
  cases hcapacity : call.ready.messageCapacity with
  | zero => exact absurd hcapacity h.2
  | succ fuel =>
    rw [fillPeerLoop, if_pos (by simp [messagesFull, hmessages, hcapacity, hmore])]
    cases hnext : emitReplication call peer false with
    | mk next sent =>
      rw [hnext] at hsent
      cases sent with
      | true =>
        have hrest : Sending (· = peer) next (fillPeerLoop peer fuel next) :=
          fillPeerLoop_sending fuel .refl
        exact hrest.sent hsent
      | false => exact hsent

end Reaching

def reachesSome (core : Core) (capacity : ℕ) : Bool :=
  (List.range core.peers.length).any fun peer =>
    peerId core peer != core.selfId && reaches core capacity peer

/-- A broadcast to fresh windows sends exactly when it reaches some peer. -/
theorem broadcastReplication_reached (hmessages : call.ready.messages = [])
    (hrequests : call.ready.snapshotRequests = []) (hascending : idsAscending call.core.peers = true)
    (hfresh : ∀ peer, call.core.appendWindows peer = appendWindowReset true) :
    if reachesSome call.core call.ready.messageCapacity then
      Sent (broadcastReplication call).ready
    else broadcastReplication call = call := by
  have hrange : ∀ k ∈ List.range call.core.peers.length, k < call.core.peers.length :=
    fun _ => List.mem_range.mp
  unfold reachesSome broadcastReplication forPeers
  generalize List.range call.core.peers.length = peers at hrange
  induction peers with
  | nil => rfl
  | cons k rest ih =>
    have hk := hrange k List.mem_cons_self
    have ih := ih fun j hj => hrange j (List.mem_cons_of_mem k hj)
    rw [List.any_cons, List.foldl_cons]
    by_cases hself : peerId call.core k = call.core.selfId
    · simpa [hself] using ih
    rw [if_pos (bne_iff_ne.mpr hself), bne_iff_ne.mpr hself, Bool.true_and]
    cases hreaches : reaches call.core call.ready.messageCapacity k with
    | true =>
      have hsent := emitReplication_reached hreaches hrequests hmessages (hfresh k)
        (peerPaused_at hascending hk) true (Or.inl rfl)
      rw [Bool.true_or, if_pos rfl]
      refine (foldl_sending rest ?_ .refl : Sending (fun _ => True) _ _).sent hsent
      intro c j _ _
      by_cases hother : (peerId c.core j != c.core.selfId) = true
      · exact Or.inr ⟨trivial, true, if_pos hother⟩
      · exact Or.inl (if_neg hother)
    | false =>
      rw [emitReplication_unreached hreaches, Bool.false_or]
      exact ih

end Replication

section Bounds

variable {core : Core} {ids : List NodeId}

def Fits (call : Call) : Prop := call.ready.messages.length ≤ call.ready.messageCapacity

theorem Wrote.fits (h : Wrote call peer next) (hfits : Fits call) : Fits next := by
  unfold Fits at hfits ⊢
  cases h with
  | nothing => exact hfits
  | snapshot => simpa [withEmissions] using hfits
  | append _ _ room | heartbeat room => simpa [withEmissions] using Nat.succ_le_of_lt room

structure WindowsOk (core : Core) : Prop where
  some_room : 1 ≤ core.maxInflightAppendRequests
  window : ∀ peer, (core.appendWindows peer).items.length ≤ core.maxInflightAppendRequests

theorem WindowsOk.set (h : WindowsOk core) (peer : ℕ) {window : AppendWindow}
    (hwindow : window.items.length ≤ core.maxInflightAppendRequests) :
    WindowsOk (setWindow core peer window) := by
  refine ⟨h.some_room, fun k => ?_⟩
  change (Function.update core.appendWindows peer window k).items.length ≤ _
  by_cases hk : k = peer
  · subst hk
    rw [Function.update_self]
    exact hwindow
  · rw [Function.update_of_ne hk]
    exact h.window k

theorem windowLimit_le (h : WindowsOk core) (peer : ℕ) :
    windowLimit core peer ≤ core.maxInflightAppendRequests := by
  unfold windowLimit
  split_ifs
  · exact h.some_room
  · exact le_rfl

theorem Wrote.windows (h : Wrote call peer next) (hwindows : WindowsOk call.core) :
    WindowsOk next.core := by
  cases h with
  | nothing => exact hwindows
  | snapshot => exact hwindows.set peer (Nat.zero_le _)
  | append window following _ short longer =>
    have hlimit := windowLimit_le hwindows peer
    have hwindow : window.items.length ≤ call.core.maxInflightAppendRequests := by omega
    exact ⟨hwindows.some_room, (hwindows.set peer hwindow).window⟩
  | heartbeat => exact hwindows

/-- No peer is asked for twice, and only those of a list are. -/
structure RequestsOk (ids : List NodeId) (ready : Ready) : Prop where
  nodup : (ready.snapshotRequests.map SnapshotRequest.peerId).Nodup
  listed : ∀ r ∈ ready.snapshotRequests, r.peerId ∈ ids

theorem RequestsOk.length_le {ready : Ready} (h : RequestsOk ids ready) :
    ready.snapshotRequests.length ≤ ids.length := by
  have hsub : ready.snapshotRequests.map SnapshotRequest.peerId ⊆ ids := by
    intro id hid
    obtain ⟨r, hr, rfl⟩ := List.mem_map.mp hid
    exact h.listed r hr
  rw [← List.length_map (f := SnapshotRequest.peerId)]
  exact (List.Nodup.subperm h.nodup hsub).length_le

theorem Wrote.requests (h : Wrote call peer next)
    (hpeer : peerId call.core peer ∈ ids) (hrequests : RequestsOk ids call.ready) :
    RequestsOk ids next.ready := by
  have hsame : ∀ messages, RequestsOk ids (withEmissions call messages []) := by
    intro messages
    unfold withEmissions
    rw [List.append_nil]
    exact ⟨hrequests.nodup, hrequests.listed⟩
  cases h with
  | nothing => exact hrequests
  | append | heartbeat => exact hsame _
  | snapshot requests fresh =>
    rcases fresh with rfl | ⟨rfl, hnew⟩
    · exact hsame _
    · refine ⟨?_, ?_⟩
      · dsimp only [withEmissions]
        rw [List.map_append, List.nodup_append]
        refine ⟨hrequests.nodup, List.pairwise_singleton _ _, ?_⟩
        intro id hid id' hid' hequal
        obtain ⟨r, hr, rfl⟩ := List.mem_map.mp hid
        rw [List.map_singleton, List.mem_singleton] at hid'
        exact hnew r hr (hequal.trans hid')
      · intro r hr
        rcases List.mem_append.mp hr with hr | hr
        · exact hrequests.listed r hr
        · rw [List.mem_singleton.mp hr]
          exact hpeer

theorem Wrote.spoken (h : Wrote call peer next)
    (hspoken : ∀ role ∈ call.ready.emissionRoles, role = call.core.role) :
    ∀ role ∈ next.ready.emissionRoles, role = next.core.role := by
  have hadded : ∀ messages requests, ∀ role ∈ (withEmissions call messages requests).emissionRoles,
      role = call.core.role := by
    intro messages requests role hrole
    rcases List.mem_append.mp hrole with hrole | hrole
    · exact hspoken role hrole
    · exact (List.mem_replicate.mp hrole).2
  cases h with
  | nothing => exact hspoken
  | snapshot | append | heartbeat => exact hadded _ _

theorem Wrote.messages {P : Message → Prop} (h : Wrote call peer next)
    (hnew : ∀ type, type = .appendRequest ∨ type = .heartbeatRequest →
      P (replicationMessage call.core peer
        (newMessage call.core type (peerId call.core peer) false)))
    (hold : ∀ m ∈ call.ready.messages, P m) : ∀ m ∈ next.ready.messages, P m := by
  have hadded : ∀ type, type = .appendRequest ∨ type = .heartbeatRequest →
      ∀ m ∈ call.ready.messages ++ [replicationMessage call.core peer
        (newMessage call.core type (peerId call.core peer) false)], P m := by
    intro type htype m hm
    rcases List.mem_append.mp hm with hm | hm
    · exact hold m hm
    · rw [List.mem_singleton.mp hm]
      exact hnew type htype
  cases h with
  | nothing => exact hold
  | snapshot =>
    intro m hm
    exact hold m (by simpa [withEmissions] using hm)
  | append => exact hadded _ (Or.inl rfl)
  | heartbeat => exact hadded _ (Or.inr rfl)

end Bounds

variable {core : Core}

def voterCast (call : Call) (type : MessageType) (edit : Message → Message) : Call :=
  forPeers call fun call peer =>
    if remoteVoter call.core peer then
      (emitWith call type (peerId call.core peer) false edit).1
    else
      call

theorem broadcastReadIndex_eq (call : Call) (contextId : UInt64) :
    broadcastReadIndex call contextId =
      voterCast call .readIndexRequest fun message => { message with contextId } := rfl

def castPeers (core : Core) : List ℕ :=
  (List.range core.peers.length).filter fun peer =>
    remoteVoter core peer && !peerPaused core (peerId core peer)

theorem voterCast_eq (call : Call) (type : MessageType) (edit : Message → Message) :
    voterCast call type edit =
      ⟨call.core, withEmissions call ((castPeers call.core).map fun peer =>
        edit (newMessage call.core type (peerId call.core peer) false)) []⟩ := by
  unfold voterCast forPeers castPeers
  generalize List.range call.core.peers.length = peers
  induction peers generalizing call with
  | nil =>
    rw [List.foldl_nil, List.filter_nil, List.map_nil, withEmissions_nothing]
  | cons k rest ih =>
    rw [List.foldl_cons, ih]
    by_cases hvoter : remoteVoter call.core k = true
    · rw [if_pos hvoter]
      unfold emitWith
      cases hpaused : peerPaused call.core (peerId call.core k) with
      | true =>
        rw [if_pos rfl, List.filter_cons_of_neg (by simp [hpaused])]
      | false =>
        rw [if_neg Bool.false_ne_true, List.filter_cons_of_pos (by simp [hvoter, hpaused]),
          List.map_cons]
        simp [withEmissions, List.replicate_succ]
    · rw [if_neg hvoter, List.filter_cons_of_neg (by simp [hvoter])]

theorem castPeers_length (h : idsAscending core.peers = true) :
    (castPeers core).length = unpausedRemoteVoterCount core := by
  have hzip : core.peers.zipIdx.map Prod.snd = List.range core.peers.length := by
    rw [List.zipIdx_map_snd, List.range_eq_range']
  unfold castPeers unpausedRemoteVoterCount
  rw [← List.countP_eq_length_filter, ← hzip, List.countP_map]
  apply List.countP_congr
  rintro ⟨id, k⟩ hmem
  obtain ⟨_, hk, hid⟩ := List.mem_zipIdx hmem
  have hsame : peerId core k = id := by
    rw [hid, peerId, List.getElem?_eq_getElem (by omega)]
    rfl
  have hlive := peerPaused_at (k := k) h (by omega)
  rw [hsame] at hlive
  simp [remoteVoter, hsame, hlive, and_assoc]

section Emissions

variable {P : Message → Prop} {Q : SnapshotRequest → Prop} {call next : Call} {allowed : ℕ → Prop}
  {type : MessageType}

theorem sending_emitted (h : Sending allowed call next) (hspeaks : Speaks P Q call.core)
    (hallowed : ∀ peer, allowed peer → Q (snapshotRequestFor call.core peer)) :
    Emitted P Q call next := by
  induction h with
  | refl => exact .refl P Q call
  | step allowHeartbeat before permitted ih =>
    refine ih.trans (emitReplication_emitted (hspeaks.progressed before.progressed) ?_ _)
    obtain ⟨_, _, hcore⟩ := before.progressed
    rw [hcore]
    exact hallowed _ permitted

theorem broadcastReplication_emitted (h : Speaks P Q call.core) :
    Emitted P Q call (broadcastReplication call) :=
  sending_emitted (broadcastReplication_sending call) h fun peer hpeer => h.snapshot peer hpeer.2

theorem fillReplicationWindows_emitted (h : call.core.role = .leader → Speaks P Q call.core) :
    Emitted P Q call (fillReplicationWindows call) := by
  by_cases hrole : call.core.role = .leader
  · exact sending_emitted (fillReplicationWindows_sending call) (h hrole)
      fun peer hpeer => (h hrole).snapshot peer hpeer.2
  · rw [show fillReplicationWindows call = call from if_pos (bne_iff_ne.mpr hrole)]
    exact .refl P Q call

theorem fillPeerReplicationWindow_emitted {peer : ℕ} (h : Speaks P Q call.core)
    (hrequest : Q (snapshotRequestFor call.core peer)) :
    Emitted P Q call (fillPeerReplicationWindow call peer) := by
  apply sending_emitted (fillPeerReplicationWindow_sending call peer) h
  rintro _ rfl
  exact hrequest

theorem voterCast_emitted {edit : Message → Message}
    (hmsg : ∀ toId, P (edit (newMessage call.core type toId false))) :
    Emitted P Q call (voterCast call type edit) := by
  rw [voterCast_eq]
  refine ⟨.refl _, _, [], rfl, ?_, fun _ hr => absurd hr List.not_mem_nil⟩
  intro m hm
  obtain ⟨peer, _, rfl⟩ := List.mem_map.mp hm
  exact hmsg _

theorem broadcast_emitted
    (hmsg : ∀ toId, P (newMessage call.core type toId false)) :
    Emitted P Q call (broadcast call type) :=
  voterCast_emitted hmsg

theorem broadcastReadIndex_emitted {contextId : UInt64}
    (hmsg : ∀ toId, P { newMessage call.core .readIndexRequest toId false with
      contextId }) :
    Emitted P Q call (broadcastReadIndex call contextId) :=
  voterCast_emitted hmsg

end Emissions

end RaftOutbox
