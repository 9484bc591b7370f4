import TurboRaft.RaftOrder

/-! # How a core behaves towards others

A second pass over the bodies of all calls, this time for what they send: to whom, in which
role, how much of it, and what happens to the reads meanwhile. -/
namespace RaftConduct

open RaftTypes RaftConfiguration RaftMembership RaftMembershipTransition RaftLog RaftCoreState
open RaftCoreEmit RaftCoreStep RaftCore RaftTransitionLemmas RaftConfigurationLemmas RaftQuorum
open RaftRefinement RaftEmission RaftCoreRuns RaftOutbox RaftCallRefinement RaftCoreHistories
open RaftCoreProgress RaftLogReconcile RaftOrder RaftReplicationEffects

variable {core core' : Core} {call call' : Call}

section Conduct

variable {type : MessageType} {edit : Message → Message} {toId : NodeId} {granted : Bool}

/-- What the input of a call may be assumed to avoid: sending with a stale peer index or after
losing the leadership, an answer nobody made room for, and a commit that moves acknowledged
peers. `reading` says that the input works on the reads themselves. -/
structure Terms where
  settled : Prop
  roomy : Prop
  unmoved : Prop
  reading : Prop

def leaderOnly : MessageType → Bool
  | .appendRequest | .heartbeatRequest | .readIndexRequest | .timeoutNow => true
  | _ => false

/-- A message goes to a peer of before or after the call. The role of its sender is the one at
the end of the call, which `Conduct.spoken` shows to be the one at the emission. -/
structure Addressed (before after : Core) (m : Message) : Prop where
  remote : m.toId ≠ after.selfId
  known : m.toId ∈ before.peers ∨ m.toId ∈ after.peers
  leading : leaderOnly m.type = true → after.role = .leader
  caught_up : m.type = .timeoutNow → ∃ peer, voterIndex after m.toId = some peer ∧
    after.matchIndex peer = logLastIndex after.log

structure RequestAddressed (after : Core) (r : SnapshotRequest) : Prop where
  remote : r.peerId ≠ after.selfId
  known : r.peerId ∈ after.peers
  leading : after.role = .leader

structure Posted (before : Core) (call : Call) : Prop where
  messages : ∀ m ∈ call.ready.messages, Addressed before call.core m
  requests : ∀ r ∈ call.ready.snapshotRequests, RequestAddressed call.core r

theorem Posted.unsent {before : Core} (h : Posted before call) (hrole : call.core.role ≠ .leader)
    (hkinds : ∀ m ∈ call.ready.messages, leaderOnly m.type = true) : ¬ Sent call.ready := by
  rintro (hsent | hsent)
  · obtain ⟨m, hm⟩ := List.exists_mem_of_ne_nil _ hsent
    exact hrole ((h.messages m hm).leading (hkinds m hm))
  · obtain ⟨r, hr⟩ := List.exists_mem_of_ne_nil _ hsent
    exact hrole (h.requests r hr).leading

theorem unposted_replication {before : Core} {allowed : ℕ → Prop} (hsending : Sending allowed call call')
    (hnone : call.ready.messages = []) (hrole : call.core.role ≠ .leader)
    (hsent : Sent call'.ready) : ¬ Posted before call' := by
  have hspeaks : Speaks (fun m => leaderOnly m.type = true) (fun _ => True) call.core := by
    refine ⟨fun _ _ type _ htype _ => ?_, fun _ _ => trivial⟩
    rcases htype with rfl | rfl <;> rfl
  obtain ⟨⟨_, _, hcore⟩, messages, requests, hready, hkinds, _⟩ :=
    sending_emitted hsending hspeaks fun _ _ => trivial
  refine fun hposted => hposted.unsent ?_ ?_ hsent
  · rw [hcore]
    exact hrole
  · rw [hready]
    change ∀ m ∈ call.ready.messages ++ messages, _
    rw [hnone]
    exact hkinds

/-- A call sends to peers, and what only a leader may say it says as a leader. -/
structure SendsToPeers (before : Core) (call : Call) : Prop extends Posted before call where
  toSomebody : (∀ m ∈ call.ready.messages, m.toId ≠ 0) ∧
    ∀ r ∈ call.ready.snapshotRequests, r.peerId ≠ 0
  spoken : ∀ role ∈ call.ready.emissionRoles, role = call.core.role

/-- The bits of acknowledged reads still stand for the same peers. -/
def AcksHeld (core core' : Core) : Prop :=
  ∀ k p, core.pendingReadAcks.testBit k = true → core'.peers[k]? = some p →
    core.peers[k]? = some p

def AcksHeldBy (core : Core) (peers : List NodeId) : Prop :=
  ∀ k p, core.pendingReadAcks.testBit k = true → peers[k]? = some p → core.peers[k]? = some p

/-- What a call that does not work on the reads does to them. -/
inductive ReadStep (T : Terms) (core : Core) (call : Call) : Prop where
  | busy (reading : T.reading)
  | kept (reads : readView call.core = readView core) (role : call.core.role = core.role)
      (term : call.core.term = core.term) (held : T.unmoved → AcksHeld core call.core)
      (states : call.ready.readStates = [])
  | cleared (contexts : call.core.pendingReadContexts = [])
      (waiting : call.core.waitingReadContexts = []) (states : call.ready.readStates = [])

/-- What one call sends and does to the reads. Whatever it emits, it emits in the role that it
has at its end. -/
structure Conduct (T : Terms) (start call : Call) : Prop where
  orderly : Orderly call.core
  capacity : call.ready.messageCapacity = start.ready.messageCapacity
  posted : T.settled → Posted start.core call
  spoken : ∀ role ∈ call.ready.emissionRoles, role = call.core.role
  fits : T.roomy → Fits call
  requests : call.ready.snapshotRequests.length ≤ maxMembers
  states : call.ready.readStates.length ≤ start.core.maxPendingReads
  reads : ReadStep T start.core call

structure Silent (ready : Ready) : Prop where
  messages : ready.messages = []
  requests : ready.snapshotRequests = []
  states : ready.readStates = []
  roles : ready.emissionRoles = []

structure Blank (call : Call) : Prop extends Silent call.ready where
  inv : CoreInv call.core
  orderly : Orderly call.core

variable {T : Terms} {start next : Call}

theorem ReadStep.carry (h : ReadStep T core call) (hreads : readView call'.core = readView call.core)
    (hrole : call'.core.role = call.core.role) (hterm : call'.core.term = call.core.term)
    (hpeers : call'.core.peers = call.core.peers)
    (hstates : call'.ready.readStates = call.ready.readStates) : ReadStep T core call' := by
  cases h with
  | busy reading => exact .busy reading
  | kept reads role term held states =>
    refine .kept (hreads.trans reads) (hrole.trans role) (hterm.trans term) ?_
      (hstates.trans states)
    intro hunmoved k p hbit hp
    exact held hunmoved k p hbit (hpeers ▸ hp)
  | cleared contexts waiting states =>
    exact .cleared ((congrArg ReadView.contexts hreads).trans contexts)
      ((congrArg ReadView.waiting hreads).trans waiting) (hstates.trans states)

theorem acksHeld_refl (hpeers : core'.peers = core.peers) : AcksHeld core core' :=
  fun _ _ _ hp => hpeers ▸ hp

theorem Conduct.quiet (horderly : Orderly call.core)
    (hcapacity : call.ready.messageCapacity = start.ready.messageCapacity)
    (hsilent : Silent call.ready) (hreads : ReadStep T start.core call) :
    Conduct T start call where
  orderly := horderly
  capacity := hcapacity
  posted _ := by
    refine ⟨?_, ?_⟩
    · rw [hsilent.messages]
      exact fun m hm => absurd hm List.not_mem_nil
    · rw [hsilent.requests]
      exact fun r hr => absurd hr List.not_mem_nil
  spoken := by
    rw [hsilent.roles]
    exact fun role hrole => absurd hrole List.not_mem_nil
  fits _ := by
    rw [Fits, hsilent.messages]
    exact Nat.zero_le _
  requests := by
    rw [hsilent.requests]
    exact Nat.zero_le _
  states := by
    rw [hsilent.states]
    exact Nat.zero_le _
  reads := hreads

theorem Blank.silent (h : Blank start) (horderly : Orderly core')
    (hreads : ReadStep T start.core ⟨core', start.ready⟩) : Conduct T start ⟨core', start.ready⟩ :=
  .quiet horderly rfl h.toSilent hreads

theorem Blank.unchanged (h : Blank start) : Conduct T start start :=
  h.silent h.orderly (.kept rfl rfl rfl (fun _ => acksHeld_refl rfl) h.states)

theorem Blank.follow (h : Blank start) (term : ℕ) :
    Conduct T start { start with core := becomeFollower start.core term } :=
  h.silent (h.orderly.follow term) (.cleared rfl rfl h.states)

theorem Conduct.emit (h : Conduct T start call) (hnone : call.ready.messages = [])
    (haddressed : T.settled → peerPaused call.core toId = false →
      Addressed start.core call.core (edit (newMessage call.core type toId granted)))
    (hroom : T.roomy → peerPaused call.core toId = false → 1 ≤ call.ready.messageCapacity) :
    Conduct T start (emitWith call type toId granted edit).1 := by
  unfold emitWith
  cases hpaused : peerPaused call.core toId with
  | true => exact h
  | false =>
    rw [if_neg Bool.false_ne_true, hnone]
    refine { h with
      posted := fun hsettled => ⟨?_, (h.posted hsettled).requests⟩
      spoken := fun role hrole => (List.mem_append.mp hrole).elim (h.spoken role)
        List.mem_singleton.mp
      fits := fun hroomy => hroom hroomy hpaused
      reads := h.reads.carry rfl rfl rfl rfl rfl }
    intro m hm
    rw [List.nil_append, List.mem_singleton] at hm
    rw [hm]
    exact haddressed hsettled hpaused

theorem Conduct.answer (h : Conduct T start call) (hnone : call.ready.messages = [])
        (htype : leaderOnly type = false) (hknown : toId ∈ start.core.peers)
    (hremote : toId ≠ call.core.selfId)
    (hedit : ∀ m, (edit m).type = m.type ∧ (edit m).toId = m.toId)
    (hroom : T.roomy → peerPaused call.core toId = false → 1 ≤ call.ready.messageCapacity) :
    Conduct T start (emitWith call type toId granted edit).1 := by
  refine h.emit hnone (fun _ _ => ?_) hroom
  obtain ⟨hkind, hto⟩ := hedit (newMessage call.core type toId granted)
  refine ⟨?_, Or.inl ?_, ?_, ?_⟩
  · rw [hto]
    exact hremote
  · rw [hto]
    exact hknown
  · rw [hkind]
    exact fun htrue => absurd (htype.symm.trans htrue) Bool.false_ne_true
  · rw [hkind]
    rintro rfl
    exact absurd htype (by decide)

theorem Conduct.touch (h : Conduct T start call) (horderly : Orderly core')
    (hview : coreView core' = { coreView call.core with campaignTerm := core'.campaignTerm })
    (hreads : readView core' = readView call.core) :
    Conduct T start { call with core := core' } := by
  have hself : core'.selfId = call.core.selfId := congrArg CoreView.selfId hview
  have hpeers : core'.peers = call.core.peers := congrArg CoreView.peers hview
  have hrole : core'.role = call.core.role := congrArg CoreView.role hview
  have hlog : core'.log = call.core.log := congrArg CoreView.log hview
  have hmatch : core'.matchIndex = call.core.matchIndex := congrArg CoreView.matchIndex hview
  have hvoter : ∀ nodeId, voterIndex core' nodeId = voterIndex call.core nodeId := by
    intro nodeId
    rw [voterIndex, peerIndex, hpeers, coreMembership, show core'.membershipTransition =
      call.core.membershipTransition from congrArg CoreView.transition hview]
    rfl
  refine { h with orderly := horderly, posted := ?_, spoken := hrole ▸ h.spoken, reads := ?_ }
  · intro hsettled
    refine ⟨fun m hm => ?_, fun r hr => ?_⟩
    · have hm := (h.posted hsettled).messages m hm
      refine ⟨?_, ?_, ?_, ?_⟩
      · exact hself ▸ hm.remote
      · exact hpeers ▸ hm.known
      · exact hrole ▸ hm.leading
      · rw [hvoter, hmatch, hlog]
        exact hm.caught_up
    · have hr := (h.posted hsettled).requests r hr
      exact ⟨hself ▸ hr.remote, hpeers ▸ hr.known, hrole ▸ hr.leading⟩
  · exact h.reads.carry hreads hrole (congrArg CoreView.term hview) hpeers rfl

theorem Addressed.progressed {m : Message} (h : Addressed core call.core m)
    (hprogress : Progressed call.core core') : Addressed core core' m := by
  obtain ⟨_, _, rfl⟩ := hprogress
  exact ⟨h.remote, h.known, h.leading, h.caught_up⟩

theorem RequestAddressed.progressed {r : SnapshotRequest} (h : RequestAddressed core r)
    (hprogress : Progressed core core') : RequestAddressed core' r := by
  obtain ⟨_, _, rfl⟩ := hprogress
  exact ⟨h.remote, h.known, h.leading⟩

theorem Posted.wrote {peer : ℕ} (h : Posted core call) (hwrote : Wrote call peer next)
    (hremote : RemotePeer call.core peer) (hleader : call.core.role = .leader) :
    Posted core next := by
  have hprogress := hwrote.progressed
  have hmem := hremote.mem
  have hnew : ∀ type, type = .appendRequest ∨ type = .heartbeatRequest →
      Addressed core call.core (replicationMessage call.core peer
        (newMessage call.core type (peerId call.core peer) false)) := by
    intro type htype
    refine ⟨hremote.2, Or.inr hmem, fun _ => hleader, ?_⟩
    rintro rfl
    rcases htype with htype | htype <;> cases htype
  have hmessages := hwrote.messages hnew h.messages
  have hrequests : ∀ r ∈ next.ready.snapshotRequests, RequestAddressed call.core r := by
    cases hwrote with
    | nothing => exact h.requests
    | append | heartbeat => simpa [withEmissions] using h.requests
    | snapshot requests fresh =>
      intro r hr
      rcases List.mem_append.mp hr with hr | hr
      · exact h.requests r hr
      · rcases fresh with rfl | ⟨rfl, _⟩
        · exact absurd hr List.not_mem_nil
        · rw [List.mem_singleton.mp hr]
          exact ⟨hremote.2, hmem, hleader⟩
  exact ⟨fun m hm => (hmessages m hm).progressed hprogress,
    fun r hr => (hrequests r hr).progressed hprogress⟩

/-- Replication after a body. The peers it is for are remote, and only a leader replicates. -/
theorem Conduct.sending {allowed : ℕ → Prop} {ids : List NodeId} (h : Conduct T start call)
    (hnone : call.ready.snapshotRequests = []) (hsending : Sending allowed call next)
    (hallowed : T.settled → ∀ peer, allowed peer → RemotePeer call.core peer)
    (hleader : T.settled → call.core.role = .leader) (hids : ids.length ≤ maxMembers)
    (hlisted : ∀ peer, allowed peer → peerId call.core peer ∈ ids) : Conduct T start next := by
  -- what one attempt keeps
  obtain ⟨hprogress, hwindows, hrequests, hfits, hposted, hspoken, hready⟩ := hsending.keeps
    (fun mid => WindowsOk mid.core ∧ RequestsOk ids mid.ready ∧ (T.roomy → Fits mid) ∧
      (T.settled → Posted start.core mid) ∧
      (∀ role ∈ mid.ready.emissionRoles, role = mid.core.role) ∧
      mid.ready.messageCapacity = call.ready.messageCapacity ∧
      mid.ready.readStates = call.ready.readStates)
    ⟨h.orderly.windows, ⟨by simp [hnone], by simp [hnone]⟩, h.fits, h.posted, h.spoken,
      rfl, rfl⟩
    (by
      rintro mid peer after hprogress hpeer
        ⟨hwindows, hrequests, hfits, hposted, hspoken, hcap, hstates⟩ hwrote
      have hsame : peerId mid.core peer = peerId call.core peer := by
        obtain ⟨_, _, hcore⟩ := hprogress
        rw [hcore]
        rfl
      refine ⟨hwrote.windows hwindows, hwrote.requests (hsame ▸ hlisted peer hpeer) hrequests,
        fun hroomy => hwrote.fits (hfits hroomy), ?_, hwrote.spoken hspoken, ?_, ?_⟩
      · intro hsettled
        refine (hposted hsettled).wrote hwrote
          ((remotePeer_progressed hprogress peer).mpr (hallowed hsettled peer hpeer)) ?_
        obtain ⟨_, _, hcore⟩ := hprogress
        rw [hcore]
        exact hleader hsettled
      · cases hwrote <;> exact hcap
      · cases hwrote <;> exact hstates)
  have hreads : ReadStep T start.core next := by
    obtain ⟨_, _, hcore⟩ := hprogress
    exact h.reads.carry (by rw [hcore]; rfl) (by rw [hcore]; rfl) (by rw [hcore]; rfl)
      (by rw [hcore]; rfl) hready.2
  exact
    { orderly := h.orderly.progressed hprogress hwindows
      capacity := hready.1.trans h.capacity
      posted := hposted
      spoken := hspoken
      fits := hfits
      requests := hrequests.length_le.trans hids
      states := hready.2 ▸ h.states
      reads := hreads }

theorem Conduct.replicate (h : Conduct T start call) (hnone : call.ready.snapshotRequests = [])
    (hpeers : call.core.peers.length ≤ maxMembers)
    (hsending : Sending (RemotePeer call.core) call next)
    (hleader : T.settled → call.core.role = .leader) : Conduct T start next :=
  h.sending hnone hsending (fun _ _ hpeer => hpeer) hleader hpeers fun _ hpeer =>
    hpeer.mem

theorem Conduct.cast (h : Conduct T start call) (hnone : call.ready.messages = [])
    (hascending : idsAscending call.core.peers = true)
    (hedit : ∀ m, (edit m).type = m.type ∧ (edit m).toId = m.toId)
    (hleader : leaderOnly type = true → call.core.role = .leader) (htype : type ≠ .timeoutNow)
    (hroom : unpausedRemoteVoterCount call.core ≤ call.ready.messageCapacity) :
    Conduct T start (voterCast call type edit) := by
  rw [voterCast_eq, withEmissions, hnone, List.append_nil, List.nil_append]
  refine { h with
    posted := fun hsettled => ⟨?_, (h.posted hsettled).requests⟩
    spoken := fun role hrole => (List.mem_append.mp hrole).elim (h.spoken role)
      fun hnew => (List.mem_replicate.mp hnew).2
    fits := fun _ => ?_
    reads := h.reads.carry rfl rfl rfl rfl rfl }
  · intro m hm
    obtain ⟨peer, hpeer, rfl⟩ := List.mem_map.mp hm
    obtain ⟨hrange, hvoter⟩ := List.mem_filter.mp hpeer
    simp only [remoteVoter, Bool.and_eq_true, bne_iff_ne] at hvoter
    have hremote : RemotePeer call.core peer := ⟨List.mem_range.mp hrange, hvoter.1.1⟩
    obtain ⟨hkind, hto⟩ := hedit (newMessage call.core type (peerId call.core peer) false)
    refine ⟨?_, Or.inr ?_, ?_, ?_⟩
    · rw [hto]
      exact hremote.2
    · rw [hto]
      exact hremote.mem
    · rw [hkind]
      exact hleader
    · rw [hkind]
      exact fun heq => absurd heq htype
  · rw [Fits, List.length_map, castPeers_length hascending]
    exact hroom

theorem unpausedVoters_le (core : Core) :
    unpausedRemoteVoterCount core ≤ unpausedRemotePeerCount core := by
  apply List.countP_mono_left
  intro p _ hp
  simp only [Bool.and_eq_true] at hp ⊢
  exact ⟨hp.1.1, hp.2⟩

theorem Blank.peers (h : Blank start) :
    start.core.peers.length ≤ maxMembers ∧ idsAscending start.core.peers = true := by
  obtain ⟨hlength, hascending, _⟩ := peerSetBuild_spec h.inv.peers
  exact ⟨hlength, hascending⟩

end Conduct

section Elections

variable {T : Terms} {start : Call} {m : Message} {peer : ℕ}

/-- The core as it campaigns: it has the peers of the beginning, and is a voter. -/
structure Campaigning (start : Call) (core : Core) : Prop where
  orderly : Orderly core
  peers : core.peers = start.core.peers
  voter : core.selfIsVoter = true
  unread : core.role ≠ .leader
  room : unpausedRemoteVoterCount core ≤ start.ready.messageCapacity

theorem Blank.becomeLeader (h : Blank start) (hcore : Orderly core)
    (hpeers : core.peers = start.core.peers) (hvoter : core.selfIsVoter = true) :
    Conduct T start (becomeLeader { start with core }) := by
  obtain ⟨hcontexts, hwaiting, _⟩ := leaderState_fresh core
  have hview := leaderState_view core
  have hlead : Conduct T start ⟨leaderState core, start.ready⟩ :=
    h.silent (hcore.lead hvoter) (.cleared hcontexts hwaiting h.states)
  apply hlead.replicate h.requests _ (broadcastReplication_sending _)
  · exact fun _ => congrArg CoreView.role hview
  · rw [show (leaderState core).peers = core.peers from congrArg CoreView.peers hview, hpeers]
    exact h.peers.1

theorem Campaigning.election (h : Campaigning start core) (hblank : Blank start) :
    Conduct T start (startElection { start with core }) := by
  have hreading := h.orderly.reading h.unread
  have hcandidate : Orderly (candidateState core) :=
    { h.orderly with
      campaigner := fun _ => h.voter
      matched := fun hrole => Role.noConfusion hrole
      reading := fun _ => hreading }
  unfold startElection
  dsimp only
  split_ifs
  · exact hblank.becomeLeader hcandidate h.peers h.voter
  · have hsilent : Conduct T start ⟨candidateState core, start.ready⟩ :=
      hblank.silent hcandidate (.cleared hreading.1 hreading.2 hblank.states)
    exact hsilent.cast hblank.messages (h.peers ▸ hblank.peers.2)
      (fun _ => ⟨rfl, rfl⟩) (fun hfalse => absurd hfalse (by decide)) (by decide) h.room

theorem Campaigning.preVote (h : Campaigning start core) (hblank : Blank start) :
    Conduct T start (startPreVote { start with core }) := by
  have hreading := h.orderly.reading h.unread
  have hcandidate : Orderly (preCandidateState core) :=
    { h.orderly with
      campaigner := fun _ => h.voter
      matched := fun hrole => Role.noConfusion hrole
      reading := fun _ => hreading }
  unfold startPreVote
  dsimp only
  split_ifs
  · exact Campaigning.election ⟨hcandidate, h.peers, h.voter, Role.noConfusion, h.room⟩ hblank
  · have hsilent : Conduct T start ⟨preCandidateState core, start.ready⟩ :=
      hblank.silent hcandidate (.cleared hreading.1 hreading.2 hblank.states)
    exact hsilent.cast hblank.messages (h.peers ▸ hblank.peers.2)
      (fun _ => ⟨rfl, rfl⟩) (fun hfalse => absurd hfalse (by decide)) (by decide) h.room

end Elections

section Messages

variable {T : Terms} {start : Call} {m : Message} {peer : ℕ}

structure Heard (start : Call) (m : Message) (peer : ℕ) : Prop where
  blank : Blank start
  index : peerIndex start.core m.fromId = some peer
  remote : m.fromId ≠ start.core.selfId
  room : stepRequired start.core m ≤ start.ready.messageCapacity

variable (h : Heard start m peer)

include h

theorem Heard.sender : start.core.peers[peer]? = some m.fromId :=
  (ascendingIndex_sound h.index).2

theorem Heard.mem : m.fromId ∈ start.core.peers :=
  List.mem_of_getElem? h.sender

theorem Heard.answers (hrequired : stepRequired start.core m = answerCapacity start.core m)
    (hpaused : peerPaused start.core m.fromId = false) : 1 ≤ start.ready.messageCapacity := by
  have hroom := h.room
  rw [hrequired, answerCapacity, hpaused] at hroom
  exact hroom

theorem stepPreVoteRequest_conduct (htype : m.type = .preVoteRequest) :
    Conduct T start (stepPreVoteRequest start m) := by
  have hrequired : stepRequired start.core m = answerCapacity start.core m := by
    rw [stepRequired, htype]
  have hcampaign : Conduct T start
      ⟨{ start.core with campaignTerm := m.campaignTerm }, start.ready⟩ :=
    h.blank.silent { h.blank.orderly with }
      (.kept rfl rfl rfl (fun _ => acksHeld_refl rfl) h.blank.states)
  have hanswer : ∀ granted, Conduct T start (emit
      ⟨{ start.core with campaignTerm := m.campaignTerm }, start.ready⟩ .preVoteResponse
        m.fromId granted).1 := fun granted =>
    hcampaign.answer h.blank.messages rfl h.mem h.remote (fun _ => ⟨rfl, rfl⟩)
      (fun _ => h.answers hrequired)
  exact (hanswer _).touch { (hanswer _).orderly with } rfl rfl

theorem stepPreVoteResponse_conduct (htype : m.type = .preVoteResponse) :
    Conduct T start (stepPreVoteResponse start m (voterIndex start.core m.fromId)) := by
  unfold stepPreVoteResponse
  dsimp only
  split_ifs with hterm hignored hwon
  · exact h.blank.follow m.term
  · exact h.blank.unchanged
  · simp only [Bool.or_eq_true, not_or, bne_iff_ne, Decidable.not_not, Bool.not_eq_true',
      Bool.not_eq_false] at hignored
    obtain ⟨⟨⟨hrole, hcampaign⟩, hgranted⟩, hbit⟩ := hignored
    have hwin : willPreVoteWin start.core m (voterIndex start.core m.fromId) = true := by
      have hwon' : coreHasQuorum start.core
          (start.core.preVotes ||| indexBit (voterIndex start.core m.fromId)) = true := hwon
      simp [willPreVoteWin, hrole, Nat.not_lt.mp hterm, hcampaign, hgranted, hbit, hwon']
    have hroom := h.room
    rw [stepRequired, htype, if_pos hwin] at hroom
    have hnot : start.core.role ≠ .follower := by
      rw [hrole]
      decide
    apply Campaigning.election _ h.blank
    constructor
    case orderly => exact { h.blank.orderly with }
    case peers => rfl
    case voter => exact h.blank.orderly.campaigner hnot
    case unread =>
      rw [hrole]
      decide
    case room => exact (unpausedVoters_le start.core).trans hroom
  · exact h.blank.silent { h.blank.orderly with }
      (.kept rfl rfl rfl (fun _ => acksHeld_refl rfl) h.blank.states)

theorem stepVoteRequest_conduct (htype : m.type = .voteRequest) :
    Conduct T start (stepVoteRequest start m) := by
  have hrequired : stepRequired start.core m = answerCapacity start.core m := by
    rw [stepRequired, htype]
  have hfollowed : Conduct T start ⟨termFollowed start.core m, start.ready⟩ ∧
      (termFollowed start.core m).selfId = start.core.selfId ∧
      peerPaused (termFollowed start.core m) m.fromId = peerPaused start.core m.fromId := by
    unfold termFollowed
    split_ifs
    · exact ⟨h.blank.follow m.term, rfl, rfl⟩
    · exact ⟨h.blank.unchanged, rfl, rfl⟩
  obtain ⟨hconduct, hself, hpaused⟩ := hfollowed
  have hvoted : Conduct T start
      ⟨{ termFollowed start.core m with votedFor := m.fromId, electionElapsedTicks := 0 },
        start.ready⟩ :=
    h.blank.silent { hconduct.orderly with } (hconduct.reads.carry rfl rfl rfl rfl rfl)
  change Conduct T start (if voteGranted (termFollowed start.core m) m then
      (emit ⟨{ termFollowed start.core m with votedFor := m.fromId, electionElapsedTicks := 0 },
        start.ready⟩ .voteResponse m.fromId true).1
    else (emit ⟨termFollowed start.core m, start.ready⟩ .voteResponse m.fromId false).1)
  split_ifs
  · exact hvoted.answer h.blank.messages rfl h.mem (hself ▸ h.remote) (fun _ => ⟨rfl, rfl⟩)
      fun _ hlive => h.answers hrequired (hpaused.symm.trans hlive)
  · exact hconduct.answer h.blank.messages rfl h.mem (hself ▸ h.remote) (fun _ => ⟨rfl, rfl⟩)
      fun _ hlive => h.answers hrequired (hpaused.symm.trans hlive)

theorem stepVoteResponse_conduct (voter : Option ℕ) :
    Conduct T start (stepVoteResponse start m voter) := by
  unfold stepVoteResponse
  dsimp only
  split_ifs with hterm hignored hwon
  · exact h.blank.follow m.term
  · exact h.blank.unchanged
  · simp only [Bool.or_eq_true, not_or, bne_iff_ne, Decidable.not_not] at hignored
    have hnot : start.core.role ≠ .follower := by
      rw [hignored.1.1.1]
      decide
    exact h.blank.becomeLeader { h.blank.orderly with } rfl (h.blank.orderly.campaigner hnot)
  · exact h.blank.silent { h.blank.orderly with }
      (.kept rfl rfl rfl (fun _ => acksHeld_refl rfl) h.blank.states)

theorem stepTimeoutNow_conduct (htype : m.type = .timeoutNow) :
    Conduct T start (stepTimeoutNow start m) := by
  unfold stepTimeoutNow
  split_ifs with haccepted
  · have hroom := h.room
    rw [stepRequired, htype] at hroom
    rw [if_pos haccepted] at hroom
    simp only [timeoutNowAccepted, Bool.and_eq_true, beq_iff_eq] at haccepted
    obtain ⟨⟨⟨⟨hvoter, hrole⟩, _⟩, _⟩, _⟩ := haccepted
    apply Campaigning.election _ h.blank
    refine ⟨{ h.blank.orderly with }, rfl, hvoter, ?_, hroom⟩
    rw [hrole]
    decide
  · exact h.blank.unchanged

theorem stepReadIndexRequest_conduct (htype : m.type = .readIndexRequest) :
    Conduct T start (stepReadIndexRequest start m) := by
  unfold stepReadIndexRequest
  split_ifs with haccepted
  · have hrequired : stepRequired start.core m = answerCapacity start.core m := by
      rw [stepRequired, htype]
      exact if_pos haccepted
    exact h.blank.unchanged.answer h.blank.messages rfl h.mem h.remote (fun _ => ⟨rfl, rfl⟩)
      fun _ => h.answers hrequired
  · exact h.blank.unchanged

end Messages

variable {T : Terms} {start : Call} {m : Message} {peer : ℕ} {peers : List NodeId}

variable {transition : MembershipTransition} {log : Log} {id : NodeId}

theorem index_of_mem {ids : List NodeId} (h : idsAscending ids = true) (hid : id ∈ ids)
    : ∃ k, ids[k]? = some id ∧ ascendingIndex ids id = some k := by
  obtain ⟨k, hk⟩ := List.mem_iff_getElem?.mp hid
  exact ⟨k, hk, ascendingIndex_complete h hk⟩

theorem coreRefreshPeers_paused (hold : idsAscending core.peers = true)
    (hnew : idsAscending peers = true) (hmem : id ∈ core.peers) (hmem' : id ∈ peers)
    : peerPaused (coreRefreshPeers core peers) id = peerPaused core id := by
  by_cases hsame : core.peers == peers
  · rw [coreRefreshPeers, if_pos hsame]
  obtain ⟨k, hk, hindex⟩ := index_of_mem hold hmem
  obtain ⟨k', hk', hindex'⟩ := index_of_mem hnew hmem'
  have hlt := (List.getElem?_eq_some_iff.mp hk).1
  have hlt' := (List.getElem?_eq_some_iff.mp hk').1
  have hmask : (coreRefreshPeers core peers).pausedPeers =
      carryMask core.peers peers core.pausedPeers := by
    rw [coreRefreshPeers]
    split_ifs
    · unfold refreshSelf
      cases peerIndex (carriedPeers core peers) (carriedPeers core peers).selfId <;> rfl
    · rfl
  have hpeers : (coreRefreshPeers core peers).peers = peers :=
    congrArg CoreView.peers (coreRefreshPeers_view core peers)
  have hbit : (carryMask core.peers peers core.pausedPeers).testBit k' =
      core.pausedPeers.testBit k := by
    rw [carryMask, testBit_maskOf, hk', Option.getD_some,
      show peerSetIndex core.peers id = some k from hindex]
    simp [hlt']
  unfold peerPaused peerIndexPaused peerIndex
  rw [hpeers, hmask, show peerSetIndex core.peers id = some k from hindex,
    show peerSetIndex peers id = some k' from hindex']
  simp [hbit, hlt, hlt']

/-- The configurations after a matching request and the commit it allows. -/
def requestedTransition (core : Core) (m : Message) : Option MembershipTransition :=
  match requestTransition core m, logReconcile core.log m.previousLogIndex m.previousLogTerm
      m.entries core.commitIndex with
  | .ok transition, .ok (log, reconcile) =>
    if reconcile.matched then
      some (if core.commitIndex < m.leaderCommit then
        membershipTransitionApply transition (membershipTransitionCommitLimit transition
          (min m.leaderCommit (logLastIndex log)))
      else
        transition)
    else
      none
  | _, _ => none

/-- A request removes its own sender from the peers. -/
def senderDropped (core : Core) (m : Message) : Bool :=
  match requestedTransition core m with
  | none => false
  | some transition =>
    match coreBuildPeerSet transition with
    | .error _ => false
    | .ok peers => !peers.contains m.fromId

theorem peerPaused_missing (h : id ∉ core.peers) : peerPaused core id = false := by
  unfold peerPaused
  cases hindex : peerIndex core id with
  | none => rfl
  | some k => exact absurd (List.mem_of_getElem? (ascendingIndex_sound hindex).2) h

theorem emitWith_length {type : MessageType} {toId : NodeId} {granted : Bool}
    {edit : Message → Message} (hlive : peerPaused call.core toId = false)
    (hnone : call.ready.messages = []) :
    (emitWith call type toId granted edit).1.ready.messages.length = 1 := by
  rw [emitWith, hlive]
  rw [hnone]
  rfl

theorem apply_peers_subset {i : ℕ} {less : List NodeId}
    (h : coreBuildPeerSet transition = .ok peers)
    (hless : coreBuildPeerSet (membershipTransitionApply transition i) = .ok less) :
    less ⊆ peers := by
  obtain ⟨_, _, hlisted⟩ := peerSetBuild_spec h
  obtain ⟨_, _, hlisted'⟩ := peerSetBuild_spec hless
  intro id hid
  obtain ⟨hmax, s, hs, hmem⟩ := (hlisted' id).mp hid
  obtain ⟨c, hc, rfl⟩ := List.mem_map.mp hs
  have hsub := (applyPending_subset i transition.committed transition.pending).1 hc
  exact (hlisted id).mpr ⟨hmax, _, List.mem_map_of_mem hsub, hmem⟩

structure Adopted (core : Core) (m : Message) (next : Core) : Prop where
  orderly : Orderly next
  selfId : next.selfId = core.selfId
  contexts : next.pendingReadContexts = []
  waiting : next.waitingReadContexts = []
  requested : requestedTransition core m = some next.membershipTransition
  built : coreBuildPeerSet next.membershipTransition = .ok next.peers
  paused : ∀ id ∈ core.peers, id ∈ next.peers → peerPaused next id = peerPaused core id

theorem acceptedCore_orderly (h : Orderly core)
    (hcommitted : transition.committed = core.membershipTransition.committed) :
    Orderly (acceptedCore core m log transition peers) := by
  have hfollower : Orderly (becomeFollower
      { core with log, membershipTransition := transition } m.term) := by
    apply orderly_follower
    · change core.selfIsVoter = membershipIsVoter transition.committed core.selfId
      rw [hcommitted]
      exact h.voter
    · exact h.room
    · exact h.limit
  have haccepted : Orderly { acceptLeader core m log with membershipTransition := transition } :=
    { hfollower with }
  exact haccepted.refresh peers

theorem acceptedCore_reads (core : Core) (log : Log) (transition : MembershipTransition)
    (peers : List NodeId) :
    (acceptedCore core m log transition peers).pendingReadContexts = [] ∧
      (acceptedCore core m log transition peers).waitingReadContexts = [] := by
  have hreads := (coreRefreshPeers_undisturbed
    { acceptLeader core m log with membershipTransition := transition } peers).1.reads
  exact ⟨congrArg ReadView.contexts hreads, congrArg ReadView.waiting hreads⟩

theorem followerCommit_eq (hrole : core.role = .follower) {i : ℕ}
    (hi : i = membershipTransitionCommitLimit core.membershipTransition
      (min m.leaderCommit (logLastIndex core.log)))
    (hbuild : coreBuildPeerSet (membershipTransitionApply core.membershipTransition i) = .ok peers) :
    followerCommit core m = (.ok,
      if core.commitIndex < m.leaderCommit then syncedCore (appliedCore core i) peers
      else core) := by
  unfold followerCommit
  split_ifs
  · rw [← hi, advanceCommit_eq hbuild, committedCore, if_neg]
    rintro ⟨_, hleader⟩
    rw [hrole] at hleader
    cases hleader
  · rfl

theorem acceptedCore_paused (hinv : CoreInv core)
    (hpeers : coreBuildPeerSet transition = .ok peers) (hid : id ∈ core.peers) (hid' : id ∈ peers) :
    peerPaused (acceptedCore core m log transition peers) id = peerPaused core id := by
  refine (coreRefreshPeers_paused ?_ ?_ ?_ hid').trans rfl
  · exact (peerSetBuild_spec hinv.peers).2.1
  · exact (peerSetBuild_spec hpeers).2.1
  · exact hid

theorem syncedCore_paused (hold : idsAscending core.peers = true)
    (hnew : idsAscending peers = true) (hid : id ∈ core.peers) (hid' : id ∈ peers) :
    peerPaused (syncedCore core peers) id = peerPaused core id := by
  refine (coreRefreshPeers_paused ?_ hnew ?_ hid').trans rfl
  · exact hold
  · exact hid

theorem adopted_next (h : Orderly core) (hinv : CoreInv core) {r : ReconcileResult}
    (hok : logReconcile core.log m.previousLogIndex m.previousLogTerm m.entries
      core.commitIndex = .ok (log, r)) (hmatched : r.matched = true)
    (hrequest : requestTransition core m = .ok transition) :
    ∃ next, adoptTransition (acceptLeader core m log) m transition = (.ok, next) ∧
      Adopted core m next := by
  obtain ⟨hmatches, _⟩ := logReconcile_matches hok
  have hrebuilt := hrequest
  rw [requestTransition, hmatches.trans hmatched] at hrebuilt
  obtain ⟨hstaged, hcommitted⟩ := hinv.rebuild hrebuilt
  obtain ⟨peers, hpeers⟩ := hstaged.built
  have hview := acceptedCore_view core m log transition peers
  have horderly : Orderly (acceptedCore core m log transition peers) :=
    acceptedCore_orderly h hcommitted
  obtain ⟨hcontexts, hwaiting⟩ : (acceptedCore core m log transition peers).pendingReadContexts = []
      ∧ (acceptedCore core m log transition peers).waitingReadContexts = [] :=
    acceptedCore_reads core log transition peers
  have hpaused : ∀ id ∈ core.peers, id ∈ peers →
      peerPaused (acceptedCore core m log transition peers) id = peerPaused core id :=
    fun id hid hid' => acceptedCore_paused hinv hpeers hid hid'
  have hadopt : adoptTransition (acceptLeader core m log) m transition =
      followerCommit (acceptedCore core m log transition peers) m := by
    rw [adoptTransition, hpeers]
    rfl
  rw [hadopt]
  generalize acceptedCore core m log transition peers = accepted at *
  have hrequested : requestedTransition core m = some (if core.commitIndex < m.leaderCommit then
      membershipTransitionApply transition (membershipTransitionCommitLimit transition
        (min m.leaderCommit (logLastIndex log))) else transition) := by
    rw [requestedTransition, hrequest, hok]
    exact if_pos hmatched
  have hselfId : accepted.selfId = core.selfId := congrArg CoreView.selfId hview
  have hrole : accepted.role = .follower := congrArg CoreView.role hview
  have htransition : accepted.membershipTransition = transition := congrArg CoreView.transition hview
  have haccepted : accepted.peers = peers := congrArg CoreView.peers hview
  have hlog : accepted.log = log := congrArg CoreView.log hview
  have hcommit : accepted.commitIndex = core.commitIndex := congrArg CoreView.commitIndex hview
  subst htransition haccepted hlog
  obtain ⟨less, hless⟩ := hstaged.built.apply (membershipTransitionCommitLimit
    accepted.membershipTransition (min m.leaderCommit (logLastIndex accepted.log)))
  refine ⟨_, followerCommit_eq hrole rfl hless, ?_⟩
  rw [hcommit]
  split_ifs at hrequested ⊢ with hbehind
  · generalize membershipTransitionCommitLimit accepted.membershipTransition
      (min m.leaderCommit (logLastIndex accepted.log)) = i at *
    have hsynced := syncedCore_view (appliedCore accepted i) less
    have hreads := (syncedCore_undisturbed (appliedCore accepted i) less).reads
    have hlessPeers : (syncedCore (appliedCore accepted i) less).peers = less :=
      congrArg CoreView.peers hsynced
    have hlessTransition : (syncedCore (appliedCore accepted i) less).membershipTransition =
        membershipTransitionApply accepted.membershipTransition i :=
      congrArg CoreView.transition hsynced
    constructor
    case orderly =>
      have hcommitted := horderly.commit (Or.inr hrole) i less
      rwa [committedCore, if_neg (by simp [hrole])] at hcommitted
    case selfId => exact (congrArg CoreView.selfId hsynced).trans hselfId
    case contexts => exact (congrArg ReadView.contexts hreads).trans hcontexts
    case waiting => exact (congrArg ReadView.waiting hreads).trans hwaiting
    case requested => exact hrequested.trans (congrArg some hlessTransition.symm)
    case built =>
      rw [hlessTransition, hlessPeers]
      exact hless
    case paused =>
      intro id hid hid'
      rw [hlessPeers] at hid'
      have hkept := apply_peers_subset hpeers hless hid'
      refine (syncedCore_paused ?_ (peerSetBuild_spec hless).2.1 ?_ hid').trans
        (hpaused id hid hkept)
      · exact (peerSetBuild_spec hpeers).2.1
      · exact hkept
  · exact ⟨horderly, hselfId, hcontexts, hwaiting, hrequested, hpeers, hpaused⟩

theorem stepRequired_request (h : isRequest m = true) :
    stepRequired core m = answerCapacity core m := by
  unfold isRequest at h
  unfold stepRequired
  cases htype : m.type <;> simp [htype] at h ⊢

theorem answerRequest_conduct (h : Heard start m peer) (hrequest : isRequest m = true)
    (hconduct : Conduct T start call) (hnone : call.ready.messages = [])
    (hself : call.core.selfId = start.core.selfId) (r : ReconcileResult)
    (hpaused : T.roomy → start.ready.messageCapacity = 0 →
      peerPaused start.core m.fromId = true → peerPaused call.core m.fromId = true) :
    Conduct T start (answerRequest call m r) := by
  have hkind : leaderOnly (responseType m) = false := by
    unfold responseType
    split_ifs <;> rfl
  refine hconduct.answer hnone hkind h.mem (hself ▸ h.remote) (fun _ => ⟨rfl, rfl⟩) ?_
  intro hroomy hlive
  rw [hconduct.capacity]
  by_contra hfull
  have hzero : start.ready.messageCapacity = 0 := by omega
  have hbefore : peerPaused start.core m.fromId = true := by
    by_contra hnot
    exact hfull (h.answers (stepRequired_request hrequest) (Bool.not_eq_true _ ▸ hnot))
  rw [hpaused hroomy hzero hbefore] at hlive
  cases hlive

theorem reported_quiet (h : Blank start) (horderly : Orderly core')
    (hcontexts : core'.pendingReadContexts = []) (hwaiting : core'.waitingReadContexts = [])
    (log : Log) (r : ReconcileResult) (old : ℕ) :
    Conduct T start ⟨core', reportCommit (reportLog start.ready log r) old core'.commitIndex⟩ ∧
      (reportCommit (reportLog start.ready log r) old core'.commitIndex).messages = [] := by
  have hsame : ∀ ready, ready = reportCommit (reportLog start.ready log r) old core'.commitIndex →
      ready.messageCapacity = start.ready.messageCapacity ∧ Silent ready := by
    intro ready hready
    unfold reportCommit reportLog at hready
    split_ifs at hready <;> subst hready <;> exact ⟨rfl, { h.toSilent with }⟩
  obtain ⟨hcapacity, hsilent⟩ := hsame _ rfl
  exact ⟨.quiet horderly hcapacity hsilent (.cleared hcontexts hwaiting hsilent.states),
    hsilent.messages⟩

theorem stepHeartbeatRequest_conduct (h : Heard start m peer) (hrequest : isRequest m = true)
    (hroomy : T.roomy → start.core.term ≤ m.term → start.ready.messageCapacity = 0 →
      peerPaused start.core m.fromId = true → senderDropped start.core m = false)
    (hok : stepHeartbeatRequest start m = (.ok, call)) : Conduct T start call := by
  unfold stepHeartbeatRequest at hok
  by_cases hstale : m.term < start.core.term
  · rw [if_pos hstale] at hok
    cases hok
    have hkind : leaderOnly (responseType m) = false := by
      unfold responseType
      split_ifs <;> rfl
    exact h.blank.unchanged.answer h.blank.messages hkind h.mem h.remote (fun _ => ⟨rfl, rfl⟩)
      fun _ => h.answers (stepRequired_request hrequest)
  rw [if_neg hstale] at hok
  cases htransition : requestTransition start.core m with
  | error status =>
    rw [htransition] at hok
    cases hok
    exact h.blank.unchanged
  | ok transition =>
    cases hlog : logReconcile start.core.log m.previousLogIndex m.previousLogTerm m.entries
        start.core.commitIndex with
    | error status =>
      rw [htransition, hlog] at hok
      cases hok
      exact h.blank.unchanged
    | ok result =>
      obtain ⟨log, r⟩ := result
      rw [htransition, hlog] at hok
      dsimp only at hok
      cases hmatched : r.matched with
      | true =>
        obtain ⟨next, hadopt, hadopted⟩ :=
          adopted_next h.blank.orderly h.blank.inv hlog hmatched htransition
        rw [hmatched, hadopt] at hok
        cases hok
        obtain ⟨hconduct, hnone⟩ := reported_quiet (T := T) h.blank hadopted.orderly
          hadopted.contexts hadopted.waiting next.log r start.core.commitIndex
        apply answerRequest_conduct h hrequest hconduct hnone hadopted.selfId r
        intro hr hzero hpaused
        have hkept := hroomy hr (Nat.not_lt.mp hstale) hzero hpaused
        rw [senderDropped, hadopted.requested] at hkept
        dsimp only at hkept
        rw [hadopted.built] at hkept
        have hmem : m.fromId ∈ next.peers := by simpa using hkept
        exact (hadopted.paused m.fromId h.mem hmem).trans hpaused
      | false =>
        rw [hmatched] at hok
        cases hok
        have horderly : Orderly (acceptLeader start.core m log) := by
          have hfollower : Orderly (becomeFollower { start.core with log } m.term) :=
            orderly_follower _ h.blank.orderly.voter h.blank.orderly.room h.blank.orderly.limit
          exact { hfollower with }
        obtain ⟨hconduct, hnone⟩ := reported_quiet (T := T) h.blank horderly rfl rfl
          (acceptLeader start.core m log).log r start.core.commitIndex
        exact answerRequest_conduct h hrequest hconduct hnone rfl r fun _ _ hpaused => hpaused

theorem senderDropped_answered (hblank : Blank start) (hterm : start.core.term ≤ m.term)
    (hdropped : senderDropped start.core m = true) :
    ∃ call, stepHeartbeatRequest start m = (.ok, call) ∧ call.ready.messages.length = 1 := by
  unfold senderDropped at hdropped
  cases htransition : requestTransition start.core m with
  | error status => simp [requestedTransition, htransition] at hdropped
  | ok transition =>
    cases hlog : logReconcile start.core.log m.previousLogIndex m.previousLogTerm m.entries
        start.core.commitIndex with
    | error status => simp [requestedTransition, htransition, hlog] at hdropped
    | ok result =>
      obtain ⟨log, r⟩ := result
      cases hmatched : r.matched with
      | false => simp [requestedTransition, htransition, hlog, hmatched] at hdropped
      | true =>
        obtain ⟨next, hadopt, hadopted⟩ :=
          adopted_next hblank.orderly hblank.inv hlog hmatched htransition
        rw [hadopted.requested] at hdropped
        dsimp only at hdropped
        rw [hadopted.built] at hdropped
        obtain ⟨_, hnone⟩ := reported_quiet (T := ⟨True, True, True, True⟩) hblank hadopted.orderly
          hadopted.contexts hadopted.waiting next.log r start.core.commitIndex
        have hlive : peerPaused next m.fromId = false :=
          peerPaused_missing (by simpa using hdropped)
        refine ⟨answerRequest ⟨next, reportCommit (reportLog start.ready next.log r)
          start.core.commitIndex next.commitIndex⟩ m r, ?_, emitWith_length hlive hnone⟩
        unfold stepHeartbeatRequest
        rw [if_neg (Nat.not_lt.mpr hterm), htransition, hlog]
        dsimp only
        rw [hmatched, if_pos rfl, hadopt]

section Finishing

variable {T : Terms} {start : Call} {capacity peer : ℕ}

theorem Conduct.finish {start : Call} (h : Conduct T start call) (before : Before) :
    Conduct T start (finish before call) := by
  have hadmitted : Conduct T start (admitCommitted call) := by
    unfold admitCommitted
    split_ifs
    · exact
        { h with
          orderly := { h.orderly with }
          posted := fun hsettled =>
            ⟨fun m hm => { (h.posted hsettled).messages m hm with },
              fun r hr => { (h.posted hsettled).requests r hr with }⟩
          reads := h.reads.carry rfl rfl rfl rfl rfl }
    · exact h
  exact
    { hadmitted with
      orderly := { hadmitted.orderly with }
      posted := fun hsettled =>
        ⟨fun m hm => { (hadmitted.posted hsettled).messages m hm with },
          fun r hr => { (hadmitted.posted hsettled).requests r hr with }⟩
      reads := hadmitted.reads.carry rfl rfl rfl rfl rfl }

theorem SendsToPeers.of_finish {before : Before}
    (h : SendsToPeers core (finish before call)) : SendsToPeers (beginCall core capacity).core call := by
  unfold RaftCoreEmit.finish admitCommitted at h
  split_ifs at h <;> exact ⟨⟨fun m hm => { h.messages m hm with },
    fun r hr => { h.requests r hr with }⟩, h.toSomebody, h.spoken⟩

theorem Conduct.replicateOne (h : Conduct T start call) (hnone : call.ready.snapshotRequests = [])
    {next : Call} (hsending : Sending (· = peer) call next)
    (hremote : T.settled → RemotePeer call.core peer)
    (hleader : T.settled → call.core.role = .leader) : Conduct T start next := by
  have hone : [peerId call.core peer].length ≤ maxMembers := by
    rw [List.length_singleton]
    decide
  refine h.sending hnone hsending ?_ hleader hone ?_
  · rintro hsettled _ rfl
    exact hremote hsettled
  · rintro _ rfl
    exact List.mem_singleton_self _

end Finishing

end RaftConduct
