import TurboRaft.RaftLeaderConduct

/-! # How a leader behaves after a response

A response can commit a configuration while its handler holds the index of the sender. What is
sent afterwards is well addressed when the index still belongs to the sender and the leader is
still one. -/
namespace RaftResponseConduct

open RaftTypes RaftMembership RaftLog RaftCoreState RaftCoreEmit RaftCoreStep RaftCore
open RaftTransitionLemmas RaftQuorum RaftRefinement RaftCoreRuns RaftOutbox RaftEmission RaftConduct
open RaftLeaderConduct RaftOrder RaftReplicationEffects Function

variable {core core' : Core} {call call' : Call}

variable {T : Terms} {start next : Call} {m : Message} {peer : ℕ}

def matchRaised (core : Core) (m : Message) (peer : ℕ) : Bool :=
  m.granted && decide (core.matchIndex peer < m.matchIndex)

def raisedCore (core : Core) (m : Message) (peer : ℕ) : Core :=
  setNext (setMatch core peer m.matchIndex) peer (max (core.nextIndex peer) (m.matchIndex + 1))

def responseTransition (core : Core) (m : Message) (peer : ℕ) : MembershipTransition :=
  if matchRaised core m peer then reachedTransition (raisedCore core m peer)
  else core.membershipTransition

/-- The peers and their progress after the commit, which may have given the index of the sender
to another peer or to nobody. -/
def grantedCore (core : Core) (m : Message) (peer : ℕ) : Core :=
  coreRefreshPeers (raisedCore core m peer) (transitionPeers (responseTransition core m peer))

/-- The match that is found under the index of the sender after the commit. -/
def responseMatch (core : Core) (m : Message) (peer : ℕ) : ℕ :=
  if matchRaised core m peer then (grantedCore core m peer).matchIndex peer
  else core.matchIndex peer

structure Granted (start : Call) (m : Message) (peer : ℕ) (next : Call) : Prop where
  orderly : Orderly next.core
  selfId : next.core.selfId = start.core.selfId
  log : next.core.log = start.core.log
  term : next.core.term = start.core.term
  outbox : SameOutbox start.ready next.ready
  built : coreBuildPeerSet (responseTransition start.core m peer) = .ok next.core.peers
  membership : coreMembership next.core = (responseTransition start.core m peer).committed
  deposed : membershipIsVoter (responseTransition start.core m peer).committed
      start.core.selfId = false → next.core.role = .follower ∧
        next.core.leadershipTransferTarget = 0 ∧ next.core.pendingReadContexts = [] ∧
        next.core.waitingReadContexts = [] ∧
        ∀ peer, next.core.appendWindows peer = appendWindowReset true
  leading : membershipIsVoter (responseTransition start.core m peer).committed
      start.core.selfId = true → next.core.role = .leader ∧ Undisturbed start.core next.core
  matched : next.core.matchIndex peer = responseMatch start.core m peer
  raised : matchRaised start.core m peer = true →
    SameProgress { next.core with role := .leader } (grantedCore start.core m peer)
  paused : ∀ id ∈ start.core.peers, id ∈ next.core.peers →
    peerPaused next.core id = peerPaused start.core id

theorem markActive_kept (core : Core) (nodeId : NodeId) (peer : ℕ) :
    coreView (markActive core nodeId peer) = coreView core ∧
      Undisturbed core (markActive core nodeId peer) ∧
      (markActive core nodeId peer).nextIndex = core.nextIndex ∧
      (markActive core nodeId peer).pausedPeers = core.pausedPeers ∧
      (Orderly core → Orderly (markActive core nodeId peer)) := by
  unfold markActive
  split_ifs
  · exact ⟨rfl, ⟨rfl, rfl, rfl⟩, rfl, rfl, fun h => { h with }⟩
  · exact ⟨rfl, ⟨rfl, rfl, rfl⟩, rfl, rfl, fun h => h⟩

theorem peerPaused_congr (hpeers : core'.peers = core.peers)
    (hpaused : core'.pausedPeers = core.pausedPeers) (id : NodeId) :
    peerPaused core' id = peerPaused core id := by
  unfold peerPaused peerIndexPaused peerIndex
  rw [hpeers, hpaused]

theorem granted_of_reached {raised : Core} (hraised : matchRaised start.core m peer = true)
    (hleader : raised.role = .leader)
    (hview : coreView raised = coreView (raisedCore start.core m peer))
    (hundisturbed : Undisturbed start.core raised)
    (hpausedSame : raised.pausedPeers = start.core.pausedPeers)
    (hnext : raised.nextIndex = (raisedCore start.core m peer).nextIndex)
    (hreached : Reached raised next.core) (houtbox : SameOutbox start.ready next.ready) :
    Granted start m peer next := by
  have htransition : responseTransition start.core m peer = reachedTransition raised := by
    rw [responseTransition, if_pos hraised, reachedTransition_view hview]
  have hself : raised.selfId = start.core.selfId := congrArg CoreView.selfId hview
  have hpeers : raised.peers = start.core.peers := congrArg CoreView.peers hview
  have hsame : SameProgress raised (raisedCore start.core m peer) :=
    ⟨hself, congrArg CoreView.role hview, congrArg CoreView.log hview, hpeers,
      congrArg CoreView.matchIndex hview, hnext, hpausedSame⟩
  have hprogress : SameProgress { next.core with role := .leader } (grantedCore start.core m peer) := by
    rw [grantedCore, htransition]
    exact (hleader ▸ hreached.progress).trans (hsame.refresh _)
  constructor
  case orderly => exact hreached.orderly
  case selfId => exact hreached.selfId.trans hself
  case log => exact hreached.log.trans (congrArg CoreView.log hview)
  case term => exact hreached.term.trans (congrArg CoreView.term hview)
  case outbox => exact houtbox
  case built => exact htransition ▸ hreached.built
  case membership => exact htransition ▸ hreached.membership
  case deposed =>
    rw [htransition, ← hself]
    exact hreached.deposed
  case leading =>
    rw [htransition, ← hself]
    intro hvoter
    obtain ⟨hrole, hkept⟩ := hreached.leading hvoter
    exact ⟨hrole, hundisturbed.trans hkept⟩
  case matched =>
    rw [responseMatch, if_pos hraised]
    exact congrFun hprogress.matched peer
  case raised => exact fun _ => hprogress
  case paused =>
    intro id hid hid'
    exact (hreached.paused id (hpeers ▸ hid) hid').trans (peerPaused_congr hpeers hpausedSame id)

theorem granted_unraised (hblank : Blank start) (hleader : start.core.role = .leader)
    {released : Core} (hraised : matchRaised start.core m peer = false)
    (horderly : Orderly released) (hview : coreView released = coreView start.core)
    (hundisturbed : Undisturbed start.core released)
    (hpausedSame : released.pausedPeers = start.core.pausedPeers) :
    Granted start m peer ⟨released, start.ready⟩ := by
  have htransition : responseTransition start.core m peer = start.core.membershipTransition := by
    rw [responseTransition, hraised]
    rfl
  have hpeers : released.peers = start.core.peers := congrArg CoreView.peers hview
  have hnot : start.core.role ≠ .follower := by
    rw [hleader]
    decide
  have hvoter : membershipIsVoter start.core.membershipTransition.committed
      start.core.selfId = true :=
    hblank.orderly.voter.symm.trans (hblank.orderly.campaigner hnot)
  constructor
  case orderly => exact horderly
  case selfId => exact congrArg CoreView.selfId hview
  case log => exact congrArg CoreView.log hview
  case term => exact congrArg CoreView.term hview
  case outbox => exact ⟨rfl, rfl, rfl, rfl, rfl⟩
  case built =>
    rw [htransition, hpeers]
    exact hblank.inv.peers
  case membership =>
    rw [htransition]
    exact congrArg (fun v => v.transition.committed) hview
  case deposed =>
    rw [htransition, hvoter]
    exact fun hfalse => Bool.noConfusion hfalse
  case leading =>
    exact fun _ => ⟨(congrArg CoreView.role hview).trans hleader, hundisturbed⟩
  case matched =>
    rw [responseMatch, hraised]
    exact congrFun (congrArg CoreView.matchIndex hview) peer
  case raised =>
    rw [hraised]
    exact fun hfalse => Bool.noConfusion hfalse
  case paused => exact fun id _ _ => peerPaused_congr hpeers hpausedSame id

theorem releasedWindow_length (window : AppendWindow) (matched : ℕ) :
    (appendWindowReleaseThrough window matched).items.length ≤ window.items.length :=
  (List.dropWhile_sublist _).length_le

theorem acceptGrant_granted (hblank : Blank start) (hleader : start.core.role = .leader)
    (hgranted : m.granted = true) (hcounted : responseIgnored start.core m peer = false) :
    ∃ next, acceptGrant { start with core := markActive start.core m.fromId peer } m peer =
      (.ok, next) ∧ Granted start m peer next := by
  have hbound : m.matchIndex ≤ logLastIndex start.core.log := by
    simp only [responseIgnored, hgranted, Bool.true_and, Bool.or_eq_false_iff,
      decide_eq_false_iff_not, not_lt] at hcounted
    exact hcounted.1
  obtain ⟨hview, hundisturbed, hnext, hpaused, horderly⟩ :=
    markActive_kept start.core m.fromId peer
  have hactive := horderly hblank.orderly
  have hinv := hblank.inv.of_views hview (markActive_inert _ _ _).apply
  unfold acceptGrant
  dsimp only
  generalize markActive start.core m.fromId peer = active at *
  obtain ⟨released, heq, hreleased, hreleasedInv, hreleasedView, hkept, hsame, hreleasedNext⟩ :
      ∃ released, setWindow active peer
        { appendWindowReleaseThrough (active.appendWindows peer) m.matchIndex with
          probe := false } = released ∧ Orderly released ∧ CoreInv released ∧
        coreView released = coreView start.core ∧ Undisturbed start.core released ∧
        released.pausedPeers = start.core.pausedPeers ∧
        released.nextIndex = start.core.nextIndex :=
    ⟨_, rfl, hactive.windowTo ((releasedWindow_length _ _).trans (hactive.window peer)),
      hinv.of_views rfl rfl, hview, ⟨hundisturbed.reads, hundisturbed.target, hundisturbed.sent⟩,
      hpaused, hnext⟩
  rw [heq]
  have hmatch : released.matchIndex = start.core.matchIndex :=
    congrArg CoreView.matchIndex hreleasedView
  have hlast : logLastIndex released.log = logLastIndex start.core.log :=
    congrArg logLastIndex (congrArg CoreView.log hreleasedView)
  by_cases hraised : released.matchIndex peer < m.matchIndex
  · have hflag : matchRaised start.core m peer = true := by
      rw [hmatch] at hraised
      simp [matchRaised, hraised, hgranted]
    have hmatched : Orderly (setMatch released peer m.matchIndex) :=
      hreleased.matchTo (hlast.symm ▸ hbound)
    have hmatchedView : coreView (setMatch released peer m.matchIndex) =
        coreView (raisedCore start.core m peer) := by
      change { coreView released with
        matchIndex := update released.matchIndex peer m.matchIndex } = _
      rw [hreleasedView, hmatch]
      rfl
    have hfinish : ∀ raised, Orderly raised → CoreInv raised →
        coreView raised = coreView (raisedCore start.core m peer) →
        Undisturbed start.core raised → raised.pausedPeers = start.core.pausedPeers →
        raised.nextIndex = (raisedCore start.core m peer).nextIndex →
        ∃ next, updateCommit ⟨raised, start.ready⟩ = (.ok, next) ∧ Granted start m peer next := by
      intro raised hraisedOrderly hraisedInv hraisedView hraisedKept hraisedPaused hraisedNext
      have hrole : raised.role = .leader := (congrArg CoreView.role hraisedView).trans hleader
      obtain ⟨done, hdone, hreached, houtbox⟩ : ∃ done, updateCommit ⟨raised, start.ready⟩ =
          (.ok, done) ∧ Reached raised done.core ∧ SameOutbox start.ready done.ready :=
        updateCommit_reached hraisedOrderly hraisedInv hrole
      exact ⟨done, hdone, granted_of_reached hflag hrole hraisedView hraisedKept hraisedPaused
        hraisedNext hreached houtbox⟩
    have hraisedInv : CoreInv (setMatch released peer m.matchIndex) := { hreleasedInv with }
    have hraisedKept : Undisturbed start.core (setMatch released peer m.matchIndex) :=
      ⟨hkept.reads, hkept.target, hkept.sent⟩
    have hraisedPaused : (setMatch released peer m.matchIndex).pausedPeers =
        start.core.pausedPeers := hsame
    have hraisedNext : (setMatch released peer m.matchIndex).nextIndex = start.core.nextIndex :=
      hreleasedNext
    generalize setMatch released peer m.matchIndex = raised at *
    split_ifs with hbehind
    · rw [hraisedNext] at hbehind
      refine hfinish _ (hmatched.nextTo _) { hraisedInv with } hmatchedView
        ⟨hraisedKept.reads, hraisedKept.target, hraisedKept.sent⟩ hraisedPaused ?_
      change update raised.nextIndex peer (m.matchIndex + 1) =
        update start.core.nextIndex peer (max (start.core.nextIndex peer) (m.matchIndex + 1))
      rw [hraisedNext, max_eq_right hbehind.le]
    · rw [hraisedNext, not_lt] at hbehind
      refine hfinish _ hmatched hraisedInv hmatchedView hraisedKept hraisedPaused ?_
      change _ = update start.core.nextIndex peer (max (start.core.nextIndex peer) (m.matchIndex + 1))
      rw [max_eq_left hbehind, update_eq_self, hraisedNext]
  · rw [if_neg hraised]
    have hunraised : matchRaised start.core m peer = false := by
      rw [hmatch] at hraised
      simp [matchRaised, hraised]
    exact ⟨_, rfl, granted_unraised hblank hleader hunraised hreleased hreleasedView hkept hsame⟩

def transferNow (core : Core) (m : Message) (peer lastIndex : ℕ) : Bool :=
  m.granted && !core.leadershipTransferSent && core.leadershipTransferTarget == m.fromId &&
    decide (lastIndex ≤ core.matchIndex peer)

theorem continueReplication_due {lastIndex : ℕ}
    (h : transferNow next.core m peer lastIndex = true) :
    continueReplication next m peer lastIndex =
      { core := { (RaftCoreEmit.emit next .timeoutNow m.fromId false).1.core with
          leadershipTransferSent := (RaftCoreEmit.emit next .timeoutNow m.fromId false).2 }
        ready := (RaftCoreEmit.emit next .timeoutNow m.fromId false).1.ready } :=
  if_pos h

/-- After a response comes the transfer to its sender, more entries for it, or nothing. -/
theorem continueReplication_conduct (h : Conduct T start next) (hsilent : Silent next.ready)
    {lastIndex : ℕ} (hleading : T.settled → transferNow next.core m peer lastIndex = false →
      reaches next.core next.ready.messageCapacity peer = true →
      next.core.nextIndex peer ≤ lastIndex ∨ m.granted = false →
      RemotePeer next.core peer ∧ next.core.role = .leader)
    (htransfer : transferNow next.core m peer lastIndex = true →
      peerPaused next.core m.fromId = false →
      (T.settled → Addressed start.core next.core
        (newMessage next.core .timeoutNow m.fromId false)) ∧
      (T.roomy → 1 ≤ next.ready.messageCapacity)) :
    Conduct T start (continueReplication next m peer lastIndex) := by
  unfold continueReplication
  split_ifs with hdue hmore
  · have hemitted : Conduct T start (RaftCoreEmit.emit next .timeoutNow m.fromId false).1 :=
      h.emit hsilent.messages (fun hs hlive => (htransfer hdue hlive).1 hs)
        fun hr hlive => (htransfer hdue hlive).2 hr
    exact hemitted.touch { hemitted.orderly with } rfl rfl
  · rw [Bool.or_eq_true, decide_eq_true_eq, Bool.not_eq_true'] at hmore
    cases hreaches : reaches next.core next.ready.messageCapacity peer with
    | false =>
      rw [fillPeerReplicationWindow_unreached hreaches]
      exact h
    | true =>
      have hled := fun hs => hleading hs (Bool.not_eq_true _ ▸ hdue) hreaches hmore
      exact h.replicateOne hsilent.requests (fillPeerReplicationWindow_sending next peer)
        (fun hs => (hled hs).1) fun hs => (hled hs).2
  · exact h

def responseTaken (core : Core) (m : Message) (peer : ℕ) : Bool :=
  core.role == .leader && m.term == core.term && !responseIgnored core m peer

/-- The leadership transfer is due to the sender, as the index of the sender says. -/
def transferDue (core : Core) (m : Message) (peer : ℕ) : Bool :=
  m.granted && !core.leadershipTransferSent && core.leadershipTransferTarget == m.fromId &&
    membershipIsVoter (responseTransition core m peer).committed core.selfId &&
    decide (logLastIndex core.log ≤ responseMatch core m peer)

def senderPaused (core : Core) (m : Message) (peer : ℕ) : Bool :=
  peerPaused core m.fromId && (transitionPeers (responseTransition core m peer)).contains m.fromId

/-- A grant that makes a transfer due which its target cannot take over, or after which a core
that is no leader any more, or holds the index of no peer, has entries left to send. -/
def grantMisleads (core : Core) (capacity : ℕ) (m : Message) (peer : ℕ) : Bool :=
  m.granted &&
    if transferDue core m peer then
      !senderPaused core m peer &&
        (!membershipIsVoter (responseTransition core m peer).committed m.fromId ||
          (matchRaised core m peer && m.matchIndex != logLastIndex core.log))
    else
      matchRaised core m peer &&
        (!membershipIsVoter (responseTransition core m peer).committed core.selfId ||
          decide ((transitionPeers (responseTransition core m peer)).length ≤ peer)) &&
        decide ((grantedCore core m peer).nextIndex peer ≤ logLastIndex core.log) &&
        reaches (grantedCore core m peer) capacity peer

/-- A transfer that is due although the response did not look like it. -/
def transferUnasked (core : Core) (m : Message) (peer : ℕ) : Bool :=
  transferDue core m peer && m.matchIndex != logLastIndex core.log && !senderPaused core m peer

theorem responseTransition_unraised (hraised : matchRaised core m peer = false) :
    responseTransition core m peer = core.membershipTransition := by
  rw [responseTransition, hraised]
  rfl

section

variable (h : Granted start m peer next)

include h

theorem Granted.unmoved (hblank : Blank start)
    (hraised : matchRaised start.core m peer = false) : next.core.peers = start.core.peers := by
  have hbuilt := h.built
  rw [responseTransition_unraised hraised, hblank.inv.peers] at hbuilt
  exact (Except.ok.inj hbuilt).symm

theorem Granted.readStep (hblank : Blank start) (hleader : start.core.role = .leader)
    (hheld : T.unmoved → AcksHeldBy start.core
      (transitionPeers (responseTransition start.core m peer))) : ReadStep T start.core next := by
  have hstates : next.ready.readStates = [] := h.outbox.states.trans hblank.states
  cases hvoter : membershipIsVoter (responseTransition start.core m peer).committed
      start.core.selfId with
  | false =>
    obtain ⟨_, _, hcontexts, hwaiting, _⟩ := h.deposed hvoter
    exact .cleared hcontexts hwaiting hstates
  | true =>
    obtain ⟨hrole, hundisturbed⟩ := h.leading hvoter
    refine .kept hundisturbed.reads (hrole.trans hleader.symm) h.term ?_ hstates
    intro hunmoved k p hbit hp
    rw [← transitionPeers_eq h.built] at hp
    exact hheld hunmoved k p hbit hp

variable (hheard : Heard start m peer)

include hheard

theorem Granted.sender_paused :
    peerPaused next.core m.fromId = senderPaused start.core m peer := by
  rw [senderPaused, transitionPeers_eq h.built]
  by_cases hmem : m.fromId ∈ next.core.peers
  · rw [h.paused m.fromId hheard.mem hmem]
    simp [hmem]
  · rw [peerPaused_missing hmem]
    simp [hmem]

theorem Granted.due :
    transferNow next.core m peer (logLastIndex start.core.log) = transferDue start.core m peer := by
  unfold transferNow transferDue
  cases hvoter : membershipIsVoter (responseTransition start.core m peer).committed
      start.core.selfId with
  | true =>
    obtain ⟨_, hundisturbed⟩ := h.leading hvoter
    rw [hundisturbed.sent, hundisturbed.target, h.matched, Bool.and_true]
  | false =>
    have hnonzero : (0 == m.fromId) = false :=
      beq_eq_false_iff_ne.mpr (ascendingIndex_sound hheard.index).1.symm
    rw [(h.deposed hvoter).2.1, hnonzero, Bool.and_false, Bool.and_false, Bool.false_and]
    rfl

theorem Granted.remote (hleader : start.core.role = .leader) (hgranted : m.granted = true)
    (hsettled : grantMisleads start.core start.ready.messageCapacity m peer = false)
    (hundue : transferDue start.core m peer = false)
    (hreaches : reaches next.core start.ready.messageCapacity peer = true)
    (hmore : next.core.nextIndex peer ≤ logLastIndex start.core.log) :
    RemotePeer next.core peer ∧ next.core.role = .leader := by
  have hbefore : start.core.peers[peer]? = some m.fromId := (ascendingIndex_sound hheard.index).2
  have hother : start.core.peers[peer]? ≠ some start.core.selfId := by
    rw [hbefore]
    exact fun hself => hheard.remote (Option.some.inj hself)
  cases hraised : matchRaised start.core m peer with
  | false =>
    have hvoter : membershipIsVoter (responseTransition start.core m peer).committed
        start.core.selfId = true := by
      rw [responseTransition_unraised hraised]
      exact hheard.blank.orderly.voter.symm.trans
        (hheard.blank.orderly.campaigner (by rw [hleader]; decide))
    refine ⟨⟨?_, ?_⟩, (h.leading hvoter).1⟩
    · rw [h.unmoved hheard.blank hraised]
      exact (List.getElem?_eq_some_iff.mp hbefore).1
    · rw [peerId, h.unmoved hheard.blank hraised, hbefore, h.selfId]
      exact hheard.remote
  | true =>
    have hprogress := h.raised hraised
    have hnext : (grantedCore start.core m peer).nextIndex peer = next.core.nextIndex peer :=
      (congrFun hprogress.next peer).symm
    have hreached : reaches (grantedCore start.core m peer) start.ready.messageCapacity peer = true :=
      (hprogress.reaches _ _).symm.trans hreaches
    simp only [grantMisleads, hgranted, hundue, hraised, hreached, hnext, hmore, Bool.true_and,
      transitionPeers_eq h.built, Bool.and_true, decide_true, Bool.false_eq_true, if_false,
      Bool.or_eq_false_iff, Bool.not_eq_false', decide_eq_false_iff_not, not_le] at hsettled
    obtain ⟨hvoter, hlt⟩ := hsettled
    refine ⟨⟨hlt, fun hself => ?_⟩, (h.leading hvoter).1⟩
    have hown : next.core.peers[peer]? = some start.core.selfId := by
      rw [peerId, List.getElem?_eq_getElem hlt, Option.getD_some, h.selfId] at hself
      rw [List.getElem?_eq_getElem hlt, hself]
    have hlast : next.core.nextIndex peer = logLastIndex start.core.log + 1 := by
      rw [← hnext, grantedCore, transitionPeers_eq h.built]
      refine coreRefreshPeers_own ?_ (peerSetBuild_spec h.built).2.1 ?_ ?_
      · exact hleader
      · exact hother
      · exact hown
    omega

/-- The match of a sender whose response counted, under its own new index. -/
theorem Granted.carried (hraised : matchRaised start.core m peer = true) {index : ℕ}
    (hindex : peerIndex next.core m.fromId = some index) :
    next.core.matchIndex index = m.matchIndex := by
  rw [show next.core.matchIndex = _ from (h.raised hraised).matched, grantedCore,
    transitionPeers_eq h.built]
  refine (coreRefreshPeers_carries ?_ ?_ hindex).trans (update_self ..)
  · exact hheard.remote
  · exact hheard.index

theorem Granted.caught_up (hrole : next.core.role = .leader)
    (htransferee : membershipIsVoter (responseTransition start.core m peer).committed
      m.fromId = true)
    (hreached : matchRaised start.core m peer = true →
      m.matchIndex = logLastIndex start.core.log)
    (hlast : logLastIndex start.core.log ≤ next.core.matchIndex peer) :
    ∃ index, voterIndex next.core m.fromId = some index ∧
      next.core.matchIndex index = logLastIndex next.core.log := by
  have hmem : m.fromId ∈ next.core.peers := by
    obtain ⟨hnamed, _⟩ := ((peerSetBuild_spec hheard.blank.inv.peers).2.2 m.fromId).mp hheard.mem
    exact ((peerSetBuild_spec h.built).2.2 m.fromId).mpr
      ⟨hnamed, _, List.mem_cons_self .., mem_of_voter htransferee⟩
  obtain ⟨index, _, hindex⟩ := index_of_mem (peerSetBuild_spec h.built).2.1 hmem
  have hfound : peerIndex next.core m.fromId = some index := hindex
  refine ⟨index, ?_, ?_⟩
  · rw [voterIndex, hfound, h.membership]
    exact if_pos htransferee
  · rw [h.log]
    cases hraised : matchRaised start.core m peer with
    | false =>
      have hsame : index = peer := by
        rw [h.unmoved hheard.blank hraised] at hindex
        exact Option.some.inj (hindex.symm.trans hheard.index)
      subst hsame
      have hlt := (List.getElem?_eq_some_iff.mp (ascendingIndex_sound hindex).2).1
      exact le_antisymm (h.log ▸ h.orderly.matched hrole index hlt) hlast
    | true => exact (h.carried hheard hraised hindex).trans (hreached hraised)

theorem Granted.transfer (hresponse : m.type = .heartbeatResponse ∨ m.type = .appendResponse)
    (htaken : responseTaken start.core m peer = true)
    (hsettled : T.settled → grantMisleads start.core start.ready.messageCapacity m peer = false)
    (hroomy : T.roomy → start.ready.messageCapacity = 0 →
      transferUnasked start.core m peer = false)
    (hdue : transferDue start.core m peer = true)
    (hlive : senderPaused start.core m peer = false) :
    (T.settled → Addressed start.core next.core
      (newMessage next.core .timeoutNow m.fromId false)) ∧
    (T.roomy → 1 ≤ next.ready.messageCapacity) := by
  simp only [responseTaken, Bool.and_eq_true, beq_iff_eq, Bool.not_eq_true'] at htaken
  obtain ⟨⟨hleader, hterm⟩, _⟩ := htaken
  have hparts := hdue
  simp only [transferDue, Bool.and_eq_true, Bool.not_eq_true', beq_iff_eq, decide_eq_true_eq]
    at hparts
  obtain ⟨⟨⟨⟨hgranted, hsent⟩, htarget⟩, hvoter⟩, hlast⟩ := hparts
  have hrole := (h.leading hvoter).1
  refine ⟨fun hs => ?_, fun hr => ?_⟩
  · have hled := hsettled hs
    simp only [grantMisleads, hgranted, hdue, hlive, Bool.true_and, if_true, Bool.not_false,
      Bool.or_eq_false_iff, Bool.and_eq_false_iff, bne_eq_false_iff_eq, Bool.not_eq_false'] at hled
    obtain ⟨htransferee, hreached⟩ := hled
    refine ⟨?_, Or.inl hheard.mem, fun _ => hrole, fun _ => ?_⟩
    · rw [h.selfId]
      exact hheard.remote
    · refine h.caught_up hheard hrole htransferee ?_ (h.matched ▸ hlast)
      exact fun hraised => hreached.resolve_left (by simp [hraised])
  · rw [h.outbox.capacity]
    by_contra hfull
    have hzero : start.ready.messageCapacity = 0 := by omega
    have hasked : m.matchIndex ≠ logLastIndex start.core.log := by
      intro hequal
      have hroom := hheard.room
      have hone : stepRequired start.core m = 1 := by
        rcases hresponse with htype | htype <;>
          simp [stepRequired, htype, hleader, hterm, hgranted, hsent, htarget, hequal]
      omega
    have hunasked := hroomy hr hzero
    simp [transferUnasked, hdue, hasked, hlive] at hunasked

end

theorem stepHeartbeatResponse_granted (hheard : Heard start m peer)
    (htaken : responseTaken start.core m peer = true) (hgranted : m.granted = true) :
    ∃ next, stepHeartbeatResponse start m peer =
        (.ok, continueReplication next m peer (logLastIndex start.core.log)) ∧
      Granted start m peer next := by
  simp only [responseTaken, Bool.and_eq_true, beq_iff_eq, Bool.not_eq_true'] at htaken
  obtain ⟨⟨hleader, hterm⟩, hcounted⟩ := htaken
  obtain ⟨next, haccept, hgrant⟩ := acceptGrant_granted hheard.blank hleader hgranted hcounted
  refine ⟨next, ?_, hgrant⟩
  unfold stepHeartbeatResponse
  rw [if_neg (by omega), if_neg (by simp [hleader, hterm, hcounted])]
  dsimp only
  rw [hgranted, if_pos rfl, haccept]

theorem acceptReject_conduct (hblank : Blank start) (inflight : Option AppendInflight) :
    Conduct T start
        ⟨acceptReject (markActive start.core m.fromId peer) m peer inflight, start.ready⟩ ∧
      coreView (acceptReject (markActive start.core m.fromId peer) m peer inflight) =
        coreView start.core := by
  obtain ⟨hview, hundisturbed, _, _, horderly⟩ := markActive_kept start.core m.fromId peer
  have hactive := horderly hblank.orderly
  generalize markActive start.core m.fromId peer = active at *
  have hrejected : Orderly (acceptReject active m peer inflight) :=
    (hactive.windowTo (Nat.zero_le _)).nextTo _
  refine ⟨hblank.silent hrejected (.kept hundisturbed.reads ?_ ?_ ?_ hblank.states), hview⟩
  · exact congrArg CoreView.role hview
  · exact congrArg CoreView.term hview
  · exact fun _ => acksHeld_refl (congrArg CoreView.peers hview)

theorem stepHeartbeatResponse_conduct (hheard : Heard start m peer)
    (hresponse : m.type = .heartbeatResponse ∨ m.type = .appendResponse)
    (hsettled : T.settled → responseTaken start.core m peer = true →
      grantMisleads start.core start.ready.messageCapacity m peer = false)
    (hroomy : T.roomy → responseTaken start.core m peer = true →
      start.ready.messageCapacity = 0 → transferUnasked start.core m peer = false)
    (hheld : T.unmoved → responseTaken start.core m peer = true →
      AcksHeldBy start.core
      (transitionPeers (responseTransition start.core m peer)))
    (hok : stepHeartbeatResponse start m peer = (.ok, call)) : Conduct T start call := by
  have hblank := hheard.blank
  by_cases hlater : start.core.term < m.term
  · rw [stepHeartbeatResponse, if_pos hlater] at hok
    cases hok
    exact hblank.follow m.term
  by_cases hignored : (start.core.role != .leader || m.term != start.core.term ||
      responseIgnored start.core m peer) = true
  · rw [stepHeartbeatResponse, if_neg hlater, if_pos hignored] at hok
    cases hok
    exact hblank.unchanged
  have hcounted := hignored
  simp only [Bool.or_eq_true, bne_iff_ne, not_or, Decidable.not_not, Bool.not_eq_true] at hcounted
  obtain ⟨⟨hleader, hterm⟩, hcounted⟩ := hcounted
  have htaken : responseTaken start.core m peer = true := by
    simp [responseTaken, hleader, hterm, hcounted]
  have hremote := remotePeer_of_index hheard.index hheard.remote
  cases hgranted : m.granted with
  | true =>
    obtain ⟨next, hresult, hgrant⟩ := stepHeartbeatResponse_granted hheard htaken hgranted
    rw [hresult] at hok
    cases hok
    have hsilent := hgrant.outbox.silent hblank.toSilent
    have hquiet : Conduct T start next := .quiet hgrant.orderly hgrant.outbox.capacity hsilent
      (hgrant.readStep hblank hleader fun hunmoved => hheld hunmoved htaken)
    refine continueReplication_conduct hquiet hsilent ?_ ?_
    · intro hs hundue hreaches hmore
      rw [hgrant.due hheard] at hundue
      rw [hgrant.outbox.capacity] at hreaches
      rcases hmore with hmore | hfalse
      · exact hgrant.remote hheard hleader hgranted (hsettled hs htaken) hundue hreaches hmore
      · rw [hgranted] at hfalse
        cases hfalse
    · intro hdue hlive
      rw [hgrant.due hheard] at hdue
      rw [hgrant.sender_paused hheard] at hlive
      exact hgrant.transfer hheard hresponse htaken (fun hs => hsettled hs htaken)
        (fun hr => hroomy hr htaken) hdue hlive
  | false =>
    rw [stepHeartbeatResponse, if_neg hlater, if_neg hignored] at hok
    dsimp only at hok
    rw [hgranted] at hok
    cases hok
    obtain ⟨hquiet, hview⟩ : Conduct T start ⟨acceptReject (markActive start.core m.fromId peer) m
          peer (responseInflight start.core m peer), start.ready⟩ ∧
        coreView (acceptReject (markActive start.core m.fromId peer) m peer
          (responseInflight start.core m peer)) = coreView start.core :=
      acceptReject_conduct hblank _
    generalize acceptReject (markActive start.core m.fromId peer) m peer
      (responseInflight start.core m peer) = rejected at hquiet hview
    refine continueReplication_conduct hquiet hblank.toSilent ?_ ?_
    · refine fun _ _ _ _ => ⟨?_, (congrArg CoreView.role hview).trans hleader⟩
      change peer < rejected.peers.length ∧ peerId rejected peer ≠ rejected.selfId
      rw [peerId, show rejected.peers = start.core.peers from congrArg CoreView.peers hview,
        show rejected.selfId = start.core.selfId from congrArg CoreView.selfId hview]
      exact hremote
    · intro htrue
      rw [transferNow, hgranted] at htrue
      cases htrue

theorem transferUnasked_sends (hheard : Heard start m peer)
    (htaken : responseTaken start.core m peer = true)
    (hunasked : transferUnasked start.core m peer = true) :
    ∃ call, stepHeartbeatResponse start m peer = (.ok, call) ∧ call.ready.messages.length = 1 := by
  simp only [transferUnasked, Bool.and_eq_true, Bool.not_eq_true'] at hunasked
  obtain ⟨⟨hdue, _⟩, hlive⟩ := hunasked
  have hgranted : m.granted = true := by
    simp only [transferDue, Bool.and_eq_true] at hdue
    exact hdue.1.1.1.1
  obtain ⟨next, hresult, hgrant⟩ := stepHeartbeatResponse_granted hheard htaken hgranted
  refine ⟨_, hresult, ?_⟩
  rw [continueReplication_due ((hgrant.due hheard).trans hdue)]
  exact emitWith_length ((hgrant.sender_paused hheard).trans hlive)
    (hgrant.outbox.messages.trans hheard.blank.messages)

/-- A due transfer to a target that is no voter or lacks entries. -/
theorem Granted.untransferable (h : Granted start m peer next) (hheard : Heard start m peer)
    (hlive : senderPaused start.core m peer = false)
    (hunfit : membershipIsVoter (responseTransition start.core m peer).committed m.fromId = false ∨
      matchRaised start.core m peer = true ∧ m.matchIndex ≠ logLastIndex start.core.log) :
    ¬ Posted start.core (RaftCoreEmit.emit next .timeoutNow m.fromId false).1 := by
  intro hposted
  have hsent : (RaftCoreEmit.emit next .timeoutNow m.fromId false).1 = ⟨next.core, { next.ready with
      messages := next.ready.messages ++ [newMessage next.core .timeoutNow m.fromId false]
      emissionRoles := next.ready.emissionRoles ++ [next.core.role] }⟩ := by
    rw [RaftCoreEmit.emit, emitWith, h.sender_paused hheard, hlive]
    rfl
  rw [hsent] at hposted
  obtain ⟨index, hindex, hmatched⟩ :=
    (hposted.messages _ (List.mem_append_right _ (List.mem_singleton_self _))).caught_up rfl
  obtain ⟨hvoter, hfound⟩ : membershipIsVoter (coreMembership next.core) m.fromId = true ∧
      peerIndex next.core m.fromId = some index := by
    have hindex : voterIndex next.core m.fromId = some index := hindex
    rw [voterIndex] at hindex
    cases hpeer : peerIndex next.core m.fromId with
    | none => simp [hpeer] at hindex
    | some k => simpa [hpeer] using hindex
  rcases hunfit with hno | ⟨hraised, hbehind⟩
  · rw [h.membership, hno] at hvoter
    cases hvoter
  · refine hbehind ?_
    rw [← h.log]
    exact (h.carried hheard hraised hfound).symm.trans hmatched

theorem grantMisleads_strays (hheard : Heard start m peer)
    (htaken : responseTaken start.core m peer = true)
    (hmisleads : grantMisleads start.core start.ready.messageCapacity m peer = true) :
    ∃ call, stepHeartbeatResponse start m peer = (.ok, call) ∧ ¬ SendsToPeers start.core call := by
  rw [grantMisleads, Bool.and_eq_true] at hmisleads
  obtain ⟨hgranted, hmisleads⟩ := hmisleads
  obtain ⟨next, hresult, hgrant⟩ := stepHeartbeatResponse_granted hheard htaken hgranted
  have hsilent := hgrant.outbox.silent hheard.blank.toSilent
  refine ⟨_, hresult, fun hsends => ?_⟩
  split_ifs at hmisleads with hdue
  · rw [continueReplication_due ((hgrant.due hheard).trans hdue)] at hsends
    simp only [Bool.and_eq_true, Bool.not_eq_true', Bool.or_eq_true, bne_iff_ne] at hmisleads
    refine hgrant.untransferable hheard hmisleads.1 hmisleads.2 ?_
    exact ⟨fun m hm => { hsends.messages m hm with }, fun r hr => { hsends.requests r hr with }⟩
  · simp only [Bool.and_eq_true, decide_eq_true_eq, Bool.or_eq_true, Bool.not_eq_true'] at hmisleads
    obtain ⟨⟨⟨hraised, hlost⟩, hmore⟩, hreaches⟩ := hmisleads
    have hprogress := hgrant.raised hraised
    rw [← hprogress.reaches, ← hgrant.outbox.capacity] at hreaches
    rw [← hprogress.next] at hmore
    have hundue : ¬ transferNow next.core m peer (logLastIndex start.core.log) = true := by
      rw [hgrant.due hheard]
      exact hdue
    have hfilled : continueReplication next m peer (logLastIndex start.core.log) =
        fillPeerReplicationWindow next peer :=
      (if_neg hundue).trans (if_pos (Bool.or_eq_true .. |>.mpr (Or.inl (decide_eq_true hmore))))
    rw [hfilled] at hsends
    rw [transitionPeers_eq hgrant.built] at hlost
    by_cases hrange : next.core.peers.length ≤ peer
    · -- the index of the sender is nobody's: a snapshot goes to node 0
      have hlt := (List.getElem?_eq_some_iff.mp hheard.sender).1
      have hzero : next.core.nextIndex peer = 0 := by
        rw [show next.core.nextIndex = _ from hprogress.next, grantedCore,
          transitionPeers_eq hgrant.built]
        exact coreRefreshPeers_beyond hlt hrange
      have hbase : next.core.nextIndex peer ≤ next.core.log.baseIndex := by omega
      have hrequest := emitReplication_snapshot hreaches hsilent.requests hbase false
      refine hsends.toSomebody.2 (snapshotRequestFor next.core peer) ?_ ?_
      · rw [fillPeerReplicationWindow, if_pos hbase, hrequest]
        exact List.mem_singleton_self _
      · change (next.core.peers[peer]?).getD 0 = 0
        rw [List.getElem?_eq_none hrange]
        rfl
    · -- the leader has stepped down
      have hdeposed := hgrant.deposed (hlost.resolve_right hrange)
      refine unposted_replication (fillPeerReplicationWindow_sending next peer) hsilent.messages ?_
        ?_ hsends.toPosted
      · rw [hdeposed.1]
        decide
      · exact fillPeerReplicationWindow_reached hreaches hsilent.requests hsilent.messages
          (hdeposed.2.2.2.2 peer)
          (peerPaused_at (peerSetBuild_spec hgrant.built).2.1 (Nat.lt_of_not_le hrange))
          (hgrant.log ▸ hmore)

end RaftResponseConduct
