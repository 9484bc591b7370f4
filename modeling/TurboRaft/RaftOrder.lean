import TurboRaft.RaftCoreHistories

/-! # An orderly core

Campaigns are run by voters, recorded matches lie within the log, windows and reads within
their limits, and only a leader has reads. What a change of peers and a commit make of these. -/
namespace RaftOrder

open RaftTypes RaftConfiguration RaftMembership RaftMembershipTransition RaftLog RaftCoreState
open RaftCoreEmit RaftCoreStep RaftCore RaftConfigurationLemmas RaftQuorum RaftRefinement
open RaftEmission RaftOutbox RaftCoreProgress Function

variable {core core' : Core}

variable {peers : List NodeId}

structure Orderly (core : Core) : Prop where
  voter : core.selfIsVoter = membershipIsVoter (coreMembership core) core.selfId
  campaigner : core.role ≠ .follower → core.selfIsVoter = true
  matched : core.role = .leader → ∀ peer, peer < core.peers.length →
    core.matchIndex peer ≤ logLastIndex core.log
  room : 1 ≤ core.maxInflightAppendRequests
  window : ∀ peer, (core.appendWindows peer).items.length ≤ core.maxInflightAppendRequests
  reads : readTotalCount core ≤ core.maxPendingReads
  limit : core.maxPendingReads ≤ maxPendingReadsLimit
  reading : core.role ≠ .leader → core.pendingReadContexts = [] ∧ core.waitingReadContexts = []
  unasked : core.pendingReadContexts = [] → core.pendingReadAcks = 0

theorem Orderly.windows (h : Orderly core) : WindowsOk core := ⟨h.room, h.window⟩

theorem Orderly.progressed (h : Orderly core) (hprogress : Progressed core core')
    (hwindows : WindowsOk core') : Orderly core' := by
  obtain ⟨_, _, rfl⟩ := hprogress
  exact { h with window := hwindows.window }

theorem orderly_follower (term : ℕ)
    (hvoter : core.selfIsVoter = membershipIsVoter (coreMembership core) core.selfId)
    (hroom : 1 ≤ core.maxInflightAppendRequests) (hlimit : core.maxPendingReads ≤ maxPendingReadsLimit) :
    Orderly (becomeFollower core term) where
  voter := hvoter
  campaigner hrole := absurd rfl hrole
  matched hrole := Role.noConfusion hrole
  room := hroom
  window _ := Nat.zero_le _
  reads := Nat.zero_le _
  limit := hlimit
  reading _ := ⟨rfl, rfl⟩
  unasked _ := rfl

theorem Orderly.follow (h : Orderly core) (term : ℕ) : Orderly (becomeFollower core term) :=
  orderly_follower term h.voter h.room h.limit

theorem leaderState_fresh (core : Core) :
    (leaderState core).pendingReadContexts = [] ∧ (leaderState core).waitingReadContexts = [] ∧
      (leaderState core).pendingReadAcks = 0 ∧
      (leaderState core).maxPendingReads = core.maxPendingReads ∧
      (leaderState core).selfIsVoter = core.selfIsVoter := by
  unfold leaderState
  cases voterIndex core core.selfId <;> exact ⟨rfl, rfl, rfl, rfl, rfl⟩

theorem leaderState_windows (h : WindowsOk core) : WindowsOk (leaderState core) := by
  have hreset : ∀ peer, (if peer < core.peers.length then appendWindowReset true
      else core.appendWindows peer).items.length ≤ core.maxInflightAppendRequests := by
    intro peer
    split_ifs
    · exact Nat.zero_le _
    · exact h.window peer
  unfold leaderState
  cases voterIndex core core.selfId with
  | none => exact ⟨h.some_room, hreset⟩
  | some self =>
    refine WindowsOk.set ?_ self ?_
    · exact ⟨h.some_room, hreset⟩
    · exact hreset self

theorem Orderly.lead (h : Orderly core) (hvoter : core.selfIsVoter = true) :
    Orderly (leaderState core) := by
  have hview := leaderState_view core
  obtain ⟨hpending, hwaiting, hacks, hmax, hself⟩ := leaderState_fresh core
  have hmembership : coreMembership (leaderState core) = coreMembership core :=
    congrArg (fun v => v.transition.committed) hview
  constructor
  case voter =>
    rw [hself, hmembership, show (leaderState core).selfId = core.selfId from
      congrArg CoreView.selfId hview]
    exact h.voter
  case campaigner => exact fun _ => hself.trans hvoter
  case matched =>
    intro _ peer hpeer
    rw [show (leaderState core).peers = core.peers from congrArg CoreView.peers hview] at hpeer
    rw [show (leaderState core).matchIndex = leaderMatch core from
      congrArg CoreView.matchIndex hview, show (leaderState core).log = core.log from
      congrArg CoreView.log hview, leaderMatch]
    split_ifs
    · exact le_rfl
    · exact Nat.zero_le _
  case room => exact (leaderState_windows h.windows).some_room
  case window => exact (leaderState_windows h.windows).window
  case reads =>
    rw [readTotalCount, hpending, hwaiting]
    exact Nat.zero_le _
  case limit => exact hmax ▸ h.limit
  case reading => exact fun _ => ⟨hpending, hwaiting⟩
  case unasked => exact fun _ => hacks

structure ReadView where
  self : NodeId
  contextId : UInt64
  contexts : List UInt64
  index : ℕ
  acks : ℕ
  waiting : List UInt64
  limit : ℕ

def readView (core : Core) : ReadView :=
  { self := core.selfId
    contextId := core.pendingReadContextId
    contexts := core.pendingReadContexts
    index := core.pendingReadIndex
    acks := core.pendingReadAcks
    waiting := core.waitingReadContexts
    limit := core.maxPendingReads }

/-- A change of peers leaves reads and transfers alone. -/
structure Undisturbed (core core' : Core) : Prop where
  reads : readView core' = readView core
  target : core'.leadershipTransferTarget = core.leadershipTransferTarget
  sent : core'.leadershipTransferSent = core.leadershipTransferSent

theorem Undisturbed.trans {a b c : Core} (h : Undisturbed a b) (h' : Undisturbed b c) :
    Undisturbed a c :=
  ⟨h'.reads.trans h.reads, h'.target.trans h.target, h'.sent.trans h.sent⟩

theorem coreRefreshPeers_undisturbed (core : Core) (peers : List NodeId) :
    Undisturbed core (coreRefreshPeers core peers) ∧
      (coreRefreshPeers core peers).selfIsVoter = core.selfIsVoter := by
  unfold coreRefreshPeers refreshSelf
  split_ifs
  · exact ⟨⟨rfl, rfl, rfl⟩, rfl⟩
  · cases peerIndex (carriedPeers core peers) (carriedPeers core peers).selfId <;>
      exact ⟨⟨rfl, rfl, rfl⟩, rfl⟩
  · exact ⟨⟨rfl, rfl, rfl⟩, rfl⟩

theorem coreRefreshPeers_windows (h : WindowsOk core) (peers : List NodeId) :
    WindowsOk (coreRefreshPeers core peers) := by
  have hcarried : WindowsOk (carriedPeers core peers) := ⟨h.some_room, fun _ => Nat.zero_le _⟩
  unfold coreRefreshPeers refreshSelf
  split_ifs
  · exact h
  · cases peerIndex (carriedPeers core peers) (carriedPeers core peers).selfId with
    | none => exact hcarried
    | some self =>
      have hempty : (appendWindowReset false).items.length ≤ core.maxInflightAppendRequests :=
        Nat.zero_le _
      exact ⟨h.some_room, (hcarried.set self hempty).window⟩
  · exact hcarried

/-- Two cores with the same peers and the same progress of them. -/
structure SameProgress (a b : Core) : Prop where
  selfId : a.selfId = b.selfId
  role : a.role = b.role
  log : a.log = b.log
  peers : a.peers = b.peers
  matched : a.matchIndex = b.matchIndex
  next : a.nextIndex = b.nextIndex
  paused : a.pausedPeers = b.pausedPeers

theorem SameProgress.reaches {a b : Core} (h : SameProgress a b) (capacity peer : ℕ) :
    RaftOutbox.reaches a capacity peer = RaftOutbox.reaches b capacity peer := by
  unfold RaftOutbox.reaches peerIndexPaused
  rw [h.log, h.peers, h.next, h.paused]

theorem SameProgress.reachesSome {a b : Core} (h : SameProgress a b) (capacity : ℕ) :
    RaftOutbox.reachesSome a capacity = RaftOutbox.reachesSome b capacity := by
  unfold RaftOutbox.reachesSome peerId
  rw [h.peers, h.selfId]
  simp only [h.reaches]

theorem SameProgress.refresh {a b : Core} (h : SameProgress a b) (peers : List NodeId) :
    SameProgress (coreRefreshPeers a peers) (coreRefreshPeers b peers) := by
  have hmatch : carriedMatch a peers = carriedMatch b peers := by
    funext index
    rw [carriedMatch, h.peers, h.matched]
    rfl
  have hnext : carriedNext a peers = carriedNext b peers := by
    funext index
    rw [carriedNext, h.peers, h.matched, h.log]
    rfl
  have hcarried : SameProgress (carriedPeers a peers) (carriedPeers b peers) :=
    ⟨h.selfId, h.role, h.log, rfl, hmatch, hnext, by
      change carryMask a.peers peers a.pausedPeers = carryMask b.peers peers b.pausedPeers
      rw [h.peers, h.paused]⟩
  unfold coreRefreshPeers
  rw [h.peers, h.role]
  split_ifs
  · exact h
  · unfold refreshSelf
    rw [show peerIndex (carriedPeers a peers) (carriedPeers a peers).selfId =
      peerIndex (carriedPeers b peers) (carriedPeers b peers).selfId by
        rw [hcarried.selfId]; rfl]
    cases peerIndex (carriedPeers b peers) (carriedPeers b peers).selfId with
    | none => exact hcarried
    | some self =>
      refine ⟨h.selfId, h.role, h.log, rfl, ?_, ?_, hcarried.paused⟩
      · change update (carriedMatch a peers) self (logLastIndex a.log) =
          update (carriedMatch b peers) self (logLastIndex b.log)
        rw [hmatch, h.log]
      · change update (carriedNext a peers) self (logLastIndex a.log + 1) =
          update (carriedNext b peers) self (logLastIndex b.log + 1)
        rw [hnext, h.log]
  · exact hcarried

theorem SameProgress.trans {a b c : Core} (h : SameProgress a b) (h' : SameProgress b c) :
    SameProgress a c where
  selfId := h.selfId.trans h'.selfId
  role := h.role.trans h'.role
  log := h.log.trans h'.log
  peers := h.peers.trans h'.peers
  matched := h.matched.trans h'.matched
  next := h.next.trans h'.next
  paused := h.paused.trans h'.paused

theorem coreRefreshPeers_beyond {peer : ℕ} (hlt : peer < core.peers.length)
    (hle : peers.length ≤ peer) : (coreRefreshPeers core peers).nextIndex peer = 0 := by
  have hcarried : carriedNext core peers peer = 0 := if_neg (Nat.not_lt.mpr hle)
  unfold coreRefreshPeers
  split_ifs with hsame
  · rw [beq_iff_eq] at hsame
    rw [hsame] at hlt
    exact absurd hle (Nat.not_le.mpr hlt)
  · unfold refreshSelf
    cases hself : peerIndex (carriedPeers core peers) (carriedPeers core peers).selfId with
    | none => exact hcarried
    | some self =>
      have hself : self < peers.length :=
        (List.getElem?_eq_some_iff.mp (ascendingIndex_sound hself).2).1
      exact (update_of_ne (by omega) _ _).trans hcarried
  · exact hcarried

theorem coreRefreshPeers_own {peer : ℕ} (hleader : core.role = .leader)
    (hsorted : idsAscending peers = true) (hother : core.peers[peer]? ≠ some core.selfId)
    (hown : peers[peer]? = some core.selfId) :
    (coreRefreshPeers core peers).nextIndex peer = logLastIndex core.log + 1 := by
  have hmoved : (core.peers == peers) ≠ true := by
    intro hsame
    rw [beq_iff_eq] at hsame
    exact hother (hsame ▸ hown)
  have hindex : peerIndex (carriedPeers core peers) (carriedPeers core peers).selfId = some peer :=
    ascendingIndex_complete hsorted hown
  unfold coreRefreshPeers
  rw [if_neg hmoved, if_pos (beq_iff_eq.mpr hleader), refreshSelf, hindex]
  exact update_self ..

theorem coreRefreshPeers_carries {id : NodeId} {old new : ℕ}
    (hremote : id ≠ core.selfId) (hold : peerSetIndex core.peers id = some old)
    (hnew : peerSetIndex peers id = some new) :
    (coreRefreshPeers core peers).matchIndex new = core.matchIndex old := by
  obtain ⟨_, hget⟩ := ascendingIndex_sound hnew
  have hlt := (List.getElem?_eq_some_iff.mp hget).1
  have hcarried : carriedMatch core peers new = core.matchIndex old := by
    rw [carriedMatch, if_pos hlt, hget, Option.getD_some, hold]
  unfold coreRefreshPeers
  split_ifs with hsame
  · rw [beq_iff_eq] at hsame
    rw [← hsame, hold] at hnew
    rw [Option.some.inj hnew]
  · unfold refreshSelf
    cases hself : peerIndex (carriedPeers core peers) (carriedPeers core peers).selfId with
    | none => exact hcarried
    | some self =>
      have hne : new ≠ self := by
        rintro rfl
        have hself' := (ascendingIndex_sound hself).2
        exact hremote (Option.some.inj (hget.symm.trans hself'))
      change update (carriedMatch core peers) self _ new = _
      rw [update_of_ne hne, hcarried]
  · exact hcarried

theorem carriedMatch_le {bound : ℕ} 
    (h : ∀ peer, peer < core.peers.length → core.matchIndex peer ≤ bound) (peer : ℕ) :
    carriedMatch core peers peer ≤ bound := by
  unfold carriedMatch
  split_ifs
  · cases hold : peerSetIndex core.peers ((peers[peer]?).getD 0) with
    | none => exact Nat.zero_le _
    | some old =>
      have hget := (ascendingIndex_sound hold).2
      exact h old (List.getElem?_eq_some_iff.mp hget).1
  · exact Nat.zero_le _

/-- The matches carried over to new peers keep their bound, except that a leader counts itself
as matched to its own last entry. -/
theorem coreRefreshPeers_match {bound : ℕ}
    (h : ∀ peer, peer < core.peers.length → core.matchIndex peer ≤ bound) (peer : ℕ)
    (hpeer : peer < peers.length) :
    (coreRefreshPeers core peers).matchIndex peer ≤ bound ∨
      (peers[peer]? = some core.selfId ∧
        (coreRefreshPeers core peers).matchIndex peer = logLastIndex core.log) := by
  unfold coreRefreshPeers
  split_ifs with hsame
  · rw [beq_iff_eq] at hsame
    exact Or.inl (h peer (hsame ▸ hpeer))
  · unfold refreshSelf
    cases hindex : peerIndex (carriedPeers core peers) (carriedPeers core peers).selfId with
    | none => exact Or.inl (carriedMatch_le h peer)
    | some self =>
      change update (carriedMatch core peers) self (logLastIndex core.log) peer ≤ bound ∨
        (peers[peer]? = some core.selfId ∧
          update (carriedMatch core peers) self (logLastIndex core.log) peer = _)
      by_cases hself : peer = self
      · subst hself
        rw [update_self]
        exact Or.inr ⟨(ascendingIndex_sound hindex).2, rfl⟩
      · rw [update_of_ne hself]
        exact Or.inl (carriedMatch_le h peer)
  · exact Or.inl (carriedMatch_le h peer)

theorem Orderly.refresh (h : Orderly core) (peers : List NodeId) :
    Orderly (coreRefreshPeers core peers) := by
  have hview := coreRefreshPeers_view core peers
  obtain ⟨⟨hreads, _, _⟩, hself⟩ := coreRefreshPeers_undisturbed core peers
  let next := coreRefreshPeers core peers
  have hrole : next.role = core.role := congrArg CoreView.role hview
  have hpending : next.pendingReadContexts = core.pendingReadContexts :=
    congrArg ReadView.contexts hreads
  have hwaiting : next.waitingReadContexts = core.waitingReadContexts :=
    congrArg ReadView.waiting hreads
  have hmax : next.maxPendingReads = core.maxPendingReads := congrArg ReadView.limit hreads
  constructor
  case voter =>
    rw [hself, coreMembership, show next.membershipTransition = core.membershipTransition from
      congrArg CoreView.transition hview,
      show next.selfId = core.selfId from congrArg CoreView.selfId hview]
    exact h.voter
  case campaigner => exact fun hnot => hself.trans (h.campaigner (hrole ▸ hnot))
  case matched =>
    intro hleader peer hpeer
    rw [show next.peers = peers from congrArg CoreView.peers hview] at hpeer
    rw [show next.log = core.log from congrArg CoreView.log hview]
    rcases coreRefreshPeers_match (h.matched (hrole ▸ hleader)) peer hpeer with hle | ⟨_, hlast⟩
    · exact hle
    · exact hlast.le
  case room => exact (coreRefreshPeers_windows h.windows peers).some_room
  case window => exact (coreRefreshPeers_windows h.windows peers).window
  case reads =>
    rw [readTotalCount, hpending, hwaiting, hmax]
    exact h.reads
  case limit => exact hmax ▸ h.limit
  case reading =>
    intro hnot
    exact ⟨hpending.trans (h.reading (hrole ▸ hnot)).1, hwaiting.trans (h.reading (hrole ▸ hnot)).2⟩
  case unasked =>
    intro hnone
    exact (congrArg ReadView.acks hreads).trans (h.unasked (hpending.symm.trans hnone))

def withVoter (core : Core) (voter : Bool) : Core := { core with selfIsVoter := voter }

theorem coreRefreshPeers_voter (core : Core) (peers : List NodeId) (voter : Bool) :
    withVoter (coreRefreshPeers core peers) voter =
      coreRefreshPeers (withVoter core voter) peers := by
  have hindex : peerIndex (carriedPeers (withVoter core voter) peers)
      (carriedPeers (withVoter core voter) peers).selfId =
      peerIndex (carriedPeers core peers) (carriedPeers core peers).selfId := rfl
  have hpeers : (withVoter core voter).peers = core.peers := rfl
  have hrole : (withVoter core voter).role = core.role := rfl
  unfold coreRefreshPeers
  rw [hpeers, hrole]
  split_ifs
  · rfl
  · unfold refreshSelf
    rw [hindex]
    cases peerIndex (carriedPeers core peers) (carriedPeers core peers).selfId <;> rfl
  · rfl

def syncedCore (core : Core) (peers : List NodeId) : Core :=
  coreRefreshPeers (withVoter core (membershipIsVoter (coreMembership core) core.selfId)) peers

theorem syncedCore_view (core : Core) (peers : List NodeId) :
    coreView (syncedCore core peers) = { coreView core with
      peers
      matchIndex := (syncedCore core peers).matchIndex } :=
  coreRefreshPeers_view _ _

theorem syncedCore_undisturbed (core : Core) (peers : List NodeId) :
    Undisturbed core (syncedCore core peers) := by
  obtain ⟨⟨hreads, htarget, hsent⟩, _⟩ := coreRefreshPeers_undisturbed
    (withVoter core (membershipIsVoter (coreMembership core) core.selfId)) peers
  exact ⟨hreads, htarget, hsent⟩

theorem syncedCore_voter (core : Core) (peers : List NodeId) :
    (syncedCore core peers).selfIsVoter = membershipIsVoter (coreMembership core) core.selfId :=
  (coreRefreshPeers_undisturbed _ _).2

theorem coreSyncMembership_eq
    (hbuild : coreBuildPeerSet core.membershipTransition = .ok peers) :
    coreSyncMembership core = .ok
      (if membershipIsVoter (coreMembership core) core.selfId = false ∧ core.role = .leader then
        becomeFollower (syncedCore core peers) core.term
      else
        syncedCore core peers) := by
  have hview := coreRefreshPeers_view core peers
  let next := coreRefreshPeers core peers
  have hmembership : coreMembership next = coreMembership core :=
    congrArg (fun v => v.transition.committed) hview
  have hself : next.selfId = core.selfId := congrArg CoreView.selfId hview
  have hsynced : withVoter next (membershipIsVoter (coreMembership next) next.selfId) =
      syncedCore core peers := by
    rw [hmembership, hself, coreRefreshPeers_voter]
    rfl
  have hrole : (syncedCore core peers).role = core.role :=
    congrArg CoreView.role (syncedCore_view core peers)
  have hterm : (syncedCore core peers).term = core.term :=
    congrArg CoreView.term (syncedCore_view core peers)
  unfold coreSyncMembership
  rw [hbuild]
  let voting := withVoter next (membershipIsVoter (coreMembership next) next.selfId)
  change (if !voting.selfIsVoter && voting.role == .leader then
    Except.ok (becomeFollower voting voting.term) else .ok voting) = _
  rw [show voting = _ from hsynced, syncedCore_voter, hrole, hterm]
  by_cases hdown : membershipIsVoter (coreMembership core) core.selfId = false ∧ core.role = .leader
  · rw [if_pos hdown, if_pos (by simp [hdown])]
  · rw [if_neg hdown, if_neg (by simpa using hdown)]

def appliedCore (core : Core) (i : ℕ) : Core :=
  { core with
    commitIndex := i
    membershipTransition := membershipTransitionApply core.membershipTransition i }

def committedCore (core : Core) (i : ℕ) (peers : List NodeId) : Core :=
  if membershipIsVoter (coreMembership (appliedCore core i)) core.selfId = false ∧
      core.role = .leader then
    becomeFollower (syncedCore (appliedCore core i) peers) core.term
  else
    syncedCore (appliedCore core i) peers

theorem advanceCommit_eq {i : ℕ}
    (hbuild : coreBuildPeerSet (membershipTransitionApply core.membershipTransition i) = .ok peers) :
    advanceCommit core i = (.ok, committedCore core i peers) := by
  have hsynced : coreSyncMembership (appliedCore core i) = .ok (committedCore core i peers) :=
    coreSyncMembership_eq hbuild
  unfold appliedCore at hsynced
  rw [advanceCommit, hsynced]

theorem Orderly.commit (h : Orderly core) (hrole : core.role = .leader ∨ core.role = .follower)
    (i : ℕ) (peers : List NodeId) : Orderly (committedCore core i peers) := by
  unfold committedCore
  split_ifs with hdown
  · have hview := syncedCore_view (appliedCore core i) peers
    have hwindows : WindowsOk (syncedCore (appliedCore core i) peers) := by
      apply coreRefreshPeers_windows
      exact ⟨h.room, h.window⟩
    apply orderly_follower
    · rw [syncedCore_voter, show (syncedCore (appliedCore core i) peers).selfId = core.selfId from
        congrArg CoreView.selfId hview, show coreMembership (syncedCore (appliedCore core i) peers) =
        coreMembership (appliedCore core i) from congrArg (fun v => v.transition.committed) hview]
      rfl
    · exact hwindows.some_room
    · rw [show (syncedCore (appliedCore core i) peers).maxPendingReads = core.maxPendingReads from
        congrArg ReadView.limit (syncedCore_undisturbed _ _).reads]
      exact h.limit
  · have hvoter : core.role ≠ .follower →
        membershipIsVoter (coreMembership (appliedCore core i)) core.selfId = true := by
      intro hnot
      have hleader : core.role = .leader := hrole.resolve_right hnot
      exact Bool.not_eq_false _ |>.mp fun hfalse => hdown ⟨hfalse, hleader⟩
    have happlied : Orderly (withVoter (appliedCore core i)
        (membershipIsVoter (coreMembership (appliedCore core i)) (appliedCore core i).selfId)) :=
      { h with
        voter := rfl
        campaigner := hvoter }
    exact happlied.refresh peers

variable {peer snapshotIndex : ℕ} {entries : List Entry} (h : Orderly core)

include h

theorem Orderly.matchTo {index : ℕ} (hindex : index ≤ logLastIndex core.log) :
    Orderly (setMatch core peer index) := by
  refine { h with matched := ?_ }
  intro hleader k hk
  change update core.matchIndex peer index k ≤ logLastIndex core.log
  by_cases hsame : k = peer
  · subst hsame
    rw [update_self]
    exact hindex
  · rw [update_of_ne hsame]
    exact h.matched hleader k hk

theorem Orderly.windowTo {window : AppendWindow}
    (hwindow : window.items.length ≤ core.maxInflightAppendRequests) :
    Orderly (setWindow core peer window) :=
  { h with window := (h.windows.set peer hwindow).window }

theorem Orderly.nextTo (next : ℕ) : Orderly (setNext core peer next) :=
  { h with }

theorem Orderly.grow :
    Orderly { core with log := { core.log with entries := core.log.entries ++ entries } } := by
  refine { h with matched := ?_ }
  intro hleader peer hpeer
  refine (h.matched hleader peer hpeer).trans ?_
  rw [logLastIndex_append]
  exact Nat.le_add_right _ _

theorem Orderly.restart (hindex : snapshotIndex ≤ logLastIndex core.log) :
    Orderly (restartPeer core peer snapshotIndex) := by
  unfold restartPeer
  split_ifs
  · exact ((h.matchTo hindex).nextTo _).windowTo (Nat.zero_le _)
  · exact (h.nextTo _).windowTo (Nat.zero_le _)

theorem Orderly.moveWaiting (hnone : core.pendingReadContexts = []) :
    Orderly (readMoveWaitingToActive core) := by
  have hreads := h.reads
  rw [readTotalCount, hnone] at hreads
  refine { h with reads := ?_, reading := ?_, unasked := fun _ => h.unasked hnone }
  · change core.waitingReadContexts.length + 0 ≤ core.maxPendingReads
    simpa using hreads
  · exact fun hnot => ⟨(h.reading hnot).2, rfl⟩

end RaftOrder
