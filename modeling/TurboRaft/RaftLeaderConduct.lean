import TurboRaft.RaftConduct

/-! # How a leader behaves towards others

The commit of a leader in the middle of a call, and the bodies that replicate after it. -/
namespace RaftLeaderConduct

open RaftTypes RaftConfiguration RaftMembership RaftMembershipTransition RaftLog RaftCoreState
open RaftCoreEmit RaftCoreStep RaftCore RaftTransitionLemmas RaftQuorum RaftRefinement RaftCoreRuns
open RaftOutbox RaftLogLemmas RaftCallRefinement RaftConduct RaftCoreProgress RaftOperationEffects
open RaftOrder Function

variable {core core' : Core} {call call' : Call}

section Commits

variable {peers : List NodeId}

def reachedTransition (core : Core) : MembershipTransition :=
  match commitCandidate core (membershipTransitionCommitLimit core.membershipTransition
      (logLastIndex core.log)) with
  | none => core.membershipTransition
  | some candidate => membershipTransitionApply core.membershipTransition candidate

def transitionPeers (transition : MembershipTransition) : List NodeId :=
  match coreBuildPeerSet transition with
  | .ok peers => peers
  | .error _ => []

section

variable (h : coreView core' = coreView core)

include h

theorem coreMatchQuorum_view (candidate : ℕ) :
    coreMatchQuorum core' candidate = coreMatchQuorum core candidate := by
  have hmembership : coreMembership core' = coreMembership core :=
    congrArg (fun v => v.transition.committed) h
  have hmember : memberMatch core' = memberMatch core := by
    funext index
    rw [memberMatch, peerIndex, hmembership, show core'.peers = core.peers from
      congrArg CoreView.peers h, show core'.matchIndex = core.matchIndex from
      congrArg CoreView.matchIndex h]
    rfl
  rw [coreMatchQuorum, hmembership, hmember]
  rfl

theorem commitCandidate_view (limit : ℕ) :
    commitCandidate core' limit = commitCandidate core limit := by
  induction limit with
  | zero => rfl
  | succ limit ih =>
    rw [commitCandidate, commitCandidate, ih, coreMatchQuorum_view h,
      show core'.commitIndex = core.commitIndex from congrArg CoreView.commitIndex h,
      show core'.log = core.log from congrArg CoreView.log h,
      show core'.term = core.term from congrArg CoreView.term h]

theorem reachedTransition_view :
    reachedTransition core' = reachedTransition core := by
  rw [reachedTransition, commitCandidate_view h, show core'.membershipTransition =
    core.membershipTransition from congrArg CoreView.transition h, show core'.log = core.log from
    congrArg CoreView.log h]
  rfl

end

def reachedCore (core : Core) : Core :=
  coreRefreshPeers core (transitionPeers (reachedTransition core))

/-- What the commit of a leader makes of its core. A leader that the configurations leave out
steps down; otherwise only the peers and their progress move. -/
structure Reached (core next : Core) : Prop where
  orderly : Orderly next
  term : next.term = core.term
  built : coreBuildPeerSet (reachedTransition core) = .ok next.peers
  membership : coreMembership next = (reachedTransition core).committed
  deposed : membershipIsVoter (reachedTransition core).committed core.selfId = false →
    next.role = .follower ∧ next.leadershipTransferTarget = 0 ∧
      next.pendingReadContexts = [] ∧ next.waitingReadContexts = [] ∧
      ∀ peer, next.appendWindows peer = appendWindowReset true
  leading : membershipIsVoter (reachedTransition core).committed core.selfId = true →
    next.role = .leader ∧ Undisturbed core next
  progress : SameProgress { next with role := core.role } (reachedCore core)
  paused : ∀ id ∈ core.peers, id ∈ next.peers → peerPaused next id = peerPaused core id

theorem transitionPeers_eq {transition : MembershipTransition}
    (h : coreBuildPeerSet transition = .ok peers) : transitionPeers transition = peers := by
  rw [transitionPeers, h]

theorem Reached.selfId {next : Core} (h : Reached core next) : next.selfId = core.selfId :=
  h.progress.selfId.trans (congrArg CoreView.selfId (coreRefreshPeers_view _ _))

theorem Reached.log {next : Core} (h : Reached core next) : next.log = core.log :=
  h.progress.log.trans (congrArg CoreView.log (coreRefreshPeers_view _ _))

theorem Reached.peers_eq {next : Core} (h : Reached core next) :
    next.peers = transitionPeers (reachedTransition core) :=
  (transitionPeers_eq h.built).symm

/-- The progress carried over does not depend on the commit index or the configurations. -/
theorem syncedCore_progress (core : Core) (i : ℕ) (peers : List NodeId) :
    SameProgress (syncedCore (appliedCore core i) peers) (coreRefreshPeers core peers) := by
  have hsame : SameProgress (withVoter (appliedCore core i) (membershipIsVoter
      (coreMembership (appliedCore core i)) (appliedCore core i).selfId)) core :=
    ⟨rfl, rfl, rfl, rfl, rfl, rfl, rfl⟩
  exact hsame.refresh peers

/-- Nothing was sent in between. -/
structure SameOutbox (ready ready' : Ready) : Prop where
  capacity : ready'.messageCapacity = ready.messageCapacity
  messages : ready'.messages = ready.messages
  requests : ready'.snapshotRequests = ready.snapshotRequests
  states : ready'.readStates = ready.readStates
  roles : ready'.emissionRoles = ready.emissionRoles

theorem SameOutbox.silent {ready ready' : Ready} (h : SameOutbox ready ready')
    (hsilent : Silent ready) : Silent ready' :=
  ⟨h.messages.trans hsilent.messages, h.requests.trans hsilent.requests,
    h.states.trans hsilent.states, h.roles.trans hsilent.roles⟩

theorem reached_unmoved (h : Orderly core) (hinv : CoreInv core) (hleader : core.role = .leader)
    (hsame : reachedTransition core = core.membershipTransition) : Reached core core := by
  have hnot : core.role ≠ .follower := by
    rw [hleader]
    decide
  have hvoter : membershipIsVoter (reachedTransition core).committed core.selfId = true := by
    rw [hsame]
    exact h.voter.symm.trans (h.campaigner hnot)
  constructor
  case orderly => exact h
  case term => rfl
  case built => exact hsame ▸ hinv.peers
  case membership => rw [hsame]; rfl
  case deposed =>
    intro hfalse
    rw [hvoter] at hfalse
    cases hfalse
  case leading => exact fun _ => ⟨hleader, rfl, rfl, rfl⟩
  case progress =>
    rw [reachedCore, transitionPeers_eq (hsame ▸ hinv.peers), coreRefreshPeers,
      if_pos (beq_self_eq_true _)]
    exact ⟨rfl, rfl, rfl, rfl, rfl, rfl, rfl⟩
  case paused => exact fun _ _ _ => rfl

theorem committedCore_reached (h : Orderly core) (hinv : CoreInv core)
    (hleader : core.role = .leader) {i : ℕ}
    (hreached : reachedTransition core = membershipTransitionApply core.membershipTransition i)
    (hbuild : coreBuildPeerSet (membershipTransitionApply core.membershipTransition i) = .ok peers) :
    Reached core (committedCore core i peers) := by
  have hview := syncedCore_view (appliedCore core i) peers
  have hprogress := syncedCore_progress core i peers
  have hpeers : (committedCore core i peers).peers = peers := by
    unfold committedCore
    split_ifs <;> exact congrArg CoreView.peers hview
  have hpaused : ∀ id ∈ core.peers, id ∈ peers →
      peerPaused (committedCore core i peers) id = peerPaused core id := by
    intro id hid hid'
    have hsynced : peerPaused (syncedCore (appliedCore core i) peers) id = peerPaused core id := by
      refine (syncedCore_paused ?_ (peerSetBuild_spec hbuild).2.1 ?_ hid').trans rfl
      · exact (peerSetBuild_spec hinv.peers).2.1
      · exact hid
    unfold committedCore
    split_ifs <;> exact hsynced
  constructor
  case orderly => exact h.commit (Or.inl hleader) i peers
  case term =>
    unfold committedCore
    split_ifs
    · have hterm : (syncedCore (appliedCore core i) peers).term = core.term :=
        congrArg CoreView.term hview
      change (if (syncedCore (appliedCore core i) peers).term < core.term then core.term
        else (syncedCore (appliedCore core i) peers).term) = core.term
      rw [hterm, if_neg (Nat.lt_irrefl _)]
    · exact congrArg CoreView.term hview
  case built => rw [hpeers, hreached, hbuild]
  case membership =>
    rw [hreached]
    unfold committedCore
    split_ifs <;> exact congrArg (fun v => v.transition.committed) hview
  case deposed =>
    intro hfalse
    rw [hreached] at hfalse
    have hdown : membershipIsVoter (coreMembership (appliedCore core i)) core.selfId = false ∧
        core.role = .leader := ⟨hfalse, hleader⟩
    rw [committedCore, if_pos hdown]
    exact ⟨rfl, rfl, rfl, rfl, fun _ => rfl⟩
  case leading =>
    intro htrue
    rw [hreached] at htrue
    have hup : ¬ (membershipIsVoter (coreMembership (appliedCore core i)) core.selfId = false ∧
        core.role = .leader) := by
      rintro ⟨hfalse, _⟩
      exact Bool.false_ne_true (hfalse.symm.trans htrue)
    rw [committedCore, if_neg hup]
    obtain ⟨hreads, htarget, hsent⟩ := syncedCore_undisturbed (appliedCore core i) peers
    exact ⟨(congrArg CoreView.role hview).trans hleader, hreads, htarget, hsent⟩
  case progress =>
    have hrole : core.role = (coreRefreshPeers core peers).role :=
      (congrArg CoreView.role (coreRefreshPeers_view core peers)).symm
    rw [reachedCore, hreached, transitionPeers_eq hbuild]
    unfold committedCore
    split_ifs <;> exact ⟨hprogress.selfId, hrole, hprogress.log, hprogress.peers,
      hprogress.matched, hprogress.next, hprogress.paused⟩
  case paused => exact fun id hid hid' => hpaused id hid (hpeers ▸ hid')

theorem updateCommit_reached (h : Orderly call.core) (hinv : CoreInv call.core)
    (hleader : call.core.role = .leader) :
    ∃ next, updateCommit call = (.ok, next) ∧ Reached call.core next.core ∧
      SameOutbox call.ready next.ready := by
  unfold updateCommit
  cases hcandidate : commitCandidate call.core (membershipTransitionCommitLimit
      call.core.membershipTransition (logLastIndex call.core.log)) with
  | none =>
    have hsame : reachedTransition call.core = call.core.membershipTransition := by
      rw [reachedTransition, hcandidate]
    exact ⟨call, rfl, reached_unmoved h hinv hleader hsame, rfl, rfl, rfl, rfl, rfl⟩
  | some i =>
    have hreached : reachedTransition call.core =
        membershipTransitionApply call.core.membershipTransition i := by
      rw [reachedTransition, hcandidate]
    obtain ⟨peers, hbuild⟩ := hinv.built.apply i
    dsimp only
    rw [advanceCommit_eq hbuild]
    exact ⟨_, rfl, committedCore_reached h hinv hleader hreached hbuild, rfl, rfl, rfl, rfl, rfl⟩

end Commits

section Appends

variable {T : Terms} {start : Call}
  {entries : List Entry} {proposals : List Proposal} {transition : MembershipTransition}

structure Leading (start : Call) (core : Core) : Prop where
  orderly : Orderly core
  inv : CoreInv core
  role : core.role = .leader
  selfId : core.selfId = start.core.selfId
  term : core.term = start.core.term
  reads : readView core = readView start.core
  led : start.core.role = .leader

theorem Reached.readStep {next : Call} (h : Reached core next.core) (hlead : Leading start core)
    (hstates : next.ready.readStates = [])
    (hheld : T.unmoved → AcksHeld start.core next.core) : ReadStep T start.core next := by
  cases hvoter : membershipIsVoter (reachedTransition core).committed core.selfId with
  | false =>
    obtain ⟨_, _, hcontexts, hwaiting, _⟩ := h.deposed hvoter
    exact .cleared hcontexts hwaiting hstates
  | true =>
    obtain ⟨hrole, hundisturbed⟩ := h.leading hvoter
    exact .kept (hundisturbed.reads.trans hlead.reads) (hrole.trans hlead.led.symm)
      (h.term.trans hlead.term) hheld hstates

theorem afterAppend_reached (entries : List Entry) (hblank : Blank start)
    (hlead : Leading start core) :
    ∃ next, (∀ call, afterAppend ⟨core, start.ready⟩ entries = (.ok, call) ↔
        call = broadcastReplication next) ∧
      Reached core next.core ∧ Silent next.ready ∧
      next.ready.messageCapacity = start.ready.messageCapacity := by
  obtain ⟨next, hcommit, hreached, hsame⟩ : ∃ next,
      updateCommit ⟨core, { start.ready with logChanged := true, logEntries := entries }⟩ =
        (.ok, next) ∧ Reached core next.core ∧
      SameOutbox { start.ready with logChanged := true, logEntries := entries } next.ready :=
    updateCommit_reached hlead.orderly hlead.inv hlead.role
  refine ⟨next, fun call => ?_, hreached, hsame.silent { hblank.toSilent with }, hsame.capacity⟩
  unfold afterAppend
  rw [hcommit]
  exact ⟨fun hok => ((Prod.ext_iff.mp hok).2).symm, fun hok => by rw [hok]⟩

/-- Once its commit has taken its leadership away, a leader that goes on sends in another role. -/
def replicatesDeposed (core : Core) (capacity : ℕ) : Bool :=
  !membershipIsVoter (reachedTransition core).committed core.selfId &&
    reachesSome (reachedCore core) capacity

theorem Reached.broadcast {next : Call} (h : Reached core next.core) (hsilent : Silent next.ready)
    (hdeposed : membershipIsVoter (reachedTransition core).committed core.selfId = false) :
    if RaftOutbox.reachesSome (reachedCore core) next.ready.messageCapacity then
      Sent (broadcastReplication next).ready
    else broadcastReplication next = next := by
  rw [← h.progress.reachesSome]
  exact broadcastReplication_reached hsilent.messages hsilent.requests
    (peerSetBuild_spec h.built).2.1 (h.deposed hdeposed).2.2.2.2

theorem afterAppend_conduct (hblank : Blank start) (hlead : Leading start core)
    (hsettled : T.settled → replicatesDeposed core start.ready.messageCapacity = false)
    (hheld : T.unmoved → AcksHeldBy start.core
      (transitionPeers (reachedTransition core)))
    (hok : afterAppend ⟨core, start.ready⟩ entries = (.ok, call)) :
    Conduct T start call := by
  obtain ⟨next, hresult, hreached, hsilent, hcapacity⟩ :=
    afterAppend_reached entries hblank hlead
  rw [(hresult call).mp hok]
  have hquiet : Conduct T start next := by
    refine .quiet hreached.orderly hcapacity hsilent (hreached.readStep hlead hsilent.states ?_)
    intro hunmoved k p hbit hp
    exact hheld hunmoved k p hbit (hreached.peers_eq ▸ hp)
  have hsending := hquiet.replicate hsilent.requests (peerSetBuild_spec hreached.built).1
    (broadcastReplication_sending next)
  cases hvoter : membershipIsVoter (reachedTransition core).committed core.selfId with
  | true => exact hsending fun _ => (hreached.leading hvoter).1
  | false =>
    have hreaches := hreached.broadcast hsilent hvoter
    rw [hcapacity] at hreaches
    split_ifs at hreaches with hsome
    · refine hsending fun hs => ?_
      have hclear := hsettled hs
      rw [replicatesDeposed, hvoter, hsome] at hclear
      cases hclear
    · rw [hreaches]
      exact hquiet

theorem afterAppend_strays (entries : List Entry) (hblank : Blank start)
    (hlead : Leading start core)
    (hstrays : replicatesDeposed core start.ready.messageCapacity = true) :
    ∃ call, afterAppend ⟨core, start.ready⟩ entries = (.ok, call) ∧
      ¬ Posted start.core call := by
  simp only [replicatesDeposed, Bool.and_eq_true, Bool.not_eq_true'] at hstrays
  obtain ⟨hdeposed, hsome⟩ := hstrays
  obtain ⟨next, hresult, hreached, hsilent, hcapacity⟩ :=
    afterAppend_reached entries hblank hlead
  have hsent := hreached.broadcast hsilent hdeposed
  rw [hcapacity, if_pos hsome] at hsent
  refine ⟨_, (hresult _).mpr rfl, ?_⟩
  refine unposted_replication (broadcastReplication_sending next) hsilent.messages ?_ hsent
  rw [(hreached.deposed hdeposed).1]
  decide

theorem matchSelf_orderly (h : Orderly core) (self : Option ℕ) :
    Orderly (matchSelf core self (logLastIndex core.log)) := by
  cases self with
  | none => exact h
  | some self =>
    refine { h with matched := ?_ }
    intro hleader peer hpeer
    change update core.matchIndex self (logLastIndex core.log) peer ≤ logLastIndex core.log
    by_cases hself : peer = self
    · subst hself
      rw [update_self]
    · rw [update_of_ne hself]
      exact h.matched hleader peer hpeer

theorem matchSelf_reads (core : Core) (self : Option ℕ) (index : ℕ) :
    readView (matchSelf core self index) = readView core := by
  cases self <;> rfl

theorem matchSelf_view (core : Core) (self : Option ℕ) (index : ℕ) :
    coreView (matchSelf core self index) =
      { coreView core with matchIndex := (matchSelf core self index).matchIndex } := by
  cases self <;> rfl

def proposedCore (core : Core) (proposals : List Proposal) : Core :=
  match logAppendLocalBatch core.log core.term proposals with
  | .error _ => core
  | .ok (log, _) =>
    matchSelf { core with log } (voterIndex { core with log } core.selfId)
      (logLastIndex log)

def proposalsTaken (core : Core) (proposals : List Proposal) (capacity : ℕ) : Bool :=
  core.role == .leader && core.leadershipTransferTarget == 0 &&
    decide (unpausedRemotePeerCount core ≤ capacity) &&
    (logAppendLocalBatch core.log core.term proposals).isOk

theorem proposeBody_leads (hblank : Blank start)
    (htaken : proposalsTaken start.core proposals start.ready.messageCapacity = true) :
    Leading start (proposedCore start.core proposals) ∧
      ∃ entries, proposeBody proposals start =
        afterAppend ⟨proposedCore start.core proposals, start.ready⟩ entries := by
  simp only [proposalsTaken, Bool.and_eq_true, beq_iff_eq, decide_eq_true_eq] at htaken
  obtain ⟨⟨⟨hrole, htarget⟩, hroom⟩, hbatch⟩ := htaken
  cases hresult : logAppendLocalBatch start.core.log start.core.term proposals with
  | error status =>
    rw [hresult] at hbatch
    cases hbatch
  | ok result =>
    obtain ⟨log, entries⟩ := result
    have hproposed : proposedCore start.core proposals =
        matchSelf { start.core with log }
          (voterIndex { start.core with log } start.core.selfId) (logLastIndex log) := by
      rw [proposedCore, hresult]
    have hgrown := (grown_commands hblank.inv hresult).matchSelf
      (voterIndex { start.core with log } start.core.selfId) (logLastIndex log)
    obtain ⟨hlog, _⟩ := logAppendLocalBatch_ok hresult
    have horderly : Orderly { start.core with log } := hlog ▸ hblank.orderly.grow
    have hview := matchSelf_view { start.core with log }
      (voterIndex { start.core with log } start.core.selfId) (logLastIndex log)
    rw [hproposed]
    refine ⟨?_, entries, ?_⟩
    · constructor
      case orderly => exact matchSelf_orderly horderly _
      case inv => exact hgrown.inv
      case role => exact (congrArg CoreView.role hview).trans hrole
      case selfId => exact congrArg CoreView.selfId hview
      case term => exact congrArg CoreView.term hview
      case reads => exact matchSelf_reads _ _ _
      case led => exact hrole
    · unfold proposeBody
      simp [hrole, htarget, lacksCapacity, Nat.not_lt.mpr hroom, hresult]

theorem proposeBody_taken (hok : proposeBody proposals start = (.ok, call)) :
    proposalsTaken start.core proposals start.ready.messageCapacity = true ∨ call = start := by
  unfold proposeBody at hok
  split_ifs at hok with hrole htarget hroom
  · cases hok
  · cases hok
  · cases hok
  cases hresult : logAppendLocalBatch start.core.log start.core.term proposals with
  | error status =>
    rw [hresult] at hok
    cases hok
    exact Or.inr rfl
  | ok result =>
    simp only [bne_iff_ne, Decidable.not_not] at hrole htarget
    simp only [lacksCapacity, decide_eq_true_eq, not_lt] at hroom
    exact Or.inl (by simp [proposalsTaken, hrole, htarget, hroom, hresult, Except.isOk, Except.toBool])

theorem proposeBody_conduct (hblank : Blank start)
    (hsettled : T.settled →
      proposalsTaken start.core proposals start.ready.messageCapacity = true →
      replicatesDeposed (proposedCore start.core proposals) start.ready.messageCapacity = false)
    (hheld : T.unmoved → AcksHeldBy start.core
      (transitionPeers (reachedTransition (proposedCore start.core proposals))))
    (hok : proposeBody proposals start = (.ok, call)) : Conduct T start call := by
  rcases proposeBody_taken hok with htaken | rfl
  · obtain ⟨hlead, entries, hbody⟩ := proposeBody_leads hblank htaken
    exact afterAppend_conduct hblank hlead (fun hs => hsettled hs htaken) hheld
      (hbody.symm.trans hok)
  · exact hblank.unchanged

def configuredCore (core : Core) (configuration : Conf) : Core :=
  match membershipTransitionStage core.membershipTransition configuration
      (logLastIndex core.log + 1) with
  | .error _ => core
  | .ok staged =>
    match coreBuildPeerSet staged, logAppendConfiguration core.log core.term configuration with
    | .ok peers, .ok (log, entry) =>
      let refreshed := coreRefreshPeers { core with log, membershipTransition := staged } peers
      matchSelf refreshed (peerIndex refreshed refreshed.selfId) entry.index
    | _, _ => core

structure Configured (core : Core) (configuration : Conf) where
  staged : MembershipTransition
  peers : List NodeId
  log : Log
  entry : Entry
  stage : membershipTransitionStage core.membershipTransition configuration
    (logLastIndex core.log + 1) = .ok staged
  built : coreBuildPeerSet staged = .ok peers
  appended : logAppendConfiguration core.log core.term configuration = .ok (log, entry)

variable {configuration : Conf}

def Configured.refreshed (c : Configured core configuration) : Core :=
  coreRefreshPeers { core with log := c.log, membershipTransition := c.staged } c.peers

theorem Configured.core_eq (c : Configured core configuration) :
    configuredCore core configuration =
      matchSelf c.refreshed (peerIndex c.refreshed c.refreshed.selfId) c.entry.index := by
  rw [configuredCore, c.stage]
  dsimp only
  rw [c.built, c.appended]
  rfl

theorem Configured.log_eq (c : Configured core configuration) :
    c.log = { core.log with entries := core.log.entries ++ [c.entry] } ∧
      c.entry.index = logLastIndex c.log ∧ logLastIndex c.log = logLastIndex core.log + 1 := by
  obtain ⟨hlog, _, hentry, _⟩ := logAppendConfiguration_ok c.appended
  have hlast : logLastIndex c.log = logLastIndex core.log + 1 := by
    rw [hlog]
    exact logLastIndex_append
  exact ⟨hlog, hentry.1.trans hlast.symm, hlast⟩

theorem Configured.staged_eq (c : Configured core configuration)
    (hpending : core.membershipTransition.pending = []) :
    membershipTransitionValidateNext core.membershipTransition configuration = .ok ∧
      c.staged = { core.membershipTransition with
        pending := [(configuration, logLastIndex core.log + 1)] } := by
  have habove : ∀ p ∈ core.membershipTransition.pending, p.2 < logLastIndex core.log + 1 := by
    rw [hpending]
    exact fun p hp => absurd hp List.not_mem_nil
  obtain ⟨hnext, hstaged⟩ := membershipTransitionStage_above habove c.stage
  rw [hpending] at hstaged
  exact ⟨hnext, hstaged⟩

theorem Configured.leading (c : Configured start.core configuration) (hblank : Blank start)
    (hleader : start.core.role = .leader) (hpending : start.core.membershipTransition.pending = []) :
    Leading start (configuredCore start.core configuration) := by
  obtain ⟨hlog, hindex, _⟩ := c.log_eq
  obtain ⟨_, hstaged⟩ := c.staged_eq hpending
  have hgrown := (grown_configuration hblank.inv c.stage c.built c.appended).matchSelf
    (peerIndex c.refreshed c.refreshed.selfId) c.entry.index
  let grown : Core := { start.core with log := c.log, membershipTransition := c.staged }
  have happended : Orderly grown := by
    have horderly : Orderly { start.core with log := c.log } := hlog ▸ hblank.orderly.grow
    refine { horderly with voter := ?_ }
    unfold grown
    rw [hstaged]
    exact hblank.orderly.voter
  have hview := coreRefreshPeers_view grown c.peers
  have hreads := (coreRefreshPeers_undisturbed grown c.peers).1.reads
  have hself := matchSelf_view c.refreshed (peerIndex c.refreshed c.refreshed.selfId) c.entry.index
  have hlast := hindex.trans (congrArg logLastIndex (congrArg CoreView.log hview).symm)
  rw [c.core_eq]
  constructor
  case orderly =>
    rw [hlast]
    exact matchSelf_orderly (happended.refresh c.peers) _
  case inv => exact hgrown.inv
  case role => exact (congrArg CoreView.role hself).trans ((congrArg CoreView.role hview).trans hleader)
  case selfId => exact (congrArg CoreView.selfId hself).trans (congrArg CoreView.selfId hview)
  case term => exact (congrArg CoreView.term hself).trans (congrArg CoreView.term hview)
  case reads => exact (matchSelf_reads _ _ _).trans hreads
  case led => exact hleader

theorem Configured.unmatched (c : Configured core configuration) (h : Orderly core)
    (hleader : core.role = .leader) {k : ℕ} {p : NodeId}
    (hp : (configuredCore core configuration).peers[k]? = some p)
    (hmatch : logLastIndex core.log + 1 ≤ (configuredCore core configuration).matchIndex k) :
    p = core.selfId := by
  have hview := coreRefreshPeers_view
    { core with log := c.log, membershipTransition := c.staged } c.peers
  have hself := matchSelf_view c.refreshed (peerIndex c.refreshed c.refreshed.selfId) c.entry.index
  have hpeers : c.refreshed.peers[k]? = some p := by
    rw [c.core_eq, show (matchSelf _ _ _).peers = _ from congrArg CoreView.peers hself] at hp
    exact hp
  have hknown : c.peers[k]? = some p := by
    rw [show c.refreshed.peers = c.peers from congrArg CoreView.peers hview] at hpeers
    exact hpeers
  have hrefreshed : logLastIndex core.log + 1 ≤ c.refreshed.matchIndex k → p = core.selfId := by
    intro hle
    have hk := (List.getElem?_eq_some_iff.mp hknown).1
    obtain hbound | ⟨hown, _⟩ : c.refreshed.matchIndex k ≤ logLastIndex core.log ∨
        (c.peers[k]? = some core.selfId ∧ c.refreshed.matchIndex k = logLastIndex c.log) := by
      apply coreRefreshPeers_match _ k hk
      exact h.matched hleader
    · exact absurd (hle.trans hbound) (Nat.not_succ_le_self _)
    · exact Option.some.inj (hknown.symm.trans hown)
  rw [c.core_eq] at hmatch
  cases hindex : peerIndex c.refreshed c.refreshed.selfId with rw [hindex] at hmatch
  | none =>
    exact hrefreshed hmatch
  | some self =>
    change _ ≤ update c.refreshed.matchIndex self c.entry.index k at hmatch
    by_cases hk : k = self
    · subst hk
      have hget := (ascendingIndex_sound hindex).2
      rw [show c.refreshed.selfId = core.selfId from congrArg CoreView.selfId hview] at hget
      exact Option.some.inj (hpeers.symm.trans hget)
    · rw [update_of_ne hk] at hmatch
      exact hrefreshed hmatch

theorem Configured.voter (c : Configured core configuration) (h : Orderly core)
    (hinv : CoreInv core) (hleader : core.role = .leader)
    (hpending : core.membershipTransition.pending = []) :
    membershipIsVoter (reachedTransition (configuredCore core configuration)).committed
      core.selfId = true := by
  obtain ⟨hnext, hstaged⟩ := c.staged_eq hpending
  have hnot : core.role ≠ .follower := by
    rw [hleader]
    decide
  have hvoter := h.voter.symm.trans (h.campaigner hnot)
  have htransition : (configuredCore core configuration).membershipTransition =
      { core.membershipTransition with
        pending := [(configuration, logLastIndex core.log + 1)] } := by
    rw [c.core_eq, ← hstaged]
    exact (congrArg CoreView.transition (matchSelf_view _ _ _)).trans
      (congrArg CoreView.transition (coreRefreshPeers_view _ _))
  unfold reachedTransition
  split
  · rw [htransition]
    exact hvoter
  · next i hcandidate =>
    obtain ⟨_, _, _, hquorum⟩ := commitCandidate_some hcandidate
    rw [htransition]
    change membershipIsVoter (applyPending i core.membershipTransition.committed
      [(configuration, logLastIndex core.log + 1)]).committed core.selfId = true
    unfold applyPending
    split_ifs with hcovered
    · -- the new configuration is in force, so its leader alone was a quorum before
      apply sole_voter_follows hinv.built hpending hnext
      have hsound := (coreMatchQuorum_sound (s := {core.selfId}) hquorum
        fun k v hv hmatch => c.unmatched h hleader hv (hcovered.trans hmatch)).2
      rwa [coreMembership, htransition] at hsound
    · exact hvoter

theorem coreAppendConfiguration_leads (hblank : Blank start) (hleader : start.core.role = .leader)
    (hpending : start.core.membershipTransition.pending = [])
    (hok : coreAppendConfiguration start configuration = (.ok, call)) :
    call = start ∨ ∃ c : Configured start.core configuration,
      Leading start (configuredCore start.core configuration) ∧
        afterAppend ⟨configuredCore start.core configuration, start.ready⟩ [c.entry] =
          (.ok, call) := by
  unfold coreAppendConfiguration at hok
  cases hstage : membershipTransitionStage start.core.membershipTransition configuration
      (logLastIndex start.core.log + 1) with
  | error status =>
    rw [hstage] at hok
    cases hok
    exact Or.inl rfl
  | ok staged =>
    rw [hstage] at hok
    dsimp only at hok
    cases hbuild : coreBuildPeerSet staged with rw [hbuild] at hok
    | error status =>
      cases hok
      exact Or.inl rfl
    | ok peers =>
      dsimp only at hok
      split_ifs at hok with hroom
      · cases hok
      cases happend : logAppendConfiguration start.core.log start.core.term configuration with
      | error status =>
        rw [happend] at hok
        cases hok
        exact Or.inl rfl
      | ok result =>
        obtain ⟨log, entry⟩ := result
        rw [happend] at hok
        refine Or.inr ⟨⟨staged, peers, log, entry, hstage, hbuild, happend⟩, ?_, ?_⟩
        · exact Configured.leading ⟨staged, peers, log, entry, hstage, hbuild, happend⟩ hblank
            hleader hpending
        · rw [Configured.core_eq ⟨staged, peers, log, entry, hstage, hbuild, happend⟩]
          exact hok

theorem coreAppendConfiguration_conduct (hblank : Blank start) (hleader : start.core.role = .leader)
    (hpending : start.core.membershipTransition.pending = [])
    (hheld : T.unmoved → AcksHeldBy start.core
      (transitionPeers (reachedTransition (configuredCore start.core configuration))))
    (hok : coreAppendConfiguration start configuration = (.ok, call)) : Conduct T start call := by
  rcases coreAppendConfiguration_leads hblank hleader hpending hok with rfl | ⟨c, hlead, happended⟩
  · exact hblank.unchanged
  · refine afterAppend_conduct hblank hlead (fun _ => ?_) hheld happended
    have hvoter := c.voter hblank.orderly hblank.inv hleader hpending
    rw [replicatesDeposed, hlead.selfId, hvoter]
    rfl

theorem membershipTransitionPropose_settled
    {voters learners : List NodeId} {transitionId : UInt64} {joint : Conf}
    (h : membershipTransitionPropose transition voters learners transitionId = .ok joint) :
    transition.pending = [] := by
  unfold membershipTransitionPropose at h
  split_ifs at h with hrefused
  simp only [Bool.or_eq_true, bne_iff_ne, not_or, Decidable.not_not] at hrefused
  exact List.length_eq_zero_iff.mp hrefused.2

theorem membershipTransitionFinal_settled {final : Conf}
    (h : membershipTransitionFinal transition = .ok final) : transition.pending = [] := by
  unfold membershipTransitionFinal membershipTransitionNeedsFinal at h
  split_ifs at h with hneeds
  simp only [Bool.not_eq_true', Bool.not_eq_false, Bool.and_eq_true, beq_iff_eq] at hneeds
  exact List.length_eq_zero_iff.mp hneeds.2

theorem changeMembershipBody_conduct (hblank : Blank start) {change : MembershipChange}
    (hok : changeMembershipBody change start = (.ok, call)) : Conduct T start call := by
  unfold changeMembershipBody at hok
  split_ifs at hok with hrole hbusy
  · cases hok
  · cases hok
  rw [bne_iff_ne, Decidable.not_not] at hrole
  simp only [Bool.or_eq_true, bne_iff_ne, not_or, Decidable.not_not] at hbusy
  have hcontexts : start.core.pendingReadContexts = [] := by
    have hnone := hbusy.2
    rw [readTotalCount] at hnone
    exact List.length_eq_zero_iff.mp (by omega)
  cases hjoint : membershipTransitionPropose start.core.membershipTransition change.voters
      change.learners change.transitionId with
  | error status =>
    rw [hjoint] at hok
    cases hok
    exact hblank.unchanged
  | ok joint =>
    rw [hjoint] at hok
    refine coreAppendConfiguration_conduct hblank hrole
      (membershipTransitionPropose_settled hjoint) ?_ hok
    intro _ k p hbit
    rw [hblank.orderly.unasked hcontexts, Nat.zero_testBit] at hbit
    cases hbit

end Appends

section Ticks

variable {T : Terms} {start : Call} {tick : Tick}

theorem tickFinal_conduct (hblank : Blank start) (hleader : start.core.role = .leader)
    (hheld : T.unmoved → ∀ configuration,
      membershipTransitionFinal start.core.membershipTransition = .ok configuration →
      AcksHeldBy start.core
      (transitionPeers (reachedTransition (configuredCore start.core configuration))))
    (hok : tickFinal start = (.ok, call)) : Conduct T start call := by
  unfold tickFinal at hok
  cases hfinal : membershipTransitionFinal start.core.membershipTransition with rw [hfinal] at hok
  | error status =>
    cases hok
    exact hblank.unchanged
  | ok configuration =>
    exact coreAppendConfiguration_conduct hblank hleader (membershipTransitionFinal_settled hfinal)
      (fun hunmoved => hheld hunmoved configuration hfinal) hok

theorem agedWindow_length (window : AppendWindow) (ticks : ℕ) :
    (agedWindow window ticks).items.length = window.items.length :=
  List.length_map _

theorem tickQuorum_orderly (h : Orderly core) (ticks : ℕ) : Orderly (tickQuorum core ticks) := by
  unfold tickQuorum
  split_ifs
  · exact { h with }
  · exact { h with }

theorem tickTransfer_orderly (h : Orderly core) (ticks : ℕ) : Orderly (tickTransfer core ticks) := by
  unfold tickTransfer
  split_ifs
  · exact h
  · exact { h with }
  · exact { h with }

theorem tickWindows_orderly (h : Orderly core) (ticks : ℕ) : Orderly (tickWindows core ticks) := by
  refine { h with window := ?_ }
  intro peer
  unfold tickWindows
  dsimp only
  split_ifs
  · exact Nat.zero_le _
  · rw [agedWindow_length]
    exact h.window peer
  · exact h.window peer

theorem orderly_aged (h : Orderly core) (ticks : ℕ) : Orderly (agedCore core ticks) :=
  tickWindows_orderly (tickTransfer_orderly (tickQuorum_orderly h ticks) ticks) ticks

theorem agedCore_reads (core : Core) (ticks : ℕ) : readView (agedCore core ticks) = readView core := by
  have hquorum : readView (tickQuorum core ticks) = readView core := by
    unfold tickQuorum
    split_ifs <;> rfl
  refine Eq.trans ?_ hquorum
  unfold agedCore tickWindows tickTransfer
  split_ifs <;> rfl

theorem blank_aged (h : Blank start) (ticks : ℕ) :
    Conduct T start ⟨agedCore start.core ticks, start.ready⟩ := by
  have hview := (agedCore_inert start.core ticks).view
  have hreads := agedCore_reads start.core ticks
  have horderly := orderly_aged h.orderly ticks
  exact h.silent horderly (.kept hreads (congrArg CoreView.role hview)
    (congrArg CoreView.term hview) (fun _ => acksHeld_refl (congrArg CoreView.peers hview)) h.states)

theorem tickLeader_conduct (hblank : Blank start) (hleader : start.core.role = .leader) {ticks : ℕ}
    (hok : tickLeader start ticks = (.ok, call)) : Conduct T start call := by
  cases hlost : (tickReached start.core.checkQuorumElapsedTicks ticks
      start.core.electionTimeoutTicks && !coreHasQuorum start.core start.core.recentActive) with
  | true =>
    rw [tickLeader, if_pos hlost] at hok
    cases hok
    exact hblank.follow start.core.term
  | false =>
    rw [tickLeader_eq start ticks hlost] at hok
    have haged : Conduct T start ⟨agedCore start.core ticks, start.ready⟩ := blank_aged hblank ticks
    have hview := (agedCore_inert start.core ticks).view
    generalize agedCore start.core ticks = aged at haged hview hok
    unfold tickHeartbeat at hok
    split_ifs at hok
    · cases hok
    · cases hok
      have hreset : Conduct T start
          ⟨{ aged with heartbeatElapsedTicks := 0 }, start.ready⟩ :=
        haged.touch { haged.orderly with } rfl rfl
      apply hreset.replicate hblank.requests _ (broadcastReplication_sending _)
      · exact fun _ => (congrArg CoreView.role hview).trans hleader
      · rw [show aged.peers = start.core.peers from congrArg CoreView.peers hview]
        exact hblank.peers.1
    · cases hok
      exact haged.touch { haged.orderly with } rfl rfl

theorem tickElection_conduct (hblank : Blank start) (hrole : start.core.role ≠ .leader)
    (hok : tickElection start tick = (.ok, call)) : Conduct T start call := by
  have hquiet : ∀ core', Orderly core' → readView core' = readView start.core →
      core'.role = start.core.role → core'.term = start.core.term →
      core'.peers = start.core.peers → Conduct T start ⟨core', start.ready⟩ :=
    fun core' horderly hreads hsame hterm hpeers => hblank.silent horderly
      (.kept hreads hsame hterm (fun _ => acksHeld_refl hpeers) hblank.states)
  unfold tickElection at hok
  split_ifs at hok with hdue hvoter hterm hroom
  · cases hok
    exact hquiet _ { hblank.orderly with } rfl rfl rfl rfl
  · cases hok
  · cases hok
  · cases hok
    simp only [lacksCapacity, decide_eq_true_eq, not_lt] at hroom
    apply Campaigning.preVote _ hblank
    constructor
    case orderly => exact { hblank.orderly with }
    case peers => rfl
    case voter => simpa using hvoter
    case unread => exact hrole
    case room => exact (unpausedVoters_le start.core).trans hroom
  · cases hok
    exact hquiet _ { hblank.orderly with } rfl rfl rfl rfl

theorem tickBody_conduct (hblank : Blank start)
    (hheld : T.unmoved → start.core.role = .leader → ∀ configuration,
      membershipTransitionFinal start.core.membershipTransition = .ok configuration →
      AcksHeldBy start.core
      (transitionPeers (reachedTransition (configuredCore start.core configuration))))
    (hok : tickBody tick start = (.ok, call)) : Conduct T start call := by
  unfold tickBody at hok
  split_ifs at hok with hvalid hleader hneeds
  · cases hok
  · rw [beq_iff_eq] at hleader
    exact tickFinal_conduct hblank hleader (fun hunmoved => hheld hunmoved hleader) hok
  · rw [beq_iff_eq] at hleader
    exact tickLeader_conduct hblank hleader hok
  · rw [beq_iff_eq] at hleader
    exact tickElection_conduct hblank hleader hok

end Ticks

section Operations

variable {T : Terms} {start : Call} {peer : ℕ} {snapshotIndex : ℕ} {nodeId : NodeId}

theorem transferBody_conduct (hblank : Blank start) {transferee : NodeId}
    (hvoter : voterIndex start.core transferee = some peer)
    (hremote : transferee ≠ start.core.selfId)
    (hok : transferBody transferee peer start = (.ok, call)) : Conduct T start call := by
  unfold transferBody at hok
  split_ifs at hok with hrole hbusy hroom
  · cases hok
  · cases hok
  · cases hok
  cases hok
  rw [bne_iff_ne, Decidable.not_not] at hrole
  simp only [lacksCapacity, decide_eq_true_eq, not_lt] at hroom
  have hknown := (voterIndex_sound hvoter).2
  have hlt := (List.getElem?_eq_some_iff.mp hknown).1
  let targeted : Call := ⟨{ start.core with
    leadershipTransferTarget := transferee, leadershipTransferElapsedTicks := 0 }, start.ready⟩
  have htargeted : Conduct T start targeted :=
    hblank.unchanged.touch { hblank.orderly with } rfl rfl
  unfold startTransfer
  split_ifs with hcaught
  · have hlast := le_antisymm (hblank.orderly.matched hrole peer hlt) hcaught
    have hsent : Conduct T start (RaftCoreEmit.emit targeted .timeoutNow transferee false).1 :=
      htargeted.emit hblank.messages (fun _ _ => ⟨hremote, Or.inl (List.mem_of_getElem? hknown),
        fun _ => hrole, fun _ => ⟨peer, hvoter, hlast⟩⟩) fun _ _ => hroom
    exact hsent.touch { hsent.orderly with } rfl rfl
  · have hpeer : peerId start.core peer = transferee := by
      rw [peerId, hknown, Option.getD_some]
    have hsent : Conduct T start (emitReplication targeted peer false).1 :=
      htargeted.replicateOne hblank.requests (.step false .refl rfl)
        (fun _ => ⟨hlt, hpeer.symm ▸ hremote⟩) fun _ => hrole
    exact hsent.touch { hsent.orderly with } rfl rfl

theorem restartPeer_kept (core : Core) (peer snapshotIndex : ℕ) :
    readView (restartPeer core peer snapshotIndex) = readView core ∧
      (restartPeer core peer snapshotIndex).role = core.role ∧
      (restartPeer core peer snapshotIndex).term = core.term ∧
      (restartPeer core peer snapshotIndex).peers = core.peers ∧
      (restartPeer core peer snapshotIndex).selfId = core.selfId := by
  unfold restartPeer setMatch setNext setWindow
  split_ifs <;> exact ⟨rfl, rfl, rfl, rfl, rfl⟩

theorem remotePeer_of_index (hindex : peerIndex core nodeId = some peer)
    (hremote : nodeId ≠ core.selfId) : RemotePeer core peer := by
  have hget := (ascendingIndex_sound hindex).2
  refine ⟨(List.getElem?_eq_some_iff.mp hget).1, ?_⟩
  rw [peerId, hget]
  exact hremote

theorem snapshotCompletedBody_conduct (hblank : Blank start)
    (hindex : peerIndex start.core nodeId = some peer) (hremote : nodeId ≠ start.core.selfId)
    (hbase : snapshotIndex ≤ start.core.log.baseIndex)
    (hok : snapshotCompletedBody peer snapshotIndex start = (.ok, call)) :
    Conduct T start call := by
  unfold snapshotCompletedBody at hok
  by_cases hrole : (start.core.role != .leader) = true
  · rw [if_pos hrole] at hok
    cases hok
  rw [if_neg hrole] at hok
  rw [bne_iff_ne, Decidable.not_not] at hrole
  by_cases hfull : lacksCapacity start (if peerIndexPaused start.core peer then 0 else 1) = true
  · rw [if_pos hfull] at hok
    cases hok
  rw [if_neg hfull] at hok
  cases hok
  have horderly : Orderly (restartPeer start.core peer snapshotIndex) :=
    hblank.orderly.restart (hbase.trans (Nat.le_add_right _ _))
  have hpeer := remotePeer_of_index hindex hremote
  obtain ⟨hreads, hsame, hterm, hpeers, hself⟩ := restartPeer_kept start.core peer snapshotIndex
  generalize restartPeer start.core peer snapshotIndex = restarted at *
  have hquiet : Conduct T start ⟨restarted, start.ready⟩ := hblank.silent horderly
    (.kept hreads hsame hterm (fun _ => acksHeld_refl hpeers) hblank.states)
  refine hquiet.replicateOne hblank.requests (fillPeerReplicationWindow_sending _ peer) ?_ ?_
  · intro _
    change peer < restarted.peers.length ∧ peerId restarted peer ≠ restarted.selfId
    rw [peerId, hpeers, hself]
    exact hpeer
  · exact fun _ => hsame.trans hrole

end Operations

variable {T : Terms} {start : Call}

theorem readEmitActive_conduct (hreading : T.reading) (h : Conduct T start call)
    (hlimit : call.core.pendingReadContexts.length ≤ start.core.maxPendingReads) :
    Conduct T start (readEmitActive call) := by
  have hreads := h.orderly.reads
  rw [readTotalCount] at hreads
  refine { h with
    orderly := { h.orderly with
      reads := ?_
      reading := fun hnot => ⟨rfl, (h.orderly.reading hnot).2⟩
      unasked := fun _ => rfl }
    posted := fun hsettled => ⟨fun m hm => { (h.posted hsettled).messages m hm with },
      fun r hr => { (h.posted hsettled).requests r hr with }⟩
    states := (List.length_map _).trans_le hlimit
    reads := .busy hreading }
  change 0 + call.core.waitingReadContexts.length ≤ call.core.maxPendingReads
  omega

theorem readStartActiveBarrier_conduct (hreading : T.reading) (h : Conduct T start call)
    (hmessages : call.ready.messages = []) (hascending : idsAscending call.core.peers = true)
    (hleader : call.core.role = .leader) (hsome : call.core.pendingReadContexts ≠ [])
    (hlimit : call.core.pendingReadContexts.length ≤ start.core.maxPendingReads)
    (hroom : unpausedRemoteVoterCount call.core ≤ call.ready.messageCapacity) :
    Conduct T start (readStartActiveBarrier call) := by
  have hbarrier : Conduct T start { call with core := readBarrier call.core } :=
    { h with
      orderly := { h.orderly with unasked := fun hnone => absurd hnone hsome }
      posted := fun hsettled =>
        ⟨fun m hm => { (h.posted hsettled).messages m hm with },
          fun r hr => { (h.posted hsettled).requests r hr with }⟩
      reads := .busy hreading }
  unfold readStartActiveBarrier
  dsimp only
  split_ifs
  · exact readEmitActive_conduct hreading hbarrier hlimit
  · exact hbarrier.cast hmessages hascending (fun _ => ⟨rfl, rfl⟩) (fun _ => hleader) (by decide)
      hroom

theorem readStartActiveBarrier_kept (call : Call) :
    (readStartActiveBarrier call).core.peers = call.core.peers ∧
      (readStartActiveBarrier call).ready.snapshotRequests = call.ready.snapshotRequests := by
  unfold readStartActiveBarrier
  dsimp only
  split_ifs
  · exact ⟨rfl, rfl⟩
  · rw [broadcastReadIndex_eq, voterCast_eq]
    exact ⟨rfl, List.append_nil _⟩

theorem pollBody_conduct (hblank : Blank start) (hreading : T.reading)
    (hok : pollBody start = (.ok, call)) : Conduct T start call := by
  have hfill : ∀ next, Conduct T start next → next.ready.snapshotRequests = [] →
      next.core.peers = start.core.peers → Conduct T start (fillReplicationWindows next) := by
    intro next hnext hnone hpeers
    by_cases hleader : next.core.role = .leader
    · exact hnext.replicate hnone (hpeers ▸ hblank.peers.1) (fillReplicationWindows_sending next)
        fun _ => hleader
    · have hsame : fillReplicationWindows next = next := if_pos (bne_iff_ne.mpr hleader)
      rw [hsame]
      exact hnext
  unfold pollBody at hok
  split_ifs at hok with hdue hroom
  · cases hok
  · cases hok
    simp only [Bool.and_eq_true, beq_iff_eq, bne_iff_ne] at hdue
    obtain ⟨⟨hleader, hnone⟩, hsome⟩ := hdue
    simp only [lacksCapacity, decide_eq_true_eq, not_lt] at hroom
    have hempty : start.core.pendingReadContexts = [] := List.length_eq_zero_iff.mp hnone
    have hmoved := hblank.silent (hblank.orderly.moveWaiting hempty) (.busy hreading)
    have hlimit := hblank.orderly.reads
    rw [readTotalCount] at hlimit
    have hstarted := readStartActiveBarrier_conduct hreading hmoved hblank.messages hblank.peers.2
      hleader (fun hzero => hsome (congrArg List.length hzero))
      (show start.core.waitingReadContexts.length ≤ start.core.maxPendingReads by omega) hroom
    obtain ⟨hpeers, hrequests⟩ :=
      readStartActiveBarrier_kept ⟨readMoveWaitingToActive start.core, start.ready⟩
    exact hfill _ hstarted (hrequests.trans hblank.requests) hpeers
  · cases hok
    exact hfill start hblank.unchanged hblank.requests rfl

theorem readIndexBody_conduct (hblank : Blank start) (hreading : T.reading) {contextId : UInt64}
    (hok : readIndexBody contextId start = (.ok, call)) : Conduct T start call := by
  -- a read that waits for the next barrier
  have hqueued : readTotalCount start.core < start.core.maxPendingReads →
      start.core.role = .leader → Orderly { start.core with
        waitingReadContexts := start.core.waitingReadContexts ++ [contextId] } := by
    intro hfree hlead
    rw [readTotalCount] at hfree
    refine { hblank.orderly with reads := ?_, reading := fun hnot => absurd hlead hnot }
    change start.core.pendingReadContexts.length +
      (start.core.waitingReadContexts ++ [contextId]).length ≤ start.core.maxPendingReads
    rw [List.length_append, List.length_singleton]
    omega
  unfold readIndexBody at hok
  split_ifs at hok with hrole hbusy hknown hfull hactive hroom
  · cases hok
  · cases hok
  · cases hok
  · cases hok
  · -- the read joins the active barrier, or waits for the next one
    cases hok
    rw [bne_iff_ne] at hactive
    have hlead : ¬ start.core.role ≠ .leader := by simpa using hrole
    rw [readTotalCount] at hfull
    refine hblank.silent ?_ (.busy hreading)
    unfold joinRead
    split_ifs
    · refine { hblank.orderly with
        reads := ?_, reading := fun hnot => absurd hnot hlead, unasked := ?_ }
      · change (start.core.pendingReadContexts ++ [contextId]).length +
          start.core.waitingReadContexts.length ≤ start.core.maxPendingReads
        rw [List.length_append, List.length_singleton]
        omega
      · exact fun hnone => absurd hnone (by simp)
    · exact hqueued (Nat.not_le.mp hfull) (not_not.mp hlead)
  · cases hok
  · cases hok
    rw [bne_iff_ne, Decidable.not_not] at hrole hactive
    simp only [lacksCapacity, decide_eq_true_eq, not_lt] at hroom
    have hempty : start.core.pendingReadContexts = [] := List.length_eq_zero_iff.mp hactive
    have hqueued := hqueued (Nat.not_le.mp hfull) hrole
    rw [readTotalCount] at hfull
    have hmoved : Conduct T start ⟨readMoveWaitingToActive { start.core with
        waitingReadContexts := start.core.waitingReadContexts ++ [contextId] }, start.ready⟩ :=
      hblank.silent (hqueued.moveWaiting hempty) (.busy hreading)
    refine readStartActiveBarrier_conduct hreading hmoved hblank.messages hblank.peers.2 hrole ?_ ?_
      hroom
    · exact List.append_ne_nil_of_right_ne_nil _ (List.cons_ne_nil _ _)
    · change (start.core.waitingReadContexts ++ [contextId]).length ≤ start.core.maxPendingReads
      rw [List.length_append, List.length_singleton]
      omega

theorem completeBarrier_conduct (hreading : T.reading) (h : Conduct T start call)
    (hmessages : call.ready.messages = []) (hascending : idsAscending call.core.peers = true)
    (hleader : call.core.role = .leader)
    (hlimit : readTotalCount call.core ≤ start.core.maxPendingReads) :
    Conduct T start (completeBarrier call) := by
  rw [readTotalCount] at hlimit
  have hemitted := readEmitActive_conduct hreading h (by omega)
  unfold completeBarrier
  dsimp only
  split_ifs with hnext
  · simp only [Bool.and_eq_true, bne_iff_ne, decide_eq_true_eq] at hnext
    obtain ⟨hsome, hroom⟩ := hnext
    have hmoved : Conduct T start
        { readEmitActive call with core := readMoveWaitingToActive (readEmitActive call).core } :=
      { hemitted with
        orderly := hemitted.orderly.moveWaiting rfl
        posted := fun hsettled =>
          ⟨fun m hm => { (hemitted.posted hsettled).messages m hm with },
            fun r hr => { (hemitted.posted hsettled).requests r hr with }⟩
        reads := .busy hreading }
    refine readStartActiveBarrier_conduct hreading hmoved hmessages hascending hleader ?_ ?_ ?_
    · exact fun hzero => hsome (congrArg List.length hzero)
    · change call.core.waitingReadContexts.length ≤ start.core.maxPendingReads
      omega
    · exact hroom.trans (Nat.sub_le _ _)
  · exact hemitted

theorem stepReadIndexResponse_conduct (hblank : Blank start) (hreading : T.reading) (m : Message)
    (voter : Option ℕ) : Conduct T start (stepReadIndexResponse start m voter) := by
  unfold stepReadIndexResponse
  dsimp only
  split_ifs with hterm hignored hquorum
  · exact hblank.follow m.term
  · exact hblank.unchanged
  all_goals
    simp only [Bool.or_eq_true, not_or, bne_iff_ne, Decidable.not_not, beq_iff_eq] at hignored
    obtain ⟨⟨⟨⟨⟨hrole, _⟩, _⟩, _⟩, hsome⟩, _⟩ := hignored
    have hacked : Conduct T start ⟨{ start.core with
        pendingReadAcks := start.core.pendingReadAcks ||| indexBit voter }, start.ready⟩ :=
      hblank.silent { hblank.orderly with
        unasked := fun hnone => absurd (congrArg List.length hnone) hsome } (.busy hreading)
  · exact completeBarrier_conduct hreading hacked hblank.messages hblank.peers.2 hrole
      hblank.orderly.reads
  · exact hacked

end RaftLeaderConduct
