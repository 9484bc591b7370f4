import TurboRaft.RaftCallRefinement

/-! # Replication calls against chronicles

Requests and responses of replication, and the appends of a leader: the calls that move
logs and commit indices. -/
namespace RaftReplicationCalls

open RaftTypes RaftConfiguration RaftMembershipTransition RaftLog RaftCoreState RaftCoreEmit
open RaftCoreStep RaftCore RaftCluster RaftLogLemmas RaftQuorum RaftTransitionLemmas
open RaftConfigurationLemmas Replication RaftEmission RaftCallRefinement RaftCoreProgress
open RaftFollowerProgress RaftRefinement RaftLogReconcile RaftOutbox

variable {M : Mode} {n : NodeId} {g g' : Ghost} {disk : Disk} {core : Core} {call call' : Call}

section Requests

variable {m : Message} {r : ReconcileResult}

theorem msgOk_response {answer : Message} (htype : answer.type = responseType m)
    (h : answer.granted = true → answer.matchIndex ≤ g.ack answer.fromId answer.term) :
    MsgOk M g answer := by
  unfold responseType at htype
  unfold MsgOk
  split_ifs at htype <;> rw [htype] <;> exact h

theorem reportLog_messages (ready : Ready) (log : Log) (r : ReconcileResult) :
    (reportLog ready log r).messages = ready.messages ∧
      (reportLog ready log r).snapshotRequests = ready.snapshotRequests := by
  unfold reportLog
  split_ifs <;> exact ⟨rfl, rfl⟩

theorem reportCommit_messages (ready : Ready) (old new : ℕ) :
    (reportCommit ready old new).messages = ready.messages ∧
      (reportCommit ready old new).snapshotRequests = ready.snapshotRequests := by
  unfold reportCommit
  split_ifs <;> exact ⟨rfl, rfl⟩

def reportedCall (call : Call) (core : Core) (r : ReconcileResult) : Call where
  core := core
  ready := reportCommit (reportLog call.ready core.log r) call.core.commitIndex core.commitIndex

variable (hs : Started M g n disk call)

include hs

theorem started_reported (hbase : core.log.baseIndex = call.core.log.baseIndex ∧
      core.log.baseTerm = call.core.log.baseTerm)
    (hkept : r.changed = false → core.log = call.core.log)
    (hchanged : r.changed = true → persisted call.core.log.entries call.core.log.baseIndex core.log r =
      core.log.entries) :
    Stored disk (reportedCall call core r) := by
  unfold reportedCall
  constructor
  case entries =>
    have hreport : ∀ ready : Ready, persistEntries disk
        (reportCommit ready call.core.commitIndex core.commitIndex) = persistEntries disk ready := by
      intro ready
      unfold reportCommit
      split_ifs <;> rfl
    rw [hreport]
    unfold reportLog
    split_ifs with hr
    · rw [← hchanged hr, ← hs.durable.base, ← hs.durable.entries]
      rfl
    · rw [hkept (by simpa using hr), ← hs.durable.entries, hs.quiet]
      rfl
  case commit =>
    have hunmoved : (reportLog call.ready core.log r).commitChanged = false := by
      unfold reportLog
      rw [hs.quiet]
      split_ifs <;> rfl
    unfold reportCommit
    split_ifs with hmoved hflag hflag
    · rfl
    · exact absurd rfl hflag
    · rw [hunmoved] at hflag
      cases hflag
    · rw [hs.durable.commit]
      simpa using Eq.symm (by simpa using hmoved)
  case base => exact hs.durable.base.trans hbase.1.symm
  case baseTerm => exact hs.durable.baseTerm.trans hbase.2.symm

theorem started_answered (hadv : Advance M n g g') (hcore : CoreOk M g' n (coreView core))
    (hstored : Stored disk (reportedCall call core r))
    (hraised : Raised g' call.core core)
    (hack : r.matched = true → m.previousLogIndex + m.entries.length ≤ g'.ack n core.term) :
    Outcome M g n disk call.core (.ok, answerRequest (reportedCall call core r) m r) := by
  have hsent : Sent M g' n (reportedCall call core r)
      (answerRequest (reportedCall call core r) m r) := by
    apply Sent.emitWith
    apply msgOk_response rfl
    intro hgranted
    have hmatched : r.matched = true := hgranted
    change (if r.matched then m.previousLogIndex + m.entries.length else 0) ≤
      g'.ack core.selfId core.term
    rw [if_pos hmatched, hcore.self_id]
    exact hack hmatched
  have hok : CallOk M g' n disk (reportedCall call core r) := by
    unfold reportedCall
    refine ⟨hcore, hstored, ?_, ?_⟩
    · rw [(reportCommit_messages _ _ _).1, (reportLog_messages _ _ _).1, hs.quiet]
      exact fun m hm => absurd hm List.not_mem_nil
    · rw [(reportCommit_messages _ _ _).2, (reportLog_messages _ _ _).2, hs.quiet]
      exact fun r hr => absurd hr List.not_mem_nil
  refine .done g' hadv (hok.sent hsent) ?_
  intro hrole hterm hlt
  have hview := hsent.view
  rw [show (answerRequest _ m r).core.term = core.term from congrArg CoreView.term hview] at hterm
  rw [show (answerRequest _ m r).core.commitIndex = core.commitIndex from
    congrArg CoreView.commitIndex hview] at hlt ⊢
  exact hraised hrole hterm hlt

theorem started_not_leading (hreq : RequestOk M g m)
    (hfrom : m.fromId ≠ n) (hterm : m.term = call.core.term) : call.core.role ≠ .leader := by
  intro hrole
  have hleads : g.leader call.core.term = some n := (hs.core.leader hrole).leads
  have hother := hreq.leader
  rw [hterm, hleads] at hother
  exact hfrom (Option.some.inj hother).symm

/-- A matching request: the log is taken over, the peers follow the new transition and the
commit index moves as far as the request covers the log. -/
theorem started_adopt (hreq : RequestOk M g m)
    (hfrom : m.fromId ≠ n) (hterm : call.core.term ≤ m.term)
    (hcovered : M.tracked = true → commitCovered call.core m = true) {log : Log}
    (hok : logReconcile call.core.log m.previousLogIndex m.previousLogTerm m.entries
      call.core.commitIndex = .ok (log, r)) (hmatched : r.matched = true)
    {transition : MembershipTransition}
    (htransition : coreRebuildPendingTransition call.core m.previousLogIndex m.entries =
      .ok transition) :
    ∃ g' core', Advance M n g g' ∧
      adoptTransition (acceptLeader call.core m log) m transition = (.ok, core') ∧
      CoreOk M g' n (coreView core') ∧ core'.log = log ∧ core'.term = m.term ∧
      m.previousLogIndex + m.entries.length ≤ g'.ack n m.term ∧
      log.baseIndex = call.core.log.baseIndex ∧ log.baseTerm = call.core.log.baseTerm ∧
      (r.changed = false → log = call.core.log) ∧
      (r.changed = true →
        persisted call.core.log.entries call.core.log.baseIndex log r = log.entries) := by
  obtain ⟨taken, htaken⟩ := coreOk_reconcile_request hs.ghost hs.core hreq hok hmatched
  obtain ⟨g₁, hadv, hbase, hlog, hhistory, _, hack, _, hpending⟩ :=
    coreOk_accept hs.ghost hs.core hreq hfrom hterm htaken htransition
  obtain ⟨peers, hpeers⟩ := hbase.built
  have hrefreshed := coreBase_refresh hadv.ok hbase (fun hrole => Role.noConfusion hrole) hpeers
  have hview := coreRefreshPeers_view
    { acceptLeader call.core m log with membershipTransition := transition } peers
  generalize hmid : coreRefreshPeers
    { acceptLeader call.core m log with membershipTransition := transition } peers = mid
    at hrefreshed hview
  have hmidRole : mid.role = .follower := congrArg CoreView.role hview
  have hmidLog : mid.log = log := congrArg CoreView.log hview
  have hmidCommit : mid.commitIndex = call.core.commitIndex := congrArg CoreView.commitIndex hview
  have hmidTransition : mid.membershipTransition = transition := congrArg CoreView.transition hview
  have hmidTerm : mid.term = m.term := by
    have hfollowed : mid.term = if call.core.term < m.term then m.term else call.core.term :=
      congrArg CoreView.term hview
    rw [hfollowed]
    split_ifs <;> omega
  have hsource := (hs.ghost.formed m.term).shorten
    (List.take_prefix (m.previousLogIndex + m.entries.length) _)
  have hbound := htaken.slice.bound
  have hlength : ((g.history m.term).take (m.previousLogIndex + m.entries.length)).length =
      m.previousLogIndex + m.entries.length := List.length_take_of_le hbound
  obtain ⟨g₂, core', hcommit, hfollower, hcore', hkept, hbook⟩ :=
    coreOk_followerCommit hadv.ok hrefreshed hmidRole (m := m) hsource
      (by rw [hlog]; exact htaken.replaces.has)
      (by rw [hmidTransition, hmidCommit]; exact hpending)
      (by
        intro htracked hbehind
        rw [hlog, hlength]
        have hcov := hcovered htracked
        simp only [commitCovered, hok, hmatched, Bool.not_true, Bool.false_or, Bool.or_eq_true,
          decide_eq_true_eq] at hcov
        rcases hcov with (hstale | hold) | hchanged | hcov
        · omega
        · omega
        · have := (htaken.changed hchanged).1
          omega
        · cases hr : r.changed with
          | true =>
            have := (htaken.changed hr).1
            omega
          | false =>
            rw [(htaken.unchanged hr).2, ← hs.core.represents.lastIndex]
            exact hcov)
      (by
        intro htracked
        have hcert := hadv.ext.book.certified (hreq.commit htracked).2
        have hnow : g₁.term n = m.term := hrefreshed.term_now.trans hmidTerm
        rw [hnow]
        apply certifiedBy_shorten hcert
        rw [List.take_take]
        exact List.take_prefix_take_left (Nat.min_le_left _ _))
  refine ⟨g₂, core', hadv.trans hcommit, ?_, hcore', ?_, ?_, ?_, htaken.base.1, htaken.base.2,
    fun hr => (htaken.unchanged hr).1, fun hr => (htaken.changed hr).2⟩
  · unfold adoptTransition
    have hbuild : coreBuildPeerSet transition = .ok peers := hpeers
    rw [hbuild]
    dsimp only
    rw [hmid]
    exact hfollower
  · exact hkept.log.trans hmidLog
  · exact hkept.term.trans hmidTerm
  · exact hack.trans (hcommit.ext.book.ack n m.term)

theorem stepHeartbeatRequest_outcome (hreq : RequestOk M g m)
    (hfrom : m.fromId ≠ n) (hcovered : M.tracked = true → commitCovered call.core m = true) :
    Outcome M g n disk call.core (stepHeartbeatRequest call m) := by
  unfold stepHeartbeatRequest
  split_ifs with hstale
  · apply hs.same
    apply Sent.emitWith
    apply msgOk_response rfl
    exact fun hfalse => Bool.noConfusion hfalse
  have hterm : call.core.term ≤ m.term := by omega
  cases htransition : requestTransition call.core m with
  | error status => exact hs.unchanged status
  | ok transition =>
    cases hok : logReconcile call.core.log m.previousLogIndex m.previousLogTerm m.entries
        call.core.commitIndex with
    | error status => exact hs.unchanged status
    | ok result =>
      obtain ⟨log, r⟩ := result
      dsimp only
      obtain ⟨hmatches, hmissed⟩ := logReconcile_matches hok
      cases hmatched : r.matched with
      | true =>
        have hrebuilt : coreRebuildPendingTransition call.core m.previousLogIndex m.entries =
            .ok transition := by
          unfold requestTransition at htransition
          rwa [hmatches, hmatched, if_pos rfl] at htransition
        obtain ⟨g', core', hadv, hadopt, hcore, hlog, hnow, hack, hbase, hbaseTerm, hkept,
          hchanged⟩ := started_adopt hs hreq hfrom hterm hcovered hok hmatched hrebuilt
        rw [if_pos rfl, hadopt]
        apply started_answered hs hadv hcore
        · subst hlog
          exact started_reported hs ⟨hbase, hbaseTerm⟩ hkept hchanged
        · intro hrole hsame _
          rw [hnow] at hsame
          exact absurd hrole (started_not_leading hs hreq hfrom hsame)
        · intro _
          rw [hnow]
          exact hack
      | false =>
        obtain ⟨hlog, hchanged⟩ := hmissed hmatched
        obtain ⟨hadv, hcore⟩ := hs.core.follow hs.ghost hterm
        subst hlog
        have haccepted : CoreOk M (g.observe n m.term) n
            (coreView (acceptLeader call.core m call.core.log)) := hcore
        apply started_answered hs hadv haccepted
        · exact started_reported hs ⟨rfl, rfl⟩ (fun _ => rfl) fun hr =>
            Bool.noConfusion (hchanged.symm.trans hr)
        · exact fun _ _ hlt => absurd hlt (Nat.lt_irrefl _)
        · intro hr
          rw [hmatched] at hr
          cases hr

end Requests

theorem coreRefreshPeers_self {peers : List NodeId} (hrole : core.role = .leader)
    (hascending : idsAscending peers = true) {peer : ℕ}
    (hself : peerId (coreRefreshPeers core peers) peer = core.selfId) (hnamed : core.selfId ≠ 0) :
    core.peers = peers ∨
      (coreRefreshPeers core peers).nextIndex peer = logLastIndex core.log + 1 := by
  by_cases hsame : core.peers = peers
  · exact Or.inl hsame
  right
  have hview := congrArg CoreView.peers (coreRefreshPeers_view core peers)
  have hat : peers[peer]? = some core.selfId := by
    unfold peerId at hself
    rw [show (coreRefreshPeers core peers).peers = peers from hview] at hself
    cases hget : peers[peer]? with rw [hget] at hself
    | none =>
      exact absurd hself.symm hnamed
    | some p =>
      exact congrArg some hself
  have hindex : peerIndex (carriedPeers core peers) (carriedPeers core peers).selfId = some peer :=
    ascendingIndex_complete hascending hat
  unfold coreRefreshPeers refreshSelf
  rw [if_neg (by simpa using hsame), if_pos (by simp [hrole]), hindex]
  exact Function.update_self _ _ _

theorem advanceCommit_self {i : ℕ} {core' : Core} (hrole : core.role = .leader)
    (hnamed : core.selfId ≠ 0) (h : advanceCommit core i = (.ok, core')) :
    core'.peers = core.peers ∨ ∀ peer, peerId core' peer = core.selfId →
      core'.nextIndex peer = logLastIndex core.log + 1 := by
  unfold advanceCommit at h
  generalize hmid : ({ core with
      commitIndex := i
      membershipTransition := membershipTransitionApply core.membershipTransition i } : Core) = mid
    at h
  have hpeers : mid.peers = core.peers := by rw [← hmid]
  have hlog : mid.log = core.log := by rw [← hmid]
  have hself : mid.selfId = core.selfId := by rw [← hmid]
  have hlead : mid.role = .leader := by rw [← hmid]; exact hrole
  cases hbuild : coreBuildPeerSet mid.membershipTransition with
  | error status =>
    simp only [coreSyncMembership, hbuild, Prod.mk.injEq] at h
    -- the error is passed on
    have hstatus : status = .ok := h.1
    have hcore : mid = core' := h.2
    exact Or.inl (by rw [← hcore, hpeers])
  | ok peers =>
    have hascending := (peerSetBuild_spec hbuild).2.1
    have hrefreshed : core'.peers = peers ∧
        core'.nextIndex = (coreRefreshPeers mid peers).nextIndex := by
      have hview : (coreRefreshPeers mid peers).peers = peers :=
        congrArg CoreView.peers (coreRefreshPeers_view mid peers)
      simp only [coreSyncMembership, hbuild] at h
      split_ifs at h
      · cases h
        exact ⟨hview, rfl⟩
      · cases h
        exact ⟨hview, rfl⟩
    by_cases hsame : mid.peers = peers
    · exact Or.inl (by rw [hrefreshed.1, ← hsame, hpeers])
    · right
      intro peer hpeer
      have hat : peerId (coreRefreshPeers mid peers) peer = mid.selfId := by
        have hview : (coreRefreshPeers mid peers).peers = peers :=
          congrArg CoreView.peers (coreRefreshPeers_view mid peers)
        unfold peerId at hpeer ⊢
        rw [hview, hself]
        rw [hrefreshed.1] at hpeer
        exact hpeer
      rw [hrefreshed.2, ← hlog]
      exact (coreRefreshPeers_self hlead hascending hat (by rw [hself]; exact hnamed)).resolve_left
        hsame

structure Committed (M : Mode) (g : Ghost) (n : NodeId) (disk : Disk) (call : Call) (g' : Ghost)
    (call' : Call) : Prop where
  advance : Advance M n g g'
  equation : updateCommit call = (.ok, call')
  ok : CallOk M g' n disk call'
  term : call'.core.term = call.core.term
  leads : g'.leader call'.core.term = some n
  raised : Raised g' call.core call'.core
  self : call'.core.peers = call.core.peers ∨ ∀ peer, peerId call'.core peer = call'.core.selfId →
    logLastIndex call'.core.log < call'.core.nextIndex peer

theorem callOk_updateCommit (h : GhostOk M g) (hok : CallOk M g n disk call)
    (hrole : call.core.role = .leader) (hquiet : call.ready.messages = [])
    (hcalm : call.ready.snapshotRequests = []) :
    ∃ g' call', Committed M g n disk call g' call' := by
  have hleads : g.leader call.core.term = some n := (hok.core.leader hrole).leads
  cases hcand : commitCandidate call.core (membershipTransitionCommitLimit
      call.core.membershipTransition (logLastIndex call.core.log)) with
  | none =>
    refine ⟨g, call, .refl h n, ?_, hok, rfl, hleads, ?_, Or.inl rfl⟩
    · unfold RaftCoreStep.updateCommit
      rw [hcand]
    · exact fun _ _ hlt => absurd hlt (Nat.lt_irrefl _)
  | some i =>
    obtain ⟨g', core', hadv, hadvance, hcore, hkept, _, r, hr, hrterm, hrindex⟩ :=
      coreOk_leaderCommit h hok.core hrole hcand
    have hcommit : core'.commitIndex = i := hkept.commitIndex
    have hlog : core'.log = call.core.log := hkept.log
    have hterm : core'.term = call.core.term := hkept.term
    have hselfId : core'.selfId = call.core.selfId := hkept.selfId
    refine ⟨g', { core := core'
                  ready := { call.ready with commitChanged := true, commitIndex := i } },
      hadv, ?_, ?_, hterm, ?_, ?_, ?_⟩
    · unfold RaftCoreStep.updateCommit
      rw [hcand]
      dsimp only
      rw [hadvance]
    · constructor
      case core => exact hcore
      case stored =>
        constructor
        · rw [show core'.log.entries = call.core.log.entries by rw [hlog]]
          exact hok.stored.entries
        · exact hcommit.symm
        · rw [hlog]
          exact hok.stored.base
        · rw [hlog]
          exact hok.stored.baseTerm
      case messages =>
        rw [hquiet]
        exact fun m hm => absurd hm List.not_mem_nil
      case requests =>
        rw [hcalm]
        exact fun r hr => absurd hr List.not_mem_nil
    · rw [hterm]
      exact hadv.ext.book.leader _ _ hleads
    · intro _ _ _
      exact ⟨r, hr, hrterm, hrindex.trans hcommit.symm⟩
    · have hnamed : call.core.selfId ≠ 0 := by
        rw [hok.core.self_id]
        exact hok.core.named
      apply (advanceCommit_self hrole hnamed hadvance).imp id
      intro hnext peer hpeer
      rw [hselfId] at hpeer
      rw [hnext peer hpeer, hlog]
      exact Nat.lt_succ_self _

section Responses

variable {m : Message} {peer : ℕ}

theorem continueReplication_sent (h : GhostOk M g) (hcore : CoreOk M g n (coreView call.core))
    (hleads : g.leader call.core.term = some n)
    (hother : peerId call.core peer = call.core.selfId →
      logLastIndex call.core.log < call.core.nextIndex peer) (lastIndex : ℕ) :
    Sent M g n call (continueReplication call m peer lastIndex) := by
  unfold continueReplication
  split_ifs
  · have hsent : Sent M g n call (emit call .timeoutNow m.fromId false).1 := .emitWith trivial
    exact hsent.trans (.of_view rfl)
  · by_cases hself : peerId call.core peer = call.core.selfId
    · rw [fillPeerReplicationWindow_idle (hother hself)]
      exact .refl M g n call
    · have hspeaks := coreOk_speaks h hcore hleads
      exact .of_emitted (fillPeerReplicationWindow_emitted hspeaks (hspeaks.snapshot peer hself))
  · exact .refl M g n call

theorem markActive_view (core : Core) (nodeId : NodeId) (peer : ℕ) :
    coreView (markActive core nodeId peer) = coreView core := by
  unfold markActive
  split_ifs <;> rfl

theorem acceptReject_view (core : Core) (peer : ℕ) (inflight : Option AppendInflight) :
    coreView (acceptReject core m peer inflight) = coreView core := rfl

theorem started_acceptGrant (hs : Started M g n disk call) (hrole : call.core.role = .leader)
    (hpeer : call.core.peers[peer]? = some m.fromId)
    (hack : m.matchIndex ≤ g.ack m.fromId call.core.term) (hfrom : m.fromId ≠ n)
    (hview : coreView core = coreView call.core) :
    ∃ g' call', Advance M n g g' ∧ acceptGrant { call with core } m peer = (.ok, call') ∧
      CallOk M g' n disk call' ∧ g'.leader call'.core.term = some n ∧
      Raised g' call.core call'.core ∧
      (peerId call'.core peer = call'.core.selfId →
        logLastIndex call'.core.log < call'.core.nextIndex peer) := by
  have hleads : g.leader call.core.term = some n := (hs.core.leader hrole).leads
  have hpeers : core.peers = call.core.peers := congrArg CoreView.peers hview
  have hterm : core.term = call.core.term := congrArg CoreView.term hview
  have hnotself : ∀ c : Core, c.peers = call.core.peers → c.selfId = call.core.selfId →
      peerId c peer ≠ c.selfId := by
    intro c hcpeers hcself hat
    unfold peerId at hat
    rw [hcpeers, hpeer, hcself, hs.core.self_id] at hat
    exact hfrom hat
  unfold RaftCoreStep.acceptGrant
  dsimp only
  generalize hreleased : setWindow core peer
    { appendWindowReleaseThrough (core.appendWindows peer) m.matchIndex with probe := false } =
      released
  have hreleasedView : coreView released = coreView call.core := by
    rw [← hreleased]
    exact hview
  by_cases hmore : released.matchIndex peer < m.matchIndex
  · rw [if_pos hmore]
    generalize hmatched : (if (setMatch released peer m.matchIndex).nextIndex peer < m.matchIndex + 1
      then setNext (setMatch released peer m.matchIndex) peer (m.matchIndex + 1)
      else setMatch released peer m.matchIndex) = matched
    have hmatchedView : coreView matched = coreView (setMatch released peer m.matchIndex) := by
      rw [← hmatched]
      split_ifs <;> rfl
    have hcore : CoreOk M g n (coreView matched) := by
      rw [hmatchedView]
      apply CoreOk.matchPeer
      · rw [hreleasedView]
        exact hs.core
      · exact (congrArg (fun v => v.peers[peer]?) hreleasedView).trans hpeer
      · intro _
        rw [show released.term = call.core.term from congrArg CoreView.term hreleasedView]
        exact Or.inl hack
    have hsame : matched.peers = call.core.peers ∧ matched.selfId = call.core.selfId ∧
        matched.log = call.core.log ∧ matched.commitIndex = call.core.commitIndex ∧
        matched.role = call.core.role ∧ matched.term = call.core.term :=
      ⟨(congrArg CoreView.peers hmatchedView).trans (congrArg CoreView.peers hreleasedView),
        (congrArg CoreView.selfId hmatchedView).trans (congrArg CoreView.selfId hreleasedView),
        (congrArg CoreView.log hmatchedView).trans (congrArg CoreView.log hreleasedView),
        (congrArg CoreView.commitIndex hmatchedView).trans
          (congrArg CoreView.commitIndex hreleasedView),
        (congrArg CoreView.role hmatchedView).trans (congrArg CoreView.role hreleasedView),
        (congrArg CoreView.term hmatchedView).trans (congrArg CoreView.term hreleasedView)⟩
    obtain ⟨hmpeers, hmself, hmlog, hmcommit, hmrole, hmterm⟩ := hsame
    obtain ⟨g', call', hcommitted⟩ := callOk_updateCommit hs.ghost (hs.callOk hcore hmlog hmcommit)
      (hmrole.trans hrole) (by rw [hs.quiet]; rfl) (by rw [hs.quiet]; rfl)
    refine ⟨g', call', hcommitted.advance, hcommitted.equation, hcommitted.ok, hcommitted.leads,
      ?_, ?_⟩
    · intro _ hafter hlt
      have := hcommitted.raised (hmrole.trans hrole)
      rw [show ({ call with core := matched } : Call).core.term = call.core.term from hmterm,
        show ({ call with core := matched } : Call).core.commitIndex = call.core.commitIndex
          from hmcommit] at this
      exact this hafter hlt
    · intro hat
      rcases hcommitted.self with hunchanged | hidle
      · have hkeptSelf : call'.core.selfId = call.core.selfId :=
          hcommitted.ok.core.self_id.trans hs.core.self_id.symm
        exact absurd hat (hnotself _ (hunchanged.trans hmpeers) hkeptSelf)
      · exact hidle peer hat
  · rw [if_neg hmore]
    have hcore : CoreOk M g n (coreView released) := by
      rw [hreleasedView]
      exact hs.core
    refine ⟨g, _, .refl hs.ghost n, rfl,
      hs.callOk hcore (congrArg CoreView.log hreleasedView)
        (congrArg CoreView.commitIndex hreleasedView), ?_, ?_, ?_⟩
    · rw [show released.term = call.core.term from congrArg CoreView.term hreleasedView]
      exact hleads
    · intro _ _ hlt
      have hsame : released.commitIndex = call.core.commitIndex :=
        congrArg CoreView.commitIndex hreleasedView
      exact absurd hlt (by change ¬ _ < released.commitIndex; omega)
    · intro hat
      exact absurd hat (hnotself released (congrArg CoreView.peers hreleasedView)
        (congrArg CoreView.selfId hreleasedView))

theorem stepHeartbeatResponse_outcome (hs : Started M g n disk call)
    (hm : m.granted = true → m.matchIndex ≤ g.ack m.fromId m.term)
    (hpeer : call.core.peers[peer]? = some m.fromId) (hfrom : m.fromId ≠ n) :
    Outcome M g n disk call.core (stepHeartbeatResponse call m peer) := by
  unfold stepHeartbeatResponse
  by_cases hlater : call.core.term < m.term
  · rw [if_pos hlater]
    exact hs.follow hlater.le
  rw [if_neg hlater]
  by_cases hignored : (call.core.role != .leader || m.term != call.core.term ||
      responseIgnored call.core m peer) = true
  · rw [if_pos hignored]
    exact hs.same (.refl M g n call)
  rw [if_neg hignored]
  simp only [Bool.or_eq_true, bne_iff_ne, ne_eq, not_or, not_not] at hignored
  obtain ⟨⟨hrole, hterm⟩, _⟩ := hignored
  have hactive := markActive_view call.core m.fromId peer
  dsimp only
  by_cases hgranted : m.granted = true
  · have hack := hm hgranted
    rw [hterm] at hack
    obtain ⟨g', call', hadv, haccept, hok, hleads, hraised, hother⟩ :=
      started_acceptGrant hs hrole hpeer hack hfrom hactive
    rw [if_pos hgranted, haccept]
    have hsent := continueReplication_sent (m := m) hadv.ok hok.core hleads hother
      (logLastIndex call.core.log)
    refine .done g' hadv (hok.sent hsent) ?_
    intro hlead hsame hlt
    rw [show (continueReplication call' m peer (logLastIndex call.core.log)).core.term =
      call'.core.term from congrArg CoreView.term hsent.view] at hsame
    rw [show (continueReplication call' m peer (logLastIndex call.core.log)).core.commitIndex =
      call'.core.commitIndex from congrArg CoreView.commitIndex hsent.view] at hlt ⊢
    exact hraised hlead hsame hlt
  · rw [if_neg hgranted]
    generalize hreject : acceptReject (markActive call.core m.fromId peer) m peer
      (responseInflight call.core m peer) = rejected
    have hview : coreView rejected = coreView call.core := by
      rw [← hreject, acceptReject_view]
      exact hactive
    have hpeers : rejected.peers = call.core.peers := congrArg CoreView.peers hview
    have hself : rejected.selfId = call.core.selfId := congrArg CoreView.selfId hview
    have hcore : CoreOk M g n (coreView rejected) := by
      rw [hview]
      exact hs.core
    have hsent : Sent M g n call { call with core := rejected } := .of_view hview
    apply hs.same
    apply hsent.trans
    apply continueReplication_sent hs.ghost hcore
    · rw [show rejected.term = call.core.term from congrArg CoreView.term hview]
      exact (hs.core.leader hrole).leads
    · intro hat
      unfold peerId at hat
      rw [hpeers, hpeer, hself, hs.core.self_id] at hat
      exact absurd hat hfrom

end Responses

variable (hs : Started M g n disk call)

include hs

/-- The end of every append: the entries are reported, what they commit is settled and the
peers are told. -/
theorem started_afterAppend (hadv : Advance M n g g')
    (hcore : CoreOk M g' n (coreView core)) (hrole : core.role = .leader) {entries : List Entry}
    (hlog : core.log = { call.core.log with entries := call.core.log.entries ++ entries })
    (hcommit : core.commitIndex = call.core.commitIndex) (hterm : core.term = call.core.term) :
    Outcome M g n disk call.core (afterAppend { call with core } entries) := by
  have hok : CallOk M g' n disk
      { core
        ready := { call.ready with logChanged := true, logEntries := entries } } := by
    constructor
    case core => exact hcore
    case stored =>
      constructor
      · rw [hlog, ← hs.durable.entries, hs.quiet]
        rfl
      · rw [hcommit, ← hs.durable.commit, hs.quiet]
        rfl
      · rw [hlog]
        exact hs.durable.base
      · rw [hlog]
        exact hs.durable.baseTerm
    case messages => rw [hs.quiet]; exact fun m hm => absurd hm List.not_mem_nil
    case requests => rw [hs.quiet]; exact fun r hr => absurd hr List.not_mem_nil
  obtain ⟨g₂, call', hcommitted⟩ := callOk_updateCommit hadv.ok hok hrole (by rw [hs.quiet]; rfl)
    (by rw [hs.quiet]; rfl)
  have hsent : Sent M g₂ n call' (broadcastReplication call') :=
    .of_emitted (broadcastReplication_emitted
      (coreOk_speaks hcommitted.advance.ok hcommitted.ok.core hcommitted.leads))
  unfold RaftCoreStep.afterAppend
  rw [hcommitted.equation]
  refine .done g₂ (hadv.trans hcommitted.advance) (hcommitted.ok.sent hsent) ?_
  intro _ _ hlt
  rw [show (broadcastReplication call').core.commitIndex = call'.core.commitIndex from
    congrArg CoreView.commitIndex hsent.view] at hlt ⊢
  rw [← hterm]
  apply hcommitted.raised hrole hcommitted.term
  change core.commitIndex < _
  omega

theorem proposeBody_outcome (proposals : List Proposal) :
    Outcome M g n disk call.core (proposeBody proposals call) := by
  unfold proposeBody
  split_ifs with hrole
  · exact .refused Status.noConfusion
  · exact .refused Status.noConfusion
  · exact .refused Status.noConfusion
  simp only [bne_iff_ne, ne_eq, not_not] at hrole
  cases hbatch : logAppendLocalBatch call.core.log call.core.term proposals with
  | error status => exact hs.unchanged status
  | ok result =>
    obtain ⟨log, entries⟩ := result
    obtain ⟨g₁, hadv, hcore, hlog, hlast⟩ := coreOk_appendCommands hs.ghost hs.core hrole hbatch
    have hmatched := coreOk_matchSelf hadv.ok hcore
      (voterIndex { call.core with log } call.core.selfId)
      (fun k hk => (voterIndex_sound hk).2) hlast
    have hkept := matchSelf_kept { call.core with log }
      (voterIndex { call.core with log } call.core.selfId) (logLastIndex log)
    refine started_afterAppend hs hadv hmatched ?_ ?_ hkept.commitIndex hkept.term
    · rw [matchSelf_role]
      exact hrole
    · rw [← hlog]
      exact hkept.log

theorem coreAppendConfiguration_outcome
    (hrole : call.core.role = .leader) (hfixed : M.fixed = false) (configuration : Conf) :
    Outcome M g n disk call.core (coreAppendConfiguration call configuration) := by
  unfold coreAppendConfiguration
  cases hstage : membershipTransitionStage call.core.membershipTransition configuration
      (logLastIndex call.core.log + 1) with
  | error status => exact hs.unchanged status
  | ok staged =>
    dsimp only
    cases hbuild : coreBuildPeerSet staged with
    | error status => exact hs.unchanged status
    | ok peers =>
      dsimp only
      split_ifs
      · exact .refused Status.noConfusion
      cases happend : logAppendConfiguration call.core.log call.core.term configuration with
      | error status => exact hs.unchanged status
      | ok result =>
        obtain ⟨log, entry⟩ := result
        obtain ⟨g₁, hadv, hbase, hlog, hlast⟩ :=
          coreOk_appendConfiguration hs.ghost hs.core hrole hfixed hstage happend
        dsimp only
        have hrefreshed := coreBase_refresh hadv.ok hbase
          (by
            rw [hrole]
            exact Role.noConfusion) hbuild
        let grown : Core := { call.core with log, membershipTransition := staged }
        have hkept := coreRefreshPeers_kept grown peers
        have hlead : (coreRefreshPeers grown peers).role = .leader :=
          (congrArg CoreView.role (coreRefreshPeers_view grown peers)).trans hrole
        generalize coreRefreshPeers grown peers = refreshed at hrefreshed hkept hlead
        have hmatched := coreOk_matchSelf hadv.ok hrefreshed
          (peerIndex refreshed refreshed.selfId)
          (fun k hk => (ascendingIndex_sound hk).2) hlast
        have hkept' := hkept.trans (matchSelf_kept refreshed
          (peerIndex refreshed refreshed.selfId) entry.index)
        refine started_afterAppend hs hadv hmatched ?_ ?_ hkept'.commitIndex hkept'.term
        · rw [matchSelf_role]
          exact hlead
        · rw [← hlog]
          exact hkept'.log

theorem changeMembershipBody_outcome (hfixed : M.fixed = false) (change : MembershipChange) :
    Outcome M g n disk call.core (changeMembershipBody change call) := by
  unfold changeMembershipBody
  split_ifs with hrole
  · exact .refused Status.noConfusion
  · exact .refused Status.noConfusion
  simp only [bne_iff_ne, ne_eq, not_not] at hrole
  cases membershipTransitionPropose call.core.membershipTransition change.voters change.learners
      change.transitionId with
  | error status => exact hs.unchanged status
  | ok joint => exact coreAppendConfiguration_outcome hs hrole hfixed joint

end RaftReplicationCalls
