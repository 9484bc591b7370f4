import TurboRaft.RaftReplicationCalls

/-! # The interface calls against chronicles

Ticks, transfers, polls and completed snapshots, the frame around every call, and the
dispatch of messages and operations to their bodies. -/
namespace RaftOperations

open RaftTypes RaftMembershipTransition RaftLog RaftCoreState RaftCoreEmit RaftCore RaftCluster
open RaftQuorum RaftEmission RaftCallRefinement RaftFollowerProgress RaftRefinement
open RaftReplicationCalls RaftOutbox

variable {M : Mode} {n : NodeId} {g g' : Ghost} {disk : Disk} {core : Core} {call call' : Call}

section Ticks

variable {tick : Tick}

theorem tickTransfer_view (core : Core) (ticks : ℕ) :
    coreView (tickTransfer core ticks) = coreView core := by
  unfold tickTransfer
  split_ifs <;> rfl

theorem tickQuorum_view (core : Core) (ticks : ℕ) :
    coreView (tickQuorum core ticks) = coreView core := by
  unfold tickQuorum
  split_ifs <;> rfl

theorem tickWindows_view (core : Core) (ticks : ℕ) :
    coreView (tickWindows core ticks) = coreView core := rfl

theorem tickLeader_outcome (hs : Started M g n disk call) (hrole : call.core.role = .leader)
    (ticks : ℕ) : Outcome M g n disk call.core (tickLeader call ticks) := by
  unfold tickLeader
  split_ifs
  · exact hs.follow le_rfl
  · apply hs.tickHeartbeat hrole
    rw [tickWindows_view, tickTransfer_view, tickQuorum_view]

theorem tickFinal_outcome (hs : Started M g n disk call) (hrole : call.core.role = .leader)
    (hneeds : membershipTransitionNeedsFinal call.core.membershipTransition = true) :
    Outcome M g n disk call.core (tickFinal call) := by
  have hfixed : M.fixed = false := by
    by_contra hfixed
    rw [hs.core.no_final hs.ghost (by simpa using hfixed)] at hneeds
    cases hneeds
  unfold tickFinal
  cases membershipTransitionFinal call.core.membershipTransition with
  | error status => exact hs.unchanged status
  | ok configuration => exact coreAppendConfiguration_outcome hs hrole hfixed configuration

def operationElects (core : Core) : Operation → Bool
  | .tick _ => core.role != .leader && electsItself core
  | _ => false

theorem tickElection_outcome (hs : Started M g n disk call)
    (hready : M.fixed = false → electsItself call.core = true → electionReady call.core = true) :
    Outcome M g n disk call.core (tickElection call tick) := by
  unfold tickElection
  split_ifs
  · exact hs.same (.of_view rfl)
  · exact .refused Status.noConfusion
  · exact .refused Status.noConfusion
  · apply hs.startPreVote
    · rfl
    · exact hready
  · exact hs.same (.of_view rfl)

theorem tickBody_outcome (hs : Started M g n disk call)
    (hready : M.fixed = false → operationElects call.core (.tick tick) = true →
      electionReady call.core = true) :
    Outcome M g n disk call.core (tickBody tick call) := by
  unfold tickBody
  by_cases hvalid : (!timeoutValid call.core tick.nextElectionTimeoutTicks) = true
  · rw [if_pos hvalid]
    exact .refused Status.noConfusion
  rw [if_neg hvalid]
  by_cases hrole : call.core.role = .leader
  · rw [if_pos (by simp [hrole])]
    split_ifs with hneeds
    · exact tickFinal_outcome hs hrole hneeds
    · exact tickLeader_outcome hs hrole _
  · have hnot : ¬ (call.core.role == .leader) = true := by simpa using hrole
    rw [if_neg hnot]
    apply tickElection_outcome hs
    intro hfixed hself
    exact hready hfixed (by simp [operationElects, hrole, hself])

end Ticks

theorem transferBody_outcome (hs : Started M g n disk call) {transferee : NodeId} {peer : ℕ}
    (hpeer : call.core.peers[peer]? = some transferee) (hother : transferee ≠ n) :
    Outcome M g n disk call.core (transferBody transferee peer call) := by
  unfold transferBody
  split_ifs with hrole
  · exact .refused Status.noConfusion
  · exact .refused Status.noConfusion
  · exact .refused Status.noConfusion
  simp only [bne_iff_ne, ne_eq, not_not] at hrole
  apply hs.same
  generalize htarget : ({ call with core :=
    { call.core with
      leadershipTransferTarget := transferee
      leadershipTransferElapsedTicks := 0 } } : Call) = targeted
  have htargeted : Sent M g n call targeted := by
    rw [← htarget]
    exact .of_view rfl
  have hcore : CoreOk M g n (coreView targeted.core) := by
    rw [htargeted.view]
    exact hs.core
  have hleads : g.leader targeted.core.term = some n := by
    rw [show targeted.core.term = call.core.term from congrArg CoreView.term htargeted.view]
    exact (hs.core.leader hrole).leads
  have hnotself : peerId targeted.core peer ≠ targeted.core.selfId := by
    unfold peerId
    rw [show targeted.core.peers = call.core.peers from congrArg CoreView.peers htargeted.view,
      hpeer, hcore.self_id]
    exact hother
  have hsent : Sent M g n targeted
      (if logLastIndex call.core.log ≤ call.core.matchIndex peer then
        emit targeted .timeoutNow transferee false
      else ((emitReplication targeted peer false).1, false)).1 := by
    split_ifs
    · exact .emitWith trivial
    · have hspeaks := coreOk_speaks hs.ghost hcore hleads
      exact .of_emitted (emitReplication_emitted hspeaks (hspeaks.snapshot peer hnotself) false)
  unfold startTransfer
  rw [htarget]
  exact (htargeted.trans hsent).trans (.of_view rfl)

theorem fillReplicationWindows_sent (h : GhostOk M g) (hc : CoreOk M g n (coreView call.core)) :
    Sent M g n call (fillReplicationWindows call) := by
  apply Sent.of_emitted
  apply fillReplicationWindows_emitted
  intro hrole
  exact coreOk_speaks h hc (hc.leader hrole).leads

theorem pollBody_outcome (hs : Started M g n disk call) :
    Outcome M g n disk call.core (pollBody call) := by
  unfold pollBody
  split_ifs
  · exact .refused Status.noConfusion
  · have hmoved : Sent M g n call { call with core := readMoveWaitingToActive call.core } :=
      .of_view rfl
    have hbarrier := hmoved.trans Sent.readStartActiveBarrier
    apply hs.same
    apply hbarrier.trans
    apply fillReplicationWindows_sent hs.ghost
    rw [hbarrier.view]
    exact hs.core
  · exact hs.same (fillReplicationWindows_sent hs.ghost hs.core)

theorem restartPeer_view (core : Core) (peer snapshotIndex : ℕ) :
    coreView (restartPeer core peer snapshotIndex) =
      if core.matchIndex peer < snapshotIndex then coreView (setMatch core peer snapshotIndex)
      else coreView core := by
  unfold restartPeer
  split_ifs <;> rfl

theorem snapshotCompletedBody_outcome (hs : Started M g n disk call) {peer snapshotIndex : ℕ}
    {nodeId : NodeId} (hpeer : call.core.peers[peer]? = some nodeId) (hother : nodeId ≠ n)
    (hmatch : MatchOk g n call.core.term nodeId snapshotIndex) :
    Outcome M g n disk call.core (snapshotCompletedBody peer snapshotIndex call) := by
  unfold snapshotCompletedBody
  by_cases hrole : call.core.role = .leader
  swap
  · rw [if_pos (by simpa using hrole)]
    exact .refused Status.noConfusion
  rw [if_neg (by simp [hrole])]
  by_cases hcapacity : lacksCapacity call (if peerIndexPaused call.core peer then 0 else 1) = true
  · rw [if_pos hcapacity]
    exact .refused Status.noConfusion
  rw [if_neg hcapacity]
  generalize hrestart : restartPeer call.core peer snapshotIndex = restarted
  have hview := restartPeer_view call.core peer snapshotIndex
  rw [hrestart] at hview
  have hcore : CoreOk M g n (coreView restarted) := by
    rw [hview]
    split_ifs
    · exact hs.core.matchPeer hpeer fun _ => hmatch
    · exact hs.core
  have hsame : restarted.log = call.core.log ∧ restarted.commitIndex = call.core.commitIndex ∧
      restarted.term = call.core.term ∧ restarted.peers = call.core.peers := by
    split_ifs at hview
    all_goals
      exact ⟨congrArg CoreView.log hview, congrArg CoreView.commitIndex hview,
        congrArg CoreView.term hview, congrArg CoreView.peers hview⟩
  obtain ⟨hlog, hcommit, hterm, hpeers⟩ := hsame
  apply hs.done (.refl hs.ghost n) hcore hlog hcommit
  apply Sent.of_emitted
  have hspeaks : Speaks (MsgOk M g) (SnapshotOk g n) restarted := by
    apply coreOk_speaks hs.ghost hcore
    rw [hterm]
    exact (hs.core.leader hrole).leads
  apply fillPeerReplicationWindow_emitted hspeaks
  · apply hspeaks.snapshot
    unfold peerId
    rw [hpeers, hpeer, hcore.self_id]
    exact hother

/-- How a call on `core` ends, seen by its host. -/
inductive Settled (M : Mode) (g : Ghost) (n : NodeId) (disk : Disk) (core : Core) :
    Status × Call → Prop where
  | done {call : Call} (g' : Ghost) (advance : Advance M n g g')
      (ok : CoreOk M g' n (coreView call.core))
      (durable : Durable (persistReady disk call.ready) call.core)
      (messages : ∀ m ∈ call.ready.messages, MsgOk M g' m)
      (requests : ∀ r ∈ call.ready.snapshotRequests, SnapshotOk g' n r)
      (raised : Raised g' core call.core) : Settled M g n disk core (.ok, call)
  | failed {status : Status} {call : Call} (status_ne : status ≠ .ok)
      (view : coreView call.core = coreView core) : Settled M g n disk core (status, call)

section Frame

variable {capacity : ℕ}

theorem beginCall_started (h : GhostOk M g) (hc : CoreOk M g n (coreView core))
    (hd : Durable disk core) : Started M g n disk (beginCall core capacity) where
  ghost := h
  core := hc
  durable := ⟨hd.term, hd.votedFor, hd.entries, hd.base, hd.baseTerm, hd.commit⟩
  quiet := rfl

theorem admitCommitted_view (call : Call) :
    coreView (admitCommitted call).core = coreView call.core ∧
      reportOf (admitCommitted call).ready = reportOf call.ready ∧
      (admitCommitted call).ready.messages = call.ready.messages ∧
      (admitCommitted call).ready.snapshotRequests = call.ready.snapshotRequests := by
  unfold admitCommitted
  split_ifs <;> exact ⟨rfl, rfl, rfl, rfl⟩

theorem finish_sent (before : Before) (call : Call) : Sent M g n call (finish before call) := by
  obtain ⟨hview, hreport, hmessages, hrequests⟩ := admitCommitted_view call
  refine ⟨hview, hreport, ?_, ?_⟩
  · intro m hm
    exact Or.inl (hmessages ▸ hm)
  · intro r hr
    exact Or.inl (hrequests ▸ hr)

theorem finish_durable (h : Stored disk call) (hterm : disk.term = core.term)
    (hvote : disk.votedFor = core.votedFor) :
    Durable (persistReady disk (finish (beforeOf core) call).ready)
      (finish (beforeOf core) call).core := by
  obtain ⟨hview, hreport, -⟩ := admitCommitted_view call
  have hstored : Stored disk (finish (beforeOf core) call) :=
    h.of_same (congrArg CoreView.log hview) (congrArg CoreView.commitIndex hview) hreport
  generalize hadmitted : admitCommitted call = admitted
  have hfinish : finish (beforeOf core) call =
      { core := { admitted.core with
          readyOutstanding := readyHasEffects (finishReady (beforeOf core) admitted)
          inCall := false }
        ready := finishReady (beforeOf core) admitted } := by
    rw [← hadmitted]
    rfl
  constructor
  case term =>
    rw [hfinish]
    change (if core.term != admitted.core.term || core.votedFor != admitted.core.votedFor
      then admitted.core.term else disk.term) = admitted.core.term
    split_ifs with hchanged
    · rfl
    · simp only [Bool.or_eq_true, bne_iff_ne, ne_eq, not_or, not_not] at hchanged
      exact hterm.trans hchanged.1
  case votedFor =>
    rw [hfinish]
    change (if core.term != admitted.core.term || core.votedFor != admitted.core.votedFor
      then admitted.core.votedFor else disk.votedFor) = admitted.core.votedFor
    split_ifs with hchanged
    · rfl
    · simp only [Bool.or_eq_true, bne_iff_ne, ne_eq, not_or, not_not] at hchanged
      exact hvote.trans hchanged.2
  case entries => exact hstored.entries
  case base => exact hstored.base
  case baseTerm => exact hstored.baseTerm
  case commit => exact hstored.commit

theorem runCall_settled (h : GhostOk M g) (hc : CoreOk M g n (coreView core))
    (hd : Durable disk core) {body : Call → Status × Call}
    (hbody : Started M g n disk (beginCall core capacity) →
      Outcome M g n disk (beginCall core capacity).core (body (beginCall core capacity))) :
    Settled M g n disk core (runCall core capacity body) := by
  unfold runCall
  split_ifs
  · exact .failed Status.noConfusion rfl
  have houtcome := hbody (beginCall_started h hc hd)
  cases hresult : body (beginCall core capacity) with
  | mk status call =>
    rw [hresult] at houtcome
    cases houtcome with
    | done g' hadv hok hraised =>
      have hsent : Sent M g' n call (finish (beforeOf core) call) := finish_sent _ _
      have hfinished := hok.sent hsent
      refine .done g' hadv hfinished.core (finish_durable hok.stored hd.term hd.votedFor)
        hfinished.messages hfinished.requests ?_
      intro hrole hterm hlt
      rw [show (finish (beforeOf core) call).core.term = call.core.term from
        congrArg CoreView.term hsent.view] at hterm
      rw [show (finish (beforeOf core) call).core.commitIndex = call.core.commitIndex from
        congrArg CoreView.commitIndex hsent.view] at hlt ⊢
      exact hraised hrole hterm hlt
    | failed hstatus hview =>
      cases status with
      | ok => exact absurd rfl hstatus
      | _ => exact .failed hstatus hview

end Frame

variable {capacity : ℕ} {m : Message}

theorem refuse_settled {status : Status} (hstatus : status ≠ .ok) :
    Settled M g n disk core (refuse core capacity status) :=
  .failed hstatus rfl

theorem stepDispatch_outcome (hs : Started M g n disk call) (hm : MsgOk M g m) (hto : m.toId = n)
    (hfrom : m.fromId ≠ n) {peer : ℕ} (hpeer : call.core.peers[peer]? = some m.fromId)
    (hnamed : m.fromId ≠ 0)
    (hcovered : M.tracked = true → m.type = .heartbeatRequest ∨ m.type = .appendRequest →
      commitCovered call.core m = true)
    (hready : M.fixed = false → messageElects call.core m = true →
      electionReady call.core = true) :
    Outcome M g n disk call.core (stepDispatch m peer call) := by
  unfold stepDispatch
  cases htype : m.type with
  | preVoteRequest => exact stepPreVoteRequest_outcome hs
  | preVoteResponse => exact stepPreVoteResponse_outcome hs hm htype hready
  | voteRequest => exact stepVoteRequest_outcome hs hm htype hnamed
  | voteResponse => exact stepVoteResponse_outcome hs hm htype hto hready
  | heartbeatRequest =>
    have hreq : RequestOk M g m := by
      unfold MsgOk at hm
      rwa [htype] at hm
    split_ifs
    · exact .refused Status.noConfusion
    · exact stepHeartbeatRequest_outcome hs hreq hfrom fun ht => hcovered ht (Or.inl htype)
  | appendRequest =>
    have hreq : RequestOk M g m := by
      unfold MsgOk at hm
      rwa [htype] at hm
    split_ifs
    · exact .refused Status.noConfusion
    · exact stepHeartbeatRequest_outcome hs hreq hfrom fun ht => hcovered ht (Or.inr htype)
  | heartbeatResponse | appendResponse =>
    unfold MsgOk at hm
    rw [htype] at hm
    exact stepHeartbeatResponse_outcome hs hm hpeer hfrom
  | timeoutNow => exact stepTimeoutNow_outcome hs htype hready
  | readIndexRequest => exact stepReadIndexRequest_outcome hs
  | readIndexResponse => exact stepReadIndexResponse_outcome hs _

theorem coreStep_settled (h : GhostOk M g) (hc : CoreOk M g n (coreView core))
    (hd : Durable disk core) (hm : MsgOk M g m)
    (hcovered : M.tracked = true → m.type = .heartbeatRequest ∨ m.type = .appendRequest →
      commitCovered core m = true)
    (hready : M.fixed = false → messageElects core m = true → electionReady core = true) :
    Settled M g n disk core (coreStep core m capacity) := by
  unfold coreStep
  by_cases haddress : (m.toId != core.selfId || m.fromId == core.selfId) = true
  · rw [if_pos haddress]
    exact refuse_settled Status.noConfusion
  rw [if_neg haddress]
  simp only [Bool.or_eq_true, bne_iff_ne, ne_eq, beq_iff_eq, not_or, not_not] at haddress
  rw [hc.self_id] at haddress
  cases hindex : peerIndex core m.fromId with
  | none => exact refuse_settled Status.noConfusion
  | some peer =>
    dsimp only
    by_cases hsender : senderRefused core m = true
    · rw [if_pos hsender]
      exact refuse_settled Status.noConfusion
    rw [if_neg hsender]
    obtain ⟨hnamed, hpeer⟩ := ascendingIndex_sound hindex
    apply runCall_settled h hc hd
    intro hs
    unfold stepBody
    by_cases hcapacity : lacksCapacity (beginCall core capacity)
        (stepRequired (beginCall core capacity).core m) = true
    · rw [if_pos hcapacity]
      exact .refused Status.noConfusion
    · rw [if_neg hcapacity]
      exact stepDispatch_outcome hs hm haddress.1 haddress.2 hpeer hnamed hcovered hready

theorem performOperation_settled (h : GhostOk M g) (hc : CoreOk M g n (coreView core))
    (hd : Durable disk core) (operation : Operation)
    (hchange : ∀ change, operation = .changeMembership change → M.fixed = false)
    (hinstalled : ∀ nodeId index, operation = .snapshotCompleted nodeId index →
      index ≤ core.log.baseIndex → MatchOk g n core.term nodeId index)
    (hready : M.fixed = false → operationElects core operation = true →
      electionReady core = true) :
    Settled M g n disk core (performOperation core operation capacity) := by
  cases operation with
  | tick tick =>
    change Settled M g n disk core (coreTick core tick capacity)
    unfold coreTick
    split_ifs
    · exact refuse_settled Status.noConfusion
    · exact runCall_settled h hc hd fun hs => tickBody_outcome hs hready
  | propose proposals =>
    change Settled M g n disk core (coreProposeBatch core proposals capacity)
    unfold coreProposeBatch
    split_ifs
    · exact refuse_settled Status.noConfusion
    · exact runCall_settled h hc hd fun hs => proposeBody_outcome hs proposals
  | changeMembership change =>
    change Settled M g n disk core (coreChangeMembership core change capacity)
    unfold coreChangeMembership
    split_ifs
    · exact refuse_settled Status.noConfusion
    · exact runCall_settled h hc hd fun hs =>
        changeMembershipBody_outcome hs (hchange change rfl) change
  | transferLeadership transferee =>
    change Settled M g n disk core (coreTransferLeadership core transferee capacity)
    unfold coreTransferLeadership
    split_ifs with hself
    · exact refuse_settled Status.noConfusion
    · simp only [Bool.or_eq_true, beq_iff_eq, not_or] at hself
      rw [hc.self_id] at hself
      cases hindex : voterIndex core transferee with
      | none => exact refuse_settled Status.noConfusion
      | some peer =>
        exact runCall_settled h hc hd fun hs =>
          transferBody_outcome hs (voterIndex_sound hindex).2 hself.2
  | readIndex contextId =>
    change Settled M g n disk core (coreReadIndex core contextId capacity)
    unfold coreReadIndex
    split_ifs
    · exact refuse_settled Status.noConfusion
    · exact runCall_settled h hc hd fun hs => readIndexBody_outcome hs contextId
  | poll => exact runCall_settled h hc hd fun hs => pollBody_outcome hs
  | snapshotCompleted nodeId snapshotIndex =>
    change Settled M g n disk core (coreSnapshotCompleted core nodeId snapshotIndex capacity)
    unfold coreSnapshotCompleted
    by_cases hself : (nodeId == 0 || nodeId == core.selfId || snapshotIndex == 0) = true
    · rw [if_pos hself]
      exact refuse_settled Status.noConfusion
    rw [if_neg hself]
    simp only [Bool.or_eq_true, beq_iff_eq, not_or] at hself
    rw [hc.self_id] at hself
    cases hindex : peerIndex core nodeId with
    | none => exact refuse_settled Status.noConfusion
    | some peer =>
      split_ifs with hbase
      · exact refuse_settled Status.noConfusion
      · exact runCall_settled h hc hd fun hs =>
          snapshotCompletedBody_outcome hs (ascendingIndex_sound hindex).2 hself.1.2
            (hinstalled nodeId snapshotIndex rfl (by omega))

end RaftOperations
