import TurboRaft.RaftOperationEffects
import TurboRaft.RaftRecovery

/-! # Histories of one core

From the spec of every call to what holds along whole runs: a core just created rests, every
input leaves it resting, and acknowledgements, pauses and compaction change what they are for. -/
namespace RaftCoreHistories

open RaftTypes RaftConfiguration RaftMembership RaftMembershipTransition RaftLog RaftCoreState
open RaftCore RaftCoreEmit RaftCluster RaftRefinement RaftCoreProgress RaftCoreRuns RaftLogReconcile
open RaftOperationEffects RaftRecovery RaftReplicationEffects Executions

variable {F : Faith} {L : Log → Prop} {core core' : Core} {call : Call} {capacity : ℕ}

def isRequest (m : Message) : Bool := m.type == .heartbeatRequest || m.type == .appendRequest

/-- The message passes every check of a step before its handler runs. -/
def stepTaken (core : Core) (m : Message) (capacity : ℕ) : Bool :=
  m.toId == core.selfId && m.fromId != core.selfId && (peerIndex core m.fromId).isSome &&
    !senderRefused core m && !beginRefused core && decide (stepRequired core m ≤ capacity)

/-- A request that is taken holds no misnumbered entry among those that nothing checks. -/
def inputNumbered (core : Core) : Input → Bool
  | .step m capacity => !stepTaken core m capacity || !isRequest m || requestNumbered core m
  | _ => true

def forgottenCampaign (core : Core) : Input → Bool
  | .step m capacity => stepTaken core m capacity && campaignForgotten core m
  | _ => false

def inputReaches (core : Core) : Input → Bool
  | .step m capacity => !stepTaken core m capacity || !isRequest m || requestReaches core m
  | _ => true

def faithOf (core : Core) (input : Input) : Faith :=
  { numbered := inputNumbered core input = true
    campaigned := forgottenCampaign core input = false
    reaching := inputReaches core input = true
    ticking := fun tick capacity =>
      input = .call (.tick tick) capacity ∧ tick.elapsedTicks ≠ 0 }

inductive LogStep (core : Core) : Input → Log → Prop where
  | kept {input : Input} : LogStep core input core.log
  | taken {m : Message} {capacity : ℕ} {log : Log} {reconcile : ReconcileResult}
      (request : isRequest m = true)
      (reconciled : logReconcile core.log m.previousLogIndex m.previousLogTerm m.entries
        core.commitIndex = .ok (log, reconcile)) : LogStep core (.step m capacity) log
  | proposed {proposals : List Proposal} {capacity : ℕ} {log : Log} {entries : List Entry}
      (appended : logAppendLocalBatch core.log core.term proposals = .ok (log, entries)) :
      LogStep core (.call (.propose proposals) capacity) log
  | configured {operation : Operation} {capacity : ℕ} {configuration : Conf} {log : Log}
      {entry : Entry}
      (appended : logAppendConfiguration core.log core.term configuration = .ok (log, entry)) :
      LogStep core (.call operation capacity) log

section Calls

variable {m : Message} {input : Input}

theorem refuse_finished {status : Status} (hstatus : status ≠ .ok) :
    Completed F L core (refuse core capacity status) :=
  ⟨.refused hstatus rfl, fun hok => absurd hok hstatus⟩

theorem stepDispatch_ending (h : Begun call) (peer : ℕ)
    (hnumbered : F.numbered → isRequest m = true → requestNumbered call.core m = true)
    (hreaches : F.reaching → isRequest m = true → requestReaches call.core m = true)
    (hcampaigned : F.campaigned → campaignForgotten call.core m = false)
    (hlogs : isRequest m = true → ∀ log r, logReconcile call.core.log m.previousLogIndex
      m.previousLogTerm m.entries call.core.commitIndex = .ok (log, r) → L log) :
    Closing F L call.core (stepDispatch m peer call) := by
  unfold stepDispatch
  cases htype : m.type with
  | preVoteRequest => exact .done (stepPreVoteRequest_effect h)
  | preVoteResponse => exact .done (stepPreVoteResponse_effect h htype hcampaigned)
  | voteRequest => exact .done (stepVoteRequest_effect h)
  | voteResponse => exact .done (stepVoteResponse_effect h _)
  | heartbeatRequest | appendRequest =>
    have hrequest : isRequest m = true := by simp [isRequest, htype]
    split_ifs with hformed
    · exact .refused Status.noConfusion rfl
    · exact stepHeartbeatRequest_ending h (Bool.not_eq_true _ ▸ hformed)
        (fun hf => hnumbered hf hrequest) (fun hr => hreaches hr hrequest) (hlogs hrequest)
  | heartbeatResponse | appendResponse => exact stepHeartbeatResponse_ending h
  | timeoutNow => exact .done (stepTimeoutNow_effect h)
  | readIndexRequest => exact .done (stepReadIndexRequest_effect h)
  | readIndexResponse => exact .done (stepReadIndexResponse_effect h _)

theorem coreStep_untaken (hidle : core.inCall = false) (h : stepTaken core m capacity = false) :
    (coreStep core m capacity).1 ≠ .ok ∧ (coreStep core m capacity).2.core = core := by
  unfold coreStep
  cases hpeer : peerIndex core m.fromId with
  | none =>
    split_ifs <;> exact ⟨Status.noConfusion, rfl⟩
  | some peer =>
    dsimp only
    split_ifs with haddress hsender
    · exact ⟨Status.noConfusion, rfl⟩
    · exact ⟨Status.noConfusion, rfl⟩
    unfold runCall
    split_ifs with hbegins
    · exact ⟨Status.noConfusion, rfl⟩
    have hfull : lacksCapacity (beginCall core capacity)
        (stepRequired (beginCall core capacity).core m) = true := by
      change decide (capacity < stepRequired core m) = true
      simp only [Bool.or_eq_true, bne_iff_ne, beq_iff_eq, not_or, ne_eq, Decidable.not_not]
        at haddress
      simpa [stepTaken, haddress, hpeer, hsender, hbegins] using h
    unfold stepBody
    rw [if_pos hfull]
    exact ⟨Status.noConfusion, idle_again hidle⟩

theorem coreStep_taken (h : stepTaken core m capacity = true) :
    ∃ peer, peerIndex core m.fromId = some peer ∧
      coreStep core m capacity = runCall core capacity (stepDispatch m peer) := by
  simp only [stepTaken, Bool.and_eq_true, beq_iff_eq, bne_iff_ne, ne_eq, Option.isSome_iff_exists,
    Bool.not_eq_true', decide_eq_true_eq] at h
  obtain ⟨⟨⟨⟨⟨hto, hfrom⟩, peer, hpeer⟩, hsender⟩, hbegins⟩, hroom⟩ := h
  refine ⟨peer, hpeer, ?_⟩
  have hfits : lacksCapacity (beginCall core capacity)
      (stepRequired (beginCall core capacity).core m) = false := by
    change decide (capacity < stepRequired core m) = false
    simpa using hroom
  unfold coreStep
  rw [hpeer, hsender, if_neg (by simp [hto, hfrom])]
  unfold runCall stepBody
  rw [hfits]
  rfl

theorem coreStep_finished (h : Resting core) (m : Message) (capacity : ℕ) :
    Completed (faithOf core (.step m capacity)) (LogStep core (.step m capacity)) core
      (coreStep core m capacity) := by
  cases htaken : stepTaken core m capacity with
  | false =>
    obtain ⟨hfailed, hsame⟩ := coreStep_untaken h.idle htaken
    exact ⟨.refused hfailed hsame, fun hok => absurd hok hfailed⟩
  | true =>
    obtain ⟨peer, _, hstep⟩ := coreStep_taken htaken
    rw [hstep]
    refine runCall_finished h fun hbegun => stepDispatch_ending hbegun peer ?_ ?_ ?_
      fun hrequest log r hok => .taken hrequest hok
    · intro hnumbered hrequest
      have hinput : inputNumbered core (.step m capacity) = true := hnumbered
      simp only [inputNumbered, htaken, hrequest, Bool.not_true, Bool.false_or] at hinput
      exact hinput
    · intro hreaches hrequest
      have hinput : inputReaches core (.step m capacity) = true := hreaches
      simp only [inputReaches, htaken, hrequest, Bool.not_true, Bool.false_or] at hinput
      exact hinput
    · intro hcampaigned
      have hinput : forgottenCampaign core (.step m capacity) = false := hcampaigned
      simp only [forgottenCampaign, htaken, Bool.true_and] at hinput
      exact hinput

theorem performOperation_finished (h : Resting core) (operation : Operation) (capacity : ℕ) :
    Completed (faithOf core (.call operation capacity)) (LogStep core (.call operation capacity))
      core (performOperation core operation capacity) := by
  unfold performOperation
  cases operation with
  | tick tick =>
    dsimp only [coreTick]
    split_ifs with hticks
    · exact refuse_finished Status.noConfusion
    · exact runCall_finished h fun hbegun => tickBody_ending hbegun ⟨rfl, by simpa using hticks⟩
        fun _ _ _ hok => .configured hok
  | propose proposals =>
    dsimp only [coreProposeBatch]
    split_ifs
    · exact refuse_finished Status.noConfusion
    · exact runCall_finished h fun hbegun => proposeBody_ending hbegun proposals
        fun _ _ hok => .proposed hok
  | changeMembership change =>
    dsimp only [coreChangeMembership]
    split_ifs
    · exact refuse_finished Status.noConfusion
    · exact runCall_finished h fun hbegun => changeMembershipBody_ending hbegun change
        fun _ _ _ hok => .configured hok
  | transferLeadership transferee =>
    dsimp only [coreTransferLeadership]
    split_ifs
    · exact refuse_finished Status.noConfusion
    cases voterIndex core transferee with
    | none => exact refuse_finished Status.noConfusion
    | some peer => exact runCall_finished h fun hbegun => transferBody_ending hbegun transferee peer
  | readIndex contextId =>
    dsimp only [coreReadIndex]
    split_ifs
    · exact refuse_finished Status.noConfusion
    · exact runCall_finished h fun hbegun => readIndexBody_ending hbegun contextId
  | poll => exact runCall_finished h fun hbegun => pollBody_ending hbegun
  | snapshotCompleted nodeId index =>
    dsimp only [coreSnapshotCompleted]
    cases peerIndex core nodeId with
    | none =>
      dsimp only
      split_ifs
      · exact refuse_finished Status.noConfusion
      · exact refuse_finished Status.noConfusion
    | some peer =>
      split_ifs
      · exact refuse_finished Status.noConfusion
      · exact refuse_finished Status.noConfusion
      · exact runCall_finished h fun hbegun => snapshotCompletedBody_ending hbegun peer index

def isCall : Input → Bool
  | .step _ _ => true
  | .call _ _ => true
  | _ => false

theorem perform_completed (h : Resting core) (hcall : isCall input = true) :
    Completed (faithOf core input) (LogStep core input) core (perform core input) := by
  cases input with
  | step m capacity => exact coreStep_finished h m capacity
  | call operation capacity => exact performOperation_finished h operation capacity
  | _ => cases hcall

theorem perform_finished (h : Resting core) (hcall : isCall input = true) :
    Finished (faithOf core input) core (perform core input) :=
  (perform_completed h hcall).1

end Calls

/-- What every input but a call does: term, vote, commit index and configurations stay, and the
log is at most compacted. -/
structure Tended (core core' : Core) : Prop where
  resting : Resting core'
  term : core'.term = core.term
  vote : core'.votedFor = core.votedFor
  commit : core'.commitIndex = core.commitIndex
  transition : core'.membershipTransition = core.membershipTransition
  base_le : core.log.baseIndex ≤ core'.log.baseIndex
  entries : core'.log.entries = core.log.entries.drop (core'.log.baseIndex - core.log.baseIndex)
  compacted : core'.log = core.log ∨ core'.log.baseIndex = core.commitIndex

theorem Tended.last_le {core core' : Core} (h : Tended core core') :
    logLastIndex core.log ≤ logLastIndex core'.log := by
  have hbase := h.base_le
  unfold logLastIndex logCount
  rw [h.entries, List.length_drop]
  omega

theorem Tended.of_acks (h : Resting core) {applied admitted pending : ℕ} {outstanding : Bool}
    (happlied : core.appliedIndex ≤ applied) (hadmitted : applied ≤ admitted)
    (hcommit : admitted ≤ core.commitIndex)
    (hhanded : pending ≠ 0 → pending = core.commitIndex ∧ outstanding = true) :
    Tended core { core with
      appliedIndex := applied
      applyAdmittedIndex := admitted
      pendingApplyIndex := pending
      readyOutstanding := outstanding } where
  resting :=
    { h with
      base_le := h.base_le.trans happlied
      applied_le := hadmitted
      admitted_le := hcommit
      handed := hhanded }
  term := rfl
  vote := rfl
  commit := rfl
  transition := rfl
  base_le := le_rfl
  entries := by
    rw [Nat.sub_self]
    rfl
  compacted := Or.inl rfl

theorem Tended.refl (h : Resting core) : Tended core core :=
  .of_acks h le_rfl h.applied_le h.admitted_le h.handed

theorem coreAckReady_cases (core : Core) (admitted : ℕ) :
    ((coreAckReady core admitted).1 ≠ .ok ∧ (coreAckReady core admitted).2 = core) ∨
      (core.readyOutstanding = true ∧
        admitted ≤ core.pendingApplyIndex - core.applyAdmittedIndex ∧
        coreAckReady core admitted = (.ok, { core with
          applyAdmittedIndex := core.applyAdmittedIndex + admitted
          pendingApplyIndex := 0
          readyOutstanding := false })) := by
  unfold coreAckReady
  generalize hcount : (if (core.pendingApplyIndex != 0) = true then
    core.pendingApplyIndex - core.applyAdmittedIndex else 0) = pendingCount
  have hpending : pendingCount = core.pendingApplyIndex - core.applyAdmittedIndex := by
    rw [← hcount]
    split_ifs with hsome
    · rfl
    · have : core.pendingApplyIndex = 0 := by simpa using hsome
      omega
  dsimp only
  split_ifs with hbusy hbehind hmany
  · exact Or.inl ⟨Status.noConfusion, rfl⟩
  · exact Or.inl ⟨Status.noConfusion, rfl⟩
  · exact Or.inl ⟨Status.noConfusion, rfl⟩
  · right
    simp only [Bool.or_eq_true, Bool.not_eq_true', not_or, Bool.not_eq_false] at hbusy
    exact ⟨hbusy.2, by omega, rfl⟩

theorem coreAckReady_tended (h : Resting core) (admitted : ℕ) :
    Tended core (coreAckReady core admitted).2 := by
  have hadmitted := h.admitted_le
  have happlied := h.applied_le
  rcases coreAckReady_cases core admitted with ⟨_, hsame⟩ | ⟨_, hcount, hok⟩
  · rw [hsame]
    exact .refl h
  · rw [hok]
    have hbound : core.applyAdmittedIndex + admitted ≤ core.commitIndex := by
      by_cases hwaits : core.pendingApplyIndex = 0
      · omega
      · have := (h.handed hwaits).1
        omega
    exact .of_acks h le_rfl (by omega) hbound fun hzero => absurd rfl hzero

theorem coreAckApplied_cases (core : Core) (index : ℕ) :
    ((coreAckApplied core index).1 ≠ .ok ∧ (coreAckApplied core index).2 = core) ∨
      (index = core.appliedIndex + 1 ∧ core.appliedIndex < core.applyAdmittedIndex ∧
        coreAckApplied core index = (.ok,
          { core with appliedIndex := core.appliedIndex + 1 })) := by
  unfold coreAckApplied
  split_ifs with hzero hbusy hold hgap hahead
  · exact Or.inl ⟨Status.noConfusion, rfl⟩
  · exact Or.inl ⟨Status.noConfusion, rfl⟩
  · exact Or.inl ⟨Status.noConfusion, rfl⟩
  · exact Or.inl ⟨Status.noConfusion, rfl⟩
  · exact Or.inl ⟨Status.noConfusion, rfl⟩
  · right
    simp only [Bool.or_eq_true, bne_iff_ne, ne_eq, not_or, Decidable.not_not] at hgap
    rw [hgap.2] at hahead ⊢
    exact ⟨rfl, by omega, rfl⟩

theorem coreAckApplied_tended (h : Resting core) (index : ℕ) :
    Tended core (coreAckApplied core index).2 := by
  rcases coreAckApplied_cases core index with ⟨_, hsame⟩ | ⟨_, hbelow, hok⟩
  · rw [hsame]
    exact .refl h
  · rw [hok]
    exact .of_acks h (Nat.le_succ _) hbelow h.admitted_le h.handed

theorem coreAdvance_cases (core : Core) :
    ((coreAdvance core).1 ≠ .ok ∧ (coreAdvance core).2 = core) ∨
      (core.readyOutstanding = true ∧ core.pendingApplyIndex ≠ 0 ∧
        core.applyAdmittedIndex = core.appliedIndex ∧
        core.applyAdmittedIndex ≤ core.pendingApplyIndex ∧
        coreAdvance core = (.ok, { core with
          applyAdmittedIndex := core.pendingApplyIndex
          appliedIndex := core.pendingApplyIndex
          pendingApplyIndex := 0
          readyOutstanding := false })) ∨
      (core.readyOutstanding = true ∧ core.pendingApplyIndex = 0 ∧
        coreAdvance core = (.ok, { core with readyOutstanding := false })) := by
  unfold coreAdvance
  split_ifs with hbusy hpending hbehind
  · exact Or.inl ⟨Status.noConfusion, rfl⟩
  · exact Or.inl ⟨Status.noConfusion, rfl⟩
  · simp only [Bool.or_eq_true, Bool.not_eq_true', not_or, Bool.not_eq_false, bne_iff_ne, ne_eq,
      Decidable.not_not, decide_eq_true_eq, not_lt] at hbusy hpending hbehind
    exact Or.inr (Or.inl ⟨hbusy.2, hpending, hbehind.1, hbehind.2, rfl⟩)
  · simp only [Bool.or_eq_true, Bool.not_eq_true', not_or, Bool.not_eq_false, bne_iff_ne, ne_eq,
      Decidable.not_not] at hbusy hpending
    exact Or.inr (Or.inr ⟨hbusy.2, hpending, rfl⟩)

theorem coreAdvance_tended (h : Resting core) : Tended core (coreAdvance core).2 := by
  rcases coreAdvance_cases core with ⟨_, hsame⟩ | ⟨_, hwaits, hdone, hahead, hok⟩ | ⟨_, hnone, hok⟩
  · rw [hsame]
    exact .refl h
  · rw [hok]
    have hcommit := (h.handed hwaits).1
    exact .of_acks h (by omega) le_rfl hcommit.le fun hzero => absurd rfl hzero
  · rw [hok]
    exact .of_acks h le_rfl h.applied_le h.admitted_le fun hwaits => absurd hnone hwaits

theorem coreSetPeerPaused_tended (h : Resting core) (nodeId : NodeId) (paused : Bool) :
    Tended core (coreSetPeerPaused core nodeId paused).2 := by
  obtain ⟨_, hsame⟩ := coreSetPeerPaused_same core nodeId paused
  rw [hsame]
  refine ⟨{ h with }, rfl, rfl, rfl, rfl, le_rfl, ?_, Or.inl rfl⟩
  rw [Nat.sub_self]
  rfl

theorem compactAtPoint_cases (core : Core) :
    ((compactAtPoint core).1 ≠ .ok ∧ (compactAtPoint core).2 = core) ∨
      ∃ term, core.readyOutstanding = false ∧ core.appliedIndex = core.commitIndex ∧
        core.log.baseIndex < core.commitIndex ∧ compactAtPoint core =
        (.ok, { core with log :=
          { core.log with
            entries := core.log.entries.drop (core.commitIndex - core.log.baseIndex)
            baseIndex := core.commitIndex
            baseTerm := term } }) := by
  unfold compactAtPoint
  rcases coreSnapshotPoint_cases core with ⟨status, hpoint, hstatus⟩ |
    ⟨point, hpoint, hindex, hfree, happlied, hbase, _⟩
  · rw [hpoint]
    exact Or.inl ⟨hstatus, rfl⟩
  · rw [hpoint]
    rcases coreCompact_outcome core point with hfailed | ⟨_, _, hok⟩
    · exact Or.inl hfailed
    · exact Or.inr ⟨point.term, hfree, happlied, hbase, hindex ▸ hok⟩

theorem compactAtPoint_tended (h : Resting core) : Tended core (compactAtPoint core).2 := by
  rcases compactAtPoint_cases core with ⟨_, hsame⟩ | ⟨term, _, happlied, hbase, hok⟩
  · rw [hsame]
    exact .refl h
  · rw [hok]
    constructor
    case resting =>
      exact { h with
        slots := h.slots.drop hbase.le
        base_le := happlied.ge
        commit_le := Nat.le_add_right _ _ }
    case term => rfl
    case vote => rfl
    case commit => rfl
    case transition => rfl
    case base_le => exact hbase.le
    case entries => rfl
    case compacted => exact Or.inr rfl

theorem perform_tended (h : Resting core) {input : Input} (hcall : isCall input = false) :
    Tended core (perform core input).2.core := by
  cases input with
  | step m capacity | call operation capacity => cases hcall
  | ackReady admitted => exact coreAckReady_tended h admitted
  | ackApplied index => exact coreAckApplied_tended h index
  | advance => exact coreAdvance_tended h
  | setPeerPaused peer paused => exact coreSetPeerPaused_tended h peer paused
  | compact => exact compactAtPoint_tended h

theorem perform_resting (h : Resting core) (input : Input) :
    Resting (perform core input).2.core := by
  cases hcall : isCall input with
  | false => exact (perform_tended h hcall).resting
  | true =>
    have hfinished := perform_finished h hcall
    generalize perform core input = result at hfinished
    cases hfinished with
    | done hcalled => exact hcalled.resting
    | refused _ hsame =>
      rw [hsame]
      exact h
    | aged tick _ _ _ hsame =>
      have hinert := agedCore_inert core tick.elapsedTicks
      rw [hsame]
      exact ⟨h.toCoreInv.of_views hinert.view hinert.apply,
        (congrArg ApplyView.inCall hinert.apply).trans h.idle, by
          rw [show (agedCore core tick.elapsedTicks).pendingApplyIndex = _ from
              congrArg ApplyView.pendingApplyIndex hinert.apply,
            show (agedCore core tick.elapsedTicks).readyOutstanding = _ from
              congrArg ApplyView.readyOutstanding hinert.apply,
            show (agedCore core tick.elapsedTicks).commitIndex = _ from
              congrArg CoreView.commitIndex hinert.view]
          exact h.handed⟩

section Creation

variable {config : CoreConfig}

def replayedCore (config : CoreConfig) (transition staged : MembershipTransition)
    (peers : List NodeId) (log : Log) : Core :=
  { blankCore config transition peers log with
    membershipTransition := membershipTransitionApply staged
      (orBase config config.initialCommitIndex) }

structure Recovery (config : CoreConfig) (core : Core) where
  transition : MembershipTransition
  staged : MembershipTransition
  peers : List NodeId
  synced : List NodeId
  log : Log
  valid : (settingsInvalid config || identityInvalid config) = false
  initial : createTransition config = .ok transition
  built : peerSetBuild [transition.committed] = .ok peers
  filled : createLog config = .ok log
  ordered : indicesInvalid config (blankCore config transition peers log) = false
  replayed : stageEntries transition log.entries = .ok staged
  rebuilt : coreBuildPeerSet (membershipTransitionApply staged
    (orBase config config.initialCommitIndex)) = .ok synced
  result : core =
    { coreRefreshPeers (replayedCore config transition staged peers log) synced with
      selfIsVoter := core.selfIsVoter
      appendWindows := core.appendWindows }
  voting : core.selfIsVoter = membershipIsVoter (coreMembership core) core.selfId
  windows : ∀ peer, (core.appendWindows peer).items = ((coreRefreshPeers
    (replayedCore config transition staged peers log) synced).appendWindows peer).items

theorem coreRefreshPeers_role (core : Core) (peers : List NodeId) :
    (coreRefreshPeers core peers).role = core.role :=
  congrArg CoreView.role (coreRefreshPeers_view core peers)

theorem coreCreate_recovery (h : coreCreate config = .ok core) : Nonempty (Recovery config core) := by
  obtain ⟨transition, peers, log, replayed, hvalid, htransition, hpeers, hlog, hindices, hreplay,
    rfl⟩ := coreCreate_cases h
  unfold coreReplayMembershipLog at hreplay
  split at hreplay
  · cases hreplay
  · next staged hstage =>
    change coreSyncMembership (replayedCore config transition staged peers log) = .ok replayed
      at hreplay
    have hrole : ∀ synced, (coreRefreshPeers (replayedCore config transition staged peers log)
        synced).role = .follower := fun _ => coreRefreshPeers_role _ _
    unfold coreSyncMembership at hreplay
    split at hreplay
    · cases hreplay
    · next synced hbuild =>
      rw [if_neg (by simp [hrole])] at hreplay
      cases hreplay
      exact ⟨⟨transition, staged, peers, synced, log, hvalid, htransition, hpeers, hlog, hindices,
        hstage, hbuild, rfl, rfl, fun _ => rfl⟩⟩

theorem createLog_slots {log : Log} (h : createLog config = .ok log) :
    SlotsOk log ∧ log.baseIndex = config.initialLastLogIndex := by
  obtain ⟨empty, hnil, hbase, _, hcases⟩ := createLog_cases h
  have hslots : SlotsOk empty := by
    intro i e he
    rw [hnil] at he
    cases he
  rcases hcases with ⟨_, rfl⟩ | ⟨_, r, _, hreconcile⟩
  · exact ⟨hslots, hbase⟩
  · have hreconciled := logReconcile_reconciled hslots (Nat.zero_le _) hreconcile
    exact ⟨hreconciled.slots, hreconciled.base.trans hbase⟩

theorem Recovery.staging (r : Recovery config core) : Staged r.staged 0 := by
  have hpending := (createTransition_cases r.initial).1
  have hstart : Staged r.transition 0 := by
    refine ⟨⟨r.peers, ?_⟩, ?_, ?_⟩
    · unfold coreBuildPeerSet pendingConfs
      rw [hpending]
      exact r.built
    · rw [hpending]
      exact fun p hp => absurd hp List.not_mem_nil
    · rw [hpending]
      exact List.Pairwise.nil
  refine (hstart.stageEntries ?_ r.replayed).1
  intro e he
  obtain ⟨i, hi, hget⟩ := List.getElem_of_mem he
  rcases (createLog_slots r.filled).1 i e (by rw [List.getElem?_eq_getElem hi, hget]) with
    hnamed | hzero
  · left
    omega
  · exact Or.inr hzero

theorem coreCreate_resting (h : coreCreate config = .ok core) : Resting core := by
  obtain ⟨r⟩ := coreCreate_recovery h
  have happlied := r.staging.apply (orBase config config.initialCommitIndex)
  obtain ⟨hslots, hbase⟩ := createLog_slots r.filled
  have hordered := r.ordered
  unfold indicesInvalid at hordered
  simp only [Bool.or_eq_false_iff, decide_eq_false_iff_not, not_lt] at hordered
  obtain ⟨⟨hbaseApplied, happliedCommit⟩, hcommitLast⟩ := hordered
  have hloose : LooseInv (replayedCore config r.transition r.staged r.peers r.log) :=
    { pending := happlied.above
      ascending := happlied.ascending
      slots := hslots
      base_le := hbase.le.trans hbaseApplied
      applied_le := le_rfl
      admitted_le := happliedCommit
      commit_le := hcommitLast
      campaign := fun hrole => Role.noConfusion hrole }
  have hinv := looseInv_refresh hloose r.rebuilt
  have happly := coreRefreshPeers_apply
    (replayedCore config r.transition r.staged r.peers r.log) r.synced
  rw [r.result]
  refine ⟨⟨hinv.toLooseInv.carry rfl rfl rfl rfl rfl hinv.campaign, hinv.peers⟩,
    congrArg ApplyView.inCall happly, ?_⟩
  intro hwaits
  exact absurd (congrArg ApplyView.pendingApplyIndex happly) hwaits

theorem coreCreate_fresh (h : coreCreate config = .ok core) :
    core.applyAdmittedIndex = core.appliedIndex ∧ core.readyOutstanding = false := by
  obtain ⟨r⟩ := coreCreate_recovery h
  have happly := coreRefreshPeers_apply
    (replayedCore config r.transition r.staged r.peers r.log) r.synced
  rw [r.result]
  exact ⟨(congrArg ApplyView.applyAdmittedIndex happly).trans
    (congrArg ApplyView.appliedIndex happly).symm, congrArg ApplyView.readyOutstanding happly⟩

/-- A created core under any inputs, as long as its indices fit. -/
structure CoreRun where
  config : CoreConfig
  start : Core
  created : coreCreate config = .ok start
  run : Execution (coreSystem start)
  indexable : run.Stays fun core => Indexable core.log

theorem CoreRun.resting (run : CoreRun) {k : ℕ} (hk : k ≤ run.run.length) :
    Resting (run.run.state k) := by
  have hmeets : run.run.Meets fun _ _ => True := fun _ _ => trivial
  apply run.run.invariant hmeets Resting (coreCreate_resting run.created) _ k hk
  intro core input core' h _ hstep
  cases hstep
  exact perform_resting h input

theorem CoreRun.step (run : CoreRun) {k : ℕ} (hk : k < run.run.length) :
    run.run.state (k + 1) = (perform (run.run.state k) (run.run.event k)).2.core :=
  (Option.some.inj (run.run.transition k hk)).symm

end Creation

variable {config : CoreConfig} {inputs : List Input}

instance : Inhabited Input := ⟨.compact⟩

theorem coreSystem_enabled (start core : Core) (inputs : List Input) :
    (runEvents (coreSystem start) core inputs).isSome = true := by
  induction inputs generalizing core with
  | nil => rfl
  | cons input rest ih => exact ih _

def createdCore (config : CoreConfig) : Core :=
  (coreCreate config).toOption.getD (blankCore config
    { committed := { phase := .final, transitionId := 0, members := [] }, pending := [] } []
    { entries := [], maxEntries := 0, baseIndex := 0, baseTerm := 0 })

theorem createdCore_ok (h : (coreCreate config).isOk = true) :
    coreCreate config = .ok (createdCore config) := by
  unfold createdCore
  cases hcreate : coreCreate config with
  | ok core => rfl
  | error status =>
    rw [hcreate] at h
    cases h

def inputsFit (config : CoreConfig) (inputs : List Input) : Bool :=
  (coreCreate config).isOk && decide (Indexable (createdCore config).log) &&
    meetsAlong (coreSystem (createdCore config))
      (fun core input => decide (Indexable (perform core input).2.core.log)) (createdCore config)
      inputs

def CoreRun.ofInputs (config : CoreConfig) (inputs : List Input)
    (h : inputsFit config inputs = true) : CoreRun where
  config := config
  start := createdCore config
  created := createdCore_ok (by simp only [inputsFit, Bool.and_eq_true] at h; exact h.1.1)
  run := .ofEvents _ inputs (coreSystem_enabled _ _ inputs)
  indexable := by
    simp only [inputsFit, Bool.and_eq_true, decide_eq_true_eq] at h
    exact Execution.ofEvents_stays _ h.1.2 h.2

theorem CoreRun.ofInputs_meets (hfit : inputsFit config inputs = true)
    {condition : Core → Input → Bool}
    (h : meetsAlong (coreSystem (createdCore config)) condition (createdCore config) inputs = true) :
    (CoreRun.ofInputs config inputs hfit).run.Meets fun core input => condition core input = true :=
  Execution.ofEvents_meets (coreSystem_enabled _ _ inputs) h

def sampleConfig : CoreConfig :=
  { selfId := 1
    voters := [1, 2, 3]
    learners := []
    initialConfiguration := none
    heartbeatTicks := 1
    electionMinTicks := 5
    electionMaxTicks := 10
    initialElectionTimeoutTicks := 5
    initialTerm := 0
    initialVote := 0
    initialLastLogIndex := 0
    initialLastLogTerm := 0
    initialLogEntries := []
    initialCommitIndex := 0
    initialAppliedIndex := 0
    maxLogEntries := 0
    maxPendingReads := 0
    maxInflightAppendRequests := 0 }

def soloConfig : CoreConfig := { sampleConfig with voters := [1] }

def plainMessage (type : MessageType) (fromId toId : NodeId) (term : ℕ) : Message :=
  { type, fromId, toId, term
    campaignTerm := 0
    lastLogIndex := 0
    lastLogTerm := 0
    leaderCommit := 0
    previousLogIndex := 0
    previousLogTerm := 0
    matchIndex := 0
    rejectHint := 0
    entries := []
    granted := false
    contextId := 0 }

def command (index term : ℕ) (commandId : UInt64) : Entry :=
  { index, term, commandId, data := [] }

def confEntry (configuration : Conf) (index term : ℕ) : Entry :=
  (confEntryEncode configuration index term).toOption.getD zeroEntry

end RaftCoreHistories
