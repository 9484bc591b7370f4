import TurboRaft.RaftReplicationEffects

/-! # Local appends and the other calls under arbitrary inputs

The bodies of client calls and ticks, and the frame around every body. -/
namespace RaftOperationEffects

open RaftTypes RaftMembershipTransition RaftLog RaftCoreState RaftCoreEmit RaftCoreStep RaftCore
open RaftCluster RaftLogLemmas RaftTransitionLemmas RaftRefinement RaftEmission RaftCallRefinement
open RaftCoreProgress RaftCoreRuns RaftLogReconcile RaftOperations RaftReplicationEffects RaftOutbox

variable {log : Log} {entries : List Entry}

variable {F : Faith} {L : Log → Prop} {core core' core'' : Core} {call call' : Call}

structure Grown (core : Core) (entries : List Entry) (core' : Core) : Prop where
  inv : CoreInv core'
  apply : applyView core' = applyView core
  log : core'.log = { core.log with entries := core.log.entries ++ entries }
  commit : core'.commitIndex = core.commitIndex
  term : core'.term = core.term
  vote : core'.votedFor = core.votedFor
  settled : core'.membershipTransition.committed = core.membershipTransition.committed
  tracked : ∀ start, Tracked start core → Tracked start core'

theorem begun_grow (h : Begun call) (hgrown : Grown call.core entries core') :
    Effect F call.core ⟨core', { call.ready with logChanged := true, logEntries := entries }⟩ := by
  have hfrom : call.ready.logTruncateFrom = 0 := congrArg Report.logTruncateFrom h.report
  have hstill : call.ready.commitChanged = false := congrArg Report.commitChanged h.report
  constructor
  case inv => exact hgrown.inv
  case apply => exact hgrown.apply
  case commit_le => exact hgrown.commit.ge
  case base => rw [hgrown.log]
  case stored =>
    intro _
    constructor
    · rw [hgrown.log]
      dsimp only
      rw [hfrom]
      rfl
    · rw [hstill, hgrown.commit]
      rfl
    · rw [hgrown.log]
      rfl
    · rw [hgrown.log]
      rfl
  case kept =>
    intro _
    rw [hgrown.log]
    exact (committedEntries_initial call.core).trans (List.prefix_append _ _)
  case settled => exact fun _ => hgrown.settled
  case steady => exact fun _ => .of_same hgrown.term hgrown.vote
  case tracked =>
    intro _ _ start htracked
    refine ⟨hgrown.tracked start htracked, ?_⟩
    rw [crossed_nothing hgrown.commit]
    exact Nat.zero_le _
  case unoffered => exact congrArg Notice.committed h.quiet

theorem begun_afterAppend (h : Begun call) (hgrown : Grown call.core entries core')
    (hlogs : L core'.log) :
    ∃ next, afterAppend { call with core := core' } entries = (.ok, next) ∧
      Deed F L call.core next ∧ next.core.log = core'.log ∧ next.core.term = core'.term := by
  have hdeed : Deed F L call.core
      ⟨core', { call.ready with logChanged := true, logEntries := entries }⟩ :=
    ⟨begun_grow h hgrown, Or.inr hlogs⟩
  obtain ⟨committed, hupdate, hdeed, hlog, hterm⟩ := deed_updateCommit hdeed h.inv hgrown.commit
  have hsent : Emitted (fun _ => True) (fun _ => True) committed (broadcastReplication committed) :=
    broadcastReplication_emitted (speaks_anything _)
  have hview := (Inert.of_progressed hsent.core).view
  refine ⟨broadcastReplication committed, ?_, hdeed.emitted hsent,
    (congrArg CoreView.log hview).trans hlog, (congrArg CoreView.term hview).trans hterm⟩
  unfold RaftCoreStep.afterAppend
  rw [hupdate]

theorem begun_appended (h : Begun call) (hgrown : Grown call.core entries core')
    (hlogs : L { call.core.log with entries := call.core.log.entries ++ entries }) :
    Closing F L call.core (RaftCoreStep.afterAppend { call with core := core' } entries) := by
  obtain ⟨next, happend, hdeed, _⟩ := begun_afterAppend h hgrown (hgrown.log ▸ hlogs)
  rw [happend]
  exact .done hdeed

theorem Grown.matchSelf (h : Grown core entries core') (self : Option ℕ) (index : ℕ)
    : Grown core entries (matchSelf core' self index) := by
  cases self with
  | none => exact h
  | some self =>
    exact ⟨⟨h.inv.toLooseInv.carry rfl rfl rfl rfl rfl h.inv.campaign, h.inv.peers⟩, h.apply, h.log,
      h.commit, h.term, h.vote, h.settled, fun start htracked => (h.tracked start htracked).of_same rfl rfl rfl⟩

theorem pendingEntries_append (core' : Core) (hinv : CoreInv core)
    (hlog : core'.log = { core.log with entries := core.log.entries ++ entries })
    (hcommit : core'.commitIndex = core.commitIndex) :
    committedEntries core' = committedEntries core ∧
      pendingEntries core' = pendingEntries core ++ entries := by
  have hlast := logLastIndex_eq core.log
  have hle := hinv.commit_le
  unfold committedEntries pendingEntries
  rw [hlog, hcommit]
  dsimp only
  exact ⟨List.take_append_of_le_length (by omega), List.drop_append_of_le_length (by omega)⟩

theorem grown_commands (hinv : CoreInv core) {proposals : List Proposal}
    (hok : logAppendLocalBatch core.log core.term proposals = .ok (log, entries)) :
    Grown core entries { core with log } := by
  obtain ⟨rfl, _, _, hentries⟩ := logAppendLocalBatch_ok hok
  have hnumbered : Numbered (logLastIndex core.log) entries :=
    fun i e he => (hentries i e he).1.1
  have hcommands : confPairs entries = [] := by
    apply confPairs_commands
    intro e he
    obtain ⟨i, hi, hget⟩ := List.getElem_of_mem he
    exact (hentries i e (by rw [List.getElem?_eq_getElem hi, hget])).2.2
  constructor
  case inv =>
    exact { hinv with
      slots := hinv.slots.append hnumbered
      commit_le := hinv.commit_le.trans (by rw [logLastIndex_append]; exact Nat.le_add_right _ _) }
  case apply => rfl
  case log => rfl
  case commit => rfl
  case term => rfl
  case vote => rfl
  case settled => rfl
  case tracked =>
    intro start htracked
    obtain ⟨hcommitted, hpending⟩ := pendingEntries_append
      { core with log := { core.log with entries := core.log.entries ++ entries } } hinv rfl rfl
    constructor
    case named => exact htracked.named.append hnumbered
    case committed =>
      rw [hcommitted]
      exact htracked.committed
    case pending =>
      rw [hpending, confPairs_append, hcommands, List.append_nil]
      exact htracked.pending

theorem proposeBody_ending (h : Begun call) (proposals : List Proposal)
    (hlogs : ∀ log entries, logAppendLocalBatch call.core.log call.core.term proposals =
      .ok (log, entries) → L log) : Closing F L call.core (proposeBody proposals call) := by
  unfold proposeBody
  split_ifs
  · exact .refused Status.noConfusion rfl
  · exact .refused Status.noConfusion rfl
  · exact .refused Status.noConfusion rfl
  cases hbatch : logAppendLocalBatch call.core.log call.core.term proposals with
  | error status => exact h.unchanged status
  | ok result =>
    obtain ⟨log, entries⟩ := result
    have hlog := (logAppendLocalBatch_ok hbatch).1
    exact begun_appended h ((grown_commands h.inv hbatch).matchSelf _ _)
      (hlog ▸ hlogs log entries hbatch)

theorem grown_configuration (hinv : CoreInv core) {configuration : Conf}
    {staged : MembershipTransition} {peers : List NodeId} {entry : Entry}
    (hstage : membershipTransitionStage core.membershipTransition configuration
      (logLastIndex core.log + 1) = .ok staged) (hbuild : coreBuildPeerSet staged = .ok peers)
    (hok : logAppendConfiguration core.log core.term configuration = .ok (log, entry)) :
    Grown core [entry]
      (coreRefreshPeers { core with log, membershipTransition := staged } peers) := by
  obtain ⟨rfl, hdecode, hentry, _⟩ := logAppendConfiguration_ok hok
  have hnumbered : Numbered (logLastIndex core.log) [entry] := by
    intro i e he
    obtain ⟨rfl, rfl⟩ : i = 0 ∧ e = entry := by
      cases i with
      | zero => exact ⟨rfl, (Option.some.inj he).symm⟩
      | succ i => cases he
    exact hentry.1
  have hcommit := hinv.commit_le
  obtain ⟨hstaged, hsettled⟩ := hinv.transitionStaged.stage (by omega) hstage
  let grown : Core := { core with
    log := { core.log with entries := core.log.entries ++ [entry] }
    membershipTransition := staged }
  have hloose : LooseInv grown :=
    { hinv.toLooseInv with
      pending := hstaged.above
      ascending := hstaged.ascending
      slots := hinv.slots.append hnumbered
      commit_le := hcommit.trans (by rw [logLastIndex_append]; exact Nat.le_add_right _ _) }
  have hview := coreRefreshPeers_view grown peers
  constructor
  case inv => exact looseInv_refresh hloose hbuild
  case apply => exact coreRefreshPeers_apply _ _
  case log => exact congrArg CoreView.log hview
  case commit => exact congrArg CoreView.commitIndex hview
  case term => exact congrArg CoreView.term hview
  case vote => exact congrArg CoreView.votedFor hview
  case settled => exact (congrArg (·.transition.committed) hview).trans hsettled
  case tracked =>
    intro start htracked
    obtain ⟨hcommitted, hpending⟩ := pendingEntries_append (coreRefreshPeers grown peers) hinv
      (congrArg CoreView.log hview) (congrArg CoreView.commitIndex hview)
    have hbelow : ∀ p ∈ core.membershipTransition.pending, p.2 < logLastIndex core.log + 1 := by
      intro p hp
      rw [htracked.pending] at hp
      have hmem := ((List.drop_sublist _ _).filterMap _).subset hp
      have := (numbered_pair htracked.named hmem).2
      change p.2 < core.log.baseIndex + core.log.entries.length + 1
      omega
    obtain ⟨_, hstagedEq⟩ := membershipTransitionStage_above hbelow hstage
    have htransition : (coreRefreshPeers grown peers).membershipTransition = staged :=
      congrArg CoreView.transition hview
    constructor
    case named =>
      rw [show (coreRefreshPeers _ peers).log = _ from congrArg CoreView.log hview]
      exact htracked.named.append hnumbered
    case committed =>
      rw [htransition, hcommitted, hstagedEq]
      exact htracked.committed
    case pending =>
      rw [htransition, hpending, confPairs_append, confPairs_singleton_ok hdecode, hstagedEq,
        hentry.1, ← htracked.pending]

theorem coreAppendConfiguration_ending (h : Begun call) (configuration : Conf)
    (hlogs : ∀ configuration log entry, logAppendConfiguration call.core.log call.core.term
      configuration = .ok (log, entry) → L log) :
    Closing F L call.core (coreAppendConfiguration call configuration) := by
  unfold coreAppendConfiguration
  cases hstage : membershipTransitionStage call.core.membershipTransition configuration
      (logLastIndex call.core.log + 1) with
  | error status => exact h.unchanged status
  | ok staged =>
    dsimp only
    cases hbuild : coreBuildPeerSet staged with
    | error status => exact h.unchanged status
    | ok peers =>
      dsimp only
      split_ifs
      · exact .refused Status.noConfusion rfl
      cases happend : logAppendConfiguration call.core.log call.core.term configuration with
      | error status => exact h.unchanged status
      | ok result =>
        obtain ⟨log, entry⟩ := result
        have hlog := (logAppendConfiguration_ok happend).1
        exact begun_appended h ((grown_configuration h.inv hstage hbuild happend).matchSelf _ _)
          (hlog ▸ hlogs configuration log entry happend)

theorem changeMembershipBody_ending (h : Begun call) (change : MembershipChange)
    (hlogs : ∀ configuration log entry, logAppendConfiguration call.core.log call.core.term
      configuration = .ok (log, entry) → L log) :
    Closing F L call.core (changeMembershipBody change call) := by
  unfold changeMembershipBody
  split_ifs
  · exact .refused Status.noConfusion rfl
  · exact .refused Status.noConfusion rfl
  cases membershipTransitionPropose call.core.membershipTransition change.voters change.learners
      change.transitionId with
  | error status => exact h.unchanged status
  | ok joint => exact coreAppendConfiguration_ending h joint hlogs

section Ticks

variable {tick : Tick}

theorem agedCore_clock (core : Core) (ticks : ℕ) :
    applyView (agedCore core ticks) = applyView core ∧
      (agedCore core ticks).heartbeatElapsedTicks = core.heartbeatElapsedTicks ∧
      (agedCore core ticks).heartbeatTicks = core.heartbeatTicks := by
  unfold agedCore tickWindows tickTransfer tickQuorum
  split_ifs <;> exact ⟨rfl, rfl, rfl⟩

theorem agedCore_inert (core : Core) (ticks : ℕ) : Inert core (agedCore core ticks) := by
  refine ⟨?_, (agedCore_clock core ticks).1⟩
  unfold agedCore
  rw [tickWindows_view, tickTransfer_view, tickQuorum_view]

theorem tickLeader_eq (call : Call) (ticks : ℕ)
    (hkept : (tickReached call.core.checkQuorumElapsedTicks ticks call.core.electionTimeoutTicks &&
      !coreHasQuorum call.core call.core.recentActive) = false) :
    tickLeader call ticks = tickHeartbeat { call with core := agedCore call.core ticks } ticks
      (unpausedRemotePeerCount call.core) := by
  unfold tickLeader
  rw [hkept]
  rfl

theorem tickHeartbeat_ending {aged : Core} (h : Deed F L core { call with core := aged })
    {required : ℕ} (hticking : F.ticking tick call.ready.messageCapacity)
    (hmissed : tickReached aged.heartbeatElapsedTicks tick.elapsedTicks aged.heartbeatTicks = true →
      lacksCapacity call required = true →
      heartbeatMissed core tick call.ready.messageCapacity = true)
    (haged : aged = agedCore core tick.elapsedTicks) :
    Closing F L core (tickHeartbeat { call with core := aged } tick.elapsedTicks required) := by
  unfold tickHeartbeat
  split_ifs with hdue hfull
  · exact ⟨.aged tick _ hticking (hmissed hdue hfull) haged, fun hok => Status.noConfusion hok⟩
  · have hreset : Deed F L core { call with core := { aged with heartbeatElapsedTicks := 0 } } :=
      h.inert ⟨rfl, rfl⟩ rfl
    exact .done (hreset.emitted (broadcastReplication_emitted (speaks_anything _)))
  · exact .done (h.inert ⟨rfl, rfl⟩ rfl)

theorem tickElection_ending (h : Begun call) (tick : Tick) :
    Closing F L call.core (tickElection call tick) := by
  unfold tickElection
  split_ifs
  · exact .done (h.same.inert ⟨rfl, rfl⟩ rfl)
  · exact .refused Status.noConfusion rfl
  · exact .refused Status.noConfusion rfl
  · exact .done (h.startPreVote ((Moved.refl h.inv).inert ⟨rfl, rfl⟩) rfl)
  · exact .done (h.same.inert ⟨rfl, rfl⟩ rfl)

theorem tickBody_ending (h : Begun call)
    (hticking : F.ticking tick call.ready.messageCapacity)
    (hlogs : ∀ configuration log entry, logAppendConfiguration call.core.log call.core.term
      configuration = .ok (log, entry) → L log) :
    Closing F L call.core (tickBody tick call) := by
  unfold tickBody
  split_ifs with hvalid hrole hfinal
  · exact .refused Status.noConfusion rfl
  · unfold tickFinal
    cases membershipTransitionFinal call.core.membershipTransition with
    | error status => exact h.unchanged status
    | ok configuration => exact coreAppendConfiguration_ending h configuration hlogs
  · simp only [Bool.not_eq_true, Bool.not_eq_false'] at hvalid hfinal
    cases hlost : tickReached call.core.checkQuorumElapsedTicks tick.elapsedTicks
        call.core.electionTimeoutTicks && !coreHasQuorum call.core call.core.recentActive with
    | true =>
      unfold tickLeader
      rw [hlost]
      exact .done (h.follow _)
    | false =>
      obtain ⟨helapsed, hlimit⟩ := (agedCore_clock call.core tick.elapsedTicks).2
      have haged : Deed F L call.core
          { call with core := agedCore call.core tick.elapsedTicks } :=
        h.same.inert (agedCore_inert _ _) rfl
      have hmissed : tickReached (agedCore call.core tick.elapsedTicks).heartbeatElapsedTicks
          tick.elapsedTicks (agedCore call.core tick.elapsedTicks).heartbeatTicks = true →
          lacksCapacity call (unpausedRemotePeerCount call.core) = true →
          heartbeatMissed call.core tick call.ready.messageCapacity = true := by
        intro hdue hfull
        rw [helapsed, hlimit] at hdue
        unfold heartbeatMissed
        rw [hvalid, hrole, hfinal, hlost, hdue]
        exact hfull
      rw [tickLeader_eq call tick.elapsedTicks hlost]
      exact tickHeartbeat_ending haged hticking hmissed rfl
  · exact tickElection_ending h tick

end Ticks

theorem transferBody_ending (h : Begun call) (transferee : NodeId) (peer : ℕ) :
    Closing F L call.core (transferBody transferee peer call) := by
  unfold transferBody
  split_ifs
  · exact .refused Status.noConfusion rfl
  · exact .refused Status.noConfusion rfl
  · exact .refused Status.noConfusion rfl
  · have htargeted : Deed F L call.core { call with core :=
        { call.core with
          leadershipTransferTarget := transferee
          leadershipTransferElapsedTicks := 0 } } := h.same.inert ⟨rfl, rfl⟩ rfl
    unfold startTransfer
    split_ifs
    · exact .done ((htargeted.emitted emit_anything).inert ⟨rfl, rfl⟩ rfl)
    · exact .done ((htargeted.emitted
        (emitReplication_emitted (speaks_anything _) trivial false)).inert ⟨rfl, rfl⟩ rfl)

theorem pollBody_ending (h : Begun call) : Closing F L call.core (pollBody call) := by
  unfold pollBody
  split_ifs
  · exact .refused Status.noConfusion rfl
  · apply Closing.done
    apply Deed.emitted _ (fillReplicationWindows_emitted fun _ => speaks_anything _)
    apply readStartActiveBarrier_effect
    exact h.same.inert ⟨rfl, rfl⟩ rfl
  · exact .done (h.same.emitted (fillReplicationWindows_emitted fun _ => speaks_anything _))

theorem snapshotCompletedBody_ending (h : Begun call) (peer snapshotIndex : ℕ) :
    Closing F L call.core (snapshotCompletedBody peer snapshotIndex call) := by
  have hrestarted : Deed F L call.core
      { call with core := restartPeer call.core peer snapshotIndex } :=
    h.moved ((Moved.refl h.inv).restartPeer _ _)
  unfold snapshotCompletedBody
  generalize (if peerIndexPaused call.core peer = true then 0 else 1) = required
  split_ifs
  · exact .refused Status.noConfusion rfl
  · exact .refused Status.noConfusion rfl
  · exact .done (hrestarted.emitted
      (fillPeerReplicationWindow_emitted (speaks_anything _) trivial))

section Frame

variable {capacity : ℕ}

/-- What a successful call did, seen by its host: the effect of its body, and the committed
entries that it hands out. -/
structure Called (F : Faith) (core : Core) (call : Call) : Prop where
  resting : Resting call.core
  commit_le : core.commitIndex ≤ call.core.commitIndex
  base : call.core.log.baseIndex = core.log.baseIndex
  applied : call.core.appliedIndex = core.appliedIndex
  admitted : call.core.applyAdmittedIndex = core.applyAdmittedIndex
  offered : call.ready.committedEntries = logSlice call.core.log
    (call.core.applyAdmittedIndex + 1) (call.core.commitIndex - call.core.applyAdmittedIndex)
  handed : call.core.pendingApplyIndex =
    if call.core.applyAdmittedIndex < call.core.commitIndex then call.core.commitIndex else 0
  stored : F.numbered → persistReady (mirrorOf core) call.ready = mirrorOf call.core
  kept : F.numbered → committedEntries core <+: call.core.log.entries
  settled : call.core.commitIndex = core.commitIndex →
    call.core.membershipTransition.committed = core.membershipTransition.committed
  steady : F.campaigned → KeepsVote core call.core
  tracked : F.numbered → F.reaching → ∀ start, Tracked start core →
    Tracked start call.core ∧ (confPairs (crossed core call.core)).length ≤ 1

inductive Finished (F : Faith) (core : Core) : Status × Call → Prop where
  | done {call : Call} (called : Called F core call) : Finished F core (.ok, call)
  | refused {status : Status} {call : Call} (status_ne : status ≠ .ok)
      (same : call.core = core) : Finished F core (status, call)
  | aged {call : Call} (tick : Tick) (capacity : ℕ) (ticking : F.ticking tick capacity)
      (missed : heartbeatMissed core tick capacity = true)
      (same : call.core = agedCore core tick.elapsedTicks) : Finished F core (.enospc, call)

def Completed (F : Faith) (L : Log → Prop) (core : Core) (result : Status × Call) : Prop :=
  Finished F core result ∧ (result.1 = .ok → result.2.core.log = core.log ∨ L result.2.core.log)

theorem Finished.called_or_inert {result : Status × Call} (h : Finished F core result) :
    (result.1 = .ok ∧ Called F core result.2) ∨ (result.1 ≠ .ok ∧ Inert core result.2.core) := by
  cases h with
  | done hcalled => exact Or.inl ⟨rfl, hcalled⟩
  | refused hstatus hsame =>
    right
    rw [hsame]
    exact ⟨hstatus, .refl core⟩
  | aged tick _ _ _ hsame =>
    right
    rw [hsame]
    exact ⟨Status.noConfusion, agedCore_inert core tick.elapsedTicks⟩

theorem beginCall_begun (h : CoreInv core) : Begun (beginCall core capacity) where
  inv := { h with }
  quiet := rfl

theorem logSlice_pending (h : CoreInv core) (hwaits : core.applyAdmittedIndex < core.commitIndex) :
    (logSlice core.log (core.applyAdmittedIndex + 1)
      (core.commitIndex - core.applyAdmittedIndex)).length ≠ 0 := by
  have hlast := logLastIndex_eq core.log
  have hbase := h.base_le
  have happlied := h.applied_le
  have hcommit := h.commit_le
  unfold logSlice
  rw [List.length_take, List.length_drop]
  omega

theorem admitCommitted_core (call : Call) :
    (admitCommitted call).core = { call.core with pendingApplyIndex :=
        if call.core.applyAdmittedIndex < call.core.commitIndex then call.core.commitIndex
        else call.core.pendingApplyIndex } := by
  unfold admitCommitted
  split_ifs <;> rfl

theorem admitCommitted_entries (call : Call) (hready : call.ready.committedEntries = []) :
    (admitCommitted call).ready.committedEntries = logSlice call.core.log
      (call.core.applyAdmittedIndex + 1) (call.core.commitIndex - call.core.applyAdmittedIndex) := by
  unfold admitCommitted
  split_ifs with hwaits
  · rfl
  · rw [Nat.sub_eq_zero_of_le (by omega), hready]
    exact (List.take_zero).symm

theorem readyHasEffects_committed {ready : Ready} (h : ready.committedEntries.length ≠ 0) :
    readyHasEffects ready = true := by
  unfold readyHasEffects
  simp [List.length_eq_zero_iff.not.mp h]

theorem finish_stored (hstored : Stored (mirrorOf core) call) :
    persistReady (mirrorOf core) (finish (beforeOf core) call).ready =
      mirrorOf (finish (beforeOf core) call).core := by
  have hdurable : Durable (persistReady (mirrorOf core) (finish (beforeOf core) call).ready)
      (finish (beforeOf core) call).core := finish_durable hstored rfl rfl
  exact (Disk.mk.injEq ..).mpr ⟨hdurable.term, hdurable.votedFor, hdurable.base,
    hdurable.baseTerm, rfl, hdurable.entries, hdurable.commit⟩

theorem finish_core (before : Before) (call : Call) :
    (finish before call).core = { call.core with
      pendingApplyIndex :=
        if call.core.applyAdmittedIndex < call.core.commitIndex then call.core.commitIndex
        else call.core.pendingApplyIndex
      readyOutstanding := readyHasEffects (finish before call).ready
      inCall := false } := by
  unfold finish
  dsimp only
  rw [admitCommitted_core]

theorem finish_called (h : Resting core) (hfree : core.readyOutstanding = false)
    (heffect : Effect F (beginCall core capacity).core call) :
    Called F core (finish (beforeOf core) call) := by
  have hcore := finish_core (beforeOf core) call
  have happlied : call.core.appliedIndex = core.appliedIndex :=
    congrArg ApplyView.appliedIndex heffect.apply
  have hadmitted : call.core.applyAdmittedIndex = core.applyAdmittedIndex :=
    congrArg ApplyView.applyAdmittedIndex heffect.apply
  have hwaiting : call.core.pendingApplyIndex = 0 :=
    (congrArg ApplyView.pendingApplyIndex heffect.apply).trans (h.free hfree)
  have hentries : (finish (beforeOf core) call).ready.committedEntries = logSlice call.core.log
      (call.core.applyAdmittedIndex + 1) (call.core.commitIndex - call.core.applyAdmittedIndex) :=
    admitCommitted_entries call heffect.unoffered
  rw [hwaiting] at hcore
  constructor
  case resting =>
    rw [hcore]
    refine ⟨⟨heffect.inv.toLooseInv.carry rfl rfl rfl rfl rfl heffect.inv.campaign,
      heffect.inv.peers⟩, rfl, ?_⟩
    intro hhanded
    split_ifs at hhanded ⊢ with hwaits
    · refine ⟨rfl, readyHasEffects_committed ?_⟩
      rw [hentries]
      exact logSlice_pending heffect.inv hwaits
    · exact absurd rfl hhanded
  case commit_le => rw [hcore]; exact heffect.commit_le
  case base => rw [hcore]; exact heffect.base
  case applied => rw [hcore]; exact happlied
  case admitted => rw [hcore]; exact hadmitted
  case offered => rw [hcore]; exact hentries
  case handed => rw [hcore]
  case stored => exact fun hf => finish_stored (heffect.stored hf)
  case kept =>
    intro hf
    rw [hcore]
    exact heffect.kept hf
  case settled =>
    rw [hcore]
    exact heffect.settled
  case steady =>
    intro hc
    rw [hcore]
    exact (heffect.steady hc).then_same rfl rfl
  case tracked =>
    intro hf hr start htracked
    obtain ⟨hnext, hcrossed⟩ := heffect.tracked hf hr start (htracked.of_same rfl rfl rfl)
    rw [hcore]
    exact ⟨hnext.of_same rfl rfl rfl, hcrossed⟩

theorem agedCore_inCall (core : Core) (ticks : ℕ) (b : Bool) :
    agedCore { core with inCall := b } ticks = { agedCore core ticks with inCall := b } := by
  have hquorum : tickQuorum { core with inCall := b } ticks =
      { tickQuorum core ticks with inCall := b } := by
    unfold tickQuorum
    split_ifs <;> rfl
  have htransfer : ∀ core', tickTransfer { core' with inCall := b } ticks =
      { tickTransfer core' ticks with inCall := b } := by
    intro core'
    unfold tickTransfer
    split_ifs <;> rfl
  unfold agedCore
  rw [hquorum, htransfer]
  rfl

theorem idle_again (h : core.inCall = false) : { core with inCall := false } = core := by
  rw [← h]

theorem abandonCall_aged (hidle : core.inCall = false) {ticks : ℕ}
    (hsame : call.core = agedCore (beginCall core capacity).core ticks) :
    (abandonCall call).core = agedCore core ticks := by
  have hidle' : (agedCore core ticks).inCall = false :=
    (congrArg ApplyView.inCall (agedCore_inert core ticks).apply).trans hidle
  unfold abandonCall
  dsimp only
  rw [hsame]
  change { agedCore { core with inCall := true } ticks with inCall := false } = _
  rw [agedCore_inCall]
  exact idle_again hidle'

theorem runCall_ok {body : Call → Status × Call} (h : runCall core capacity body = (.ok, call)) :
    ∃ next, body (beginCall core capacity) = (.ok, next) ∧ call = finish (beforeOf core) next := by
  unfold runCall at h
  split_ifs at h
  · cases h
  cases hbody : body (beginCall core capacity) with
  | mk status next =>
    rw [hbody] at h
    cases status <;> cases h
    exact ⟨next, rfl, rfl⟩

theorem runCall_finished (h : Resting core) {body : Call → Status × Call}
    (hbody : Begun (beginCall core capacity) →
      Closing F L (beginCall core capacity).core (body (beginCall core capacity))) :
    Completed F L core (runCall core capacity body) := by
  unfold runCall
  by_cases hrefused : beginRefused core = true
  · rw [if_pos hrefused]
    exact ⟨.refused Status.noConfusion rfl, fun hok => Status.noConfusion hok⟩
  rw [if_neg hrefused]
  have hfree : core.readyOutstanding = false := by
    unfold beginRefused at hrefused
    simp only [Bool.or_eq_true, not_or, Bool.not_eq_true] at hrefused
    exact hrefused.2
  obtain ⟨hending, hlog⟩ := hbody (beginCall_begun h.toCoreInv)
  generalize body (beginCall core capacity) = result at hending hlog
  cases hending with
  | done heffect =>
    refine ⟨.done (finish_called h hfree heffect), fun _ => ?_⟩
    rw [finish_core]
    exact hlog rfl
  | @refused status call hstatus hsame =>
    have hsettled : (abandonCall call).core = core := by
      unfold abandonCall
      rw [hsame]
      exact idle_again h.idle
    cases status with
    | ok => exact absurd rfl hstatus
    | _ => exact ⟨.refused hstatus hsettled, fun hok => absurd hok hstatus⟩
  | aged tick capacity hticking hmissed hsame =>
    exact ⟨.aged tick capacity hticking hmissed (abandonCall_aged h.idle hsame),
      fun hok => Status.noConfusion hok⟩

end Frame

variable {capacity : ℕ}

theorem coreStep_ran {m : Message} (h : coreStep core m capacity = (.ok, call)) :
    ∃ peer, runCall core capacity (stepBody m peer) = (.ok, call) := by
  unfold coreStep refuse at h
  cases hpeer : peerIndex core m.fromId with rw [hpeer] at h
  | none =>
    split_ifs at h <;> cases h
  | some peer =>
    split_ifs at h
    · cases h
    · cases h
    · exact ⟨peer, h⟩

theorem performOperation_ran {operation : Operation}
    (h : performOperation core operation capacity = (.ok, call)) :
    match operation with
    | .tick tick => runCall core capacity (tickBody tick) = (.ok, call)
    | .propose proposals => runCall core capacity (proposeBody proposals) = (.ok, call)
    | .changeMembership change => runCall core capacity (changeMembershipBody change) = (.ok, call)
    | .transferLeadership transferee =>
      ∃ peer, runCall core capacity (transferBody transferee peer) = (.ok, call)
    | .readIndex contextId => runCall core capacity (readIndexBody contextId) = (.ok, call)
    | .poll => runCall core capacity pollBody = (.ok, call)
    | .snapshotCompleted _ index =>
      ∃ peer, runCall core capacity (snapshotCompletedBody peer index) = (.ok, call) := by
  cases operation with
  | poll => exact h
  | transferLeadership transferee =>
    dsimp only [performOperation, coreTransferLeadership, refuse] at h ⊢
    cases hpeer : voterIndex core transferee with rw [hpeer] at h
    | none =>
      split_ifs at h <;> cases h
    | some peer =>
      split_ifs at h
      · cases h
      · exact ⟨peer, h⟩
  | snapshotCompleted nodeId index =>
    dsimp only [performOperation, coreSnapshotCompleted, refuse] at h ⊢
    cases hpeer : peerIndex core nodeId with rw [hpeer] at h
    | none =>
      split_ifs at h <;> cases h
    | some peer =>
      split_ifs at h
      · cases h
      · cases h
      · exact ⟨peer, h⟩
  | _ =>
    dsimp only [performOperation, coreTick, coreProposeBatch, coreChangeMembership, coreReadIndex,
      refuse] at h ⊢
    split_ifs at h
    · cases h
    · exact h

end RaftOperationEffects
