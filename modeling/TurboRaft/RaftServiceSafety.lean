import TurboRaft.RaftLogSteps
import TurboRaft.RaftReadLoad
import TurboRaft.RaftReadyDelivery
import TurboRaft.RaftReload
import TurboRaft.RaftServiceRules

/-! # A service whose callbacks do what they are asked to

A service turns every refusal inside of an operation into a fault that lasts. With willing
callbacks nothing is refused, except for three things: a snapshot that is forced while committed
entries wait to be applied, a compaction that the journal carries out only after the core has moved
on, and a durable state that recovery does not accept. -/
namespace RaftServiceSafety

open RaftTypes RaftLog RaftCoreState RaftCoreEmit RaftCore RaftCluster RaftRefinement RaftCoreRuns
open RaftRuntime RaftService RaftLogContracts RaftReload RaftCallConduct RaftCallRefinement
open RaftCoreHistories RaftLeaderConduct RaftLogReconcile RaftLogSteps RaftOperationEffects
open RaftOrder RaftReadLoad RaftRecovery RaftRuntimeRules RaftServiceRules

variable {σ : Type} {prompt : Prop} {host : ServiceHost σ} {service : Service σ} {core : Core}
  {call : Call}

section Cores

variable {input : Input} {config : CoreConfig} {before : Core}

theorem runCall_reported {body : Call → Status × Call} {capacity : ℕ}
    (h : runCall core capacity body = (.ok, call)) :
    call.core.readyOutstanding = readyHasEffects call.ready := by
  obtain ⟨next, -, rfl⟩ := runCall_ok h
  rw [finish_core]

/-- A core waits for the acknowledgement of a Ready exactly if the Ready has effects. -/
theorem perform_reported (hcall : isCall input = true)
    (h : perform core input = (.ok, call)) :
    call.core.readyOutstanding = readyHasEffects call.ready := by
  cases input with
  | step m capacity => exact runCall_reported (coreStep_ran h).choose_spec
  | call operation capacity =>
    have hran := performOperation_ran h
    cases operation with
    | transferLeadership | snapshotCompleted => exact runCall_reported hran.choose_spec
    | _ => exact runCall_reported hran
  | _ => cases hcall

theorem logStep_base {log : Log} (h : LogStep core input log)
    (hresting : Resting core) :
    log.baseIndex = core.log.baseIndex ∧ log.baseTerm = core.log.baseTerm := by
  cases h with
  | kept => exact ⟨rfl, rfl⟩
  | taken _ hreconciled =>
    have := logReconcile_reconciled hresting.slots hresting.commit_le hreconciled
    exact ⟨this.base, this.baseTerm⟩
  | proposed happended =>
    rw [(RaftLogLemmas.logAppendLocalBatch_ok happended).1]
    exact ⟨rfl, rfl⟩
  | configured happended =>
    rw [(RaftLogLemmas.logAppendConfiguration_ok happended).1]
    exact ⟨rfl, rfl⟩

structure Level (core : Core) : Prop where
  resting : Resting core
  orderly : Orderly core
  log : LogOk core.log
  free : core.readyOutstanding = false
  admitted : core.applyAdmittedIndex = core.appliedIndex

theorem Level.created (h : coreCreate config = .ok core) (hlog : LogOk core.log) : Level core := by
  obtain ⟨hadmitted, hfree⟩ := coreCreate_fresh h
  exact ⟨coreCreate_resting h, coreCreate_orderly h, hlog, hfree, hadmitted⟩

/-- The snapshot point depends on the applied entry and on the committed configuration only. -/
theorem Level.point (h : Level core) (h' : Level before)
    (happlied : core.appliedIndex = before.appliedIndex)
    (hcommit : core.commitIndex = before.commitIndex)
    (hbase : core.log.baseIndex = before.log.baseIndex)
    (hget : logGet core.log before.appliedIndex = logGet before.log before.appliedIndex)
    (hsettled : core.membershipTransition.committed = before.membershipTransition.committed) :
    coreSnapshotPoint core = coreSnapshotPoint before := by
  unfold coreSnapshotPoint coreMembership
  rw [h.resting.idle, h'.resting.idle, h.free, h'.free, happlied, hcommit, hbase, hget, hsettled]

theorem readTotalCount_created (h : coreCreate config = .ok core) :
    readTotalCount core = 0 := by
  obtain ⟨hcontexts, hwaiting⟩ := (coreCreate_orderly h).reading (by
    rw [coreCreate_follower h]
    exact Role.noConfusion)
  rw [readTotalCount, hcontexts, hwaiting]
  rfl

structure Answered (core : Core) (input : Input) (call : Call) : Prop where
  resting : Resting call.core
  orderly : Orderly call.core
  log : LogOk call.core.log
  admitted : call.core.applyAdmittedIndex = call.core.appliedIndex
  applied : call.core.appliedIndex = core.appliedIndex
  reported : call.core.readyOutstanding = readyHasEffects call.ready
  handed : call.core.pendingApplyIndex =
    if call.core.applyAdmittedIndex < call.core.commitIndex then call.core.commitIndex else 0
  load : readLoad call ≤ readTotalCount core + readsAdded input
  base : call.core.log.baseIndex = core.log.baseIndex ∧
    call.core.log.baseTerm = core.log.baseTerm
  commit_le : core.commitIndex ≤ call.core.commitIndex
  kept : committedEntries core <+: call.core.log.entries
  settled : call.core.commitIndex = core.commitIndex →
    call.core.membershipTransition.committed = core.membershipTransition.committed

theorem Level.answered (h : Level core) (hcall : isCall input = true)
    (hinput : inputVetted core input = true) (hok : perform core input = (.ok, call)) :
    Answered core input call := by
  have hfinished := perform_finished h.resting hcall
  have horderly := perform_orderly h.resting h.orderly input
  have hlog := perform_log h.resting hcall
  rw [hok] at hfinished horderly hlog
  cases hfinished with
  | refused hne => exact absurd rfl hne
  | done hcalled =>
    refine ⟨hcalled.resting, horderly, logStep_ok hlog h.log hinput, ?_, hcalled.applied,
      perform_reported hcall hok, hcalled.handed, perform_readLoad h.resting h.orderly hcall hok,
      logStep_base hlog h.resting, hcalled.commit_le, hcalled.kept (inputVetted_numbered hinput),
      hcalled.settled⟩
    rw [hcalled.admitted, hcalled.applied]
    exact h.admitted

theorem Level.failed (h : Level core) {input : Input} (hcall : isCall input = true)
    (hne : (perform core input).1 ≠ .ok) :
    Level (perform core input).2.core ∧ (perform core input).2.core.log = core.log ∧
      readTotalCount (perform core input).2.core = readTotalCount core ∧
      coreSnapshotPoint (perform core input).2.core = coreSnapshotPoint core := by
  have hfinished := perform_finished h.resting hcall
  have horderly := perform_orderly h.resting h.orderly input
  have hresting := perform_resting h.resting input
  generalize perform core input = result at hfinished horderly hne hresting
  cases hfinished with
  | done hcalled => exact absurd rfl hne
  | refused _ hsame =>
    dsimp only
    rw [hsame]
    exact ⟨h, rfl, rfl, rfl⟩
  | aged tick _ _ _ hsame =>
    have hinert := agedCore_inert core tick.elapsedTicks
    have hlog : (agedCore core tick.elapsedTicks).log = core.log := congrArg CoreView.log hinert.view
    have happlied : (agedCore core tick.elapsedTicks).appliedIndex = core.appliedIndex :=
      congrArg ApplyView.appliedIndex hinert.apply
    dsimp only at hresting horderly ⊢
    rw [hsame] at hresting horderly ⊢
    have hlevel : Level (agedCore core tick.elapsedTicks) := by
      refine ⟨hresting, horderly, hlog ▸ h.log, ?_, ?_⟩
      · exact (congrArg ApplyView.readyOutstanding hinert.apply).trans h.free
      · exact (congrArg ApplyView.applyAdmittedIndex hinert.apply).trans
          (h.admitted.trans happlied.symm)
    refine ⟨hlevel, hlog, readTotalCount_view (agedCore_reads core _), ?_⟩
    exact hlevel.point h happlied (congrArg CoreView.commitIndex hinert.view) (by rw [hlog])
      (by rw [hlog]) (congrArg (·.transition.committed) hinert.view)

/-- Without effects everything committed has been applied before. -/
theorem Answered.quiet (h : Answered before input call)
    (heffects : readyHasEffects call.ready = false) :
    call.core.commitIndex = before.appliedIndex := by
  have hhanded := h.handed
  have hle := h.resting.admitted_le
  rw [h.admitted, h.applied] at hhanded hle
  split_ifs at hhanded with hbehind
  · have hwaits := (h.resting.handed (by omega)).2
    rw [h.reported, heffects] at hwaits
    cases hwaits
  · omega

/-- A snapshot point stays where it is as long as nothing else is committed. -/
theorem Answered.point (h : Answered before input call) (hlevel : Level before)
    {point : SnapshotPoint} (hpoint : coreSnapshotPoint before = .ok point) (hnow : Level core)
    (hlog : core.log = call.core.log) (hcommit : core.commitIndex = call.core.commitIndex)
    (happlied : core.appliedIndex = before.appliedIndex)
    (htransition : core.membershipTransition = call.core.membershipTransition)
    (hstill : call.core.commitIndex = before.appliedIndex) :
    coreSnapshotPoint core = .ok point := by
  rcases coreSnapshotPoint_cases before with ⟨_, herror, _⟩ | ⟨_, _, _, _, hall, habove, _⟩
  · cases herror.symm.trans hpoint
  have hsame : call.core.commitIndex = before.commitIndex := hstill.trans hall
  rw [← hpoint]
  refine hnow.point hlevel happlied (hcommit.trans hsame) (by rw [hlog]; exact h.base.1) ?_ ?_
  · rw [hlog, hall]
    exact RaftReadyDelivery.logGet_kept hlevel.resting.toCoreInv h.commit_le h.resting.commit_le
      h.base.1 h.kept habove le_rfl
  · rw [htransition]
    exact h.settled hsame

theorem Answered.advances (h : Answered before input call)
    (heffects : readyHasEffects call.ready = true) :
    coreAdvance call.core = (.ok, { call.core with
      applyAdmittedIndex := call.core.commitIndex
      appliedIndex := call.core.commitIndex
      pendingApplyIndex := 0
      readyOutstanding := false }) := by
  have hout := h.reported.trans heffects
  have hle := h.resting.admitted_le
  have hidle := h.resting.idle
  have hadmitted := h.admitted
  have hhanded := h.handed
  unfold coreAdvance
  generalize call.core = core at hout hle hidle hadmitted hhanded
  obtain ⟨⟩ := core
  dsimp only at hout hle hidle hadmitted hhanded ⊢
  subst hout hidle hadmitted
  split_ifs at hhanded with hbehind
  · subst hhanded
    have hsome : (_ : ℕ) ≠ 0 := (Nat.zero_lt_of_lt hbehind).ne'
    simp [hsome, hle]
  · subst hhanded
    have heq := le_antisymm hle (not_lt.mp hbehind)
    subst heq
    simp

theorem Answered.level (h : Answered before input call)
    (heffects : readyHasEffects call.ready = true) :
    Level (coreAdvance call.core).2 ∧
      (coreAdvance call.core).2.appliedIndex = (coreAdvance call.core).2.commitIndex := by
  have hadvanced := h.advances heffects
  have hresting := perform_resting h.resting .advance
  have horderly := perform_orderly h.resting h.orderly .advance
  change Resting (coreAdvance call.core).2 at hresting
  change Orderly (coreAdvance call.core).2 at horderly
  rw [hadvanced] at hresting horderly ⊢
  exact ⟨⟨hresting, horderly, h.log, rfl, rfl⟩, rfl⟩

end Cores

/-- Snapshots succeed within the limits of their policy. -/
def makesSnapshots (policy : SnapshotPolicy σ) : Prop :=
  match policy.maker with
  | .streaming create store =>
    (∀ index state, (create index state).1 = .ok ∧ (create index state).2.1.readable = true ∧
      (create index state).2.1.size ≤ policy.maxSnapshotBytes) ∧
    ∀ point source state, (store point source state).1 = .ok
  | .buffered create store =>
    (∀ index room state, (create index room state).1 = .ok ∧ (create index room state).2.1 ≤ room) ∧
    ∀ point size state, (store point size state).1 = .ok

def serves (storage : Storage σ) : Prop := ∀ step state, (storage step state).1 = .ok

/-- Callbacks that always answer OK; a journal that is not prompt may also report an I/O error. -/
structure Obliging (prompt : Prop) (host : ServiceHost σ) : Prop where
  messages : ∃ send, host.enqueue = some send ∧ ∀ message state, (send message state).1 = .ok
  snapshots : ∃ send, host.enqueueSnapshot = some send ∧
    ∀ request state, (send request state).1 = .ok
  applies : ∃ apply, host.applyBatch = some apply ∧ ∀ entries state, (apply entries state).1 = .ok
  makes : ∀ policy ∈ host.policy, makesSnapshots policy
  journal : ∀ policy ∈ host.policy, ∀ compact ∈ policy.journalCompact, ∀ index term state,
    (compact index term state).1 = .ok ∨ (¬prompt ∧ (compact index term state).1 = .eio)

theorem makeSnapshot_ok {policy : SnapshotPolicy σ} (h : makesSnapshots policy)
    (point : SnapshotPoint) (state : σ) : (makeSnapshot policy point state).1 = .ok := by
  unfold makesSnapshots at h
  unfold makeSnapshot
  cases hmaker : policy.maker with rw [hmaker] at h
  | streaming create store =>
    obtain ⟨hok, hreadable, hsize⟩ := h.1 point.index state
    dsimp only
    rw [if_neg (not_not.mpr hok), hreadable, if_neg (by simpa using hsize)]
    exact h.2 _ _ _
  | buffered create store =>
    obtain ⟨hok, hsize⟩ := h.1 point.index policy.maxBufferedSnapshotBytes state
    dsimp only
    rw [if_neg (not_not.mpr hok), if_neg (not_lt.mpr hsize)]
    exact h.2 _ _ _

def journalAnswers (answers : List HostAnswer) : List (ℕ × ℕ × Status) :=
  answers.filterMap fun
    | .journal index term status => some (index, term, status)
    | _ => none

def settledPoint (ledger : List (ℕ × ℕ × Status)) : Option (ℕ × ℕ) :=
  ((ledger.filter fun answer => answer.2.2 == .ok).getLast?).map fun answer => (answer.1, answer.2.1)

theorem journalAnswers_append (answers more : List HostAnswer) :
    journalAnswers (answers ++ more) = journalAnswers answers ++ journalAnswers more :=
  List.filterMap_append

/-- Nothing waits for the transport, and the journal has not been asked. -/
def Calm (ledger : List (ℕ × ℕ × Status)) (staging : Staging σ) : Prop :=
  staging.deliveries = blankDeliveries ∧ journalAnswers staging.answers = ledger

theorem pausedSlot_blank (peerId : NodeId) : pausedSlot blankDeliveries peerId = none := by
  unfold pausedSlot
  cases findDelivery blankDeliveries peerId <;> rfl

variable {ledger : List (ℕ × ℕ × Status)}

theorem enqueueParcel_willing (peerId : NodeId) {send : σ → Status × σ}
    (hsend : ∀ state, (send state).1 = .ok)
    (stage : Deliveries → Fin maxMembers → Status × Deliveries) :
    CallbackKeeps (· = .ok) (Unmoved core (Calm ledger))
      (enqueueParcel peerId (some send) stage) := by
  rintro _ staging ⟨rfl, hcalm⟩
  unfold enqueueParcel
  rw [hcalm.1, pausedSlot_blank]
  dsimp only
  rw [hsend]
  exact ⟨⟨rfl, rfl, hcalm.2⟩, rfl⟩

theorem serviceHandlers_willing (hhost : Obliging prompt host) {storage : Storage σ}
    (hstorage : serves storage) (ledger : List (ℕ × ℕ × Status)) :
    HandlersWilling (Calm ledger) (serviceHandlers host (some storage)) := by
  obtain ⟨send, hmessages, hsend⟩ := hhost.messages
  obtain ⟨request, hsnapshots, hrequest⟩ := hhost.snapshots
  obtain ⟨apply, happlies, happly⟩ := hhost.applies
  refine fun core => ⟨?_, ?_, ?_, ?_, ?_⟩
  · rintro _ ⟨⟩ step _ staging hcalm
    exact ⟨hcalm, hstorage step staging.host⟩
  · rintro _ ⟨⟩ message
    unfold enqueueMessage
    rw [hmessages]
    exact enqueueParcel_willing _ (hsend message) _
  · rintro _ ⟨⟩ snapshot
    unfold enqueueSnapshot
    rw [hsnapshots]
    exact enqueueParcel_willing _ (hrequest snapshot) _
  · intro call hcall entries _ staging hcalm
    obtain ⟨_, hsome, rfl⟩ := Option.map_eq_some_iff.mp hcall
    cases happlies.symm.trans hsome
    refine ⟨⟨hcalm.1, hcalm.2.1, ?_⟩, happly entries staging.host⟩
    exact (journalAnswers_append _ _).trans ((List.append_nil _).trans hcalm.2.2)
  · simp [complete, serviceHandlers, happlies]

section Snapshots

variable {policy : SnapshotPolicy σ}

/-- A journal that did not answer OK is asked about the same point again. -/
def sameUntilOk (answer next : ℕ × ℕ × Status) : Prop :=
  answer.2.2 ≠ .ok → next.1 = answer.1 ∧ next.2.1 = answer.2.1

def Journaled (host : ServiceHost σ) : Prop :=
  ∃ policy compact, host.policy = some policy ∧ policy.journalCompact = some compact

/-- The part of a service that its operations leave ready for the next one. -/
structure Serviceable (service : Service σ) : Prop extends Level service.core where
  fault : service.fault = none
  runtime : service.runtime = .fresh
  storage : ∃ storage, service.storage = some storage ∧ serves storage
  idle : service.staging.deliveries = blankDeliveries
  reads : service.readStates.length + readTotalCount service.core ≤ service.maxCompletedReads

/-- What the journal has answered so far, against the point that waits for it and the core. -/
structure Attended (prompt : Prop) (host : ServiceHost σ) (pending : Option SnapshotPoint)
    (ledger : List (ℕ × ℕ × Status)) (core : Core) : Prop where
  waiting : ∀ point ∈ pending, ¬prompt ∧ Journaled host ∧
    ledger.getLast? = some (point.index, point.term, .eio) ∧ coreSnapshotPoint core = .ok point
  done : pending = none → ∀ answer ∈ ledger.getLast?, answer.2.2 = .ok
  retried : ledger.IsChain sameUntilOk
  settled : ∀ index term, settledPoint ledger = some (index, term) →
    Journaled host ∧ core.log.baseIndex = index ∧ core.log.baseTerm = term

structure Sound (prompt : Prop) (host : ServiceHost σ) (service : Service σ) : Prop extends
    Serviceable service where
  attended : Attended prompt host service.pendingSnapshot
    (journalAnswers service.staging.answers) service.core

theorem Attended.move {pending : Option SnapshotPoint} {core' : Core}
    (h : Attended prompt host pending ledger core)
    (hindex : core'.log.baseIndex = core.log.baseIndex)
    (hterm : core'.log.baseTerm = core.log.baseTerm)
    (hpoint : ∀ point ∈ pending, coreSnapshotPoint core = .ok point →
      coreSnapshotPoint core' = .ok point) :
    Attended prompt host pending ledger core' := by
  refine ⟨fun point hpending => ?_, h.done, h.retried, fun index term hsettled => ?_⟩
  · obtain ⟨hlate, hjournaled, hlast, hcurrent⟩ := h.waiting point hpending
    exact ⟨hlate, hjournaled, hlast, hpoint point hpending hcurrent⟩
  · rw [hindex, hterm]
    exact h.settled index term hsettled

theorem coreSnapshotPoint_level (h : Level core) (happlied : core.appliedIndex = core.commitIndex)
    (habove : core.appliedIndex ≠ core.log.baseIndex) :
    ∃ point, coreSnapshotPoint core = .ok point := by
  have hbase := h.resting.base_le
  have hlast : core.commitIndex ≤ core.log.baseIndex + core.log.entries.length := h.resting.commit_le
  have hrange : ¬(decide (core.appliedIndex ≤ core.log.baseIndex) ||
      decide (logLastIndex core.log < core.appliedIndex)) = true := by
    rw [Bool.or_eq_true, decide_eq_true_eq, decide_eq_true_eq]
    unfold logLastIndex logCount
    omega
  obtain ⟨entry, hentry⟩ : ∃ entry,
      core.log.entries[core.appliedIndex - core.log.baseIndex - 1]? = some entry :=
    ⟨_, List.getElem?_eq_getElem (by omega)⟩
  have hget : logGet core.log core.appliedIndex = some entry := by
    rw [logGet, if_neg hrange, hentry]
  unfold coreSnapshotPoint
  rw [h.resting.idle, h.free, if_neg (by simp [happlied]), if_neg (by omega), hget]
  exact ⟨_, rfl⟩

variable {point : SnapshotPoint}

theorem coreCompact_level (h : Level core) (hpoint : coreSnapshotPoint core = .ok point) :
    coreCompact core point =
        (.ok, { core with log := compactedLog core.log point.index point.term }) ∧
      LogOk (compactedLog core.log point.index point.term) := by
  obtain ⟨entry, hget, rfl⟩ : ∃ entry, logGet core.log core.appliedIndex = some entry ∧
      point = ⟨core.appliedIndex, entry.term, coreMembership core⟩ := by
    unfold coreSnapshotPoint at hpoint
    split_ifs at hpoint
    cases hget : logGet core.log core.appliedIndex with rw [hget] at hpoint
    | none =>
      cases hpoint
    | some entry =>
      cases hpoint
      exact ⟨entry, rfl, rfl⟩
  obtain ⟨habove, hlast, hentry⟩ := logGet_some hget
  have hterm := (h.log.slots _ entry hentry).2.1
  have hmatches : logMatches core.log core.appliedIndex entry.term = true := by
    rw [logMatches, if_neg (by simpa using habove.ne'), hget]
    exact beq_self_eq_true _
  have hlog : logCompact core.log core.appliedIndex entry.term =
      .ok (compactedLog core.log core.appliedIndex entry.term) := by
    rw [logCompact, if_neg (by simp [habove, hterm, hlast]), hmatches]
    rfl
  constructor
  · unfold coreCompact
    rw [hpoint]
    dsimp only
    rw [if_neg (by simp), hlog]
  · have hvalid : logBaseValid core.appliedIndex entry.term = true := by
      have hindex : core.appliedIndex ≠ 0 := by omega
      simp [logBaseValid, hindex, hterm]
    exact h.log.drop habove.le rfl rfl hvalid

theorem compactCore_serviceable (h : Serviceable service)
    (hpoint : coreSnapshotPoint service.core = .ok point) :
    Serviceable (compactCore service point).2 ∧
      (compactCore service point).2.pendingSnapshot = none ∧
      (compactCore service point).2.staging = service.staging ∧
      (compactCore service point).2.core.log.baseIndex = point.index ∧
      (compactCore service point).2.core.log.baseTerm = point.term := by
  obtain ⟨hcompacted, hlog⟩ := coreCompact_level h.toLevel hpoint
  have horderly := orderly_closed.compact service.core point ⟨h.resting, h.orderly⟩
  unfold compactCore
  rw [hcompacted] at horderly ⊢
  exact ⟨⟨⟨horderly.1, horderly.2, hlog, h.free, h.admitted⟩, h.fault, h.runtime, h.storage, h.idle,
    h.reads⟩, rfl, rfl, rfl, rfl⟩

theorem Serviceable.heard (h : Serviceable service) (state : σ) (answer : HostAnswer) :
    Serviceable (service.hear state answer) :=
  ⟨h.toLevel, h.fault, h.runtime, h.storage, h.idle, h.reads⟩

theorem isChain_answered {answers : List (ℕ × ℕ × Status)} (h : answers.IsChain sameUntilOk)
    (hnext : ∀ answer ∈ answers.getLast?, answer.2.2 ≠ .ok →
      point.index = answer.1 ∧ point.term = answer.2.1) (status : Status) :
    (answers ++ [(point.index, point.term, status)]).IsChain sameUntilOk := by
  refine List.isChain_append.mpr ⟨h, .singleton _, ?_⟩
  intro answer hlast next hhead hne
  cases hhead
  exact hnext answer hlast hne

theorem finishJournalCompaction_sound (hhost : Obliging prompt host)
    {compact : ℕ → ℕ → σ → Status × σ} (hpolicy : host.policy = some policy)
    (hcompact : policy.journalCompact = some compact) (h : Serviceable service)
    (hpending : service.pendingSnapshot = some point)
    (hpoint : coreSnapshotPoint service.core = .ok point)
    (hbefore : journalAnswers service.staging.answers = ledger)
    (hretried : ledger.IsChain sameUntilOk)
    (hnext : ∀ answer ∈ ledger.getLast?, answer.2.2 ≠ .ok →
      point.index = answer.1 ∧ point.term = answer.2.1)
    (hsettled : ∀ index term, settledPoint ledger = some (index, term) →
      Journaled host ∧ service.core.log.baseIndex = index ∧ service.core.log.baseTerm = term) :
    Sound prompt host (finishJournalCompaction compact point service).2 := by
  have hanswer := hhost.journal policy hpolicy compact hcompact point.index point.term
    service.staging.host
  have hjournaled : Journaled host := ⟨policy, compact, hpolicy, hcompact⟩
  unfold finishJournalCompaction
  generalize compact point.index point.term service.staging.host = answer at hanswer
  obtain ⟨status, state⟩ := answer
  dsimp only at hanswer ⊢
  have hledger : journalAnswers
      (service.hear state (.journal point.index point.term status)).staging.answers =
        ledger ++ [(point.index, point.term, status)] := by
    rw [← hbefore]
    exact journalAnswers_append _ _
  have hsteady := h.heard state (.journal point.index point.term status)
  rcases hanswer with rfl | ⟨hlate, rfl⟩
  · rw [if_neg (by decide), if_neg (by decide)]
    obtain ⟨hcompacted, hnone, hstaging, hindex, hterm⟩ := compactCore_serviceable hsteady hpoint
    refine ⟨hcompacted, ?_⟩
    rw [hnone, hstaging, hledger]
    refine ⟨fun _ hnever => (by cases hnever), fun _ answer hlast => ?_,
      isChain_answered hretried hnext _, ?_⟩
    · cases Option.some.inj (List.getLast?_concat.symm.trans hlast)
      rfl
    · intro index term heq
      simp only [settledPoint, List.filter_append, List.filter_cons_of_pos, beq_self_eq_true,
        List.filter_nil, List.getLast?_concat, Option.map_some, Option.some.injEq,
        Prod.mk.injEq] at heq
      rw [← heq.1, ← heq.2]
      exact ⟨hjournaled, hindex, hterm⟩
  · rw [if_pos rfl]
    refine ⟨hsteady, ?_⟩
    rw [hledger]
    change Attended prompt host service.pendingSnapshot _ service.core
    rw [hpending]
    refine ⟨?_, fun hnever => (by cases hnever), isChain_answered hretried hnext _, ?_⟩
    · rintro _ ⟨⟩
      exact ⟨hlate, hjournaled, List.getLast?_concat, hpoint⟩
    · intro index term heq
      refine hsettled index term ?_
      rw [← heq, settledPoint, settledPoint, List.filter_append]
      simp

theorem takeSnapshot_sound (hhost : Obliging prompt host)
    (hpolicy : host.policy = some policy) (h : Sound prompt host service)
    (hnone : service.pendingSnapshot = none)
    (happlied : service.core.appliedIndex = service.core.commitIndex)
    (habove : service.core.appliedIndex ≠ service.core.log.baseIndex) :
    Sound prompt host (takeSnapshot policy service).2 := by
  obtain ⟨point, hpoint⟩ := coreSnapshotPoint_level h.toLevel happlied habove
  have hmade := makeSnapshot_ok (hhost.makes policy hpolicy) point service.staging.host
  have hattended := h.attended
  unfold takeSnapshot
  rw [hpoint]
  dsimp only
  generalize makeSnapshot policy point service.staging.host = made at hmade ⊢
  obtain ⟨status, state⟩ := made
  rw [if_neg (not_not.mpr hmade)]
  have hsteady := h.toServiceable.heard state (.snapshot point.index status)
  have hledger : journalAnswers
      (service.hear state (.snapshot point.index status)).staging.answers =
        journalAnswers service.staging.answers :=
    (journalAnswers_append _ _).trans (List.append_nil _)
  cases hcompact : policy.journalCompact with
  | none =>
    obtain ⟨hcompacted, hpending, hstaging, _⟩ := compactCore_serviceable hsteady hpoint
    refine ⟨hcompacted, ?_⟩
    rw [hpending, hstaging, hledger]
    rw [hnone] at hattended
    refine ⟨fun _ hnever => (by cases hnever), hattended.done, hattended.retried,
      fun index term hsettled => ?_⟩
    obtain ⟨⟨_, compact, hpolicy', hsome⟩, _⟩ := hattended.settled index term hsettled
    cases hpolicy.symm.trans hpolicy'
    cases hcompact.symm.trans hsome
  | some compact =>
    refine finishJournalCompaction_sound hhost hpolicy hcompact ?_ rfl hpoint hledger
      hattended.retried (fun answer hlast hne => absurd (hattended.done hnone answer hlast) hne)
      hattended.settled
    exact ⟨hsteady.toLevel, hsteady.fault, hsteady.runtime, hsteady.storage, hsteady.idle,
      hsteady.reads⟩

/-- A snapshot is forced although committed entries wait to be applied. -/
def prematureTrigger (host : ServiceHost σ) (service : Service σ) : Bool :=
  !service.backupPrepared && host.policy.isSome && service.pendingSnapshot.isNone &&
    service.core.appliedIndex != service.core.log.baseIndex &&
    service.core.appliedIndex != service.core.commitIndex

theorem serviceSnapshot_sound (hhost : Obliging prompt host) (h : Sound prompt host service)
    (force : Bool) (hready : host.policy.isSome = true → service.pendingSnapshot = none →
      service.core.appliedIndex = service.core.log.baseIndex ∨
        service.core.appliedIndex = service.core.commitIndex) :
    Sound prompt host (serviceSnapshot host force service).2 := by
  unfold serviceSnapshot
  cases hpolicy : host.policy with
  | none => exact h
  | some policy =>
    dsimp only
    cases hpending : service.pendingSnapshot with
    | some point =>
      obtain ⟨_, ⟨_, compact, hpolicy', hcompact⟩, hlast, hpoint⟩ :=
        h.attended.waiting point hpending
      cases hpolicy.symm.trans hpolicy'
      rw [hcompact]
      refine finishJournalCompaction_sound hhost hpolicy hcompact h.toServiceable hpending hpoint rfl
        h.attended.retried ?_ h.attended.settled
      intro answer hanswer _
      cases Option.some.inj (hlast.symm.trans hanswer)
      exact ⟨rfl, rfl⟩
    | none =>
      split_ifs with hbase hforce hfew
      · exact h
      · exact h
      · exact h
      · rcases hready (by rw [hpolicy]; rfl) hpending with heq | happlied
        · exact absurd heq hbase
        · exact takeSnapshot_sound hhost hpolicy h hpending happlied hbase

end Snapshots

theorem enqueueReadStates_room {ready : Ready}
    (hroom : service.readStates.length + ready.readStates.length ≤ service.maxCompletedReads) :
    enqueueReadStates service ready =
      (.ok, { service with readStates := service.readStates ++ ready.readStates }) := by
  unfold enqueueReadStates
  rw [if_neg (by omega)]

theorem applied_compacted (applied : ℕ) (core : Core) (point : SnapshotPoint)
    (h : core.appliedIndex = applied) : (coreCompact core point).2.appliedIndex = applied := by
  rcases coreCompact_outcome core point with ⟨_, hsame⟩ | ⟨_, _, hdone⟩
  · rw [hsame]
    exact h
  · rw [hdone]
    exact h

/-- A Ready with effects goes through, and the snapshot that may be due follows. -/
theorem serviceProcessReady_passes (hhost : Obliging prompt host) (h : Serviceable service)
    {call : Call} (heffects : readyHasEffects call.ready = true)
    (hadvance : (coreAdvance call.core).1 = .ok)
    (hroom : service.readStates.length + call.ready.readStates.length ≤ service.maxCompletedReads) :
    ∃ drive : Drive (Staging σ), drive.core = (coreAdvance call.core).2 ∧ drive.runtime = .fresh ∧
      Calm (journalAnswers service.staging.answers) drive.host ∧
      serviceProcessReady host call.ready { service with core := call.core } =
        serviceSnapshot host false { afterRuntime service drive with
          readStates := service.readStates ++ call.ready.readStates } := by
  obtain ⟨storage, hstorage, hserves⟩ := h.storage
  have hpassed := @runtimeProcess_passed _ _ call.core _
    (serviceHandlers_willing hhost hserves (journalAnswers service.staging.answers))
    service.staging ⟨h.idle, rfl⟩ hadvance call.ready
  unfold serviceProcessReady
  dsimp only
  rw [heffects, if_neg (by decide), h.runtime, hstorage]
  generalize runtimeProcess (serviceHandlers host (some storage)) .fresh call.core
    service.staging call.ready = answer at hpassed
  obtain ⟨status, drive⟩ := answer
  obtain ⟨hok, hcore, hruntime, hcalm⟩ := hpassed
  subst hok
  refine ⟨drive, hcore, hruntime, hcalm, ?_⟩
  rw [if_neg (by simp), if_neg (by simp), enqueueReadStates_room]
  · simp [afterRuntime, hstorage]
  · exact hroom

/-- An operation does not move the applied index while a compaction waits. -/
def Holds (service : Service σ) (result : Outcome σ) : Prop :=
  service.pendingSnapshot.isSome = true → result.2.core.appliedIndex = service.core.appliedIndex

theorem serviceCall_sound (hhost : Obliging prompt host) (h : Sound prompt host service)
    (input : Input) (hcall : isCall input = true)
    (hinput : inputVetted service.core input = true)
    (hroom : service.readStates.length + readTotalCount service.core + readsAdded input ≤
      service.maxCompletedReads)
    (hholds : Holds service (serviceCall host (fun core => perform core input) service)) :
    Sound prompt host (serviceCall host (fun core => perform core input) service).2 := by
  unfold serviceCall at hholds ⊢
  dsimp only at hholds ⊢
  by_cases hok : (perform service.core input).1 ≠ .ok
  · rw [if_pos hok]
    obtain ⟨hlevel, hlog, hreads, hpoint⟩ := h.toLevel.failed hcall hok
    refine ⟨⟨hlevel, h.fault, h.runtime, h.storage, h.idle, ?_⟩, ?_⟩
    · exact (congrArg (service.readStates.length + ·) hreads).le.trans h.reads
    · exact h.attended.move (congrArg Log.baseIndex hlog) (congrArg Log.baseTerm hlog)
        fun _ _ hcurrent => hpoint.trans hcurrent
  rw [if_neg hok] at hholds ⊢
  rw [ne_eq, not_not] at hok
  have hanswered : Answered service.core input (perform service.core input).2 :=
    h.toLevel.answered hcall hinput (Prod.ext hok rfl)
  generalize (perform service.core input).2 = call at hanswered hholds ⊢
  have hload : call.ready.readStates.length + readTotalCount call.core ≤
    readTotalCount service.core + readsAdded input := hanswered.load
  cases heffects : readyHasEffects call.ready with
  | false =>
    have hlevel : Level call.core := ⟨hanswered.resting, hanswered.orderly, hanswered.log,
      hanswered.reported.trans heffects, hanswered.admitted⟩
    have hsound : Sound prompt host { service with core := call.core } := by
      refine ⟨⟨hlevel, h.fault, h.runtime, h.storage, h.idle, by dsimp only; omega⟩, ?_⟩
      exact h.attended.move hanswered.base.1 hanswered.base.2 fun _ _ hcurrent =>
        hanswered.point h.toLevel hcurrent hlevel rfl rfl hanswered.applied rfl
          (hanswered.quiet heffects)
    unfold serviceProcessReady
    rw [heffects, if_pos (by decide)]
    split_ifs with hpending
    · refine serviceSnapshot_sound hhost hsound false fun _ hnone => ?_
      rw [hnone] at hpending
      cases hpending
    · exact hsound
  | true =>
    obtain ⟨hlevel, happlied⟩ := hanswered.level heffects
    have hadvanced := hanswered.advances heffects
    obtain ⟨drive, hcore, hruntime, hcalm, hprocessed⟩ := serviceProcessReady_passes hhost
      h.toServiceable heffects (congrArg Prod.fst hadvanced) (by omega)
    rw [hprocessed] at hholds ⊢
    refine serviceSnapshot_sound hhost ?_ false ?_
    · refine ⟨⟨?_, h.fault, hruntime, h.storage, hcalm.1, ?_⟩, ?_⟩
      · change Level drive.core
        rw [hcore]
        exact hlevel
      · change (service.readStates ++ call.ready.readStates).length + readTotalCount drive.core ≤ _
        rw [hcore, hadvanced, List.length_append]
        change _ + readTotalCount call.core ≤ service.maxCompletedReads
        omega
      · change Attended prompt host service.pendingSnapshot (journalAnswers drive.host.answers)
          drive.core
        rw [hcalm.2, hcore]
        refine h.attended.move (by rw [hadvanced]; exact hanswered.base.1)
          (by rw [hadvanced]; exact hanswered.base.2) fun point hpending hcurrent => ?_
        -- the applied index is the commit index now, and it has not moved
        have hstill : (coreAdvance call.core).2.appliedIndex = service.core.appliedIndex := by
          rw [← hholds (by rw [hpending]; rfl)]
          exact (serviceSnapshot_keeps (applied_compacted _) false (congrArg Core.appliedIndex
            hcore)).symm
        refine hanswered.point h.toLevel hcurrent hlevel ?_ ?_ hstill ?_ ?_ <;>
          rw [hadvanced] at *
        exact hstill
    · intro _ _
      right
      change drive.core.appliedIndex = drive.core.commitIndex
      rw [hcore]
      exact happlied

theorem drainPending_sound (h : Sound prompt host service) :
    drainPending host service = (if service.backupPrepared then .ebusy else .ok, service) := by
  unfold drainPending
  rw [h.fault, h.idle]
  cases service.backupPrepared <;> rfl

theorem guarded_sound {body : Service σ → Outcome σ} (h : Sound prompt host service)
    (hholds : Holds service (guarded host body service))
    (hbody : service.backupPrepared = false → Holds service (body service) →
      Sound prompt host (body service).2) :
    Sound prompt host (guarded host body service).2 := by
  unfold guarded mutationGuard at hholds ⊢
  rw [drainPending_sound h] at hholds ⊢
  cases hbackup : service.backupPrepared with
  | true => exact h
  | false =>
    rw [hbackup] at hholds
    dsimp only at hholds ⊢
    rw [h.runtime] at hholds ⊢
    exact hbody hbackup hholds

theorem serviceOperation_sound (hhost : Obliging prompt host) (h : Sound prompt host service)
    (operation : Operation) (hquiet : readsAdded (.call operation readyCapacity) = 0)
    (hholds : Holds service (serviceOperation host operation service)) :
    Sound prompt host (serviceOperation host operation service).2 :=
  guarded_sound h hholds fun _ => serviceCall_sound hhost h (.call operation readyCapacity) rfl rfl (by
    rw [hquiet]
    exact h.reads)

theorem last_closed (last : ℕ) :
    Closed fun core => Resting core ∧ last ≤ logLastIndex core.log :=
  .of_inputs fun _ input hcall h => ⟨perform_resting h.1 input,
    h.2.trans (Tended.last_le (perform_tended h.1 hcall))⟩

theorem serviceProposeBatch_reaches (h : Resting service.core) (proposals : List Proposal)
    (hsize : ¬(proposals.length = 0 ∨ maxProposalBatch < proposals.length))
    (hok : (serviceProposeBatch host proposals service).1 = .ok) :
    proposals.length ≤ logLastIndex (serviceProposeBatch host proposals service).2.core.log := by
  have hguard := (mutationGuard_keeps (last_closed 0).toTending host ⟨h, Nat.zero_le _⟩).2.1
  rw [serviceProposeBatch, if_neg hsize] at hok ⊢
  unfold serviceOperation guarded serviceCall at hok ⊢
  generalize mutationGuard host service = answer at hok hguard
  obtain ⟨status, guarded⟩ := answer
  dsimp only at hok hguard ⊢
  split_ifs at hok ⊢ with hstatus hrefused
  · exact absurd hok hstatus
  · exact absurd hok hrefused
  · have happended := coreProposeBatch_appended hguard (Prod.ext (not_not.mp hrefused) rfl)
    exact (serviceProcessReady_keeps (last_closed proposals.length) _
      ⟨happended.resting, happended.last ▸ Nat.le_add_left _ _⟩).2

/-- What an operation needs besides willing callbacks: entries in order, a snapshot that is not
forced too early, and the durable state of the core itself to reload. -/
def Suits (host : ServiceHost σ) (service : Service σ) : ServiceEvent σ → Prop
  | .step message => inputVetted service.core (.step message readyCapacity) = true
  | .triggerSnapshot => prematureTrigger host service = false
  | .resumeBackup storage => ∀ next ∈ storage, serves next
  | .reload config => service.backupPrepared = true ∨ OwnState service.core config
  | _ => True

theorem serviceRun_sound (hhost : Obliging prompt host) (h : Sound prompt host service)
    (event : ServiceEvent σ) (hsuits : Suits host service event)
    (hholds : Holds service (serviceRun host service event)) :
    Sound prompt host (serviceRun host service event).2 := by
  cases event with
  | tick | changeMembership => exact serviceOperation_sound hhost h _ rfl hholds
  | step message =>
    exact guarded_sound h hholds fun _ =>
      serviceCall_sound hhost h (.step message readyCapacity) rfl hsuits h.reads
  | propose | transferLeadership | snapshotCompleted =>
    dsimp only [serviceRun, serviceProposeBatch, serviceTransferLeadership,
      serviceSnapshotCompleted] at hholds ⊢
    split_ifs at hholds ⊢
    · exact h
    · exact serviceOperation_sound hhost h _ rfl hholds
  | proposeWithReceipts proposals receiptCapacity =>
    dsimp only [serviceRun, serviceProposeBatchWithReceipts] at hholds ⊢
    by_cases hsize : proposals.length = 0 ∨ maxProposalBatch < proposals.length
    · rw [if_pos hsize]
      exact h
    rw [if_neg hsize] at hholds ⊢
    by_cases hroom : receiptCapacity < proposals.length
    · rw [if_pos hroom]
      exact h
    rw [if_neg hroom] at hholds ⊢
    have hproposed : Holds service (serviceProposeBatch host proposals service) →
        Sound prompt host (serviceProposeBatch host proposals service).2 := by
      unfold serviceProposeBatch
      rw [if_neg hsize]
      exact serviceOperation_sound hhost h _ rfl
    by_cases hok : (serviceProposeBatch host proposals service).1 ≠ .ok
    · rw [if_pos hok] at hholds ⊢
      exact hproposed hholds
    rw [if_neg hok, if_neg (not_lt.mpr (serviceProposeBatch_reaches h.resting _ hsize
      (not_not.mp hok)))] at hholds ⊢
    exact hproposed hholds
  | readIndex contextId =>
    dsimp only [serviceRun, serviceReadIndex] at hholds ⊢
    split_ifs at hholds ⊢
    · exact h
    refine guarded_sound h hholds fun _ hholds => ?_
    split_ifs at hholds ⊢ with hknown hfull
    · exact h
    · exact h
    · exact serviceCall_sound hhost h (.call (.readIndex contextId) readyCapacity) rfl rfl
        (Nat.succ_le_of_lt (not_le.mp hfull)) hholds
  | takeReadState =>
    refine guarded_sound h hholds fun _ _ => ?_
    cases hstates : service.readStates with
    | nil => exact h
    | cons state rest =>
      dsimp only
      split_ifs
      · exact h
      · have hreads := h.reads
        rw [hstates, List.length_cons] at hreads
        refine ⟨⟨h.toLevel, h.fault, h.runtime, h.storage, h.idle, ?_⟩, h.attended⟩
        dsimp only
        omega
  | poll =>
    dsimp only [serviceRun, servicePoll] at hholds ⊢
    rw [drainPending_sound h] at hholds ⊢
    cases hbackup : service.backupPrepared with
    | true => exact h
    | false =>
      rw [hbackup] at hholds
      rw [h.runtime] at hholds ⊢
      exact serviceCall_sound hhost h (.call .poll readyCapacity) rfl rfl h.reads hholds
  | triggerSnapshot =>
    refine guarded_sound h hholds fun hbackup _ => ?_
    refine serviceSnapshot_sound hhost h true fun hpolicy hnone => ?_
    have hpremature : prematureTrigger host service = false := hsuits
    simp only [prematureTrigger, hbackup, hpolicy, hnone, Option.isNone_none, Bool.not_false,
      Bool.and_self, Bool.true_and, Bool.and_eq_false_iff, bne_eq_false_iff_eq] at hpremature
    exact hpremature
  | prepareBackup =>
    refine guarded_sound h hholds fun _ _ => ?_
    split_ifs
    · exact h
    · exact ⟨⟨h.toLevel, h.fault, h.runtime, h.storage, h.idle, h.reads⟩, h.attended⟩
  | resumeBackup storage =>
    dsimp only [serviceRun, serviceResumeBackup]
    split_ifs with hrefused
    · exact h
    · cases storage with
      | none => simp at hrefused
      | some next =>
        exact ⟨⟨h.toLevel, h.fault, rfl, ⟨next, rfl, hsuits next rfl⟩, h.idle, h.reads⟩,
          h.attended⟩
  | reload config =>
    dsimp only [serviceRun, serviceReload] at hholds ⊢
    split_ifs at hholds ⊢ with hbackup hbusy
    · exact h
    · exact h
    obtain hprepared | hown := hsuits
    · exact absurd hprepared hbackup
    obtain ⟨core, hcreate, hlog, hcommit, happlied, hsettled⟩ :=
      hown.created h.resting.toCoreInv h.log
    rw [hcreate] at hholds ⊢
    have hlevel : Level core := .created hcreate (hlog ▸ h.log)
    refine ⟨⟨hlevel, rfl, rfl, h.storage, rfl, ?_⟩, ?_⟩
    · rw [readTotalCount_created hcreate]
      exact Nat.zero_le _
    · refine h.attended.move (congrArg Log.baseIndex hlog) (congrArg Log.baseTerm hlog)
        fun point hpending hcurrent => ?_
      rw [← hcurrent]
      exact hlevel.point h.toLevel (hholds (by rw [hpending]; rfl)) hcommit (by rw [hlog])
        (by rw [hlog]) hsettled

theorem serviceCreate_sound {storage : Option (Storage σ)}
    (hstorage : ∃ next, storage = some next ∧ serves next) {config : CoreConfig} {state : σ}
    (hcreate : serviceCreate host storage config state = .ok service)
    (hlog : LogOk service.core.log) : Sound prompt host service := by
  obtain ⟨core, hcore, rfl, hruntime, hstored, hfault, hpending, hreads, hstaging⟩ :=
    serviceCreate_ok hcreate
  refine ⟨⟨.created hcore hlog, hfault, hruntime, hstored ▸ hstorage, ?_, ?_⟩, ?_⟩
  · rw [hstaging]
  · rw [hreads, readTotalCount_created hcore]
    exact Nat.zero_le _
  · rw [hstaging, hpending]
    exact ⟨fun _ hnever => (by cases hnever), fun _ _ hnever => (by cases hnever), .nil,
      fun _ _ hnever => (by cases hnever)⟩

structure Fit (run : ServiceRun host) : Prop where
  storage : ∃ storage, run.storage = some storage ∧ serves storage
  log : LogOk run.start.core.log

theorem run_sound (hhost : Obliging prompt host) (run : ServiceRun host) (hfit : Fit run)
    (hsuits : run.run.Meets (Suits host))
    (hholds : ¬prompt → run.run.Meets fun service event => Holds service (serviceRun host service event))
    {k : ℕ} (hk : k ≤ run.run.length) : Sound prompt host (run.run.state k) := by
  have hmeets : run.run.Meets fun service event => Suits host service event ∧
      (¬prompt → Holds service (serviceRun host service event)) :=
    fun k hk => ⟨hsuits k hk, fun hlate => hholds hlate k hk⟩
  apply run.run.invariant hmeets _ _ _ k hk
  · exact serviceCreate_sound hfit.storage run.created hfit.log
  · intro service event service' h hevent hstep
    cases hstep
    refine serviceRun_sound hhost h event hevent.1 fun hpending => ?_
    obtain ⟨point, hpoint⟩ := Option.isSome_iff_exists.mp hpending
    exact hevent.2 (h.attended.waiting point hpoint).1 hpending

/-- A service with willing callbacks never becomes faulted. -/
theorem service_fault_free (hhost : Obliging True host) (run : ServiceRun host) (hfit : Fit run)
    (hsuits : run.run.Meets (Suits host)) :
    run.run.Stays fun service => service.fault = none :=
  fun _ hk => (run_sound hhost run hfit hsuits (absurd trivial) hk).fault

theorem willingHost_obliging {journal : ℕ → Status}
    (hjournal : ∀ calls, journal calls = .ok ∨ (¬prompt ∧ journal calls = .eio)) :
    Obliging prompt (willingHost ⟨true, 0⟩ journal) where
  messages := ⟨_, rfl, fun _ _ => rfl⟩
  snapshots := ⟨_, rfl, fun _ _ => rfl⟩
  applies := ⟨_, rfl, fun _ _ => rfl⟩
  makes := by
    rintro _ ⟨⟩
    exact ⟨fun _ _ => ⟨rfl, rfl, Nat.zero_le _⟩, fun _ _ _ => rfl⟩
  journal := by
    rintro _ ⟨⟩ _ ⟨⟩ _ _ calls
    exact hjournal calls

def logChecked (log : Log) : Bool :=
  (log.entries.zipIdx.all fun p => entryChecked (log.baseIndex + p.2 + 1) p.1) &&
    decide (log.entries.length ≤ log.maxEntries) && logBaseValid log.baseIndex log.baseTerm

theorem logOk_of_checked {log : Log} (h : logChecked log = true) : LogOk log := by
  simp only [logChecked, Bool.and_eq_true, List.all_eq_true, decide_eq_true_eq] at h
  refine ⟨fun i e he => entryOk_of_checked (h.1.1 (e, i) ?_), h.1.2, h.2⟩
  rwa [List.mk_mem_zipIdx_iff_getElem?]

def recoveredConfig : CoreConfig :=
  { soloConfig with
    initialTerm := 1
    initialLogEntries := [command 1 1 1, command 2 1 2]
    initialCommitIndex := 2
    initialAppliedIndex := 1 }

/-- What a core has made durable, with the configuration below its log. -/
def durableConfig (core : Core) (configuration : Option Conf) : CoreConfig :=
  { soloConfig with
    initialConfiguration := configuration
    initialTerm := core.term
    initialVote := core.votedFor
    initialLastLogIndex := core.log.baseIndex
    initialLastLogTerm := core.log.baseTerm
    initialLogEntries := core.log.entries
    initialCommitIndex := core.commitIndex
    initialAppliedIndex := core.appliedIndex }

def compactedCore : Core :=
  let service := startedService recoveredConfig (createdCore recoveredConfig) 0
  (serviceNext (willingHost ⟨true, 0⟩ fun _ => .ok) service .poll).core

/-- The rest of the log is applied and compacted before a snapshot is forced and the core
reloaded. -/
def polledRun : ServiceRun (willingHost ⟨true, 0⟩ fun _ => .ok) :=
  .ofEvents _ recoveredConfig 0 [.poll, .triggerSnapshot, .reload (durableConfig compactedCore
    (some compactedCore.membershipTransition.committed))] (by decide +kernel)

theorem polled_snapshot_fault_free :
    Fit polledRun ∧ polledRun.run.Meets (Suits (willingHost ⟨true, 0⟩ fun _ => .ok)) ∧
      (polledRun.run.state 3).fault = none ∧ (polledRun.run.state 3).core.log.baseIndex = 2 := by
  have hfit : Fit polledRun :=
    ⟨⟨okStorage, rfl, fun _ _ => rfl⟩, logOk_of_checked (by decide +kernel)⟩
  have hown : OwnState (polledRun.run.state 2).core (durableConfig compactedCore
      (some compactedCore.membershipTransition.committed)) := by
    constructor <;> decide +kernel
  have hsuits : polledRun.run.Meets (Suits (willingHost ⟨true, 0⟩ fun _ => .ok)) := by
    intro k hk
    match k, hk with
    | 0, _ => trivial
    | 1, _ =>
      change prematureTrigger _ _ = false
      decide +kernel
    | 2, _ => exact Or.inr hown
  exact ⟨hfit, hsuits, service_fault_free (willingHost_obliging fun _ => Or.inl rfl) polledRun hfit
    hsuits 3 le_rfl, by decide +kernel⟩

/-- The first operation is a snapshot, while a recovered entry waits to be applied. -/
def forcedRun : ServiceRun (willingHost ⟨true, 0⟩ fun _ => .ok) :=
  .ofEvents _ recoveredConfig 0 [.triggerSnapshot] (by decide +kernel)

/-- The source of a snapshot is longer than the policy allows. -/
def oversizedRun : ServiceRun (willingHost ⟨true, 2⟩ fun _ => .ok) :=
  .ofEvents _ recoveredConfig 0 [.poll] (by decide +kernel)

/-- A learner is added, and another change takes it away. -/
def changes : List (ServiceEvent ℕ) :=
  [soloElection, .changeMembership { transitionId := 7, voters := [1], learners := [2] },
    .tick { elapsedTicks := 1, nextElectionTimeoutTicks := 5 },
    .changeMembership { transitionId := 8, voters := [1], learners := [] }]

def changedCore : Core :=
  (changes.foldl (serviceNext quietHost) (startedService soloConfig (createdCore soloConfig) 0)).core

/-- The state that is reloaded is the one that the changes made durable. -/
def reloadedRun : ServiceRun quietHost :=
  .ofEvents _ soloConfig 0 (changes ++ [.reload (durableConfig changedCore none)])
    (by decide +kernel)

/-- Every callback answers OK, and the service faults: on a snapshot that is forced too early, on a
source that is too long, and on its own durable state, which holds two membership changes. -/
theorem forced_snapshot_faults :
    (Fit forcedRun ∧ (forcedRun.run.state 1).fault = some .ebusy) ∧
    (Fit oversizedRun ∧ (oversizedRun.run.state 1).fault = some .eproto) ∧
    (Fit reloadedRun ∧ (reloadedRun.run.state 4).fault = none ∧
      recoveredDisk (durableConfig changedCore none) = mirrorOf (reloadedRun.run.state 4).core ∧
      (reloadedRun.run.state 5).fault = some .eproto) :=
  ⟨⟨⟨⟨okStorage, rfl, fun _ _ => rfl⟩, logOk_of_checked (by decide +kernel)⟩, by decide +kernel⟩,
    ⟨⟨⟨okStorage, rfl, fun _ _ => rfl⟩, logOk_of_checked (by decide +kernel)⟩, by decide +kernel⟩,
    ⟨⟨okStorage, rfl, fun _ _ => rfl⟩, logOk_of_checked (by decide +kernel)⟩, by decide +kernel,
    by decide +kernel, by decide +kernel⟩

/-- While nothing is applied between an I/O error of the journal and its next answer, it is asked
about the same point until it answers OK, and then the log starts at that point. -/
theorem journal_compaction_retried (hhost : Obliging False host) (run : ServiceRun host)
    (hfit : Fit run) (hsuits : run.run.Meets (Suits host))
    (hholds : run.run.Meets fun service event => Holds service (serviceRun host service event)) :
    run.run.Stays fun service => service.fault = none ∧
      (journalAnswers service.staging.answers).IsChain sameUntilOk ∧
      ∀ index term, settledPoint (journalAnswers service.staging.answers) = some (index, term) →
        service.core.log.baseIndex = index ∧ service.core.log.baseTerm = term := by
  intro k hk
  have h := run_sound hhost run hfit hsuits (fun _ => hholds) hk
  exact ⟨h.fault, h.attended.retried, fun index term hsettled =>
    (h.attended.settled index term hsettled).2⟩

def lateJournal (calls : ℕ) : Status := if calls = 0 then .eio else .ok

theorem lateJournal_answers (calls : ℕ) :
    lateJournal calls = .ok ∨ (¬False ∧ lateJournal calls = .eio) := by
  unfold lateJournal
  split_ifs
  · exact Or.inr ⟨id, rfl⟩
  · exact Or.inl rfl

def proposing (id : UInt64) : ServiceEvent ℕ := .propose [{ commandId := id, data := [] }]

def retriedRun : ServiceRun (willingHost ⟨true, 0⟩ lateJournal) :=
  .ofEvents _ soloConfig 0 [soloElection, proposing 1, .poll] (by decide +kernel)

def lateRun : ServiceRun (willingHost ⟨true, 0⟩ lateJournal) :=
  .ofEvents _ soloConfig 0 [soloElection, proposing 1, proposing 2] (by decide +kernel)

theorem polled_compaction_retried :
    journalAnswers (retriedRun.run.state 3).staging.answers = [(1, 1, .eio), (1, 1, .ok)] ∧
      (retriedRun.run.state 3).fault = none ∧
      (retriedRun.run.state 3).core.log.baseIndex = 1 := by
  have hanswers : journalAnswers (retriedRun.run.state 3).staging.answers =
      [(1, 1, .eio), (1, 1, .ok)] := by decide +kernel
  have hfit : Fit retriedRun :=
    ⟨⟨okStorage, rfl, fun _ _ => rfl⟩, logOk_of_checked (by decide +kernel)⟩
  have hsuits : retriedRun.run.Meets (Suits (willingHost ⟨true, 0⟩ lateJournal)) := by
    intro k hk
    match k, hk with
    | 0, _ | 1, _ | 2, _ => trivial
  have hholds : retriedRun.run.Meets fun service event =>
      Holds service (serviceRun (willingHost ⟨true, 0⟩ lateJournal) service event) := by
    intro k hk
    match k, hk with
    | 0, _ | 1, _ | 2, _ => unfold Holds; decide +kernel
  have h := journal_compaction_retried (willingHost_obliging lateJournal_answers) retriedRun hfit
    hsuits hholds 3 le_rfl
  exact ⟨hanswers, h.1, (h.2.2 1 1 (by rw [hanswers]; rfl)).1⟩

theorem late_compaction_faults :
    Obliging False (willingHost ⟨true, 0⟩ lateJournal) ∧ Fit lateRun ∧
      lateRun.run.Meets (Suits (willingHost ⟨true, 0⟩ lateJournal)) ∧
      journalAnswers (lateRun.run.state 3).staging.answers = [(1, 1, .eio), (1, 1, .ok)] ∧
      (lateRun.run.state 3).fault = some .eproto ∧ (lateRun.run.state 3).core.log.baseIndex = 0 := by
  refine ⟨willingHost_obliging lateJournal_answers, ⟨⟨okStorage, rfl, fun _ _ => rfl⟩,
    logOk_of_checked (by decide +kernel)⟩, fun k hk => ?_, by decide +kernel⟩
  match k, hk with
  | 0, _ | 1, _ | 2, _ => trivial

end RaftServiceSafety
