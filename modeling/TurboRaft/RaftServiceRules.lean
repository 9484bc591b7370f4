import TurboRaft.RaftCallConduct
import TurboRaft.RaftRuntimeRules
import TurboRaft.RaftService

/-! # Rules for the operations of a service

A service changes its core through calls, through the pausing of peers, through acknowledgements
and through compaction. What those keep, every operation keeps, whatever the callbacks answer. -/
namespace RaftServiceRules

open RaftTypes RaftLog RaftCoreState RaftCore RaftCluster RaftCoreRuns RaftRuntime RaftCallConduct
open RaftCoreHistories RaftOrder RaftRuntimeRules RaftService Executions

variable {σ : Type} {host : ServiceHost σ} {service : Service σ}

def Meets (R : Core → List HostAnswer → Prop) (service : Service σ) : Prop :=
  R service.core service.staging.answers

def Hearing (R : Core → List HostAnswer → Prop) : Prop :=
  ∀ core answers answer, R core answers → R core (answers ++ [answer])

/-- What the transport and the runtime do to a core. -/
structure Tending (R : Core → List HostAnswer → Prop) : Prop where
  paused : ∀ core id paused answers, R core answers → R (coreSetPeerPaused core id paused).2 answers
  ready : ∀ core admitted answers, R core answers → R (coreAckReady core admitted).2 answers
  applied : ∀ core index answers, R core answers → R (coreAckApplied core index).2 answers
  advance : ∀ core answers, R core answers → R (coreAdvance core).2 answers

/-- What the service does to a core besides calling it. -/
structure Closed (R : Core → Prop) : Prop extends Tending fun core _ => R core where
  compact : ∀ core point, R core → R (coreCompact core point).2

def onAnswers (R : Core → List HostAnswer → Prop) (core : Core) (staging : Staging σ) : Prop :=
  R core staging.answers

section Transport

variable {core : Core} {R : Core → List HostAnswer → Prop} (h : Tending R)

include h

theorem Tending.acks : AcksKeep (onAnswers R : Core → Staging σ → Prop) where
  ready core admitted staging := h.ready core admitted staging.answers
  applied core index staging := h.applied core index staging.answers
  advance core staging := h.advance core staging.answers

theorem pauseDelivery_keeps {answers : List HostAnswer} (deliveries : Deliveries)
    (slot : Fin maxMembers) (hcore : R core answers) :
    R (pauseDelivery core deliveries slot).2.1 answers := by
  have hpaused := h.paused core (deliveries slot).nodeId true answers hcore
  unfold pauseDelivery
  dsimp only
  split_ifs
  · exact hcore
  · exact hpaused
  · exact hpaused

theorem holdBack_keeps (peerId : NodeId)
    (stage : Deliveries → Fin maxMembers → Status × Deliveries) (staging : Staging σ)
    (hcore : onAnswers R core staging) :
    onAnswers R (holdBack peerId stage core staging).2.1
      (holdBack peerId stage core staging).2.2 := by
  unfold holdBack
  cases createDelivery core staging.deliveries peerId with
  | none => exact hcore
  | some created =>
    obtain ⟨slot, deliveries⟩ := created
    have hpaused := pauseDelivery_keeps h deliveries slot hcore
    dsimp only
    split_ifs <;> exact hpaused

theorem enqueueParcel_keeps (peerId : NodeId) (send : Option (σ → Status × σ))
    (stage : Deliveries → Fin maxMembers → Status × Deliveries) :
    CallbackKeeps (fun _ => True) (onAnswers R) (enqueueParcel peerId send stage) := by
  intro core staging hcore
  refine ⟨?_, trivial⟩
  unfold enqueueParcel
  cases send with
  | none => exact hcore
  | some send =>
    dsimp only
    cases pausedSlot staging.deliveries peerId with
    | some slot => exact hcore
    | none =>
      by_cases hanswer : (send staging.host).1 ≠ .enospc
      · rw [if_pos hanswer]
        exact hcore
      · rw [if_neg hanswer]
        exact holdBack_keeps h peerId stage _ hcore

theorem serviceHandlers_keep (hheard : Hearing R) (host : ServiceHost σ)
    (storage : Option (Storage σ)) :
    HandlersKeep (fun _ => True) (onAnswers R) (serviceHandlers host storage) where
  storage call hcall step core staging hcore := by
    obtain ⟨store, _, rfl⟩ := Option.map_eq_some_iff.mp hcall
    exact ⟨hcore, trivial⟩
  enqueue call hcall message := by
    cases hcall
    exact enqueueParcel_keeps h _ _ _
  enqueueSnapshot call hcall request := by
    cases hcall
    exact enqueueParcel_keeps h _ _ _
  applyBatch call hcall entries core staging hcore := by
    obtain ⟨apply, _, rfl⟩ := Option.map_eq_some_iff.mp hcall
    exact ⟨hheard _ _ _ hcore, trivial⟩
  missing _ := trivial

theorem resumePeer_keeps (slot : Fin maxMembers) (hcore : Meets R service) :
    Meets R (resumePeer service slot).2 := by
  unfold resumePeer serviceFault
  dsimp only
  split_ifs
  · exact h.paused _ _ _ _ hcore
  · exact h.paused _ _ _ _ hcore
  · exact hcore

theorem drainDelivery_keeps (host : ServiceHost σ) (slot : Fin maxMembers)
    (hcore : Meets R service) :
    Meets R (drainDelivery host service slot).2 := by
  unfold drainDelivery drainSnapshot serviceFault
  dsimp only
  cases corePeerPaused service.core (service.staging.deliveries slot).nodeId with
  | error status => cases status <;> exact hcore
  | ok paused =>
    split_ifs
    · exact hcore
    · exact hcore
    · simp only [Staging.put, Function.update_self]
      cases (service.staging.deliveries slot).snapshot with
      | none => exact resumePeer_keeps h slot hcore
      | some request =>
        dsimp only
        split_ifs
        · exact hcore
        · exact hcore
        · exact resumePeer_keeps h slot hcore

theorem drainSlots_keeps (slots : List (Fin maxMembers)) (hcore : Meets R service) :
    Meets R (drainSlots host slots service).2 := by
  induction slots generalizing service with
  | nil => exact hcore
  | cons slot rest ih =>
    have hdrained := drainDelivery_keeps h host slot hcore
    unfold drainSlots
    dsimp only
    split_ifs
    · exact ih hcore
    · exact hdrained
    · exact ih hdrained

theorem mutationGuard_keeps (host : ServiceHost σ) (hcore : Meets R service) :
    Meets R (drainPending host service).2 ∧ Meets R (mutationGuard host service).2 := by
  have hdrained : Meets R (drainPending host service).2 := by
    unfold drainPending
    split_ifs
    · exact hcore
    · exact hcore
    · exact drainSlots_keeps h _ hcore
    · exact hcore
  refine ⟨hdrained, ?_⟩
  unfold mutationGuard
  dsimp only
  split_ifs <;> exact hdrained

end Transport

variable {R : Core → Prop}

section Compaction

variable (h : ∀ core point, R core → R (coreCompact core point).2)

include h

theorem compactCore_keeps (point : SnapshotPoint) (hcore : R service.core) :
    R (compactCore service point).2.core := by
  have hcompacted := h service.core point hcore
  unfold compactCore serviceFault
  dsimp only
  split_ifs <;> exact hcompacted

theorem finishJournalCompaction_keeps (compact : ℕ → ℕ → σ → Status × σ)
    (point : SnapshotPoint) (hcore : R service.core) :
    R (finishJournalCompaction compact point service).2.core := by
  unfold finishJournalCompaction
  dsimp only
  split_ifs
  · exact hcore
  · exact hcore
  · exact compactCore_keeps h point hcore

theorem serviceSnapshot_keeps (force : Bool) (hcore : R service.core) :
    R (serviceSnapshot host force service).2.core := by
  have htaken : ∀ policy, R (takeSnapshot policy service).2.core := by
    intro policy
    unfold takeSnapshot
    cases coreSnapshotPoint service.core with
    | error status => exact hcore
    | ok point =>
      dsimp only
      split_ifs
      · exact hcore
      · cases policy.journalCompact with
        | none => exact compactCore_keeps h point hcore
        | some compact => exact finishJournalCompaction_keeps h compact point hcore
  have hplain : ∀ policy, R (if service.core.appliedIndex = service.core.log.baseIndex then
      ((if force then .enoent else .ok, service) : Outcome σ)
      else if !force && decide (service.core.appliedIndex - service.core.log.baseIndex <
        policy.appliedEntryThreshold) then (.ok, service)
      else takeSnapshot policy service).2.core := by
    intro policy
    split_ifs
    · exact hcore
    · exact hcore
    · exact hcore
    · exact htaken policy
  unfold serviceSnapshot
  cases host.policy with
  | none => exact hcore
  | some policy =>
    dsimp only
    cases service.pendingSnapshot with
    | none => exact hplain policy
    | some point =>
      cases policy.journalCompact with
      | none => exact hplain policy
      | some compact => exact finishJournalCompaction_keeps h compact point hcore

end Compaction

theorem enqueueReadStates_core (ready : Ready) :
    (enqueueReadStates service ready).2.core = service.core := by
  unfold enqueueReadStates
  split_ifs <;> rfl

theorem serviceProcessReady_keeps (h : Closed R) (ready : Ready) (hcore : R service.core) :
    R (serviceProcessReady host ready service).2.core := by
  have hprocessed := (runtimeProcess_keeps
    (serviceHandlers_keep h.toTending (fun _ _ _ h => h) host service.storage) h.acks
    service.runtime service.staging ready hcore).1
  unfold serviceProcessReady serviceFault
  generalize runtimeProcess (serviceHandlers host service.storage) service.runtime service.core
    service.staging ready = answer at hprocessed
  obtain ⟨status, drive⟩ := answer
  have hread : R (enqueueReadStates (afterRuntime service drive) ready).2.core := by
    rw [enqueueReadStates_core]
    exact hprocessed
  dsimp only at hprocessed ⊢
  split_ifs
  · exact serviceSnapshot_keeps h.compact false hcore
  · exact hcore
  · exact hread
  · exact hread
  · exact hprocessed
  · exact hread
  · exact serviceSnapshot_keeps h.compact false hread

theorem coreCompact_cases (core : Core) (point : SnapshotPoint) :
    (coreCompact core point).2 = core ∨ coreCompact core point = compactAtPoint core := by
  rcases RaftRecovery.coreCompact_outcome core point with ⟨_, hsame⟩ | ⟨hpoint, _⟩
  · exact Or.inl hsame
  · right
    rw [compactAtPoint, hpoint]

theorem Closed.of_inputs (h : ∀ core input, isCall input = false → R core →
    R (perform core input).2.core) : Closed R where
  paused core id paused _ := h core (.setPeerPaused id paused) rfl
  ready core admitted _ := h core (.ackReady admitted) rfl
  applied core index _ := h core (.ackApplied index) rfl
  advance core _ := h core .advance rfl
  compact core point hcore := by
    rcases coreCompact_cases core point with hsame | hcompacts
    · rw [hsame]
      exact hcore
    · rw [hcompacts]
      exact h core .compact rfl hcore

theorem orderly_closed : Closed fun core => Resting core ∧ Orderly core :=
  .of_inputs fun _ input _ h => ⟨perform_resting h.1 input, perform_orderly h.1 h.2 input⟩

section Runs

variable (h : ∀ core input, R core → R (perform core input).2.core)

include h

theorem guarded_keeps {body : Service σ → Outcome σ}
    (hbody : ∀ service : Service σ, R service.core → R (body service).2.core)
    (hcore : R service.core) : R (guarded host body service).2.core := by
  have hguarded := (mutationGuard_keeps (Closed.of_inputs fun core input _ => h core input).toTending
    host hcore).2
  unfold guarded
  dsimp only
  split_ifs
  · exact hguarded
  · exact hbody _ hguarded

theorem serviceCall_keeps (input : Input) (hcore : R service.core) :
    R (serviceCall host (fun core => perform core input) service).2.core := by
  have hnext := h service.core input hcore
  unfold serviceCall
  dsimp only
  split_ifs
  · exact hnext
  · exact serviceProcessReady_keeps (.of_inputs fun core input _ => h core input) _ hnext

theorem serviceOperation_keeps (operation : Operation) (hcore : R service.core) :
    R (serviceOperation host operation service).2.core :=
  guarded_keeps h (fun _ => serviceCall_keeps h (.call operation readyCapacity)) hcore

theorem serviceProposeBatch_keeps (proposals : List Proposal) (hcore : R service.core) :
    R (serviceProposeBatch host proposals service).2.core := by
  unfold serviceProposeBatch
  split_ifs
  · exact hcore
  · exact serviceOperation_keeps h _ hcore

theorem serviceRun_keeps (hcreate : ∀ config core, coreCreate config = .ok core → R core)
    (event : ServiceEvent σ) (hcore : R service.core) :
    R (serviceRun host service event).2.core := by
  have hclosed : Closed R := .of_inputs fun core input _ => h core input
  cases event with
  | tick | changeMembership => exact serviceOperation_keeps h _ hcore
  | step message =>
    exact guarded_keeps h (fun _ => serviceCall_keeps h (.step message readyCapacity)) hcore
  | propose proposals => exact serviceProposeBatch_keeps h proposals hcore
  | proposeWithReceipts proposals receiptCapacity =>
    have hproposed := @serviceProposeBatch_keeps _ host service R h proposals hcore
    dsimp only [serviceRun, serviceProposeBatchWithReceipts, serviceFault]
    split_ifs
    · exact hcore
    · exact hcore
    · exact hproposed
    · exact hproposed
    · exact hproposed
  | transferLeadership | snapshotCompleted =>
    dsimp only [serviceRun, serviceTransferLeadership, serviceSnapshotCompleted]
    split_ifs
    · exact hcore
    · exact serviceOperation_keeps h _ hcore
  | readIndex contextId =>
    dsimp only [serviceRun, serviceReadIndex]
    split_ifs
    · exact hcore
    refine guarded_keeps h (fun service hcore => ?_) hcore
    split_ifs
    · exact hcore
    · exact hcore
    · exact serviceCall_keeps h (.call (.readIndex contextId) readyCapacity) hcore
  | takeReadState =>
    refine guarded_keeps h (fun service hcore => ?_) hcore
    cases service.readStates with
    | nil => exact hcore
    | cons state rest =>
      dsimp only
      split_ifs <;> exact hcore
  | poll =>
    have hdrained := (mutationGuard_keeps hclosed.toTending host hcore).1
    dsimp only [serviceRun, servicePoll]
    generalize drainPending host service = answer at hdrained
    obtain ⟨status, drained⟩ := answer
    have hretried := runtimeRetryApply_keeps
      (serviceHandlers_keep hclosed.toTending (fun _ _ _ h => h) host drained.storage)
      hclosed.acks drained.runtime drained.staging hdrained
    split_ifs
    · exact hdrained
    · exact hretried
    · exact hretried
    · exact serviceSnapshot_keeps hclosed.compact false hretried
    · exact serviceCall_keeps h (.call .poll readyCapacity) hdrained
  | triggerSnapshot => exact guarded_keeps h (fun _ => serviceSnapshot_keeps hclosed.compact true) hcore
  | prepareBackup =>
    refine guarded_keeps h (fun service hcore => ?_) hcore
    split_ifs <;> exact hcore
  | resumeBackup storage =>
    dsimp only [serviceRun, serviceResumeBackup]
    split_ifs <;> exact hcore
  | reload config =>
    dsimp only [serviceRun, serviceReload]
    split_ifs
    · exact hcore
    · exact hcore
    cases hcreated : coreCreate config with
    | error status => exact hcore
    | ok core => exact hcreate config core hcreated

end Runs

theorem serviceCreate_ok {storage : Option (Storage σ)} {config : CoreConfig} {state : σ}
    (h : serviceCreate host storage config state = .ok service) :
    ∃ core, coreCreate config = .ok core ∧ service.core = core ∧ service.runtime = .fresh ∧
      service.storage = storage ∧ service.fault = none ∧ service.pendingSnapshot = none ∧
      service.readStates = [] ∧
      service.staging = ⟨blankDeliveries, state, []⟩ := by
  unfold serviceCreate at h
  dsimp only at h
  split_ifs at h <;>
  · cases hcreate : coreCreate config with rw [hcreate] at h
    | error status =>
      cases h
    | ok core =>
      cases h
      exact ⟨core, rfl, rfl, rfl, rfl, rfl, rfl, rfl, rfl⟩

def serviceSystem (host : ServiceHost σ) (start : Service σ) :
    StepSystem (Service σ) (ServiceEvent σ) :=
  { init := start, step := fun service event => some (serviceNext host service event) }

/-- A created service under any operations, as long as the indices of its core fit. -/
structure ServiceRun (host : ServiceHost σ) where
  storage : Option (Storage σ)
  config : CoreConfig
  state : σ
  start : Service σ
  created : serviceCreate host storage config state = .ok start
  run : Execution (serviceSystem host start)
  indexable : run.Stays fun service => Indexable service.core.log

theorem ServiceRun.step (run : ServiceRun host) {k : ℕ} (hk : k < run.run.length) :
    run.run.state (k + 1) = serviceNext host (run.run.state k) (run.run.event k) :=
  (Option.some.inj (run.run.transition k hk)).symm

theorem ServiceRun.resting (run : ServiceRun host) {k : ℕ} (hk : k ≤ run.run.length) :
    Resting (run.run.state k).core := by
  have hmeets : run.run.Meets fun _ _ => True := fun _ _ => trivial
  apply run.run.invariant hmeets (fun service => Resting service.core) _ _ k hk
  · obtain ⟨core, hcore, hsame, _⟩ := serviceCreate_ok run.created
    change Resting run.start.core
    rw [hsame]
    exact coreCreate_resting hcore
  · intro service event service' h _ hstep
    cases hstep
    exact serviceRun_keeps (fun _ input h => perform_resting h input)
      (fun _ _ hcreate => coreCreate_resting hcreate) event h

def okStorage : Storage σ := fun _ state => (.ok, state)

def startedService (config : CoreConfig) (core : Core) (state : σ) : Service σ :=
  { core
    runtime := .fresh
    storage := some okStorage
    staging := { deliveries := blankDeliveries, host := state, answers := [] }
    pendingSnapshot := none
    backupPrepared := false
    readStates := []
    maxCompletedReads :=
      if config.maxPendingReads == 0 then defaultMaxPendingReads else config.maxPendingReads
    fault := none }

def operationsFit (host : ServiceHost σ) (config : CoreConfig) (state : σ)
    (events : List (ServiceEvent σ)) : Bool :=
  let start := startedService config (createdCore config) state
  !(host.policy.any fun policy => !snapshotPolicyValid policy
      (if config.maxLogEntries == 0 then defaultMaxLogEntries else config.maxLogEntries)) &&
    (coreCreate config).isOk && decide (Indexable start.core.log) &&
    meetsAlong (serviceSystem host start)
      (fun service event => decide (Indexable (serviceNext host service event).core.log)) start events

instance : Inhabited (ServiceEvent σ) := ⟨.poll⟩

theorem serviceSystem_enabled (start service : Service σ) (events : List (ServiceEvent σ)) :
    (runEvents (serviceSystem host start) service events).isSome = true := by
  induction events generalizing service with
  | nil => rfl
  | cons event rest ih => exact ih _

def ServiceRun.ofEvents (host : ServiceHost σ) (config : CoreConfig) (state : σ)
    (events : List (ServiceEvent σ)) (h : operationsFit host config state events = true) :
    ServiceRun host where
  storage := some okStorage
  config := config
  state := state
  start := startedService config (createdCore config) state
  created := by
    simp only [operationsFit, Bool.and_eq_true, Bool.not_eq_true'] at h
    unfold serviceCreate
    dsimp only
    rw [h.1.1.1, createdCore_ok h.1.1.2]
    rfl
  run := .ofEvents _ events (serviceSystem_enabled _ _ events)
  indexable := by
    simp only [operationsFit, Bool.and_eq_true, decide_eq_true_eq] at h
    exact Execution.ofEvents_stays _ h.1.2 h.2

/-- Callbacks that always answer OK around a journal, whose calls the host counts. -/
def willingHost (source : SourceInfo) (journal : ℕ → Status) : ServiceHost ℕ :=
  { enqueue := some fun _ calls => (.ok, calls)
    enqueueSnapshot := some fun _ calls => (.ok, calls)
    applyBatch := some fun _ calls => (.ok, calls)
    policy := some
      { appliedEntryThreshold := 1
        maxSnapshotBytes := 1
        maxBufferedSnapshotBytes := 0
        maker := .streaming (fun _ calls => (.ok, source, calls)) fun _ _ calls => (.ok, calls)
        journalCompact := some fun _ _ calls => (journal calls, calls + 1) } }

def quietHost : ServiceHost ℕ := { willingHost ⟨true, 0⟩ fun _ => .ok with policy := none }

def soloElection : ServiceEvent σ := .tick { elapsedTicks := 5, nextElectionTimeoutTicks := 5 }

end RaftServiceRules
