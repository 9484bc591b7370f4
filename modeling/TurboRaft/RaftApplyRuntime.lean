import TurboRaft.RaftRuntime

/-! # The asynchronous apply runtime

The runtime persists and sends a Ready at once, keeps its committed entries in a bounded buffer,
and hands them to the state machine one by one. The state machine owns an entry it has accepted
until it settles it. Next to the runtime stands what it asked and what was answered, for the
statements about runs. -/
namespace RaftApplyRuntime

open RaftTypes RaftConfiguration RaftCore RaftRuntime

section States

inductive ApplyAdmission where
  | invalid
  | accepted
  | full
  | closed
  | failed
  deriving DecidableEq, Repr

inductive ApplyOutcome where
  | invalid
  | applied
  | pending
  | gap
  | conflict
  | unknown
  deriving DecidableEq, Repr

structure ApplySettlement where
  token : ℕ
  outcome : ApplyOutcome
  cause : Status
  deriving DecidableEq, Repr

inductive ApplyState where
  | idle
  | waitingAdmission
  | waitingSettlement
  | complete
  | faulted
  deriving DecidableEq, Repr

/-- The used part of the entry array is a list; the entries before the cursor are done. -/
structure ApplyRuntime where
  entries : List Entry
  entryCapacity : ℕ
  entryCursor : ℕ
  admittedThrough : ℕ
  state : ApplyState
  progress : RuntimeResult
  active : Bool
  faulted : Bool
  reconciliationPending : Bool
  deriving DecidableEq, Repr

structure ApplyResult where
  state : ApplyState
  progress : RuntimeResult
  inFlightToken : ℕ
  deriving DecidableEq, Repr

def ApplyResult.blank : ApplyResult :=
  { state := .idle, progress := RuntimeResult.blank, inFlightToken := 0 }

/-- The host's callbacks. They do not call the core that calls them; a null pointer in the
storage or transport table is missing here. -/
structure ApplyHandlers (σ : Type) where
  storage : Option (StorageStep → σ → Status × σ)
  enqueue : Option (Message → σ → Status × σ)
  enqueueSnapshot : Option (SnapshotRequest → σ → Status × σ)
  tryApply : Entry → ℕ → σ → (ApplyAdmission × Status) × σ
  pollSettlement : σ → (Status × Option ApplySettlement) × σ

/-- What passes between the runtime and the state machine: committed entries that the runtime
takes over, submissions with their answer, settlements of the entry in flight, and decisions of
the host about it. -/
inductive ApplyRecord where
  | handed (entries : List Entry)
  | submitted (entry : Entry) (token : ℕ) (admission : ApplyAdmission)
  | settled (entry : Entry) (settlement : ApplySettlement)
  | reconciled (entry : Entry) (outcome : ApplyOutcome)
  deriving DecidableEq, Repr

structure ApplyDrive (σ : Type) where
  runtime : ApplyRuntime
  core : Core
  host : σ
  records : List ApplyRecord

variable {σ : Type}

def currentEntry (runtime : ApplyRuntime) : Option Entry := runtime.entries[runtime.entryCursor]?

def applyCopyResult (runtime : ApplyRuntime) : ApplyResult :=
  { state := runtime.state
    progress := runtime.progress
    inFlightToken :=
      if runtime.state == .waitingSettlement || runtime.reconciliationPending then
        ((currentEntry runtime).map Entry.index).getD 0
      else 0 }

def applyCompactEntries (runtime : ApplyRuntime) : ApplyRuntime :=
  { runtime with entries := runtime.entries.drop runtime.entryCursor, entryCursor := 0 }

def stageThen (result : Status × ApplyDrive σ) (next : ApplyDrive σ → Status × ApplyDrive σ) :
    Status × ApplyDrive σ :=
  match result with
  | (.ok, drive) => next drive
  | failed => failed

def returning (result : Status × ApplyDrive σ) : Status × ApplyResult × ApplyDrive σ :=
  (result.1, applyCopyResult result.2.runtime, result.2)

end States

section Faults

variable {σ : Type}

def applySetFault (drive : ApplyDrive σ) (stage : RuntimeStage) (cause : Status)
    (reconciliationPending : Bool) : Status × ApplyDrive σ :=
  let cause := if cause = .ok then .eproto else cause
  (cause, { drive with runtime :=
    { drive.runtime with
      faulted := true
      reconciliationPending
      state := .faulted
      progress := { drive.runtime.progress with stage, cause } } })

def applyFail (drive : ApplyDrive σ) (stage : RuntimeStage) (cause : Status) :
    Status × ApplyDrive σ :=
  applySetFault drive stage cause false

def applyFailRecoverable (drive : ApplyDrive σ) (stage : RuntimeStage) (cause : Status) :
    Status × ApplyDrive σ :=
  applySetFault drive stage cause true

def applyEntryEqual (left right : Entry) : Bool :=
  left.index == right.index && left.term == right.term && left.commandId == right.commandId &&
    left.data.length == right.data.length && decide (left.data.length ≤ maxEntryBytes) &&
    left.data == right.data

end Faults

section Stages

variable {σ : Type}

def plain (call : σ → Status × σ) : Callback σ := fun core host =>
  match call host with
  | (status, host) => (status, core, host)

/-- The tables in the form of the synchronous runtime, which persists and sends by the same
steps. -/
def plainHandlers (handlers : ApplyHandlers σ) : Handlers σ :=
  { storage := handlers.storage.map fun storage step => plain (storage step)
    enqueue := handlers.enqueue.map fun enqueue message => plain (enqueue message)
    enqueueSnapshot := handlers.enqueueSnapshot.map fun enqueue request => plain (enqueue request)
    applyBatch := none }

/-- A stage of the synchronous runtime over the progress of this one. Where it fails, its result
names the stage and the cause. -/
def applyStage (stage : Drive σ → Status × Drive σ) (drive : ApplyDrive σ) :
    Status × ApplyDrive σ :=
  let (status, done) := stage
    { runtime := Runtime.fresh, core := drive.core, host := drive.host
      result := drive.runtime.progress }
  let drive := { drive with
    host := done.host
    runtime := { drive.runtime with progress := done.result } }
  if status ≠ .ok then applyFail drive done.result.stage status else (.ok, drive)

def applyPersist (handlers : ApplyHandlers σ) (ready : Ready) (drive : ApplyDrive σ) :
    Status × ApplyDrive σ :=
  applyStage (persistReadyWith (plainHandlers handlers) ready) drive

def applySend (handlers : ApplyHandlers σ) (ready : Ready) (drive : ApplyDrive σ) :
    Status × ApplyDrive σ :=
  applyStage (sendReady (plainHandlers handlers) ready) drive

def applyAcknowledge (index : ℕ) (drive : ApplyDrive σ) : Status × ApplyDrive σ :=
  let (status, core) := coreAckApplied drive.core index
  if status ≠ .ok then applyFail { drive with core } .coreAdvance status
  else (.ok, { drive with
    core
    runtime := { drive.runtime with
      progress := { drive.runtime.progress with appliedThrough := index }
      entryCursor := drive.runtime.entryCursor + 1 } })

def applyComplete (drive : ApplyDrive σ) : Status × ApplyDrive σ :=
  (.ok, { drive with runtime := { drive.runtime with
    active := false
    entries := []
    entryCursor := 0
    state := .complete
    progress := { drive.runtime.progress with stage := .complete, cause := .ok } } })

def applySubmit (handlers : ApplyHandlers σ) (entry : Entry) (drive : ApplyDrive σ) :
    Status × ApplyDrive σ :=
  let runtime := { drive.runtime with
    state := .waitingAdmission
    progress := { drive.runtime.progress with stage := .stateMachineApply } }
  match handlers.tryApply entry entry.index drive.host with
  | ((admission, cause), host) =>
    let drive : ApplyDrive σ :=
      { runtime, core := drive.core, host
        records := drive.records ++ [.submitted entry entry.index admission] }
    match admission with
    | .accepted =>
      (.ok, { drive with runtime := { runtime with
        state := .waitingSettlement
        progress := { runtime.progress with cause := .ok } } })
    | .full =>
      (.ok, { drive with runtime := { runtime with
        progress := { runtime.progress with cause := .enobufs } } })
    | .closed => applyFail drive .stateMachineApply (if cause = .ok then .eshutdown else cause)
    | .failed | .invalid =>
      applyFail drive .stateMachineApply (if cause = .ok then .eproto else cause)

/-- Configuration entries need no state machine. Every turn passes one of them, so as many turns
as there are entries end the loop. -/
def applyDriveLoop (handlers : ApplyHandlers σ) : ℕ → ApplyDrive σ → Status × ApplyDrive σ
  | 0, drive => applyComplete drive
  | turns + 1, drive =>
    match currentEntry drive.runtime with
    | none => applyComplete drive
    | some entry =>
      if confEntryIsConfiguration entry then
        stageThen (applyAcknowledge entry.index drive) (applyDriveLoop handlers turns)
      else applySubmit handlers entry drive

def applyDriveAdmission (handlers : ApplyHandlers σ) (drive : ApplyDrive σ) :
    Status × ApplyDrive σ :=
  applyDriveLoop handlers drive.runtime.entries.length drive

end Stages

variable {σ : Type}

def applyRuntimeCreate (core : Core) (maxPendingEntries : ℕ) : Except Status ApplyRuntime :=
  if maxPendingEntries = 0 then
    .error .einval
  else if core.commitIndex < core.appliedIndex then
    .error .eproto
  else
    .ok
      { entries := []
        entryCapacity := maxPendingEntries
        entryCursor := 0
        admittedThrough := core.appliedIndex
        state := .idle
        progress := { RuntimeResult.blank with appliedThrough := core.appliedIndex }
        active := false
        faulted := false
        reconciliationPending := false }

def faultAnswer (drive : ApplyDrive σ) : Status × ApplyResult × ApplyDrive σ :=
  let drive := { drive with runtime := { drive.runtime with state := .faulted } }
  (if drive.runtime.progress.cause = .ok then .eproto else drive.runtime.progress.cause,
    applyCopyResult drive.runtime, drive)

def refusal (drive : ApplyDrive σ) (state : ApplyState) (cause : Status) :
    Status × ApplyResult × ApplyDrive σ :=
  (cause, { ApplyResult.blank with
    state, progress := { RuntimeResult.blank with cause } }, drive)

/-- The committed entries continue those that were admitted. There are no more of them than up to
the commit index, so the sum stays within a word. -/
def committedFollow (admittedThrough : ℕ) (entries : List Entry) : Bool :=
  entries.zipIdx.all fun (entry, i) =>
    decide (entry.data.length ≤ maxEntryBytes) && admittedThrough != uint64Max &&
      entry.index == admittedThrough + i + 1

def applyTakeOver (runtime : ApplyRuntime) (core : Core) (ready : Ready) : ApplyRuntime :=
  { runtime with
    entries := runtime.entries ++ ready.committedEntries
    active := true
    progress := { runtime.progress with
      rollbackError := .ok
      messagesEnqueued := 0
      snapshotsRequested := 0
      durable := false
      readState := ready.readStates.head?
      appliedThrough := core.appliedIndex } }

def applyAckReady (ready : Ready) (drive : ApplyDrive σ) : Status × ApplyDrive σ :=
  let drive := { drive with runtime := { drive.runtime with
    progress := { drive.runtime.progress with stage := .coreAdvance } } }
  let (status, core) := coreAckReady drive.core ready.committedEntries.length
  if status ≠ .ok then applyFail { drive with core } .coreAdvance status
  else (.ok, { drive with
    core
    runtime := { drive.runtime with
      admittedThrough := drive.runtime.admittedThrough + ready.committedEntries.length }
    records := drive.records ++ [.handed ready.committedEntries] })

def applyConsume (handlers : ApplyHandlers σ) (ready : Ready) (drive : ApplyDrive σ) :
    Status × ApplyDrive σ :=
  stageThen (stageThen (applyPersist handlers ready drive) (applySend handlers ready))
    (applyAckReady ready)

/-- An entry that is already on its way stays where it is; otherwise the first one starts. -/
def applyContinue (handlers : ApplyHandlers σ) (before : ApplyRuntime) (drive : ApplyDrive σ) :
    Status × ApplyDrive σ :=
  if before.active then
    (.ok, { drive with runtime := { drive.runtime with
      state := before.state
      progress := { drive.runtime.progress with
        cause := before.progress.cause, stage := .stateMachineApply } } })
  else
    applyDriveAdmission handlers { drive with runtime := { drive.runtime with
      state := .waitingAdmission
      progress := { drive.runtime.progress with cause := .ok } } }

def applyRuntimeStart (handlers : ApplyHandlers σ) (ready : Ready) (drive : ApplyDrive σ) :
    Status × ApplyResult × ApplyDrive σ :=
  if drive.runtime.faulted then
    faultAnswer drive
  else if ready.messageCapacity < ready.messages.length ||
      maxMembers < ready.snapshotRequests.length then
    refusal drive .idle .einval
  else if !drive.core.readyOutstanding || drive.core.commitIndex < drive.core.appliedIndex ||
      drive.core.commitIndex < drive.runtime.admittedThrough ||
      ready.committedEntries.length != drive.core.commitIndex - drive.runtime.admittedThrough then
    refusal drive .idle .eproto
  else
    let compacted := { drive with runtime := applyCompactEntries drive.runtime }
    if compacted.runtime.entryCapacity - compacted.runtime.entries.length <
        ready.committedEntries.length then
      refusal compacted (if compacted.runtime.active then compacted.runtime.state else .idle) .enobufs
    else if !committedFollow compacted.runtime.admittedThrough ready.committedEntries then
      refusal compacted .idle .eproto
    else
      returning (stageThen
        (applyConsume handlers ready { compacted with
          runtime := applyTakeOver compacted.runtime compacted.core ready })
        (applyContinue handlers compacted.runtime))

def applySettle (handlers : ApplyHandlers σ) (entry : Entry) (settlement : ApplySettlement)
    (drive : ApplyDrive σ) : Status × ApplyDrive σ :=
  if settlement.token ≠ entry.index then
    applyFail drive .stateMachineApply .eproto
  else
    let drive := { drive with records := drive.records ++ [.settled entry settlement] }
    match settlement.outcome with
    | .pending =>
      applyDriveAdmission handlers { drive with runtime := { drive.runtime with
        state := .waitingAdmission
        progress := { drive.runtime.progress with cause := settlement.cause } } }
    | .gap | .conflict | .unknown =>
      applyFailRecoverable drive .stateMachineApply
        (if settlement.cause = .ok then .eproto else settlement.cause)
    | .invalid => applyFail drive .stateMachineApply .eproto
    | .applied =>
      if settlement.cause ≠ .ok then
        applyFail drive .stateMachineApply .eproto
      else
        stageThen (applyAcknowledge settlement.token drive) (applyDriveAdmission handlers)

def applyRuntimePoll (handlers : ApplyHandlers σ) (drive : ApplyDrive σ) :
    Status × ApplyResult × ApplyDrive σ :=
  if drive.runtime.faulted then
    faultAnswer drive
  else if !drive.runtime.active then
    refusal drive .idle .eproto
  else if drive.runtime.state = .waitingAdmission then
    returning (applyDriveAdmission handlers drive)
  else
    match currentEntry drive.runtime with
    | none => returning (applyFail drive .stateMachineApply .eproto)
    | some entry =>
      if drive.runtime.state ≠ .waitingSettlement then
        returning (applyFail drive .stateMachineApply .eproto)
      else
        match handlers.pollSettlement drive.host with
        | ((status, settlement), host) =>
          let drive := { drive with host }
          if status ≠ .ok then
            returning (applyFail drive .stateMachineApply status)
          else
            match settlement with
            | none => (.ok, applyCopyResult drive.runtime, drive)
            | some settlement => returning (applySettle handlers entry settlement drive)

def applyRuntimeReconcile (handlers : ApplyHandlers σ) (entry : Entry) (outcome : ApplyOutcome)
    (drive : ApplyDrive σ) : Status × ApplyResult × ApplyDrive σ :=
  if outcome ≠ .applied && outcome ≠ .pending then
    (.einval, applyCopyResult drive.runtime, drive)
  else if !drive.runtime.faulted || !drive.runtime.reconciliationPending || !drive.runtime.active ||
      drive.runtime.state ≠ .faulted then
    (.eproto, applyCopyResult drive.runtime, drive)
  else
    match currentEntry drive.runtime with
    | none => (.eproto, applyCopyResult drive.runtime, drive)
    | some current =>
      if !applyEntryEqual current entry then
        (.eproto, applyCopyResult drive.runtime, drive)
      else
        let drive := { drive with
          runtime := { drive.runtime with
            faulted := false
            reconciliationPending := false
            progress := { drive.runtime.progress with cause := .ok } }
          records := drive.records ++ [.reconciled current outcome] }
        if outcome = .pending then
          returning (applyDriveAdmission handlers { drive with runtime :=
            { drive.runtime with state := .waitingAdmission } })
        else
          returning (stageThen (applyAcknowledge current.index drive)
            (applyDriveAdmission handlers))

end RaftApplyRuntime
