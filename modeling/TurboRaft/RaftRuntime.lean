import TurboRaft.RaftCore

/-! # The runtime between a core and its host

The runtime consumes one Ready: it persists, sends and applies, in this order. The callbacks of
the host are functions on the core and on a state of their own, since the host's transport may
change the core while it takes a message. -/
namespace RaftRuntime

open RaftTypes RaftConfiguration RaftCore

inductive RuntimeStage where
  | idle
  | storageBegin
  | storageHardState
  | storageTruncate
  | storageAppend
  | storageCommitIndex
  | storageCommit
  | transportSend
  | stateMachineApply
  | coreAdvance
  | complete
  deriving DecidableEq, Repr

structure RuntimeResult where
  stage : RuntimeStage
  cause : Status
  rollbackError : Status
  messagesEnqueued : ℕ
  snapshotsRequested : ℕ
  appliedThrough : ℕ
  durable : Bool
  readState : Option ReadState
  deriving DecidableEq, Repr

def RuntimeResult.blank : RuntimeResult :=
  { stage := .idle, cause := .ok, rollbackError := .ok, messagesEnqueued := 0,
    snapshotsRequested := 0, appliedThrough := 0, durable := false, readState := none }

inductive StorageStep where
  | begin
  | writeHardState (term : ℕ) (votedFor : NodeId)
  | truncateLog (first : ℕ)
  | appendLog (entries : List Entry)
  | writeCommitIndex (index : ℕ)
  | commit
  | rollback
  deriving DecidableEq, Repr

/-- A callback returns its status and may change the core and the host. -/
abbrev Callback (σ : Type) := Core → σ → Status × Core × σ

/-- The callback tables; a missing callback is a null pointer in its table. The storage table is
used only when all of it is there. -/
structure Handlers (σ : Type) where
  storage : Option (StorageStep → Callback σ)
  enqueue : Option (Message → Callback σ)
  enqueueSnapshot : Option (SnapshotRequest → Callback σ)
  applyBatch : Option (List Entry → Callback σ)

/-- The entries of a blocked batch are those of the Ready that offered them. -/
structure Runtime where
  blockedEntries : List Entry
  blockedApplyBegin : ℕ
  applyBlocked : Bool
  faulted : Bool
  deriving DecidableEq, Repr

def Runtime.fresh : Runtime :=
  { blockedEntries := [], blockedApplyBegin := 0, applyBlocked := false, faulted := false }

/-- What one call of the runtime works on. -/
structure Drive (σ : Type) where
  runtime : Runtime
  core : Core
  host : σ
  result : RuntimeResult

variable {σ : Type}

def Drive.at (drive : Drive σ) (stage : RuntimeStage) : Drive σ :=
  { drive with result := { drive.result with stage } }

def runtimeFail (drive : Drive σ) (stage : RuntimeStage) (cause : Status) : Status × Drive σ :=
  (cause, { drive with
    runtime := { drive.runtime with faulted := true }
    result := { drive.result with stage, cause } })

def clearApplyBlock (drive : Drive σ) : Drive σ :=
  { drive with runtime :=
    { drive.runtime with blockedEntries := [], blockedApplyBegin := 0, applyBlocked := false } }

def callback (call : Callback σ) (drive : Drive σ) : Status × Drive σ :=
  match call drive.core drive.host with
  | (status, core, host) => (status, { drive with core, host })

def readyNeedsStorage (ready : Ready) : Bool :=
  ready.hardStateChanged || ready.logChanged || ready.commitChanged

def stageOf : StorageStep → RuntimeStage
  | .begin => .storageBegin
  | .writeHardState _ _ => .storageHardState
  | .truncateLog _ => .storageTruncate
  | .appendLog _ => .storageAppend
  | .writeCommitIndex _ => .storageCommitIndex
  | .commit => .storageCommit
  | .rollback => .storageCommit

def transactionSteps (ready : Ready) : List StorageStep :=
  (if ready.hardStateChanged then [.writeHardState ready.term ready.votedFor] else []) ++
    (if ready.logChanged && ready.logTruncateFrom != 0 then [.truncateLog ready.logTruncateFrom]
      else []) ++
    (if ready.logChanged && ready.logEntries.length != 0 then [.appendLog ready.logEntries]
      else []) ++
    (if ready.commitChanged then [.writeCommitIndex ready.commitIndex] else []) ++ [.commit]

def runtimeRollback (storage : StorageStep → Callback σ) (drive : Drive σ) (stage : RuntimeStage)
    (cause : Status) : Status × Drive σ :=
  let (status, drive) := callback (storage .rollback) drive
  runtimeFail { drive with result := { drive.result with rollbackError := status } } stage cause

def persistSteps (storage : StorageStep → Callback σ) : List StorageStep → Drive σ →
    Status × Drive σ
  | [], drive => (.ok, { drive with result := { drive.result with durable := true } })
  | step :: rest, drive =>
    let (status, drive) := callback (storage step) (drive.at (stageOf step))
    if status ≠ .ok then runtimeRollback storage drive (stageOf step) status
    else persistSteps storage rest drive

def runtimePersist (storage : StorageStep → Callback σ) (ready : Ready) (drive : Drive σ) :
    Status × Drive σ :=
  let (status, drive) := callback (storage .begin) (drive.at .storageBegin)
  if status ≠ .ok then runtimeFail drive .storageBegin status
  else persistSteps storage (transactionSteps ready) drive

/-- A Ready without changes of the durable state opens no transaction. -/
def persistReadyWith (handlers : Handlers σ) (ready : Ready) (drive : Drive σ) : Status × Drive σ :=
  if readyNeedsStorage ready then
    match handlers.storage with
    | none => runtimeFail drive .storageBegin .einval
    | some storage => runtimePersist storage ready drive
  else (.ok, drive)

def countMessage (drive : Drive σ) : Drive σ :=
  { drive with result :=
    { drive.result with messagesEnqueued := drive.result.messagesEnqueued + 1 } }

def countSnapshot (drive : Drive σ) : Drive σ :=
  { drive with result :=
    { drive.result with snapshotsRequested := drive.result.snapshotsRequested + 1 } }

def sendMessages (enqueue : Message → Callback σ) : List Message → Drive σ → Status × Drive σ
  | [], drive => (.ok, drive)
  | message :: rest, drive =>
    let (status, drive) := callback (enqueue message) drive
    if status ≠ .ok then runtimeFail drive .transportSend status
    else sendMessages enqueue rest (countMessage drive)

def sendSnapshots (enqueueSnapshot : Option (SnapshotRequest → Callback σ)) :
    List SnapshotRequest → Drive σ → Status × Drive σ
  | [], drive => (.ok, drive)
  | request :: rest, drive =>
    match enqueueSnapshot with
    | none => runtimeFail drive .transportSend .einval
    | some enqueue =>
      let (status, drive) := callback (enqueue request) drive
      if status ≠ .ok then runtimeFail drive .transportSend status
      else sendSnapshots enqueueSnapshot rest (countSnapshot drive)

/-- The messages go first; their callback is looked up before the first of them. -/
def sendReady (handlers : Handlers σ) (ready : Ready) (drive : Drive σ) : Status × Drive σ :=
  if ready.messages.length = 0 then
    sendSnapshots handlers.enqueueSnapshot ready.snapshotRequests (drive.at .transportSend)
  else
    match handlers.enqueue with
    | none => runtimeFail drive .transportSend .einval
    | some enqueue =>
      let (status, drive) := sendMessages enqueue ready.messages (drive.at .transportSend)
      if status ≠ .ok then (status, drive)
      else sendSnapshots handlers.enqueueSnapshot ready.snapshotRequests drive

def ackEntries : List Entry → Drive σ → Status × Drive σ
  | [], drive => (.ok, drive)
  | entry :: rest, drive =>
    let (status, core) := coreAckApplied drive.core entry.index
    if status ≠ .ok then runtimeFail { drive with core } .coreAdvance status
    else ackEntries rest { drive with
      core
      result := { drive.result with appliedThrough := entry.index } }

def ackAppliedRange (entries : List Entry) (drive : Drive σ) : Status × Drive σ :=
  ackEntries entries (drive.at .coreAdvance)

def ackReadyPrefix (entries : List Entry) (applied : ℕ) (drive : Drive σ) : Status × Drive σ :=
  let (status, core) := coreAckReady drive.core entries.length
  if status ≠ .ok then runtimeFail { drive with core } .coreAdvance status
  else ackAppliedRange (entries.take applied) { drive with core }

/-- A Ready that is not acknowledged yet is acknowledged, with the entries before `first`. -/
def ackBefore (entries : List Entry) (first : ℕ) (acknowledged : Bool) (drive : Drive σ) :
    Status × Drive σ :=
  if acknowledged then (.ok, drive) else ackReadyPrefix entries first drive

/-- Entries that went through after their Ready was acknowledged are acknowledged one by one. -/
def ackAfter (passed : List Entry) (acknowledged : Bool) (drive : Drive σ) : Status × Drive σ :=
  if acknowledged then
    let (status, drive) := ackAppliedRange passed drive
    if status ≠ .ok then (status, clearApplyBlock drive) else (.ok, drive.at .stateMachineApply)
  else (.ok, drive)

def blockApply (entries : List Entry) (first : ℕ) (acknowledged : Bool) (drive : Drive σ) :
    Status × Drive σ :=
  let (status, drive) := ackBefore entries first acknowledged drive
  if status ≠ .ok then (status, clearApplyBlock drive)
  else
    (.ebusy, { drive with
      runtime := { drive.runtime with
        blockedEntries := entries
        blockedApplyBegin := first
        applyBlocked := true }
      result := { drive.result with stage := .stateMachineApply, cause := .ebusy } })

def failApply (entries : List Entry) (first : ℕ) (acknowledged : Bool) (cause : Status)
    (drive : Drive σ) : Status × Drive σ :=
  let (status, drive) := ackBefore entries first acknowledged drive
  if status ≠ .ok then (status, clearApplyBlock drive)
  else runtimeFail (clearApplyBlock drive) .stateMachineApply cause

def endApply (entries : List Entry) (acknowledged : Bool) (drive : Drive σ) : Status × Drive σ :=
  (.ok, clearApplyBlock (if acknowledged then drive else
    match entries.getLast? with
    | none => drive
    | some entry => { drive with result := { drive.result with appliedThrough := entry.index } }))

/-- The entries up to the next configuration entry. -/
def batchAt (entries : List Entry) (first : ℕ) : List Entry :=
  (entries.drop first).takeWhile fun entry => !confEntryIsConfiguration entry

/-- The loop over the committed entries from `first` on. Every turn passes at least one entry, so
as many turns as there are entries left end the loop. -/
def applyLoop (handlers : Handlers σ) (entries : List Entry) (acknowledged : Bool) : ℕ → ℕ →
    Drive σ → Status × Drive σ
  | 0, _, drive => endApply entries acknowledged drive
  | turns + 1, first, drive =>
    match entries[first]? with
    | none => endApply entries acknowledged drive
    | some entry =>
      if confEntryIsConfiguration entry then
        let (status, drive) := ackAfter [entry] acknowledged drive
        if status ≠ .ok then (status, drive)
        else applyLoop handlers entries acknowledged turns (first + 1) drive
      else
        match handlers.applyBatch with
        | none => runtimeFail drive .stateMachineApply .einval
        | some apply =>
          let batch := batchAt entries first
          let (status, drive) := callback (apply batch) drive
          if status = .ebusy then blockApply entries first acknowledged drive
          else if status ≠ .ok then failApply entries first acknowledged status drive
          else
            let (status, drive) := ackAfter batch acknowledged drive
            if status ≠ .ok then (status, drive)
            else applyLoop handlers entries acknowledged turns (first + batch.length) drive

def applyFrom (handlers : Handlers σ) (entries : List Entry) (first : ℕ) (acknowledged : Bool)
    (drive : Drive σ) : Status × Drive σ :=
  applyLoop handlers entries acknowledged (entries.length - first) first
    (drive.at .stateMachineApply)

def advanceAfterApply (drive : Drive σ) : Status × Drive σ :=
  let (status, core) := coreAdvance drive.core
  if status ≠ .ok then runtimeFail { drive with core } .coreAdvance status
  else (.ok, { drive with core }.at .complete)

def applyReady (handlers : Handlers σ) (ready : Ready) (drive : Drive σ) : Status × Drive σ :=
  if ready.committedEntries.length = 0 then (.ok, drive)
  else applyFrom handlers ready.committedEntries 0 false drive

/-- The stages of a Ready, each of them only after the one before it. -/
def processReady (handlers : Handlers σ) (ready : Ready) (drive : Drive σ) : Status × Drive σ :=
  let (status, drive) := persistReadyWith handlers ready drive
  if status ≠ .ok then (status, drive)
  else
    let (status, drive) := sendReady handlers ready drive
    if status ≠ .ok then (status, drive)
    else
      let (status, drive) := applyReady handlers ready drive
      if status ≠ .ok then (status, drive) else advanceAfterApply drive

def startDrive (runtime : Runtime) (core : Core) (host : σ) : Drive σ :=
  { runtime, core, host, result := RuntimeResult.blank }

def runtimeProcess (handlers : Handlers σ) (runtime : Runtime) (core : Core) (host : σ)
    (ready : Ready) : Status × Drive σ :=
  let drive := startDrive runtime core host
  if runtime.faulted then runtimeFail drive .idle .eproto
  else if runtime.applyBlocked then
    (.ebusy, { drive with result :=
      { drive.result with stage := .stateMachineApply, cause := .ebusy } })
  else
    processReady handlers ready
      { drive with result := { drive.result with readState := ready.readStates.head? } }

def runtimeRetryApply (handlers : Handlers σ) (runtime : Runtime) (core : Core) (host : σ) :
    Status × Drive σ :=
  let drive := startDrive runtime core host
  if runtime.faulted then runtimeFail drive .idle .eproto
  else if !runtime.applyBlocked || runtime.blockedEntries.length ≤ runtime.blockedApplyBegin then
    (.enoent, drive)
  else
    let (status, drive) :=
      applyFrom handlers runtime.blockedEntries runtime.blockedApplyBegin true drive
    if status ≠ .ok then (status, drive) else (.ok, drive.at .complete)

end RaftRuntime
