import TurboRaft.Executions
import TurboRaft.RaftTypes

/-! # The multicore runtime

Groups are spread over owner threads. Submitters put requests into the ring of a group, its
owner executes them and puts completions into another ring, and consumers take them from there.
Both rings and the counters of a group are guarded by the mutex of its owner, so a step of this
model is one locked section or what a thread does between two of them. The Services are
parameters. A runtime starts where its creation has succeeded. -/
namespace RaftMulticore

open RaftTypes Executions

abbrev multicoreVersion : ℕ := 1
abbrev maxOwners : ℕ := 64
abbrev maxGroups : ℕ := 1024
abbrev maxCapacity : ℕ := 65536
abbrev maxQueueBytes : ℕ := 1024 * 1024 * 1024

structure GroupAssignment where
  groupId : UInt64
  ownerIndex : ℕ
  electionMinTicks : ℕ
  electionMaxTicks : ℕ
  deriving DecidableEq, Repr

structure MulticoreConfig where
  version : ℕ
  ownerCount : ℕ
  capacity : ℕ
  workBudget : ℕ
  tickMs : ℕ
  idleMs : ℕ
  groups : List GroupAssignment
  deriving DecidableEq, Repr

/-- Sizes that depend on the platform: of one ring element of each kind, and of an address. -/
structure ElementSizes where
  request : ℕ
  completion : ℕ
  sizeMax : ℕ

def assignmentInvalid (ownerCount : ℕ) (earlier : List GroupAssignment) (g : GroupAssignment) :
    Bool :=
  g.groupId == 0 || decide (ownerCount ≤ g.ownerIndex) || g.electionMinTicks == 0 ||
    decide (g.electionMaxTicks < g.electionMinTicks) ||
    earlier.any (fun other => g.groupId == other.groupId)

def multicoreConfigValidate (sizes : ElementSizes) (c : MulticoreConfig) : Status :=
  if c.version != multicoreVersion || c.ownerCount == 0 || decide (maxOwners < c.ownerCount) ||
      c.capacity == 0 || decide (maxCapacity < c.capacity) ||
      c.workBudget == 0 || decide (c.capacity < c.workBudget) ||
      c.tickMs == 0 || decide (60000 < c.tickMs) || c.idleMs == 0 || decide (c.tickMs < c.idleMs) ||
      c.groups.length == 0 || decide (maxGroups < c.groups.length) then
    .einval
  else if (List.range c.groups.length).any (fun i =>
      (c.groups[i]?).any (assignmentInvalid c.ownerCount (c.groups.take i))) then
    .einval
  else if (List.range c.ownerCount).any (fun owner => !c.groups.any (·.ownerIndex == owner)) then
    .einval
  else if decide (sizes.sizeMax / sizes.request < c.capacity + 1) ||
      decide (sizes.sizeMax / sizes.completion < c.capacity + 1) then
    .erange
  else if maxQueueBytes < (c.capacity + 1) * c.groups.length * (sizes.request + sizes.completion) then
    .erange
  else
    .ok

section State

inductive Operation where
  | propose (commandId : UInt64) (data : List UInt8)
  | step (message : Message)
  | status
  | readIndex (contextId : UInt64)
  | takeRead
  | transfer (transfereeId : NodeId)
  | membership (transitionId : UInt64) (voters learners : List NodeId)
  | snapshot
  | operationStatus (term index : ℕ)
  deriving DecidableEq, Repr

inductive OperationKind where
  | propose
  | step
  | status
  | readIndex
  | takeRead
  | transfer
  | membership
  | snapshot
  | operationStatus
  deriving DecidableEq, Repr

def Operation.kind : Operation → OperationKind
  | .propose _ _ => .propose
  | .step _ => .step
  | .status => .status
  | .readIndex _ => .readIndex
  | .takeRead => .takeRead
  | .transfer _ => .transfer
  | .membership _ _ _ => .membership
  | .snapshot => .snapshot
  | .operationStatus _ _ => .operationStatus

structure Request where
  operation : Operation
  requestId : UInt64
  deriving DecidableEq, Repr

structure Completion (Value : Type) where
  requestId : UInt64
  operation : OperationKind
  result : Status
  value : Value
  deriving DecidableEq, Repr

/-- The entry points of a Service that the owner loop calls. -/
structure ServiceApi (Service Value : Type) where
  execute : Service → Operation → Status × Value × Service
  tick : Service → Tick → Status × Service

structure GroupStatus where
  outstanding : ℕ
  queued : ℕ
  completed : ℕ
  rejected : ℕ
  backgroundError : Status
  stopped : Bool
  deriving DecidableEq, Repr

structure Group (Service Value : Type) where
  assignment : GroupAssignment
  service : Option Service
  requests : List Request
  completions : List (Completion Value)
  status : GroupStatus
  lastTickMs : ℕ

/-- Where an owner thread is in its loop, with the values it has read so far. -/
inductive OwnerPc (Value : Type) where
  | head
  | poll
  | recordError (group : Option ℕ) (error : Status)
  | reportError (group : Option ℕ) (error : Status)
  | stopAll (next : ℕ)
  | visit (group : ℕ)
  | tick (group : ℕ)
  | take (group turn : ℕ)
  | execute (group turn : ℕ) (request : Request) (stopping : Bool) (error : Status)
  | complete (group turn : ℕ) (request : Request) (completion : Completion Value)
  | settle
  | inspect
  | waiting
  | close (remaining : ℕ)
  | exited

structure Owner (Value : Type) where
  stopping : Bool
  pc : OwnerPc Value
  sawStopping : Bool
  worked : Bool

structure Multicore (Service Value : Type) where
  config : MulticoreConfig
  owners : ℕ → Owner Value
  groups : ℕ → Group Service Value
  error : Status
  exitedCount : ℕ
  aborted : Bool

variable {Service Value : Type}

def groupCount (r : Multicore Service Value) : ℕ := r.config.groups.length

def setGroup (r : Multicore Service Value) (i : ℕ) (g : Group Service Value) :
    Multicore Service Value :=
  { r with groups := Function.update r.groups i g }

def setOwner (r : Multicore Service Value) (k : ℕ) (o : Owner Value) : Multicore Service Value :=
  { r with owners := Function.update r.owners k o }

/-- A ring of `capacity + 1` slots keeps one of them free. -/
def ringWrite {α : Type} (capacity : ℕ) (ring : List α) (x : α) : Option (List α) :=
  if ring.length < capacity then some (ring ++ [x]) else none

end State

section Callers

variable {Service Value : Type}

def multicoreFind (r : Multicore Service Value) (id : UInt64) : Option ℕ :=
  (List.range (groupCount r)).find? fun i => (r.groups i).assignment.groupId == id

def requestInvalid (q : Request) : Bool :=
  match q.operation with
  | .propose _ data => decide (maxEntryBytes < data.length)
  | .membership _ voters learners =>
    decide (maxMembers < voters.length) || decide (maxMembers < learners.length)
  | _ => false

def multicoreSubmit (r : Multicore Service Value) (id : UInt64) (q : Request) :
    Status × Multicore Service Value :=
  if requestInvalid q then
    (.einval, r)
  else
    match multicoreFind r id with
    | none => (.enoent, r)
    | some i =>
      let g := r.groups i
      if (r.owners g.assignment.ownerIndex).stopping then
        (.ecanceled, r)
      else if g.status.outstanding == r.config.capacity then
        (.enospc, setGroup r i { g with status :=
          { g.status with
            rejected := if g.status.rejected == uint64Max then uint64Max
              else g.status.rejected + 1 } })
      else
        match ringWrite r.config.capacity g.requests q with
        | none => (.enospc, { r with aborted := true })
        | some requests =>
          (.ok, setGroup r i { g with
            requests
            status :=
              { g.status with
                outstanding := g.status.outstanding + 1
                queued := g.status.queued + 1 } })

def multicoreTake (r : Multicore Service Value) (id : UInt64) :
    Option (ℕ × Completion Value) × Multicore Service Value :=
  match multicoreFind r id with
  | none => (none, r)
  | some i =>
    let g := r.groups i
    match g.completions with
    | [] => (none, r)
    | c :: rest =>
      (some (i, c), setGroup r i { g with
        completions := rest
        status :=
          { g.status with
            completed := g.status.completed - 1
            outstanding := g.status.outstanding - 1 } })

def stopOwner (r : Multicore Service Value) (k : ℕ) : Multicore Service Value :=
  setOwner r k { r.owners k with stopping := true }

end Callers

section OwnerLoop

variable {Service Value : Type} [Inhabited Value] (api : ServiceApi Service Value)

/-- What the callbacks and the clock return to an owner thread in one step. -/
structure Choice where
  pollResult : Status
  now : ℕ
  random : Except Status ℕ

def goto (r : Multicore Service Value) (k : ℕ) (pc : OwnerPc Value) : Multicore Service Value :=
  setOwner r k { r.owners k with pc }

def nextTurn (config : MulticoreConfig) (i turn : ℕ) : OwnerPc Value :=
  if turn < config.workBudget then .take i turn else .visit (i + 1)

def executeRequest (g : Group Service Value) (q : Request) (stopping : Bool) (error : Status) :
    Completion Value × Group Service Value :=
  let answer := fun result value => (⟨q.requestId, q.operation.kind, result, value⟩ : Completion Value)
  if stopping then
    (answer .ecanceled default, g)
  else if error != .ok && q.operation.kind != .status then
    (answer error default, g)
  else
    match g.service with
    | none => (answer .einval default, g)
    | some service =>
      let (result, value, service) := api.execute service q.operation
      (answer result value, { g with service := some service })

def groupTick (config : MulticoreConfig) (g : Group Service Value) (choice : Choice) :
    Status × Group Service Value :=
  let elapsed := (choice.now - g.lastTickMs) / config.tickMs
  if elapsed == 0 then
    (.ok, g)
  else
    match choice.random with
    | .error status => (status, g)
    | .ok random =>
      let ticks := min elapsed uint32Max
      let tick : Tick :=
        { elapsedTicks := ticks
          nextElectionTimeoutTicks := g.assignment.electionMinTicks +
            random % (g.assignment.electionMaxTicks - g.assignment.electionMinTicks + 1) }
      let lastTickMs := g.lastTickMs + ticks * config.tickMs
      match g.service with
      | none => (.einval, { g with lastTickMs })
      | some service =>
        let (result, service) := api.tick service tick
        (result, { g with service := some service, lastTickMs })

def takeRequest (r : Multicore Service Value) (k i turn : ℕ) : Multicore Service Value :=
  let g := r.groups i
  match g.requests with
  | [] => goto r k (.visit (i + 1))
  | q :: rest =>
    goto (setGroup r i { g with
        requests := rest
        status := { g.status with queued := g.status.queued - 1 } }) k
      (.execute i turn q (r.owners k).stopping g.status.backgroundError)

def completeRequest (r : Multicore Service Value) (k i turn : ℕ) (c : Completion Value) :
    Multicore Service Value :=
  let g := r.groups i
  match ringWrite r.config.capacity g.completions c with
  | none => { r with aborted := true }
  | some completions =>
    setOwner (setGroup r i { g with
        completions
        status := { g.status with completed := g.status.completed + 1 } }) k
      { r.owners k with worked := true, pc := nextTurn r.config i (turn + 1) }

def visitGroup (r : Multicore Service Value) (k i : ℕ) : Multicore Service Value :=
  if i < groupCount r then
    let g := r.groups i
    if g.assignment.ownerIndex != k then
      goto r k (.visit (i + 1))
    else
      let o := r.owners k
      setOwner r k { o with
        sawStopping := o.stopping
        pc := if !o.stopping && g.status.backgroundError == .ok then .tick i
          else nextTurn r.config i 0 }
  else
    goto r k .settle

def queuedAny (r : Multicore Service Value) (k : ℕ) : Bool :=
  (List.range (groupCount r)).any fun i =>
    (r.groups i).assignment.ownerIndex == k && (r.groups i).status.queued != 0

def closeGroup (r : Multicore Service Value) (k i : ℕ) : Multicore Service Value :=
  let g := r.groups i
  if g.assignment.ownerIndex != k then
    r
  else
    setGroup r i { g with service := none, status := { g.status with stopped := true } }

/-- After an error has been recorded: back to the group, or on to the stop of all owners. -/
def afterError (config : MulticoreConfig) : Option ℕ → OwnerPc Value
  | some i => nextTurn config i 0
  | none => .stopAll 0

def ownerStep (r : Multicore Service Value) (k : ℕ) (choice : Choice) :
    Option (Multicore Service Value) :=
  let o := r.owners k
  match o.pc with
  | .head =>
    some (setOwner r k { o with
      sawStopping := o.stopping
      worked := false
      pc := if o.stopping then .visit 0 else .poll })
  | .poll =>
    some (goto r k (if choice.pollResult == .ok then .visit 0
      else .recordError none choice.pollResult))
  | .recordError group error =>
    let recorded := match group with
      | none => r
      | some i =>
        let g := r.groups i
        if g.status.backgroundError == .ok then
          setGroup r i { g with status := { g.status with backgroundError := error } }
        else r
    some (goto recorded k (.reportError group error))
  | .reportError group error =>
    some (goto { r with error := if r.error == .ok then error else r.error } k
      (afterError r.config group))
  | .stopAll next =>
    if next < r.config.ownerCount then
      some (goto (stopOwner r next) k (.stopAll (next + 1)))
    else
      some (setOwner r k { o with sawStopping := true, pc := .visit 0 })
  | .visit i => some (visitGroup r k i)
  | .tick i =>
    let (result, g) := groupTick api r.config (r.groups i) choice
    some (goto (setGroup r i g) k
      (if result == .ok then nextTurn r.config i 0 else .recordError (some i) result))
  | .take i turn => some (takeRequest r k i turn)
  | .execute i turn q stopping error =>
    let (c, g) := executeRequest api (r.groups i) q stopping error
    some (goto (setGroup r i g) k (.complete i turn q c))
  | .complete i turn _ c => some (completeRequest r k i turn c)
  | .settle =>
    some (goto r k (if o.sawStopping && !o.worked then .close (groupCount r)
      else if o.worked then .head else .inspect))
  | .inspect =>
    some (goto r k (if !o.stopping && !queuedAny r k then .waiting else .head))
  | .waiting => some (goto r k .head)
  | .close 0 => some { goto r k .exited with exitedCount := r.exitedCount + 1 }
  | .close (i + 1) => some (goto (closeGroup r k i) k (.close i))
  | .exited => none

end OwnerLoop

variable {Service Value : Type} [Inhabited Value]

inductive Event where
  | submit (id : UInt64) (request : Request)
  | take (id : UInt64)
  | requestStop (owner : ℕ)
  | owner (owner : ℕ) (choice : Choice)

instance : Inhabited Event := ⟨.take 0⟩

/-- The runtime and what an observer has written down about every group: the requests that were
accepted, the completions that were produced and those that were handed out. -/
structure Observed (Service Value : Type) where
  runtime : Multicore Service Value
  accepted : ℕ → List Request
  produced : ℕ → List (Completion Value)
  taken : ℕ → List (Completion Value)

def note {α : Type} (record : ℕ → List α) (i : ℕ) (x : α) : ℕ → List α :=
  Function.update record i (record i ++ [x])

def producedBy (r : Multicore Service Value) (k : ℕ) : Option (ℕ × Completion Value) :=
  match (r.owners k).pc with
  | .complete i _ _ c => some (i, c)
  | _ => none

/-- An aborted process takes no further step. -/
def multicoreStep (api : ServiceApi Service Value) (w : Observed Service Value) (e : Event) :
    Option (Observed Service Value) :=
  if w.runtime.aborted then
    none
  else
    match e with
    | .submit id request =>
      let (status, runtime) := multicoreSubmit w.runtime id request
      let accepted := match status, multicoreFind w.runtime id with
        | .ok, some i => note w.accepted i request
        | _, _ => w.accepted
      some { w with runtime, accepted }
    | .take id =>
      let (answer, runtime) := multicoreTake w.runtime id
      let taken := match answer with
        | some (i, c) => note w.taken i c
        | none => w.taken
      some { w with runtime, taken }
    | .requestStop k =>
      if k < w.runtime.config.ownerCount then some { w with runtime := stopOwner w.runtime k }
      else none
    | .owner k choice =>
      if k < w.runtime.config.ownerCount then
        match ownerStep api w.runtime k choice with
        | none => none
        | some runtime =>
          let produced := match producedBy w.runtime k with
            | some (i, c) => if runtime.aborted then w.produced else note w.produced i c
            | none => w.produced
          some { w with runtime, produced }
      else none

def freshStatus : GroupStatus :=
  { outstanding := 0
    queued := 0
    completed := 0
    rejected := 0
    backgroundError := .ok
    stopped := false }

def idleAssignment : GroupAssignment :=
  { groupId := 0
    ownerIndex := 0
    electionMinTicks := 0
    electionMaxTicks := 0 }

/-- What a successful creation returns: every group has its Service and every owner is released. -/
def multicoreCreated (config : MulticoreConfig) (services : ℕ → Service) (now : ℕ → ℕ) :
    Multicore Service Value :=
  { config
    owners := fun _ => { stopping := false, pc := .head, sawStopping := false, worked := false }
    groups := fun i =>
      { assignment := config.groups.getD i idleAssignment
        service := some (services i)
        requests := []
        completions := []
        status := freshStatus
        lastTickMs := now i }
    error := .ok
    exitedCount := 0
    aborted := false }

def multicoreSystem (api : ServiceApi Service Value) (config : MulticoreConfig)
    (services : ℕ → Service) (now : ℕ → ℕ) : StepSystem (Observed Service Value) Event where
  init :=
    { runtime := multicoreCreated config services now
      accepted := fun _ => []
      produced := fun _ => []
      taken := fun _ => [] }
  step := multicoreStep api

end RaftMulticore
