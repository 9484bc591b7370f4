import TurboRaft.RaftReadyDelivery
import TurboRaft.RaftRuntimeRules

/-! # The stages of a Ready

What the stages that store and send a Ready call, under callbacks that answer anything. -/
namespace RaftRuntimeStages

open RaftTypes RaftCore RaftRuntime RaftRuntimeRules

inductive HostCall where
  | storage (step : StorageStep) (status : Status)
  | send (message : Message) (status : Status)
  | snapshot (request : SnapshotRequest) (status : Status)
  | apply (entries : List Entry) (status : Status)
  deriving DecidableEq, Repr

structure Script where
  answers : List Status
  trace : List HostCall
  deriving DecidableEq, Repr

def nextAnswer (host : Script) : Status := host.answers.headD .ok

def heard (record : Status → HostCall) (host : Script) : Script :=
  { answers := host.answers.tail, trace := host.trace ++ [record (nextAnswer host)] }

def answer (record : Status → HostCall) : Callback Script :=
  fun core host => (nextAnswer host, core, heard record host)

structure Tables where
  storage : Bool
  enqueue : Bool
  enqueueSnapshot : Bool
  applyBatch : Bool
  deriving DecidableEq, Repr

def scripted (tables : Tables) : Handlers Script :=
  { storage := if tables.storage then some fun step => answer (.storage step) else none
    enqueue := if tables.enqueue then some fun message => answer (.send message) else none
    enqueueSnapshot :=
      if tables.enqueueSnapshot then some fun request => answer (.snapshot request) else none
    applyBatch := if tables.applyBatch then some fun entries => answer (.apply entries) else none }

def toStorage : HostCall → Bool
  | .storage _ _ => true
  | _ => false

def toTransport : HostCall → Bool
  | .send _ _ => true
  | .snapshot _ _ => true
  | _ => false

def toStateMachine : HostCall → Bool
  | .apply _ _ => true
  | _ => false

def storedSteps (calls : List HostCall) : List StorageStep :=
  calls.filterMap fun
    | .storage step .ok => some step
    | _ => none

def covered (calls : List HostCall) : List Entry :=
  calls.flatMap fun
    | .apply entries .ok => entries
    | _ => []

/-- The storage steps that a Ready requires before its messages may leave. -/
def requiredSteps (ready : Ready) : List StorageStep :=
  if readyNeedsStorage ready then .begin :: transactionSteps ready else []

theorem covered_append (xs ys : List HostCall) : covered (xs ++ ys) = covered xs ++ covered ys :=
  List.flatMap_append

theorem storedSteps_append (xs ys : List HostCall) :
    storedSteps (xs ++ ys) = storedSteps xs ++ storedSteps ys :=
  List.filterMap_append

theorem covered_other {calls : List HostCall} (h : ∀ c ∈ calls, toStateMachine c = false) :
    covered calls = [] := by
  apply List.flatMap_eq_nil_iff.mpr
  intro c hc
  cases c with
  | apply entries status => exact absurd (h _ hc) (by simp [toStateMachine])
  | _ => rfl

theorem storedSteps_other {calls : List HostCall} (h : ∀ c ∈ calls, toStorage c = false) :
    storedSteps calls = [] := by
  apply List.filterMap_eq_nil_iff.mpr
  intro c hc
  cases c with
  | storage step status => exact absurd (h _ hc) (by simp [toStorage])
  | _ => rfl


variable {drive drive' : Drive Script} {ready : Ready} {tables : Tables}

/-- A stage made these calls, all of one kind, left the core alone, and faulted the runtime
exactly when it failed. -/
structure Staged (kind : HostCall → Bool) (drive : Drive Script) (result : Status × Drive Script)
    (calls : List HostCall) : Prop where
  core : result.2.core = drive.core
  trace : result.2.host.trace = drive.host.trace ++ calls
  kinds : ∀ c ∈ calls, kind c = true
  runtime : result.2.runtime =
    if result.1 = .ok then drive.runtime else { drive.runtime with faulted := true }

variable {kind : HostCall → Bool} {result : Status × Drive Script}

/-- What the calls of a stage keep while all of them are of one kind. -/
def Traced (kind : HostCall → Bool) (drive : Drive Script) (core : Core) (host : Script) : Prop :=
  core = drive.core ∧ ∃ calls, host.trace = drive.host.trace ++ calls ∧ ∀ c ∈ calls, kind c = true

theorem Traced.start : Traced kind drive drive.core drive.host :=
  ⟨rfl, [], (List.append_nil _).symm, fun _ hc => absurd hc List.not_mem_nil⟩

theorem answer_keeps {record : Status → HostCall} (hkind : ∀ status, kind (record status) = true) :
    CallbackKeeps (fun _ => True) (Traced kind drive) (answer record) := by
  rintro core host ⟨hcore, calls, htrace, hkinds⟩
  refine ⟨⟨hcore, calls ++ [record (nextAnswer host)], ?_, ?_⟩, trivial⟩
  · rw [← List.append_assoc, ← htrace]
    rfl
  · intro c hc
    rcases List.mem_append.mp hc with hearlier | hlast
    · exact hkinds c hearlier
    · rw [List.mem_singleton.mp hlast]
      exact hkind _

theorem callback_answer (record : Status → HostCall) (drive : Drive Script) :
    callback (answer record) drive =
      (nextAnswer drive.host, { drive with host := heard record drive.host }) := rfl

theorem Staged.of_kept (h : DriveKept (fun _ => True) drive result (Traced kind drive)) :
    ∃ calls, Staged kind drive result calls := by
  obtain ⟨⟨hcore, calls, htrace, hkinds⟩, _, hruntime, _⟩ := h
  exact ⟨calls, hcore, htrace, hkinds, hruntime⟩

theorem persistSteps_trace (steps : List StorageStep) (drive : Drive Script)
    (hok : (persistSteps (fun step => answer (.storage step)) steps drive).1 = .ok) :
    (persistSteps (fun step => answer (.storage step)) steps drive).2.host.trace =
      drive.host.trace ++ steps.map fun step => .storage step .ok := by
  induction steps generalizing drive with
  | nil => exact (List.append_nil _).symm
  | cons step rest ih =>
    unfold persistSteps at hok ⊢
    dsimp only [callback, answer] at hok ⊢
    split_ifs at hok ⊢ with hanswer
    · exact absurd hok hanswer
    · rw [ih _ hok, List.map_cons, ← not_not.mp hanswer]
      exact List.append_assoc _ _ _

theorem persistReadyWith_trace (tables : Tables) (ready : Ready) (drive : Drive Script)
    (hok : (persistReadyWith (scripted tables) ready drive).1 = .ok) :
    (persistReadyWith (scripted tables) ready drive).2.host.trace =
      drive.host.trace ++ (requiredSteps ready).map fun step => .storage step .ok := by
  unfold persistReadyWith requiredSteps at *
  by_cases hneeds : readyNeedsStorage ready = true
  swap
  · rw [if_neg hneeds, if_neg hneeds]
    exact (List.append_nil _).symm
  rw [if_pos hneeds] at hok ⊢
  rw [if_pos hneeds]
  obtain ⟨storage, enqueue, enqueueSnapshot, applyBatch⟩ := tables
  cases storage with
  | false => cases hok
  | true =>
    change (runtimePersist (fun step => answer (.storage step)) ready drive).1 = .ok at hok
    change (runtimePersist (fun step => answer (.storage step)) ready drive).2.host.trace = _
    unfold runtimePersist at hok ⊢
    dsimp only [callback, answer] at hok ⊢
    split_ifs at hok ⊢ with hanswer
    · exact absurd hok hanswer
    · rw [persistSteps_trace _ _ hok, List.map_cons, ← not_not.mp hanswer]
      exact List.append_assoc _ _ _

theorem persistReadyWith_staged (tables : Tables) (ready : Ready) (drive : Drive Script) :
    ∃ calls, Staged toStorage drive (persistReadyWith (scripted tables) ready drive) calls ∧
      ((persistReadyWith (scripted tables) ready drive).1 = .ok →
        storedSteps calls = requiredSteps ready) := by
  have hkeep : HandlersKeep (fun _ => True) (Traced toStorage drive)
      ⟨(scripted tables).storage, none, none, none⟩ := by
    refine ⟨fun call hcall step => ?_, fun _ h => (by cases h), fun _ h => (by cases h),
      fun _ h => (by cases h), fun _ => trivial⟩
    obtain ⟨_, ⟨⟩⟩ := Option.mem_ite_none_right.mp hcall
    exact answer_keeps fun _ => rfl
  obtain ⟨calls, hstaged⟩ := Staged.of_kept (persistReadyWith_keeps hkeep ready .start)
  refine ⟨calls, hstaged, fun hok => ?_⟩
  rw [List.append_cancel_left (hstaged.trace.symm.trans (persistReadyWith_trace tables ready drive hok))]
  simp [storedSteps, List.filterMap_map]

theorem sendReady_staged (tables : Tables) (ready : Ready) (drive : Drive Script) :
    ∃ calls, Staged toTransport drive (sendReady (scripted tables) ready drive) calls := by
  have hkeep : HandlersKeep (fun _ => True) (Traced toTransport drive)
      ⟨none, (scripted tables).enqueue, (scripted tables).enqueueSnapshot, none⟩ := by
    refine ⟨fun _ h => (by cases h), fun call hcall message => ?_, fun call hcall request => ?_,
      fun _ h => (by cases h), fun _ => trivial⟩
    all_goals
      obtain ⟨_, ⟨⟩⟩ := Option.mem_ite_none_right.mp hcall
      exact answer_keeps fun _ => rfl
  exact Staged.of_kept (sendReady_keeps hkeep ready .start)

/-- What processing a Ready called: storage, then transport, then the state machine. -/
structure Ordered (ready : Ready) (calls : List HostCall) : Prop where
  stored_first : ∀ before call after, calls = before ++ call :: after → toTransport call = true →
    storedSteps before = requiredSteps ready

theorem Ordered.of_storage {calls : List HostCall} (h : ∀ c ∈ calls, toStorage c = true) :
    Ordered ready calls where
  stored_first := by
    intro before call after hcalls htransport
    have hstorage := h call (by rw [hcalls]; simp)
    cases call <;> simp [toStorage, toTransport] at hstorage htransport

theorem Ordered.of_stages {stored sent rest : List HostCall}
    (hstored : ∀ c ∈ stored, toStorage c = true)
      (hrequired : storedSteps stored = requiredSteps ready)
    (hrest : ∀ c ∈ sent ++ rest, toStorage c = false) :
    Ordered ready (stored ++ (sent ++ rest)) where
  stored_first := by
    intro before call after hcalls htransport
    have hother : toStorage call = false := by cases call <;> simp [toStorage, toTransport] at *
    rcases List.append_eq_append_iff.mp hcalls with ⟨mid, hbefore, hlater⟩ | ⟨mid, hstored', hlater⟩
    · have hquiet : storedSteps mid = [] := by
        apply storedSteps_other
        intro c hc
        exact hrest c (by rw [hlater]; exact List.mem_append_left _ hc)
      rw [hbefore, storedSteps_append, hquiet, hrequired, List.append_nil]
    · cases mid with
      | nil =>
        rw [List.append_nil] at hstored'
        rw [← hstored', hrequired]
      | cons first more =>
        simp only [List.cons_append, List.cons.injEq] at hlater
        have hfirst := hstored first (by rw [hstored']; simp)
        rw [← hlater.1, hother] at hfirst
        cases hfirst

theorem storage_not_applied (c : HostCall) (h : toStorage c = true) : toStateMachine c = false := by
  cases c with
  | storage step status => rfl
  | _ => cases h

theorem transport_not_applied (c : HostCall) (h : toTransport c = true) :
    toStateMachine c = false := by
  cases c with
  | send message status | snapshot request status => rfl
  | _ => cases h

end RaftRuntimeStages
