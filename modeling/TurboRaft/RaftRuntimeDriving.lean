import TurboRaft.RaftConfigurationHistory
import TurboRaft.RaftRuntimeApplying

/-! # A core under its runtime

The host makes calls, processes their Readys and retries blocked batches. Between its events the
state machine has taken a stretch of the committed log without its configuration entries. -/
namespace RaftRuntimeDriving

open RaftTypes RaftLog RaftCoreRuns RaftRefinement RaftReadyDelivery Executions RaftRuntime
open RaftRuntimeStages RaftRuntimeApplying RaftCoreHistories RaftOperationEffects

variable {drive drive' : Drive Script} {ready : Ready} {tables : Tables} {core core' : Core}

structure HostState where
  runtime : Runtime
  core : Core
  trace : List HostCall

/-- The host makes a call and processes its Ready, makes a call whose Ready has no effects and
needs no processing, or retries a blocked batch. -/
inductive RuntimeEvent where
  | call (input : Input) (answers : List Status)
  | quiet (input : Input)
  | retry (answers : List Status)
  deriving DecidableEq

instance : Inhabited RuntimeEvent := ⟨.retry []⟩

def afterDrive (result : Status × Drive Script) : HostState :=
  { runtime := result.2.runtime, core := result.2.core, trace := result.2.host.trace }

/-- A call that fails has no Ready to process. While a batch is blocked the host only retries. -/
def runtimeStep (tables : Tables) (s : HostState) : RuntimeEvent → Option HostState
  | .call input answers =>
    if isCall input && !s.runtime.applyBlocked then
      match perform s.core input with
      | (.ok, call) => some (afterDrive (runtimeProcess (scripted tables) s.runtime call.core
          { answers, trace := s.trace } call.ready))
      | (_, call) => some { s with core := call.core }
    else none
  | .quiet input =>
    if isCall input && !s.runtime.applyBlocked && !(perform s.core input).2.core.readyOutstanding then
      some { s with core := (perform s.core input).2.core }
    else none
  | .retry answers =>
    if s.runtime.applyBlocked then
      some (afterDrive (runtimeRetryApply (scripted tables) s.runtime s.core
        { answers, trace := s.trace }))
    else none

def runtimeSystem (tables : Tables) (core : Core) : StepSystem HostState RuntimeEvent :=
  { init := { runtime := Runtime.fresh, core, trace := [] }, step := runtimeStep tables }

def drives (s : HostState) : RuntimeEvent → Bool
  | .call input _ => (perform s.core input).1 == .ok
  | .quiet _ => false
  | .retry _ => true

def eventNumbered (core : Core) : RuntimeEvent → Bool
  | .call input _ => inputNumbered core input
  | .quiet input => inputNumbered core input
  | .retry _ => true

def normals (log : Log) (first last : ℕ) : List Entry :=
  normalEntries (logSlice log (first + 1) (last - first))

theorem logSlice_split {log : Log} {a b c : ℕ} (hbase : log.baseIndex ≤ a) (hab : a ≤ b)
    (hbc : b ≤ c) :
    logSlice log (a + 1) (c - a) =
      logSlice log (a + 1) (b - a) ++ logSlice log (b + 1) (c - b) := by
  unfold logSlice
  rw [show c - a = (b - a) + (c - b) by omega, List.take_add, List.drop_drop,
    show a + 1 - log.baseIndex - 1 + (b - a) = b + 1 - log.baseIndex - 1 by omega]

theorem normals_split {log : Log} {a b c : ℕ} (hbase : log.baseIndex ≤ a) (hab : a ≤ b)
    (hbc : b ≤ c) : normals log a c = normals log a b ++ normals log b c := by
  unfold normals
  rw [logSlice_split hbase hab hbc, normalEntries_append]

variable {result : Status × Drive Script} {first : ℕ}

theorem logSlice_kept {count : ℕ} (hinv : CoreInv core)
    (hbase : core'.log.baseIndex = core.log.baseIndex)
    (hkept : committedEntries core <+: core'.log.entries) (hlow : core.log.baseIndex < first)
    (hhigh : first + count ≤ core.commitIndex + 1) :
    logSlice core'.log first count = logSlice core.log first count := by
  have hle := hinv.commit_le
  have hend := logLastIndex_eq core.log
  obtain ⟨tail, htail⟩ := hkept
  have hlength : (committedEntries core).length = core.commitIndex - core.log.baseIndex := by
    rw [committedEntries, List.length_take, min_eq_left (by omega)]
  have hsplit : ∀ xs : List Entry, (xs.drop (first - core.log.baseIndex - 1)).take count =
      ((xs.take (core.commitIndex - core.log.baseIndex)).drop
        (first - core.log.baseIndex - 1)).take count := by
    intro xs
    rw [List.drop_take, List.take_take, min_eq_left (by omega)]
  unfold logSlice
  rw [hbase, hsplit core'.log.entries, hsplit core.log.entries, ← htail, List.take_left' hlength]
  rfl

theorem normals_kept {last : ℕ} (hinv : CoreInv core)
    (hbase : core'.log.baseIndex = core.log.baseIndex)
    (hkept : committedEntries core <+: core'.log.entries) (hlow : core.log.baseIndex ≤ first)
    (hhigh : last ≤ core.commitIndex) : normals core'.log first last =
      normals core.log first last := by
  unfold normals
  by_cases horder : first ≤ last
  · rw [logSlice_kept hinv hbase hkept (by omega) (by omega)]
  · rw [Nat.sub_eq_zero_of_le (by omega)]
    unfold logSlice
    rw [List.take_zero, List.take_zero]

/-- A blocked batch is the last piece of the committed log, and its next entry is a normal one. -/
structure Held (core : Core) (runtime : Runtime) (origin : ℕ) : Prop where
  admitted : core.applyAdmittedIndex = core.commitIndex
  applied : core.appliedIndex = origin + runtime.blockedApplyBegin
  entries : runtime.blockedEntries = logSlice core.log (origin + 1) (core.commitIndex - origin)
  next : ∃ entry, runtime.blockedEntries[runtime.blockedApplyBegin]? = some entry ∧
    isNormal entry = true

/-- What holds between two events; the state machine has taken what lies above `start`. -/
structure Driven (start : ℕ) (s : HostState) : Prop where
  resting : Resting s.core
  base : s.core.log.baseIndex ≤ start
  covers : ∃ position, start ≤ position ∧ position ≤ s.core.commitIndex ∧
    covered s.trace = normals s.core.log start position ∧
    (s.runtime.faulted = false → position = s.core.appliedIndex)
  free : s.runtime.faulted = false → s.core.readyOutstanding = false
  even : s.runtime.faulted = false → s.runtime.applyBlocked = false →
    s.core.appliedIndex = s.core.applyAdmittedIndex
  held : s.runtime.faulted = false → s.runtime.applyBlocked = true →
    ∃ origin, start ≤ origin ∧ Held s.core s.runtime origin

/-- After processing or retrying, everything committed is applied unless a batch is blocked. -/
structure Landed (start : ℕ) (s : HostState) : Prop extends Driven start s where
  complete : s.runtime.faulted = false → s.runtime.applyBlocked = false →
    s.core.appliedIndex = s.core.commitIndex

variable {start : ℕ} {s : HostState}

theorem Landed.broken (hresting : Resting s.core) (hbase : s.core.log.baseIndex ≤ start)
    (hfaulted : s.runtime.faulted = true) (position : ℕ) (hstart : start ≤ position)
    (hposition : position ≤ s.core.commitIndex)
    (hcovers : covered s.trace = normals s.core.log start position) : Landed start s where
  resting := hresting
  base := hbase
  covers := ⟨position, hstart, hposition, hcovers,
    fun h => absurd (hfaulted.symm.trans h) (by simp)⟩
  free := fun h => absurd (hfaulted.symm.trans h) (by simp)
  even := fun h => absurd (hfaulted.symm.trans h) (by simp)
  held := fun h => absurd (hfaulted.symm.trans h) (by simp)
  complete := fun h => absurd (hfaulted.symm.trans h) (by simp)

theorem Landed.whole (hresting : Resting s.core) (hbase : s.core.log.baseIndex ≤ start)
    (hblocked : s.runtime.applyBlocked = false) (hstart : start ≤ s.core.commitIndex)
    (happlied : s.core.appliedIndex = s.core.commitIndex)
    (hfree : s.core.readyOutstanding = false)
    (hcovers : covered s.trace = normals s.core.log start s.core.commitIndex) : Landed start s where
  resting := hresting
  base := hbase
  covers := ⟨_, hstart, le_rfl, hcovers, fun _ => happlied.symm⟩
  free := fun _ => hfree
  even := by
    have := hresting.applied_le
    have := hresting.admitted_le
    omega
  held := fun _ h => absurd (hblocked.symm.trans h) (by simp)
  complete := fun _ _ => happlied

theorem Landed.waiting (hresting : Resting s.core) (hbase : s.core.log.baseIndex ≤ start)
    (hblocked : s.runtime.applyBlocked = true) (origin : ℕ) (hstart : start ≤ origin)
    (hheld : Held s.core s.runtime origin) (hfree : s.core.readyOutstanding = false)
    (hcovers : covered s.trace = normals s.core.log start s.core.appliedIndex) :
      Landed start s where
  resting := hresting
  base := hbase
  covers := by
    refine ⟨_, ?_, hresting.applied_le.trans hresting.admitted_le, hcovers, fun _ => rfl⟩
    have := hheld.applied
    omega
  free := fun _ => hfree
  even := fun _ h => absurd (hblocked.symm.trans h) (by simp)
  held := fun _ _ => ⟨origin, hstart, hheld⟩
  complete := fun _ h => absurd (hblocked.symm.trans h) (by simp)

structure Offer (start origin : ℕ) (core : Core) (entries : List Entry) : Prop where
  resting : Resting core
  base : core.log.baseIndex ≤ start
  start_le : start ≤ origin
  origin_le : origin ≤ core.commitIndex
  entries : entries = logSlice core.log (origin + 1) (core.commitIndex - origin)

variable {origin : ℕ} {entries : List Entry}

section

variable (h : Offer start origin core entries)

include h

theorem Offer.length :
    entries.length = core.commitIndex - origin := by
  have hbase := h.base
  have hstart := h.start_le
  have horigin := h.origin_le
  have hcommit := h.resting.commit_le
  rw [h.entries]
  exact logSlice_length (by omega) (by omega)

theorem Offer.piece {position : ℕ} (horder : first ≤ position)
    (hwithin : position ≤ entries.length) :
    (entries.drop first).take (position - first) =
      logSlice core.log (origin + first + 1) (origin + position - (origin + first)) := by
  have hlength := h.length
  have hbase := h.base
  have hstart := h.start_le
  rw [h.entries]
  unfold logSlice
  rw [List.drop_take, List.take_take, List.drop_drop]
  congr 1
  · omega
  · congr 1
    omega

/-- The state machine has taken everything before `first` and takes the entries up to
`position`. -/
theorem Offer.covers {position : ℕ}
    (horder : first ≤ position) (hwithin : position ≤ entries.length)
    (hbefore : covered drive.host.trace = normals core.log start (origin + first))
    (htakes : Takes drive drive' ((entries.drop first).take (position - first))) :
    covered drive'.host.trace = normals core.log start (origin + position) := by
  obtain ⟨calls, htrace, -, hcovered⟩ := htakes
  have hbase := h.base
  have hstart := h.start_le
  rw [htrace, covered_append, hbefore, hcovered, h.piece horder hwithin,
    normals_split (c := origin + position) hbase (b := origin + first) (by omega) (by omega)]
  rfl

end

/-- Where the loop stands: before the Ready is acknowledged nothing of it is applied, afterwards
everything before `first` is. -/
structure Standing (origin first : ℕ) (acknowledged : Bool) (core : Core) : Prop where
  applied : core.appliedIndex = if acknowledged then origin + first else origin
  admitted : core.applyAdmittedIndex = if acknowledged then core.commitIndex else origin
  free : acknowledged = true → core.readyOutstanding = false

theorem Offer.stopped {acknowledged : Bool} (h : Offer start origin drive.core entries)
    (hstanding : Standing origin first acknowledged drive.core)
    (hcovers : covered drive.host.trace = normals drive.core.log start (origin + first))
    (houtcome : ApplyOutcome entries acknowledged first drive result) (hstatus : result.1 ≠ .ok) :
    Landed start (afterDrive result) := by
  have hlength := h.length
  have horigin := h.origin_le
  have hstart := h.start_le
  cases houtcome with
  | done => exact absurd rfl hstatus
  | @blocked drive' position entry hreached hnext hnormal hsame hkept hruntime htakes =>
    have hlt := (List.getElem?_eq_some_iff.mp hnext).1
    have htaken := h.covers hreached hlt.le hcovers htakes
    have happlied : drive'.core.appliedIndex = origin + position := by
      have hat := hstanding.applied
      rw [hsame]
      cases acknowledged with
      | true =>
        rw [if_pos rfl] at hat ⊢
        dsimp only
        omega
      | false => exact congrArg (· + position) hat
    have hlog := hkept.log
    have hcommit := hkept.commit
    refine .waiting (s := afterDrive (.ebusy, drive')) hkept.resting (hlog ▸ h.base)
      (congrArg Runtime.applyBlocked hruntime) origin hstart ?_ ?_ ?_
    · constructor
      case admitted =>
        change drive'.core.applyAdmittedIndex = drive'.core.commitIndex
        have hat := hstanding.admitted
        rw [hsame]
        cases acknowledged with
        | true => exact hat
        | false =>
          change drive.core.applyAdmittedIndex + entries.length = drive.core.commitIndex
          rw [if_neg Bool.false_ne_true] at hat
          omega
      case applied =>
        change drive'.core.appliedIndex = origin + drive'.runtime.blockedApplyBegin
        rw [happlied, hruntime]
      case entries =>
        change drive'.runtime.blockedEntries = logSlice drive'.core.log _ _
        rw [hruntime, hlog, show (afterDrive (.ebusy, drive')).core.commitIndex = _ from hcommit]
        exact h.entries
      case next =>
        change ∃ entry, drive'.runtime.blockedEntries[drive'.runtime.blockedApplyBegin]? = _ ∧ _
        rw [hruntime]
        exact ⟨entry, hnext, hnormal⟩
    · change drive'.core.readyOutstanding = false
      rw [hsame]
      cases acknowledged with
      | true => exact hstanding.free rfl
      | false => rfl
    · change covered drive'.host.trace = normals drive'.core.log start drive'.core.appliedIndex
      rw [htaken, hlog, happlied]
  | @failed status drive' position _ hreached hwithin hkept hfaulted htakes =>
    have htaken := h.covers hreached hwithin hcovers htakes
    have hlog := hkept.log
    have hcommit := hkept.commit
    refine .broken (s := afterDrive (status, drive')) hkept.resting (hlog ▸ h.base) hfaulted
      (origin + position) (by omega) ?_ ?_
    · change origin + position ≤ drive'.core.commitIndex
      omega
    · change covered drive'.host.trace = normals drive'.core.log start (origin + position)
      rw [htaken, hlog]

structure Prepared (start origin : ℕ) (ready : Ready) (drive : Drive Script) : Prop where
  offer : Offer start origin drive.core ready.committedEntries
  standing : Standing origin 0 false drive.core
  handed : drive.core.pendingApplyIndex =
    if drive.core.applyAdmittedIndex < drive.core.commitIndex then drive.core.commitIndex else 0
  unblocked : drive.runtime.applyBlocked = false
  covers : covered drive.host.trace = normals drive.core.log start origin

section

variable (h : Prepared start origin ready drive)

include h

theorem Prepared.carry (hcore : drive'.core = drive.core)
    (hruntime : drive'.runtime.applyBlocked = drive.runtime.applyBlocked)
    (hcovered : covered drive'.host.trace = covered drive.host.trace) :
    Prepared start origin ready drive' := by
  refine ⟨?_, ?_, ?_, hruntime.trans h.unblocked, ?_⟩
  · rw [hcore]
    exact h.offer
  · rw [hcore]
    exact h.standing
  · rw [hcore]
    exact h.handed
  · rw [hcovered, hcore]
    exact h.covers

/-- A stage before the state machine leaves the Ready as it is, and a runtime that stops there
is faulted. -/
theorem Prepared.staged {kind : HostCall → Bool} {calls : List HostCall}
    (hstaged : Staged kind drive result calls)
    (hkind : ∀ c, kind c = true → toStateMachine c = false) :
    Prepared start origin ready result.2 ∧ (result.1 ≠ .ok → Landed start (afterDrive result)) := by
  have hnext : Prepared start origin ready result.2 := by
    apply h.carry hstaged.core
    · rw [hstaged.runtime]
      split_ifs <;> rfl
    · rw [hstaged.trace, covered_append,
        covered_other fun c hc => hkind c (hstaged.kinds c hc), List.append_nil]
  refine ⟨hnext, ?_⟩
  intro hstatus
  have hruntime := hstaged.runtime
  rw [if_neg hstatus] at hruntime
  exact .broken hnext.offer.resting hnext.offer.base (congrArg Runtime.faulted hruntime)
    origin hnext.offer.start_le hnext.offer.origin_le hnext.covers

theorem advanceAfterApply_landed
    (hcovers : covered drive'.host.trace = normals drive.core.log start drive.core.commitIndex)
    (hcore : drive'.core = drive.core) (hblocked : drive'.runtime.applyBlocked = false) :
    Landed start (afterDrive (advanceAfterApply drive')) := by
  have hstart := h.offer.start_le.trans h.offer.origin_le
  have hat : drive.core.appliedIndex = origin ∧ drive.core.applyAdmittedIndex = origin :=
    ⟨h.standing.applied, h.standing.admitted⟩
  have hlast := h.offer.origin_le
  have hhanded := h.handed
  have htended := coreAdvance_tended h.offer.resting
  unfold advanceAfterApply
  rw [hcore]
  rcases coreAdvance_cases drive.core
    with ⟨hstatus, hsame⟩ | ⟨_, hwaits, _, _, hok⟩ | ⟨_, hnone, hok⟩
  · dsimp only
    rw [if_pos hstatus, hsame]
    exact .broken h.offer.resting h.offer.base rfl _ hstart le_rfl hcovers
  · rw [hok] at htended ⊢
    exact .whole htended.resting h.offer.base hblocked hstart (h.offer.resting.handed hwaits).1 rfl
      hcovers
  · rw [hok] at htended ⊢
    have hall : origin = drive.core.commitIndex := by
      split_ifs at hhanded <;> omega
    exact .whole htended.resting h.offer.base hblocked hstart (hat.1.trans hall) rfl hcovers

end

theorem Prepared.applied (tables : Tables) (h : Prepared start origin ready drive) :
    ((applyReady (scripted tables) ready drive).1 ≠ .ok →
        Landed start (afterDrive (applyReady (scripted tables) ready drive))) ∧
      ((applyReady (scripted tables) ready drive).1 = .ok →
        Landed start
          (afterDrive (advanceAfterApply (applyReady (scripted tables) ready drive).2))) := by
  have hlength := h.offer.length
  have horigin := h.offer.origin_le
  unfold applyReady
  by_cases hnone : ready.committedEntries.length = 0
  · rw [if_pos hnone]
    refine ⟨fun hstatus => absurd rfl hstatus, fun _ => ?_⟩
    apply advanceAfterApply_landed h _ rfl h.unblocked
    rw [h.covers]
    congr 1
    omega
  rw [if_neg hnone]
  have houtcome := applyFrom_outcome tables ready.committedEntries false drive (Nat.zero_le _)
    h.offer.resting
  refine ⟨h.offer.stopped h.standing h.covers houtcome, ?_⟩
  generalize applyFrom (scripted tables) ready.committedEntries 0 false drive = result
    at houtcome ⊢
  intro hok
  cases houtcome with
  | @done drive' hsame hkept hruntime htakes =>
    rw [← List.take_length (l := List.drop 0 _)] at htakes
    have htaken := h.offer.covers (Nat.zero_le _) le_rfl h.covers htakes
    rw [show origin + ready.committedEntries.length = drive.core.commitIndex by omega] at htaken
    exact advanceAfterApply_landed h htaken hsame (congrArg Runtime.applyBlocked hruntime)
  | blocked => cases hok
  | failed hne => exact absurd hok hne

theorem processReady_landed (tables : Tables) (h : Prepared start origin ready drive) :
    Landed start (afterDrive (processReady (scripted tables) ready drive)) := by
  unfold processReady
  obtain ⟨stored, hpersist, -⟩ := persistReadyWith_staged tables ready drive
  obtain ⟨hstored, hunstored⟩ := h.staged hpersist storage_not_applied
  generalize persistReadyWith (scripted tables) ready drive = persisted at hstored hunstored ⊢
  dsimp only
  by_cases hpersisted : persisted.1 = .ok
  swap
  · rw [if_pos hpersisted]
    exact hunstored hpersisted
  rw [if_neg (not_not.mpr hpersisted)]
  obtain ⟨sent, hsend⟩ := sendReady_staged tables ready persisted.2
  obtain ⟨hsent, hunsent⟩ := hstored.staged hsend transport_not_applied
  generalize sendReady (scripted tables) ready persisted.2 = transmitted at hsent hunsent ⊢
  by_cases htransmitted : transmitted.1 = .ok
  swap
  · rw [if_pos htransmitted]
    exact hunsent htransmitted
  rw [if_neg (not_not.mpr htransmitted)]
  by_cases happlied : (applyReady (scripted tables) ready transmitted.2).1 = .ok
  · rw [if_neg (not_not.mpr happlied)]
    exact (hsent.applied tables).2 happlied
  · rw [if_pos happlied]
    exact (hsent.applied tables).1 happlied

theorem advanceAfterApply_host (drive : Drive Script) :
    (advanceAfterApply drive).2.host = drive.host := by
  unfold advanceAfterApply
  dsimp only
  split_ifs <;> rfl

theorem processReady_ordered (tables : Tables) (ready : Ready) (h : Resting drive.core) :
    ∃ calls, (processReady (scripted tables) ready drive).2.host.trace = drive.host.trace ++ calls ∧
      Ordered ready calls := by
  unfold processReady
  obtain ⟨stored, hpersist, hsteps⟩ := persistReadyWith_staged tables ready drive
  generalize persistReadyWith (scripted tables) ready drive = persisted at hpersist hsteps ⊢
  dsimp only
  by_cases hpersisted : persisted.1 = .ok
  swap
  · rw [if_pos hpersisted]
    exact ⟨stored, hpersist.trace, .of_storage hpersist.kinds⟩
  rw [if_neg (not_not.mpr hpersisted)]
  obtain ⟨sent, hsend⟩ := sendReady_staged tables ready persisted.2
  have hsent : ∀ c ∈ sent, toStorage c = false := by
    intro c hc
    have hkind := hsend.kinds c hc
    cases c with
    | storage step status => cases hkind
    | _ => rfl
  generalize sendReady (scripted tables) ready persisted.2 = transmitted at hsend ⊢
  by_cases htransmitted : transmitted.1 = .ok
  swap
  · rw [if_pos htransmitted]
    refine ⟨stored ++ (sent ++ []), ?_, .of_stages hpersist.kinds (hsteps hpersisted) ?_⟩
    · rw [hsend.trace, hpersist.trace, List.append_nil, List.append_assoc]
    · rwa [List.append_nil]
  rw [if_neg (not_not.mpr htransmitted)]
  have hcore := hsend.core.trans hpersist.core
  obtain ⟨xs, rest, hrest, hkinds, -⟩ := applyReady_takes tables ready (hcore ▸ h)
  have htrace : (applyReady (scripted tables) ready transmitted.2).2.host.trace =
      drive.host.trace ++ (stored ++ (sent ++ rest)) := by
    rw [hrest, hsend.trace, hpersist.trace, List.append_assoc, List.append_assoc]
  have hordered : Ordered ready (stored ++ (sent ++ rest)) := by
    apply Ordered.of_stages hpersist.kinds (hsteps hpersisted)
    intro c hc
    rcases List.mem_append.mp hc with hfirst | hlater
    · exact hsent c hfirst
    · have hkind := hkinds c hlater
      cases c with
      | storage step status => cases hkind
      | _ => rfl
  split_ifs
  · exact ⟨_, htrace, hordered⟩
  · rw [advanceAfterApply_host]
    exact ⟨_, htrace, hordered⟩

theorem retryApply_landed (tables : Tables) (answers : List Status) (h : Driven start s)
    (hblocked : s.runtime.applyBlocked = true) :
    Landed start (afterDrive (runtimeRetryApply (scripted tables) s.runtime s.core
      { answers, trace := s.trace })) := by
  obtain ⟨position, hstart, hposition, hcovers, hat⟩ := h.covers
  unfold runtimeRetryApply
  dsimp only
  by_cases hfaulted : s.runtime.faulted = true
  · rw [if_pos hfaulted]
    exact .broken h.resting h.base rfl position hstart hposition hcovers
  have hsound : s.runtime.faulted = false := by simpa using hfaulted
  obtain ⟨origin, horigin, hheld⟩ := h.held hsound hblocked
  obtain ⟨entry, hnext, hnormal⟩ := hheld.next
  have hlt := (List.getElem?_eq_some_iff.mp hnext).1
  rw [if_neg hfaulted, if_neg (by simp [hblocked]; omega)]
  have happlied := hheld.applied
  have hbelow := h.resting.applied_le
  have hadmitted := h.resting.admitted_le
  have hoffer : Offer start origin s.core s.runtime.blockedEntries :=
    ⟨h.resting, h.base, horigin, by omega, hheld.entries⟩
  have hstanding : Standing origin s.runtime.blockedApplyBegin true s.core :=
    ⟨happlied, hheld.admitted, fun _ => h.free hsound⟩
  rw [hat hsound, happlied] at hcovers
  let drive : Drive Script := startDrive s.runtime s.core { answers, trace := s.trace }
  have houtcome := applyFrom_outcome tables s.runtime.blockedEntries true drive hlt.le h.resting
  by_cases hok : (applyFrom (scripted tables) s.runtime.blockedEntries s.runtime.blockedApplyBegin
      true drive).1 = .ok
  swap
  · rw [if_pos hok]
    exact hoffer.stopped hstanding hcovers houtcome hok
  generalize applyFrom (scripted tables) s.runtime.blockedEntries s.runtime.blockedApplyBegin true
    drive = result at houtcome hok ⊢
  have hlength := hoffer.length
  cases houtcome with
  | @done drive' hsame hkept hruntime htakes =>
    rw [← List.take_length (l := List.drop _ _), List.length_drop] at htakes
    have htaken := hoffer.covers hlt.le le_rfl hcovers htakes
    have hall : origin + s.runtime.blockedEntries.length = s.core.commitIndex := by omega
    have hcore : drive'.core = { s.core with appliedIndex :=
      s.core.appliedIndex + (s.runtime.blockedEntries.length - s.runtime.blockedApplyBegin) } :=
        hsame
    have hlog : drive'.core.log = s.core.log := hkept.log
    have hcommit : drive'.core.commitIndex = s.core.commitIndex := hkept.commit
    refine .whole (s := afterDrive (.ok, drive'.at .complete)) hkept.resting (hlog ▸ h.base)
      (congrArg Runtime.applyBlocked hruntime) ?_ ?_ ?_ ?_
    · change start ≤ drive'.core.commitIndex
      omega
    · change drive'.core.appliedIndex = drive'.core.commitIndex
      rw [hcore]
      dsimp only
      omega
    · change drive'.core.readyOutstanding = false
      rw [hcore]
      exact h.free hsound
    · change covered drive'.host.trace = normals drive'.core.log start drive'.core.commitIndex
      rw [htaken, hlog, hcommit, hall]
  | blocked => cases hok
  | failed hne => exact absurd hok hne

theorem Driven.grow (h : Driven start s) (hunblocked : s.runtime.applyBlocked = false)
    (hresting : Resting core') (hbase : core'.log.baseIndex = s.core.log.baseIndex)
    (hkept : committedEntries s.core <+: core'.log.entries)
    (hcommit : s.core.commitIndex ≤ core'.commitIndex)
    (happlied : core'.appliedIndex = s.core.appliedIndex)
    (hadmitted : core'.applyAdmittedIndex = s.core.applyAdmittedIndex)
    (hfree : s.runtime.faulted = false → core'.readyOutstanding = false) :
    Driven start { s with core := core' } where
  resting := hresting
  base := hbase.trans_le h.base
  covers := by
    obtain ⟨position, hstart, hposition, hcovers, hat⟩ := h.covers
    refine ⟨position, hstart, hposition.trans hcommit, ?_, fun hf => (hat hf).trans happlied.symm⟩
    exact hcovers.trans (normals_kept h.resting.toCoreInv hbase hkept h.base hposition).symm
  free := hfree
  even := fun hf hb => happlied.trans ((h.even hf hb).trans hadmitted.symm)
  held := fun _ hb => absurd (hunblocked.symm.trans hb) Bool.false_ne_true

theorem Driven.inert (h : Driven start s) (hunblocked : s.runtime.applyBlocked = false)
    (hresting : Resting core') (hinert : Inert s.core core') :
      Driven start { s with core := core' } := by
  have hlog : core'.log = s.core.log := congrArg CoreView.log hinert.view
  apply h.grow hunblocked hresting (congrArg Log.baseIndex hlog)
  · rw [hlog]
    exact List.take_prefix _ _
  · exact (congrArg CoreView.commitIndex hinert.view).ge
  · exact congrArg ApplyView.appliedIndex hinert.apply
  · exact congrArg ApplyView.applyAdmittedIndex hinert.apply
  · exact fun hf => (congrArg ApplyView.readyOutstanding hinert.apply).trans (h.free hf)

theorem Driven.process {F : Faith} {call : Call} (h : Driven start s) (tables : Tables)
    (answers : List Status) (hunblocked : s.runtime.applyBlocked = false)
    (hcalled : Called F s.core call) (hf : F.numbered) :
    Landed start (afterDrive (runtimeProcess (scripted tables) s.runtime call.core
      { answers, trace := s.trace } call.ready)) := by
  obtain ⟨position, hstart, hposition, hcovers, hat⟩ := h.covers
  have hkept := (normals_kept h.resting.toCoreInv hcalled.base
    (hcalled.kept hf) h.base hposition).symm
  have hcommit := hcalled.commit_le
  unfold runtimeProcess
  by_cases hfaulted : s.runtime.faulted = true
  · rw [if_pos hfaulted]
    exact .broken hcalled.resting (hcalled.base.trans_le h.base) rfl position hstart
      (hposition.trans hcommit) (hcovers.trans hkept)
  have hsound : s.runtime.faulted = false := by simpa using hfaulted
  obtain rfl := hat hsound
  have heven := h.even hsound hunblocked
  rw [if_neg hfaulted, if_neg (by rw [hunblocked]; exact Bool.false_ne_true)]
  refine processReady_landed tables (?_ : Prepared start s.core.appliedIndex call.ready _)
  refine ⟨⟨hcalled.resting, hcalled.base.trans_le h.base, hstart, hposition.trans hcommit, ?_⟩,
    ⟨hcalled.applied, ?_, fun hfalse => absurd hfalse Bool.false_ne_true⟩, hcalled.handed,
      hunblocked,
    hcovers.trans hkept⟩
  · rw [hcalled.offered, hcalled.admitted, ← heven]
    rfl
  · exact hcalled.admitted.trans heven.symm

theorem runtimeStep_driven {event : RuntimeEvent} {s' : HostState} (h : Driven start s)
    (hnumbered : eventNumbered s.core event = true) (hstep : runtimeStep tables s event = some s') :
    Driven start s' ∧ (drives s event = true → Landed start s') := by
  unfold runtimeStep at hstep
  cases event with
  | call input answers =>
    dsimp only at hstep
    split_ifs at hstep with hguard
    simp only [Bool.and_eq_true, Bool.not_eq_true'] at hguard
    have hresting := perform_resting h.resting input
    have hfinished := (perform_finished h.resting hguard.1).called_or_inert
    dsimp only [drives]
    generalize perform s.core input = result at hstep hresting hfinished ⊢
    obtain ⟨status, call⟩ := result
    rcases hfinished with ⟨hok, hcalled⟩ | ⟨hstatus, hinert⟩
    · obtain rfl : status = .ok := hok
      cases hstep
      have hlanded := h.process tables answers hguard.2 hcalled hnumbered
      exact ⟨hlanded.toDriven, fun _ => hlanded⟩
    · have hnext : s' = { s with core := call.core } := by
        cases status with
        | ok => exact absurd rfl hstatus
        | _ => exact (Option.some.inj hstep).symm
      rw [hnext]
      refine ⟨h.inert hguard.2 hresting hinert, fun hok => ?_⟩
      exact absurd (beq_iff_eq.mp hok) hstatus
  | quiet input =>
    dsimp only at hstep
    split_ifs at hstep with hguard
    simp only [Bool.and_eq_true, Bool.not_eq_true'] at hguard
    cases hstep
    refine ⟨?_, fun hdrives => absurd hdrives Bool.false_ne_true⟩
    have hresting := perform_resting h.resting input
    rcases (perform_finished h.resting hguard.1.1).called_or_inert with ⟨_, hcalled⟩ | ⟨_, hinert⟩
    · exact h.grow hguard.1.2 hresting hcalled.base (hcalled.kept hnumbered) hcalled.commit_le
        hcalled.applied hcalled.admitted fun _ => hguard.2
    · exact h.inert hguard.1.2 hresting hinert
  | retry answers =>
    split_ifs at hstep with hblocked
    cases hstep
    have hlanded := retryApply_landed tables answers h hblocked
    exact ⟨hlanded.toDriven, fun _ => hlanded⟩

end RaftRuntimeDriving
