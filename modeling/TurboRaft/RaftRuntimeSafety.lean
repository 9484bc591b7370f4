import Mathlib.Order.Bounds.Basic
import TurboRaft.RaftRuntimeDriving

/-! # Persist, send, apply

A core driven by the runtime under callbacks that answer anything: nothing reaches the transport
before it is stored, and what the state machine has taken is the committed log without its
configuration entries, up to the applied index. -/
namespace RaftRuntimeSafety

open RaftTypes RaftLog RaftCore RaftCoreRuns RaftReadyDelivery RaftConfigurationHistory Executions
open RaftRuntime RaftRuntimeStages RaftRuntimeApplying RaftRuntimeDriving RaftCoreHistories
open RaftLogReconcile

variable {tables : Tables} {core core' : Core}

/-- A created core and its runtime under any events, as long as the indices fit. -/
structure RuntimeRun where
  config : CoreConfig
  start : Core
  created : coreCreate config = .ok start
  tables : Tables
  run : Execution (runtimeSystem tables start)
  indexable : run.Stays fun s => Indexable s.core.log

theorem RuntimeRun.driven (run : RuntimeRun)
    (hnumbered : run.run.Meets fun s event => eventNumbered s.core event = true) {k : ℕ}
    (hk : k ≤ run.run.length) : Driven run.start.appliedIndex (run.run.state k) := by
  apply run.run.invariant hnumbered (Driven run.start.appliedIndex) _ _ k hk
  · have hresting := coreCreate_resting run.created
    obtain ⟨hadmitted, hfree⟩ := coreCreate_fresh run.created
    have hadmittedLe := hresting.admitted_le
    refine ⟨hresting, hresting.base_le, ⟨run.start.appliedIndex, le_rfl, ?_, ?_, fun _ => rfl⟩,
      fun _ => hfree, fun _ _ => hadmitted.symm, fun _ hb => absurd hb Bool.false_ne_true⟩
    · change run.start.appliedIndex ≤ run.start.commitIndex
      omega
    · unfold normals
      rw [Nat.sub_self]
      rfl
  · intro s event s' h hevent hstep
    exact (runtimeStep_driven h hevent hstep).1

theorem RuntimeRun.landed (run : RuntimeRun)
    (hnumbered : run.run.Meets fun s event => eventNumbered s.core event = true) {k : ℕ}
    (hk : k < run.run.length) (hdrives : drives (run.run.state k) (run.run.event k) = true) :
    Landed run.start.appliedIndex (run.run.state (k + 1)) :=
  (runtimeStep_driven (run.driven hnumbered hk.le) (hnumbered k hk) (run.run.transition k hk)).2
    hdrives

variable {start : ℕ} {s : HostState}

theorem normal_index {log : Log} (h : SlotsOk log) {index : ℕ} {entry : Entry}
    (hget : logGet log index = some entry) (hnormal : isNormal entry = true) :
    entry.index = index := by
  rcases h.get hget with hindex | hzero
  · exact hindex
  · rw [hzero] at hnormal
    cases hnormal

theorem mem_normals {log : Log} {first last : ℕ} (hbase : log.baseIndex ≤ first)
    (hlast : last ≤ logLastIndex log) (entry : Entry) :
    entry ∈ normals log first last ↔ isNormal entry = true ∧
      ∃ index, first < index ∧ index ≤ last ∧ logGet log index = some entry := by
  unfold normals normalEntries
  rw [List.mem_filter, and_comm]
  apply and_congr_right
  intro _
  by_cases horder : first ≤ last
  swap
  · rw [Nat.sub_eq_zero_of_le (by omega)]
    constructor
    · exact fun h => absurd h List.not_mem_nil
    · omega
  have hlength : (logSlice log (first + 1) (last - first)).length = last - first :=
    logSlice_length (by omega) (by omega)
  constructor
  · intro hmem
    obtain ⟨i, hi, hat⟩ := List.mem_iff_getElem.mp hmem
    refine ⟨first + 1 + i, by omega, by omega, ?_⟩
    rw [← @logSlice_get log (first + 1) (last - first) i (by omega) (by omega) (by omega),
      List.getElem?_eq_getElem hi, hat]
  · rintro ⟨index, hlow, hhigh, hget⟩
    apply List.mem_of_getElem? (i := index - first - 1)
    rw [logSlice_get (by omega) (by omega) (by omega), ← hget]
    congr 1
    omega

theorem normals_ascending {log : Log} {first last : ℕ} (h : SlotsOk log)
    (hbase : log.baseIndex ≤ first) (hlast : last ≤ logLastIndex log) :
    (normals log first last).Pairwise fun a b => a.index < b.index := by
  unfold normals normalEntries
  rw [List.pairwise_filter, List.pairwise_iff_getElem]
  intro i j hi hj hij ha hb
  by_cases horder : first ≤ last
  swap
  · rw [Nat.sub_eq_zero_of_le (by omega)] at hi
    exact absurd hi (Nat.not_lt_zero i)
  have hlength : (logSlice log (first + 1) (last - first)).length = last - first :=
    logSlice_length (by omega) (by omega)
  have hget : ∀ k (hk : k < (logSlice log (first + 1) (last - first)).length),
      logGet log (first + 1 + k) = some (logSlice log (first + 1) (last - first))[k] := by
    intro k hk
    rw [← @logSlice_get log (first + 1) (last - first) k (by omega) (by omega) (by omega),
      List.getElem?_eq_getElem hk]
  rw [normal_index h (hget i hi) ha, normal_index h (hget j hj) hb]
  omega

/-- The committed indices up to which the state machine has taken every normal entry. -/
def takenThrough (start : ℕ) (s : HostState) : Set ℕ :=
  { last | last ≤ s.core.commitIndex ∧ ∀ index entry, start < index → index ≤ last →
    logGet s.core.log index = some entry → isNormal entry = true → entry ∈ covered s.trace }

theorem landed_greatest (h : Landed start s) (hsound : s.runtime.faulted = false) :
    IsGreatest (takenThrough start s) s.core.appliedIndex := by
  obtain ⟨position, hstart, hposition, hcovers, hat⟩ := h.covers
  obtain rfl := hat hsound
  have hlast := h.resting.commit_le
  have hmem := mem_normals h.base (hposition.trans hlast)
  constructor
  · refine ⟨hposition, ?_⟩
    intro index entry hlow hhigh hget hnormal
    rw [hcovers, hmem]
    exact ⟨hnormal, index, hlow, hhigh, hget⟩
  · rintro last ⟨hcommit, htaken⟩
    by_contra hbeyond
    cases hblocked : s.runtime.applyBlocked with
    | false =>
      have hall := h.complete hsound hblocked
      omega
    | true =>
      -- the first entry of the blocked batch has not been taken
      obtain ⟨origin, horigin, hheld⟩ := h.held hsound hblocked
      obtain ⟨entry, hnext, hnormal⟩ := hheld.next
      have happlied := hheld.applied
      have hbase := h.base
      have hget : logGet s.core.log (s.core.appliedIndex + 1) = some entry := by
        rw [← hnext, hheld.entries, logSlice_get (by omega) (by omega) (by omega)]
        congr 1
        omega
      have htake := htaken _ entry (by omega) (by omega) hget hnormal
      rw [hcovers, hmem] at htake
      obtain ⟨_, index, _, hhigh, hget'⟩ := htake
      have hindex := normal_index h.resting.slots hget hnormal
      have hindex' := normal_index h.resting.slots hget' hnormal
      omega

/-- The calls of one event: whatever reaches the transport belongs to a call whose Ready is
stored by then. -/
def StoredFirst (s s' : HostState) (event : RuntimeEvent) : Prop :=
  ∀ before call after, s'.trace = s.trace ++ (before ++ call :: after) → toTransport call = true →
    ∃ input answers, event = .call input answers ∧
      storedSteps before = requiredSteps (perform s.core input).2.ready

theorem runtimeProcess_ordered (tables : Tables) (runtime : Runtime) (host : Script) (ready : Ready)
    (h : Resting core) :
    ∃ calls, (runtimeProcess (scripted tables) runtime core host ready).2.host.trace =
      host.trace ++ calls ∧ Ordered ready calls := by
  have hnothing : Ordered ready [] := .of_storage fun _ hc => absurd hc List.not_mem_nil
  unfold runtimeProcess
  split_ifs
  · exact ⟨[], (List.append_nil _).symm, hnothing⟩
  · exact ⟨[], (List.append_nil _).symm, hnothing⟩
  · exact processReady_ordered tables ready h

theorem runtimeRetryApply_takes (tables : Tables) (runtime : Runtime) (host : Script)
    (h : Resting core) :
    ∃ calls, (runtimeRetryApply (scripted tables) runtime core host).2.host.trace =
      host.trace ++ calls ∧ ∀ c ∈ calls, toStateMachine c = true := by
  unfold runtimeRetryApply
  dsimp only
  split_ifs with hfaulted hrefused
  · exact ⟨[], (List.append_nil _).symm, fun _ hc => absurd hc List.not_mem_nil⟩
  · exact ⟨[], (List.append_nil _).symm, fun _ hc => absurd hc List.not_mem_nil⟩
  all_goals
    have hfirst : runtime.blockedApplyBegin ≤ runtime.blockedEntries.length := by
      simp only [Bool.or_eq_true, decide_eq_true_eq, not_or, not_le] at hrefused
      omega
    obtain ⟨_, calls, htrace, hkinds, -⟩ := (applyFrom_outcome tables runtime.blockedEntries true
      (startDrive runtime core host) hfirst h).takes_some
    exact ⟨calls, htrace, hkinds⟩

theorem runtimeStep_stored_first {event : RuntimeEvent} {s' : HostState} (hresting : Resting s.core)
    (hstep : runtimeStep tables s event = some s') : StoredFirst s s' event := by
  intro before first after htrace htransport
  -- an event that calls nothing or only the state machine has no such call
  have hnone : ∀ calls, s'.trace = s.trace ++ calls → first ∈ calls := by
    intro calls hcalls
    rw [List.append_cancel_left (hcalls.symm.trans htrace)]
    simp
  unfold runtimeStep at hstep
  cases event with
  | call input answers =>
    dsimp only at hstep
    split_ifs at hstep
    have hnext := perform_resting hresting input
    generalize hresult : perform s.core input = result at hstep hnext
    obtain ⟨status, call⟩ := result
    refine ⟨input, answers, rfl, ?_⟩
    rw [hresult]
    cases status with
    | ok =>
      cases hstep
      obtain ⟨calls, hcalls, hordered⟩ := runtimeProcess_ordered tables s.runtime
        { answers, trace := s.trace } call.ready hnext
      exact hordered.stored_first before first after
        (List.append_cancel_left (hcalls.symm.trans htrace)) htransport
    | _ =>
      cases hstep
      exact absurd (hnone [] (List.append_nil _).symm) List.not_mem_nil
  | quiet input =>
    dsimp only at hstep
    split_ifs at hstep
    cases hstep
    exact absurd (hnone [] (List.append_nil _).symm) List.not_mem_nil
  | retry answers =>
    split_ifs at hstep
    cases hstep
    obtain ⟨calls, hcalls, hkinds⟩ := runtimeRetryApply_takes tables s.runtime
      { answers, trace := s.trace } hresting
    have happly := hkinds first (hnone calls hcalls)
    rw [transport_not_applied first htransport] at happly
    cases happly

/-- In every run of a core and its runtime whose replication requests are numbered: nothing
reaches the transport before its Ready is stored; the state machine has taken a stretch of the
committed log without its configuration entries, once and in order; and the applied index is
exact whenever a Ready or a retry leaves the runtime sound. -/
theorem runtime_stores_sends_applies (run : RuntimeRun)
    (hnumbered : run.run.Meets fun s event => eventNumbered s.core event = true) :
    (∀ k, k < run.run.length →
      StoredFirst (run.run.state k) (run.run.state (k + 1)) (run.run.event k)) ∧
    (∀ k, k ≤ run.run.length → ∃ last, last ≤ (run.run.state k).core.commitIndex ∧
      covered (run.run.state k).trace =
        normals (run.run.state k).core.log run.start.appliedIndex last ∧
      (covered (run.run.state k).trace).Pairwise fun a b => a.index < b.index) ∧
    (∀ k, k < run.run.length → drives (run.run.state k) (run.run.event k) = true →
      (run.run.state (k + 1)).runtime.faulted = false →
      IsGreatest (takenThrough run.start.appliedIndex (run.run.state (k + 1)))
        (run.run.state (k + 1)).core.appliedIndex) := by
  refine ⟨?_, ?_, ?_⟩
  · intro k hk
    exact runtimeStep_stored_first (run.driven hnumbered hk.le).resting (run.run.transition k hk)
  · intro k hk
    have hdriven := run.driven hnumbered hk
    obtain ⟨last, _, hlast, hcovers, _⟩ := hdriven.covers
    refine ⟨last, hlast, hcovers, ?_⟩
    rw [hcovers]
    exact normals_ascending hdriven.resting.slots hdriven.base
      (hlast.trans hdriven.resting.commit_le)
  · intro k hk hdrives hsound
    exact landed_greatest (run.landed hnumbered hk hdrives) hsound

def eventsFit (tables : Tables) (start : Core) (events : List RuntimeEvent) : Bool :=
  let S := runtimeSystem tables start
  (runEvents S S.init events).isSome && decide (Indexable start.log) &&
    meetsAlong S (fun s e => (S.step s e).all (decide <| Indexable ·.core.log)) S.init events

def RuntimeRun.ofEvents (tables : Tables) (events : List RuntimeEvent)
    (h : eventsFit tables (createdCore sampleConfig) events = true) : RuntimeRun where
  config := sampleConfig
  start := createdCore sampleConfig
  created := createdCore_ok (by decide +kernel)
  tables := tables
  run := .ofEvents _ events (by simp only [eventsFit, Bool.and_eq_true] at h; exact h.1.1)
  indexable := by
    simp only [eventsFit, Bool.and_eq_true, decide_eq_true_eq] at h
    exact Execution.ofEvents_stays _ h.1.2 h.2

def fullTables : Tables :=
  { storage := true, enqueue := true, enqueueSnapshot := true, applyBatch := true }

/-- A command and a configuration are committed; the state machine takes the command only when
it is asked again. -/
def retriedRun : RuntimeRun :=
  .ofEvents fullTables
    [.call (.step { plainMessage .appendRequest 2 1 1 with
        leaderCommit := 2
        entries := [command 1 1 11, confEntry leavingConf 2 1] } 5)
      [.ok, .ok, .ok, .ok, .ok, .ok, .ebusy],
      .retry []] (by decide +kernel)

/-- A configuration is committed and passed over; a later request carries a command that names
its slot. -/
def overwrittenRun : RuntimeRun :=
  .ofEvents fullTables
    [.call (.step { plainMessage .appendRequest 2 1 1 with
        leaderCommit := 1
        entries := [confEntry leavingConf 1 1] } 5) [],
      .call (.step { plainMessage .appendRequest 2 1 1 with
        leaderCommit := 2
        previousLogIndex := 1
        previousLogTerm := 1
        entries := [command 2 1 12, command 1 1 99] } 5) []] (by decide +kernel)

theorem retried_batch_applied :
    (retriedRun.run.Meets fun s event => eventNumbered s.core event = true) ∧
      (retriedRun.run.state 1).runtime.applyBlocked = true ∧
      (retriedRun.run.state 1).core.appliedIndex = 0 ∧
      covered (retriedRun.run.state 2).trace = [command 1 1 11] ∧
      (retriedRun.run.state 2).core.appliedIndex = 2 ∧
      IsGreatest (takenThrough retriedRun.start.appliedIndex (retriedRun.run.state 2))
        (retriedRun.run.state 2).core.appliedIndex := by
  have hnumbered : retriedRun.run.Meets fun s event => eventNumbered s.core event = true :=
    Execution.ofEvents_meets (by decide +kernel) (by decide +kernel)
  have hgreatest := (runtime_stores_sends_applies retriedRun hnumbered).2.2 1 (by decide +kernel)
    (by decide +kernel) (by decide +kernel)
  exact ⟨hnumbered, by decide +kernel, by decide +kernel, by decide +kernel, by decide +kernel,
    hgreatest⟩

/-- The runtime is sound and says that everything committed is applied, but the command in
slot 1 was never given to the state machine. -/
theorem overwritten_entry_skipped :
    overwrittenRun.run.length = 2 ∧
      drives (overwrittenRun.run.state 1) (overwrittenRun.run.event 1) = true ∧
      (overwrittenRun.run.state 2).runtime.faulted = false ∧
      (overwrittenRun.run.state 2).core.appliedIndex = 2 ∧
      logGet (overwrittenRun.run.state 2).core.log 1 = some (command 1 1 99) ∧
      covered (overwrittenRun.run.state 2).trace = [command 2 1 12] ∧
      ¬ IsGreatest (takenThrough overwrittenRun.start.appliedIndex (overwrittenRun.run.state 2))
        (overwrittenRun.run.state 2).core.appliedIndex := by
  have happlied : (overwrittenRun.run.state 2).core.appliedIndex = 2 := by decide +kernel
  have hget : logGet (overwrittenRun.run.state 2).core.log 1 = some (command 1 1 99) := by
    decide +kernel
  have hcovered : covered (overwrittenRun.run.state 2).trace = [command 2 1 12] := by
    decide +kernel
  refine ⟨by decide +kernel, by decide +kernel, by decide +kernel, happlied, hget, hcovered, ?_⟩
  intro hgreatest
  have htaken := hgreatest.1.2 1 (command 1 1 99) (by decide +kernel) (by decide) hget rfl
  exact absurd htaken (by decide)

end RaftRuntimeSafety

