import TurboRaft.RaftCoreHistories

/-! # What a host can rely on

A host that writes every Ready holds the durable part of its core, and the entries it admits
are those of the committed log, one after the other. Both rest on requests whose entries are
numbered: the log copies entries that nobody has validated to the slots they name. -/
namespace RaftReadyDelivery

open RaftTypes RaftLog RaftCoreState RaftCore RaftCluster RaftRefinement RaftCoreRuns
open RaftCoreHistories RaftOperationEffects RaftRecovery

variable {core : Core}

section Mirror

variable {input : Input}

/-- What a host does after a successful input: it writes the Ready of a call, and it compacts
together with its core. -/
def mirrorWrite (mirror : Disk) (core : Core) (ready : Ready) : Input → Disk
  | .compact =>
    match coreSnapshotPoint core with
    | .error _ => mirror
    | .ok point =>
      { mirror with
        snapshotIndex := point.index
        snapshotTerm := point.term
        entries := mirror.entries.drop (point.index - mirror.snapshotIndex) }
  | _ => persistReady mirror ready

def mirrorInput (mirror : Disk) (core : Core) (input : Input) : Disk :=
  match perform core input with
  | (.ok, call) => mirrorWrite mirror core call.ready input
  | _ => mirror

def mirrorAt (run : CoreRun) : ℕ → Disk
  | 0 => mirrorOf run.start
  | k + 1 => mirrorInput (mirrorAt run k) (run.run.state k) (run.run.event k)

theorem mirrorOf_view {core' : Core} (h : coreView core' = coreView core) :
    mirrorOf core' = mirrorOf core := by
  simp only [coreView, CoreView.mk.injEq] at h
  simp only [mirrorOf, h]

theorem mirrorInput_call (h : Resting core) (hcall : isCall input = true)
    (hnumbered : inputNumbered core input = true) :
    mirrorInput (mirrorOf core) core input = mirrorOf (perform core input).2.core := by
  have hplain : ∀ ready, mirrorWrite (mirrorOf core) core ready input =
      persistReady (mirrorOf core) ready := by
    intro ready
    cases input with
    | compact => cases hcall
    | _ => rfl
  have hfinished := perform_finished h hcall
  unfold mirrorInput
  generalize perform core input = result at hfinished
  cases hfinished with
  | done hcalled => exact (hplain _).trans (hcalled.stored hnumbered)
  | @refused status call hstatus hsame =>
    rw [hsame]
    cases status with
    | ok => exact absurd rfl hstatus
    | _ => rfl
  | aged tick _ _ _ hsame =>
    rw [hsame]
    exact (mirrorOf_view (agedCore_inert core tick.elapsedTicks).view).symm

theorem mirrorInput_plain {result : Status × Core}
    (hperform : perform core input = withoutReady result) (hcompact : input ≠ .compact)
    (hsame : coreView result.2 = coreView core) :
    mirrorInput (mirrorOf core) core input = mirrorOf (perform core input).2.core := by
  obtain ⟨status, next⟩ := result
  unfold mirrorInput
  rw [hperform]
  dsimp only [withoutReady] at hsame ⊢
  rw [mirrorOf_view hsame]
  cases status with
  | ok =>
    cases input with
    | compact => exact absurd rfl hcompact
    | _ => rfl
  | _ => rfl

theorem mirrorInput_compact (core : Core) :
    mirrorInput (mirrorOf core) core .compact = mirrorOf (perform core .compact).2.core := by
  unfold mirrorInput perform compactAtPoint coreCompact mirrorWrite
  cases coreSnapshotPoint core with
  | error status => cases status <;> rfl
  | ok point =>
    dsimp only
    rw [if_neg (by simp)]
    rcases logCompact_cases core.log point.index point.term with ⟨status, hcompact, hstatus⟩ | hok
    · rw [hcompact]
      cases status with
      | ok => exact absurd rfl hstatus
      | _ => rfl
    · rw [hok]
      rfl

theorem mirrorInput_step (h : Resting core)
    (hnumbered : inputNumbered core input = true) :
    mirrorInput (mirrorOf core) core input = mirrorOf (perform core input).2.core := by
  cases input with
  | step m capacity | call operation capacity => exact mirrorInput_call h rfl hnumbered
  | ackReady admitted =>
    exact mirrorInput_plain rfl Input.noConfusion (coreAckReady_view core admitted)
  | ackApplied index =>
    exact mirrorInput_plain rfl Input.noConfusion (coreAckApplied_view core index)
  | advance => exact mirrorInput_plain rfl Input.noConfusion (coreAdvance_view core)
  | setPeerPaused peer paused =>
    exact mirrorInput_plain rfl Input.noConfusion (coreSetPeerPaused_view core peer paused)
  | compact => exact mirrorInput_compact core

/-- A host that writes every Ready holds term, vote, log and commit index of its core, as long
as the requests it takes are numbered where nothing checks them. -/
theorem ready_is_redo_log (run : CoreRun)
    (hnumbered : run.run.Meets fun core input => inputNumbered core input = true) {k : ℕ}
    (hk : k ≤ run.run.length) : mirrorAt run k = mirrorOf (run.run.state k) := by
  induction k with
  | zero => rw [run.run.initial]; rfl
  | succ k ih =>
    rw [mirrorAt, ih (by omega), run.step (by omega)]
    exact mirrorInput_step (run.resting (by omega)) (hnumbered k (by omega))

/-- Two requests of a leader of term 1: the first commits two entries, the second one extends
the log by an entry and carries a further entry that names slot 1. -/
def firstBatch : Input :=
  .step { plainMessage .appendRequest 2 1 1 with
    leaderCommit := 2
    entries := [command 1 1 11, command 2 1 12] } 5

def misnumberedBatch : Input :=
  .step { plainMessage .appendRequest 2 1 1 with
    leaderCommit := 2
    previousLogIndex := 2
    previousLogTerm := 1
    entries := [command 3 1 13, command 1 1 99] } 5

def numberedBatch : Input :=
  .step { plainMessage .appendRequest 2 1 1 with
    leaderCommit := 4
    previousLogIndex := 2
    previousLogTerm := 1
    entries := [command 3 1 13, command 4 1 14] } 5

def misnumberedRun : CoreRun :=
  .ofInputs sampleConfig [firstBatch, .advance, misnumberedBatch] (by decide +kernel)

def numberedRun : CoreRun :=
  .ofInputs sampleConfig [firstBatch, .advance, numberedBatch, .advance, .compact]
    (by decide +kernel)

theorem numbered_ready_is_redo_log :
    (numberedRun.run.Meets fun core input => inputNumbered core input = true) ∧
      numberedRun.run.length = 5 ∧ mirrorAt numberedRun 5 = mirrorOf (numberedRun.run.state 5) := by
  have hnumbered : numberedRun.run.Meets fun core input => inputNumbered core input = true :=
    CoreRun.ofInputs_meets _ (by decide +kernel)
  have hlength : numberedRun.run.length = 5 := by decide +kernel
  exact ⟨hnumbered, hlength, ready_is_redo_log numberedRun hnumbered hlength.ge⟩

/-- The call succeeds, but entry 1 of the core is not the one the mirror holds: the Ready
reports the appended slots only. -/
theorem misnumbered_batch_unreported :
    (perform (misnumberedRun.run.state 2) misnumberedBatch).1 = .ok ∧
      misnumberedRun.run.length = 3 ∧
      logGet (misnumberedRun.run.state 3).log 1 = some (command 1 1 99) ∧
      (mirrorAt misnumberedRun 3).entries[0]? = some (command 1 1 11) ∧
      mirrorAt misnumberedRun 3 ≠ mirrorOf (misnumberedRun.run.state 3) := by
  decide +kernel

end Mirror

variable {core' : Core} {input : Input}

/-- The committed entries of the last Ready, and all entries a host has admitted. -/
structure Delivery where
  offered : List Entry
  admitted : List Entry
  deriving DecidableEq, Repr

def admission (delivery : Delivery) : Input → List Entry
  | .advance => delivery.offered
  | .ackReady count => delivery.offered.take count
  | _ => []

def deliver (delivery : Delivery) (core : Core) (input : Input) : Delivery :=
  match perform core input with
  | (.ok, call) =>
    { offered := if isCall input then call.ready.committedEntries else delivery.offered
      admitted := delivery.admitted ++ admission delivery input }
  | _ => delivery

def deliveryAt (run : CoreRun) : ℕ → Delivery
  | 0 => { offered := [], admitted := [] }
  | k + 1 => deliver (deliveryAt run k) (run.run.state k) (run.run.event k)

/-- What the host has admitted is the log after `start`, as far as it is retained, and what it
was offered last comes next. -/
structure Delivered (start : ℕ) (core : Core) (delivery : Delivery) : Prop where
  start_le : start ≤ core.applyAdmittedIndex
  count : delivery.admitted.length = core.applyAdmittedIndex - start
  entries : ∀ i, i < delivery.admitted.length → core.log.baseIndex < start + i + 1 →
    logGet core.log (start + i + 1) = delivery.admitted[i]?
  next : core.readyOutstanding = true → delivery.offered = logSlice core.log
    (core.applyAdmittedIndex + 1) (core.pendingApplyIndex - core.applyAdmittedIndex)

variable {start : ℕ} {delivery : Delivery}

theorem logSlice_get {log : Log} {first count i : ℕ} (hbase : log.baseIndex < first)
    (hlast : first + count ≤ logLastIndex log + 1) (hi : i < count) :
    (logSlice log first count)[i]? = logGet log (first + i) := by
  unfold logSlice logGet
  rw [List.getElem?_take_of_lt hi, List.getElem?_drop, if_neg (by simp; omega)]
  congr 1
  omega

theorem logSlice_length {log : Log} {first count : ℕ} (hbase : log.baseIndex < first)
    (hlast : first + count ≤ logLastIndex log + 1) : (logSlice log first count).length = count := by
  have hend := logLastIndex_eq log
  unfold logSlice
  rw [List.length_take, List.length_drop]
  omega

theorem logGet_kept (hinv : CoreInv core) (hcommit : core.commitIndex ≤ core'.commitIndex)
    (hlast : core'.commitIndex ≤ logLastIndex core'.log)
    (hbase : core'.log.baseIndex = core.log.baseIndex)
    (hkept : committedEntries core <+: core'.log.entries) {index : ℕ}
    (hlow : core.log.baseIndex < index) (hhigh : index ≤ core.commitIndex) :
    logGet core'.log index = logGet core.log index := by
  have hle := hinv.commit_le
  obtain ⟨tail, htail⟩ := hkept
  have hlength : (committedEntries core).length = core.commitIndex - core.log.baseIndex := by
    have hend := logLastIndex_eq core.log
    rw [committedEntries, List.length_take, min_eq_left (by omega)]
  unfold logGet
  rw [if_neg (by simp; omega), if_neg (by simp; omega), hbase, ← htail,
    List.getElem?_append_left (by omega), committedEntries, List.getElem?_take_of_lt (by omega)]

section

variable (h : Delivered start core delivery)

include h

theorem Delivered.same (hlog : core'.log = core.log)
    (hadmitted : core'.applyAdmittedIndex = core.applyAdmittedIndex)
    (hpending : core'.pendingApplyIndex = core.pendingApplyIndex)
    (houtstanding : core'.readyOutstanding = true → core.readyOutstanding = true) :
    Delivered start core' delivery := by
  constructor
  case start_le => rw [hadmitted]; exact h.start_le
  case count => rw [hadmitted]; exact h.count
  case entries => rw [hlog]; exact h.entries
  case next =>
    intro hout
    rw [hlog, hadmitted, hpending]
    exact h.next (houtstanding hout)

theorem Delivered.call {call : Call} {F : Faith}
    (hresting : Resting core) (hcalled : Called F core call) (hf : F.numbered) :
    Delivered start call.core
      { offered := call.ready.committedEntries, admitted := delivery.admitted ++ [] } := by
  have hadmitted := hcalled.admitted
  constructor
  case start_le => rw [hadmitted]; exact h.start_le
  case count => rw [hadmitted, List.append_nil]; exact h.count
  case entries =>
    intro i hi hbase
    dsimp only at hi ⊢
    rw [List.append_nil] at hi ⊢
    rw [hcalled.base] at hbase
    rw [← h.entries i hi hbase]
    have hcount := h.count
    have hle := hresting.admitted_le
    exact logGet_kept hresting.toCoreInv hcalled.commit_le hcalled.resting.commit_le hcalled.base
      (hcalled.kept hf) hbase (by omega)
  case next =>
    intro _
    dsimp only
    rw [hcalled.offered, hcalled.handed]
    split_ifs with hwaits
    · rfl
    · congr 1
      omega

theorem Delivered.acknowledge (hresting : Resting core) (hout : core.readyOutstanding = true) {count : ℕ}
    (hcount : count ≤ core.pendingApplyIndex - core.applyAdmittedIndex) (applied : ℕ) :
    Delivered start
      { core with
        applyAdmittedIndex := core.applyAdmittedIndex + count
        appliedIndex := applied
        pendingApplyIndex := 0
        readyOutstanding := false }
      { delivery with admitted := delivery.admitted ++ delivery.offered.take count } := by
  have hbase := hresting.base_le
  have happlied := hresting.applied_le
  have hadmitted := hresting.admitted_le
  have hlast := hresting.commit_le
  have hstart := h.start_le
  have hlength := h.count
  have hbound : count = 0 ∨ core.pendingApplyIndex = core.commitIndex := by
    by_cases hwaits : core.pendingApplyIndex = 0
    · left
      omega
    · exact Or.inr (hresting.handed hwaits).1
  have htaken : (delivery.offered.take count).length = count := by
    rcases hbound with hzero | hpending
    · rw [hzero]
      rfl
    · rw [h.next hout, List.length_take, logSlice_length (by omega) (by omega)]
      omega
  constructor
  case start_le => exact h.start_le.trans (Nat.le_add_right _ _)
  case count =>
    dsimp only
    rw [List.length_append, htaken]
    omega
  case entries =>
    intro i hi hlow
    rw [List.length_append, htaken] at hi
    rcases Nat.lt_or_ge i delivery.admitted.length with hold | hnew
    · rw [List.getElem?_append_left hold]
      exact h.entries i hold hlow
    · rw [List.getElem?_append_right hnew, List.getElem?_take_of_lt (by omega), h.next hout,
        logSlice_get (by omega) (by omega) (by omega)]
      congr 1
      omega
  case next => exact fun hfalse => absurd hfalse Bool.false_ne_true

theorem Delivered.compact (hresting : Resting core) :
    Delivered start (compactAtPoint core).2 delivery := by
  rcases compactAtPoint_cases core with ⟨_, hsame⟩ | ⟨term, hfree, happlied, hbase, hok⟩
  · rw [hsame]
    exact h
  · rw [hok]
    have hadmitted := hresting.admitted_le
    have hcount := h.count
    constructor
    case start_le => exact h.start_le
    case count => exact h.count
    case entries =>
      -- everything admitted lies at or below the new base
      intro i hi hlow
      dsimp only at hlow
      omega
    case next => exact fun hout => absurd (hfree.symm.trans hout) Bool.false_ne_true

end

theorem Delivered.refused (h : Delivered start core delivery)
    (hstatus : (perform core input).1 ≠ .ok) (hsame : (perform core input).2.core = core) :
    Delivered start (perform core input).2.core (deliver delivery core input) := by
  rw [hsame]
  unfold deliver
  generalize perform core input = result at hstatus
  obtain ⟨status, call⟩ := result
  cases status with
  | ok => exact absurd rfl hstatus
  | _ => exact h

theorem deliver_nothing (hcall : isCall input = false)
    (hnothing : admission delivery input = []) : deliver delivery core input = delivery := by
  unfold deliver
  rw [hnothing, hcall, List.append_nil]
  generalize perform core input = result
  obtain ⟨status, call⟩ := result
  cases status <;> rfl

theorem Delivered.step (h : Delivered start core delivery) (hresting : Resting core) {input : Input}
    (hnumbered : inputNumbered core input = true) :
    Delivered start (perform core input).2.core (deliver delivery core input) := by
  cases hcall : isCall input with
  | true =>
    have hnothing : admission delivery input = [] := by
      cases input with
      | step m capacity | call operation capacity => rfl
      | _ => cases hcall
    have hfinished := perform_finished hresting hcall
    unfold deliver
    rw [hnothing, hcall]
    generalize perform core input = result at hfinished
    cases hfinished with
    | done hcalled => exact h.call hresting hcalled hnumbered
    | @refused status call hstatus hsame =>
      rw [hsame]
      cases status with
      | ok => exact absurd rfl hstatus
      | _ => exact h
    | aged tick _ _ _ hsame =>
      have hinert := agedCore_inert core tick.elapsedTicks
      rw [hsame]
      exact h.same (congrArg CoreView.log hinert.view)
        (congrArg ApplyView.applyAdmittedIndex hinert.apply)
        (congrArg ApplyView.pendingApplyIndex hinert.apply)
        fun hout => (congrArg ApplyView.readyOutstanding hinert.apply).symm.trans hout
  | false =>
    cases input with
    | step m capacity | call operation capacity => cases hcall
    | ackReady count =>
      rcases coreAckReady_cases core count with ⟨hstatus, hsame⟩ | ⟨hout, hcount, hok⟩
      · exact h.refused hstatus hsame
      · dsimp only [deliver, perform]
        rw [hok]
        exact h.acknowledge hresting hout hcount core.appliedIndex
    | ackApplied index =>
      rw [deliver_nothing rfl rfl]
      dsimp only [perform, withoutReady]
      rcases coreAckApplied_cases core index with ⟨_, hsame⟩ | ⟨_, _, hok⟩
      · rw [hsame]
        exact h
      · rw [hok]
        exact h.same rfl rfl rfl id
    | advance =>
      rcases coreAdvance_cases core with ⟨hstatus, hsame⟩ | ⟨hout, hwaits, _, hahead, hok⟩ |
        ⟨hout, hnone, hok⟩
      · exact h.refused hstatus hsame
      · have hall := h.acknowledge hresting hout le_rfl core.pendingApplyIndex
        have hoffered : delivery.offered.take
            (core.pendingApplyIndex - core.applyAdmittedIndex) = delivery.offered := by
          rw [h.next hout]
          unfold logSlice
          rw [List.take_take, Nat.min_self]
        rw [hoffered, Nat.add_sub_cancel' hahead] at hall
        dsimp only [deliver, perform]
        rw [hok]
        exact hall
      · have hnext : delivery.offered = [] := by
          rw [h.next hout, hnone, Nat.zero_sub]
          exact List.take_zero
        have hnothing : admission delivery .advance = [] := hnext
        rw [deliver_nothing rfl hnothing]
        dsimp only [perform]
        rw [hok]
        exact h.same rfl rfl rfl fun hfalse => absurd hfalse Bool.false_ne_true
    | setPeerPaused peer paused =>
      rw [deliver_nothing rfl rfl]
      dsimp only [perform, withoutReady]
      obtain ⟨_, hsame⟩ := coreSetPeerPaused_same core peer paused
      rw [hsame]
      exact h.same rfl rfl rfl id
    | compact =>
      rw [deliver_nothing rfl rfl]
      exact h.compact hresting

theorem deliveryAt_delivered (run : CoreRun)
    (hnumbered : run.run.Meets fun core input => inputNumbered core input = true) {k : ℕ}
    (hk : k ≤ run.run.length) :
    Delivered run.start.appliedIndex (run.run.state k) (deliveryAt run k) := by
  induction k with
  | zero =>
    obtain ⟨hadmitted, hfree⟩ := coreCreate_fresh run.created
    have hinitial : run.run.state 0 = run.start := run.run.initial
    rw [hinitial]
    refine ⟨hadmitted.ge, ?_, fun i hi => absurd hi (Nat.not_lt_zero i), ?_⟩
    · rw [hadmitted, Nat.sub_self]
      rfl
    · exact fun hout => absurd (hfree.symm.trans hout) Bool.false_ne_true
  | succ k ih =>
    rw [run.step (by omega)]
    exact (ih (by omega)).step (run.resting (by omega)) (hnumbered k (by omega))

theorem deliver_grows (delivery : Delivery) (core : Core) (input : Input) :
    delivery.admitted <+: (deliver delivery core input).admitted := by
  unfold deliver
  generalize perform core input = result
  obtain ⟨status, call⟩ := result
  cases status with
  | ok => exact List.prefix_append _ _
  | _ => exact List.prefix_rfl

/-- What a host has admitted by some moment of a run is the log from the first unapplied index
on, and it never changes: at every later moment the log still holds it, as far as retained. -/
theorem entries_delivered_once (run : CoreRun)
    (hnumbered : run.run.Meets fun core input => inputNumbered core input = true) {j k : ℕ} (hjk : j ≤ k)
    (hk : k ≤ run.run.length) :
    (deliveryAt run j).admitted.length =
        (run.run.state j).applyAdmittedIndex - run.start.appliedIndex ∧
      (deliveryAt run j).admitted <+: (deliveryAt run k).admitted ∧
      (∀ i e, (deliveryAt run j).admitted[i]? = some e →
        (run.run.state k).log.baseIndex < run.start.appliedIndex + i + 1 →
        logGet (run.run.state k).log (run.start.appliedIndex + i + 1) = some e) ∧
      (run.run.state k).log.baseIndex ≤ (run.run.state k).appliedIndex ∧
      (run.run.state k).appliedIndex ≤ (run.run.state k).applyAdmittedIndex ∧
      (run.run.state k).applyAdmittedIndex ≤ (run.run.state k).commitIndex ∧
      (run.run.state k).commitIndex ≤ wordLastIndex (run.run.state k).log := by
  have hnow := deliveryAt_delivered run hnumbered (hjk.trans hk)
  have hlater := deliveryAt_delivered run hnumbered hk
  have hresting := run.resting hk
  have hgrown :=
      run.run.span (fun a b => (deliveryAt run a).admitted <+: (deliveryAt run b).admitted)
      (fun _ => List.prefix_rfl) (fun _ _ _ => List.IsPrefix.trans)
      (fun i _ => deliver_grows _ _ _) hjk hk
  refine ⟨hnow.count, hgrown, ?_, hresting.base_le, hresting.applied_le, hresting.admitted_le,
    hresting.commit_le.trans_eq (run.indexable k hk).word.symm⟩
  intro i e he hbase
  have hlt := (List.getElem?_eq_some_iff.mp he).1
  obtain ⟨tail, htail⟩ := hgrown
  have hsame : (deliveryAt run k).admitted[i]? = some e := by
    rw [← htail, List.getElem?_append_left hlt]
    exact he
  rw [← hsame]
  exact hlater.entries i (List.getElem?_eq_some_iff.mp hsame).1 hbase

theorem numbered_entries_delivered :
    (numberedRun.run.Meets fun core input => inputNumbered core input = true) ∧
      (deliveryAt numberedRun 4).admitted =
        [command 1 1 11, command 2 1 12, command 3 1 13, command 4 1 14] ∧
      logGet (numberedRun.run.state 4).log 3 = some (command 3 1 13) := by
  have hnumbered : numberedRun.run.Meets fun core input => inputNumbered core input = true :=
    CoreRun.ofInputs_meets _ (by decide +kernel)
  have hadmitted : (deliveryAt numberedRun 4).admitted =
      [command 1 1 11, command 2 1 12, command 3 1 13, command 4 1 14] := by decide +kernel
  have hdelivered := entries_delivered_once numberedRun hnumbered (le_refl 4) (by decide +kernel)
  exact ⟨hnumbered, hadmitted, hdelivered.2.2.1 2 (command 3 1 13) (by decide +kernel)
    (by decide +kernel)⟩

/-- Entry 1 was admitted and applied, and the log then holds another entry in its place. -/
theorem misnumbered_batch_changes_applied :
    (perform (misnumberedRun.run.state 2) misnumberedBatch).1 = .ok ∧
      (deliveryAt misnumberedRun 2).admitted[0]? = some (command 1 1 11) ∧
      (misnumberedRun.run.state 2).appliedIndex = 2 ∧
      (misnumberedRun.run.state 3).log.baseIndex = 0 ∧
      logGet (misnumberedRun.run.state 3).log 1 = some (command 1 1 99) := by
  decide +kernel

end RaftReadyDelivery
