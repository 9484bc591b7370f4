import TurboRaft.RaftCallConduct
import TurboRaft.RaftLogContracts

/-! # What a call does to its log

A call leaves its log alone, takes over a request, or appends entries of its own: a batch of
proposals or a configuration. A log in order then stays in order, when the entries that requests
add unchecked are. -/
namespace RaftLogSteps

open RaftTypes RaftLog RaftCoreState RaftCoreEmit RaftCore RaftCluster RaftLogLemmas RaftRefinement
open RaftCoreRuns RaftLogContracts RaftCoreHistories RaftLogReconcile RaftOperationEffects
open RaftOperations RaftReplicationEffects RaftOrder

variable {core : Core} {call call' : Call} {input : Input}

section Calls

variable {proposals : List Proposal} {capacity : ℕ}

theorem proposeBody_log (h : Begun call)
    (hok : proposeBody proposals call = (.ok, call')) :
    call'.core.term = call.core.term ∧ ∃ entries,
      logAppendLocalBatch call.core.log call.core.term proposals = .ok (call'.core.log, entries) := by
  unfold proposeBody at hok
  split_ifs at hok
  · cases hok
  · cases hok
  · cases hok
  cases hbatch : logAppendLocalBatch call.core.log call.core.term proposals with
  | error status =>
    rw [hbatch] at hok
    have hfailed : status ≠ .ok := by
      unfold logAppendLocalBatch at hbatch
      split_ifs at hbatch <;> cases hbatch <;> decide
    exact absurd (congrArg Prod.fst hok) hfailed
  | ok result =>
    obtain ⟨log, entries⟩ := result
    have hgrown := (grown_commands h.inv hbatch).matchSelf
      (voterIndex { call.core with log } call.core.selfId) (logLastIndex log)
    obtain ⟨next, happend, _, hlog, hterm⟩ :=
      begun_afterAppend h (F := ⟨True, True, True, fun _ _ => True⟩) (L := fun _ => True) hgrown trivial
    rw [hbatch] at hok
    obtain rfl : next = call' := congrArg Prod.snd (happend.symm.trans hok)
    have hmade : next.core.log = log :=
      hlog.trans (hgrown.log.trans (logAppendLocalBatch_ok hbatch).1.symm)
    exact ⟨hterm.trans hgrown.term, entries, by rw [hmade]⟩

theorem runCall_view {body : Call → Status × Call}
    (h : runCall core capacity body = (.ok, call)) :
    ∃ next, body (beginCall core capacity) = (.ok, next) ∧ coreView call.core = coreView next.core := by
  obtain ⟨next, hbody, rfl⟩ := runCall_ok h
  exact ⟨next, hbody, (admitCommitted_view next).1⟩

/-- A core that has taken a batch into its log. -/
structure Appended (proposals : List Proposal) (log : Log) (term : ℕ) (core : Core) : Prop where
  resting : Resting core
  term_eq : core.term = term
  nonzero : term ≠ 0
  log_eq : core.log = { log with
    entries := log.entries ++ proposalEntries (logLastIndex log + 1) term proposals }

theorem Appended.last {log : Log} {term : ℕ} (h : Appended proposals log term core) :
    logLastIndex core.log = logLastIndex log + proposals.length := by
  rw [h.log_eq, logLastIndex_append, proposalEntries, List.length_map, List.length_zipIdx]

theorem coreProposeBatch_appended (hresting : Resting core)
    (h : performOperation core (.propose proposals) capacity = (.ok, call)) :
    Appended proposals core.log core.term call.core := by
  obtain ⟨next, hbody, hview⟩ := runCall_view (performOperation_ran h)
  obtain ⟨hterm, entries, happended⟩ := proposeBody_log (beginCall_begun hresting.toCoreInv) hbody
  have hresting' := perform_resting hresting (.call (.propose proposals) capacity)
  rw [perform, h] at hresting'
  have hnonzero := (logAppendLocalBatch_ok happended).2.1
  unfold logAppendLocalBatch at happended
  split_ifs at happended
  refine ⟨hresting', (congrArg CoreView.term hview).trans hterm, hnonzero, ?_⟩
  exact (congrArg CoreView.log hview).trans (congrArg Prod.fst (Except.ok.inj happended)).symm

theorem perform_log (h : Resting core) (hcall : isCall input = true) :
    LogStep core input (perform core input).2.core.log := by
  obtain ⟨hfinished, hlog⟩ := perform_completed h hcall
  rcases hfinished.called_or_inert with ⟨hok, _⟩ | ⟨_, hinert⟩
  · rcases hlog hok with hkept | hstep
    · exact hkept ▸ .kept
    · exact hstep
  · rw [show (perform core input).2.core.log = core.log from congrArg CoreView.log hinert.view]
    exact .kept

end Calls

/-- The entries that a request adds to the log unchecked are in order. -/
def inputVetted (core : Core) : Input → Bool
  | .step m _ => !isRequest m ||
      vetted core.log (.reconcile m.previousLogIndex m.previousLogTerm m.entries core.commitIndex)
  | _ => true

theorem inputVetted_numbered (h : inputVetted core input = true) :
    inputNumbered core input = true := by
  cases input with
  | step m capacity =>
    simp only [inputVetted, vetted, Bool.or_eq_true, List.all_eq_true] at h
    simp only [inputNumbered, requestNumbered, uncheckedNumbered, Bool.or_eq_true, List.all_eq_true]
    exact Or.imp Or.inr (fun hvetted => Or.inr fun p hp =>
      beq_iff_eq.mpr (entryOk_of_checked (hvetted p hp)).1) h
  | _ => rfl

theorem logStep_ok {log : Log} (h : LogStep core input log) (hlog : LogOk core.log)
    (hinput : inputVetted core input = true) : LogOk log := by
  cases h with
  | kept => exact hlog
  | taken hrequest hreconciled =>
    simp only [inputVetted, hrequest, Bool.not_true, Bool.false_or] at hinput
    simpa only [logAfter, hreconciled] using logAfter_ok hlog hinput
  | @proposed proposals _ _ _ happended =>
    simpa only [logAfter, happended] using
      @logAfter_ok _ hlog (.appendLocalBatch core.term proposals) rfl
  | @configured _ _ configuration _ _ happended =>
    simpa only [logAfter, happended] using
      @logAfter_ok _ hlog (.appendConfiguration core.term configuration) rfl

end RaftLogSteps
