import TurboRaft.RaftLogSteps
import TurboRaft.RaftReceipts
import TurboRaft.RaftServiceRules

/-! # The result of a proposal

What the result of a proposal with receipts says about the log of its service. The core takes the
batch before the callbacks of the host are asked, so an answer of theirs can hide a batch that is
in the log, and a snapshot inside the call can leave nothing to give a receipt for. -/
namespace RaftProposalResults

open RaftTypes RaftLog RaftCoreState RaftCoreEmit RaftCore RaftCluster RaftSafety RaftOrder
open RaftRuntime RaftService RaftServiceRules RaftRuntimeRules RaftReceipts RaftCallConduct
open RaftRefinement RaftCoreRuns RaftLogSteps RaftLogReconcile RaftRecovery RaftCoreHistories

variable {σ : Type} {host : ServiceHost σ} {service : Service σ} {core : Core}

section Receipts

variable {term first count index : ℕ} {log log' : Log}

/-- A log as it was, or compacted no further than up to an entry. -/
def Retained (first : ℕ) (log log' : Log) : Prop :=
  log' = log ∨ ∃ index term, logCompact log index term = .ok log' ∧ index ≤ first

theorem logCompact_recorded (h : logCompact log index term = .ok log') :
    log'.baseIndex = index ∧ logLastIndex log' = logLastIndex log ∧
      ∀ i, index ≤ i → recordedTerm log' i = recordedTerm log i := by
  unfold logCompact at h
  split_ifs at h with hrange hmatches
  simp only [Bool.or_eq_true, decide_eq_true_eq, beq_iff_eq, not_or, not_le, not_lt] at hrange
  obtain ⟨⟨hlow, _⟩, hhigh⟩ := hrange
  cases h
  have hlast : logLastIndex (compactedLog log index term) = logLastIndex log := by
    have hhigh : index ≤ log.baseIndex + log.entries.length := hhigh
    change index + (log.entries.drop (index - log.baseIndex)).length = _ + log.entries.length
    rw [List.length_drop]
    omega
  refine ⟨rfl, hlast, fun i hi => ?_⟩
  change recordedTerm (compactedLog log index term) i = _
  unfold recordedTerm
  rcases hi.lt_or_eq with habove | rfl
  · rw [if_neg (by simp [compactedLog]; omega), if_neg (by simp; omega), logGet, logGet, hlast]
    simp only [compactedLog, List.getElem?_drop, not_le.mpr habove, not_le.mpr (hlow.trans habove),
      decide_false, Bool.false_or]
    rw [show index - log.baseIndex + (i - index - 1) = i - log.baseIndex - 1 by omega]
  · have hother : ¬(index == log.baseIndex) = true := by simpa using hlow.ne'
    rw [if_pos (by simp [compactedLog]), if_neg hother]
    simp only [Bool.not_eq_true', Bool.not_eq_false, logMatches, if_neg hother] at hmatches
    cases hentry : logGet log index with
    | none => simp [hentry] at hmatches
    | some entry =>
      simp only [hentry, beq_iff_eq] at hmatches
      rw [Option.map_some, hmatches]
      rfl

theorem Retained.recorded (h : Retained first log log') (hbase : log.baseIndex ≤ first) :
    log'.baseIndex ≤ first ∧ logLastIndex log' = logLastIndex log ∧
      ∀ i, first ≤ i → recordedTerm log' i = recordedTerm log i := by
  rcases h with rfl | ⟨index, term, hcompact, hindex⟩
  · exact ⟨hbase, rfl, fun _ _ => rfl⟩
  · obtain ⟨rfl, hlast, hrecorded⟩ := logCompact_recorded hcompact
    exact ⟨hindex, hlast, fun i hi => hrecorded i (hindex.trans hi)⟩

end Receipts

/-- An answer that puts off a batch whose first entry is `first`, or has entries of it dropped. -/
def spoils (first : ℕ) : HostAnswer → Bool
  | .applied status => status == .ebusy
  | .snapshot index status => status == .ok && decide (first < index)
  | .journal index _ status => status == .eio || status == .ok && decide (first < index)

section Answers

variable {first : ℕ} {answers heard : List HostAnswer} {result : Outcome σ}

/-- How the callbacks end a call, unless one of their answers spoils the batch: with success and
the log retained, or with a fault. -/
def Ended (first : ℕ) (core : Core) (answers : List HostAnswer) (result : Outcome σ) : Prop :=
  ∃ heard, result.2.staging.answers = answers ++ heard ∧
    ((∀ answer ∈ heard, spoils first answer = false) →
      if result.1 = .ok then result.2.core.term = core.term ∧
        Retained first core.log result.2.core.log
      else result.2.fault ≠ none)

theorem Ended.untouched : Ended first service.core service.staging.answers (.ok, service) :=
  ⟨[], (List.append_nil _).symm, fun _ => ⟨rfl, Or.inl rfl⟩⟩

theorem Ended.faulted {cause : Status} (hcause : cause ≠ .ok)
    (hheard : service.staging.answers = answers ++ heard) :
    Ended first core answers (serviceFault service cause) :=
  ⟨heard, hheard, fun _ => by simp [serviceFault, hcause]⟩

theorem Ended.after {core' : Core} (h : Ended first core' (answers ++ heard) result)
    (hlog : core'.log = core.log) (hterm : core'.term = core.term) :
    Ended first core answers result := by
  obtain ⟨more, hheard, hended⟩ := h
  refine ⟨heard ++ more, hheard.trans (List.append_assoc _ _ _), fun hspared => ?_⟩
  rw [← hlog, ← hterm]
  exact hended fun answer hanswer => hspared answer (List.mem_append_right _ hanswer)

end Answers

section Taking

variable {log : Log} {term : ℕ} {A : List HostAnswer → Prop} {proposals : List Proposal}

variable {after : Core} (h : Appended proposals log term core)

include h

end Taking

variable {proposals : List Proposal} {receiptCapacity : ℕ}

end RaftProposalResults
