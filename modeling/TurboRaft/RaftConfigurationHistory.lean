import TurboRaft.RaftCoreHistories

/-! # Configurations along a run

The committed configuration of a core is the last one of everything it has ever committed, and
its pending configurations are those of the rest of its log. Compaction forgets entries, so
the statement is about the history of commits and not about the retained log alone. -/
namespace RaftConfigurationHistory

open RaftTypes RaftConfiguration RaftMembershipTransition RaftLog RaftCoreState RaftCoreEmit
open RaftCore RaftTransitionLemmas RaftRefinement RaftCoreRuns RaftCoreHistories RaftCoreProgress
open RaftLogReconcile RaftOperationEffects RaftRecovery RaftReplicationEffects

variable {core core' : Core} {config : CoreConfig} {initial : MembershipTransition}

/-- Recovery fails on a slot nobody wrote: it looks like a configuration and does not decode. -/
theorem stageEntries_written {entries : List Entry} {transition staged : MembershipTransition}
    (h : stageEntries transition entries = .ok staged) : zeroEntry ∉ entries := by
  induction entries generalizing transition with
  | nil => exact List.not_mem_nil
  | cons entry rest ih =>
    rw [List.mem_cons, not_or]
    rcases stageEntries_cons h with ⟨hkind, h⟩ | ⟨configuration, next, hdecode, _, h⟩
    · refine ⟨?_, ih h⟩
      rintro rfl
      exact absurd hkind (by decide)
    · refine ⟨?_, ih h⟩
      rintro rfl
      exact confEntryDecode_zero configuration hdecode

theorem coreCreate_tracked (h : coreCreate config = .ok core)
    (hinitial : createTransition config = .ok initial) : Tracked initial.committed core := by
  have hresting := coreCreate_resting h
  obtain ⟨r⟩ := coreCreate_recovery h
  have htransition : r.transition = initial := Except.ok.inj (r.initial.symm.trans hinitial)
  have hview := coreRefreshPeers_view
    (replayedCore config r.transition r.staged r.peers r.log) r.synced
  have hlog : core.log = r.log :=
    (congrArg Core.log r.result).trans (congrArg CoreView.log hview)
  have hcommit := (congrArg Core.commitIndex r.result).trans (congrArg CoreView.commitIndex hview)
  have happlied : core.membershipTransition =
      membershipTransitionApply r.staged core.commitIndex := by
    rw [hcommit]
    exact (congrArg Core.membershipTransition r.result).trans (congrArg CoreView.transition hview)
  have hnumbered : Numbered core.log.baseIndex core.log.entries := by
    rw [hlog]
    exact SlotsOk.numbered (createLog_slots r.filled).1 (stageEntries_written r.replayed)
  have hreplayed := r.replayed
  rw [htransition, ← hlog] at hreplayed
  obtain ⟨hcommitted, hpending, _⟩ := stageEntries_ok hnumbered.ascending
    (by
      rw [(createTransition_cases hinitial).1]
      exact fun p hp => absurd hp List.not_mem_nil) hreplayed
  rw [(createTransition_cases hinitial).1, List.nil_append] at hpending
  -- before the commit index is applied, every configuration of the log is pending
  have hstaged : Tracked initial.committed { core with
      commitIndex := core.log.baseIndex
      membershipTransition := r.staged } := by
    refine ⟨hnumbered, ?_, ?_⟩
    · rw [committedEntries]
      rw [Nat.sub_self, hcommitted]
      rfl
    · rw [pendingEntries]
      rw [Nat.sub_self]
      exact hpending
  have hadvanced : Advanced { core with
      commitIndex := core.log.baseIndex
      membershipTransition := r.staged } core.commitIndex core :=
    ⟨hresting.toCoreInv, rfl, rfl, rfl, happlied, rfl, rfl⟩
  exact (tracked_advance hstaged le_rfl hresting.base_le_commit hadvanced).1

/-- Everything a core has committed up to a moment of a run, compacted or not. -/
def historyAt (run : CoreRun) : ℕ → List Entry
  | 0 => committedEntries run.start
  | k + 1 => historyAt run k ++ crossed (run.run.state k) (run.run.state (k + 1))

/-- The history reaches from `base` to the commit index, the retained committed entries are its
end, and the core follows all of it. -/
structure Recorded (base : ℕ) (start : Conf) (history : List Entry) (core : Core) : Prop where
  resting : Resting core
  numbered : Numbered base history
  length : base + history.length = core.commitIndex
  split : ∃ earlier, history = earlier ++ committedEntries core ∧
    Tracked (confAfter start earlier) core

theorem committedEntries_grown (hinitial : committedEntries core <+: core'.log.entries)
    (hinv : CoreInv core) (hbase : core'.log.baseIndex = core.log.baseIndex)
    (hle : core.commitIndex ≤ core'.commitIndex) :
    committedEntries core' = committedEntries core ++ crossed core core' := by
  have hlast := logLastIndex_eq core.log
  have hcommit := hinv.commit_le
  have hlow := hinv.base_le_commit
  have hlength : (committedEntries core).length = core.commitIndex - core.log.baseIndex := by
    rw [committedEntries, List.length_take, min_eq_left (by omega)]
  have htake := List.prefix_iff_eq_take.mp hinitial
  rw [hlength] at htake
  rw [htake, committedEntries, crossed, ← List.take_add]
  congr 1
  omega

variable {base : ℕ} {start : Conf} {history : List Entry}

section

variable (h : Recorded base start history core)

include h

theorem Recorded.same (hresting : Resting core')
    (hlog : core'.log = core.log) (hcommit : core'.commitIndex = core.commitIndex)
    (htransition : core'.membershipTransition = core.membershipTransition) :
    Recorded base start (history ++ crossed core core') core' := by
  obtain ⟨earlier, hsplit, htracked⟩ := h.split
  rw [crossed_nothing hcommit, List.append_nil]
  refine ⟨hresting, h.numbered, h.length.trans hcommit.symm, earlier, ?_,
    htracked.of_same hlog hcommit htransition⟩
  rw [hsplit, committedEntries, committedEntries, hlog, hcommit]

theorem Recorded.call {F : Faith} {call : Call}
    (hcalled : Called F core call) (hnumbered : F.numbered) (hreaching : F.reaching) :
    Recorded base start (history ++ crossed core call.core) call.core ∧
      (confPairs (crossed core call.core)).length ≤ 1 := by
  obtain ⟨earlier, hsplit, htracked⟩ := h.split
  obtain ⟨hnext, hone⟩ := hcalled.tracked hnumbered hreaching _ htracked
  have hlow := h.resting.base_le_commit
  have hle := hcalled.commit_le
  have hlast := hcalled.resting.commit_le
  have hbase := hcalled.base
  have hcrossed : Numbered core.commitIndex (crossed core call.core) := by
    have hnamed := hnext.named.drop (core.commitIndex - core.log.baseIndex)
    rw [hbase, Nat.add_sub_cancel' hlow] at hnamed
    exact hnamed.take _
  have hcount : (crossed core call.core).length = call.core.commitIndex - core.commitIndex := by
    have hsize := logLastIndex_eq call.core.log
    rw [crossed, List.length_take, List.length_drop, min_eq_left (by omega)]
  have hlength := h.length
  refine ⟨⟨hcalled.resting, h.numbered.append ?_, ?_, earlier, ?_, hnext⟩, hone⟩
  · rw [hlength]
    exact hcrossed
  · rw [List.length_append]
    omega
  rw [hsplit, committedEntries_grown (hcalled.kept hnumbered) h.resting.toCoreInv hcalled.base
    hcalled.commit_le, List.append_assoc]

/-- Compaction moves all committed entries to the part of the history that is not retained. -/
theorem Recorded.tended (htended : Tended core core') :
    Recorded base start (history ++ crossed core core') core' := by
  rcases htended.compacted with hlog | hbase
  · exact h.same htended.resting hlog htended.commit htended.transition
  · obtain ⟨earlier, hsplit, htracked⟩ := h.split
    have hentries := htended.entries
    have hle := htended.base_le
    rw [hbase] at hentries hle
    have hnone : committedEntries core' = [] := by
      rw [committedEntries, hbase, htended.commit, Nat.sub_self, List.take_zero]
    rw [crossed_nothing htended.commit, List.append_nil]
    refine ⟨htended.resting, h.numbered, h.length.trans htended.commit.symm, history, ?_, ?_, ?_, ?_⟩
    · rw [hnone, List.append_nil]
    · have hnamed := htracked.named.drop (core.commitIndex - core.log.baseIndex)
      rw [Nat.add_sub_cancel' hle] at hnamed
      rw [hentries, hbase]
      exact hnamed
    · rw [htended.transition, htracked.committed, hnone, hsplit, confAfter_append]
      rfl
    · rw [htended.transition, htracked.pending, pendingEntries, pendingEntries, hentries, hbase,
        htended.commit, Nat.sub_self]
      rfl

theorem Recorded.step {input : Input}
    (hnumbered : inputNumbered core input = true) (hreaches : inputReaches core input = true) :
    Recorded base start (history ++ crossed core (perform core input).2.core)
        (perform core input).2.core ∧
      (confPairs (crossed core (perform core input).2.core)).length ≤ 1 := by
  have hresting := h.resting
  cases hcall : isCall input with
  | true =>
    rcases (perform_finished hresting hcall).called_or_inert with ⟨_, hcalled⟩ | ⟨_, hinert⟩
    · exact h.call hcalled hnumbered hreaches
    · have hcommit := congrArg CoreView.commitIndex hinert.view
      refine ⟨h.same (perform_resting hresting input) (congrArg CoreView.log hinert.view) hcommit
        (congrArg CoreView.transition hinert.view), ?_⟩
      rw [crossed_nothing hcommit]
      exact Nat.zero_le _
  | false =>
    have htended := perform_tended hresting hcall
    refine ⟨h.tended htended, ?_⟩
    rw [crossed_nothing htended.commit]
    exact Nat.zero_le _

end

theorem historyAt_recorded (run : CoreRun)
    (hfaithful : run.run.Meets fun core input =>
      inputNumbered core input = true ∧ inputReaches core input = true)
    (hinitial : createTransition run.config = .ok initial) {k : ℕ} (hk : k ≤ run.run.length) :
    Recorded run.start.log.baseIndex initial.committed (historyAt run k) (run.run.state k) := by
  induction k with
  | zero =>
    have hstart : run.run.state 0 = run.start := run.run.initial
    rw [hstart]
    have hresting := coreCreate_resting run.created
    have htracked := coreCreate_tracked run.created hinitial
    have hlow := hresting.base_le_commit
    have hhigh := hresting.commit_le
    have hlast := logLastIndex_eq run.start.log
    refine ⟨hresting, htracked.named.take _, ?_, [], rfl, htracked⟩
    rw [historyAt, committedEntries, List.length_take]
    omega
  | succ k ih =>
    obtain ⟨hnumbered, hreaches⟩ := hfaithful k (by omega)
    rw [historyAt, run.step (by omega)]
    exact ((ih (by omega)).step hnumbered hreaches).1

/-- In every run whose requests are numbered and reach the uncommitted configurations they leave
in the log, the transition of the core says what its history and its log say. -/
theorem configurations_follow_log (run : CoreRun)
    (hfaithful : run.run.Meets fun core input =>
      inputNumbered core input = true ∧ inputReaches core input = true)
    (hinitial : createTransition run.config = .ok initial) {k : ℕ} (hk : k ≤ run.run.length) :
    (run.run.state k).membershipTransition.committed =
        confAfter initial.committed (historyAt run k) ∧
      (run.run.state k).membershipTransition.pending =
        confPairs (pendingEntries (run.run.state k)) ∧
      (∀ j, j < k →
        (confPairs (crossed (run.run.state j) (run.run.state (j + 1)))).length ≤ 1) ∧
      committedEntries (run.run.state k) <:+ historyAt run k ∧
      Numbered run.start.log.baseIndex (historyAt run k) ∧
      Numbered (run.run.state k).commitIndex (pendingEntries (run.run.state k)) ∧
      run.start.log.baseIndex + (historyAt run k).length = (run.run.state k).commitIndex := by
  have hrecorded := historyAt_recorded run hfaithful hinitial hk
  obtain ⟨earlier, hsplit, htracked⟩ := hrecorded.split
  refine ⟨?_, htracked.pending, ?_, ⟨earlier, hsplit.symm⟩, hrecorded.numbered, ?_,
    hrecorded.length⟩
  · rw [htracked.committed, hsplit, confAfter_append]
  · intro j hj
    obtain ⟨hnumbered, hreaches⟩ := hfaithful j (by omega)
    rw [run.step (by omega)]
    exact ((historyAt_recorded run hfaithful hinitial (by omega)).step hnumbered hreaches).2
  · have hnamed := htracked.named.drop
      ((run.run.state k).commitIndex - (run.run.state k).log.baseIndex)
    rwa [Nat.add_sub_cancel' (run.resting hk).base_le_commit] at hnamed

def leavingConf : Conf :=
  { phase := .joint
    transitionId := 7
    members := [⟨1, confVoterRoles⟩, ⟨2, confVoterRoles⟩, ⟨3, confOldVoter⟩] }

def leavingBatch : Input :=
  .step { plainMessage .appendRequest 2 1 1 with entries := [confEntry leavingConf 1 1] } 5

def committingHeartbeat (previous previousTerm : ℕ) : Input :=
  .step { plainMessage .heartbeatRequest 2 1 1 with
    previousLogIndex := previous
    previousLogTerm := previousTerm
    leaderCommit := 1 } 5

def reachingRun : CoreRun :=
  .ofInputs sampleConfig
    [leavingBatch, .advance, committingHeartbeat 1 1, .advance, .compact] (by decide +kernel)

def forgettingRun : CoreRun :=
  .ofInputs sampleConfig [leavingBatch, .advance, committingHeartbeat 0 0] (by decide +kernel)

def sampleTransition : MembershipTransition :=
  { committed :=
      { phase := .final
        transitionId := 0
        members := [⟨1, confVoterRoles⟩, ⟨2, confVoterRoles⟩, ⟨3, confVoterRoles⟩] }
    pending := [] }

/-- The configuration is in force after its entry has been committed and compacted away. -/
theorem reaching_configurations :
    (reachingRun.run.Meets fun core input =>
        inputNumbered core input = true ∧ inputReaches core input = true) ∧
      createTransition reachingRun.config = .ok sampleTransition ∧
      (reachingRun.run.state 5).log.baseIndex = 1 ∧
      confAfter sampleTransition.committed (historyAt reachingRun 5) = leavingConf ∧
      (reachingRun.run.state 5).membershipTransition.committed = leavingConf := by
  have hfaithful : reachingRun.run.Meets fun core input =>
      inputNumbered core input = true ∧ inputReaches core input = true :=
    (CoreRun.ofInputs_meets _ (by decide +kernel)).and
      (CoreRun.ofInputs_meets _ (by decide +kernel))
  have hinitial : createTransition reachingRun.config = .ok sampleTransition := by
    decide +kernel
  have hhistory : confAfter sampleTransition.committed (historyAt reachingRun 5) = leavingConf := by
    decide +kernel
  have hfollows := configurations_follow_log reachingRun hfaithful hinitial (k := 5)
    (by decide +kernel)
  exact ⟨hfaithful, hinitial, by decide +kernel, hhistory, hfollows.1.trans hhistory⟩

/-- A heartbeat from below the joint entry drops it from the pending configurations and then
commits it: the core stays in the old configuration. -/
theorem forgotten_configuration_committed :
    createTransition forgettingRun.config = .ok sampleTransition ∧
      (forgettingRun.run.state 2).membershipTransition.pending = [(leavingConf, 1)] ∧
      (forgettingRun.run.state 3).commitIndex = 1 ∧
      confAfter sampleTransition.committed (historyAt forgettingRun 3) = leavingConf ∧
      (forgettingRun.run.state 3).membershipTransition.committed = sampleTransition.committed ∧
      sampleTransition.committed ≠ leavingConf := by
  decide +kernel

end RaftConfigurationHistory
