import TurboRaft.RaftCoreHistories
import TurboRaft.RaftLogContracts

/-! # Reloading a core from what it made durable

Recovery stages every configuration that the log retains before it applies any of them, so a core
is not always accepted back. It is when its log retains none. -/
namespace RaftReload

open RaftTypes RaftConfiguration RaftMembershipTransition RaftLog RaftCore RaftCluster
open RaftRefinement RaftCoreRuns RaftLogContracts RaftCoreHistories RaftCoreProgress
open RaftLogReconcile RaftRecovery RaftReplicationEffects

variable {core : Core} {config : CoreConfig}

def recoveredDisk (config : CoreConfig) : Disk :=
  { term := config.initialTerm
    votedFor := config.initialVote
    snapshotIndex := config.initialLastLogIndex
    snapshotTerm := config.initialLastLogTerm
    configuration := config.initialConfiguration
    entries := config.initialLogEntries
    commitIndex := config.initialCommitIndex }

/-- A configuration that recovers the durable state of a core under valid settings, when the log
retains no configurations and has room up to the end of its indices. -/
structure OwnState (core : Core) (config : CoreConfig) : Prop where
  durable : recoveredDisk config =
    { mirrorOf core with configuration := some core.membershipTransition.committed }
  applied : core.log.baseIndex ≤ config.initialAppliedIndex ∧
    config.initialAppliedIndex ≤ core.commitIndex
  settings : (settingsInvalid config || identityInvalid config) = false
  limit : (if config.maxLogEntries == 0 then defaultMaxLogEntries else config.maxLogEntries) =
    core.log.maxEntries
  room : core.log.baseIndex + core.log.maxEntries ≤ uint64Max
  plain : ∀ e ∈ core.log.entries, confEntryIsConfiguration e = false

theorem OwnState.createLog (hown : OwnState core config) (h : LogOk core.log) :
    createLog config = .ok core.log := by
  have hindex : config.initialLastLogIndex = core.log.baseIndex :=
    congrArg Disk.snapshotIndex hown.durable
  have hterm : config.initialLastLogTerm = core.log.baseTerm :=
    congrArg Disk.snapshotTerm hown.durable
  have hentries : config.initialLogEntries = core.log.entries := congrArg Disk.entries hown.durable
  have hpositive : core.log.maxEntries ≠ 0 := by
    rw [← hown.limit]
    split_ifs with hzero
    · decide
    · simpa using hzero
  have hroom := hown.room
  have hempty : logInit core.log.maxEntries core.log.baseIndex core.log.baseTerm =
      .ok { core.log with entries := [] } := by
    unfold logInit
    rw [h.base, if_neg (by simp [hpositive]; omega)]
  unfold RaftCore.createLog
  rw [hown.limit, hindex, hterm, hentries, hempty]
  dsimp only
  generalize core.log = log at h hroom
  obtain ⟨entries, maxEntries, baseIndex, baseTerm⟩ := log
  cases entries with
  | nil => rfl
  | cons e rest =>
    have hlength : (e :: rest).length ≤ maxEntries := h.room
    dsimp only at hroom ⊢
    have hbeyond : logGet { entries := [], maxEntries, baseIndex, baseTerm } (baseIndex + 0 + 1) =
        none := if_pos (by simp [logLastIndex, logCount])
    obtain ⟨hfilled, _⟩ := @reconcile_departs ⟨[], maxEntries, baseIndex, baseTerm⟩ baseIndex
      baseTerm 0 (e :: rest) h.slots (by simp [logMatches]) (by omega) 0 e rfl
      (fun j hj => absurd hj (Nat.not_lt_zero j))
      (fun current hcurrent => by rw [hbeyond] at hcurrent; cases hcurrent) (Nat.succ_pos _)
      (by dsimp only; omega)
    rw [if_neg (by simp), hfilled]
    simp [spliced, replacement]

/-- The core comes back with its log, its commit index and its configuration. -/
theorem OwnState.created (hown : OwnState core config) (hinv : CoreInv core)
    (h : LogOk core.log) : ∃ reloaded, coreCreate config = .ok reloaded ∧
      reloaded.log = core.log ∧ reloaded.commitIndex = core.commitIndex ∧
      reloaded.appliedIndex = config.initialAppliedIndex ∧
      reloaded.membershipTransition.committed = core.membershipTransition.committed := by
  have hlog := hown.createLog h
  have hindex : config.initialLastLogIndex = core.log.baseIndex :=
    congrArg Disk.snapshotIndex hown.durable
  have hcommit : config.initialCommitIndex = core.commitIndex :=
    congrArg Disk.commitIndex hown.durable
  have hinitial : config.initialConfiguration = some core.membershipTransition.committed :=
    congrArg Disk.configuration hown.durable
  obtain ⟨hlow, hhigh⟩ := hown.applied
  have hlast := hinv.commit_le
  have horBase : ∀ i, core.log.baseIndex ≤ i → orBase config i = i := by
    intro i hi
    unfold orBase
    split_ifs with hzero
    · simp only [Bool.and_eq_true, bne_iff_ne, beq_iff_eq] at hzero
      omega
    · rfl
  have hvalid : confValidate core.membershipTransition.committed = .ok := by
    have hsettings := hown.settings
    simp only [identityInvalid, hinitial, Option.any_some, Bool.or_eq_false_iff] at hsettings
    simpa using hsettings.2.1.1.1
  have htransition : createTransition config =
      .ok { committed := core.membershipTransition.committed, pending := [] } := by
    simp [createTransition, hinitial, membershipTransitionInitConfiguration, hvalid]
  obtain ⟨reloaded, hcreate⟩ := coreCreate_plain hown.settings htransition hvalid hlog hown.plain
    fun peers => by
      simp only [indicesInvalid, blankCore, horBase _ hlow, hcommit,
        horBase _ (hlow.trans hhigh), hindex, Bool.or_eq_false_iff, decide_eq_false_iff_not]
      omega
  obtain ⟨r⟩ := coreCreate_recovery hcreate
  have hview := coreRefreshPeers_view (replayedCore config r.transition r.staged r.peers r.log)
    r.synced
  have happly := coreRefreshPeers_apply (replayedCore config r.transition r.staged r.peers r.log)
    r.synced
  have hsame : r.log = core.log := Except.ok.inj (r.filled.symm.trans hlog)
  have hstaged : r.staged = { committed := core.membershipTransition.committed, pending := [] } := by
    have hreplayed := r.replayed
    rw [hsame, stageEntries_plain hown.plain] at hreplayed
    rw [← Except.ok.inj hreplayed]
    exact Except.ok.inj (r.initial.symm.trans htransition)
  refine ⟨reloaded, hcreate, ?_, ?_, ?_, ?_⟩ <;> rw [r.result]
  · exact (congrArg CoreView.log hview).trans hsame
  · exact (congrArg CoreView.commitIndex hview).trans
      ((horBase _ (by omega)).trans hcommit)
  · exact (congrArg ApplyView.appliedIndex happly).trans (horBase _ hlow)
  · refine (congrArg (·.transition.committed) hview).trans ?_
    change (membershipTransitionApply r.staged _).committed = _
    rw [hstaged]
    rfl

end RaftReload
