import TurboRaft.RaftOperations

/-! # Recovery, compaction and snapshot installation

A core that is created from a disk stands in the same relation to the chronicle as the
disk, a compacted core keeps it, and an installed snapshot is an action of its own. -/
namespace RaftRecovery

open RaftTypes RaftConfiguration RaftMembership RaftMembershipTransition RaftLog RaftCoreState
open RaftCore RaftCluster RaftLogLemmas RaftQuorum RaftTransitionLemmas RaftCoreProgress
open RaftRefinement RaftLogReconcile ConfiguredLog Replication

variable {M : Mode} {n : NodeId} {g g' : Ghost} {disk : Disk} {core : Core}

section Creation

variable {config : CoreConfig} {transition : MembershipTransition}

theorem createTransition_cases
    (hok : createTransition config = .ok transition) : transition.pending = [] ∧
      (config.initialConfiguration = some transition.committed ∨
        config.initialConfiguration = none ∧
          membershipStable config.voters config.learners = .ok transition.committed) := by
  unfold createTransition at hok
  cases hconf : config.initialConfiguration with
  | none =>
    simp only [hconf, membershipTransitionInit] at hok
    cases hmembers : membershipStable config.voters config.learners with
    | error status => simp [hmembers] at hok
    | ok c =>
      simp only [hmembers] at hok
      cases hok
      exact ⟨rfl, Or.inr ⟨rfl, rfl⟩⟩
  | some c =>
    simp only [hconf, membershipTransitionInitConfiguration] at hok
    split_ifs at hok
    cases hok
    exact ⟨rfl, Or.inl rfl⟩

theorem createLog_cases {log : Log} (hok : createLog config = .ok log) :
    ∃ empty : Log, empty.entries = [] ∧ empty.baseIndex = config.initialLastLogIndex ∧
      empty.baseTerm = config.initialLastLogTerm ∧
      (config.initialLogEntries.length = 0 ∧ log = empty ∨
        config.initialLogEntries.length ≠ 0 ∧ ∃ r : ReconcileResult, r.matched = true ∧
          logReconcile empty config.initialLastLogIndex config.initialLastLogTerm
            config.initialLogEntries 0 = .ok (log, r)) := by
  unfold createLog at hok
  generalize (if config.maxLogEntries == 0 then defaultMaxLogEntries else config.maxLogEntries) =
    limit at hok
  cases hinit : logInit limit config.initialLastLogIndex config.initialLastLogTerm with
  | error status => simp [hinit] at hok
  | ok empty =>
    simp only [hinit] at hok
    unfold logInit at hinit
    split_ifs at hinit
    cases hinit
    refine ⟨⟨[], limit, config.initialLastLogIndex, config.initialLastLogTerm⟩, rfl, rfl, rfl, ?_⟩
    by_cases hnone : (config.initialLogEntries.length == 0) = true
    · rw [if_pos hnone] at hok
      cases hok
      exact Or.inl ⟨by simpa using hnone, rfl⟩
    rw [if_neg hnone] at hok
    split at hok
    · cases hok
    · next log r hreconcile =>
      split_ifs at hok with hmatched
      cases hok
      exact Or.inr ⟨by simpa using hnone, r, hmatched, hreconcile⟩

theorem coreCreate_cases (hok : coreCreate config = .ok core) :
    ∃ transition peers log replayed,
      (settingsInvalid config || identityInvalid config) = false ∧
      createTransition config = .ok transition ∧
      peerSetBuild [transition.committed] = .ok peers ∧ createLog config = .ok log ∧
      indicesInvalid config (blankCore config transition peers log) = false ∧
      coreReplayMembershipLog (blankCore config transition peers log) = .ok replayed ∧
      core = { replayed with appendWindows := fun peer =>
        { replayed.appendWindows peer with probe := true } } := by
  unfold coreCreate at hok
  split_ifs at hok with hinvalid
  cases htransition : createTransition config with
  | error status => simp [htransition] at hok
  | ok transition =>
    simp only [htransition] at hok
    cases hpeers : peerSetBuild [transition.committed] with
    | error status => simp [hpeers] at hok
    | ok peers =>
      simp only [hpeers] at hok
      cases hlog : createLog config with
      | error status => simp [hlog] at hok
      | ok log =>
        simp only [hlog] at hok
        split_ifs at hok with hindices
        cases hreplay : coreReplayMembershipLog (blankCore config transition peers log) with
        | error status => simp [hreplay] at hok
        | ok replayed =>
          simp only [hreplay] at hok
          exact ⟨transition, peers, log, replayed, by simpa using hinvalid, rfl, hpeers, rfl,
            by simpa using hindices, hreplay, (Except.ok.inj hok).symm⟩

theorem stageEntries_plain {entries : List Entry}
    (h : ∀ e ∈ entries, confEntryIsConfiguration e = false) :
    stageEntries transition entries = .ok transition := by
  induction entries with
  | nil => rfl
  | cons entry rest ih =>
    rw [stageEntries, h entry List.mem_cons_self]
    exact ih fun e he => h e (List.mem_cons_of_mem _ he)

/-- A core whose retained log holds no configurations is created from valid settings. -/
theorem coreCreate_plain {membership : Conf} {log : Log}
    (hsettings : (settingsInvalid config || identityInvalid config) = false)
    (htransition : createTransition config = .ok { committed := membership, pending := [] })
    (hvalid : confValidate membership = .ok) (hlog : createLog config = .ok log)
    (hplain : ∀ e ∈ log.entries, confEntryIsConfiguration e = false)
    (hindices : ∀ peers, indicesInvalid config
      (blankCore config { committed := membership, pending := [] } peers log) = false) :
    ∃ core, coreCreate config = .ok core := by
  obtain ⟨peers, hpeers⟩ := peerSetBuild_single hvalid
  unfold coreCreate
  simp only [hsettings, Bool.false_eq_true, if_false, htransition, hpeers, hlog, hindices]
  simp only [coreReplayMembershipLog, blankCore, stageEntries_plain hplain,
    membershipTransitionApply, applyPending, coreSyncMembership, coreBuildPeerSet, pendingConfs,
    List.map_nil, hpeers]
  split_ifs <;> exact ⟨_, rfl⟩

theorem createLog_ok {full : List Entry} (hformed : WellFormed full) {log : Log}
    (hbase : config.initialLastLogIndex ≤ full.length)
    (hterm : config.initialLastLogTerm = endTerm (full.take config.initialLastLogIndex))
    (hentries : config.initialLogEntries = full.drop config.initialLastLogIndex)
    (hok : createLog config = .ok log) :
    Represents log full ∧ log.baseIndex = config.initialLastLogIndex ∧
      log.baseTerm = config.initialLastLogTerm := by
  obtain ⟨empty, hnil, hindex, hindexTerm, ⟨hnone, rfl⟩ | ⟨hsome, r, hmatched, hreconcile⟩⟩ :=
    createLog_cases hok
  · refine ⟨⟨hindex ▸ hbase, ?_, by rw [hindexTerm, hindex]; exact hterm⟩, hindex, hindexTerm⟩
    rw [hnil, hindex, ← hentries]
    exact (List.length_eq_zero_iff.mp hnone).symm
  have hrep : Represents empty (full.take config.initialLastLogIndex) := by
    refine ⟨?_, ?_, ?_⟩
    · rw [List.length_take]
      omega
    · rw [hnil, hindex, List.drop_take, Nat.sub_self, List.take_zero]
    · rw [hindexTerm, hindex, List.take_take, Nat.min_self]
      exact hterm
  have hlength : config.initialLastLogIndex + config.initialLogEntries.length = full.length := by
    rw [hentries, List.length_drop]
    omega
  have hcases := logReconcile_cases hrep hformed (by rw [← hentries, List.take_length])
    (fun _ _ => by rw [List.take_take, Nat.min_self]) (Nat.zero_le _) hreconcile
  rw [hlength] at hcases
  cases hcases with
  | mismatch _ hfalse =>
    rw [hmatched] at hfalse
    cases hfalse
  | kept _ _ _ hhas =>
    -- the recovered entries are not empty, so the base alone does not have them
    have hle := hhas.length_le
    rw [List.take_length, List.length_take] at hle
    omega
  | replaced _ _ _ _ _ hrepresents hbases _ _ =>
    rw [List.take_length] at hrepresents
    exact ⟨hrepresents, hbases.1.trans hindex, hbases.2.trans hindexTerm⟩

theorem replay_ok (h : GhostOk M g)
    (hdurable : DurableOk M g n core.term core.votedFor core.log core.commitIndex)
    (hself : core.selfId = n) (hnamed : n ≠ 0) (hrole : core.role = .follower)
    (htransition : core.membershipTransition = transition) (hpending : transition.pending = [])
    (hcommitted : transition.committed = M.scheme.conf ((g.log n).take core.log.baseIndex))
    {replayed : Core} (hok : coreReplayMembershipLog core = .ok replayed) :
    CoreOk M g n (coreView replayed) ∧ Kept core replayed := by
  unfold coreReplayMembershipLog at hok
  cases hstage : stageEntries core.membershipTransition core.log.entries with
  | error status => simp [hstage] at hok
  | ok staged =>
    simp only [hstage] at hok
    have hformed := h.log_formed n
    have hrep := hdurable.log_rep
    rw [htransition] at hstage
    have hbuilt : Built transition := by
      have hvalid : confValidate transition.committed = .ok := by
        rw [hcommitted]
        exact conf_valid M.valid _
      unfold Built coreBuildPeerSet pendingConfs
      rw [hpending]
      exact peerSetBuild_single hvalid
    obtain ⟨hsame, hlist, hbuild⟩ := stageEntries_ok
      (by rw [hrep.entries]; exact hformed.ascending.sublist (List.drop_sublist _ _))
      (by rw [hpending]; exact fun p hp => absurd hp List.not_mem_nil) hstage
    have happly := apply_conf M hformed hdurable.base_le (hsame.trans hcommitted)
      (by rw [hlist, hpending, hrep.entries]; rfl)
    have happlied := (hbuild hbuilt).apply core.commitIndex
    rw [happly] at happlied hok
    generalize hmid : ({ core with membershipTransition :=
      { committed := M.scheme.conf ((g.log n).take core.commitIndex)
        pending := confPairs ((g.log n).drop core.commitIndex) } } : Core) = mid at hok
    have hbase : CoreBase M g n (coreView mid) := by
      rw [← hmid]
      constructor
      case durable => exact hdurable
      case self => exact hself
      case named => exact hnamed
      case conf => rfl
      case built => exact happlied
      case plain =>
        intro hfixed
        have hplain := h.log_plain hfixed n
        rw [confPairs_split _ core.commitIndex] at hplain
        exact (List.append_eq_nil_iff.mp hplain).2
      case leader =>
        intro hlead
        exact Role.noConfusion (hrole.symm.trans hlead)
      case candidate =>
        intro hcand
        exact Role.noConfusion (hrole.symm.trans hcand)
      case preCandidate =>
        intro hcand
        exact Role.noConfusion (hrole.symm.trans hcand)
    obtain ⟨synced, hsync, hcore, hkept, _⟩ := coreBase_sync h hbase (by
      rw [← hmid]
      rw [hrole]
      exact Role.noConfusion)
    cases hsync.symm.trans hok
    refine ⟨hcore, ?_⟩
    rw [← hmid] at hkept
    exact ⟨hkept.selfId, hkept.term, hkept.votedFor, hkept.log, hkept.commitIndex⟩

end Creation

theorem diskOk_create (h : GhostOk M g) (hdisk : DiskOk M g n disk) {C : ClusterConfig}
    (hstable : ∀ c, membershipStable C.voters C.learners = .ok c → c = M.initial)
    {timeout applied : ℕ} (hok : coreCreate (createConfig C n disk timeout applied) = .ok core) :
    CoreOk M g n (coreView core) ∧ Durable disk core := by
  have hdurable := hdisk.durable
  have hrep := hdurable.log_rep
  generalize hconfig : createConfig C n disk timeout applied = config at hok
  have hfields : config.selfId = n ∧ config.voters = C.voters ∧ config.learners = C.learners ∧
      config.initialConfiguration = disk.configuration ∧ config.initialTerm = disk.term ∧
      config.initialVote = disk.votedFor ∧ config.initialLastLogIndex = disk.snapshotIndex ∧
      config.initialLastLogTerm = disk.snapshotTerm ∧ config.initialLogEntries = disk.entries ∧
      config.initialCommitIndex = disk.commitIndex := by
    rw [← hconfig]
    exact ⟨rfl, rfl, rfl, rfl, rfl, rfl, rfl, rfl, rfl, rfl⟩
  obtain ⟨hself, hvoters, hlearners, hconfiguration, hterm, hvote, hindex, hindexTerm, hentries,
    hcommit⟩ := hfields
  obtain ⟨transition, peers, log, replayed, hvalid, htransition, _, hlog, _, hreplay, rfl⟩ :=
    coreCreate_cases hok
  have hnamed : n ≠ 0 := by
    rw [← hself]
    intro hzero
    simp [settingsInvalid, hzero] at hvalid
  obtain ⟨hrepresents, hbase, hbaseTerm⟩ := createLog_ok (h.log_formed n)
    (by rw [hindex]; exact hrep.base_le)
    (by rw [hindexTerm, hindex]; exact hrep.baseTerm)
    (by rw [hentries, hindex]; exact hrep.entries) hlog
  obtain ⟨hpending, hinitial⟩ := createTransition_cases htransition
  have hstart : orBase config config.initialCommitIndex = disk.commitIndex := by
    have hle : disk.snapshotIndex ≤ disk.commitIndex := hdurable.base_le
    unfold orBase
    rw [hcommit, hindex]
    split_ifs with hzero
    · simp only [Bool.and_eq_true, bne_iff_ne, beq_iff_eq] at hzero
      omega
    · rfl
  have hcommitted : transition.committed =
      M.scheme.conf ((g.log n).take config.initialLastLogIndex) := by
    rw [hconfiguration] at hinitial
    rw [hindex]
    rcases hinitial with hsome | ⟨hnone, hmembers⟩
    · exact hdisk.configured _ hsome
    · rw [hvoters, hlearners] at hmembers
      rw [hstable _ hmembers, hdisk.fresh hnone, List.take_zero]
      rfl
  generalize hblank : blankCore config transition peers log = blank at hreplay
  have hblankFields : blank.selfId = n ∧ blank.term = disk.term ∧
      blank.votedFor = disk.votedFor ∧ blank.log = log ∧
      blank.commitIndex = disk.commitIndex ∧ blank.role = .follower ∧
      blank.membershipTransition = transition := by
    rw [← hblank]
    exact ⟨hself, hterm, hvote, rfl, hstart, rfl, rfl⟩
  obtain ⟨hbself, hbterm, hbvote, hblog, hbcommit, hbrole, hbtransition⟩ := hblankFields
  have hblankDurable : DurableOk M g n blank.term blank.votedFor blank.log blank.commitIndex := by
    rw [hbterm, hbvote, hblog, hbcommit]
    refine { hdurable with log_rep := hrepresents, base_le := ?_ }
    rw [hbase, hindex]
    exact hdurable.base_le
  obtain ⟨hcore, hkept⟩ := replay_ok h hblankDurable hbself hnamed hbrole hbtransition
    hpending (by rw [hblog, hbase]; exact hcommitted) hreplay
  refine ⟨hcore, ?_⟩
  have hkeptLog : replayed.log = log := hkept.log.trans hblog
  constructor
  case term => exact (hkept.term.trans hbterm).symm
  case votedFor => exact (hkept.votedFor.trans hbvote).symm
  case entries =>
    rw [hkeptLog, hrepresents.entries, hbase, hindex]
    exact hrep.entries
  case base =>
    rw [hkeptLog, hbase, hindex]
  case baseTerm =>
    rw [hkeptLog, hbaseTerm, hindexTerm]
  case commit => exact (hkept.commitIndex.trans hbcommit).symm

def compactedLog (log : Log) (index term : ℕ) : Log :=
  { log with
    entries := log.entries.drop (index - log.baseIndex)
    baseIndex := index
    baseTerm := term }

theorem coreSnapshotPoint_cases (core : Core) :
    (∃ status, coreSnapshotPoint core = .error status ∧ status ≠ .ok) ∨
      ∃ point, coreSnapshotPoint core = .ok point ∧ point.index = core.commitIndex ∧
        core.readyOutstanding = false ∧ core.appliedIndex = core.commitIndex ∧
        core.log.baseIndex < core.commitIndex ∧
        point.configuration = core.membershipTransition.committed := by
  unfold coreSnapshotPoint
  split_ifs with hbusy hbase
  · exact Or.inl ⟨_, rfl, Status.noConfusion⟩
  · exact Or.inl ⟨_, rfl, Status.noConfusion⟩
  · simp only [Bool.or_eq_true, bne_iff_ne, not_or, ne_eq, not_not, Bool.not_eq_true] at hbusy
    obtain ⟨⟨_, hfree⟩, happlied⟩ := hbusy
    cases logGet core.log core.appliedIndex with
    | none => exact Or.inl ⟨_, rfl, Status.noConfusion⟩
    | some entry => exact Or.inr ⟨_, rfl, happlied, hfree, happlied, by omega, rfl⟩

theorem logCompact_cases (log : Log) (index term : ℕ) :
    (∃ status, logCompact log index term = .error status ∧ status ≠ .ok) ∨
      logCompact log index term = .ok (compactedLog log index term) := by
  unfold logCompact
  split_ifs
  · exact Or.inl ⟨_, rfl, Status.noConfusion⟩
  · exact Or.inl ⟨_, rfl, Status.noConfusion⟩
  · exact Or.inr rfl

theorem coreCompact_outcome (core : Core) (point : SnapshotPoint) :
    ((coreCompact core point).1 ≠ .ok ∧ (coreCompact core point).2 = core) ∨
      coreSnapshotPoint core = .ok point ∧
        let log := compactedLog core.log point.index point.term
        logCompact core.log point.index point.term = .ok log ∧
          coreCompact core point = (.ok, { core with log }) := by
  unfold coreCompact
  rcases coreSnapshotPoint_cases core with ⟨status, hpoint, hstatus⟩ | ⟨current, hpoint, _⟩
  · rw [hpoint]
    exact Or.inl ⟨hstatus, rfl⟩
  rw [hpoint]
  dsimp only
  split_ifs with hother
  · exact Or.inl ⟨Status.noConfusion, rfl⟩
  rw [bne_iff_ne, Decidable.not_not] at hother
  rcases logCompact_cases core.log point.index point.term with ⟨status, hlog, hstatus⟩ | hlog
  · rw [hlog]
    exact Or.inl ⟨hstatus, rfl⟩
  · rw [hlog]
    exact Or.inr ⟨by rw [hother], rfl, rfl⟩

theorem coreOk_compact (hc : CoreOk M g n (coreView core)) (hd : Durable disk core)
    {point : SnapshotPoint} {compacted : Core} (hpoint : coreSnapshotPoint core = .ok point)
    (hok : coreCompact core point = (.ok, compacted)) :
    CoreOk M g n (coreView compacted) ∧ Durable (compactDisk disk point) compacted ∧
      DiskOk M g n (compactDisk disk point) := by
  rcases coreCompact_outcome core point with ⟨hfailed, _⟩ | ⟨_, hlog, hdone⟩
  · exact absurd (congrArg Prod.fst hok) hfailed
  obtain ⟨hindex, hconfiguration⟩ : point.index = core.commitIndex ∧
      point.configuration = core.membershipTransition.committed := by
    rcases coreSnapshotPoint_cases core with ⟨_, herror, _⟩ | ⟨_, hsome, hindex, _, _, _, hconf⟩
    · cases hpoint.symm.trans herror
    · cases hpoint.symm.trans hsome
      exact ⟨hindex, hconf⟩
  cases hdone.symm.trans hok
  generalize compactedLog core.log point.index point.term = log at hlog ⊢
  obtain ⟨hrep, hbase, hbaseTerm, hentries⟩ := hc.represents.compact hlog
  have hcore : CoreOk M g n (coreView { core with log }) := by
    have hdurable : DurableOk M g n core.term core.votedFor log core.commitIndex :=
      ⟨hc.durable.term_eq, hc.durable.vote_eq, hrep, by rw [hbase, hindex], hc.durable.commit_le,
        hc.durable.known_eq⟩
    exact { hc with
      durable := hdurable
      leader := fun hrole => { hc.leader hrole with }
      candidate := fun hrole => { hc.candidate hrole with } }
  have hdurable : Durable (compactDisk disk point) { core with log } := by
    refine { hd with entries := ?_, base := hbase.symm, baseTerm := hbaseTerm.symm }
    change disk.entries.drop (point.index - disk.snapshotIndex) = log.entries
    rw [hd.entries, hd.base, hentries]
  refine ⟨hcore, hdurable, hcore.diskOk hdurable (fun hnone => by cases hnone) ?_⟩
  intro c hsome
  have hconf : point.configuration = c := Option.some.inj hsome
  change c = M.scheme.conf ((g.log n).take point.index)
  rw [← hconf, hconfiguration, hindex]
  exact hc.committed

theorem install_matching (h : GhostOk M g) (hdisk : DiskOk M g n disk) {p : List Entry} {t : ℕ}
    (hcert : g.Certified p (t + 1)) (hbase : disk.snapshotIndex < p.length) :
    ((disk.entries[p.length - disk.snapshotIndex - 1]?).any
      (fun entry => entry.term == endTerm p)) = true ↔ p <+: g.log n := by
  have hrep := hdisk.durable.log_rep
  have hget : disk.entries[p.length - disk.snapshotIndex - 1]? = (g.log n)[p.length - 1]? := by
    have hentries : disk.entries = (g.log n).drop disk.snapshotIndex := hrep.entries
    rw [hentries, List.getElem?_drop]
    congr 1
    omega
  have hp := endTerm_take p (show 0 < p.length by omega) le_rfl
  rw [List.take_length] at hp
  obtain ⟨last, hlast, hlastTerm⟩ := hp
  rw [hget, Option.any_eq_true]
  constructor
  · rintro ⟨e, he, hterm⟩
    have hlen : p.length ≤ (g.log n).length := by
      obtain ⟨hlt, _⟩ := List.getElem?_eq_some_iff.mp he
      omega
    have hsame := sound_matching (h.inv.node n).log_sound (h.inv.ledger.certified_sound hcert).1
      hlen le_rfl (i := p.length) (by
        obtain ⟨e', he', hterm'⟩ := endTerm_take (g.log n) (show 0 < p.length by omega) hlen
        have heq : e = e' := Option.some.inj (he.symm.trans he')
        change endTerm ((g.log n).take p.length) = endTerm (p.take p.length)
        rw [hterm', ← heq]
        simpa using hterm)
    rw [List.take_length] at hsame
    rw [← hsame]
    exact List.take_prefix _ _
  · rintro ⟨more, hmore⟩
    refine ⟨last, ?_, ?_⟩
    · rw [← hmore, List.getElem?_append_left (by omega)]
      exact hlast
    · rw [hlastTerm]
      exact beq_self_eq_true _

theorem diskOk_install (h : GhostOk M g) (hdisk : DiskOk M g n disk) (htracked : M.tracked = true)
    {o : SnapshotOffer} (ho : OfferOk M g o) (hto : o.toId = n)
    (haccepted : installRefused disk o = false) :
    ∃ g', Advance M n g g' ∧ DiskOk M g' n (installDisk disk o) ∧ o.snapshotIndex ≤ g'.known n := by
  simp only [installRefused, Bool.or_eq_false_iff, decide_eq_false_iff_not, not_lt, not_le]
    at haccepted
  obtain ⟨p, hcert, hlength, hend, hconf⟩ := ho.settled htracked
  have hdurable := hdisk.durable
  have hrep := hdurable.log_rep
  have hnow := hdurable.term_eq
  have hobserve : Advance M n g (g.observe n o.leaderTerm) := advance_observe h (by omega)
  have hterm' : (g.observe n o.leaderTerm).term n = o.leaderTerm := by simp [Chronicle.observe]
  have hmatching := install_matching h hdisk hcert (by omega)
  rw [hlength, hend] at hmatching
  -- the log after the installation
  obtain ⟨l, hreplaces, hentries⟩ : ∃ l, Replaces (g.log n) p l ∧
      (installDisk disk o).entries = l.drop o.snapshotIndex := by
    by_cases hp : p <+: g.log n
    · refine ⟨g.log n, Or.inl ⟨hp, rfl⟩, ?_⟩
      have hentries : disk.entries = (g.log n).drop disk.snapshotIndex := hrep.entries
      unfold installDisk
      dsimp only
      rw [if_pos (hmatching.mpr hp), hentries, List.drop_drop]
      congr 1
      omega
    · refine ⟨p, Or.inr ⟨hp, rfl⟩, ?_⟩
      unfold installDisk
      dsimp only
      rw [if_neg (fun hm => hp (hmatching.mp hm)), ← hlength, List.drop_length]
  have hinstall : Advance M n (g.observe n o.leaderTerm)
      ((g.observe n o.leaderTerm).install n p.length l) := by
    apply advance_install hobserve.ok
    · rw [hterm']
      intro hleads
      exact ho.other (hto.trans (Option.some.inj (ho.leader.symm.trans hleads)).symm)
    · rw [hterm']
      exact hcert
    · change g.known n ≤ p.length
      rw [hdurable.known_eq, Mode.known, if_pos htracked]
      omega
    · exact hreplaces
  have hlog : ((g.observe n o.leaderTerm).install n p.length l).log n = l := by
    simp [Chronicle.install]
  have hknown : ((g.observe n o.leaderTerm).install n p.length l).known n = p.length := by
    simp [Chronicle.install]
  have htake : l.take o.snapshotIndex = p := by
    rw [← hlength, take_eq_of_longer hreplaces.has le_rfl, List.take_length]
  have hbound : o.snapshotIndex ≤ l.length := by
    rw [← hlength]
    exact hreplaces.has.length_le
  refine ⟨_, hobserve.trans hinstall, ⟨?_, ?_, ?_⟩, ?_⟩
  · constructor
    case term_eq => exact hterm'
    case vote_eq =>
      change g.vote n o.leaderTerm = voteOf (if disk.term < o.leaderTerm then 0 else disk.votedFor)
      split_ifs with hlater
      · cases hvote : g.vote n o.leaderTerm with
        | none => rfl
        | some c =>
          have := (h.inv.node n).vote_le o.leaderTerm c hvote
          omega
      · rw [show o.leaderTerm = disk.term by omega]
        exact hdurable.vote_eq
    case log_rep =>
      rw [hlog]
      refine ⟨hbound, hentries, ?_⟩
      change o.snapshotTerm = endTerm (l.take o.snapshotIndex)
      rw [htake, hend]
    case base_le => exact le_rfl
    case commit_le =>
      rw [hlog]
      exact hbound
    case known_eq =>
      rw [hknown, Mode.known, if_pos htracked]
      exact hlength
  · intro hnone
    cases hnone
  · intro c hsome
    have hc : o.configuration = c := Option.some.inj hsome
    change c = M.scheme.conf ((Chronicle.log _ n).take o.snapshotIndex)
    rw [hlog, htake, hconf, hc]
  · rw [hknown]
    exact hlength.ge

theorem coreAckReady_view (core : Core) (admitted : ℕ) :
    coreView (coreAckReady core admitted).2 = coreView core := by
  unfold coreAckReady
  split_ifs <;> first | rfl | (dsimp only; split_ifs <;> rfl)

theorem coreAckApplied_view (core : Core) (index : ℕ) :
    coreView (coreAckApplied core index).2 = coreView core := by
  unfold coreAckApplied
  split_ifs <;> rfl

theorem coreAdvance_view (core : Core) : coreView (coreAdvance core).2 = coreView core := by
  unfold coreAdvance
  split_ifs <;> rfl

theorem coreSetPeerPaused_same (core : Core) (peer : NodeId) (paused : Bool) :
    ∃ pausedPeers, (coreSetPeerPaused core peer paused).2 = { core with pausedPeers } := by
  unfold coreSetPeerPaused
  split_ifs
  · exact ⟨_, rfl⟩
  · exact ⟨_, rfl⟩
  · cases peerIndex core peer <;> exact ⟨_, rfl⟩

theorem coreSetPeerPaused_view (core : Core) (peer : NodeId) (paused : Bool) :
    coreView (coreSetPeerPaused core peer paused).2 = coreView core := by
  obtain ⟨_, hsame⟩ := coreSetPeerPaused_same core peer paused
  rw [hsame]
  rfl

end RaftRecovery
