import TurboRaft.RaftCoreRuns

/-! # Replication and commits under arbitrary inputs

The bodies that take over entries of a leader or count its followers: how they change the log,
the commit index and the configurations. -/
namespace RaftReplicationEffects

open RaftTypes RaftMembershipTransition RaftLog RaftCoreState RaftCore RaftCoreEmit RaftCoreStep
open RaftCluster RaftTransitionLemmas RaftRefinement RaftEmission RaftCallRefinement
open RaftCoreProgress RaftCoreRuns RaftFollowerProgress RaftLogReconcile RaftOutbox

variable {F : Faith} {L : Log → Prop} {core core' core'' : Core} {call call' : Call}

section Numbering

variable {base : ℕ} {entries more : List Entry}

section

variable (h : Numbered base entries)

include h

theorem numbered_pair {p : Conf × ℕ} (hp : p ∈ confPairs entries) :
    base < p.2 ∧ p.2 ≤ base + entries.length := by
  obtain ⟨entry, hentry, hindex, _⟩ := confPairs_index hp
  obtain ⟨i, hi, hget⟩ := List.getElem_of_mem hentry
  have := h i entry (by rw [List.getElem?_eq_getElem hi, hget])
  omega

end

theorem confAfter_append (start : Conf) (entries more : List Entry) :
    confAfter start (entries ++ more) = confAfter (confAfter start entries) more := by
  unfold confAfter
  rw [confPairs_append, List.map_append, List.getLast?_append]
  cases ((confPairs more).map Prod.fst).getLast? <;> rfl

end Numbering

section Commit

variable {i : ℕ}

theorem pendingEntries_crossed (hlog : core'.log = core.log)
    (hbase : core.log.baseIndex ≤ core.commitIndex) (hle : core.commitIndex ≤ core'.commitIndex) :
    pendingEntries core = crossed core core' ++ pendingEntries core' := by
  have hsum : core'.commitIndex - core.log.baseIndex =
      core.commitIndex - core.log.baseIndex + (core'.commitIndex - core.commitIndex) := by omega
  unfold pendingEntries crossed
  rw [hlog, hsum, ← List.drop_drop, List.take_append_drop]

theorem committedEntries_crossed (hlog : core'.log = core.log)
    (hbase : core.log.baseIndex ≤ core.commitIndex) (hle : core.commitIndex ≤ core'.commitIndex) :
    committedEntries core' = committedEntries core ++ crossed core core' := by
  unfold committedEntries crossed
  rw [hlog, ← List.take_add]
  congr 1
  omega

/-- The commit index moved to `i`, the configurations up to it are in force and the peers
follow them. -/
structure Advanced (core : Core) (i : ℕ) (core' : Core) : Prop where
  inv : CoreInv core'
  apply : applyView core' = applyView core
  log : core'.log = core.log
  commit : core'.commitIndex = i
  transition : core'.membershipTransition = membershipTransitionApply core.membershipTransition i
  term : core'.term = core.term
  vote : core'.votedFor = core.votedFor

theorem coreRefreshPeers_apply (core : Core) (peers : List NodeId) :
    applyView (coreRefreshPeers core peers) = applyView core := by
  unfold coreRefreshPeers
  split_ifs
  · rfl
  · unfold refreshSelf
    cases peerIndex (carriedPeers core peers) (carriedPeers core peers).selfId <;> rfl
  · rfl

theorem looseInv_refresh (h : LooseInv core) {peers : List NodeId}
    (hbuild : coreBuildPeerSet core.membershipTransition = .ok peers) :
    CoreInv (coreRefreshPeers core peers) := by
  have hview := coreRefreshPeers_view core peers
  have htransition : (coreRefreshPeers core peers).membershipTransition =
      core.membershipTransition := congrArg CoreView.transition hview
  have hrole : (coreRefreshPeers core peers).role = core.role := congrArg CoreView.role hview
  have hcampaign : (coreRefreshPeers core peers).campaignTerm = core.campaignTerm :=
    congrArg CoreView.campaignTerm hview
  have hterm : (coreRefreshPeers core peers).term = core.term := congrArg CoreView.term hview
  constructor
  · have happly := coreRefreshPeers_apply core peers
    apply h.carry htransition (congrArg CoreView.commitIndex hview) (congrArg CoreView.log hview)
      (congrArg ApplyView.appliedIndex happly) (congrArg ApplyView.applyAdmittedIndex happly)
    rw [hrole, hcampaign, hterm]
    exact h.campaign
  · rw [htransition, hbuild]
    exact congrArg Except.ok (congrArg CoreView.peers hview).symm

/-- The peer set of a commit always exists, so a commit never fails halfway. -/
theorem coreInv_advance (h : CoreInv core) (hle : core.commitIndex ≤ i)
    (hlast : i ≤ logLastIndex core.log) :
    ∃ core', advanceCommit core i = (.ok, core') ∧ Advanced core i core' := by
  have hstaged := h.transitionStaged.apply i
  obtain ⟨peers, hbuild⟩ := hstaged.built
  let applied : Core := { core with
    commitIndex := i
    membershipTransition := membershipTransitionApply core.membershipTransition i }
  have happlied : LooseInv applied :=
    { h.toLooseInv with
      pending := hstaged.above
      ascending := hstaged.ascending
      admitted_le := h.admitted_le.trans hle
      commit_le := hlast }
  have hinv := looseInv_refresh happlied hbuild
  have hview := coreRefreshPeers_view applied peers
  have happly := coreRefreshPeers_apply applied peers
  simp only [advanceCommit, coreSyncMembership, hbuild]
  split_ifs
  · -- the leader is no voter any more and steps down in its own term
    refine ⟨_, rfl, ?_⟩
    constructor
    case inv => exact { hinv with campaign := fun hrole => Role.noConfusion hrole }
    case apply => exact happly
    case log => exact congrArg CoreView.log hview
    case commit => exact congrArg CoreView.commitIndex hview
    case transition => exact congrArg CoreView.transition hview
    case term => exact (if_neg (Nat.lt_irrefl _)).trans (congrArg CoreView.term hview)
    case vote => exact (if_neg (Nat.lt_irrefl _)).trans (congrArg CoreView.votedFor hview)
  · exact ⟨_, rfl, { hinv with }, happly, congrArg CoreView.log hview,
      congrArg CoreView.commitIndex hview, congrArg CoreView.transition hview,
      congrArg CoreView.term hview, congrArg CoreView.votedFor hview⟩

/-- No pending configuration lies strictly below the index. -/
def WithinLimit (transition : MembershipTransition) (i : ℕ) : Prop :=
  ∀ first rest, transition.pending = first :: rest → i ≤ first.2

theorem withinLimit_commitLimit (transition : MembershipTransition) (candidate : ℕ) :
    WithinLimit transition (membershipTransitionCommitLimit transition candidate) :=
  fun _ _ hpending => commitLimit_le_pending hpending candidate

/-- The configurations that a commit puts in force are those of the entries it crosses, and
within the limit there is at most one of them. -/
theorem tracked_advance {start : Conf} (h : Tracked start core)
    (hbase : core.log.baseIndex ≤ core.commitIndex) (hle : core.commitIndex ≤ i)
    (hadvanced : Advanced core i core') :
    Tracked start core' ∧
      (WithinLimit core.membershipTransition i → (confPairs (crossed core core')).length ≤ 1) := by
  have hcommit := hadvanced.commit
  have hsplit := pendingEntries_crossed hadvanced.log hbase (by omega)
  have hpending := h.pending
  rw [hsplit, confPairs_append] at hpending
  have hnumbered : Numbered core.commitIndex (pendingEntries core) := by
    have := h.named.drop (core.commitIndex - core.log.baseIndex)
    rwa [Nat.add_sub_cancel' hbase] at this
  have hcrossed : Numbered core.commitIndex (crossed core core') := by
    have := hnumbered.take (core'.commitIndex - core.commitIndex)
    rw [crossed, hadvanced.log]
    exact this
  have hlength : (crossed core core').length ≤ i - core.commitIndex := by
    rw [crossed, hcommit]
    exact List.length_take_le _ _
  have hbelow : ∀ p ∈ confPairs (crossed core core'), p.2 ≤ i := by
    intro p hp
    have := (numbered_pair hcrossed hp).2
    omega
  have habove : ∀ p ∈ confPairs (pendingEntries core'), i < p.2 := by
    intro p hp
    have hnamed := h.named.drop (i - core.log.baseIndex)
    rw [Nat.add_sub_cancel' (by omega)] at hnamed
    rw [pendingEntries, hcommit, hadvanced.log] at hp
    exact (numbered_pair hnamed hp).1
  have happly := applyPending_eq i core.membershipTransition.committed
    (confPairs (crossed core core')) (confPairs (pendingEntries core')) hbelow habove
  rw [← hpending] at happly
  have htransition := hadvanced.transition.trans happly
  refine ⟨⟨?_, ?_, ?_⟩, ?_⟩
  · rw [hadvanced.log]
    exact h.named
  · rw [htransition, h.committed, committedEntries_crossed hadvanced.log hbase (by omega),
      confAfter_append]
    rfl
  · rw [htransition]
  · intro hlimit
    cases hpairs : confPairs (crossed core core') with
    | nil => exact Nat.zero_le _
    | cons first rest =>
      cases rest with
      | nil => exact le_rfl
      | cons second rest =>
        -- a second configuration would lie above the first and so above the limit
        rw [hpairs] at hpending hbelow
        have hascending := confPairs_ascending hcrossed.ascending
        rw [hpairs] at hascending
        have hfirst := hlimit first _ hpending
        have hsecond := hbelow second (by simp)
        have := (List.pairwise_cons.mp hascending).1 second List.mem_cons_self
        omega

theorem effect_commitTo (h : Effect F core call) (hsame : call.core.commitIndex = core.commitIndex)
    (hbase : core.log.baseIndex ≤ core.commitIndex) (hle : call.core.commitIndex ≤ i)
    (hlimit : WithinLimit call.core.membershipTransition i)
    (hadvanced : Advanced call.core i call'.core)
    (hchanged : call'.ready.logChanged = call.ready.logChanged)
    (hfrom : call'.ready.logTruncateFrom = call.ready.logTruncateFrom)
    (hentries : call'.ready.logEntries = call.ready.logEntries)
    (hcommitted : call'.ready.committedEntries = call.ready.committedEntries)
    (hreport : (if call'.ready.commitChanged then call'.ready.commitIndex
      else core.commitIndex) = i) : Effect F core call' where
  inv := hadvanced.inv
  apply := hadvanced.apply.trans h.apply
  commit_le := by
    rw [hadvanced.commit, ← hsame]
    exact hle
  base := by
    rw [hadvanced.log]
    exact h.base
  stored hf := by
    have hstored := h.stored hf
    constructor
    · unfold persistEntries
      rw [hchanged, hfrom, hentries, hadvanced.log]
      exact hstored.entries
    · rw [hadvanced.commit]
      exact hreport
    · rw [hadvanced.log]
      exact hstored.base
    · rw [hadvanced.log]
      exact hstored.baseTerm
  kept hf := by
    rw [hadvanced.log]
    exact h.kept hf
  settled hstill := by
    -- nothing pending lies at or below the commit index
    have happlied := applyPending_eq call.core.commitIndex
      call.core.membershipTransition.committed [] _ (by simp) h.inv.pending
    rw [hadvanced.commit, ← hsame] at hstill
    rw [hadvanced.transition, hstill]
    exact (congrArg MembershipTransition.committed happlied).trans (h.settled hsame)
  steady hc := (h.steady hc).then_same hadvanced.term hadvanced.vote
  tracked hf hr start htracked := by
    obtain ⟨hnow, _⟩ := h.tracked hf hr start htracked
    have hcallBase : call.core.log.baseIndex ≤ call.core.commitIndex := by
      rw [h.base, hsame]
      exact hbase
    obtain ⟨hnext, hcrossed⟩ := tracked_advance hnow hcallBase hle hadvanced
    refine ⟨hnext, ?_⟩
    have hpairs := hcrossed hlimit
    rw [crossed, hsame, h.base] at hpairs
    exact hpairs
  unoffered := hcommitted.trans h.unoffered

theorem deed_updateCommit (h : Deed F L core call) (hinv : CoreInv core)
    (hsame : call.core.commitIndex = core.commitIndex) :
    ∃ committed, updateCommit call = (.ok, committed) ∧ Deed F L core committed ∧
      committed.core.log = call.core.log ∧ committed.core.term = call.core.term := by
  unfold RaftCoreStep.updateCommit
  cases hcandidate : commitCandidate call.core
      (membershipTransitionCommitLimit call.core.membershipTransition
        (logLastIndex call.core.log)) with
  | none => exact ⟨call, rfl, h, rfl, rfl⟩
  | some i =>
    obtain ⟨hlow, hlimit, -, -⟩ := commitCandidate_some hcandidate
    have hlast := hlimit.trans (commitLimit_le _ _)
    obtain ⟨core', hadvance, hadvanced⟩ := coreInv_advance h.inv hlow.le hlast
    simp only [hadvance]
    have hwithin : WithinLimit call.core.membershipTransition i :=
      fun _ _ hpending => hlimit.trans (commitLimit_le_pending hpending _)
    have hcommitted : Effect F core
        ⟨core', { call.ready with commitChanged := true, commitIndex := i }⟩ :=
      effect_commitTo h.toEffect hsame hinv.base_le_commit hlow.le hwithin hadvanced rfl rfl rfl rfl rfl
    exact ⟨_, rfl, ⟨hcommitted, hadvanced.log ▸ h.log⟩, hadvanced.log, hadvanced.term⟩

end Commit

section Requests

variable {m : Message}

/-- The entries a rebuild looks at are those the log has afterwards, as far as the request
reaches. -/
theorem rebuilt_stretch {previous : ℕ} {incoming : List Entry}
    (hbase : core.log.baseIndex ≤ core.commitIndex) (hlow : core.log.baseIndex ≤ previous)
    (hhigh : previous ≤ logLastIndex core.log) (hnumbered : Numbered previous incoming) :
    retainedEntries core previous ++
        incoming.filter (fun entry => decide (core.commitIndex < entry.index)) =
      (core.log.entries.take (previous - core.log.baseIndex) ++ incoming).drop
        (core.commitIndex - core.log.baseIndex) := by
  have hlast := logLastIndex_eq core.log
  have hretained : retainedEntries core previous =
      (core.log.entries.drop (core.commitIndex - core.log.baseIndex)).take
        (previous - core.commitIndex) := by
    have hgets : ∀ index ∈ List.range' (core.commitIndex + 1) (previous - core.commitIndex),
        logGet core.log index = core.log.entries[index - core.log.baseIndex - 1]? := by
      intro index hindex
      have hrange := List.mem_range'_1.mp hindex
      unfold logGet
      rw [if_neg (by simp; omega)]
    have hstart : core.commitIndex + 1 =
        core.log.baseIndex + (core.commitIndex - core.log.baseIndex + 1) := by omega
    unfold retainedEntries
    rw [min_eq_left hhigh, List.filterMap_congr hgets, hstart, ← List.map_add_range',
      List.filterMap_map, ← filterMap_range']
    congr 1
    funext index
    simp only [Function.comp_apply]
    congr 1
    omega
  rw [hretained, filter_above incoming previous core.commitIndex hnumbered, List.drop_append,
    List.drop_take, List.length_take, min_eq_left (by omega)]
  congr 2 <;> omega

/-- A request that is not refused carries no misnumbered entry among those that nothing
checks. -/
def requestNumbered (core : Core) (m : Message) : Bool :=
  requestMalformed m || decide (m.term < core.term) || !(requestTransition core m).isOk ||
    uncheckedNumbered core.log m.previousLogIndex m.previousLogTerm m.entries core.commitIndex

/-- A matching request that changes nothing reaches every uncommitted configuration of the
log. -/
def requestReaches (core : Core) (m : Message) : Bool :=
  decide (m.term < core.term) || !logMatches core.log m.previousLogIndex m.previousLogTerm ||
    reconcileScan core.log m.previousLogIndex 0 m.entries != .unchanged ||
    (confPairs (core.log.entries.drop (max (core.commitIndex - core.log.baseIndex)
      (m.previousLogIndex - core.log.baseIndex + m.entries.length)))).isEmpty

variable {log : Log} {r : ReconcileResult} {transition : MembershipTransition}

theorem committedEntries_kept (hinv : CoreInv core)
    (hinitial : committedEntries core <+: core'.log.entries)
    (hbase : core'.log.baseIndex = core.log.baseIndex)
    (hcommit : core'.commitIndex = core.commitIndex) :
    committedEntries core' = committedEntries core := by
  have hlength : (committedEntries core).length = core.commitIndex - core.log.baseIndex := by
    have hlast := logLastIndex_eq core.log
    have := hinv.commit_le
    rw [committedEntries, List.length_take, min_eq_left (by omega)]
  have htake := List.prefix_iff_eq_take.mp hinitial
  rw [hlength] at htake
  rw [committedEntries, hbase, hcommit]
  exact htake.symm

theorem tracked_accept {start : Conf} (h : Tracked start core) (hinv : CoreInv core)
    (hreconciled : Reconciled core.log m.previousLogIndex m.previousLogTerm core.commitIndex m.entries
      log r)
    (hmatches : logMatches core.log m.previousLogIndex m.previousLogTerm = true)
    (hmatched : r.matched = true)
    (htransition : coreRebuildPendingTransition core m.previousLogIndex m.entries =
      .ok transition)
    (hvetted : uncheckedNumbered core.log m.previousLogIndex m.previousLogTerm m.entries
      core.commitIndex = true) (hfresh : ¬ m.term < core.term)
    (hreaches : requestReaches core m = true) (hlog : core'.log = log)
    (hcommit : core'.commitIndex = core.commitIndex)
    (hnext : core'.membershipTransition = transition) : Tracked start core' := by
  obtain ⟨hlow, hhigh⟩ := logMatches_range hmatches
  have hlast := logLastIndex_eq core.log
  have hbase := hinv.base_le_commit
  have hcontent := hreconciled.content hvetted hmatched
  have hnumbered := hreconciled.numbered hvetted hmatched h.named
  have htakes : (core.log.entries.take (m.previousLogIndex - core.log.baseIndex)).length =
      m.previousLogIndex - core.log.baseIndex := by
    rw [List.length_take, min_eq_left (by omega)]
  have hjoined : Numbered core.log.baseIndex
      (core.log.entries.take (m.previousLogIndex - core.log.baseIndex) ++ m.entries) := by
    apply (h.named.take _).append
    rw [htakes, Nat.add_sub_cancel' hlow]
    exact hnumbered
  -- what lies beyond the request is truncated or free of configurations
  have hrest : confPairs (log.entries.drop (max (core.commitIndex - core.log.baseIndex)
      (m.previousLogIndex - core.log.baseIndex + m.entries.length))) = [] := by
    cases hchanged : r.changed with
    | true =>
      rw [List.drop_eq_nil_of_le ((hreconciled.ends hchanged).le.trans (le_max_right _ _))]
      rfl
    | false =>
      rw [hreconciled.unchanged hchanged]
      unfold requestReaches at hreaches
      rw [hmatches, hreconciled.scanned hmatched hchanged, decide_eq_false hfresh] at hreaches
      simpa using hreaches
  unfold coreRebuildPendingTransition at htransition
  rw [rebuilt_stretch hbase hlow hhigh hnumbered] at htransition
  obtain ⟨hcommitted, hpending, _⟩ := stageEntries_ok (hjoined.drop _).ascending
    (fun p hp => absurd hp List.not_mem_nil) htransition
  constructor
  case named =>
    rw [hlog, hreconciled.base]
    cases hchanged : r.changed with
    | true =>
      rw [← hreconciled.ends hchanged, List.take_length] at hcontent
      rw [hcontent]
      exact hjoined
    | false =>
      rw [hreconciled.unchanged hchanged]
      exact h.named
  case committed =>
    rw [hnext, hcommitted, h.committed, committedEntries_kept hinv _ _ hcommit]
    · rw [hlog]
      exact hreconciled.kept hvetted
    · rw [hlog]
      exact hreconciled.base
  case pending =>
    rw [hnext, hpending, pendingEntries, hlog, hreconciled.base, hcommit, ← hcontent,
      List.nil_append]
    set reach := m.previousLogIndex - core.log.baseIndex + m.entries.length
    set start := core.commitIndex - core.log.baseIndex
    rw [← List.take_append_drop reach log.entries, List.drop_append, confPairs_append,
      List.take_append_drop]
    have hsuffix : confPairs ((log.entries.drop reach).drop
        (start - (log.entries.take reach).length)) = [] := by
      by_cases hinside : reach ≤ log.entries.length
      · rw [List.length_take, min_eq_left hinside, List.drop_drop,
          show reach + (start - reach) = max start reach by omega]
        exact hrest
      · have hempty : log.entries.drop reach = [] := List.drop_eq_nil_of_le (by omega)
        rw [hempty, List.drop_nil]
        rfl
    rw [hsuffix, List.append_nil]

def acceptedCore (core : Core) (m : Message) (log : Log) (transition : MembershipTransition)
    (peers : List NodeId) : Core :=
  coreRefreshPeers { acceptLeader core m log with membershipTransition := transition } peers

theorem acceptedCore_view (core : Core) (m : Message) (log : Log)
    (transition : MembershipTransition) (peers : List NodeId) :
    coreView (acceptedCore core m log transition peers) =
      { coreView { acceptLeader core m log with membershipTransition := transition } with
        peers
        matchIndex := (acceptedCore core m log transition peers).matchIndex } :=
  coreRefreshPeers_view _ _

theorem begun_accept (h : Begun call) {peers : List NodeId}
    (hok : logReconcile call.core.log m.previousLogIndex m.previousLogTerm m.entries
      call.core.commitIndex = .ok (log, r)) (hmatched : r.matched = true)
    (htransition : coreRebuildPendingTransition call.core m.previousLogIndex m.entries =
      .ok transition)
    (hpeers : coreBuildPeerSet transition = .ok peers)
    (hvetted : F.numbered → uncheckedNumbered call.core.log m.previousLogIndex m.previousLogTerm
      m.entries call.core.commitIndex = true)
    (hfresh : ¬ m.term < call.core.term)
    (hreaches : F.reaching → requestReaches call.core m = true) :
    Effect F call.core
      ⟨acceptedCore call.core m log transition peers, reportLog call.ready log r⟩ := by
  have hreconciled := logReconcile_reconciled h.inv.slots h.inv.commit_le hok
  have hmatches := (logReconcile_matches hok).1.trans hmatched
  obtain ⟨hstaged, hcommitted⟩ := h.inv.rebuild htransition
  have hview := acceptedCore_view call.core m log transition peers
  have hlog : (acceptedCore call.core m log transition peers).log = log :=
    congrArg CoreView.log hview
  have hcommit : (acceptedCore call.core m log transition peers).commitIndex =
      call.core.commitIndex := congrArg CoreView.commitIndex hview
  have hloose : LooseInv { acceptLeader call.core m log with membershipTransition := transition } :=
    { pending := hstaged.above
      ascending := hstaged.ascending
      slots := hreconciled.slots
      base_le := hreconciled.base.le.trans h.inv.base_le
      applied_le := h.inv.applied_le
      admitted_le := h.inv.admitted_le
      commit_le := hreconciled.reach
      campaign := fun hrole => Role.noConfusion hrole }
  constructor
  case inv => exact looseInv_refresh hloose hpeers
  case apply => exact coreRefreshPeers_apply _ _
  case commit_le => exact hcommit.ge
  case base =>
    rw [hlog]
    exact hreconciled.base
  case stored =>
    intro hf
    have hquiet : call.ready.logChanged = false := congrArg Report.logChanged h.report
    have hstill : call.ready.commitChanged = false := congrArg Report.commitChanged h.report
    constructor
    · rw [hlog]
      unfold persistEntries reportLog
      cases hchanged : r.changed with
      | true => exact hreconciled.reported (hvetted hf) hchanged
      | false =>
        rw [if_neg Bool.false_ne_true, hquiet, hreconciled.unchanged hchanged]
        rfl
    · have hsame : (reportLog call.ready log r).commitChanged = false := by
        unfold reportLog
        split_ifs
        · exact hstill
        · exact hstill
      rw [hsame, hcommit]
      rfl
    · rw [hlog]
      exact hreconciled.base.symm
    · rw [hlog]
      exact hreconciled.baseTerm.symm
  case kept =>
    intro hf
    rw [hlog]
    exact hreconciled.kept (hvetted hf)
  case settled =>
    intro _
    exact (congrArg (·.transition.committed) hview).trans hcommitted
  case steady =>
    intro _
    have hfollowed : KeepsVote call.core (becomeFollower { call.core with log } m.term) :=
      KeepsVote.follow (KeepsVote.of_same rfl rfl) m.term
    exact hfollowed.then_same (congrArg CoreView.term hview) (congrArg CoreView.votedFor hview)
  case tracked =>
    intro hf hr start htracked
    refine ⟨tracked_accept htracked h.inv hreconciled hmatches hmatched htransition (hvetted hf)
      hfresh (hreaches hr) hlog hcommit (congrArg CoreView.transition hview), ?_⟩
    rw [crossed_nothing hcommit]
    exact Nat.zero_le _
  case unoffered =>
    have hnone : call.ready.committedEntries = [] := congrArg Notice.committed h.quiet
    unfold reportLog
    split_ifs
    · exact hnone
    · exact hnone

/-- The commit index of a follower moves within its own log and below its next configuration. -/
theorem deed_followerCommit (h : Deed F L core call) (hinv : CoreInv core)
    (hsame : call.core.commitIndex = core.commitIndex)
    (hreport : call.ready.commitChanged = false) :
    ∃ next, followerCommit call.core m = (.ok, next) ∧ next.log = call.core.log ∧
      Deed F L core ⟨next, reportCommit call.ready core.commitIndex next.commitIndex⟩ := by
  unfold RaftCoreStep.followerCommit
  by_cases hbehind : call.core.commitIndex < m.leaderCommit
  · rw [if_pos hbehind]
    have hcommit := h.inv.commit_le
    set candidate := min m.leaderCommit (logLastIndex call.core.log) with hcandidate
    have hlow := h.inv.transitionStaged.commitLimit
      (show call.core.commitIndex ≤ candidate by omega)
    have hlimit := commitLimit_le call.core.membershipTransition candidate
    obtain ⟨next, hadvance, hadvanced⟩ := coreInv_advance h.inv hlow (by omega)
    refine ⟨next, hadvance, hadvanced.log, ?_, hadvanced.log ▸ h.log⟩
    apply effect_commitTo h.toEffect hsame hinv.base_le_commit hlow (withinLimit_commitLimit _ _)
      hadvanced <;> unfold reportCommit
    · split_ifs <;> rfl
    · split_ifs <;> rfl
    · split_ifs <;> rfl
    · split_ifs <;> rfl
    · rw [← hadvanced.commit]
      by_cases hmoved : (next.commitIndex != core.commitIndex) = true
      · rw [if_pos hmoved]
        rfl
      · rw [if_neg hmoved, hreport]
        have hstill : next.commitIndex = core.commitIndex := by simpa using hmoved
        exact hstill.symm
  · rw [if_neg hbehind]
    refine ⟨call.core, rfl, rfl, ?_⟩
    unfold reportCommit
    rw [if_neg (by simpa using hsame)]
    exact h

theorem stepHeartbeatRequest_ending (h : Begun call) (hformed : requestMalformed m = false)
    (hnumbered : F.numbered → requestNumbered call.core m = true)
    (hreaches : F.reaching → requestReaches call.core m = true)
    (hlogs : ∀ log r, logReconcile call.core.log m.previousLogIndex m.previousLogTerm m.entries
      call.core.commitIndex = .ok (log, r) → L log) :
    Closing F L call.core (stepHeartbeatRequest call m) := by
  have hstill : call.ready.commitChanged = false := congrArg Report.commitChanged h.report
  unfold stepHeartbeatRequest
  by_cases hstale : m.term < call.core.term
  · rw [if_pos hstale]
    exact .done (h.same.emitted emit_anything)
  rw [if_neg hstale]
  cases htransition : requestTransition call.core m with
  | error status =>
    exact h.unchanged status
  | ok transition =>
    cases hok : logReconcile call.core.log m.previousLogIndex m.previousLogTerm m.entries
        call.core.commitIndex with
    | error status => exact h.unchanged status
    | ok result =>
      obtain ⟨log, r⟩ := result
      dsimp only
      obtain ⟨hmatches, hmissed⟩ := logReconcile_matches hok
      cases hmatched : r.matched with
      | true =>
        have hvetted : F.numbered → uncheckedNumbered call.core.log m.previousLogIndex
            m.previousLogTerm m.entries call.core.commitIndex = true := by
          intro hf
          have hrequest := hnumbered hf
          unfold requestNumbered at hrequest
          rw [hformed, htransition, decide_eq_false hstale] at hrequest
          exact hrequest
        unfold requestTransition at htransition
        rw [hmatches.trans hmatched, if_pos rfl] at htransition
        obtain ⟨peers, hpeers⟩ := (h.inv.rebuild htransition).1.built
        have hview := acceptedCore_view call.core m log transition peers
        have hsame : (acceptedCore call.core m log transition peers).log = log :=
          congrArg CoreView.log hview
        have haccepted : Deed F L call.core ⟨acceptedCore call.core m log transition peers, _⟩ :=
          ⟨begun_accept h hok hmatched htransition hpeers hvetted hstale hreaches,
            Or.inr (hsame.symm ▸ hlogs log r hok)⟩
        have hreport : (reportLog call.ready log r).commitChanged = false := by
          unfold reportLog
          split_ifs
          · exact hstill
          · exact hstill
        obtain ⟨next, hcommit, hlog, heffect⟩ :=
          deed_followerCommit haccepted (m := m) h.inv (congrArg CoreView.commitIndex hview) hreport
        have hadopt : adoptTransition (acceptLeader call.core m log) m transition =
            (.ok, next) := by
          simp only [adoptTransition, hpeers]
          exact hcommit
        have hnext : next.log = log := hlog.trans hsame
        rw [if_pos rfl, hadopt]
        dsimp only
        rw [hnext]
        exact .done (heffect.emitted emit_anything)
      | false =>
        obtain ⟨rfl, hchanged⟩ := hmissed hmatched
        have hfollowed : Moved F call.core (acceptLeader call.core m call.core.log) :=
          ((Moved.refl h.inv).follow m.term).inert ⟨rfl, rfl⟩
        have heffect : Deed F L call.core ⟨acceptLeader call.core m call.core.log,
            reportCommit (reportLog call.ready call.core.log r) call.core.commitIndex
              call.core.commitIndex⟩ := by
          apply Deed.quiet hfollowed
          unfold reportLog reportCommit
          rw [hchanged, if_neg (by simp)]
          exact h.quiet
        exact .done (heffect.emitted emit_anything)

end Requests

variable {m : Message} {peer : ℕ}

theorem continueReplication_effect (h : Deed F L core call) (lastIndex : ℕ) :
    Deed F L core (continueReplication call m peer lastIndex) := by
  unfold continueReplication
  split_ifs
  · exact (h.emitted emit_anything).inert ⟨rfl, rfl⟩ rfl
  · exact h.emitted (fillPeerReplicationWindow_emitted (speaks_anything _) trivial)
  · exact h

theorem begun_acceptGrant (h : Begun call) (hmoved : Moved F call.core core') (m : Message)
    (peer : ℕ) :
    ∃ next, acceptGrant { call with core := core' } m peer = (.ok, next) ∧
      Deed F L call.core next := by
  unfold RaftCoreStep.acceptGrant
  dsimp only
  split_ifs
  · obtain ⟨next, hupdate, hdeed, _⟩ := deed_updateCommit (h.moved
      (((hmoved.setWindow _ _).setMatch _ _).setNext _ _)) h.inv hmoved.commit
    exact ⟨next, hupdate, hdeed⟩
  · obtain ⟨next, hupdate, hdeed, _⟩ :=
      deed_updateCommit (h.moved ((hmoved.setWindow _ _).setMatch _ _)) h.inv hmoved.commit
    exact ⟨next, hupdate, hdeed⟩
  · exact ⟨_, rfl, h.moved (hmoved.setWindow _ _)⟩

theorem markActive_inert (core : Core) (nodeId : NodeId) (peer : ℕ) :
    Inert core (markActive core nodeId peer) := by
  unfold markActive
  split_ifs
  · exact ⟨rfl, rfl⟩
  · exact .refl core

theorem stepHeartbeatResponse_ending (h : Begun call) :
    Closing F L call.core (stepHeartbeatResponse call m peer) := by
  unfold stepHeartbeatResponse
  split_ifs with hlater hignored hgranted
  · exact .done (h.follow _)
  · exact .done h.same
  · have hactive : Moved F call.core (markActive call.core m.fromId peer) :=
      (Moved.refl h.inv).inert (markActive_inert _ _ _)
    obtain ⟨next, haccept, heffect⟩ := begun_acceptGrant h hactive m peer
    dsimp only
    rw [haccept]
    exact .done (continueReplication_effect heffect _)
  · have hrejected : Moved F call.core (acceptReject (markActive call.core m.fromId peer) m peer
        (responseInflight call.core m peer)) :=
      (((Moved.refl h.inv).inert (markActive_inert _ _ _)).setWindow _ _).setNext _ _
    exact .done (continueReplication_effect (h.moved hrejected) _)

end RaftReplicationEffects
