import TurboRaft.RaftSafety

/-! # Logs across the nodes of a run

Log matching, leader completeness and the soundness of match indices, read off the
chronicles of a run. -/
namespace RaftLogSafety

open RaftTypes RaftCoreEmit RaftCluster RaftLogLemmas RaftRefinement RaftSafety RaftSimulation
open ConfiguredLog Replication Executions

variable {M : Mode} {C : ClusterConfig} {s : Cluster} {g : Ghost} {n : NodeId}

/-- A run in which neither membership nor snapshots interfere with logs. -/
def Steady (run : Execution (clusterSystem C)) : Prop :=
  run.Meets fun _ e => changesMembership e = false ∧ installsSnapshot e = false

theorem Steady.chronicled {run : Execution (clusterSystem C)} (h : Steady run) :
    ∃ ghost, Chronicled (modeOf C true false (Or.inl rfl)) run ghost :=
  exists_chronicled true false (Or.inl rfl) run fun i hi =>
    ⟨fun _ => (h i hi).1, fun _ => (h i hi).2, fun hf => Bool.noConfusion hf,
      fun hf => Bool.noConfusion hf⟩

/-- Log matching. -/
theorem logs_match (run : Execution (clusterSystem C)) (steady : Steady run) {k : ℕ}
    (hk : k ≤ run.length) {a b : NodeId} {index : ℕ} {e e' : Entry}
    (ha : HoldsEntry (run.state k) a index e) (hb : HoldsEntry (run.state k) b index e')
    (hterm : e.term = e'.term) :
    e = e' ∧ ∀ i x y, i < index → HoldsEntry (run.state k) a i x →
      HoldsEntry (run.state k) b i y → x = y := by
  obtain ⟨ghost, hghost⟩ := steady.chronicled
  have hrel := hghost.related k hk
  obtain ⟨hpos, hata⟩ := holdsEntry_log hrel ha
  obtain ⟨_, hatb⟩ := holdsEntry_log hrel hb
  have hlena : index ≤ ((ghost k).log a).length := by
    obtain ⟨hlt, _⟩ := List.getElem?_eq_some_iff.mp hata
    omega
  have hlenb : index ≤ ((ghost k).log b).length := by
    obtain ⟨hlt, _⟩ := List.getElem?_eq_some_iff.mp hatb
    omega
  have hsame : ((ghost k).log a).take index = ((ghost k).log b).take index := by
    apply sound_matching (hrel.ghost.inv.node a).log_sound (hrel.ghost.inv.node b).log_sound hlena
      hlenb
    change endTerm _ = endTerm _
    obtain ⟨x, hx, hxterm⟩ := endTerm_take ((ghost k).log a) hpos hlena
    obtain ⟨y, hy, hyterm⟩ := endTerm_take ((ghost k).log b) hpos hlenb
    have hex : e = x := Option.some.inj (hata.symm.trans hx)
    have hey : e' = y := Option.some.inj (hatb.symm.trans hy)
    rw [hxterm, hyterm, ← hex, ← hey, hterm]
  have hagree : ∀ i x y, i ≤ index → HoldsEntry (run.state k) a i x →
      HoldsEntry (run.state k) b i y → x = y := by
    intro i x y hle hx hy
    obtain ⟨hposi, hatx⟩ := holdsEntry_log hrel hx
    obtain ⟨_, haty⟩ := holdsEntry_log hrel hy
    rw [getElem?_eq_of_take hsame (by omega)] at hatx
    exact Option.some.inj (hatx.symm.trans haty)
  exact ⟨hagree index e e' le_rfl ha hb, fun i x y hlt => hagree i x y hlt.le⟩

theorem handover_logs_match :
    HoldsEntry (handoverRun.state 28) 3 2 ⟨2, 1, 2, []⟩ ∧
      HoldsEntry (handoverRun.state 28) 1 2 ⟨2, 1, 2, []⟩ ∧
      ∀ i x y, i < 2 → HoldsEntry (handoverRun.state 28) 3 i x →
        HoldsEntry (handoverRun.state 28) 1 i y → x = y := by
  have hleader : HoldsEntry (handoverRun.state 28) 3 2 ⟨2, 1, 2, []⟩ := Or.inl (by decide +kernel)
  have hfollower : HoldsEntry (handoverRun.state 28) 1 2 ⟨2, 1, 2, []⟩ :=
    Or.inl (by decide +kernel)
  refine ⟨hleader, hfollower, ?_⟩
  exact (logs_match handoverRun handover_steady (by decide) hleader hfollower rfl).2

/-- The log of a leader only grows while its node stays in the term. -/
theorem leaders_append_only (run : Execution (clusterSystem C)) (steady : Steady run) {j k : ℕ}
    (hjk : j ≤ k) (hk : k ≤ run.length) (n : NodeId) :
    let disk i := ((run.state i).nodes n).disk
    leaderAt (run.state j) n (disk k).term = true →
      AgreesUpTo (diskLog (disk j)) (diskLog (disk k))
        (RaftLog.logLastIndex (diskLog (disk j))) := by
  intro disk hleader
  obtain ⟨ghost, hghost⟩ := steady.chronicled
  have hj := hghost.related j (by omega)
  have hnow := hghost.related k hk
  have hext := hghost.extends hjk hk
  have hleads := leaderAt_leads hj hleader
  have hterm := (hnow.disks n).durable.term_eq
  have hbefore : (ghost j).term n = (disk k).term :=
    le_antisymm ((hext.term n).trans_eq hterm) (hj.ghost.inv.leader_le hleads)
  have hrep := (hj.disks n).durable.log_rep
  refine agreesUpTo_of_held hrep (hnow.disks n).durable.log_rep hrep.lastIndex.le ?_
  rw [hrep.lastIndex, List.take_length, (hj.ghost.inv.node n).leader_log (hbefore ▸ hleads),
    (hnow.ghost.inv.node n).leader_log (hterm ▸ hext.book.leader _ _ hleads), hbefore, hterm]
  exact hext.book.history _

theorem handover_append_only :
    AgreesUpTo (diskLog ((handoverRun.state 14).nodes 3).disk)
      (diskLog ((handoverRun.state 30).nodes 3).disk) 1 :=
  leaders_append_only handoverRun handover_steady (by decide) (by decide) 3 (by decide +kernel)

/-- A vote is on disk before it is sent, and stays there for its term. -/
theorem votes_durable (run : Execution (clusterSystem C)) (steady : Steady run) {j k : ℕ}
    (hjk : j ≤ k) (hk : k ≤ run.length) (n : NodeId) :
    let disk i := ((run.state i).nodes n).disk
    ((disk j).term = (disk k).term → (disk j).votedFor ≠ 0 →
      (disk k).votedFor = (disk j).votedFor) ∧
      ∀ m ∈ (run.state j).network, m.type = .voteResponse → m.granted = true → m.fromId = n →
        m.term = (disk k).term → (disk k).votedFor = m.toId := by
  intro disk
  obtain ⟨ghost, hghost⟩ := steady.chronicled
  have hrel := hghost.related j (by omega)
  have hvote {c : NodeId} (h : (ghost j).vote n (disk k).term = some c) :
      (disk k).votedFor = c := by
    have hkept := ((hghost.related k hk).disks n).durable.vote_eq.symm.trans
      ((hghost.extends hjk hk).book.vote _ _ _ h)
    exact Option.some.inj (Option.ite_none_left_eq_some.mp hkept).2
  refine ⟨fun hterm hcast => hvote ?_, ?_⟩
  · rw [← hterm, (hrel.disks n).durable.vote_eq, voteOf, if_neg hcast]
  · rintro m hm htype hgranted rfl hterm
    have hmsg := hrel.network m hm
    rw [MsgOk, htype] at hmsg
    exact hvote (hterm ▸ hmsg hgranted)

theorem handover_votes_durable : ((handoverRun.state 28).nodes 1).disk.votedFor =
    ((handoverRun.state 13).nodes 1).disk.votedFor :=
  (votes_durable handoverRun handover_steady (by decide) (by decide) 1).1 (by decide +kernel)
    (by decide +kernel)

/-- A leader of the term moves its commit index in the step from `k` to `k + 1`. -/
structure CommitsAt (run : Execution (clusterSystem C)) (k : ℕ) (n : NodeId) (before after : Core) :
    Prop where
  within : k < run.length
  start : coreAt (run.state k) n = some before
  finish : coreAt (run.state (k + 1)) n = some after
  role : before.role = .leader
  term : after.term = before.term
  moved : before.commitIndex < after.commitIndex

theorem chronicled_leader_log {run : Execution (clusterSystem C)} {ghost : ℕ → Ghost}
    (hghost : Chronicled M run ghost) {k : ℕ} (hk : k ≤ run.length) {core : Core}
    (hat : coreAt (run.state k) n = some core) (hleads : (ghost k).leader core.term = some n) :
    Represents core.log ((ghost k).history core.term) := by
  have hrel := hghost.related k hk
  have hcore := hrel.cores n core hat
  have hterm := hcore.term_now
  have hlog := (hrel.ghost.inv.node n).leader_log (by rw [hterm]; exact hleads)
  rw [hterm] at hlog
  rw [← hlog]
  exact hcore.represents

/-- Leader completeness: a leader of a later term agrees with everything an earlier leader
committed, at the moment it is elected and as long as it leads. -/
theorem leaders_complete (run : Execution (clusterSystem C)) (steady : Steady run) {j k : ℕ}
    {a b : NodeId} {before after core : Core} (hcommit : CommitsAt run j a before after)
    (hk : k ≤ run.length) (hat : coreAt (run.state k) b = some core) (hrole : core.role = .leader)
    (hlater : before.term < core.term) :
    AgreesUpTo after.log core.log after.commitIndex := by
  obtain ⟨ghost, hghost⟩ := steady.chronicled
  have hwithin := hcommit.within
  have hj := hghost.related j (by omega)
  have hj' := hghost.related (j + 1) (by omega)
  have hkb := hghost.related k hk
  have hlast := (hghost.related (max (j + 1) k) (by omega)).ghost
  have hextj := hghost.extends (le_max_left (j + 1) k) (by omega)
  have hextk := hghost.extends (le_max_right (j + 1) k) (by omega)
  -- the commit left a record of the term, which every later leader's opening log covers
  obtain ⟨r, hr, hrterm, hrindex⟩ := (hghost.steps j hwithin).raised a before after hcommit.start
    hcommit.finish hcommit.role hcommit.term hcommit.moved
  have hleada : (ghost (j + 1)).leader after.term = some a := by
    rw [hcommit.term]
    exact (hghost.extends (Nat.le_succ j) hwithin).book.leader _ _
      ((hj.cores a before hcommit.start).leader hcommit.role).leads
  have hleadb : (ghost k).leader core.term = some b := ((hkb.cores b core hat).leader hrole).leads
  have hrlast := hextj.book.records.subset hr
  have hcovered := hlast.inv.ledger.complete r hrlast core.term (by rw [hrterm]; exact hlater)
    (by rw [hextk.book.leader _ _ hleadb]; exact Option.some_ne_none _)
  have hsettled : (ghost (max (j + 1) k)).settled r =
      ((ghost (j + 1)).history after.term).take after.commitIndex := by
    obtain ⟨_, _, hok⟩ := hj'.ghost.inv.ledger.record_ok hr
    have hbound := hok.bound
    unfold Book.settled
    rw [hextj.book.take_history hbound, hrterm, hrindex, hcommit.term]
  rw [hsettled, hextk.book.opening _ (by rw [hleadb]; exact Option.some_ne_none _)] at hcovered
  have hcommitLen : after.commitIndex ≤ ((ghost (j + 1)).history after.term).length := by
    obtain ⟨_, _, hok⟩ := hj'.ghost.inv.ledger.record_ok hr
    have hbound := hok.bound
    rwa [hrterm, hrindex, ← hcommit.term] at hbound
  have hheld := hcovered.trans (hkb.ghost.inv.ledger.opening_prefix _
      (by rw [hleadb]; exact Option.some_ne_none _))
  exact agreesUpTo_of_held (chronicled_leader_log hghost (by omega) hcommit.finish hleada)
    (chronicled_leader_log hghost hk hat hleadb) hcommitLen hheld

theorem handover_commits {k i : ℕ} (hk : k < handoverRun.length) (hi : 0 < i)
    (hbefore : coreChecks (handoverRun.state k) 3 (fun core => core.role == .leader &&
      core.term == 1 && core.commitIndex == i - 1) = true)
    (hafter : coreChecks (handoverRun.state (k + 1)) 3 (fun core =>
      core.term == 1 && core.commitIndex == i) = true) :
    ∃ before after, CommitsAt handoverRun k 3 before after ∧ before.term = 1 ∧
      after.commitIndex = i := by
  obtain ⟨before, hstart, hb⟩ := exists_core hbefore
  obtain ⟨after, hfinish, ha⟩ := exists_core hafter
  simp only [Bool.and_eq_true, beq_iff_eq] at hb ha
  refine ⟨before, after, ⟨hk, hstart, hfinish, hb.1.1, ha.1.trans hb.1.2.symm, ?_⟩, hb.1.2, ha.2⟩
  omega

theorem handover_elected : ∃ core, coreAt (handoverRun.state handoverRun.length) 1 = some core ∧
    core.role = .leader ∧ core.term = 2 ∧ core.log.baseIndex = 2 := by
  obtain ⟨core, hat, hcheck⟩ := exists_core
    (show coreChecks (handoverRun.state handoverRun.length) 1 (fun core =>
      core.role == .leader && core.term == 2 && core.log.baseIndex == 2) = true by decide +kernel)
  simp only [Bool.and_eq_true, beq_iff_eq] at hcheck
  exact ⟨core, hat, hcheck.1.1, hcheck.1.2, hcheck.2⟩

theorem handover_leaders_complete : ∃ before after core, CommitsAt handoverRun 23 3 before after ∧
    after.commitIndex = 2 ∧ coreAt (handoverRun.state handoverRun.length) 1 = some core ∧
    core.role = .leader ∧ before.term < core.term ∧ AgreesUpTo after.log core.log 2 := by
  obtain ⟨before, after, hcommit, hterm, hindex⟩ := handover_commits (k := 23) (i := 2)
    (by decide) (by decide) (by decide +kernel) (by decide +kernel)
  obtain ⟨core, hat, hrole, hlater, _⟩ := handover_elected
  refine ⟨before, after, core, hcommit, hindex, hat, hrole, by omega, ?_⟩
  rw [← hindex]
  exact leaders_complete handoverRun handover_steady hcommit le_rfl hat hrole (by omega)

/-- A node that learnt of a later commit may have compacted its log beyond the committed
index before it becomes leader. -/
theorem leader_compacted_beyond_commit : Steady handoverRun ∧
    ∃ before after core, CommitsAt handoverRun 17 3 before after ∧
      leaderAt (handoverRun.state (handoverRun.length - 1)) 1 2 = false ∧
      coreAt (handoverRun.state handoverRun.length) 1 = some core ∧ core.role = .leader ∧
      before.term < core.term ∧ after.commitIndex < core.log.baseIndex := by
  refine ⟨handover_steady, ?_⟩
  obtain ⟨before, after, hcommit, hterm, hindex⟩ := handover_commits (k := 17) (i := 1)
    (by decide) (by decide) (by decide +kernel) (by decide +kernel)
  obtain ⟨core, hat, hrole, hlater, hbase⟩ := handover_elected
  exact ⟨before, after, core, hcommit, by decide +kernel, hat, hrole, by omega, by omega⟩

def MatchAt (s : Cluster) (n : NodeId) (core : Core) (peer : NodeId) (index : ℕ) : Prop :=
  coreAt s n = some core ∧ core.role = .leader ∧
    ∃ k, core.peers[k]? = some peer ∧ core.matchIndex k = index

/-- The disk holds what the leader believes, and its base agrees with the leader's log. -/
structure MatchHolds (log : Log) (disk : Disk) (index : ℕ) : Prop where
  agrees : AgreesUpTo log (diskLog disk) index
  base : ∀ t, recordedTerm log disk.snapshotIndex = some t → disk.snapshotTerm = t

theorem certified_history (h : GhostOk M g) {p : List Entry} {t : ℕ} (hp : g.Certified p (t + 1))
    (hled : g.leader t ≠ none) : p <+: g.history t := by
  rcases hp with rfl | ⟨r, hr, hlt, hpre⟩
  · exact List.nil_prefix
  · rcases Nat.lt_or_ge r.term t with hearlier | hge
    · exact hpre.trans ((h.inv.ledger.complete r hr t hearlier hled).trans
        (h.inv.ledger.opening_prefix t hled))
    · have hterm : r.term = t := by omega
      rw [← hterm]
      exact hpre.trans (List.take_prefix _ _)

/-- Match index soundness, at the moment the index is recorded and later, while the node
has not seen a later term. -/
theorem match_indices_sound (run : Execution (clusterSystem C))
    (covered : run.Meets fun s e => commitsCovered s e = true)
    (ready : run.Meets fun s e => electionsReady s e = true) {j k : ℕ} (hjk : j ≤ k)
    (hk : k ≤ run.length)
    {n peer : NodeId} {core : Core} {index : ℕ} (hmatch : MatchAt (run.state j) n core peer index)
    (hterm : ((run.state k).nodes peer).disk.term ≤ core.term) :
    MatchHolds core.log ((run.state k).nodes peer).disk index := by
  obtain ⟨ghost, hghost⟩ := exists_chronicled false true (Or.inr rfl) run fun i hi =>
    ⟨fun hf => Bool.noConfusion hf, fun hf => Bool.noConfusion hf, fun _ => covered i hi,
      fun _ => ready i hi⟩
  obtain ⟨hat, hrole, slot, hslot, hindex⟩ := hmatch
  have hj := hghost.related j (by omega)
  have hkrel := hghost.related k hk
  have hext := hghost.extends hjk hk
  have hleader := (hj.cores n core hat).leader hrole
  have hleads : (ghost j).leader core.term = some n := hleader.leads
  have hled : (ghost k).leader core.term ≠ none := by
    rw [hext.book.leader _ _ hleads]
    exact Option.some_ne_none _
  have hdisk := (hkrel.disks peer).durable
  have hnow : (ghost k).term peer ≤ core.term := by
    rw [hdisk.term_eq]
    exact hterm
  have hrep := chronicled_leader_log hghost (by omega) hat hleads
  -- what the node knows is part of the leader's history as well
  have hknown :=
      certified_history hkrel.ghost (certifiedBy_le (hkrel.ghost.inv.node peer).known_certified
      (by omega)) hled
  have hheld : index ≤ ((ghost j).history core.term).length ∧
      ((ghost j).history core.term).take index <+: (ghost k).log peer := by
    have hrecorded : MatchOk (ghost j) n core.term peer index := by
      rw [← hindex]
      exact hleader.matched slot peer hslot
    rcases hrecorded with hack | ⟨hpeer, hown⟩
    · have hle := hack.trans (hj.ghost.inv.ledger.ack_le peer core.term)
      refine ⟨hle, ?_⟩
      rw [← hext.book.take_history hle]
      apply (hkrel.ghost.inv.node peer).retain core.term index (hack.trans (hext.book.ack _ _))
      intro t hafter hbefore
      omega
    · have hlog : (ghost j).log n = (ghost j).history core.term := by
        have hcore := hj.cores n core hat
        have := (hj.ghost.inv.node n).leader_log (by rw [hcore.term_now]; exact hleads)
        rwa [hcore.term_now] at this
      have hle : index ≤ ((ghost j).history core.term).length := by
        rw [← hlog]
        exact hown.trans (hj.ghost.inv.node n).known_le
      refine ⟨hle, ?_⟩
      have hpeerNow : index ≤ (ghost k).known peer := hpeer.trans (hext.known peer)
      have hlenNow := (hkrel.ghost.inv.node peer).known_le
      have htake : ((ghost k).history core.term).take index =
          ((ghost k).log peer).take index := by
        have := take_eq_of_longer hknown (i := index) (by rw [List.length_take]; omega)
        rw [this, List.take_take, Nat.min_eq_left hpeerNow]
      rw [← hext.book.take_history hle, htake]
      exact List.take_prefix _ _
  obtain ⟨hle, hheld⟩ := hheld
  constructor
  · exact agreesUpTo_of_held hrep hdisk.log_rep hle hheld
  · intro t ht
    obtain ⟨hlen, hterm'⟩ := recordedTerm_of_represents hrep ht
    have hbase : ((run.state k).nodes peer).disk.snapshotIndex ≤ (ghost k).known peer := by
      rw [hdisk.known_eq]
      exact hdisk.base_le
    have hlenNow := (hkrel.ghost.inv.node peer).known_le
    have htake := take_eq_of_longer hknown
      (i := ((run.state k).nodes peer).disk.snapshotIndex) (by rw [List.length_take]; omega)
    rw [List.take_take, Nat.min_eq_left hbase, hext.book.take_history hlen] at htake
    have hown : ((run.state k).nodes peer).disk.snapshotTerm =
      endTerm (((ghost k).log peer).take ((run.state k).nodes peer).disk.snapshotIndex) :=
      hdisk.log_rep.baseTerm
    rw [hown, hterm', htake]

/-- Node 1, which the joint configuration elected, records match index 10 for the new voter 4. -/
theorem joint_election_match_sound :
    ∃ core, MatchAt (jointElectionRun.state jointElectionRun.length) 1 core 4 10 ∧
      ((jointElectionRun.state jointElectionRun.length).nodes 4).disk.term ≤ core.term ∧
      MatchHolds core.log ((jointElectionRun.state jointElectionRun.length).nodes 4).disk 10 := by
  obtain ⟨core, hat, hcheck⟩ := exists_core
    (show coreChecks (jointElectionRun.state jointElectionRun.length) 1 (fun core =>
      core.role == .leader && core.peers[3]? == some 4 && core.matchIndex 3 == 10 &&
        core.term == 2) = true by decide +kernel)
  simp only [Bool.and_eq_true, beq_iff_eq] at hcheck
  obtain ⟨⟨⟨hrole, hslot⟩, hindex⟩, hterm⟩ := hcheck
  have hmatch : MatchAt (jointElectionRun.state jointElectionRun.length) 1 core 4 10 :=
    ⟨hat, hrole, 3, hslot, hindex⟩
  have hdisk : ((jointElectionRun.state jointElectionRun.length).nodes 4).disk.term = 2 := by
    decide +kernel
  refine ⟨core, hmatch, by omega, ?_⟩
  exact match_indices_sound jointElectionRun jointElection_covered jointElection_ready le_rfl le_rfl
    hmatch (by omega)

/-- Node 3 takes the stale entry it committed into its snapshot before its leader hears
of the batch. -/
def staleSnapshot : List Event := staleSuffix ++ [.advance 3, .compact 3, deliverEvent 25]

def staleSnapshotRun : Execution (clusterSystem threeVoters) :=
  .ofEvents _ staleSnapshot (by decide +kernel)

/-- The match index is recorded for a node whose base disagrees with the leader's log. -/
theorem match_index_of_stale_snapshot :
    ∃ core, MatchAt (staleSnapshotRun.state staleSnapshotRun.length) 1 core 3 8 ∧
      ((staleSnapshotRun.state staleSnapshotRun.length).nodes 3).disk.term ≤ core.term ∧
      ¬MatchHolds core.log ((staleSnapshotRun.state staleSnapshotRun.length).nodes 3).disk 8 := by
  obtain ⟨core, hat, hcheck⟩ := exists_core
    (show coreChecks (staleSnapshotRun.state staleSnapshotRun.length) 1 (fun core =>
      core.role == .leader && core.peers[2]? == some 3 && core.matchIndex 2 == 8 &&
        core.term == 2 && recordedTerm core.log 9 == some 2) = true by decide +kernel)
  simp only [Bool.and_eq_true, beq_iff_eq] at hcheck
  obtain ⟨⟨⟨⟨hrole, hslot⟩, hindex⟩, hterm⟩, hentry⟩ := hcheck
  have hdisk : ((staleSnapshotRun.state staleSnapshotRun.length).nodes 3).disk.term = 2 ∧
      ((staleSnapshotRun.state staleSnapshotRun.length).nodes 3).disk.snapshotIndex = 9 ∧
      ((staleSnapshotRun.state staleSnapshotRun.length).nodes 3).disk.snapshotTerm = 1 := by
    decide +kernel
  refine ⟨core, ⟨hat, hrole, 2, hslot, hindex⟩, by omega, ?_⟩
  intro hholds
  have hbase := hholds.base 2 (by rw [hdisk.2.1]; exact hentry)
  omega

end RaftLogSafety
