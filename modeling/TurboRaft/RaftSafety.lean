import TurboRaft.RaftSimulation

/-! # Safety of cluster runs

What the chronicles say about the cores and disks of a run: committed entries agree and
terms have one leader. Both fail without the conditions on the steps, and the schedules
that show it are the ones the conditions exclude. -/
namespace RaftSafety

open RaftTypes RaftLog RaftCluster RaftLogLemmas RaftRefinement RaftSimulation ConfiguredLog
open Executions

variable {log : Log} {a b : List Entry} {index t : ℕ} {e : Entry} {upTo : ℕ}

variable {M : Mode} {C : ClusterConfig} {s : Cluster} {g : Ghost} {n : NodeId}

section Views

variable {full : List Entry} {source : Log}

/-- The node has the entry in the log of its running core or on its disk. -/
def HoldsEntry (s : Cluster) (n : NodeId) (index : ℕ) (e : Entry) : Prop :=
  (coreAt s n).bind (fun core => logGet core.log index) = some e ∨
    logGet (diskLog (s.nodes n).disk) index = some e

def committedGet (log : Log) (commitIndex index : ℕ) : Option Entry :=
  if index ≤ commitIndex then logGet log index else none

/-- The node holds the entry at or below its commit index. -/
def CommittedEntry (s : Cluster) (n : NodeId) (index : ℕ) (e : Entry) : Prop :=
  (coreAt s n).bind (fun core => committedGet core.log core.commitIndex index) = some e ∨
    committedGet (diskLog (s.nodes n).disk) (s.nodes n).disk.commitIndex index = some e

def leaderAt (s : Cluster) (n : NodeId) (term : ℕ) : Bool :=
  (coreAt s n).any fun core => core.role == .leader && core.term == term

/-- The term a log still knows for an index: of a retained entry or of its base. -/
def recordedTerm (log : Log) (index : ℕ) : Option ℕ :=
  if index == log.baseIndex then some log.baseTerm else (logGet log index).map Entry.term

/-- `log` reaches `upTo` and agrees with `source` at every index up to there: in the entry
where both retain it, and in the term where either only knows that. -/
structure AgreesUpTo (source log : Log) (upTo : ℕ) : Prop where
  reach : upTo ≤ logLastIndex log
  entries : ∀ index e e', index ≤ upTo → logGet source index = some e →
    logGet log index = some e' → e' = e
  terms : ∀ index t t', index ≤ upTo → recordedTerm source index = some t →
    recordedTerm log index = some t' → t' = t

theorem entry_of_represents (hrep : Represents log full)
    (h : logGet log index = some e) : 0 < index ∧ full[index - 1]? = some e := by
  rw [hrep.get] at h
  split_ifs at h with hbase
  exact ⟨by omega, h⟩

theorem recordedTerm_of_represents (hrep : Represents log full)
    (h : recordedTerm log index = some t) :
    index ≤ full.length ∧ t = endTerm (full.take index) := by
  unfold recordedTerm at h
  split_ifs at h with hbase
  · rw [beq_iff_eq] at hbase
    rw [hbase]
    exact ⟨hrep.base_le, (Option.some.inj h).symm.trans hrep.baseTerm⟩
  · obtain ⟨e, hget, hterm⟩ := Option.map_eq_some_iff.mp h
    obtain ⟨hpos, hat⟩ := entry_of_represents hrep hget
    obtain ⟨hlt, _⟩ := List.getElem?_eq_some_iff.mp hat
    obtain ⟨e', hat', hterm'⟩ := endTerm_take full hpos (by omega)
    have heq : e = e' := Option.some.inj (hat.symm.trans hat')
    exact ⟨by omega, by rw [← hterm, hterm', heq]⟩

theorem getElem?_eq_of_take {i : ℕ} (h : a.take upTo = b.take upTo) (hi : i < upTo) : a[i]? = b[i]? := by
  rw [← List.getElem?_take_of_lt hi, h, List.getElem?_take_of_lt hi]

theorem agreesUpTo_of_take (ha : Represents source a) (hb : Represents log b)
    (hreach : upTo ≤ b.length) (hsame : a.take upTo = b.take upTo) : AgreesUpTo source log upTo where
  reach := by rw [hb.lastIndex]; exact hreach
  entries index e e' hle he he' := by
    obtain ⟨hpos, hat⟩ := entry_of_represents ha he
    obtain ⟨_, hat'⟩ := entry_of_represents hb he'
    rw [getElem?_eq_of_take hsame (by omega)] at hat
    exact Option.some.inj (hat'.symm.trans hat)
  terms index t t' hle ht ht' := by
    have hterm := (recordedTerm_of_represents ha ht).2
    have hterm' := (recordedTerm_of_represents hb ht').2
    have htake : a.take index = b.take index := by
      have := congrArg (List.take index) hsame
      rwa [List.take_take, List.take_take, Nat.min_eq_left hle] at this
    rw [hterm, hterm', htake]

theorem agreesUpTo_of_held (ha : Represents source a) (hb : Represents log b)
    (hle : upTo ≤ a.length) (hheld : a.take upTo <+: b) : AgreesUpTo source log upTo := by
  have hlength : (a.take upTo).length = upTo := List.length_take_of_le hle
  apply agreesUpTo_of_take ha hb
  · rw [← hlength]
    exact hheld.length_le
  · rw [take_eq_of_longer hheld hlength.ge, List.take_take, Nat.min_self]

end Views

section Relation

variable (h : ClusterOk M s g)

include h

theorem holdsEntry_log (he : HoldsEntry s n index e) :
    0 < index ∧ (g.log n)[index - 1]? = some e := by
  rcases he with hcore | hdisk
  · obtain ⟨core, hat, hget⟩ := Option.bind_eq_some_iff.mp hcore
    exact entry_of_represents (h.cores n core hat).represents hget
  · exact entry_of_represents (h.disks n).durable.log_rep hdisk

theorem committedEntry_log (he : CommittedEntry s n index e) (ht : M.tracked = true) :
    0 < index ∧ ((g.log n).take (g.known n))[index - 1]? = some e := by
  have hlog : HoldsEntry s n index e ∧ index ≤ g.known n := by
    rcases he with hcore | hdisk
    · obtain ⟨core, hat, hget⟩ := Option.bind_eq_some_iff.mp hcore
      unfold committedGet at hget
      split_ifs at hget with hle
      refine ⟨Or.inl ?_, ?_⟩
      · rw [hat]
        exact hget
      · rw [(h.cores n core hat).known_commit, Mode.known, if_pos ht]
        exact hle
    · unfold committedGet at hdisk
      split_ifs at hdisk with hle
      refine ⟨Or.inr hdisk, ?_⟩
      rw [(h.disks n).durable.known_eq, Mode.known, if_pos ht]
      exact hle
  obtain ⟨hpos, hat⟩ := holdsEntry_log h hlog.1
  refine ⟨hpos, ?_⟩
  rw [List.getElem?_take_of_lt (by omega)]
  exact hat

theorem leaderAt_leads (hl : leaderAt s n t = true) : g.leader t = some n := by
  unfold leaderAt at hl
  rw [Option.any_eq_true] at hl
  obtain ⟨core, hat, hleader⟩ := hl
  simp only [Bool.and_eq_true, beq_iff_eq] at hleader
  rw [← hleader.2]
  exact ((h.cores n core hat).leader hleader.1).leads

end Relation

/-! Schedules are lists of events. Hosts acknowledge a Ready with `advance`. -/

def coreChecks (s : Cluster) (n : NodeId) (check : Core → Bool) : Bool := (coreAt s n).any check

theorem exists_core {check : Core → Bool} (h : coreChecks s n check = true) :
    ∃ core, coreAt s n = some core ∧ check core = true := by
  unfold coreChecks at h
  rwa [Option.any_eq_true] at h

def sampleSettings : Settings :=
  { heartbeatTicks := 1
    electionMinTicks := 5
    electionMaxTicks := 10
    maxLogEntries := 0
    maxPendingReads := 0
    maxInflightAppendRequests := 0 }

def threeVoters : ClusterConfig :=
  { voters := [1, 2, 3], learners := [], settings := fun _ => sampleSettings }

def tickEvent (node : NodeId) (elapsed : ℕ) : Event :=
  .call node (.tick { elapsedTicks := elapsed, nextElectionTimeoutTicks := 5 }) maxVoters

def proposeEvent (node : NodeId) (commands : List UInt64) : Event :=
  .call node (.propose (commands.map fun id => { commandId := id, data := [] })) maxVoters

def deliverEvent (position : ℕ) : Event := .deliver position maxVoters

/-- Node 3 is elected in term 1 with the vote of node 1. -/
def electNodeThree : List Event :=
  [.start 1 5 0, .start 2 5 0, .start 3 5 0, tickEvent 3 5, .advance 3, deliverEvent 0, .advance 1,
    deliverEvent 2, .advance 3, deliverEvent 3, .advance 1, deliverEvent 5, .advance 3]

/-- Node 3 commits two entries with node 1, which learns of it, compacts its log and is
elected in term 2 with the vote of node 2. -/
def handover : List Event :=
  electNodeThree ++
    [proposeEvent 3 [1], .advance 3, deliverEvent 8, .advance 1, deliverEvent 10, .advance 3,
      proposeEvent 3 [2], .advance 3, deliverEvent 11, .advance 1, deliverEvent 12, .advance 3,
      tickEvent 3 1, .advance 3, deliverEvent 13, .advance 1, .compact 1, tickEvent 1 5, .advance 1,
      deliverEvent 16, .advance 2, deliverEvent 18, .advance 1, deliverEvent 19, .advance 2,
      deliverEvent 21]

def handoverRun : Execution (clusterSystem threeVoters) :=
  .ofEvents _ handover (by decide +kernel)

theorem handover_steady :
    handoverRun.Meets fun _ e => changesMembership e = false ∧ installsSnapshot e = false :=
  Execution.ofEvents_forall _ (by decide +kernel)

theorem handover_covered : handoverRun.Meets fun s e => commitsCovered s e = true :=
  Execution.ofEvents_meets _ (by decide +kernel)

theorem entry_comparable {p q : List Entry} (h : p <+: q ∨ q <+: p) {i : ℕ} {e' : Entry}
    (he : p[i]? = some e) (he' : q[i]? = some e') : e = e' := by
  obtain ⟨hp, rfl⟩ := List.getElem?_eq_some_iff.mp he
  obtain ⟨hq, rfl⟩ := List.getElem?_eq_some_iff.mp he'
  exact h.elim (fun h => h.getElem hp) fun h => (h.getElem hq).symm

/-- State machine safety of runs without membership changes whose requests commit only
what they cover. The two nodes may hold their entries at different moments. -/
theorem committed_entries_agree (run : Execution (clusterSystem C))
    (steady : run.Meets fun _ e => changesMembership e = false)
    (covered : run.Meets fun s e => commitsCovered s e = true) {j k : ℕ} (hj : j ≤ run.length)
    (hk : k ≤ run.length) {a b : NodeId} {index : ℕ} {e e' : Entry}
    (ha : CommittedEntry (run.state j) a index e) (hb : CommittedEntry (run.state k) b index e') :
    e = e' := by
  obtain ⟨ghost, hghost⟩ := exists_chronicled true true (Or.inl rfl) run fun i hi =>
    ⟨fun _ => steady i hi, fun hf => Bool.noConfusion hf, fun _ => covered i hi,
      fun hf => Bool.noConfusion hf⟩
  exact entry_comparable (hghost.known_total hj hk a b)
    (committedEntry_log (hghost.related j hj) ha rfl).2
    (committedEntry_log (hghost.related k hk) hb rfl).2

theorem handover_entries_agree :
    CommittedEntry (handoverRun.state 18) 3 1 ⟨1, 1, 1, []⟩ ∧
      CommittedEntry (handoverRun.state 28) 1 1 ⟨1, 1, 1, []⟩ ∧
      (⟨1, 1, 1, []⟩ : Entry) = ⟨1, 1, 1, []⟩ := by
  have hleader : CommittedEntry (handoverRun.state 18) 3 1 ⟨1, 1, 1, []⟩ :=
    Or.inl (by decide +kernel)
  have hfollower : CommittedEntry (handoverRun.state 28) 1 1 ⟨1, 1, 1, []⟩ :=
    Or.inl (by decide +kernel)
  refine ⟨hleader, hfollower, ?_⟩
  exact committed_entries_agree handoverRun (handover_steady.imp fun _ _ h => h.1) handover_covered
    (by decide) (by decide) hleader hfollower

/-- Node 3 replicates eight entries and keeps the ninth for itself. Node 1 leads term 2
and commits another ninth entry, but its batches for node 3 start over with the first eight. -/
def staleSuffix : List Event :=
  electNodeThree ++
    [proposeEvent 3 [1, 2, 3, 4, 5, 6, 7, 8], .advance 3, proposeEvent 3 [9], .advance 3,
      deliverEvent 8, .advance 1, deliverEvent 9, .advance 2, tickEvent 1 5, .advance 1,
      deliverEvent 12, .advance 2, deliverEvent 14, .advance 1, deliverEvent 15, .advance 2,
      deliverEvent 17, .advance 1, proposeEvent 1 [109], .advance 1, deliverEvent 20, .advance 2,
      deliverEvent 22, .advance 1, tickEvent 1 1, .advance 1, deliverEvent 24]

def staleSuffixRun : Execution (clusterSystem threeVoters) :=
  .ofEvents _ staleSuffix (by decide +kernel)

/-- The follower commits up to its own last index, although the batch ends before the
entry it never agreed on. -/
theorem stale_suffix_committed :
    (staleSuffixRun.Meets fun _ e => changesMembership e = false) ∧
      CommittedEntry (staleSuffixRun.state staleSuffixRun.length) 3 9 ⟨9, 1, 9, []⟩ ∧
      CommittedEntry (staleSuffixRun.state staleSuffixRun.length) 1 9 ⟨9, 2, 109, []⟩ := by
  refine ⟨Execution.ofEvents_forall _ (by decide +kernel), ?_, ?_⟩
  · exact Or.inl (by decide +kernel)
  · exact Or.inl (by decide +kernel)

/-- Election safety of runs whose requests commit only what they cover and whose leaders
were ready to be elected; membership changes and snapshots are allowed. -/
theorem one_leader_per_term (run : Execution (clusterSystem C))
    (covered : run.Meets fun s e => commitsCovered s e = true)
    (ready : run.Meets fun s e => electionsReady s e = true) {j k : ℕ} (hj : j ≤ run.length)
    (hk : k ≤ run.length) {a b : NodeId} {term : ℕ} (ha : leaderAt (run.state j) a term = true)
    (hb : leaderAt (run.state k) b term = true) : a = b := by
  obtain ⟨ghost, hghost⟩ := exists_chronicled false true (Or.inr rfl) run fun i hi =>
    ⟨fun hf => Bool.noConfusion hf, fun hf => Bool.noConfusion hf, fun _ => covered i hi,
      fun _ => ready i hi⟩
  have hleada := (hghost.extends (le_max_left j k) (by omega)).book.leader _ _
    (leaderAt_leads (hghost.related j hj) ha)
  have hleadb := (hghost.extends (le_max_right j k) (by omega)).book.leader _ _
    (leaderAt_leads (hghost.related k hk) hb)
  exact Option.some.inj (hleada.symm.trans hleadb)

def threeVotersTwoLearners : ClusterConfig :=
  { threeVoters with learners := [4, 5] }

/-- Node 3 replaces voters 1 and 2 by the learners 4 and 5. It commits the joint configuration
and proposes the final one, before the others know of the commit. -/
def finalProposed : List Event :=
  [.start 1 5 0, .start 2 5 0, .start 3 5 0, .start 4 5 0, .start 5 5 0, tickEvent 3 5, .advance 3,
    deliverEvent 0, .advance 1, deliverEvent 2, .advance 3, deliverEvent 3, .advance 1,
    deliverEvent 5, .advance 3, proposeEvent 3 [1, 2, 3, 4, 5, 6, 7, 8], .advance 3,
    .call 3 (.changeMembership ⟨7, [3, 4, 5], [1, 2]⟩) maxVoters, .advance 3,
    deliverEvent 10, .advance 1, deliverEvent 11, .advance 2, deliverEvent 12, .advance 4,
    deliverEvent 13, .advance 5, deliverEvent 14, .advance 3, deliverEvent 15, .advance 3,
    deliverEvent 16, .advance 3, deliverEvent 17, .advance 3, deliverEvent 18, .advance 1,
    deliverEvent 19, .advance 2, deliverEvent 20, .advance 4, deliverEvent 21, .advance 5,
    deliverEvent 22, .advance 3, deliverEvent 24, .advance 3, deliverEvent 25, .advance 3,
    tickEvent 3 1, .advance 3]

/-- Nodes 1, 4 and 5 learn of the joint configuration's commit. The votes of nodes 2, 4 and 5
give node 1 a majority of the old and of the new voters, and node 4 answers its heartbeat. -/
def jointElection : List Event :=
  finalProposed ++
    [deliverEvent 26, .advance 1, deliverEvent 27, .advance 4, deliverEvent 28, .advance 5,
      tickEvent 1 5, .advance 1, deliverEvent 32, .advance 2, deliverEvent 34, .advance 4,
      deliverEvent 35, .advance 5, deliverEvent 36, deliverEvent 37, deliverEvent 38, .advance 1,
      deliverEvent 39, .advance 2, deliverEvent 41, .advance 4, deliverEvent 42, .advance 5,
      deliverEvent 43, deliverEvent 44, deliverEvent 45, .advance 1, deliverEvent 48, .advance 4,
      deliverEvent 50]

def jointElectionRun : Execution (clusterSystem threeVotersTwoLearners) :=
  .ofEvents _ jointElection (by decide +kernel)

theorem jointElection_covered : jointElectionRun.Meets fun s e => commitsCovered s e = true :=
  Execution.ofEvents_meets _ (by decide +kernel)

theorem jointElection_ready : jointElectionRun.Meets fun s e => electionsReady s e = true :=
  Execution.ofEvents_meets _ (by decide +kernel)

theorem joint_election_one_leader :
    changesMembership (jointElectionRun.event 17) = true ∧
      leaderAt (jointElectionRun.state 78) 1 2 = true ∧
      leaderAt (jointElectionRun.state jointElectionRun.length) 1 2 = true ∧ (1 : NodeId) = 1 := by
  have helected : leaderAt (jointElectionRun.state 78) 1 2 = true := by decide +kernel
  have hlast : leaderAt (jointElectionRun.state jointElectionRun.length) 1 2 = true := by
    decide +kernel
  refine ⟨rfl, helected, hlast, ?_⟩
  exact one_leader_per_term jointElectionRun jointElection_covered jointElection_ready (by decide)
    le_rfl helected hlast

/-- Nodes 4 and 5 get the final configuration but not its commit. A late heartbeat makes node 2
forget the joint one; elected by the old voters it commits past it, and its first batch lets nodes
4 and 5 commit the final configuration. After a restart they elect node 4, and nodes 1 and 2 elect
node 1. -/
def replacedVoters : List Event :=
  finalProposed ++
    [deliverEvent 27, .advance 4, deliverEvent 28, .advance 5,
      deliverEvent 7, .advance 2, tickEvent 2 5, .advance 2, deliverEvent 32, .advance 1,
      deliverEvent 34, .advance 2, deliverEvent 35, .advance 1, deliverEvent 37, .advance 2,
      proposeEvent 2 [109], .advance 2, deliverEvent 42, .advance 1, deliverEvent 46, .advance 2,
      tickEvent 2 1, .advance 2, deliverEvent 49, deliverEvent 50, .crash 4, .crash 5, .start 4 5 0,
      .start 5 5 0, tickEvent 4 5, .advance 4, deliverEvent 54, .advance 5, deliverEvent 55,
      .advance 4, deliverEvent 57, .advance 5, deliverEvent 58, .advance 4, tickEvent 1 5, .advance 1,
      deliverEvent 63, .advance 2, deliverEvent 65, .advance 1, deliverEvent 66, .advance 2,
      deliverEvent 68]

def replacedVotersRun : Execution (clusterSystem threeVotersTwoLearners) :=
  .ofEvents _ replacedVoters (by decide +kernel)

/-- Two leaders of term 3, one of the old voters and one of the new ones. -/
theorem two_leaders_of_one_term :
    leaderAt (replacedVotersRun.state replacedVotersRun.length) 1 3 = true ∧
      leaderAt (replacedVotersRun.state replacedVotersRun.length) 4 3 = true := by
  decide +kernel

end RaftSafety
