import TurboRaft.RaftCoreHistories
import TurboRaft.RaftSafety

/-! # Receipts of proposals

A proposal returns the term and the index of its entry, and a node answers from its own log what
has become of it. What a node calls committed stays so. What it calls lost is lost for good as
soon as the node has committed another entry in its place. -/
namespace RaftReceipts

open RaftTypes RaftLog RaftCore RaftCluster RaftLogLemmas RaftRefinement RaftCoreRuns RaftSafety
open RaftCoreHistories RaftSimulation Executions

variable {M : Mode} {C : ClusterConfig} {s s' : Cluster} {g g' : Ghost} {n : NodeId} {core : Core}
variable {term index : ℕ}

section Cores

variable {I : Core → Prop}

def EachCore (I : Core → Prop) (s : Cluster) : Prop := ∀ n core, coreAt s n = some core → I core

theorem EachCore.set (h : EachCore I s) {value : Node}
    (hvalue : ∀ core, value.core = some core → I core) : EachCore I (setNode s n value) := by
  intro a core hcore
  by_cases ha : a = n
  · subst ha
    apply hvalue
    simpa [coreAt, setNode] using hcore
  · apply h a
    simpa [coreAt, setNode, Function.update_of_ne ha] using hcore

theorem EachCore.settle (h : EachCore I s) {result : Status × Call}
    (hresult : I result.2.core) : EachCore I (settleCall s n result) := by
  obtain ⟨status, call⟩ := result
  have hset : ∀ disk, EachCore I (setNode s n { core := some call.core, disk }) :=
    fun disk => h.set fun core hcore => Option.some.inj hcore ▸ hresult
  cases status <;> exact hset _

theorem EachCore.step {I : Core → Prop}
    (hcreate : ∀ config core, coreCreate config = .ok core → I core)
    (hperform : ∀ core input, I core → I (perform core input).2.core) (h : EachCore I s) {e : Event}
    (hstep : clusterStep C s e = some s') : EachCore I s' := by
  -- the events that only hand an input to the core of a node
  have hmap : ∀ (node : NodeId) (f : Core → Core), (∀ core, I core → I (f core)) →
      ((s.nodes node).core.map fun core => setCore s node (f core)) = some s' → EachCore I s' := by
    intro node f hf hsome
    obtain ⟨core, hcore, rfl⟩ := Option.map_eq_some_iff.mp hsome
    exact h.set fun next hnext => Option.some.inj hnext ▸ hf core (h node core hcore)
  cases e with
  | start node timeout applied =>
    simp only [clusterStep] at hstep
    cases hcore : (s.nodes node).core with
    | some _ => simp [hcore] at hstep
    | none =>
      rw [hcore] at hstep
      cases hcreated : coreCreate (createConfig C node (s.nodes node).disk timeout applied) with
      | error status => simp [hcreated] at hstep
      | ok core =>
        rw [hcreated] at hstep
        cases hstep
        exact h.set fun next hnext => Option.some.inj hnext ▸ hcreate _ core hcreated
  | crash node =>
    cases hstep
    exact h.set fun core hcore => by cases hcore
  | deliver position capacity =>
    simp only [clusterStep] at hstep
    cases hmessage : s.network[position]? with
    | none => simp [hmessage] at hstep
    | some m =>
      rw [hmessage] at hstep
      obtain ⟨core, hcore, rfl⟩ := Option.map_eq_some_iff.mp hstep
      exact h.settle (hperform core (.step m capacity) (h m.toId core hcore))
  | call node operation capacity =>
    simp only [clusterStep] at hstep
    split_ifs at hstep
    obtain ⟨core, hcore, rfl⟩ := Option.map_eq_some_iff.mp hstep
    exact h.settle (hperform core (.call operation capacity) (h node core hcore))
  | ackReady node admitted => exact hmap node _ (fun core => hperform core (.ackReady admitted)) hstep
  | ackApplied node index => exact hmap node _ (fun core => hperform core (.ackApplied index)) hstep
  | advance node => exact hmap node _ (fun core => hperform core .advance) hstep
  | setPeerPaused node peer paused =>
    exact hmap node _ (fun core => hperform core (.setPeerPaused peer paused)) hstep
  | compact node =>
    simp only [clusterStep] at hstep
    cases hcore : (s.nodes node).core with
    | none => simp [hcore] at hstep
    | some core =>
      rw [hcore] at hstep
      have hkept : I (compactAtPoint core).2 := hperform core .compact (h node core hcore)
      unfold compactAtPoint at hkept
      cases hpoint : coreSnapshotPoint core with
      | error status => simp [hpoint] at hstep
      | ok point =>
        dsimp only at hstep
        rw [hpoint] at hkept hstep
        dsimp only at hkept hstep
        cases hcompact : coreCompact core point with
        | mk status compacted =>
          rw [hcompact] at hkept hstep
          cases status <;> cases hstep
          exact h.set fun next hnext => Option.some.inj hnext ▸ hkept
  | install position =>
    simp only [clusterStep] at hstep
    cases hoffer : s.offers[position]? with
    | none => simp [hoffer] at hstep
    | some offer =>
      rw [hoffer] at hstep
      dsimp only at hstep
      split_ifs at hstep
      cases hstep
      have hset : EachCore I (setNode s offer.toId
          { core := none, disk := installDisk (s.nodes offer.toId).disk offer }) :=
        h.set fun core hcore => by cases hcore
      exact hset

theorem cores_resting (run : Execution (clusterSystem C)) {k : ℕ} (hk : k ≤ run.length)
    (hcore : coreAt (run.state k) n = some core) : Resting core := by
  have hmeets : run.Meets fun _ _ => True := fun _ _ => trivial
  refine run.invariant hmeets (EachCore Resting) (fun _ _ hnone => by cases hnone) ?_ k hk n core hcore
  intro s e s' h _ hstep
  exact h.step (fun _ _ => coreCreate_resting) (fun _ input hresting => perform_resting hresting input)
    hstep

end Cores

section Answers

variable {status : OperationStatus} (hstatus : coreOperationStatus core term index = .ok status)

include hstatus

theorem operationStatus_cases :
    (index < core.log.baseIndex ∧ status.state = .expired) ∨
      (logLastIndex core.log < index ∧ status.state = .lost) ∨
      ∃ recorded, recordedTerm core.log index = some recorded ∧
        ((recorded ≠ term ∧ status.state = .lost) ∨
          (recorded = term ∧
            ((status.state = .applied ∧ (index = core.log.baseIndex ∨ index ≤ core.appliedIndex)) ∨
              (status.state = .committed ∧ index ≤ core.commitIndex) ∨
              (status.state = .pending ∧ core.commitIndex < index)))) := by
  unfold coreOperationStatus at hstatus
  split_ifs at hstatus with _ hexpired hbase hterm hbeyond
  · cases hstatus
    exact Or.inl ⟨hexpired, rfl⟩
  · -- the base only knows its term
    cases hstatus
    rw [beq_iff_eq] at hterm
    rw [recordedTerm, if_pos hbase]
    exact Or.inr (Or.inr ⟨_, rfl, Or.inr ⟨hterm.symm, Or.inl ⟨rfl, Or.inl (beq_iff_eq.mp hbase)⟩⟩⟩)
  · cases hstatus
    rw [beq_iff_eq] at hterm
    rw [recordedTerm, if_pos hbase]
    exact Or.inr (Or.inr ⟨_, rfl, Or.inl ⟨fun hsame => hterm hsame.symm, rfl⟩⟩)
  · cases hstatus
    exact Or.inr (Or.inl ⟨hbeyond, rfl⟩)
  · cases hentry : logGet core.log index with rw [hentry] at hstatus
    | none =>
      cases hstatus
    | some entry =>
      cases hstatus
      refine Or.inr (Or.inr ⟨entry.term, ?_, ?_⟩)
      · rw [recordedTerm, if_neg hbase, hentry, Option.map_some]
      unfold retainedState
      split_ifs with hterm happlied hcommitted
      · exact Or.inl ⟨bne_iff_ne.mp hterm, rfl⟩
      all_goals
        rw [bne_iff_ne, Decidable.not_not] at hterm
        refine Or.inr ⟨hterm, ?_⟩
      · exact Or.inl ⟨rfl, Or.inr happlied⟩
      · exact Or.inr (Or.inl ⟨rfl, hcommitted⟩)
      · exact Or.inr (Or.inr ⟨rfl, Nat.not_le.mp hcommitted⟩)

theorem operationStatus_settled (h : Resting core)
    (hsettled : status.state = .committed ∨ status.state = .applied) :
    index ≤ core.commitIndex ∧ recordedTerm core.log index = some term := by
  have happlied := h.applied_le.trans h.admitted_le
  have hbase := h.base_le.trans happlied
  rcases operationStatus_cases hstatus with ⟨_, hstate⟩ | ⟨_, hstate⟩ |
    ⟨recorded, hrecorded, ⟨_, hstate⟩ | ⟨rfl, hkept⟩⟩
  · simp [hstate] at hsettled
  · simp [hstate] at hsettled
  · simp [hstate] at hsettled
  · refine ⟨?_, hrecorded⟩
    rcases hkept with ⟨_, hindex | hindex⟩ | ⟨_, hindex⟩ | ⟨hstate, _⟩
    · exact hindex ▸ hbase
    · exact hindex.trans happlied
    · exact hindex
    · simp [hstate] at hsettled

/-- A node that calls an operation lost at or below its commit index has another one there. -/
theorem operationStatus_replaced (h : Resting core) (hlost : status.state = .lost)
    (hindex : index ≤ core.commitIndex) :
    ∃ recorded, recordedTerm core.log index = some recorded ∧ recorded ≠ term := by
  rcases operationStatus_cases hstatus with ⟨_, hstate⟩ | ⟨hbeyond, _⟩ |
    ⟨recorded, hrecorded, ⟨hother, _⟩ | ⟨_, hkept⟩⟩
  · rw [hlost] at hstate
    cases hstate
  · exact absurd (hindex.trans h.commit_le) (Nat.not_le.mpr hbeyond)
  · exact ⟨recorded, hrecorded, hother⟩
  · rcases hkept with ⟨hstate, _⟩ | ⟨hstate, _⟩ | ⟨hstate, _⟩ <;>
      · rw [hlost] at hstate
        cases hstate

theorem operationStatus_pending (hpending : status.state = .pending) : core.commitIndex < index := by
  rcases operationStatus_cases hstatus with ⟨_, hstate⟩ | ⟨_, hstate⟩ |
    ⟨_, _, ⟨_, hstate⟩ | ⟨_, ⟨hstate, _⟩ | ⟨hstate, _⟩ | ⟨_, hindex⟩⟩⟩
  case inr.inr.inr.inr.inr => exact hindex
  all_goals
    rw [hpending] at hstate
    cases hstate

end Answers

/-- A node has committed an entry of the term at the index, whether it still retains the entry or
only knows its term. -/
def CommittedTerm (s : Cluster) (n : NodeId) (index term : ℕ) : Prop :=
  (∃ core, coreAt s n = some core ∧ index ≤ core.commitIndex ∧
      recordedTerm core.log index = some term) ∨
    (index ≤ (s.nodes n).disk.commitIndex ∧
      recordedTerm (diskLog (s.nodes n).disk) index = some term)

theorem committedTerm_settled (h : ClusterOk M s g) (ht : M.tracked = true)
    (hcommitted : CommittedTerm s n index term) :
    index ≤ ((g.log n).take (g.known n)).length ∧
      term = endTerm (((g.log n).take (g.known n)).take index) := by
  have hlog : index ≤ g.known n ∧ index ≤ (g.log n).length ∧ term = endTerm ((g.log n).take index) := by
    rcases hcommitted with ⟨core, hcore, hindex, hrecorded⟩ | ⟨hindex, hrecorded⟩
    · have hok := h.cores n core hcore
      refine ⟨?_, recordedTerm_of_represents hok.durable.log_rep hrecorded⟩
      rw [hok.durable.known_eq, Mode.known, if_pos ht]
      exact hindex
    · have hok := h.disks n
      refine ⟨?_, recordedTerm_of_represents hok.durable.log_rep hrecorded⟩
      rw [hok.durable.known_eq, Mode.known, if_pos ht]
      exact hindex
  obtain ⟨hknown, hlength, hterm⟩ := hlog
  refine ⟨by rw [List.length_take]; omega, ?_⟩
  rw [List.take_take, Nat.min_eq_left hknown]
  exact hterm

theorem endTerm_comparable {p q : List Entry} (h : p <+: q ∨ q <+: p) (hp : index ≤ p.length)
    (hq : index ≤ q.length) : endTerm (p.take index) = endTerm (q.take index) := by
  rcases h with ⟨more, rfl⟩ | ⟨more, rfl⟩
  · rw [List.take_append_of_le_length hp]
  · rw [List.take_append_of_le_length hq]

section Final

variable {run : Execution (clusterSystem C)} {ghost : ℕ → Ghost} (h : Chronicled M run ghost)
  (ht : M.tracked = true)

include h ht

/-- At one index all nodes commit entries of one term, at whatever moments. -/
theorem committedTerm_agree {j k : ℕ} (hj : j ≤ run.length) (hk : k ≤ run.length) {a b : NodeId}
    {t u : ℕ} (ha : CommittedTerm (run.state j) a index t)
    (hb : CommittedTerm (run.state k) b index u) : t = u := by
  obtain ⟨hlengtha, rfl⟩ := committedTerm_settled (h.related j hj) ht ha
  obtain ⟨hlengthb, rfl⟩ := committedTerm_settled (h.related k hk) ht hb
  exact endTerm_comparable (h.known_total hj hk a b) hlengtha hlengthb

/-- The commit index of a node never falls, not even in a restart. -/
theorem commitIndex_mono {j k : ℕ} (hjk : j ≤ k) (hk : k ≤ run.length) {later : Core}
    (hcore : coreAt (run.state j) n = some core) (hlater : coreAt (run.state k) n = some later) :
    core.commitIndex ≤ later.commitIndex := by
  have hknown := (h.extends hjk hk).known n
  have hearly := ((h.related j (by omega)).cores n core hcore).durable.known_eq
  have hlate := ((h.related k hk).cores n later hlater).durable.known_eq
  rw [hearly, hlate, Mode.known, Mode.known, if_pos ht, if_pos ht] at hknown
  exact hknown

end Final

/-- Receipts are final in runs without membership changes whose requests commit only what they
cover: committed stays committed, and an operation that a node calls lost after it has committed
another one in its place is committed nowhere. -/
theorem receipts_final (run : Execution (clusterSystem C))
    (steady : run.Meets fun _ e => changesMembership e = false)
    (covered : run.Meets fun s e => commitsCovered s e = true) {j k : ℕ} (hjk : j ≤ k)
    (hk : k ≤ run.length) {status : OperationStatus} (hcore : coreAt (run.state j) n = some core)
    (hstatus : coreOperationStatus core term index = .ok status) :
    ((status.state = .committed ∨ status.state = .applied) →
        ∀ later status', coreAt (run.state k) n = some later →
          coreOperationStatus later term index = .ok status' →
            status'.state ≠ .pending ∧ status'.state ≠ .lost) ∧
      (status.state = .lost → index ≤ core.commitIndex →
        ∀ b, ¬ CommittedTerm (run.state k) b index term) := by
  obtain ⟨ghost, hghost⟩ := exists_chronicled true true (Or.inl rfl) run fun i hi =>
    ⟨fun _ => steady i hi, fun hf => Bool.noConfusion hf, fun _ => covered i hi,
      fun hf => Bool.noConfusion hf⟩
  have hj : j ≤ run.length := hjk.trans hk
  have hresting := cores_resting run hj hcore
  constructor
  · intro hsettled later status' hlater hstatus'
    obtain ⟨hindex, hrecorded⟩ := operationStatus_settled hstatus hresting hsettled
    have hreached : index ≤ later.commitIndex :=
      hindex.trans (commitIndex_mono hghost rfl hjk hk hcore hlater)
    constructor
    · intro hpending
      exact absurd hreached (Nat.not_le.mpr (operationStatus_pending hstatus' hpending))
    · intro hlost
      obtain ⟨recorded, hother, hne⟩ :=
        operationStatus_replaced hstatus' (cores_resting run hk hlater) hlost hreached
      exact hne (committedTerm_agree hghost rfl hk hj (Or.inl ⟨later, hlater, hreached, hother⟩)
        (Or.inl ⟨core, hcore, hindex, hrecorded⟩))
  · intro hlost hindex b hcommitted
    obtain ⟨recorded, hother, hne⟩ := operationStatus_replaced hstatus hresting hlost hindex
    exact hne (committedTerm_agree hghost rfl hj hk (Or.inl ⟨core, hcore, hindex, hother⟩) hcommitted)

def reports (s : Cluster) (n : NodeId) (term index : ℕ) (state : OperationState) : Bool :=
  coreChecks s n fun core =>
    match coreOperationStatus core term index with
    | .ok status => status.state == state
    | .error _ => false

theorem exists_report {state : OperationState} (h : reports s n term index state = true) :
    ∃ core status, coreAt s n = some core ∧ coreOperationStatus core term index = .ok status ∧
      status.state = state := by
  obtain ⟨core, hcore, hcheck⟩ := exists_core h
  cases hstatus : coreOperationStatus core term index with
  | error status => simp [hstatus] at hcheck
  | ok status =>
    rw [hstatus] at hcheck
    exact ⟨core, status, hcore, hstatus, beq_iff_eq.mp hcheck⟩

def replacedEntryRun : Execution (clusterSystem threeVoters) :=
  .ofEvents _ staleSuffix.dropLast (by decide +kernel)

/-- Node 3 reports the first proposal of the handover as committed and does not take it back. Node
1 reports an entry as lost that it has replaced, and nobody has committed it. -/
theorem handover_receipt_final :
    (reports (handoverRun.state 18) 3 1 1 .committed = true ∧
        reports (handoverRun.state 30) 3 1 1 .pending = false ∧
        reports (handoverRun.state 30) 3 1 1 .lost = false) ∧
      reports (replacedEntryRun.state 36) 1 1 9 .lost = true ∧
      ¬ CommittedTerm (replacedEntryRun.state replacedEntryRun.length) 3 9 1 := by
  constructor
  · have hearly : reports (handoverRun.state 18) 3 1 1 .committed = true := by decide +kernel
    obtain ⟨core, status, hcore, hstatus, hstate⟩ := exists_report hearly
    have hfinal := (receipts_final handoverRun (handover_steady.imp fun _ _ h => h.1)
      handover_covered (k := 30) (by decide) (by decide) hcore hstatus).1 (Or.inl hstate)
    refine ⟨hearly, Bool.eq_false_iff.mpr fun hpending => ?_, Bool.eq_false_iff.mpr fun hlost => ?_⟩
    · obtain ⟨later, status', hlater, hstatus', hstate'⟩ := exists_report hpending
      exact (hfinal later status' hlater hstatus').1 hstate'
    · obtain ⟨later, status', hlater, hstatus', hstate'⟩ := exists_report hlost
      exact (hfinal later status' hlater hstatus').2 hstate'
  · have hlost : reports (replacedEntryRun.state 36) 1 1 9 .lost = true := by decide +kernel
    have hcommit : coreChecks (replacedEntryRun.state 36) 1 (fun core =>
        decide (9 ≤ core.commitIndex)) = true := by decide +kernel
    obtain ⟨core, status, hcore, hstatus, hstate⟩ := exists_report hlost
    obtain ⟨same, hsame, hindex⟩ := exists_core hcommit
    cases hcore.symm.trans hsame
    exact ⟨hlost, (receipts_final replacedEntryRun (Execution.ofEvents_forall _ (by decide +kernel))
      (Execution.ofEvents_meets _ (by decide +kernel)) (by decide) le_rfl hcore hstatus).2 hstate
      (of_decide_eq_true hindex) 3⟩

/-- A follower that has not received an entry yet calls it lost, above its commit index. And a
leader that has committed another entry calls the old one lost, which a follower then commits
because of a request that does not cover it. -/
theorem lost_entries_committed :
    (handoverRun.event 13 = proposeEvent 3 [1] ∧
        reports (handoverRun.state 14) 3 1 1 .pending = true ∧
        reports (handoverRun.state 14) 1 1 1 .lost = true ∧
        CommittedTerm (handoverRun.state 18) 3 1 1) ∧
      (staleSuffixRun.event 15 = proposeEvent 3 [9] ∧
        reports (staleSuffixRun.state 16) 3 1 9 .pending = true ∧
        reports (staleSuffixRun.state 36) 1 1 9 .lost = true ∧
        CommittedTerm (staleSuffixRun.state staleSuffixRun.length) 3 9 1) := by
  have hcommitted : ∀ {s : Cluster} {n : NodeId} {index term : ℕ},
      (coreChecks s n fun core => decide (index ≤ core.commitIndex) &&
        recordedTerm core.log index == some term) = true → CommittedTerm s n index term := by
    intro s n index term h
    obtain ⟨core, hcore, hcheck⟩ := exists_core h
    rw [Bool.and_eq_true, decide_eq_true_eq, beq_iff_eq] at hcheck
    exact Or.inl ⟨core, hcore, hcheck.1, hcheck.2⟩
  refine ⟨⟨rfl, ?_, ?_, hcommitted ?_⟩, ⟨rfl, ?_, ?_, hcommitted ?_⟩⟩
  all_goals decide +kernel

end RaftReceipts
