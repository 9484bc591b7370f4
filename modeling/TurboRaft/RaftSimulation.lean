import TurboRaft.RaftRecovery

/-! # Every cluster event is a sequence of chronicle actions

One event moves one node. The refinement relation survives it, together with what the
event did to the commit index of a leader, and so every run of a cluster has a chronicle
next to it. -/
namespace RaftSimulation

open RaftTypes RaftConfiguration RaftMembership RaftCoreState RaftCore RaftCluster
open RaftConfigurationLemmas RaftCallRefinement RaftFollowerProgress RaftOperations RaftRecovery
open RaftRefinement ConfiguredLog Replication Executions Function

variable {M : Mode} {n : NodeId} {g g' : Ghost} {C : ClusterConfig} {s s' : Cluster}

/-- The refinement relation. -/
structure ClusterOk (M : Mode) (s : Cluster) (g : Ghost) : Prop where
  ghost : GhostOk M g
  disks : ∀ n, DiskOk M g n (s.nodes n).disk
  cores : ∀ n core, (s.nodes n).core = some core → CoreOk M g n (coreView core)
  durable : ∀ n core, (s.nodes n).core = some core → Durable (s.nodes n).disk core
  network : ∀ m ∈ s.network, MsgOk M g m
  offers : ∀ o ∈ s.offers, OfferOk M g o
  installed : ∀ p ∈ s.installed, p.2 ≤ g.known p.1

def changesMembership : Event → Bool
  | .call _ (.changeMembership _) _ => true
  | _ => false

def installsSnapshot : Event → Bool
  | .install _ => true
  | _ => false

/-- A delivered replication request does not commit beyond the entries it covers. -/
def commitsCovered (s : Cluster) : Event → Bool
  | .deliver position _ =>
    match s.network[position]? with
    | none => true
    | some m =>
      match coreAt s m.toId with
      | none => true
      | some core =>
        if m.type == .heartbeatRequest || m.type == .appendRequest then commitCovered core m
        else true
  | _ => true

/-- A node that wins an election knows the configurations in its log and has at most one
of them above its commit index. -/
def electionsReady (s : Cluster) : Event → Bool
  | .deliver position _ =>
    match s.network[position]? with
    | none => true
    | some m => (coreAt s m.toId).all fun core => !messageElects core m || electionReady core
  | .call node operation _ =>
    (coreAt s node).all fun core => !operationElects core operation || electionReady core
  | _ => true

structure StepOk (M : Mode) (s : Cluster) (g : Ghost) (s' : Cluster) (g' : Ghost) : Prop where
  advance : ∃ n, Advance M n g g'
  raised : ∀ n core core', coreAt s n = some core → coreAt s' n = some core' → Raised g' core core'

section Node

variable {node : Node}

theorem ClusterOk.act (h : ClusterOk M s g) (hadv : Advance M n g g')
    (hnodes : s'.nodes = update s.nodes n node) (hdisk : DiskOk M g' n node.disk)
    (hcore : ∀ core, node.core = some core → CoreOk M g' n (coreView core) ∧ Durable node.disk core)
    (hnetwork : ∀ m ∈ s'.network, m ∈ s.network ∨ MsgOk M g' m)
    (hoffers : ∀ o ∈ s'.offers, o ∈ s.offers ∨ OfferOk M g' o)
    (hinstalled : ∀ p ∈ s'.installed, p ∈ s.installed ∨ p.2 ≤ g'.known p.1) :
    ClusterOk M s' g' := by
  have hsame : s'.nodes n = node := by rw [hnodes, update_self]
  have hother : ∀ m, m ≠ n → s'.nodes m = s.nodes m := by
    intro m hm
    rw [hnodes, update_of_ne hm]
  constructor
  case ghost => exact hadv.ok
  case disks =>
    intro m
    by_cases hm : m = n
    · subst hm
      rw [hsame]
      exact hdisk
    · rw [hother m hm]
      exact (h.disks m).untouched (hadv.others m hm)
  case cores =>
    intro m core hat
    by_cases hm : m = n
    · subst hm
      rw [hsame] at hat
      exact (hcore core hat).1
    · rw [hother m hm] at hat
      exact (h.cores m core hat).untouched hadv hm
  case durable =>
    intro m core hat
    by_cases hm : m = n
    · subst hm
      rw [hsame] at hat ⊢
      exact (hcore core hat).2
    · rw [hother m hm] at hat ⊢
      exact h.durable m core hat
  case network =>
    intro m hm
    exact (hnetwork m hm).elim (fun hold => (h.network m hold).extend hadv.ext) id
  case offers =>
    intro o ho
    exact (hoffers o ho).elim (fun hold => (h.offers o hold).extend hadv.ext) id
  case installed =>
    intro p hp
    exact (hinstalled p hp).elim (fun hold => (h.installed p hold).trans (hadv.ext.known p.1)) id

theorem StepOk.of_act (hadv : Advance M n g g')
    (hnodes : s'.nodes = update s.nodes n node)
    (hraised : ∀ core core', coreAt s n = some core → node.core = some core' →
      Raised g' core core') : StepOk M s g s' g' := by
  refine ⟨⟨n, hadv⟩, ?_⟩
  intro m core core' hbefore hafter
  unfold coreAt at hafter
  by_cases hm : m = n
  · subst hm
    rw [hnodes, update_self] at hafter
    exact hraised core core' hbefore hafter
  · rw [hnodes, update_of_ne hm] at hafter
    have heq : core = core' := Option.some.inj (hbefore.symm.trans hafter)
    rw [heq]
    exact .refl g' core'

theorem ClusterOk.setNode (h : ClusterOk M s g) (hdisk : DiskOk M g n node.disk)
    (hcore : ∀ core, node.core = some core → CoreOk M g n (coreView core) ∧ Durable node.disk core)
    (hraised : ∀ core core', coreAt s n = some core → node.core = some core' →
      Raised g core core') :
    StepOk M s g (setNode s n node) g ∧ ClusterOk M (setNode s n node) g :=
  ⟨.of_act (.refl h.ghost n) rfl hraised, h.act (.refl h.ghost n) rfl hdisk hcore
    (fun _ => Or.inl) (fun _ => Or.inl) fun _ => Or.inl⟩

theorem ClusterOk.setCore (h : ClusterOk M s g) {core core' : Core}
    (hat : (s.nodes n).core = some core) (hview : coreView core' = coreView core) :
    StepOk M s g (setCore s n core') g ∧ ClusterOk M (setCore s n core') g := by
  have hlog : core'.log = core.log := congrArg CoreView.log hview
  have hcommit : core'.commitIndex = core.commitIndex := congrArg CoreView.commitIndex hview
  have hd := h.durable n core hat
  refine h.setNode (h.disks n) ?_ ?_
  · intro after hafter
    cases hafter
    constructor
    · rw [hview]
      exact h.cores n core hat
    · exact ⟨hd.term.trans (congrArg CoreView.term hview).symm,
        hd.votedFor.trans (congrArg CoreView.votedFor hview).symm, by rw [hlog]; exact hd.entries,
        by rw [hlog]; exact hd.base, by rw [hlog]; exact hd.baseTerm,
        by rw [hcommit]; exact hd.commit⟩
  · intro before after hbefore hafter
    cases hat.symm.trans hbefore
    cases hafter
    intro _ _ hlt
    omega

end Node

/-- The configuration at an index the node has certified, or that never changes, stays. -/
theorem conf_kept (h : GhostOk M g) (h' : GhostOk M g') (hx : g.Extends g') {index : ℕ}
    (hindex : M.tracked = true → index ≤ g.known n) :
    M.scheme.conf ((g'.log n).take index) = M.scheme.conf ((g.log n).take index) := by
  by_cases ht : M.tracked = true
  · have hle := hindex ht
    have hlen := (h.inv.node n).known_le
    have hkept := known_kept h h' hx n
    congr 1
    have htake : (g.log n).take index = ((g.log n).take (g.known n)).take index := by
      rw [List.take_take, Nat.min_eq_left hle]
    rw [htake]
    exact take_eq_of_longer hkept (by rw [List.length_take]; omega)
  · have hfixed := M.follows.resolve_right ht
    rw [M.conf_plain (confPairs_shorten (List.take_prefix _ _) (h'.log_plain hfixed n)),
      M.conf_plain (confPairs_shorten (List.take_prefix _ _) (h.log_plain hfixed n))]

theorem offerOf_ok (h : GhostOk M g) {disk : Disk} (hdisk : DiskOk M g n disk)
    {request : SnapshotRequest} (hrequest : SnapshotOk g n request) {o : SnapshotOffer}
    (ho : offerOf n disk request = some o) : OfferOk M g o := by
  unfold offerOf at ho
  split_ifs at ho with hheld
  simp only [Bool.and_eq_true, beq_iff_eq] at hheld
  obtain ⟨c, hc, rfl⟩ := Option.map_eq_some_iff.mp ho
  have hrep := hdisk.durable.log_rep
  refine ⟨hrequest.leader, hrequest.other, ?_⟩
  intro ht
  have hknown : g.known n = disk.commitIndex := by
    rw [hdisk.durable.known_eq, Mode.known, if_pos ht]
  have hle : disk.snapshotIndex ≤ disk.commitIndex := hdisk.durable.base_le
  refine ⟨(g.log n).take disk.snapshotIndex, ?_, ?_, ?_, ?_⟩
  · rw [hrequest.term]
    apply certifiedBy_shorten (h.inv.node n).known_certified
    exact List.take_prefix_take_left (by omega)
  · rw [hheld.1]
    exact List.length_take_of_le hrep.base_le
  · rw [hheld.2]
    exact hrep.baseTerm.symm
  · exact (hdisk.configured c hc).symm

theorem ClusterOk.settleCall (h : ClusterOk M s g) {core : Core}
    (hat : (s.nodes n).core = some core) {result : Status × Call}
    (hsettled : Settled M g n (s.nodes n).disk core result) :
    ∃ g', StepOk M s g (settleCall s n result) g' ∧ ClusterOk M (settleCall s n result) g' := by
  have hdisk := h.disks n
  cases hsettled with
  | @done call g' hadv hok hdurable hmessages hrequests hraised =>
    have hcertified : M.tracked = true → (s.nodes n).disk.snapshotIndex ≤ g.known n := by
      intro ht
      rw [hdisk.durable.known_eq, Mode.known, if_pos ht]
      exact hdisk.durable.base_le
    have hconf := conf_kept h.ghost hadv.ok hadv.ext hcertified
    have hpersisted : DiskOk M g' n (persistReady (s.nodes n).disk call.ready) := by
      apply hok.diskOk hdurable hdisk.fresh
      intro c hc
      rw [hdisk.configured c hc]
      exact hconf.symm
    refine ⟨g', ?_, ?_⟩
    · apply StepOk.of_act hadv rfl
      intro before after hbefore hafter
      cases hat.symm.trans hbefore
      cases hafter
      exact hraised
    · apply h.act hadv rfl hpersisted
      · intro after hafter
        cases hafter
        exact ⟨hok, hdurable⟩
      · intro m hm
        exact (List.mem_append.mp hm).imp id (hmessages m)
      · intro o ho
        refine (List.mem_append.mp ho).imp id fun hnew => ?_
        obtain ⟨r, hr, hofr⟩ := List.mem_filterMap.mp hnew
        exact offerOf_ok hadv.ok hpersisted (hrequests r hr) hofr
      · exact fun p hp => Or.inl hp
  | @failed status call hstatus hview =>
    have hfailed : RaftCluster.settleCall s n (status, call) =
        RaftCluster.setCore s n call.core := by
      cases status with
      | ok => exact absurd rfl hstatus
      | _ => rfl
    rw [hfailed]
    exact ⟨g, h.setCore hat hview⟩

section Events

theorem coreCompact_commit {core compacted : Core} {point : SnapshotPoint} {status : Status}
    (h : coreCompact core point = (status, compacted)) :
    compacted.commitIndex = core.commitIndex := by
  rcases coreCompact_outcome core point with ⟨_, hsame⟩ | ⟨_, _, hok⟩
  · rw [h] at hsame
    exact congrArg Core.commitIndex hsame
  · cases h.symm.trans hok
    rfl

variable (hstable : ∀ c, membershipStable C.voters C.learners = .ok c → c = M.initial)

include hstable

theorem ClusterOk.step (h : ClusterOk M s g) {e : Event}
    (hmembership : M.fixed = true → changesMembership e = false)
    (hsnapshot : M.tracked = false → installsSnapshot e = false)
    (hcovered : M.tracked = true → commitsCovered s e = true)
    (hready : M.fixed = false → electionsReady s e = true) (hstep : clusterStep C s e = some s') :
    ∃ g', StepOk M s g s' g' ∧ ClusterOk M s' g' := by
  cases e with
  | start node timeout applied =>
    simp only [clusterStep] at hstep
    cases hat : (s.nodes node).core with
    | some core => simp [hat] at hstep
    | none =>
      simp only [hat] at hstep
      cases hcreate : coreCreate (createConfig C node (s.nodes node).disk timeout applied) with
      | error status => simp [hcreate] at hstep
      | ok core =>
        simp only [hcreate, Option.some.injEq] at hstep
        obtain ⟨hcore, hdurable⟩ := diskOk_create h.ghost (h.disks node) hstable hcreate
        subst hstep
        refine ⟨g, h.setNode (h.disks node) ?_ ?_⟩
        · intro after hafter
          cases hafter
          exact ⟨hcore, hdurable⟩
        · intro before after hbefore _
          cases hat.symm.trans hbefore
  | crash node =>
    cases hstep
    refine ⟨g, h.setNode (h.disks node) ?_ ?_⟩
    · intro _ hafter
      cases hafter
    · intro _ _ _ hafter
      cases hafter
  | deliver position capacity =>
    simp only [clusterStep] at hstep
    cases hmessage : s.network[position]? with
    | none => simp [hmessage] at hstep
    | some m =>
      simp only [hmessage] at hstep
      obtain ⟨core, hat, hsettle⟩ := Option.map_eq_some_iff.mp hstep
      have hsettled : Settled M g m.toId (s.nodes m.toId).disk core (coreStep core m capacity) := by
        apply coreStep_settled h.ghost (h.cores _ core hat) (h.durable _ core hat)
          (h.network m (List.mem_of_getElem? hmessage))
        · intro ht htype
          have hcov := hcovered ht
          have hat' : coreAt s m.toId = some core := hat
          simp only [commitsCovered, hmessage, hat'] at hcov
          rwa [if_pos (by simpa using htype)] at hcov
        · intro hfixed helects
          have hallowed := hready hfixed
          have hat' : coreAt s m.toId = some core := hat
          simpa [electionsReady, hmessage, hat', helects] using hallowed
      subst hsettle
      exact h.settleCall hat hsettled
  | call node operation capacity =>
    simp only [clusterStep] at hstep
    split_ifs at hstep with henabled
    obtain ⟨core, hat, hsettle⟩ := Option.map_eq_some_iff.mp hstep
    have hsettled : Settled M g node (s.nodes node).disk core
        (performOperation core operation capacity) := by
      apply performOperation_settled h.ghost (h.cores _ core hat) (h.durable _ core hat)
      · intro change hoperation
        by_contra hfixed
        have hstays := hmembership (by simpa using hfixed)
        rw [hoperation] at hstays
        cases hstays
      · intro nodeId index hoperation hbase
        have hindex : index ≤ g.known nodeId := by
          rw [hoperation] at henabled
          exact h.installed (nodeId, index) (by simpa [operationEnabled] using henabled)
        refine Or.inr ⟨hindex, ?_⟩
        have hc := h.cores _ core hat
        have hle := hc.base_le_commit
        rw [hc.known_commit]
        rw [(h.disks nodeId).durable.known_eq] at hindex
        unfold Mode.known at hindex ⊢
        split_ifs at hindex ⊢ <;> omega
      · intro hfixed helects
        have hallowed := hready hfixed
        have hat' : coreAt s node = some core := hat
        simpa [electionsReady, hat', helects] using hallowed
    subst hsettle
    exact h.settleCall hat hsettled
  | ackReady node admitted =>
    obtain ⟨core, hat, rfl⟩ := Option.map_eq_some_iff.mp hstep
    exact ⟨g, h.setCore hat (coreAckReady_view core admitted)⟩
  | ackApplied node index =>
    obtain ⟨core, hat, rfl⟩ := Option.map_eq_some_iff.mp hstep
    exact ⟨g, h.setCore hat (coreAckApplied_view core index)⟩
  | advance node =>
    obtain ⟨core, hat, rfl⟩ := Option.map_eq_some_iff.mp hstep
    exact ⟨g, h.setCore hat (coreAdvance_view core)⟩
  | setPeerPaused node peer paused =>
    obtain ⟨core, hat, rfl⟩ := Option.map_eq_some_iff.mp hstep
    exact ⟨g, h.setCore hat (coreSetPeerPaused_view core peer paused)⟩
  | compact node =>
    simp only [clusterStep] at hstep
    cases hat : (s.nodes node).core with
    | none => simp [hat] at hstep
    | some core =>
      simp only [hat] at hstep
      cases hpoint : coreSnapshotPoint core with
      | error status => simp [hpoint] at hstep
      | ok point =>
        simp only [hpoint] at hstep
        cases hcompact : coreCompact core point with
        | mk status compacted =>
          cases status with
          | ok =>
            simp only [hcompact, Option.some.injEq] at hstep
            subst hstep
            obtain ⟨hcore, hdurable, hdisk⟩ :=
              coreOk_compact (h.cores _ core hat) (h.durable _ core hat) hpoint hcompact
            refine ⟨g, h.setNode hdisk ?_ ?_⟩
            · intro after hafter
              cases hafter
              exact ⟨hcore, hdurable⟩
            · intro before after hbefore hafter
              cases hat.symm.trans hbefore
              cases hafter
              intro _ _ hlt
              have hsame := coreCompact_commit hcompact
              omega
          | _ => simp [hcompact] at hstep
  | install position =>
    have htracked : M.tracked = true := by
      by_contra huntracked
      cases hsnapshot (by simpa using huntracked)
    simp only [clusterStep] at hstep
    cases hoffer : s.offers[position]? with
    | none => simp [hoffer] at hstep
    | some o =>
      simp only [hoffer] at hstep
      split_ifs at hstep with hrefused
      cases hstep
      obtain ⟨g', hadv, hdisk, hknown⟩ := diskOk_install h.ghost (h.disks o.toId) htracked
        (h.offers o (List.mem_of_getElem? hoffer)) rfl (by simpa using hrefused)
      refine ⟨g', ?_, ?_⟩
      · apply StepOk.of_act hadv rfl
        intro _ _ _ hafter
        cases hafter
      · apply h.act hadv rfl hdisk
        · intro _ hafter
          cases hafter
        · exact fun m hm => Or.inl hm
        · exact fun o ho => Or.inl ho
        · intro p hp
          rcases List.mem_cons.mp hp with rfl | hp
          · exact Or.inr hknown
          · exact Or.inl hp

end Events

def soloConf : Conf :=
  { phase := .final, transitionId := 0, members := [{ nodeId := 1, roles := confVoterRoles }] }

def initialConf (C : ClusterConfig) : Conf :=
  match membershipStable C.voters C.learners with
  | .ok configuration => configuration
  | .error _ => soloConf

theorem initialConf_ok (C : ClusterConfig) :
    confValidate (initialConf C) = .ok ∧ (initialConf C).phase = .final := by
  unfold initialConf
  cases hstable : membershipStable C.voters C.learners with
  | error status => exact ⟨(by decide : confValidate soloConf = .ok), rfl⟩
  | ok configuration => exact membershipStable_valid hstable

def modeOf (C : ClusterConfig) (fixed tracked : Bool) (follows : fixed = true ∨ tracked = true) :
    Mode :=
  { initial := initialConf C
    fixed, tracked
    valid := (initialConf_ok C).1
    stable := (initialConf_ok C).2
    follows }

structure Admitted (M : Mode) (s : Cluster) (e : Event) : Prop where
  membership : M.fixed = true → changesMembership e = false
  snapshot : M.tracked = false → installsSnapshot e = false
  covered : M.tracked = true → commitsCovered s e = true
  ready : M.fixed = false → electionsReady s e = true

theorem clusterOk_initial (M : Mode) : ClusterOk M initialCluster (blank NodeId Entry) where
  ghost := ⟨inv_blank M.scheme, fun _ i e he => by simp [blank] at he, fun _ _ => rfl⟩
  disks n := by
    refine ⟨⟨rfl, rfl, ⟨le_rfl, rfl, rfl⟩, le_rfl, le_rfl, ?_⟩, fun _ => rfl, ?_⟩
    · unfold Mode.known
      split_ifs <;> rfl
    · intro c hc
      cases hc
  cores n core hat := by cases hat
  durable n core hat := by cases hat
  network m hm := by cases hm
  offers o ho := by cases ho
  installed p hp := by cases hp

structure Chronicled (M : Mode) (run : Execution (clusterSystem C)) (ghost : ℕ → Ghost) : Prop where
  related : ∀ k, k ≤ run.length → ClusterOk M (run.state k) (ghost k)
  steps : ∀ k, k < run.length → StepOk M (run.state k) (ghost k) (run.state (k + 1)) (ghost (k + 1))

theorem exists_chronicled (fixed tracked : Bool) (follows : fixed = true ∨ tracked = true)
    (run : Execution (clusterSystem C))
    (meets : run.Meets (Admitted (modeOf C fixed tracked follows))) :
    ∃ ghost, Chronicled (modeOf C fixed tracked follows) run ghost := by
  have hstable : ∀ c, membershipStable C.voters C.learners = .ok c →
      c = (modeOf C fixed tracked follows).initial := by
    intro c hc
    change c = initialConf C
    unfold initialConf
    rw [hc]
  obtain ⟨ghost, _, hrelated, hsteps⟩ := run.simulation meets
    (ClusterOk (modeOf C fixed tracked follows)) (StepOk (modeOf C fixed tracked follows))
    (blank NodeId Entry) (clusterOk_initial _)
    (fun s e s' g h hadmitted hstep => h.step hstable hadmitted.membership hadmitted.snapshot
      hadmitted.covered hadmitted.ready hstep)
  exact ⟨ghost, hrelated, hsteps⟩

variable {run : Execution (clusterSystem C)} {ghost : ℕ → Ghost} (h : Chronicled M run ghost)

include h

theorem Chronicled.extends {a b : ℕ} (hab : a ≤ b) (hb : b ≤ run.length) :
    (ghost a).Extends (ghost b) := by
  apply run.span (fun a b => (ghost a).Extends (ghost b)) (fun k => .refl _)
    (fun _ _ _ hleft hright => hleft.trans hright) _ hab hb
  intro k hk
  obtain ⟨n, hadv⟩ := (h.steps k hk).advance
  exact hadv.ext

/-- What two nodes know to be committed, at whatever moments, is comparable. -/
theorem Chronicled.known_total {j k : ℕ} (hj : j ≤ run.length) (hk : k ≤ run.length) (a b : NodeId) :
    ((ghost j).log a).take ((ghost j).known a) <+: ((ghost k).log b).take ((ghost k).known b) ∨
      ((ghost k).log b).take ((ghost k).known b) <+: ((ghost j).log a).take ((ghost j).known a) :=
  (h.related (max j k) (by omega)).ghost.inv.ledger.certified_total
    ((h.extends (le_max_left j k) (by omega)).book.certified
      ((h.related j hj).ghost.inv.node a).known_certified)
    ((h.extends (le_max_right j k) (by omega)).book.certified
      ((h.related k hk).ghost.inv.node b).known_certified)

end RaftSimulation
