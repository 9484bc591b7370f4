import TurboRaft.RaftMulticore
import TurboRaft.RequestPipeline

/-! # The rings of the multicore runtime

Every group is a counted pipeline, whatever the threads interleave: requests complete once and
in order, and the rings never overflow. -/
namespace RaftMulticoreRings

open RaftTypes RaftMulticore RequestPipeline Function

variable {Service Value : Type} {api : ServiceApi Service Value}
variable {config : MulticoreConfig} {w w' : Observed Service Value} {r : Multicore Service Value}
variable {k i : ℕ} {e : Event}

def Answers (q : Request) (c : Completion Value) : Prop :=
  c.requestId = q.requestId ∧ c.operation = q.operation.kind

def inFlight (pc : OwnerPc Value) (i : ℕ) : Option Request :=
  match pc with
  | .execute j _ q _ _ => if j = i then some q else none
  | .complete j _ q _ => if j = i then some q else none
  | _ => none

def executing (r : Multicore Service Value) (i : ℕ) : Option Request :=
  inFlight (r.owners (r.groups i).assignment.ownerIndex).pc i

def pipeline (w : Observed Service Value) (i : ℕ) : Pipeline Request (Completion Value) :=
  { queued := (w.runtime.groups i).requests
    executing := executing w.runtime i
    ready := (w.runtime.groups i).completions
    outstandingCount := (w.runtime.groups i).status.outstanding
    queuedCount := (w.runtime.groups i).status.queued
    completedCount := (w.runtime.groups i).status.completed
    accepted := w.accepted i
    produced := w.produced i
    taken := w.taken i }

def Owns (config : MulticoreConfig) (k i : ℕ) : Prop :=
  i < config.groups.length ∧ (config.groups.getD i idleAssignment).ownerIndex = k

def queues (r : Multicore Service Value) (i : ℕ) : List Request := (r.groups i).requests

def ended : OwnerPc Value → Bool
  | .close _ | .exited => true
  | _ => false

/-- The values an owner thread holds are those it has tested. -/
def PcOk (config : MulticoreConfig) (k : ℕ) : OwnerPc Value → Prop
  | .tick i | .recordError (some i) _ | .reportError (some i) _ => Owns config k i
  | .take i turn | .execute i turn _ _ _ => Owns config k i ∧ turn < config.workBudget
  | .complete i turn q c => Owns config k i ∧ turn < config.workBudget ∧ Answers q c
  | .visit i => i ≤ config.groups.length
  | .stopAll next => next ≤ config.ownerCount
  | _ => True

structure Running (config : MulticoreConfig) (w : Observed Service Value) : Prop where
  config_eq : w.runtime.config = config
  assigned : ∀ i, (w.runtime.groups i).assignment = config.groups.getD i idleAssignment
  alive : w.runtime.aborted = false
  pcs : ∀ k, PcOk config k (w.runtime.owners k).pc
  books : ∀ i, Sound Answers config.capacity (pipeline w i)

section Frames

variable {g : Group Service Value}

structure SameRings (g g' : Group Service Value) : Prop where
  assignment : g'.assignment = g.assignment
  requests : g'.requests = g.requests
  completions : g'.completions = g.completions
  outstanding : g'.status.outstanding = g.status.outstanding
  queued : g'.status.queued = g.status.queued
  completed : g'.status.completed = g.status.completed

theorem SameRings.refl (g : Group Service Value) : SameRings g g := ⟨rfl, rfl, rfl, rfl, rfl, rfl⟩

theorem sameRings_setGroup {j : ℕ} (h : SameRings (r.groups j) g) (i : ℕ) :
    SameRings (r.groups i) ((setGroup r j g).groups i) := by
  by_cases hij : i = j
  · subst hij
    simpa [setGroup] using h
  · simpa [setGroup, update_of_ne hij] using SameRings.refl (r.groups i)

theorem groupTick_rings (g : Group Service Value) (choice : Choice) :
    SameRings g (groupTick api config g choice).2 := by
  unfold groupTick
  dsimp only
  split_ifs
  · exact SameRings.refl g
  · cases choice.random with
    | error status => exact SameRings.refl g
    | ok random => cases g.service <;> exact ⟨rfl, rfl, rfl, rfl, rfl, rfl⟩

theorem executeRequest_rings [Inhabited Value] (g : Group Service Value) (q : Request) (stopping : Bool)
    (error : Status) : SameRings g (executeRequest api g q stopping error).2 := by
  unfold executeRequest
  split_ifs
  · exact SameRings.refl g
  · exact SameRings.refl g
  · cases g.service <;> exact ⟨rfl, rfl, rfl, rfl, rfl, rfl⟩

theorem executeRequest_answers [Inhabited Value] (g : Group Service Value) (q : Request) (stopping : Bool)
    (error : Status) : Answers q (executeRequest api g q stopping error).1 := by
  unfold executeRequest
  split_ifs
  · exact ⟨rfl, rfl⟩
  · exact ⟨rfl, rfl⟩
  · cases g.service <;> exact ⟨rfl, rfl⟩

/-- Every group makes a step of its pipeline or none. -/
def Advances (config : MulticoreConfig) (w w' : Observed Service Value) : Prop :=
  ∀ i, pipeline w' i = pipeline w i ∨ Step Answers config.capacity (pipeline w i) (pipeline w' i)

theorem Advances.books (hadvances : Advances config w w')
    (h : ∀ i, Sound Answers config.capacity (pipeline w i)) (i : ℕ) :
    Sound Answers config.capacity (pipeline w' i) := by
  rcases hadvances i with hsame | hstep
  · exact hsame ▸ h i
  · exact (h i).step hstep

theorem pipeline_congr (hrings : SameRings (w.runtime.groups i) (w'.runtime.groups i))
    (hflight : executing w'.runtime i = executing w.runtime i)
    (haccepted : w'.accepted i = w.accepted i) (hproduced : w'.produced i = w.produced i)
    (htaken : w'.taken i = w.taken i) : pipeline w' i = pipeline w i := by
  unfold pipeline
  rw [hrings.requests, hrings.completions, hrings.outstanding, hrings.queued, hrings.completed,
    hflight, haccepted, hproduced, htaken]

/-- A change of the runtime that keeps the rings and the places of all threads. -/
structure Untouched (r r' : Multicore Service Value) : Prop where
  config_eq : r'.config = r.config
  rings : ∀ i, SameRings (r.groups i) (r'.groups i)
  pcs : ∀ k, (r'.owners k).pc = (r.owners k).pc
  alive : r'.aborted = r.aborted

theorem Untouched.refl (r : Multicore Service Value) : Untouched r r :=
  ⟨rfl, fun i => SameRings.refl (r.groups i), fun _ => rfl, rfl⟩

theorem untouched_setGroup {j : ℕ} (h : SameRings (r.groups j) g) :
    Untouched r (setGroup r j g) :=
  ⟨rfl, sameRings_setGroup h, fun _ => rfl, rfl⟩

theorem stopOwner_pc (r : Multicore Service Value) (k j : ℕ) :
    ((stopOwner r k).owners j).pc = (r.owners j).pc := by
  by_cases hj : j = k
  · subst hj
    simp [stopOwner, setOwner]
  · simp [stopOwner, setOwner, update_of_ne hj]

theorem untouched_stopOwner (r : Multicore Service Value) (k : ℕ) : Untouched r (stopOwner r k) :=
  ⟨rfl, fun i => SameRings.refl (r.groups i), stopOwner_pc r k, rfl⟩

theorem Untouched.running (hsame : Untouched w.runtime r) (h : Running config w) :
    Running config { w with runtime := r } ∧ Advances config w { w with runtime := r } := by
  have hadvances : Advances config w { w with runtime := r } := by
    intro i
    refine Or.inl (pipeline_congr (hsame.rings i) ?_ rfl rfl rfl)
    unfold executing
    rw [(hsame.rings i).assignment, hsame.pcs]
  refine ⟨⟨hsame.config_eq.trans h.config_eq, ?_, hsame.alive.trans h.alive, ?_,
    hadvances.books h.books⟩, hadvances⟩
  · exact fun i => (hsame.rings i).assignment.trans (h.assigned i)
  · intro k
    exact hsame.pcs k ▸ h.pcs k

theorem running_setOwner {pc : OwnerPc Value} (h : Running config w)
    (hat : (w.runtime.owners k).pc = pc) (hsame : Untouched w.runtime r) {o : Owner Value}
    (hflight : ∀ i, inFlight o.pc i = inFlight pc i) (hpc : PcOk config k o.pc) :
    Running config { w with runtime := setOwner r k o } ∧
      Advances config w { w with runtime := setOwner r k o } := by
  have hflights : ∀ j i, inFlight ((setOwner r k o).owners j).pc i =
      inFlight (w.runtime.owners j).pc i := by
    intro j i
    by_cases hj : j = k
    · subst hj
      simpa [setOwner, hat] using hflight i
    · simp [setOwner, update_of_ne hj, hsame.pcs]
  have hadvances : Advances config w { w with runtime := setOwner r k o } := by
    intro i
    refine Or.inl (pipeline_congr (hsame.rings i) ?_ rfl rfl rfl)
    change inFlight ((setOwner r k o).owners (r.groups i).assignment.ownerIndex).pc i = _
    rw [(hsame.rings i).assignment]
    exact hflights _ i
  refine ⟨⟨hsame.config_eq.trans h.config_eq, ?_, hsame.alive.trans h.alive, ?_,
    hadvances.books h.books⟩, hadvances⟩
  · exact fun i => (hsame.rings i).assignment.trans (h.assigned i)
  · intro j
    by_cases hj : j = k
    · subst hj
      simpa [setOwner] using hpc
    · simpa [setOwner, update_of_ne hj, hsame.pcs] using h.pcs j

structure Moved (config : MulticoreConfig) (i : ℕ) (w w' : Observed Service Value) : Prop where
  config_eq : w'.runtime.config = w.runtime.config
  others : ∀ j, j ≠ i → w'.runtime.groups j = w.runtime.groups j
  assignment : (w'.runtime.groups i).assignment = (w.runtime.groups i).assignment
  flights : ∀ k j, j ≠ i → inFlight (w'.runtime.owners k).pc j = inFlight (w.runtime.owners k).pc j
  pcs : ∀ k, PcOk config k (w'.runtime.owners k).pc
  alive : w'.runtime.aborted = w.runtime.aborted
  records : ∀ j, j ≠ i → w'.accepted j = w.accepted j ∧ w'.produced j = w.produced j ∧
    w'.taken j = w.taken j
  step : Step Answers config.capacity (pipeline w i) (pipeline w' i)

theorem Moved.running (hmoved : Moved config i w w') (h : Running config w) :
    Running config w' ∧ Advances config w w' := by
  have hadvances : Advances config w w' := by
    intro j
    by_cases hj : j = i
    · exact hj ▸ Or.inr hmoved.step
    · obtain ⟨haccepted, hproduced, htaken⟩ := hmoved.records j hj
      refine Or.inl (pipeline_congr ?_ ?_ haccepted hproduced htaken)
      · rw [hmoved.others j hj]
        exact SameRings.refl _
      · unfold executing
        rw [hmoved.others j hj]
        exact hmoved.flights _ j hj
  refine ⟨⟨hmoved.config_eq.trans h.config_eq, ?_, hmoved.alive.trans h.alive, hmoved.pcs,
    hadvances.books h.books⟩, hadvances⟩
  intro j
  by_cases hj : j = i
  · rw [hj, hmoved.assignment]
    exact h.assigned i
  · rw [hmoved.others j hj]
    exact h.assigned j

end Frames

section Callers

variable {id : UInt64}

theorem note_of_ne {α : Type} {record : ℕ → List α} {x : α} {j : ℕ} (hj : j ≠ i) :
    note record i x j = record j := update_of_ne hj _ _

theorem note_self {α : Type} {record : ℕ → List α} {x : α} : note record i x i = record i ++ [x] :=
  update_self _ _ _

/-- A call of a submitter or a consumer moves one group or none, and leaves the threads alone. Only
a group whose owner is not stopped gets a request. -/
inductive CallerStep (config : MulticoreConfig) (w : Observed Service Value) :
    Observed Service Value → Prop
  | untouched {r : Multicore Service Value} (same : Untouched w.runtime r)
      (owners : r.owners = w.runtime.owners) : CallerStep config w { w with runtime := r }
  | moved {w' : Observed Service Value} (i : ℕ) (moved : Moved config i w w')
      (owners : w'.runtime.owners = w.runtime.owners) (produced : w'.produced = w.produced)
      (queue : queues w'.runtime i = queues w.runtime i ∨
        (w.runtime.owners (w.runtime.groups i).assignment.ownerIndex).stopping = false) :
      CallerStep config w w'

theorem submit_cases [Inhabited Value] (h : Running config w) {q : Request}
    (hstep : multicoreStep api w (.submit id q) = some w') : CallerStep config w w' := by
  unfold multicoreStep at hstep
  rw [h.alive] at hstep
  simp only [Bool.false_eq_true, if_false, Option.some.injEq] at hstep
  subst hstep
  unfold multicoreSubmit
  by_cases hinvalid : requestInvalid q = true
  · rw [if_pos hinvalid]
    exact .untouched (.refl w.runtime) rfl
  rw [if_neg hinvalid]
  cases hfind : multicoreFind w.runtime id with
  | none => exact .untouched (.refl w.runtime) rfl
  | some i =>
    dsimp only
    by_cases hstopping : (w.runtime.owners (w.runtime.groups i).assignment.ownerIndex).stopping = true
    · rw [if_pos hstopping]
      exact .untouched (.refl w.runtime) rfl
    rw [if_neg hstopping]
    by_cases hfull : ((w.runtime.groups i).status.outstanding == w.runtime.config.capacity) = true
    · rw [if_pos hfull]
      exact .untouched (untouched_setGroup ⟨rfl, rfl, rfl, rfl, rfl, rfl⟩) rfl
    rw [if_neg hfull]
    -- a credit is left, so the ring has a free slot
    have hcredit : (pipeline w i).outstandingCount ≠ config.capacity := by
      rw [beq_iff_eq, h.config_eq] at hfull
      exact hfull
    have hroom : (w.runtime.groups i).requests.length < w.runtime.config.capacity := by
      rw [h.config_eq]
      exact (h.books i).queue_room hcredit
    rw [ringWrite, if_pos hroom]
    refine .moved i ⟨rfl, fun j hj => update_of_ne hj _ _, ?_, fun _ _ _ => rfl, h.pcs, rfl,
      fun j hj => ⟨note_of_ne hj, rfl, rfl⟩, ?_⟩ rfl rfl (.inr (by simpa using hstopping))
    · simp [setGroup]
    · convert Step.accept q hcredit using 1
      simp [pipeline, setGroup, executing, note_self]

theorem take_cases [Inhabited Value] (h : Running config w)
    (hstep : multicoreStep api w (.take id) = some w') : CallerStep config w w' := by
  unfold multicoreStep at hstep
  rw [h.alive] at hstep
  simp only [Bool.false_eq_true, if_false, Option.some.injEq] at hstep
  subst hstep
  unfold multicoreTake
  cases hfind : multicoreFind w.runtime id with
  | none => exact .untouched (.refl w.runtime) rfl
  | some i =>
    dsimp only
    cases hready : (w.runtime.groups i).completions with
    | nil => exact .untouched (.refl w.runtime) rfl
    | cons c rest =>
      refine .moved i ⟨rfl, fun j hj => update_of_ne hj _ _, ?_, fun _ _ _ => rfl, h.pcs, rfl,
        fun j hj => ⟨rfl, rfl, note_of_ne hj⟩, ?_⟩ rfl rfl (.inl ?_)
      · simp [setGroup]
      · have hfirst : (pipeline w i).ready = c :: rest := hready
        convert Step.hand hfirst using 1
        simp [pipeline, setGroup, executing, note_self]
      · simp [queues, setGroup]

theorem CallerStep.running (hcall : CallerStep config w w') (h : Running config w) :
    Running config w' ∧ Advances config w w' := by
  cases hcall with
  | untouched same => exact same.running h
  | moved i moved => exact moved.running h

theorem CallerStep.frame (hcall : CallerStep config w w') :
    w'.runtime.owners = w.runtime.owners ∧ w'.produced = w.produced ∧
      ∀ i, queues w'.runtime i = queues w.runtime i ∨
        (w.runtime.owners (w.runtime.groups i).assignment.ownerIndex).stopping = false := by
  cases hcall with
  | untouched same owners => exact ⟨owners, rfl, fun i => .inl (same.rings i).requests⟩
  | moved i moved owners produced queue =>
    refine ⟨owners, produced, fun j => ?_⟩
    by_cases hj : j = i
    · exact hj ▸ queue
    · exact .inl (congrArg Group.requests (moved.others j hj))

theorem requestStop_cases [Inhabited Value] (h : Running config w)
    (hstep : multicoreStep api w (.requestStop k) = some w') :
    k < config.ownerCount ∧ { w with runtime := stopOwner w.runtime k } = w' := by
  unfold multicoreStep at hstep
  rw [h.alive] at hstep
  simpa only [Bool.false_eq_true, if_false, Option.ite_none_right_eq_some, Option.some.injEq,
    h.config_eq] using hstep

end Callers

variable {o : Owner Value} {q : Request} {choice : Choice}

theorem setOwner_self : (setOwner r k o).owners k = o := update_self _ _ _

theorem setOwner_of_ne {j : ℕ} (hj : j ≠ k) :
    (setOwner r k o).owners j = r.owners j := update_of_ne hj _ _

theorem nextTurn_zero (hbudget : 0 < config.workBudget) :
    (nextTurn config i 0 : OwnerPc Value) = .take i 0 := if_pos hbudget

theorem nextTurn_ok (howns : Owns config k i) (turn : ℕ) :
    PcOk config k (nextTurn config i turn : OwnerPc Value) := by
  unfold nextTurn
  split_ifs with hturn
  · exact ⟨howns, hturn⟩
  · exact howns.1

theorem nextTurn_idle (turn j : ℕ) : inFlight (nextTurn config i turn : OwnerPc Value) j = none := by
  unfold nextTurn
  split_ifs <;> rfl

theorem takeRequest_moved (h : Running config w) {turn : ℕ} {rest : List Request}
    (hpc : (w.runtime.owners k).pc = .take i turn) (hqueue : (w.runtime.groups i).requests = q :: rest) :
    Moved config i w { w with runtime := takeRequest w.runtime k i turn } := by
  have hok : Owns config k i ∧ turn < config.workBudget := by
    have := h.pcs k
    rwa [hpc] at this
  have howner := (congrArg GroupAssignment.ownerIndex (h.assigned i)).trans hok.1.2
  unfold takeRequest
  dsimp only
  rw [hqueue]
  refine ⟨rfl, fun j hj => update_of_ne hj _ _, ?_, ?_, ?_, rfl, fun _ _ => ⟨rfl, rfl, rfl⟩,
    ?_⟩
  · simp [goto, setOwner, setGroup]
  · intro j l hl
    by_cases hj : j = k
    · subst hj
      simp [goto, setOwner_self, hpc, inFlight, Ne.symm hl]
    · simp [goto, setOwner_of_ne hj, setGroup]
  · intro j
    by_cases hj : j = k
    · subst hj
      simp only [goto, setOwner_self]
      exact hok
    · simpa [goto, setOwner_of_ne hj, setGroup] using h.pcs j
  · have hidle : (pipeline w i).executing = none := by
      simp [pipeline, executing, howner, hpc, inFlight]
    have hfirst := hqueue
    convert Step.start hidle hfirst using 1
    simp [pipeline, executing, goto, setOwner, setGroup, howner, inFlight]

theorem completeRequest_moved (h : Running config w) {turn : ℕ} {c : Completion Value}
    (hpc : (w.runtime.owners k).pc = .complete i turn q c) :
    (completeRequest w.runtime k i turn c).aborted = false ∧
      Moved config i w { w with
        runtime := completeRequest w.runtime k i turn c
        produced := note w.produced i c } := by
  have hok : Owns config k i ∧ turn < config.workBudget ∧ Answers q c := by
    have := h.pcs k
    rwa [hpc] at this
  have howner := (congrArg GroupAssignment.ownerIndex (h.assigned i)).trans hok.1.2
  have hbusy : (pipeline w i).executing = some q := by
    simp [pipeline, executing, howner, hpc, inFlight]
  have hroom : (w.runtime.groups i).completions.length < w.runtime.config.capacity := by
    rw [h.config_eq]
    exact (h.books i).ready_room hbusy
  unfold completeRequest
  dsimp only
  rw [ringWrite, if_pos hroom]
  refine ⟨h.alive, rfl, fun j hj => update_of_ne hj _ _, ?_, ?_, ?_, rfl,
    fun j hj => ⟨rfl, note_of_ne hj, rfl⟩, ?_⟩
  · simp [setOwner, setGroup]
  · intro j l hl
    by_cases hj : j = k
    · subst hj
      rw [setOwner_self, nextTurn_idle, hpc]
      simp [inFlight, Ne.symm hl]
    · simp [setOwner_of_ne hj, setGroup]
  · intro j
    by_cases hj : j = k
    · subst hj
      simpa [setOwner_self, h.config_eq] using nextTurn_ok hok.1 (turn + 1)
    · simpa [setOwner_of_ne hj, setGroup] using h.pcs j
  · convert Step.finish q c hbusy hok.2.2 using 1
    simp [pipeline, executing, setOwner, setGroup, howner, nextTurn_idle, note_self]

theorem closeGroup_untouched (r : Multicore Service Value) (k i : ℕ) :
    Untouched r (closeGroup r k i) := by
  unfold closeGroup
  dsimp only
  split_ifs
  · exact Untouched.refl r
  · exact untouched_setGroup ⟨rfl, rfl, rfl, rfl, rfl, rfl⟩

inductive Opening (ownerCount : ℕ) : OwnerPc Value → OwnerPc Value → Prop
  | polls : Opening ownerCount .head .poll
  | stopping : Opening ownerCount .head (.visit 0)
  | polled : Opening ownerCount .poll (.visit 0)
  | failed (error : Status) : Opening ownerCount .poll (.recordError none error)
  | records (error : Status) : Opening ownerCount (.recordError none error) (.reportError none error)
  | reports (error : Status) : Opening ownerCount (.reportError none error) (.stopAll 0)
  | stopped : Opening ownerCount (.stopAll ownerCount) (.visit 0)

inductive Working (config : MulticoreConfig) (i : ℕ) : OwnerPc Value → OwnerPc Value → Prop
  | ticked : Working config i (.tick i) (.take i 0)
  | failed (error : Status) : Working config i (.tick i) (.recordError (some i) error)
  | records (error : Status) :
      Working config i (.recordError (some i) error) (.reportError (some i) error)
  | reports (error : Status) : Working config i (.reportError (some i) error) (.take i 0)
  | executes {turn : ℕ} {q : Request} {stopping : Bool} {error : Status} {c : Completion Value}
      (turn_lt : turn < config.workBudget) (answers : Answers q c) :
      Working config i (.execute i turn q stopping error) (.complete i turn q c)

/-- What a step that leaves the rings alone does to the variables of its thread. -/
inductive Moves (config : MulticoreConfig) (k : ℕ) (queue : ℕ → List Request) (o : Owner Value) :
    Owner Value → Prop
  | opens {pc : OwnerPc Value} {saw worked : Bool} (step : Opening config.ownerCount o.pc pc)
      (seen : saw = true → o.sawStopping = true ∨ o.stopping = true ∨
        o.pc = .stopAll config.ownerCount) :
      Moves config k queue o { o with sawStopping := saw, worked, pc }
  | enters {i : ℕ} {pc : OwnerPc Value} (visits : o.pc = .visit i) (owns : Owns config k i)
      (entered : pc = .tick i ∧ o.stopping = false ∨ pc = .take i 0) :
      Moves config k queue o { o with sawStopping := o.stopping, pc }
  | works {i : ℕ} {pc : OwnerPc Value} (owns : Owns config k i) (step : Working config i o.pc pc) :
      Moves config k queue o { o with pc }
  | leaves {i : ℕ} (inside : i < config.groups.length)
      (done : o.pc = .visit i ∧ ¬ Owns config k i ∨
        ∃ turn, o.pc = .take i turn ∧ turn < config.workBudget ∧ queue i = []) :
      Moves config k queue o { o with pc := .visit (i + 1) }
  | settles (visited : o.pc = .visit config.groups.length) :
      Moves config k queue o { o with pc := .settle }
  | waits {pc : OwnerPc Value}
      (waited : o.pc = .settle ∧ pc = .inspect ∨ o.pc = .inspect ∧ pc = .waiting) :
      Moves config k queue o { o with pc }
  | returns (behind : o.pc = .settle ∨ o.pc = .inspect ∨ o.pc = .waiting) :
      Moves config k queue o { o with pc := .head }
  | closes {pc : OwnerPc Value} (ends : ended pc = true)
      (leaving : ended o.pc = true ∨
        o.pc = .settle ∧ o.sawStopping = true ∧ o.worked = false) :
      Moves config k queue o { o with pc }

inductive ThreadStep (config : MulticoreConfig) (w : Observed Service Value) (k : ℕ) :
    Multicore Service Value → Prop
  | moves {r : Multicore Service Value} {o : Owner Value} (same : Untouched w.runtime r)
      (owners : r.owners = w.runtime.owners)
      (move : Moves config k (queues w.runtime) (w.runtime.owners k) o) :
      ThreadStep config w k (setOwner r k o)
  | stops {next : ℕ} (stopping : (w.runtime.owners k).pc = .stopAll next)
      (more : next < config.ownerCount) :
      ThreadStep config w k (goto (stopOwner w.runtime next) k (.stopAll (next + 1)))
  | takes {i turn : ℕ} {q : Request} {rest : List Request}
      (taking : (w.runtime.owners k).pc = .take i turn)
      (waiting : (w.runtime.groups i).requests = q :: rest) :
      ThreadStep config w k (takeRequest w.runtime k i turn)
  | completes {i turn : ℕ} {q : Request} {c : Completion Value}
      (completing : (w.runtime.owners k).pc = .complete i turn q c) :
      ThreadStep config w k (completeRequest w.runtime k i turn c)

theorem owns_iff (h : Running config w) :
    Owns config k i ↔ i < groupCount w.runtime ∧ (w.runtime.groups i).assignment.ownerIndex = k := by
  rw [h.assigned i, groupCount, h.config_eq]
  rfl

theorem ownerStep_cases [Inhabited Value] (h : Running config w) (hbudget : 0 < config.workBudget)
    {r' : Multicore Service Value} (hthread : ownerStep api w.runtime k choice = some r') :
    ThreadStep config w k r' := by
  have hpcs := h.pcs k
  have hmoved : ∀ {o : Owner Value}, Moves config k (queues w.runtime) (w.runtime.owners k) o →
      ThreadStep config w k (setOwner w.runtime k o) := .moves (.refl _) rfl
  dsimp only [ownerStep] at hthread
  cases hpc : (w.runtime.owners k).pc with rw [hpc] at hthread hpcs
  | head =>
    cases hthread
    refine hmoved (.opens ?_ fun hsaw => .inr (.inl hsaw))
    rw [hpc]
    split_ifs
    · exact .stopping
    · exact .polls
  | poll =>
    cases hthread
    refine hmoved (.opens ?_ .inl)
    rw [hpc]
    split_ifs
    · exact .polled
    · exact .failed _
  | recordError group error =>
    cases hthread
    cases group with
    | none => exact hmoved (.opens (hpc ▸ .records error) .inl)
    | some i =>
      have hworks : Moves config k (queues w.runtime) (w.runtime.owners k)
          { w.runtime.owners k with pc := .reportError (some i) error } :=
        .works hpcs (hpc ▸ .records error)
      dsimp only
      split_ifs
      · exact .moves (untouched_setGroup ⟨rfl, rfl, rfl, rfl, rfl, rfl⟩) rfl hworks
      · exact hmoved hworks
  | reportError group error =>
    simp only [Option.some.injEq, h.config_eq] at hthread
    subst hthread
    have hsame : Untouched w.runtime { w.runtime with
        config
        error := if w.runtime.error == .ok then error else w.runtime.error } :=
      ⟨h.config_eq.symm, fun i => SameRings.refl _, fun _ => rfl, rfl⟩
    cases group with
    | none => exact .moves hsame rfl (.opens (hpc ▸ .reports error) .inl)
    | some i =>
      rw [afterError, nextTurn_zero hbudget]
      exact .moves hsame rfl (.works hpcs (hpc ▸ .reports error))
  | stopAll next =>
    dsimp only at hthread
    split_ifs at hthread with hnext <;> cases hthread <;> rw [h.config_eq] at hnext
    · exact .stops hpc hnext
    · obtain rfl : next = config.ownerCount := le_antisymm hpcs (Nat.not_lt.mp hnext)
      exact hmoved (.opens (hpc ▸ .stopped) fun _ => .inr (.inr hpc))
  | visit i =>
    cases hthread
    have howns := @owns_iff _ _ _ _ k i h
    unfold visitGroup
    rw [groupCount, h.config_eq] at *
    dsimp only
    rw [nextTurn_zero hbudget]
    split_ifs with hlt howner hticks
    · exact hmoved (.leaves hlt (.inl ⟨hpc, fun hown => bne_iff_ne.mp howner (howns.mp hown).2⟩))
    · simp only [Bool.and_eq_true, Bool.not_eq_true'] at hticks
      exact hmoved (.enters hpc (howns.mpr ⟨hlt, by simpa using howner⟩) (.inl ⟨rfl, hticks.1⟩))
    · exact hmoved (.enters hpc (howns.mpr ⟨hlt, by simpa using howner⟩) (.inr rfl))
    · obtain rfl : i = config.groups.length := le_antisymm hpcs (Nat.not_lt.mp hlt)
      exact hmoved (.settles hpc)
  | tick i =>
    simp only [Option.some.injEq, h.config_eq, nextTurn_zero hbudget] at hthread
    subst hthread
    refine .moves (untouched_setGroup (groupTick_rings _ _)) rfl (.works hpcs ?_)
    rw [hpc]
    split_ifs
    · exact .ticked
    · exact .failed _
  | take i turn =>
    cases hthread
    cases hqueue : (w.runtime.groups i).requests with
    | nil =>
      unfold takeRequest
      dsimp only
      rw [hqueue]
      exact hmoved (.leaves hpcs.1.1 (.inr ⟨turn, hpc, hpcs.2, hqueue⟩))
    | cons q rest => exact .takes hpc hqueue
  | execute i turn q stopping error =>
    cases hthread
    exact .moves (untouched_setGroup (executeRequest_rings _ _ _ _)) rfl
      (.works hpcs.1 (hpc ▸ .executes hpcs.2 (executeRequest_answers _ _ _ _)))
  | complete i turn q c =>
    cases hthread
    exact .completes hpc
  | settle =>
    cases hthread
    refine hmoved ?_
    split_ifs with hleaves
    · exact .closes rfl (.inr ⟨hpc, by simpa using hleaves⟩)
    · exact .returns (.inl hpc)
    · exact .waits (.inl ⟨hpc, rfl⟩)
  | inspect =>
    cases hthread
    refine hmoved ?_
    split_ifs
    · exact .waits (.inr ⟨hpc, rfl⟩)
    · exact .returns (.inr (.inl hpc))
  | waiting =>
    cases hthread
    exact hmoved (.returns (.inr (.inr hpc)))
  | close remaining =>
    cases remaining with
    | zero =>
      cases hthread
      exact .moves (r := { w.runtime with exitedCount := w.runtime.exitedCount + 1 })
        ⟨rfl, fun i => SameRings.refl _, fun _ => rfl, rfl⟩ rfl (.closes rfl (.inl (hpc ▸ rfl)))
    | succ remaining =>
      cases hthread
      have howners : (closeGroup w.runtime k remaining).owners = w.runtime.owners := by
        unfold closeGroup
        dsimp only
        split_ifs <;> rfl
      rw [goto, howners]
      exact .moves (closeGroup_untouched _ _ _) howners (.closes rfl (.inl (hpc ▸ rfl)))
  | exited => cases hthread

theorem ended_idle {pc : OwnerPc Value} (hends : ended pc = true) (i : ℕ) : inFlight pc i = none := by
  cases pc <;> first | rfl | cases hends

/-- A thread that leaves the rings alone executes what it has executed before, and holds tested
values. -/
theorem Moves.sound {queue : ℕ → List Request} {o o' : Owner Value}
    (hmove : Moves config k queue o o') (hbudget : 0 < config.workBudget) :
    PcOk config k o'.pc ∧ (∀ i, inFlight o'.pc i = inFlight o.pc i) ∧
      ∀ i turn q c, o.pc ≠ .complete i turn q c := by
  cases hmove with
  | opens step =>
    dsimp only
    generalize o.pc = before at step
    cases step <;> exact ⟨by first | trivial | exact Nat.zero_le _, fun _ => rfl, by simp⟩
  | enters visits owns entered =>
    rw [visits]
    rcases entered with ⟨rfl, _⟩ | rfl
    · exact ⟨owns, fun _ => rfl, by simp⟩
    · exact ⟨⟨owns, hbudget⟩, fun _ => rfl, by simp⟩
  | works owns step =>
    dsimp only
    generalize o.pc = before at step
    cases step with
    | executes turn_lt answers => exact ⟨⟨owns, turn_lt, answers⟩, fun _ => rfl, by simp⟩
    | _ => exact ⟨by first | exact owns | exact ⟨owns, hbudget⟩, fun _ => rfl, by simp⟩
  | leaves inside done =>
    rcases done with ⟨hpc, _⟩ | ⟨turn, hpc, _⟩ <;> rw [hpc] <;>
      exact ⟨inside, fun _ => rfl, by simp⟩
  | settles visited =>
    rw [visited]
    exact ⟨trivial, fun _ => rfl, by simp⟩
  | waits waited =>
    rcases waited with ⟨hpc, rfl⟩ | ⟨hpc, rfl⟩ <;> rw [hpc] <;>
      exact ⟨trivial, fun _ => rfl, by simp⟩
  | returns behind =>
    rcases behind with hpc | hpc | hpc <;> rw [hpc] <;> exact ⟨trivial, fun _ => rfl, by simp⟩
  | @closes pc ends leaving =>
    have hidle : ∀ i, inFlight o.pc i = none ∧ ∀ turn q c, o.pc ≠ .complete i turn q c := by
      rcases leaving with hends | ⟨hpc, _⟩
      · refine fun i => ⟨ended_idle hends i, fun turn q c hpc => ?_⟩
        rw [hpc] at hends
        cases hends
      · rw [hpc]
        exact fun _ => ⟨rfl, by simp⟩
    refine ⟨?_, fun i => (ended_idle ends i).trans (hidle i).1.symm, fun i => (hidle i).2⟩
    cases pc <;> trivial

theorem owner_step_cases [Inhabited Value] (h : Running config w)
    (hstep : multicoreStep api w (.owner k choice) = some w') :
    k < config.ownerCount ∧ ∃ runtime, ownerStep api w.runtime k choice = some runtime ∧
      { w with
        runtime
        produced := match producedBy w.runtime k with
          | some (i, c) => if runtime.aborted then w.produced else note w.produced i c
          | none => w.produced } = w' := by
  unfold multicoreStep at hstep
  rw [h.alive] at hstep
  simp only [Bool.false_eq_true, if_false, Option.ite_none_right_eq_some, h.config_eq] at hstep
  obtain ⟨hk, hstep⟩ := hstep
  cases hthread : ownerStep api w.runtime k choice with
  | none => simp [hthread] at hstep
  | some runtime =>
    rw [hthread] at hstep
    exact ⟨hk, runtime, rfl, Option.some.inj hstep⟩

theorem producedBy_none (h : ∀ i turn q c, (r.owners k).pc ≠ .complete i turn q c) :
    producedBy r k = none := by
  unfold producedBy
  split
  next i turn q c hpc => exact absurd hpc (h i turn q c)
  next => rfl

theorem owner_running [Inhabited Value] (h : Running config w) (hbudget : 0 < config.workBudget)
    (hstep : multicoreStep api w (.owner k choice) = some w') :
    Running config w' ∧ Advances config w w' := by
  obtain ⟨_, runtime, hthread, rfl⟩ := owner_step_cases h hstep
  cases ownerStep_cases h hbudget hthread with
  | moves same owners move =>
    obtain ⟨hok, hflight, hquiet⟩ := move.sound hbudget
    rw [producedBy_none hquiet]
    exact running_setOwner h rfl same hflight hok
  | stops stopping more =>
    rw [producedBy_none (by simp [stopping])]
    exact running_setOwner h stopping (untouched_stopOwner _ _) (fun _ => rfl) more
  | takes taking waiting =>
    rw [producedBy_none (by simp [taking])]
    exact (takeRequest_moved h taking waiting).running h
  | completes completing =>
    obtain ⟨halive, hmoved⟩ := completeRequest_moved h completing
    simp only [producedBy, completing, halive, Bool.false_eq_true, if_false]
    exact hmoved.running h

theorem running_step [Inhabited Value] (h : Running config w) (hbudget : 0 < config.workBudget)
    (hstep : multicoreStep api w e = some w') : Running config w' ∧ Advances config w w' := by
  cases e with
  | submit id q => exact (submit_cases h hstep).running h
  | take id => exact (take_cases h hstep).running h
  | requestStop k =>
    obtain ⟨_, rfl⟩ := requestStop_cases h hstep
    exact (untouched_stopOwner w.runtime k).running h
  | owner k choice => exact owner_running h hbudget hstep

theorem running_created [Inhabited Value] (services : ℕ → Service) (now : ℕ → ℕ) :
    Running config (multicoreSystem api config services now).init := by
  refine ⟨rfl, fun _ => rfl, rfl, fun _ => trivial, fun i => ?_⟩
  exact ⟨rfl, rfl, rfl, Nat.zero_le _, ⟨[], rfl, .nil⟩, rfl⟩

end RaftMulticoreRings
