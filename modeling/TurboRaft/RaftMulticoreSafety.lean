import Mathlib.Data.Nat.Count
import TurboRaft.RaftMulticoreSweeps

/-! # Requests of the multicore runtime

An accepted request gets its completion within a bounded number of steps of its owner. With the
books of the rings and the sweeps of a stopped owner this gives exactly one completion for every
request, in order. -/
namespace RaftMulticoreSafety

open RaftMulticore RaftMulticoreRings RaftMulticoreSweeps RequestPipeline Executions

variable {Service Value : Type} {api : ServiceApi Service Value}
variable {config : MulticoreConfig} {w w' : Observed Service Value}
variable {k i : ℕ} {e : Event}

section Progress

variable {choice : Choice}

/-- The steps of a thread in one pass over its groups, numbered in their order. -/
def blockSteps (config : MulticoreConfig) : ℕ := 3 * config.workBudget + 4

def firstBlock (config : MulticoreConfig) : ℕ := 5 + config.ownerCount

def place (config : MulticoreConfig) : OwnerPc Value → ℕ
  | .head => 0
  | .poll => 1
  | .recordError none _ => 2
  | .reportError none _ => 3
  | .stopAll next => 4 + next
  | .visit i => firstBlock config + i * blockSteps config
  | .tick i => firstBlock config + i * blockSteps config + 1
  | .recordError (some i) _ => firstBlock config + i * blockSteps config + 2
  | .reportError (some i) _ => firstBlock config + i * blockSteps config + 3
  | .take i turn => firstBlock config + i * blockSteps config + (4 + 3 * turn)
  | .execute i turn _ _ _ => firstBlock config + i * blockSteps config + (5 + 3 * turn)
  | .complete i turn _ _ => firstBlock config + i * blockSteps config + (6 + 3 * turn)
  | .settle => firstBlock config + config.groups.length * blockSteps config + 1
  | .inspect => firstBlock config + config.groups.length * blockSteps config + 2
  | .waiting => firstBlock config + config.groups.length * blockSteps config + 3
  | .close _ | .exited => firstBlock config + config.groups.length * blockSteps config + 4

def passSteps (config : MulticoreConfig) : ℕ :=
  firstBlock config + config.groups.length * blockSteps config + 4

def blockEnd (config : MulticoreConfig) (i : ℕ) : ℕ := firstBlock config + (i + 1) * blockSteps config

/-- How many steps a thread may make before it has gone through the block of a group once more. -/
def distance (config : MulticoreConfig) (i : ℕ) (pc : OwnerPc Value) : ℕ :=
  if place config pc < blockEnd config i then blockEnd config i - place config pc
  else passSteps config - place config pc + blockEnd config i

theorem blockEnd_eq (config : MulticoreConfig) (i : ℕ) :
    blockEnd config i = firstBlock config + i * blockSteps config + blockSteps config := by
  unfold blockEnd
  rw [Nat.succ_mul]
  omega

theorem blocks_apart (config : MulticoreConfig) {j : ℕ} (hj : j < i) :
    blockEnd config j ≤ firstBlock config + i * blockSteps config :=
  Nat.add_le_add_left (Nat.mul_le_mul_right _ hj) _

theorem distance_le (hi : i < config.groups.length) (pc : OwnerPc Value) :
    distance config i pc ≤ 2 * passSteps config := by
  have := blocks_apart config hi
  unfold distance passSteps
  split_ifs <;> omega

section Distances

variable {pc pc' : OwnerPc Value} {j : ℕ}

theorem distance_forward (hlt : place config pc < place config pc')
    (hpass : place config pc' ≤ passSteps config)
    (hinside : place config pc < blockEnd config i → place config pc' < blockEnd config i) :
    distance config i pc' < distance config i pc := by
  unfold distance
  split_ifs with hbefore hafter
  · omega
  · omega
  · exact absurd (hinside ‹_›) hbefore
  · omega

theorem distance_around (hafter : blockEnd config i ≤ place config pc)
    (hpass : place config pc < passSteps config) :
    distance config i (.head : OwnerPc Value) < distance config i pc := by
  have hblock : 0 < blockEnd config i := by
    unfold blockEnd firstBlock
    omega
  unfold distance
  rw [if_pos (show place config (.head : OwnerPc Value) < blockEnd config i from hblock),
    if_neg (Nat.not_lt.mpr hafter)]
  omega

theorem distance_opening (hlt : place config pc < place config pc')
    (hopening : place config pc' ≤ firstBlock config) : distance config i pc' < distance config i pc := by
  have hend := blockEnd_eq config i
  have hsteps : 0 < blockSteps config := by
    unfold blockSteps
    omega
  refine distance_forward hlt ?_ fun _ => by omega
  unfold passSteps
  omega

theorem distance_block (hj : j < config.groups.length)
    (hstart : firstBlock config + j * blockSteps config ≤ place config pc)
    (hlt : place config pc < place config pc') (hend : place config pc' < blockEnd config j) :
    distance config i pc' < distance config i pc := by
  have hlast := blocks_apart config hj
  refine distance_forward hlt (by unfold passSteps; omega) fun hbefore => ?_
  rcases Nat.lt_trichotomy i j with hij | rfl | hji
  · have := blocks_apart config hij
    omega
  · exact hend
  · have := blocks_apart config hji
    have := blockEnd_eq config i
    omega

theorem distance_leave (hj : j < config.groups.length) (hne : j ≠ i)
    (hstart : firstBlock config + j * blockSteps config ≤ place config pc)
    (hend : place config pc < blockEnd config j) :
    distance config i (.visit (j + 1) : OwnerPc Value) < distance config i pc := by
  have hlast := blocks_apart config hj
  have hplace : place config (.visit (j + 1) : OwnerPc Value) = blockEnd config j := rfl
  have hsteps : 0 < blockSteps config := by
    unfold blockSteps
    omega
  refine distance_forward (hplace ▸ hend) (by rw [hplace]; unfold passSteps; omega) fun hbefore => ?_
  rcases Nat.lt_or_ge i j with hij | hji
  · have := blocks_apart config hij
    omega
  · have := blocks_apart config (lt_of_le_of_ne hji hne)
    have := blockEnd_eq config i
    omega

theorem place_turn (j : ℕ) {turn : ℕ} (hturn : turn < config.workBudget) :
    firstBlock config + j * blockSteps config + (6 + 3 * turn) < blockEnd config j := by
  rw [blockEnd_eq, blockSteps]
  omega

end Distances

theorem opening_place {pc pc' : OwnerPc Value} (step : Opening config.ownerCount pc pc') :
    place config pc < place config pc' ∧ place config pc' ≤ firstBlock config := by
  cases step <;> simp only [place, firstBlock] <;> omega

section Nearer

variable {o o' : Owner Value} (hbudget : 0 < config.workBudget) (hi : Owns config k i)

include hbudget hi

theorem moves_nearer (hmove : Moves config k (queues w.runtime) o o')
    (hwaiting : ∀ turn, o.pc = .take i turn → queues w.runtime i ≠ [])
    (hgoes : ended o'.pc = false) : distance config i o'.pc < distance config i o.pc := by
  have hlast := blocks_apart config hi.1
  have hsteps : 4 < blockSteps config := by
    unfold blockSteps
    omega
  cases hmove with
  | opens step => exact distance_opening (opening_place step).1 (opening_place step).2
  | @enters j pc visits owns entered =>
    have hend := blockEnd_eq config j
    rw [visits]
    rcases entered with ⟨rfl, _⟩ | rfl <;> refine distance_block owns.1 ?_ ?_ ?_ <;>
      simp only [place] <;> omega
  | @works j pc owns step =>
    have hend := blockEnd_eq config j
    generalize o.pc = before at step
    cases step with
    | @executes turn q stopping error c turn_lt answers =>
      have hturn := place_turn j turn_lt
      refine distance_block owns.1 ?_ ?_ ?_ <;> simp only [place] <;> omega
    | _ => refine distance_block owns.1 ?_ ?_ ?_ <;> simp only [place] <;> omega
  | @leaves j inside done =>
    rcases done with ⟨hpc, hforeign⟩ | ⟨turn, hpc, hturn, hempty⟩
    · have hend := blockEnd_eq config j
      have hne : j ≠ i := fun hji => hforeign (hji ▸ hi)
      rw [hpc]
      refine distance_leave inside hne ?_ ?_ <;> simp only [place] <;> omega
    · have hend := place_turn j hturn
      have hne : j ≠ i := by
        rintro rfl
        exact hwaiting turn hpc hempty
      rw [hpc]
      refine distance_leave inside hne ?_ ?_ <;> simp only [place] <;> omega
  | settles visited =>
    rw [visited]
    refine distance_forward ?_ ?_ ?_ <;> simp only [place, passSteps] <;> omega
  | waits waited =>
    rcases waited with ⟨hpc, rfl⟩ | ⟨hpc, rfl⟩ <;> rw [hpc] <;>
      refine distance_forward ?_ ?_ ?_ <;> simp only [place, passSteps] <;> omega
  | returns behind =>
    rcases behind with hpc | hpc | hpc <;> rw [hpc] <;> refine distance_around ?_ ?_ <;>
      simp only [place, passSteps] <;> omega
  | closes ends =>
    rw [ends] at hgoes
    cases hgoes

/-- A step of its owner brings a group with a waiting request nearer to its turn, unless the
step completes a request of that group or ends the loop. -/
theorem step_nearer [Inhabited Value] (h : Running config w)
    (hwaiting : ∀ turn, (w.runtime.owners k).pc = .take i turn → queues w.runtime i ≠ [])
    (hother : ∀ turn q c, (w.runtime.owners k).pc ≠ .complete i turn q c)
    {r' : Multicore Service Value}
    (hthread : ownerStep api w.runtime k choice = some r') (hgoes : ended (r'.owners k).pc = false) :
    distance config i (r'.owners k).pc < distance config i (w.runtime.owners k).pc := by
  have hpcs := h.pcs k
  cases ownerStep_cases h hbudget hthread with
  | moves same owners move =>
    rw [setOwner_self] at hgoes ⊢
    exact moves_nearer hbudget hi move hwaiting hgoes
  | stops stopping more =>
    rw [goto, setOwner_self, stopping]
    refine distance_opening ?_ ?_ <;> simp only [place, firstBlock] <;> omega
  | @takes j turn q rest taking waiting =>
    rw [taking] at hpcs ⊢
    have hend := place_turn j hpcs.2
    rw [takeRequest, waiting]
    dsimp only
    rw [goto, setOwner_self]
    refine distance_block hpcs.1.1 ?_ ?_ ?_ <;> simp only [place] <;> omega
  | @completes j turn q c completing =>
    have hne : j ≠ i := by
      rintro rfl
      exact hother turn q c completing
    obtain ⟨halive, _⟩ := completeRequest_moved h completing
    rw [completing] at hpcs ⊢
    unfold completeRequest at halive ⊢
    dsimp only at halive ⊢
    split
    next heq => simp [heq] at halive
    next =>
      rw [setOwner_self, h.config_eq, nextTurn]
      split_ifs with hturn
      · have hend := place_turn j hturn
        refine distance_block hpcs.1.1 ?_ ?_ ?_ <;> simp only [place] <;> omega
      · have hend := place_turn j hpcs.2.1
        refine distance_leave hpcs.1.1 hne ?_ ?_ <;> simp only [place] <;> omega

end Nearer

def turnOf (k : ℕ) : Event → Bool
  | .owner j _ => j == k
  | _ => false

section Moves

variable (h : Running config w)

include h

theorem step_frame [Inhabited Value] (hbudget : 0 < config.workBudget)
    (hi : Owns config k i) (hother : turnOf k e = false)
    (hstep : multicoreStep api w e = some w') :
    (w'.runtime.owners k).pc = (w.runtime.owners k).pc ∧ w'.produced i = w.produced i := by
  have hcaller : CallerStep config w w' →
      (w'.runtime.owners k).pc = (w.runtime.owners k).pc ∧ w'.produced i = w.produced i := by
    intro hcall
    obtain ⟨howners, hproduced, _⟩ := hcall.frame
    rw [howners, hproduced]
    exact ⟨rfl, rfl⟩
  cases e with
  | submit id q => exact hcaller (submit_cases h hstep)
  | take id => exact hcaller (take_cases h hstep)
  | requestStop owner =>
    obtain ⟨_, rfl⟩ := requestStop_cases h hstep
    exact ⟨stopOwner_pc _ _ _, rfl⟩
  | owner owner choice =>
    have hne : k ≠ owner := by
      rintro rfl
      simp [turnOf] at hother
    have hpcs := h.pcs owner
    obtain ⟨_, runtime, hthread, rfl⟩ := owner_step_cases h hstep
    refine ⟨?_, ?_⟩
    · rcases (ownerStep_frame h hbudget hthread).1 k hne with hsame | ⟨_, hflag⟩
      · exact congrArg Owner.pc hsame
      · rw [hflag]
    · unfold producedBy
      cases hpc : (w.runtime.owners owner).pc with
      | complete j turn q c =>
        rw [hpc] at hpcs
        have hij : i ≠ j := by
          rintro rfl
          exact hne (hi.2.symm.trans hpcs.1.2)
        split_ifs
        · rfl
        · exact note_of_ne hij
      | _ => rfl

theorem complete_produces [Inhabited Value] {turn : ℕ} {q : Request} {c : Completion Value}
    (hpc : (w.runtime.owners k).pc = .complete i turn q c)
    (hstep : multicoreStep api w (.owner k choice) = some w') :
    w'.produced i = w.produced i ++ [c] := by
  obtain ⟨_, runtime, hthread, rfl⟩ := owner_step_cases h hstep
  obtain ⟨halive, _⟩ := completeRequest_moved h hpc
  dsimp only [ownerStep] at hthread
  simp only [hpc, Option.some.injEq] at hthread
  subst hthread
  simp only [producedBy, hpc, halive, Bool.false_eq_true, if_false, note_self]

theorem produced_mono [Inhabited Value] (hbudget : 0 < config.workBudget)
    (hstep : multicoreStep api w e = some w') (i : ℕ) :
    (w.produced i).length ≤ (w'.produced i).length ∧ (w.accepted i).length ≤ (w'.accepted i).length := by
  rcases (running_step h hbudget hstep).2 i with hsame | hmoved
  · have hproduced := congrArg Pipeline.produced hsame
    have haccepted := congrArg Pipeline.accepted hsame
    simp only [pipeline] at hproduced haccepted
    rw [hproduced, haccepted]
    exact ⟨le_rfl, le_rfl⟩
  · exact ⟨hmoved.produced_mono, hmoved.accepted_mono⟩

/-- What an owner may still do before the first `n` requests of a group have their completions. -/
def potential (config : MulticoreConfig) (n k i : ℕ) (w : Observed Service Value) : ℕ :=
  (n - (w.produced i).length) * (2 * passSteps config + 1) +
    distance config i (w.runtime.owners k).pc

theorem executing_of_owns (hi : Owns config k i) :
    executing w.runtime i = inFlight (w.runtime.owners k).pc i := by
  unfold executing
  rw [((owns_iff h).mp hi).2]

theorem late_pending (hi : Owns config k i) {n : ℕ}
    (hn : n ≤ (w.accepted i).length) (hlate : (w.produced i).length < n)
    (hidle : inFlight (w.runtime.owners k).pc i = none) : queues w.runtime i ≠ [] := by
  have hlengths := (h.books i).lengths
  intro hempty
  have hqueued : (pipeline w i).queued = [] := hempty
  have hexecuting : (pipeline w i).executing = none := (executing_of_owns h hi).trans hidle
  rw [hqueued, hexecuting] at hlengths
  simp only [pipeline, Option.toList_none, List.length_nil, Nat.add_zero] at hlengths
  omega

theorem potential_step [Inhabited Value] (hbudget : 0 < config.workBudget)
    (hi : Owns config k i) (hswept : Swept config (queues w'.runtime) k (w'.runtime.owners k))
    (hstep : multicoreStep api w e = some w') {n : ℕ} (hn : n ≤ (w.accepted i).length)
    (hlate : (w'.produced i).length < n) :
    potential config n k i w' + (if turnOf k e then 1 else 0) ≤ potential config n k i w := by
  obtain ⟨hproduced, haccepted⟩ := produced_mono h hbudget hstep i
  cases hturn : turnOf k e with
  | false =>
    obtain ⟨hpc, hsame⟩ := step_frame h hbudget hi hturn hstep
    unfold potential
    rw [hpc, hsame]
    simp
  | true =>
    obtain ⟨choice, rfl⟩ : ∃ choice, e = .owner k choice := by
      cases e with
      | owner j choice =>
        simp only [turnOf, beq_iff_eq] at hturn
        exact ⟨choice, hturn ▸ rfl⟩
      | _ => cases hturn
    have hfar := distance_le hi.1 (w'.runtime.owners k).pc
    unfold potential
    simp only [if_true]
    by_cases hcompletes : ∃ turn q c, (w.runtime.owners k).pc = .complete i turn q c
    · obtain ⟨turn, q, c, hpc⟩ := hcompletes
      have hgrown := congrArg List.length (complete_produces h hpc hstep)
      rw [List.length_append, List.length_singleton] at hgrown
      have hfewer : n - (w.produced i).length = n - (w'.produced i).length + 1 := by omega
      rw [hfewer, Nat.succ_mul (n - (w'.produced i).length)]
      omega
    · -- the owner has not left: it would have emptied the ring
      have hgoes : ended (w'.runtime.owners k).pc = false := by
        cases hends : ended (w'.runtime.owners k).pc with
        | false => rfl
        | true =>
          have hempty := (hswept.left hends).2 i hi
          exact absurd hempty (late_pending (running_step h hbudget hstep).1 hi (hn.trans haccepted) hlate
            (ended_idle hends i))
      have hwaiting : ∀ turn, (w.runtime.owners k).pc = .take i turn → queues w.runtime i ≠ [] := by
        intro turn hpc
        refine late_pending h hi hn (lt_of_le_of_lt hproduced hlate) ?_
        rw [hpc]
        rfl
      obtain ⟨_, runtime, hthread, rfl⟩ := owner_step_cases h hstep
      have hnearer := step_nearer hbudget hi h hwaiting
        (fun turn q c hpc => hcompletes ⟨turn, q, c, hpc⟩) hthread hgoes
      have hfewer := Nat.mul_le_mul_right (2 * passSteps config + 1)
        (Nat.sub_le_sub_left hproduced n)
      dsimp only at hfewer ⊢
      omega

theorem late_le_capacity (i : ℕ) :
    (w.accepted i).length - (w.produced i).length ≤ config.capacity := by
  have hlengths := (h.books i).lengths
  have houtstanding := (h.books i).outstanding
  have hbounded := (h.books i).bounded
  have hqueued := (h.books i).queuedCount
  simp only [pipeline] at hlengths houtstanding hbounded hqueued
  omega

structure CompletesOnce (config : MulticoreConfig) (k i : ℕ) (w : Observed Service Value) : Prop where
  counts : (w.runtime.groups i).status.queued + (executing w.runtime i).toList.length +
    (w.runtime.groups i).status.completed = (w.runtime.groups i).status.outstanding
  bounded : (w.runtime.groups i).status.outstanding ≤ config.capacity
  rings : (w.runtime.groups i).status.queued = (w.runtime.groups i).requests.length ∧
    (w.runtime.groups i).status.completed = (w.runtime.groups i).completions.length
  room : ∀ turn q c, (w.runtime.owners k).pc = .complete i turn q c →
    (ringWrite config.capacity (w.runtime.groups i).completions c).isSome = true
  alive : w.runtime.aborted = false
  order : ∃ done, w.accepted i =
      done ++ ((executing w.runtime i).toList ++ (w.runtime.groups i).requests) ∧
    List.Forall₂ Answers done (w.produced i)
  handed : w.produced i = w.taken i ++ (w.runtime.groups i).completions
  left : ended (w.runtime.owners k).pc = true →
    (w.runtime.groups i).requests = [] ∧ List.Forall₂ Answers (w.accepted i) (w.produced i)

theorem completesOnce (hi : Owns config k i)
    (hswept : Swept config (queues w.runtime) k (w.runtime.owners k)) : CompletesOnce config k i w := by
  have hbooks := h.books i
  refine ⟨hbooks.outstanding, hbooks.bounded, ⟨hbooks.queuedCount, hbooks.completedCount⟩, ?_, h.alive,
    hbooks.order, hbooks.handed, ?_⟩
  · intro turn q c hpc
    have hbusy : (pipeline w i).executing = some q := by
      change executing w.runtime i = some q
      rw [executing_of_owns h hi, hpc]
      simp [inFlight]
    have hroom : (w.runtime.groups i).completions.length < config.capacity := hbooks.ready_room hbusy
    simp [ringWrite, hroom]
  · intro hends
    have hempty := (hswept.left hends).2 i hi
    exact ⟨hempty, hbooks.answered ((executing_of_owns h hi).trans (ended_idle hends i)) hempty⟩

end Moves

theorem workBudget_pos {sizes : ElementSizes} (valid : multicoreConfigValidate sizes config = .ok) :
    0 < config.workBudget := by
  by_contra hzero
  have hbudget : config.workBudget = 0 := by omega
  simp [multicoreConfigValidate, hbudget] at valid

variable [Inhabited Value] {services : ℕ → Service} {now : ℕ → ℕ}

section

variable (hbudget : 0 < config.workBudget) (run : Execution (multicoreSystem api config services now))

include hbudget

theorem run_running {m : ℕ} (hm : m ≤ run.length) : Running config (run.state m) :=
  have always : run.Meets fun _ _ => True := fun _ _ => trivial
  run.invariant always (Running config) (running_created services now)
    (fun _ _ _ h _ hstep => (running_step h hbudget hstep).1) m hm

def turns (k m : ℕ) : ℕ :=
  Nat.count (fun j => turnOf k (run.event j) = true) m

/-- So many steps of its owner complete whatever a group has accepted before them. -/
def completionBound (config : MulticoreConfig) : ℕ :=
  (config.capacity + 1) * (2 * passSteps config + 1)

theorem accepted_mono (i : ℕ) {a b : ℕ} (hab : a ≤ b) (hb : b ≤ run.length) :
    ((run.state a).accepted i).length ≤ ((run.state b).accepted i).length ∧
      ((run.state a).produced i).length ≤ ((run.state b).produced i).length := by
  refine run.span (fun a b => ((run.state a).accepted i).length ≤ ((run.state b).accepted i).length ∧
    ((run.state a).produced i).length ≤ ((run.state b).produced i).length)
    (fun _ => ⟨le_rfl, le_rfl⟩) (fun _ _ _ h h' => ⟨h.1.trans h'.1, h.2.trans h'.2⟩) ?_ hab hb
  intro m hm
  exact (produced_mono (run_running hbudget run hm.le) hbudget (run.transition m hm) i).symm

variable (meets : run.Meets fun w e => strandsRequests w e = false)

include meets

theorem run_swept {m : ℕ} (hm : m ≤ run.length) (k : ℕ) :
    Swept config (queues (run.state m).runtime) k ((run.state m).runtime.owners k) := by
  refine (run.invariant meets (fun w => Running config w ∧
    ∀ k, Swept config (queues w.runtime) k (w.runtime.owners k)) ?_ ?_ m hm).2 k
  · exact ⟨running_created services now, swept_created services now⟩
  · intro w e w' h hstrands hstep
    exact ⟨(running_step h.1 hbudget hstep).1, swept_step h.1 hbudget h.2 hstrands hstep⟩

theorem run_potential (hi : Owns config k i) {n a b : ℕ} (hab : a ≤ b) (hb : b ≤ run.length)
    (hn : n ≤ ((run.state a).accepted i).length) (hlate : ((run.state b).produced i).length < n) :
    potential config n k i (run.state b) + turns run k b ≤
      potential config n k i (run.state a) + turns run k a := by
  induction b, hab using Nat.le_induction with
  | base => exact le_rfl
  | succ b hab ih =>
    have hlt : b < run.length := hb
    have hmono := accepted_mono hbudget run i hab hlt.le
    have hproduced := (accepted_mono hbudget run i (Nat.le_succ b) hb).2
    have hbefore := ih hlt.le (lt_of_le_of_lt hproduced hlate)
    have hstep := potential_step (run_running hbudget run hlt.le) hbudget hi
      (run_swept hbudget run meets hb k) (run.transition b hlt) (hn.trans hmono.1) hlate
    unfold turns at hbefore ⊢
    rw [Nat.count_succ]
    omega

theorem completions_in_time (hi : Owns config k i) {a b : ℕ} (hab : a ≤ b) (hb : b ≤ run.length)
    (hturns : turns run k a + completionBound config ≤ turns run k b) :
    ((run.state a).accepted i).length ≤ ((run.state b).produced i).length := by
  by_contra hlate
  have hspent := run_potential hbudget run meets hi hab hb le_rfl (Nat.not_le.mp hlate)
  have hrunning := run_running hbudget run (hab.trans hb)
  have hfar := distance_le hi.1 ((run.state a).runtime.owners k).pc
  have hstart : potential config ((run.state a).accepted i).length k i (run.state a) <
      completionBound config := by
    have hfew := Nat.mul_le_mul_right (2 * passSteps config + 1) (late_le_capacity hrunning i)
    unfold potential completionBound
    rw [Nat.succ_mul config.capacity]
    omega
  omega

end

/-- In a run in which no stop strands a request, every group answers each accepted request once
and in order, and it does so within a bound of its owner's steps. -/
theorem requests_complete_once {sizes : ElementSizes}
    (valid : multicoreConfigValidate sizes config = .ok)
    (run : Execution (multicoreSystem api config services now))
    (meets : run.Meets fun w e => strandsRequests w e = false) :
    ∀ k i, Owns config k i →
      (∀ m, m ≤ run.length → CompletesOnce config k i (run.state m)) ∧
      ∀ a b, a ≤ b → b ≤ run.length → turns run k a + completionBound config ≤ turns run k b →
        ((run.state a).accepted i).length ≤ ((run.state b).produced i).length := by
  have hbudget := workBudget_pos valid
  intro k i hi
  refine ⟨fun m hm => ?_, fun a b hab hb hturns => ?_⟩
  · exact completesOnce (run_running hbudget run hm) hi (run_swept hbudget run meets hm k)
  · exact completions_in_time hbudget run meets hi hab hb hturns

end Progress

def pairConfig : MulticoreConfig :=
  { version := 1
    ownerCount := 1
    capacity := 1
    workBudget := 1
    tickMs := 10
    idleMs := 10
    groups :=
      [ { groupId := 1, ownerIndex := 0, electionMinTicks := 1, electionMaxTicks := 1 },
        { groupId := 2, ownerIndex := 0, electionMinTicks := 1, electionMaxTicks := 1 } ] }

def wordSizes : ElementSizes := { request := 8, completion := 8, sizeMax := 2 ^ 64 - 1 }

def silentApi : ServiceApi Unit Unit where
  execute service _ := (.ok, (), service)
  tick service _ := (.ok, service)

def pairSystem : StepSystem (Observed Unit Unit) Event :=
  multicoreSystem silentApi pairConfig (fun _ => ()) (fun _ => 0)

def quietTurn : Event := .owner 0 { pollResult := .ok, now := 0, random := .ok 0 }

def statusRequest : Request := { operation := .status, requestId := 7 }

def servedEvents : List Event :=
  [.submit 1 statusRequest] ++ List.replicate 12 quietTurn ++ [.requestStop 0] ++
    List.replicate 10 quietTurn

def servedRun : Execution pairSystem :=
  Execution.ofEvents pairSystem servedEvents (by decide +kernel)

theorem served_request_completes :
    multicoreConfigValidate wordSizes pairConfig = .ok ∧ Owns pairConfig 0 0 ∧
      (servedRun.state servedRun.length).runtime.exitedCount = 1 ∧
      (servedRun.state servedRun.length).accepted 0 = [statusRequest] ∧
      CompletesOnce pairConfig 0 0 (servedRun.state servedRun.length) := by
  have hkept : servedRun.Meets fun w e => (!strandsRequests w e) = true :=
    Execution.ofEvents_meets _ (by decide +kernel)
  have hmeets : servedRun.Meets fun w e => strandsRequests w e = false :=
    hkept.imp fun _ _ h => by simpa using h
  have hvalid : multicoreConfigValidate wordSizes pairConfig = .ok := by decide +kernel
  have howns : Owns pairConfig 0 0 := ⟨by decide, rfl⟩
  exact ⟨hvalid, howns, by decide +kernel, by decide +kernel,
    (requests_complete_once hvalid servedRun hmeets 0 0 howns).1 _ le_rfl⟩

/-- The owner finds the first group empty, then a request for it is accepted and the stop follows;
the owner reads the flag at the second group, finds no work there and leaves. -/
def strandedEvents : List Event :=
  List.replicate 5 quietTurn ++ [.submit 1 statusRequest, .requestStop 0] ++
    List.replicate 7 quietTurn

def strandedRun : Execution pairSystem :=
  Execution.ofEvents pairSystem strandedEvents (by decide +kernel)

theorem stranded_request :
    multicoreConfigValidate wordSizes pairConfig = .ok ∧
      (strandedRun.state strandedRun.length).runtime.exitedCount = pairConfig.ownerCount ∧
      (strandedRun.state strandedRun.length).accepted 0 = [statusRequest] ∧
      (strandedRun.state strandedRun.length).produced 0 = [] ∧
      ((strandedRun.state strandedRun.length).runtime.groups 0).requests = [statusRequest] := by
  decide +kernel

end RaftMulticoreSafety
