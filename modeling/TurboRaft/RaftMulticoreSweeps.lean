import TurboRaft.RaftMulticoreRings

/-! # Stopping the multicore runtime

An owner that ends its loop has emptied the rings of its groups, unless the stop came between its
visits of two groups of which the first had a request again. -/
namespace RaftMulticoreSweeps

open RaftMulticore RaftMulticoreRings Function

variable {Service Value : Type} {api : ServiceApi Service Value}
variable {config : MulticoreConfig} {w w' : Observed Service Value} {r : Multicore Service Value}
variable {k i : ℕ} {e : Event}

variable {pc : OwnerPc Value} {choice : Choice} {r' : Multicore Service Value}

/-- The first group that the current pass over the groups has not finished. -/
def firstUnfinished (count : ℕ) : OwnerPc Value → ℕ
  | .visit i | .tick i | .recordError (some i) _ | .reportError (some i) _ | .take i _
  | .execute i _ _ _ _ | .complete i _ _ _ => i
  | .settle | .inspect | .waiting | .close _ | .exited => count
  | .head | .poll | .recordError none _ | .reportError none _ | .stopAll _ => 0

/-- The first group before whose work the pass will still read the stop flag. -/
def firstUnread (count : ℕ) : OwnerPc Value → ℕ
  | .visit i => i
  | .tick i | .recordError (some i) _ | .reportError (some i) _ | .take i _
  | .execute i _ _ _ _ | .complete i _ _ _ => i + 1
  | .settle | .inspect | .waiting | .close _ | .exited => count
  | .head | .poll | .recordError none _ | .reportError none _ | .stopAll _ => 0

def busy : OwnerPc Value → Bool
  | .execute _ _ _ _ _ | .complete _ _ _ _ => true
  | _ => false

def stopsAll : OwnerPc Value → Bool
  | .stopAll _ => true
  | _ => false

def ownGroups (r : Multicore Service Value) (k : ℕ) : List ℕ :=
  (List.range (groupCount r)).filter fun i => (r.groups i).assignment.ownerIndex == k

/-- A stop of this owner would leave a request behind: the pass has found no work, a group it has
finished has a request again, those it has not finished have none, and it will still read the stop
flag. -/
def strands (r : Multicore Service Value) (k : ℕ) : Bool :=
  let o := r.owners k
  let unfinished := firstUnfinished (groupCount r) o.pc
  let unread := firstUnread (groupCount r) o.pc
  !o.stopping && !o.worked && !busy o.pc &&
    (ownGroups r k).any (fun i => decide (i < unfinished) && !(r.groups i).requests.isEmpty) &&
    (ownGroups r k).all (fun i => decide (i < unfinished) || (r.groups i).requests.isEmpty) &&
    (ownGroups r k).any (fun i => decide (unread ≤ i))

def stoppedOwner (r : Multicore Service Value) : Event → Option ℕ
  | .requestStop k => some k
  | .owner k _ =>
    match (r.owners k).pc with
    | .stopAll next => if next < r.config.ownerCount then some next else none
    | _ => none
  | _ => none

def strandsRequests (w : Observed Service Value) (e : Event) : Bool :=
  (stoppedOwner w.runtime e).any (strands w.runtime)

/-- How far the pass of a stopped owner that has found no work has come: what it has finished is
empty, or it will find work, or it has not noticed the stop and will not in this pass. -/
def SweepOk (config : MulticoreConfig) (queue : ℕ → List Request) (k : ℕ) (saw : Bool)
    (pc : OwnerPc Value) : Prop :=
  (∀ i, Owns config k i → i < firstUnfinished config.groups.length pc → queue i = []) ∨
    (∃ i, Owns config k i ∧ firstUnfinished config.groups.length pc ≤ i ∧ queue i ≠ []) ∨
    (saw = false ∧ ∀ i, Owns config k i → i < firstUnread config.groups.length pc)

structure Swept (config : MulticoreConfig) (queue : ℕ → List Request) (k : ℕ) (o : Owner Value) :
    Prop where
  saw : o.sawStopping = true → o.stopping = true
  stopped : ∀ next, o.pc = .stopAll next → k < next → o.stopping = true
  left : ended o.pc = true → o.stopping = true ∧ ∀ i, Owns config k i → queue i = []
  sweep : o.stopping = true → o.worked = false → busy o.pc = false →
    SweepOk config queue k o.sawStopping o.pc

variable {queue queue' : ℕ → List Request} {o : Owner Value}

theorem SweepOk.start {saw : Bool}
    (h : firstUnfinished config.groups.length pc = 0) : SweepOk config queue k saw pc :=
  Or.inl fun i _ hlt => absurd (h ▸ hlt) (Nat.not_lt_zero i)

theorem Swept.congr (h : Swept config queue k o) (hqueue : ∀ i, Owns config k i → queue' i = queue i) :
    Swept config queue' k o where
  saw := h.saw
  stopped := h.stopped
  left hended := by
    obtain ⟨hstopping, hempty⟩ := h.left hended
    exact ⟨hstopping, fun i hi => (hqueue i hi).trans (hempty i hi)⟩
  sweep hstopping hworked hbusy := by
    rcases h.sweep hstopping hworked hbusy with hfinished | ⟨i, hi, hle, hwaiting⟩ | hsaw
    · exact Or.inl fun i hi hlt => (hqueue i hi).trans (hfinished i hi hlt)
    · exact Or.inr (Or.inl ⟨i, hi, hle, hqueue i hi ▸ hwaiting⟩)
    · exact Or.inr (Or.inr hsaw)

theorem Swept.of_running (h : Swept config queue k o) (hflag : o.stopping = false) :
    Swept config queue' k o where
  saw := h.saw
  stopped := h.stopped
  left hended := absurd (h.left hended).1 (by simp [hflag])
  sweep hstopping := absurd hstopping (by simp [hflag])

theorem mem_ownGroups (h : Running config w) : i ∈ ownGroups w.runtime k ↔ Owns config k i := by
  unfold ownGroups Owns groupCount
  rw [List.mem_filter, List.mem_range, h.config_eq, beq_iff_eq, h.assigned i]

theorem Swept.stop (h : Swept config (queues w.runtime) k (w.runtime.owners k))
    (hrun : Running config w) (hstrands : strands w.runtime k = false) :
    Swept config (queues w.runtime) k { w.runtime.owners k with stopping := true } := by
  cases hflag : (w.runtime.owners k).stopping with
  | true =>
    rw [← hflag]
    exact h
  | false =>
    have hsaw : (w.runtime.owners k).sawStopping = false := by
      by_contra hsaw
      have := h.saw (by simpa using hsaw)
      simp [hflag] at this
    refine ⟨fun _ => rfl, fun _ _ _ => rfl, fun hended => ?_, fun _ hworked hbusy => ?_⟩
    · exact absurd (h.left hended).1 (by simp [hflag])
    dsimp only at hworked hbusy ⊢
    by_contra hnone
    simp only [SweepOk, not_or, not_forall, not_exists, not_and] at hnone
    obtain ⟨⟨i, hi, hlt, hwaiting⟩, hempty, hunread⟩ := hnone
    obtain ⟨j, hj, hle⟩ := hunread hsaw
    -- the three clauses together are the forbidden situation
    have hcount : groupCount w.runtime = config.groups.length := by
      rw [groupCount, hrun.config_eq]
    have hforbidden : strands w.runtime k = true := by
      unfold strands
      simp only [hflag, hworked, hbusy, hcount, Bool.not_false, Bool.true_and, Bool.and_eq_true,
        List.any_eq_true, List.all_eq_true, decide_eq_true_eq, Bool.or_eq_true]
      refine ⟨⟨⟨i, (mem_ownGroups hrun).mpr hi, hlt, ?_⟩, fun l hl => ?_⟩,
        ⟨j, (mem_ownGroups hrun).mpr hj, Nat.not_lt.mp hle⟩⟩
      · simpa [queues] using hwaiting
      · have hown := (mem_ownGroups hrun).mp hl
        rcases Nat.lt_or_ge l (firstUnfinished config.groups.length (w.runtime.owners k).pc) with
          hbefore | hafter
        · exact Or.inl hbefore
        · exact Or.inr (by simpa [queues] using hempty l hown hafter)
    rw [hforbidden] at hstrands
    cases hstrands

/-- What the step of a thread leaves alone: the other owners but for their stop flag, and the
groups of other owners. -/
theorem ownerStep_frame [Inhabited Value] (h : Running config w) (hbudget : 0 < config.workBudget)
    (hthread : ownerStep api w.runtime k choice = some r') :
    (∀ j, j ≠ k → r'.owners j = w.runtime.owners j ∨
      (stoppedOwner w.runtime (.owner k choice) = some j ∧
        r'.owners j = { w.runtime.owners j with stopping := true })) ∧
      ∀ i, ¬ Owns config k i → queues r' i = queues w.runtime i := by
  have hpcs := h.pcs k
  cases ownerStep_cases h hbudget hthread with
  | moves same owners =>
    exact ⟨fun j hj => .inl (by rw [setOwner_of_ne hj, owners]), fun i _ => (same.rings i).requests⟩
  | @stops next stopping more =>
    refine ⟨fun j hj => ?_, fun _ _ => rfl⟩
    rw [goto, setOwner_of_ne hj]
    by_cases hsame : j = next
    · subst hsame
      refine .inr ⟨?_, setOwner_self⟩
      simp [stoppedOwner, stopping, h.config_eq, more]
    · exact .inl (setOwner_of_ne hsame)
  | takes taking waiting =>
    rw [taking] at hpcs
    refine ⟨fun j hj => .inl ?_, fun j hj => congrArg Group.requests
      ((takeRequest_moved h taking waiting).others j fun hji => hj (hji ▸ hpcs.1))⟩
    rw [takeRequest, waiting]
    exact setOwner_of_ne hj
  | completes completing =>
    obtain ⟨_, hmoved⟩ := completeRequest_moved h completing
    rw [completing] at hpcs
    refine ⟨fun j hj => .inl ?_, fun j hj => congrArg Group.requests
      (hmoved.others j fun hji => hj (hji ▸ hpcs.1))⟩
    unfold completeRequest
    dsimp only
    split
    · rfl
    · exact setOwner_of_ne hj

theorem Swept.within (hsaw : o.sawStopping = true → o.stopping = true)
    (hplace : ended o.pc = false ∧ stopsAll o.pc = false)
    (hsweep : o.stopping = true → o.worked = false → busy o.pc = false →
      SweepOk config queue k o.sawStopping o.pc) : Swept config queue k o := by
  refine ⟨hsaw, fun next hpc => ?_, fun hends => ?_, hsweep⟩
  · rw [hpc] at hplace
    cases hplace.2
  · rw [hplace.1] at hends
    cases hends

theorem Swept.stay (h : Swept config queue k o)
    (hplace : ended pc = false ∧ stopsAll pc = false) (hbusy : busy o.pc = false)
    (hunfinished : firstUnfinished config.groups.length pc =
      firstUnfinished config.groups.length o.pc)
    (hunread : firstUnread config.groups.length pc = firstUnread config.groups.length o.pc) :
    Swept config queue k { o with pc } := by
  refine Swept.within h.saw hplace fun hstopping hworked _ => ?_
  have hsweep := h.sweep hstopping hworked hbusy
  unfold SweepOk at hsweep ⊢
  rwa [hunfinished, hunread]

theorem Swept.leave (h : Swept config queue k o) (hempty : Owns config k i → queue i = [])
    (hbusy : busy o.pc = false) (hunfinished : firstUnfinished config.groups.length o.pc = i)
    (hunread : firstUnread config.groups.length o.pc ≤ i + 1) :
    Swept config queue k ({ o with pc := .visit (i + 1) } : Owner Value) := by
  refine Swept.within h.saw ⟨rfl, rfl⟩ fun hstopping hworked _ => ?_
  have hsweep := h.sweep hstopping hworked hbusy
  unfold SweepOk at hsweep ⊢
  rw [hunfinished] at hsweep
  rcases hsweep with hfinished | ⟨j, hj, hle, hwaiting⟩ | ⟨hsaw, hread⟩
  · refine .inl fun j hj (hlt : j < i + 1) => ?_
    by_cases hji : j = i
    · exact hji ▸ hempty (hji ▸ hj)
    · exact hfinished j hj (by omega)
  · have hne : j ≠ i := fun hji => hwaiting (hji ▸ hempty (hji ▸ hj))
    exact .inr (.inl ⟨j, hj, Nat.succ_le_of_lt (lt_of_le_of_ne hle hne.symm), hwaiting⟩)
  · exact .inr (.inr ⟨hsaw, fun j hj => lt_of_lt_of_le (hread j hj) hunread⟩)

theorem Swept.close (h : Swept config queue k o) (hends : ended pc = true)
    (hleft : o.stopping = true ∧ ∀ i, Owns config k i → queue i = []) :
    Swept config queue k { o with pc } := by
  refine ⟨h.saw, fun next hpc => ?_, fun _ => hleft, fun _ _ _ => .inl fun i hi _ => hleft.2 i hi⟩
  dsimp only at hpc
  rw [hpc] at hends
  cases hends

theorem moves_swept {o' : Owner Value} (hmove : Moves config k queue o o')
    (h : Swept config queue k o) (hk : k < config.ownerCount) : Swept config queue k o' := by
  cases hmove with
  | @opens pc saw worked step seen =>
    have hstart : firstUnfinished config.groups.length pc = 0 ∧ ended pc = false ∧
        ∀ next, pc = .stopAll next → next = 0 := by
      generalize o.pc = before at step
      cases step <;> simp [firstUnfinished, ended, eq_comm]
    refine ⟨fun hsaw => ?_, fun next hnext hlt => ?_, fun hends => ?_, fun _ _ _ => .start hstart.1⟩
    · rcases seen hsaw with hbefore | hstopping | hlast
      · exact h.saw hbefore
      · exact hstopping
      · exact h.stopped _ hlast hk
    · rw [hstart.2.2 next hnext] at hlt
      exact absurd hlt (Nat.not_lt_zero k)
    · rw [hstart.2.1] at hends
      cases hends
  | @enters i pc visits owns entered =>
    rcases entered with ⟨rfl, hflag⟩ | rfl
    · exact Swept.within id ⟨rfl, rfl⟩ fun hstopping => absurd hstopping (by simp [hflag])
    · refine Swept.within id ⟨rfl, rfl⟩ fun hstopping hworked _ => ?_
      have hsweep := h.sweep hstopping hworked (by rw [visits]; rfl)
      rw [visits] at hsweep
      rcases hsweep with hfinished | hwaiting | ⟨_, hread⟩
      · exact .inl hfinished
      · exact .inr (.inl hwaiting)
      · -- the flag of this very group was still to be read
        exact absurd (hread i owns) (lt_irrefl i)
  | works owns step =>
    generalize hpc : o.pc = before at step
    cases step with
    | executes => exact Swept.within h.saw ⟨rfl, rfl⟩ fun _ _ hbusy => by cases hbusy
    | _ => exact h.stay ⟨rfl, rfl⟩ (by rw [hpc]; rfl) (by rw [hpc]; rfl) (by rw [hpc]; rfl)
  | leaves inside done =>
    rcases done with ⟨hpc, hforeign⟩ | ⟨turn, hpc, _, hempty⟩
    · exact h.leave (fun hi => absurd hi hforeign) (by rw [hpc]; rfl) (by rw [hpc]; rfl)
        (by rw [hpc]; exact Nat.le_succ _)
    · exact h.leave (fun _ => hempty) (by rw [hpc]; rfl) (by rw [hpc]; rfl) (by rw [hpc]; exact le_rfl)
  | settles visited =>
    exact h.stay ⟨rfl, rfl⟩ (by rw [visited]; rfl) (by rw [visited]; rfl) (by rw [visited]; rfl)
  | waits waited =>
    rcases waited with ⟨hpc, rfl⟩ | ⟨hpc, rfl⟩ <;>
      exact h.stay ⟨rfl, rfl⟩ (by rw [hpc]; rfl) (by rw [hpc]; rfl) (by rw [hpc]; rfl)
  | returns => exact Swept.within h.saw ⟨rfl, rfl⟩ fun _ _ _ => .start rfl
  | closes ends leaving =>
    rcases leaving with hends | ⟨hpc, hsaw, hworked⟩
    · exact h.close ends (h.left hends)
    · refine h.close ends ⟨h.saw hsaw, fun i hi => ?_⟩
      have hsweep := h.sweep (h.saw hsaw) hworked (by rw [hpc]; rfl)
      rw [hpc] at hsweep
      rcases hsweep with hfinished | ⟨j, hj, hle, _⟩ | ⟨hunseen, _⟩
      · exact hfinished i hi hi.1
      · exact absurd hj.1 (Nat.not_lt.mpr hle)
      · rw [hsaw] at hunseen
        cases hunseen

theorem owner_swept_self [Inhabited Value] (h : Running config w) (hbudget : 0 < config.workBudget)
    (hk : k < config.ownerCount) (hswept : Swept config (queues w.runtime) k (w.runtime.owners k))
    (hthread : ownerStep api w.runtime k choice = some r') :
    Swept config (queues r') k (r'.owners k) := by
  cases ownerStep_cases h hbudget hthread with
  | moves same owners move =>
    rw [setOwner_self]
    exact (moves_swept move hswept hk).congr fun i _ => (same.rings i).requests
  | @stops next stopping more =>
    rw [goto, setOwner_self, stopOwner]
    by_cases hsame : k = next
    · subst hsame
      rw [setOwner_self]
      refine ⟨fun _ => rfl, fun _ _ _ => rfl, fun hends => ?_, fun _ _ _ => SweepOk.start rfl⟩
      cases hends
    · rw [setOwner_of_ne hsame]
      refine ⟨hswept.saw, fun m hm hlt => ?_, fun hends => ?_, fun _ _ _ => SweepOk.start rfl⟩
      · cases hm
        exact hswept.stopped next stopping (by omega)
      · cases hends
  | takes taking waiting =>
    rw [takeRequest, waiting]
    dsimp only
    rw [goto, setOwner_self]
    exact Swept.within hswept.saw ⟨rfl, rfl⟩ fun _ _ hbusy => by cases hbusy
  | @completes i turn q c completing =>
    obtain ⟨halive, _⟩ := completeRequest_moved h completing
    unfold completeRequest at halive ⊢
    dsimp only at halive ⊢
    split
    next heq => simp [heq] at halive
    next =>
      rw [setOwner_self]
      refine Swept.within hswept.saw ?_ fun _ hworked _ => by cases hworked
      unfold nextTurn
      split_ifs <;> exact ⟨rfl, rfl⟩

theorem caller_swept (hcall : CallerStep config w w') (h : Running config w)
    (hswept : Swept config (queues w.runtime) k (w.runtime.owners k)) :
    Swept config (queues w'.runtime) k (w'.runtime.owners k) := by
  obtain ⟨howners, _, hqueues⟩ := hcall.frame
  rw [howners]
  -- only an owner that is not stopped gets a new request
  cases hflag : (w.runtime.owners k).stopping with
  | false => exact hswept.of_running hflag
  | true =>
    refine hswept.congr fun i hi => (hqueues i).resolve_right ?_
    rw [((owns_iff h).mp hi).2, hflag]
    exact Bool.noConfusion

/-- Every event keeps the sweep of every owner, unless it strands requests. -/
theorem swept_step [Inhabited Value] (h : Running config w) (hbudget : 0 < config.workBudget)
    (hswept : ∀ k, Swept config (queues w.runtime) k (w.runtime.owners k))
    (hstrands : strandsRequests w e = false) (hstep : multicoreStep api w e = some w') (k : ℕ) :
    Swept config (queues w'.runtime) k (w'.runtime.owners k) := by
  cases e with
  | submit id q => exact caller_swept (submit_cases h hstep) h (hswept k)
  | take id => exact caller_swept (take_cases h hstep) h (hswept k)
  | requestStop owner =>
    obtain ⟨_, rfl⟩ := requestStop_cases h hstep
    dsimp only [stopOwner]
    by_cases hk : k = owner
    · subst hk
      rw [setOwner_self]
      exact (hswept k).stop h (by simpa [strandsRequests, stoppedOwner] using hstrands)
    · rw [setOwner_of_ne hk]
      exact hswept k
  | owner owner choice =>
    obtain ⟨howner, runtime, hthread, rfl⟩ := owner_step_cases h hstep
    by_cases hk : k = owner
    · subst hk
      exact owner_swept_self h hbudget howner (hswept k) hthread
    · obtain ⟨howners, hqueues⟩ := ownerStep_frame h hbudget hthread
      have hqueue : ∀ i, Owns config k i → queues runtime i = queues w.runtime i :=
        fun i hi => hqueues i fun hother => hk (hi.2.symm.trans hother.2)
      rcases howners k hk with hsame | ⟨hstopped, hflag⟩
      · rw [hsame]
        exact (hswept k).congr hqueue
      · rw [hflag]
        refine Swept.congr ((hswept k).stop h ?_) hqueue
        simpa [strandsRequests, hstopped] using hstrands

theorem swept_created (services : ℕ → Service) (now : ℕ → ℕ) (k : ℕ) :
    Swept config (queues (multicoreCreated config services now : Multicore Service Value)) k
      ((multicoreCreated config services now : Multicore Service Value).owners k) :=
  Swept.within (fun hsaw => by cases hsaw) ⟨rfl, rfl⟩ fun _ _ _ => SweepOk.start rfl

end RaftMulticoreSweeps
