import Mathlib.Data.List.TakeWhile
import TurboRaft.RaftRuntimeStages

/-! # Applying a Ready

The state machine takes batches of normal entries in order until it refuses one, and the entries
taken are acknowledged. -/
namespace RaftRuntimeApplying

open RaftTypes RaftConfiguration RaftCore RaftCoreRuns RaftRuntime RaftRuntimeStages
open RaftCoreHistories RaftCoreProgress

variable {drive drive' : Drive Script} {ready : Ready} {tables : Tables} {core core' : Core}

/-- Acknowledgements keep the log and the commit index. -/
structure Kept (core core' : Core) : Prop where
  resting : Resting core'
  log : core'.log = core.log
  commit : core'.commitIndex = core.commitIndex

theorem Kept.refl (h : Resting core) : Kept core core := ⟨h, rfl, rfl⟩

theorem Kept.trans {core'' : Core} (h : Kept core core') (h' : Kept core' core'') :
    Kept core core'' :=
  ⟨h'.resting, h'.log.trans h.log, h'.commit.trans h.commit⟩

def progress (acknowledged : Bool) (core : Core) (count : ℕ) : Core :=
  if acknowledged then { core with appliedIndex := core.appliedIndex + count } else core

/-- A core whose Ready is acknowledged with all entries admitted and the first ones applied. -/
def ackedCore (core : Core) (admitted applied : ℕ) : Core :=
  { core with
    appliedIndex := core.appliedIndex + applied
    applyAdmittedIndex := core.applyAdmittedIndex + admitted
    pendingApplyIndex := 0
    readyOutstanding := false }

inductive AckOutcome (drive : Drive Script) (core : Core) : Status × Drive Script → Prop where
  | done {drive' : Drive Script} (same : drive'.core = core) (kept : Kept drive.core drive'.core)
      (host : drive'.host = drive.host) (runtime : drive'.runtime = drive.runtime) :
      AckOutcome drive core (.ok, drive')
  | failed {status : Status} {drive' : Drive Script} (status_ne : status ≠ .ok)
      (kept : Kept drive.core drive'.core) (host : drive'.host = drive.host)
      (faulted : drive'.runtime.faulted = true) : AckOutcome drive core (status, drive')

theorem AckOutcome.after {result : Status × Drive Script} (h : AckOutcome drive' core result)
    (hkept : Kept drive.core drive'.core) (hhost : drive'.host = drive.host)
    (hruntime : drive'.runtime = drive.runtime) : AckOutcome drive core result := by
  cases h with
  | done hsame hlater hhost' hruntime' =>
    exact .done hsame (hkept.trans hlater) (hhost'.trans hhost) (hruntime'.trans hruntime)
  | failed hstatus hlater hhost' hfaulted =>
    exact .failed hstatus (hkept.trans hlater) (hhost'.trans hhost) hfaulted

theorem ackEntries_outcome (entries : List Entry) (drive : Drive Script) (h : Resting drive.core) :
    AckOutcome drive { drive.core with appliedIndex := drive.core.appliedIndex + entries.length }
      (ackEntries entries drive) := by
  induction entries generalizing drive with
  | nil => exact .done rfl (.refl h) rfl rfl
  | cons entry rest ih =>
    unfold ackEntries
    rcases coreAckApplied_cases drive.core entry.index with ⟨hstatus, hsame⟩ | ⟨_, hbelow, hok⟩
    · dsimp only
      rw [if_pos hstatus]
      refine .failed hstatus ?_ rfl rfl
      rw [hsame]
      exact .refl h
    · rw [hok]
      dsimp only
      have hkept : Kept drive.core { drive.core
        with appliedIndex := drive.core.appliedIndex + 1 } :=
        ⟨(Tended.of_acks h (Nat.le_succ _) hbelow h.admitted_le h.handed).resting, rfl, rfl⟩
      have hrest := ih { drive with
        core := { drive.core with appliedIndex := drive.core.appliedIndex + 1 }
        result := { drive.result with appliedThrough := entry.index } } hkept.resting
      rw [Nat.add_assoc, Nat.add_comm 1] at hrest
      exact hrest.after hkept rfl rfl

theorem ackReadyPrefix_outcome (entries : List Entry) {applied : ℕ}
    (happlied : applied ≤ entries.length)
    (h : Resting drive.core) :
    AckOutcome drive (ackedCore drive.core entries.length applied)
      (ackReadyPrefix entries applied drive) := by
  unfold ackReadyPrefix
  have htended := coreAckReady_tended h entries.length
  rcases coreAckReady_cases drive.core entries.length with ⟨hstatus, hsame⟩ | ⟨_, _, hok⟩
  · dsimp only
    rw [if_pos hstatus]
    refine .failed hstatus ?_ rfl rfl
    rw [hsame]
    exact .refl h
  · rw [hok] at htended ⊢
    dsimp only
    have hkept : Kept drive.core (ackedCore drive.core entries.length 0) :=
      ⟨htended.resting, rfl, rfl⟩
    have hrest := ackEntries_outcome (entries.take applied)
      (Drive.at { drive with core := ackedCore drive.core entries.length 0 } .coreAdvance) hkept.resting
    rw [List.length_take, min_eq_left happlied] at hrest
    exact hrest.after hkept rfl rfl

def isNormal (entry : Entry) : Bool := !confEntryIsConfiguration entry

def normalEntries (entries : List Entry) : List Entry := entries.filter isNormal

theorem normalEntries_append (xs ys : List Entry) :
    normalEntries (xs ++ ys) = normalEntries xs ++ normalEntries ys :=
  List.filter_append xs ys

/-- The state machine has taken the normal ones of these entries, and nothing else was called. -/
def Takes (drive drive' : Drive Script) (entries : List Entry) : Prop :=
  ∃ calls, drive'.host.trace = drive.host.trace ++ calls ∧
    (∀ c ∈ calls, toStateMachine c = true) ∧ covered calls = normalEntries entries

theorem Takes.nothing (h : drive'.host = drive.host) : Takes drive drive' [] :=
  ⟨[], by rw [h, List.append_nil], fun _ hc => absurd hc List.not_mem_nil, rfl⟩

theorem Takes.trans {drive'' : Drive Script} {xs ys : List Entry} (h : Takes drive drive' xs)
    (h' : Takes drive' drive'' ys) : Takes drive drive'' (xs ++ ys) := by
  obtain ⟨calls, htrace, hkinds, hcovered⟩ := h
  obtain ⟨more, htrace', hkinds', hcovered'⟩ := h'
  refine ⟨calls ++ more, by rw [htrace', htrace, List.append_assoc], ?_, ?_⟩
  · intro c hc
    rcases List.mem_append.mp hc with hfirst | hrest
    · exact hkinds c hfirst
    · exact hkinds' c hrest
  · rw [covered_append, hcovered, hcovered', normalEntries_append]

theorem Takes.refused {batch : List Entry} (hstatus : nextAnswer drive.host ≠ .ok)
    (hhost : drive'.host = heard (.apply batch) drive.host) : Takes drive drive' [] := by
  refine ⟨[.apply batch (nextAnswer drive.host)], by rw [hhost]; rfl, ?_, ?_⟩
  · intro c hc
    rw [List.mem_singleton.mp hc]
    rfl
  · cases hanswer : nextAnswer drive.host with
    | ok => exact absurd hanswer hstatus
    | _ => rfl

theorem Takes.batch {batch : List Entry} (hstatus : nextAnswer drive.host = .ok)
    (hnormal : normalEntries batch = batch)
      (hhost : drive'.host = heard (.apply batch) drive.host) :
    Takes drive drive' batch := by
  refine ⟨[.apply batch (nextAnswer drive.host)], by rw [hhost]; rfl, ?_, ?_⟩
  · intro c hc
    rw [List.mem_singleton.mp hc]
    rfl
  · rw [hstatus, hnormal]
    exact List.append_nil batch

/-- How the loop over committed entries ends that starts at `first`. -/
inductive ApplyOutcome (entries : List Entry) (acknowledged : Bool) (first : ℕ)
    (drive : Drive Script) : Status × Drive Script → Prop where
  | done {drive' : Drive Script}
      (same : drive'.core = progress acknowledged drive.core (entries.length - first))
      (kept : Kept drive.core drive'.core)
      (runtime : drive'.runtime = { drive.runtime with
        blockedEntries := [], blockedApplyBegin := 0, applyBlocked := false })
      (takes : Takes drive drive' (entries.drop first)) :
      ApplyOutcome entries acknowledged first drive (.ok, drive')
  | blocked {drive' : Drive Script} {position : ℕ} {entry : Entry} (reached : first ≤ position)
      (next : entries[position]? = some entry) (normal : isNormal entry = true)
      (same : drive'.core =
        if acknowledged then
          { drive.core with appliedIndex := drive.core.appliedIndex + (position - first) }
        else ackedCore drive.core entries.length position)
      (kept : Kept drive.core drive'.core)
      (runtime : drive'.runtime = { drive.runtime with
        blockedEntries := entries, blockedApplyBegin := position, applyBlocked := true })
      (takes : Takes drive drive' ((entries.drop first).take (position - first))) :
      ApplyOutcome entries acknowledged first drive (.ebusy, drive')
  | failed {status : Status} {drive' : Drive Script} {position : ℕ} (status_ne : status ≠ .ok)
      (reached : first ≤ position) (within : position ≤ entries.length)
      (kept : Kept drive.core drive'.core) (faulted : drive'.runtime.faulted = true)
      (takes : Takes drive drive' ((entries.drop first).take (position - first))) :
      ApplyOutcome entries acknowledged first drive (status, drive')

variable {entries : List Entry} {acknowledged : Bool} {first : ℕ}

theorem progress_add (acknowledged : Bool) (core : Core) (a b : ℕ) :
    progress acknowledged (progress acknowledged core a) b =
      progress acknowledged core (a + b) := by
  cases acknowledged with
  | false => rfl
  | true => simp only [progress, if_true, Nat.add_assoc]

theorem ApplyOutcome.after {result : Status × Drive Script} (count : ℕ)
    (h : ApplyOutcome entries acknowledged (first + count) drive' result)
    (hwithin : first + count ≤ entries.length)
    (hsame : drive'.core = progress acknowledged drive.core count)
    (hkept : Kept drive.core drive'.core) (hruntime : drive'.runtime = drive.runtime)
    (htakes : Takes drive drive' ((entries.drop first).take count)) :
    ApplyOutcome entries acknowledged first drive result := by
  have hjoin : ∀ position, first + count ≤ position →
      (entries.drop first).take count ++ (entries.drop (first + count)).take
        (position - (first + count)) = (entries.drop first).take (position - first) := by
    intro position hposition
    rw [← List.drop_drop, ← List.take_add]
    congr 1
    omega
  cases h with
  | done hsame' hkept' hruntime' htakes' =>
    refine .done ?_ (hkept.trans hkept') (by rw [hruntime', hruntime]) ?_
    · rw [hsame', hsame, progress_add]
      congr 1
      omega
    · have hall := htakes.trans htakes'
      rwa [← List.drop_drop, List.take_append_drop] at hall
  | @blocked _ position entry hreached hnext hnormal hsame' hkept' hruntime' htakes' =>
    refine .blocked (by omega) hnext hnormal ?_ (hkept.trans hkept')
      (by rw [hruntime', hruntime]) ?_
    · rw [hsame', hsame]
      cases acknowledged with
      | false => rfl
      | true =>
        simp only [progress, if_true, Nat.add_assoc]
        rw [show count + (position - (first + count)) = position - first by omega]
    · rw [← hjoin position hreached]
      exact htakes.trans htakes'
  | @failed status _ position hstatus hreached hlast hkept' hfaulted htakes' =>
    refine .failed hstatus (by omega) hlast (hkept.trans hkept') hfaulted ?_
    rw [← hjoin position hreached]
    exact htakes.trans htakes'

theorem ackAfter_outcome (passed : List Entry) (acknowledged : Bool) (drive : Drive Script)
    (h : Resting drive.core) :
    AckOutcome drive (progress acknowledged drive.core passed.length)
      (ackAfter passed acknowledged drive) := by
  unfold ackAfter
  cases acknowledged with
  | false => exact .done rfl (.refl h) rfl rfl
  | true =>
    have hacks := ackEntries_outcome passed (drive.at .coreAdvance) h
    unfold ackAppliedRange
    generalize ackEntries passed (drive.at .coreAdvance) = result at hacks ⊢
    cases hacks with
    | done hsame hkept hhost hruntime => exact .done hsame hkept hhost hruntime
    | failed hstatus hkept hhost hfaulted =>
      dsimp only
      rw [if_pos hstatus]
      exact .failed hstatus hkept hhost hfaulted

theorem ackBefore_outcome (acknowledged : Bool) (drive : Drive Script)
    (hfirst : first ≤ entries.length) (h : Resting drive.core) :
    AckOutcome drive
      (if acknowledged then drive.core else ackedCore drive.core entries.length first)
      (ackBefore entries first acknowledged drive) := by
  cases acknowledged with
  | true => exact .done rfl (.refl h) rfl rfl
  | false => exact ackReadyPrefix_outcome entries hfirst h

theorem take_none (entries : List Entry) (first : ℕ) :
    (entries.drop first).take (first - first) = [] := by
  rw [Nat.sub_self, List.take_zero]

theorem blockApply_outcome {batch : List Entry} {entry : Entry} (h : Resting drive.core)
    (hnext : entries[first]? = some entry) (hnormal : isNormal entry = true)
    (hstatus : nextAnswer drive.host ≠ .ok) :
    ApplyOutcome entries acknowledged first drive
      (blockApply entries first acknowledged
        { drive with host := heard (.apply batch) drive.host }) := by
  have hlt := (List.getElem?_eq_some_iff.mp hnext).1
  unfold blockApply
  have hacks := ackBefore_outcome acknowledged
    { drive with host := heard (.apply batch) drive.host } hlt.le h
  generalize ackBefore entries first acknowledged _ = result at hacks ⊢
  cases hacks with
  | done hsame hkept hhost hruntime =>
    refine .blocked le_rfl hnext hnormal ?_ hkept ?_ ?_
    · rw [Nat.sub_self]
      exact hsame
    · exact congrArg (fun runtime : Runtime => { runtime with
        blockedEntries := entries, blockedApplyBegin := first, applyBlocked := true }) hruntime
    · rw [take_none]
      exact .refused hstatus hhost
  | failed hne hkept hhost hfaulted =>
    dsimp only
    rw [if_pos hne]
    refine .failed hne le_rfl hlt.le hkept hfaulted ?_
    rw [take_none]
    exact .refused hstatus hhost

theorem failApply_outcome {batch : List Entry} (h : Resting drive.core)
    (hfirst : first ≤ entries.length) {cause : Status} (hcause : cause ≠ .ok)
    (hstatus : nextAnswer drive.host ≠ .ok) :
    ApplyOutcome entries acknowledged first drive
      (failApply entries first acknowledged cause
        { drive with host := heard (.apply batch) drive.host }) := by
  unfold failApply
  have hacks := ackBefore_outcome acknowledged
    { drive with host := heard (.apply batch) drive.host } hfirst h
  generalize ackBefore entries first acknowledged _ = result at hacks ⊢
  cases hacks with
  | done hsame hkept hhost hruntime =>
    refine .failed hcause le_rfl hfirst hkept rfl ?_
    rw [take_none]
    exact .refused hstatus hhost
  | failed hne hkept hhost hfaulted =>
    dsimp only
    rw [if_pos hne]
    refine .failed hne le_rfl hfirst hkept hfaulted ?_
    rw [take_none]
    exact .refused hstatus hhost

theorem endApply_outcome (h : Resting drive.core) (hfirst : entries.length ≤ first) :
    ApplyOutcome entries acknowledged first drive (endApply entries acknowledged drive) := by
  obtain ⟨hcore, hhost⟩ : (endApply entries acknowledged drive).2.core = drive.core ∧
      (endApply entries acknowledged drive).2.host = drive.host := by
    unfold endApply clearApplyBlock
    cases acknowledged with
    | true => exact ⟨rfl, rfl⟩
    | false => cases entries.getLast? <;> exact ⟨rfl, rfl⟩
  refine .done ?_ ?_ ?_ ?_
  · refine hcore.trans ?_
    rw [Nat.sub_eq_zero_of_le hfirst]
    cases acknowledged <;> rfl
  · change Kept drive.core (endApply entries acknowledged drive).2.core
    rw [hcore]
    exact .refl h
  · cases acknowledged with
    | true => rfl
    | false => cases entries.getLast? <;> rfl
  · rw [List.drop_eq_nil_of_le hfirst]
    exact .nothing hhost

section Batches

variable {entry : Entry}

theorem batchAt_lead (entries : List Entry) (first : ℕ) :
    (entries.drop first).take (batchAt entries first).length = batchAt entries first :=
  (List.prefix_iff_eq_take.mp (List.takeWhile_prefix _)).symm

theorem batchAt_normal (entries : List Entry) (first : ℕ) :
    normalEntries (batchAt entries first) = batchAt entries first := by
  apply List.filter_eq_self.mpr
  intro entry hmem
  exact List.mem_takeWhile_imp hmem

theorem batchAt_within (entries : List Entry) (hfirst : first ≤ entries.length) :
    first + (batchAt entries first).length ≤ entries.length := by
  have hle := (List.takeWhile_prefix (l := entries.drop first)
    fun entry => !confEntryIsConfiguration entry).length_le
  rw [List.length_drop] at hle
  unfold batchAt
  omega

theorem batchAt_pos (hnext : entries[first]? = some entry) (hnormal : isNormal entry = true) :
    0 < (batchAt entries first).length := by
  have hlt := (List.getElem?_eq_some_iff.mp hnext)
  unfold batchAt
  rw [List.drop_eq_getElem_cons hlt.1, hlt.2, List.takeWhile_cons_of_pos (by exact hnormal)]
  exact Nat.succ_pos _

end Batches

theorem applyLoop_outcome (tables : Tables) (acknowledged : Bool) (turns first : ℕ)
    (drive : Drive Script) (hturns : entries.length - first ≤ turns)
    (hfirst : first ≤ entries.length) (h : Resting drive.core) :
    ApplyOutcome entries acknowledged first drive
      (applyLoop (scripted tables) entries acknowledged turns first drive) := by
  induction turns generalizing first drive with
  | zero => exact endApply_outcome h (by omega)
  | succ turns ih =>
    unfold applyLoop
    cases hnext : entries[first]? with
    | none => exact endApply_outcome h (List.getElem?_eq_none_iff.mp hnext)
    | some entry =>
      have hlt := (List.getElem?_eq_some_iff.mp hnext).1
      dsimp only
      by_cases hkind : confEntryIsConfiguration entry = true
      · -- a configuration entry is passed without the state machine
        rw [if_pos hkind]
        have hacks := ackAfter_outcome [entry] acknowledged drive h
        generalize ackAfter [entry] acknowledged drive = result at hacks ⊢
        cases hacks with
        | @done mid hsame hkept hhost hruntime =>
          have hrest := ih (first + 1) mid (by omega) hlt hkept.resting
          have htakes : Takes drive mid ((entries.drop first).take 1) := by
            obtain ⟨calls, htrace, hkinds, hcovered⟩ := Takes.nothing hhost
            refine ⟨calls, htrace, hkinds, hcovered.trans ?_⟩
            rw [List.drop_eq_getElem_cons hlt, (List.getElem?_eq_some_iff.mp hnext).2]
            simp [normalEntries, isNormal, hkind]
          exact hrest.after 1 hlt hsame hkept hruntime htakes
        | failed hstatus hkept hhost hfaulted =>
          rw [if_pos hstatus]
          refine .failed hstatus le_rfl hfirst hkept hfaulted ?_
          rw [take_none]
          exact .nothing hhost
      · rw [if_neg hkind]
        have hnormal : isNormal entry = true := by simpa [isNormal] using hkind
        cases htable : tables.applyBatch with
        | false =>
          rw [show (scripted tables).applyBatch = none by simp [scripted, htable]]
          refine .failed Status.noConfusion le_rfl hfirst (.refl h) rfl ?_
          rw [take_none]
          exact .nothing rfl
        | true =>
          rw [show (scripted tables).applyBatch = some fun entries => answer (.apply entries) by
            simp [scripted, htable]]
          dsimp only
          rw [callback_answer]
          by_cases hbusy : nextAnswer drive.host = .ebusy
          · rw [if_pos hbusy]
            exact blockApply_outcome h hnext hnormal (by rw [hbusy]; exact Status.noConfusion)
          rw [if_neg hbusy]
          by_cases hok : nextAnswer drive.host = .ok
          swap
          · rw [if_pos hok]
            exact failApply_outcome h hfirst hok hok
          rw [if_neg (not_not.mpr hok)]
          have hwithin := batchAt_within entries hfirst
          have hpos := batchAt_pos hnext hnormal
          have hlead := batchAt_lead entries first
          have htaken : ∀ mid : Drive Script,
              mid.host = heard (.apply (batchAt entries first)) drive.host →
              Takes drive mid ((entries.drop first).take (batchAt entries first).length) := by
            intro mid hhost
            rw [hlead]
            exact .batch hok (batchAt_normal entries first) hhost
          have hacks := ackAfter_outcome (batchAt entries first) acknowledged
            { drive with host := heard (.apply (batchAt entries first)) drive.host } h
          generalize ackAfter (batchAt entries first) acknowledged _ = result at hacks ⊢
          cases hacks with
          | @done mid hsame hkept hhost hruntime =>
            have hrest := ih (first + (batchAt entries first).length) mid
              (by omega) hwithin hkept.resting
            exact hrest.after _ hwithin hsame hkept hruntime (htaken mid hhost)
          | @failed status mid hstatus hkept hhost hfaulted =>
            rw [if_pos hstatus]
            refine .failed hstatus (Nat.le_add_right _ _) hwithin hkept hfaulted ?_
            rw [Nat.add_sub_cancel_left]
            exact htaken mid hhost

theorem applyFrom_outcome (tables : Tables) (entries : List Entry) (acknowledged : Bool)
    (drive : Drive Script) (hfirst : first ≤ entries.length) (h : Resting drive.core) :
    ApplyOutcome entries acknowledged first drive
      (applyFrom (scripted tables) entries first acknowledged drive) := by
  have houtcome := applyLoop_outcome tables acknowledged _ first (drive.at .stateMachineApply)
    (Nat.le_refl (entries.length - first)) hfirst h
  apply houtcome.after 0 hfirst
  · cases acknowledged <;> rfl
  · exact .refl h
  · rfl
  · exact .nothing rfl

theorem ApplyOutcome.takes_some {acknowledged : Bool}
    (h : ApplyOutcome entries acknowledged first drive result) : ∃ xs, Takes drive result.2 xs := by
  cases h with
  | done _ _ _ htakes | blocked _ _ _ _ _ _ htakes | failed _ _ _ _ _ htakes => exact ⟨_, htakes⟩

theorem applyReady_takes (tables : Tables) (ready : Ready) (h : Resting drive.core) :
    ∃ xs, Takes drive (applyReady (scripted tables) ready drive).2 xs := by
  unfold applyReady
  split_ifs
  · exact ⟨[], .nothing rfl⟩
  · exact (applyFrom_outcome tables ready.committedEntries false drive (Nat.zero_le _) h).takes_some

end RaftRuntimeApplying
