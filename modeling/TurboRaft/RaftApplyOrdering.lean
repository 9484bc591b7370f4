import TurboRaft.RaftApplyRuntime
import TurboRaft.RaftCoreHistories
import TurboRaft.RaftRuntimeRules

/-! # The order of asynchronous application

In every run of the apply runtime the state machine gets the committed entries in their order,
one at a time, and gets an entry again only when it was told that the last attempt left nothing
behind. The buffer holds the entries behind the applied index; the records say what was done with
those before it. -/
namespace RaftApplyOrdering

open RaftTypes RaftConfiguration RaftCoreState RaftCore RaftRuntime RaftApplyRuntime RaftCoreRuns
open RaftCoreHistories RaftRuntimeRules

section Records

def inFlight (records : List ApplyRecord) : Option Entry :=
  records.foldl
    (fun current record =>
      match record with
      | .submitted entry _ .accepted => some entry
      | .settled _ _ => none
      | _ => current)
    none

def handedEntries (records : List ApplyRecord) : List Entry :=
  records.flatMap fun record =>
    match record with
    | .handed entries => entries
    | _ => []

def concerns (index : ℕ) : ApplyRecord → Bool
  | .submitted entry _ _ | .settled entry _ | .reconciled entry _ => entry.index == index
  | .handed _ => false

def lastConcern (records : List ApplyRecord) (index : ℕ) : Option ApplyRecord :=
  (records.filter (concerns index)).getLast?

/-- The state machine was full, or the attempt is over without effect. -/
def allowsRetry : ApplyRecord → Bool
  | .submitted _ _ .full => true
  | .settled _ settlement => settlement.outcome == .pending
  | .reconciled _ outcome => outcome == .pending
  | _ => false

/-- The entry was settled as applied, by the state machine or by the host. -/
def AppliedBy (records : List ApplyRecord) (entry : Entry) : Prop :=
  (∃ settlement, .settled entry settlement ∈ records ∧ settlement.outcome = .applied) ∨
    .reconciled entry .applied ∈ records

/-- What must have happened before a submission. -/
structure Justified (start : ℕ) (before : List ApplyRecord) (entry : Entry) (token : ℕ) : Prop where
  normal : confEntryIsConfiguration entry = false
  named : token = entry.index
  committed : entry ∈ handedEntries before
  alone : inFlight before = none
  covered : ∀ index, start < index → index < entry.index →
    ∃ earlier ∈ handedEntries before, earlier.index = index
  ordered : ∀ earlier ∈ handedEntries before, earlier.index < entry.index →
    confEntryIsConfiguration earlier = false → AppliedBy before earlier
  retried : ∀ record, lastConcern before entry.index = some record → allowsRetry record = true

def Ordered (start : ℕ) (records : List ApplyRecord) : Prop :=
  ∀ before entry token admission after,
    records = before ++ .submitted entry token admission :: after →
    Justified start before entry token

variable {start : ℕ} {records : List ApplyRecord} {record : ApplyRecord}

theorem Ordered.append (h : Ordered start records)
    (hnew : ∀ entry token admission, record = .submitted entry token admission →
      Justified start records entry token) : Ordered start (records ++ [record]) := by
  intro before entry token admission after heq
  rcases List.append_eq_append_iff.mp heq with ⟨tail, hbefore, hrest⟩ | ⟨tail, hrecords, hrest⟩
  · -- the new record is the submission itself
    cases tail with
    | nil =>
      rw [List.append_nil] at hbefore
      obtain ⟨hrecord, _⟩ := List.cons.inj hrest
      rw [hbefore]
      exact hnew entry token admission hrecord
    | cons first tail =>
      have hlength := congrArg List.length hrest
      simp at hlength
  · cases tail with
    | nil =>
      rw [List.append_nil] at hrecords
      obtain ⟨hrecord, _⟩ := List.cons.inj hrest
      rw [← hrecords]
      exact hnew entry token admission hrecord.symm
    | cons first tail =>
      obtain ⟨hfirst, _⟩ := List.cons.inj hrest
      rw [← hfirst] at hrecords
      exact h before entry token admission tail hrecords

@[simp] theorem inFlight_append (records : List ApplyRecord) (record : ApplyRecord) :
    inFlight (records ++ [record]) =
      match record with
      | .submitted entry _ .accepted => some entry
      | .settled _ _ => none
      | _ => inFlight records := by
  simp [inFlight, List.foldl_append]

@[simp] theorem handedEntries_append (records : List ApplyRecord) (record : ApplyRecord) :
    handedEntries (records ++ [record]) =
      handedEntries records ++
        match record with
        | .handed entries => entries
        | _ => [] := by
  simp [handedEntries]

theorem lastConcern_append (records : List ApplyRecord) (record : ApplyRecord) (index : ℕ) :
    lastConcern (records ++ [record]) index =
      if concerns index record then some record else lastConcern records index := by
  unfold lastConcern
  rw [List.filter_append]
  by_cases hconcerns : concerns index record = true
  · rw [List.filter_singleton, hconcerns]
    simp
  · simp [hconcerns]

theorem AppliedBy.append {entry : Entry} (h : AppliedBy records entry) (record : ApplyRecord) :
    AppliedBy (records ++ [record]) entry := by
  rcases h with ⟨settlement, hmem, happlied⟩ | hmem
  · exact Or.inl ⟨settlement, List.mem_append_left _ hmem, happlied⟩
  · exact Or.inr (List.mem_append_left _ hmem)

end Records

section Buffer

variable {entry : Entry} {more : List Entry}

/-- The buffer behind the cursor holds the committed entries behind the applied index, the records
are in order, and the core has applied as far as the runtime says. -/
structure Queue (start : ℕ) (core : Core) (entries : List Entry) (cursor admitted through : ℕ)
    (records : List ApplyRecord) : Prop where
  ordered : Ordered start records
  through_eq : through = core.appliedIndex
  resting : Resting core
  start_le : start ≤ core.appliedIndex
  cursor_le : cursor ≤ entries.length
  admitted_eq : admitted + cursor = core.appliedIndex + entries.length
  committed : admitted ≤ core.commitIndex
  aligned : ∀ i entry, cursor ≤ i → entries[i]? = some entry →
    entry.index + cursor = core.appliedIndex + 1 + i ∧ entry ∈ handedEntries records
  covered : ∀ index, start < index → index ≤ admitted →
    ∃ entry ∈ handedEntries records, entry.index = index
  within : ∀ entry ∈ handedEntries records, entry.index ≤ admitted
  distinct : ∀ a ∈ handedEntries records, ∀ b ∈ handedEntries records, a.index = b.index → a = b
  settled : ∀ entry ∈ handedEntries records, entry.index ≤ core.appliedIndex →
    confEntryIsConfiguration entry = false → AppliedBy records entry
  untouched : ∀ index, core.appliedIndex + 1 < index → lastConcern records index = none

def Admissible (applied : ℕ) (records : List ApplyRecord) : Prop :=
  inFlight records = none ∧
    ∀ record, lastConcern records (applied + 1) = some record → allowsRetry record = true

variable {start cursor admitted through : ℕ} {core core' : Core} {entries : List Entry}
  {records : List ApplyRecord}

theorem Admissible.retry {applied : ℕ} {record : ApplyRecord}
    (halone : inFlight (records ++ [record]) = none) (hconcern : concerns (applied + 1) record = true)
    (hallows : allowsRetry record = true) : Admissible applied (records ++ [record]) := by
  refine ⟨halone, fun last hlast => ?_⟩
  rw [lastConcern_append, if_pos hconcern] at hlast
  cases hlast
  exact hallows

section

variable (h : Queue start core entries cursor admitted through records)

include h

theorem Queue.current (hcurrent : entries[cursor]? = some entry) :
    entry.index = core.appliedIndex + 1 ∧ entry ∈ handedEntries records := by
  obtain ⟨hindex, hmem⟩ := h.aligned cursor entry le_rfl hcurrent
  exact ⟨by omega, hmem⟩

theorem Queue.record {record : ApplyRecord}
    (hrecord : concerns (core.appliedIndex + 1) record = true)
    (hnew : ∀ entry token admission, record = .submitted entry token admission →
      Justified start records entry token) :
    Queue start core entries cursor admitted through (records ++ [record]) := by
  have hsame : handedEntries (records ++ [record]) = handedEntries records := by
    cases record with
    | handed entries => cases hrecord
    | _ => simp
  refine { h with ordered := h.ordered.append hnew, aligned := ?_, covered := ?_, within := ?_,
                  distinct := ?_, settled := ?_, untouched := ?_ }
  · rw [hsame]
    exact h.aligned
  · rw [hsame]
    exact h.covered
  · rw [hsame]
    exact h.within
  · rw [hsame]
    exact h.distinct
  · rw [hsame]
    intro entry hentry hle hnormal
    exact (h.settled entry hentry hle hnormal).append record
  · intro index hindex
    rw [lastConcern_append, if_neg]
    · exact h.untouched index hindex
    · intro htrue
      have hsame : index = core.appliedIndex + 1 := by cases record <;> simp_all [concerns]
      omega

theorem Queue.advance (hcurrent : entries[cursor]? = some entry)
    (happlied : confEntryIsConfiguration entry = true ∨ AppliedBy records entry)
    (hresting : Resting core') (hnow : core'.appliedIndex = entry.index)
    (hcommit : core.commitIndex ≤ core'.commitIndex) :
    Queue start core' entries (cursor + 1) admitted entry.index records := by
  obtain ⟨hindex, hmem⟩ := h.current hcurrent
  obtain ⟨hlt, _⟩ := List.getElem?_eq_some_iff.mp hcurrent
  have hstart := h.start_le
  have hadmitted := h.admitted_eq
  refine { h with resting := hresting, through_eq := hnow.symm, start_le := by omega, cursor_le := hlt,
                  admitted_eq := by omega, committed := h.committed.trans hcommit,
                  aligned := ?_, settled := ?_, untouched := ?_ }
  · intro i other hle hother
    obtain ⟨hposition, hhanded⟩ := h.aligned i other (by omega) hother
    exact ⟨by omega, hhanded⟩
  · intro other hother hle hnormal
    rw [hnow] at hle
    rcases Nat.lt_or_eq_of_le hle with hlt | heq
    · exact h.settled other hother (by omega) hnormal
    · obtain rfl := h.distinct other hother entry hmem heq
      exact happlied.resolve_left (by rw [hnormal]; exact Bool.false_ne_true)
  · intro index hlarge
    exact h.untouched index (by omega)

theorem Queue.admissible
    (halone : inFlight records = none) (hnow : core'.appliedIndex = core.appliedIndex + 1) :
    Admissible core'.appliedIndex records := by
  refine ⟨halone, fun record hrecord => ?_⟩
  rw [h.untouched _ (by omega)] at hrecord
  cases hrecord

theorem Queue.congr (hresting : Resting core') (hsame : core'.appliedIndex = core.appliedIndex)
    (hcommit : core.commitIndex ≤ core'.commitIndex) :
    Queue start core' entries cursor admitted through records := by
  refine { h with resting := hresting, committed := h.committed.trans hcommit, start_le := ?_,
                  through_eq := ?_, admitted_eq := ?_, aligned := ?_, settled := ?_,
                  untouched := ?_ } <;> rw [hsame]
  · exact h.through_eq
  · exact h.start_le
  · exact h.admitted_eq
  · exact h.aligned
  · exact h.settled
  · exact h.untouched

theorem Queue.compact :
    Queue start core (entries.drop cursor) 0 admitted through records := by
  have hadmitted := h.admitted_eq
  have hcursor := h.cursor_le
  refine { h with cursor_le := Nat.zero_le _, admitted_eq := ?_, aligned := ?_ }
  · rw [List.length_drop]
    omega
  · intro i entry _ hentry
    rw [List.getElem?_drop] at hentry
    obtain ⟨hindex, hmem⟩ := h.aligned (cursor + i) entry (by omega) hentry
    exact ⟨by omega, hmem⟩

end

theorem committedFollow_index (h : committedFollow admitted more = true) {i : ℕ}
    (hentry : more[i]? = some entry) : entry.index = admitted + i + 1 := by
  rw [committedFollow, List.all_eq_true] at h
  have hmem : (entry, i) ∈ more.zipIdx := List.mem_zipIdx_iff_getElem?.mpr hentry
  have hfacts := h (entry, i) hmem
  simp only [Bool.and_eq_true, beq_iff_eq] at hfacts
  exact hfacts.2

theorem Queue.extend (h : Queue start core entries 0 admitted through records)
    (hfollow : committedFollow admitted more = true)
    (hcommit : admitted + more.length ≤ core.commitIndex) :
    Queue start core (entries ++ more) 0 (admitted + more.length) through
      (records ++ [.handed more]) := by
  have hadmitted := h.admitted_eq
  have hhanded : handedEntries (records ++ [.handed more]) = handedEntries records ++ more := by
    simp
  have hmore : ∀ entry ∈ more, ∃ i, more[i]? = some entry ∧ i < more.length ∧
      entry.index = admitted + i + 1 := by
    intro entry hentry
    obtain ⟨i, hi⟩ := List.mem_iff_getElem?.mp hentry
    exact ⟨i, hi, (List.getElem?_eq_some_iff.mp hi).1, committedFollow_index hfollow hi⟩
  refine { h with ordered := h.ordered.append ?_, cursor_le := Nat.zero_le _, committed := hcommit,
                  admitted_eq := ?_, aligned := ?_, covered := ?_, within := ?_, distinct := ?_,
                  settled := ?_, untouched := ?_ }
  · intro _ _ _ heq
    cases heq
  · rw [List.length_append]
    omega
  · intro i entry _ hentry
    rw [hhanded, List.mem_append]
    by_cases hold : i < entries.length
    · rw [List.getElem?_append_left hold] at hentry
      obtain ⟨hindex, hmem⟩ := h.aligned i entry (Nat.zero_le _) hentry
      exact ⟨hindex, Or.inl hmem⟩
    · rw [List.getElem?_append_right (by omega)] at hentry
      have hindex := committedFollow_index hfollow hentry
      exact ⟨by omega, Or.inr (List.mem_of_getElem? hentry)⟩
  · intro index hlow hhigh
    rw [hhanded]
    by_cases hold : index ≤ admitted
    · obtain ⟨entry, hentry, hindex⟩ := h.covered index hlow hold
      exact ⟨entry, List.mem_append_left _ hentry, hindex⟩
    · have hlt : index - admitted - 1 < more.length := by omega
      refine ⟨_, List.mem_append_right _ (List.getElem_mem hlt), ?_⟩
      rw [committedFollow_index hfollow (List.getElem?_eq_getElem hlt)]
      omega
  · intro entry hentry
    rw [hhanded, List.mem_append] at hentry
    rcases hentry with hold | hnew
    · have := h.within entry hold
      omega
    · obtain ⟨i, _, hlt, hindex⟩ := hmore entry hnew
      omega
  · intro a ha b hb heq
    rw [hhanded, List.mem_append] at ha hb
    rcases ha with ha | ha <;> rcases hb with hb | hb
    · exact h.distinct a ha b hb heq
    · obtain ⟨i, _, _, hindex⟩ := hmore b hb
      have := h.within a ha
      omega
    · obtain ⟨i, _, _, hindex⟩ := hmore a ha
      have := h.within b hb
      omega
    · obtain ⟨i, hi, _, hindex⟩ := hmore a ha
      obtain ⟨j, hj, _, hother⟩ := hmore b hb
      have hsame : i = j := by omega
      subst hsame
      exact Option.some.inj (hi.symm.trans hj)
  · intro entry hentry hle hnormal
    rw [hhanded, List.mem_append] at hentry
    rcases hentry with hold | hnew
    · exact (h.settled entry hold hle hnormal).append _
    · obtain ⟨i, _, _, hindex⟩ := hmore entry hnew
      omega
  · intro index hindex
    rw [lastConcern_append]
    exact h.untouched index hindex

end Buffer

section Driving

variable {σ : Type} {start : ℕ} {drive : ApplyDrive σ} {handlers : ApplyHandlers σ} {entry : Entry}

abbrev QueueOf (start : ℕ) (drive : ApplyDrive σ) : Prop :=
  Queue start drive.core drive.runtime.entries drive.runtime.entryCursor
    drive.runtime.admittedThrough drive.runtime.progress.appliedThrough drive.records

def Admitting (drive : ApplyDrive σ) : Prop :=
  drive.runtime.faulted = false ∧ Admissible drive.core.appliedIndex drive.records

/-- A runtime that may still submit entries: it has nothing to do, waits for admission, waits for
a settlement, or waits for the host's decision. -/
structure Alive (start : ℕ) (drive : ApplyDrive σ) : Prop where
  queue : QueueOf start drive
  mode : (Admitting drive ∧ (drive.runtime.active = true → drive.runtime.state = .waitingAdmission)) ∨
    (drive.runtime.faulted = false ∧ drive.runtime.active = true ∧
      drive.runtime.state = .waitingSettlement) ∨
    (drive.runtime.faulted = true ∧ inFlight drive.records = none)

/-- A runtime that has failed for good is not asked again. -/
def Sound (start : ℕ) (drive : ApplyDrive σ) : Prop :=
  (Ordered start drive.records ∧ drive.runtime.faulted = true ∧
      drive.runtime.reconciliationPending = false) ∨
    Alive start drive

theorem Sound.ordered (h : Sound start drive) : Ordered start drive.records :=
  h.elim And.left fun halive => halive.queue.ordered

theorem stageThen_ok (drive : ApplyDrive σ) (next : ApplyDrive σ → Status × ApplyDrive σ) :
    stageThen (.ok, drive) next = next drive := rfl

theorem stageThen_failed {result : Status × ApplyDrive σ} (h : result.1 ≠ .ok)
    (next : ApplyDrive σ → Status × ApplyDrive σ) : stageThen result next = result := by
  obtain ⟨status, drive⟩ := result
  cases status <;> first | rfl | exact absurd rfl h

theorem applyFail_status (drive : ApplyDrive σ) (stage : RuntimeStage) (cause : Status) :
    (applyFail drive stage cause).1 ≠ .ok := by
  unfold applyFail applySetFault
  dsimp only
  split_ifs with hok
  · decide
  · exact hok

theorem applyFail_sound (hordered : Ordered start drive.records) (stage : RuntimeStage)
    (cause : Status) : Sound start (applyFail drive stage cause).2 :=
  Or.inl ⟨hordered, rfl, rfl⟩

theorem applyAcknowledge_cases (index : ℕ) (hresting : Resting drive.core) :
    (∃ status, applyAcknowledge index drive = applyFail drive .coreAdvance status) ∨
    ∃ core, Resting core ∧ core.appliedIndex = index ∧
      drive.core.commitIndex ≤ core.commitIndex ∧
      applyAcknowledge index drive = (.ok, { drive with
        core
        runtime := { drive.runtime with
          progress := { drive.runtime.progress with appliedThrough := index }
          entryCursor := drive.runtime.entryCursor + 1 } }) := by
  have htended := coreAckApplied_tended hresting index
  unfold applyAcknowledge
  rcases coreAckApplied_cases drive.core index with ⟨hstatus, hsame⟩ | ⟨hnext, _, hok⟩
  · dsimp only
    rw [if_pos hstatus, hsame]
    exact Or.inl ⟨_, rfl⟩
  · rw [hok] at htended ⊢
    exact Or.inr ⟨_, htended.resting, hnext.symm, htended.commit.ge, rfl⟩

/-- The core acknowledges an entry that is through, and the runtime goes on behind it. -/
theorem applyAcknowledge_sound (h : QueueOf start drive)
    (hunfaulted : drive.runtime.faulted = false) (halone : inFlight drive.records = none)
    (hcurrent : currentEntry drive.runtime = some entry)
    (happlied : confEntryIsConfiguration entry = true ∨ AppliedBy drive.records entry)
    {next : ApplyDrive σ → Status × ApplyDrive σ}
    (hnext : ∀ core progress, let later := { drive with
        core
        runtime := { drive.runtime with progress, entryCursor := drive.runtime.entryCursor + 1 } }
      QueueOf start later → Admitting later → Sound start (next later).2) :
    Sound start (stageThen (applyAcknowledge entry.index drive) next).2 := by
  rcases applyAcknowledge_cases entry.index h.resting with
    ⟨status, hack⟩ | ⟨core, hresting, hnow, hcommit, hack⟩
  · rw [hack, stageThen_failed (applyFail_status _ _ _)]
    exact applyFail_sound h.ordered _ _
  · rw [hack]
    have hindex := (h.current hcurrent).1
    exact hnext core _ (h.advance hcurrent happlied hresting hnow hcommit)
      ⟨hunfaulted, h.admissible halone (hnow.trans hindex)⟩

theorem applyComplete_sound (h : QueueOf start drive) (hadmitting : Admitting drive)
    (hdone : drive.runtime.entries.length ≤ drive.runtime.entryCursor) :
    Sound start (applyComplete drive).2 := by
  have hcompact := h.compact
  rw [List.drop_eq_nil_of_le hdone] at hcompact
  exact Or.inr ⟨hcompact, Or.inl ⟨hadmitting, Bool.noConfusion⟩⟩

theorem Queue.justified {core : Core} {entries : List Entry} {cursor admitted through : ℕ}
    {records : List ApplyRecord} (h : Queue start core entries cursor admitted through records)
    (hcurrent : entries[cursor]? = some entry)
    (hnormal : confEntryIsConfiguration entry = false)
    (hadmissible : Admissible core.appliedIndex records) :
    Justified start records entry entry.index := by
  obtain ⟨hindex, hmem⟩ := h.current hcurrent
  have hadmitted := h.admitted_eq
  have hcursor := h.cursor_le
  refine ⟨hnormal, rfl, hmem, hadmissible.1, ?_, ?_, ?_⟩
  · intro index hlow hhigh
    exact h.covered index hlow (by omega)
  · intro earlier hearlier hlt
    exact h.settled earlier hearlier (by omega)
  · rw [hindex]
    exact hadmissible.2

theorem applySubmit_sound (h : QueueOf start drive) (hadmitting : Admitting drive)
    (hactive : drive.runtime.active = true) (hcurrent : currentEntry drive.runtime = some entry)
    (hnormal : confEntryIsConfiguration entry = false) :
    Sound start (applySubmit handlers entry drive).2 := by
  obtain ⟨hindex, _⟩ := h.current hcurrent
  unfold applySubmit
  obtain ⟨⟨admission, cause⟩, host⟩ := handlers.tryApply entry entry.index drive.host
  have hconcern : concerns (drive.core.appliedIndex + 1) (.submitted entry entry.index admission) =
      true := by simp [concerns, hindex]
  have hkept := h.record hconcern fun other token answer heq => by
    cases heq
    exact h.justified hcurrent hnormal hadmitting.2
  cases admission with
  | accepted =>
    exact Or.inr ⟨hkept, Or.inr (Or.inl ⟨hadmitting.1, hactive, rfl⟩)⟩
  | full =>
    refine Or.inr ⟨hkept, Or.inl ⟨⟨hadmitting.1, .retry ?_ hconcern rfl⟩, fun _ => rfl⟩⟩
    rw [inFlight_append]
    exact hadmitting.2.1
  | closed | failed | invalid => exact applyFail_sound hkept.ordered _ _

theorem applyDriveLoop_sound (turns : ℕ) (h : QueueOf start drive) (hadmitting : Admitting drive)
    (hactive : drive.runtime.active = true)
    (hturns : drive.runtime.entries.length ≤ drive.runtime.entryCursor + turns) :
    Sound start (applyDriveLoop handlers turns drive).2 := by
  induction turns generalizing drive with
  | zero => exact applyComplete_sound h hadmitting hturns
  | succ turns ih =>
    unfold applyDriveLoop
    cases hcurrent : currentEntry drive.runtime with
    | none => exact applyComplete_sound h hadmitting (List.getElem?_eq_none_iff.mp hcurrent)
    | some entry =>
      dsimp only
      split_ifs with hconf
      · refine applyAcknowledge_sound h hadmitting.1 hadmitting.2.1 hcurrent (Or.inl hconf)
          fun core progress hlater hadmitting => ih hlater hadmitting hactive ?_
        dsimp only
        omega
      · exact applySubmit_sound h hadmitting hactive hcurrent (by simpa using hconf)

theorem applyDriveAdmission_sound (h : QueueOf start drive) (hadmitting : Admitting drive)
    (hactive : drive.runtime.active = true) : Sound start (applyDriveAdmission handlers drive).2 :=
  applyDriveLoop_sound _ h hadmitting hactive (Nat.le_add_left _ _)

end Driving

section Stages

variable {σ : Type} {handlers : Handlers σ}

theorem handlersKeep_nothing : HandlersKeep (fun _ => True) (fun _ _ => True) handlers := by
  constructor <;> simp [CallbackKeeps]

variable {drive : ApplyDrive σ}

/-- The result of a stage: a fault with the records as they were, or new progress. -/
inductive Staged (drive : ApplyDrive σ) : Status × ApplyDrive σ → Prop
  | failed (later : ApplyDrive σ) (stage : RuntimeStage) (cause : Status)
      (hrecords : later.records = drive.records) : Staged drive (applyFail later stage cause)
  | done (host : σ) (progress : RuntimeResult)
      (hthrough : progress.appliedThrough = drive.runtime.progress.appliedThrough) :
      Staged drive (.ok, { drive with
        host, runtime := { drive.runtime with progress } })

theorem applyStage_staged {stage : Drive σ → Status × Drive σ}
    (h : ∀ drive, DriveKept (fun _ => True) drive (stage drive) fun _ _ => True) (drive : ApplyDrive σ) :
    Staged drive (applyStage stage drive) := by
  have hkept := (h ⟨Runtime.fresh, drive.core, drive.host, drive.runtime.progress⟩).2.1
  unfold applyStage
  dsimp only at hkept ⊢
  split_ifs
  · exact .failed _ _ _ rfl
  · exact .done _ _ hkept

theorem Staged.andThen {result : Status × ApplyDrive σ} (h : Staged drive result)
    {next : ApplyDrive σ → Status × ApplyDrive σ} (hnext : ∀ drive, Staged drive (next drive)) :
    Staged drive (stageThen result next) := by
  cases h with
  | failed later stage cause hrecords =>
    rw [stageThen_failed (applyFail_status _ _ _)]
    exact .failed later stage cause hrecords
  | done host progress hthrough =>
    change Staged drive (next _)
    generalize hresult : next { drive with
      host, runtime := { drive.runtime with progress } } = result
    have hstaged := hnext { drive with
      host, runtime := { drive.runtime with progress } }
    rw [hresult] at hstaged
    cases hstaged with
    | failed later stage cause hrecords => exact .failed later stage cause hrecords
    | done host progress hmore => exact .done host progress (hmore.trans hthrough)

end Stages

section Calls

variable {σ : Type} {start : ℕ} {drive : ApplyDrive σ} {handlers : ApplyHandlers σ}

theorem faultAnswer_sound (h : Sound start drive) (hfaulted : drive.runtime.faulted = true) :
    Sound start (faultAnswer drive).2.2 := by
  refine h.imp id fun halive => ⟨halive.queue, ?_⟩
  rcases halive.mode with ⟨⟨hnot, _⟩, _⟩ | ⟨hnot, _⟩ | hwaits
  · exact absurd (hfaulted.symm.trans hnot) Bool.noConfusion
  · exact absurd (hfaulted.symm.trans hnot) Bool.noConfusion
  · exact Or.inr (Or.inr hwaits)

theorem Sound.alive (h : Sound start drive) (hfaulted : drive.runtime.faulted = false) :
    Alive start drive := by
  rcases h with ⟨_, htrue, _⟩ | halive
  · exact absurd (htrue.symm.trans hfaulted) Bool.noConfusion
  · exact halive

theorem applyConsume_cases (hresting : Resting drive.core) (ready : Ready) :
    (∃ later stage cause, later.records = drive.records ∧
      applyConsume handlers ready drive = applyFail later stage cause) ∨
    ∃ host progress core, Resting core ∧ core.appliedIndex = drive.core.appliedIndex ∧
      core.commitIndex = drive.core.commitIndex ∧
      progress.appliedThrough = drive.runtime.progress.appliedThrough ∧
      applyConsume handlers ready drive = (.ok, {
        runtime := { drive.runtime with
          progress
          admittedThrough := drive.runtime.admittedThrough + ready.committedEntries.length }
        core, host
        records := drive.records ++ [.handed ready.committedEntries] }) := by
  have hstaged : Staged drive
      (stageThen (applyPersist handlers ready drive) (applySend handlers ready)) :=
    (applyStage_staged
      (fun _ => persistReadyWith_keeps handlersKeep_nothing ready trivial) drive).andThen
      fun _ => applyStage_staged (fun _ => sendReady_keeps handlersKeep_nothing ready trivial) _
  unfold applyConsume
  generalize stageThen (applyPersist handlers ready drive) (applySend handlers ready) = result
    at hstaged
  cases hstaged with
  | failed later stage cause hrecords =>
    rw [stageThen_failed (applyFail_status _ _ _)]
    exact Or.inl ⟨later, stage, cause, hrecords, rfl⟩
  | done host progress hthrough =>
    rw [stageThen_ok]
    have htended := coreAckReady_tended hresting ready.committedEntries.length
    unfold applyAckReady
    dsimp only
    rcases coreAckReady_cases drive.core ready.committedEntries.length with
      ⟨hfailed, _⟩ | ⟨_, _, hok⟩
    · rw [if_pos hfailed]
      refine Or.inl ⟨_, _, _, ?_, rfl⟩
      rfl
    · rw [hok] at htended ⊢
      refine Or.inr ⟨_, _, _, htended.resting, ?_, htended.commit, ?_, rfl⟩
      · rfl
      · exact hthrough

theorem applyContinue_sound {before : ApplyRuntime} (h : QueueOf start drive)
    (hunfaulted : drive.runtime.faulted = false) (hactive : drive.runtime.active = true)
    (hmode : Admissible drive.core.appliedIndex drive.records ∧
        (before.active = true → before.state = .waitingAdmission) ∨
      before.active = true ∧ before.state = .waitingSettlement) :
    Sound start (applyContinue handlers before drive).2 := by
  unfold applyContinue
  split_ifs with hbefore
  · refine Or.inr ⟨h, ?_⟩
    rcases hmode with ⟨hadmissible, hstate⟩ | ⟨_, hstate⟩
    · exact Or.inl ⟨⟨hunfaulted, hadmissible⟩, fun _ => hstate hbefore⟩
    · exact Or.inr (Or.inl ⟨hunfaulted, hactive, hstate⟩)
  · rcases hmode with ⟨hadmissible, _⟩ | ⟨htrue, _⟩
    · exact applyDriveAdmission_sound h ⟨hunfaulted, hadmissible⟩ hactive
    · exact absurd htrue hbefore

theorem applyRuntimeStart_sound (h : Sound start drive) (ready : Ready) :
    Sound start (applyRuntimeStart handlers ready drive).2.2 := by
  unfold applyRuntimeStart
  by_cases hfaulted : drive.runtime.faulted = true
  · rw [if_pos hfaulted]
    exact faultAnswer_sound h hfaulted
  have hunfaulted : drive.runtime.faulted = false := by simpa using hfaulted
  obtain ⟨hqueue, hmode⟩ := h.alive hunfaulted
  have hcompact := hqueue.compact
  dsimp only
  split_ifs with hshape hstatus hroom hactive hfollow
  · exact h
  · exact h
  · exact Or.inr ⟨hcompact, hmode⟩
  · exact Or.inr ⟨hcompact, hmode⟩
  · exact Or.inr ⟨hcompact, hmode⟩
  have hfollow : committedFollow drive.runtime.admittedThrough ready.committedEntries = true := by
    simpa [applyCompactEntries] using hfollow
  have hwithin : drive.runtime.admittedThrough + ready.committedEntries.length ≤
      drive.core.commitIndex := by
    simp only [Bool.or_eq_true, decide_eq_true_eq, bne_iff_ne, not_or, not_not] at hstatus
    omega
  generalize htaken : ({ drive with
    runtime := applyTakeOver (applyCompactEntries drive.runtime) drive.core ready } :
      ApplyDrive σ) = taken
  have hcore : taken.core = drive.core := by rw [← htaken]
  have hrecords : taken.records = drive.records := by rw [← htaken]
  have hresting : Resting taken.core := hcore ▸ hqueue.resting
  rcases @applyConsume_cases σ taken handlers hresting ready with
    ⟨later, stage, cause, hlater, hfailed⟩ | ⟨host, progress, core, hnow, hsame, hcommit, hprogress, hdone⟩
  · rw [hfailed, stageThen_failed (applyFail_status _ _ _)]
    exact applyFail_sound (by rw [hlater, hrecords]; exact hqueue.ordered) _ _
  · rw [hdone]
    have hextended := (hcompact.extend hfollow hwithin).congr hnow (by rw [hsame, hcore])
      (by rw [hcommit, hcore])
    subst htaken
    refine applyContinue_sound { hextended with through_eq := hprogress.trans hsame.symm }
      hunfaulted rfl ?_
    rcases hmode with ⟨⟨_, hadmissible⟩, hstate⟩ | ⟨_, hactive, hstate⟩ | ⟨hnot, _⟩
    · refine Or.inl ⟨⟨?_, ?_⟩, hstate⟩
      · rw [inFlight_append]
        exact hadmissible.1
      · intro record
        rw [lastConcern_append, hsame]
        exact hadmissible.2 record
    · exact Or.inr ⟨hactive, hstate⟩
    · exact absurd (hnot.symm.trans hunfaulted) Bool.noConfusion

theorem applySettle_sound (h : QueueOf start drive) (hunfaulted : drive.runtime.faulted = false)
    (hactive : drive.runtime.active = true) {entry : Entry}
    (hcurrent : currentEntry drive.runtime = some entry) (settlement : ApplySettlement) :
    Sound start (applySettle handlers entry settlement drive).2 := by
  obtain ⟨hindex, _⟩ := h.current hcurrent
  unfold applySettle
  by_cases htoken : settlement.token ≠ entry.index
  · rw [if_pos htoken]
    exact applyFail_sound h.ordered _ _
  rw [if_neg htoken]
  have hconcern : concerns (drive.core.appliedIndex + 1) (.settled entry settlement) = true := by
    simp [concerns, hindex]
  have hkept := h.record hconcern fun _ _ _ heq => by cases heq
  have halone : inFlight (drive.records ++ [.settled entry settlement]) = none := by simp
  cases houtcome : settlement.outcome with
  | pending =>
    exact applyDriveAdmission_sound hkept
      ⟨hunfaulted, .retry halone hconcern (by simp [allowsRetry, houtcome])⟩ hactive
  | gap | conflict | unknown =>
    exact Or.inr ⟨hkept, Or.inr (Or.inr ⟨rfl, halone⟩)⟩
  | invalid => exact applyFail_sound hkept.ordered _ _
  | applied =>
    dsimp only
    split_ifs
    · exact applyFail_sound hkept.ordered _ _
    · rw [not_not.mp htoken]
      refine @applyAcknowledge_sound σ start { drive with
          records := drive.records ++ [.settled entry settlement] } entry
        hkept hunfaulted halone hcurrent (Or.inr (Or.inl ?_)) _
        fun _ _ hlater hadmitting => applyDriveAdmission_sound hlater hadmitting hactive
      exact ⟨settlement, List.mem_append_right _ (List.mem_singleton_self _), houtcome⟩

theorem applyRuntimePoll_sound (h : Sound start drive) :
    Sound start (applyRuntimePoll handlers drive).2.2 := by
  unfold applyRuntimePoll
  by_cases hfaulted : drive.runtime.faulted = true
  · rw [if_pos hfaulted]
    exact faultAnswer_sound h hfaulted
  rw [if_neg hfaulted]
  have hunfaulted : drive.runtime.faulted = false := by simpa using hfaulted
  obtain ⟨hqueue, hmode⟩ := h.alive hunfaulted
  by_cases hidle : (!drive.runtime.active) = true
  · rw [if_pos hidle]
    exact h
  rw [if_neg hidle]
  by_cases hstate : drive.runtime.state = .waitingAdmission
  · rw [if_pos hstate]
    rcases hmode with ⟨hadmitting, _⟩ | ⟨_, _, hother⟩ | ⟨hnot, _⟩
    · exact applyDriveAdmission_sound hqueue hadmitting (by simpa using hidle)
    · exact absurd (hstate.symm.trans hother) ApplyState.noConfusion
    · exact absurd (hnot.symm.trans hunfaulted) Bool.noConfusion
  rw [if_neg hstate]
  cases hcurrent : currentEntry drive.runtime with
  | none => exact applyFail_sound h.ordered _ _
  | some entry =>
    obtain ⟨⟨status, settlement⟩, host⟩ := handlers.pollSettlement drive.host
    dsimp only
    split_ifs with hwaiting hfailed
    · exact applyFail_sound h.ordered _ _
    · exact @applyFail_sound σ start { drive with host } h.ordered _ _
    cases settlement with
    | none => exact Or.inr ⟨hqueue, hmode⟩
    | some settlement =>
      exact @applySettle_sound σ start { drive with host } handlers hqueue hunfaulted
        (by simpa using hidle) entry hcurrent settlement

theorem applyRuntimeReconcile_sound (h : Sound start drive) (entry : Entry)
    (outcome : ApplyOutcome) :
    Sound start (applyRuntimeReconcile handlers entry outcome drive).2.2 := by
  unfold applyRuntimeReconcile
  cases hcurrent : currentEntry drive.runtime with
  | none =>
    dsimp only
    split_ifs
    · exact h
    · exact h
    · exact h
  | some current =>
    dsimp only
    split_ifs with houtcome hstate hequal hpending
    · exact h
    · exact h
    · exact h
    all_goals
      simp only [Bool.or_eq_true, Bool.not_eq_true', decide_eq_true_eq, not_or, Bool.not_eq_false,
        not_not] at hstate
      obtain ⟨⟨⟨hfaulted, hrecover⟩, hactive⟩, _⟩ := hstate
      obtain ⟨hqueue, hmode⟩ : Alive start drive := by
        rcases h with ⟨_, _, hnone⟩ | halive
        · exact absurd (hrecover.symm.trans hnone) Bool.noConfusion
        · exact halive
      have halone : inFlight drive.records = none := by
        rcases hmode with ⟨⟨hnot, _⟩, _⟩ | ⟨hnot, _⟩ | ⟨_, halone⟩
        · exact absurd (hfaulted.symm.trans hnot) Bool.noConfusion
        · exact absurd (hfaulted.symm.trans hnot) Bool.noConfusion
        · exact halone
      obtain ⟨hindex, _⟩ := hqueue.current hcurrent
      have hconcern : concerns (drive.core.appliedIndex + 1) (.reconciled current outcome) = true := by
        simp [concerns, hindex]
      have hkept := hqueue.record hconcern fun _ _ _ heq => by cases heq
      have hstill : inFlight (drive.records ++ [.reconciled current outcome]) = none := by
        rw [inFlight_append]
        exact halone
    · subst hpending
      exact applyDriveAdmission_sound hkept ⟨rfl, .retry hstill hconcern rfl⟩ hactive
    · refine @applyAcknowledge_sound σ start { drive with
          runtime := { drive.runtime with
            faulted := false
            reconciliationPending := false
            progress := { drive.runtime.progress with cause := .ok } }
          records := drive.records ++ [.reconciled current outcome] } current
        hkept rfl hstill hcurrent (Or.inr (Or.inr ?_)) _
        fun _ _ hlater hadmitting => applyDriveAdmission_sound hlater hadmitting hactive
      have happlied : outcome = .applied := by
        simp only [ne_eq, decide_not, Bool.and_eq_true, Bool.not_eq_true', decide_eq_false_iff_not,
          not_and, not_not] at houtcome
        by_contra hother
        exact hpending (houtcome hother)
      rw [happlied]
      exact List.mem_append_right _ (List.mem_singleton_self _)

end Calls

variable {core : Core}

/-- The acknowledgements of the core are made by the runtime that owns them. -/
def acknowledges : Input → Bool
  | .ackReady _ | .ackApplied _ | .advance => true
  | _ => false

theorem perform_apart (h : Resting core) {input : Input}
    (hinput : acknowledges input = false) :
    (perform core input).2.core.appliedIndex = core.appliedIndex ∧
      core.commitIndex ≤ (perform core input).2.core.commitIndex := by
  cases hcall : isCall input with
  | true =>
    rcases (perform_finished h hcall).called_or_inert with ⟨_, hcalled⟩ | ⟨_, hinert⟩
    · exact ⟨hcalled.applied, hcalled.commit_le⟩
    · exact ⟨congrArg ApplyView.appliedIndex hinert.apply,
        (congrArg RaftRefinement.CoreView.commitIndex hinert.view).ge⟩
  | false =>
    refine ⟨?_, (perform_tended h hcall).commit.ge⟩
    cases input with
    | step | call => cases hcall
    | ackReady | ackApplied | advance => cases hinput
    | setPeerPaused peer paused =>
      change (coreSetPeerPaused core peer paused).2.appliedIndex = core.appliedIndex
      obtain ⟨_, hsame⟩ := RaftRecovery.coreSetPeerPaused_same core peer paused
      rw [hsame]
    | compact =>
      change (compactAtPoint core).2.appliedIndex = core.appliedIndex
      rcases compactAtPoint_cases core with ⟨_, hsame⟩ | ⟨_, _, _, _, hdone⟩
      · rw [hsame]
      · rw [hdone]

inductive ApplyEvent where
  | core (input : { input : Input // acknowledges input = false })
  | start (ready : Ready)
  | poll
  | reconcile (entry : Entry) (outcome : ApplyOutcome)

variable {σ : Type} {start : ℕ} {drive : ApplyDrive σ}

def applyStep (handlers : ApplyHandlers σ) (drive : ApplyDrive σ) : ApplyEvent → ApplyDrive σ
  | .core input => { drive with core := (perform drive.core input.1).2.core }
  | .start ready => (applyRuntimeStart handlers ready drive).2.2
  | .poll => (applyRuntimePoll handlers drive).2.2
  | .reconcile entry outcome => (applyRuntimeReconcile handlers entry outcome drive).2.2

def applyRun (handlers : ApplyHandlers σ) (drive : ApplyDrive σ) (events : List ApplyEvent) :
    ApplyDrive σ :=
  events.foldl (applyStep handlers) drive

theorem applyStep_sound (handlers : ApplyHandlers σ) (h : Sound start drive) (event : ApplyEvent) :
    Sound start (applyStep handlers drive event) := by
  cases event with
  | core input =>
    refine h.imp id fun halive => ?_
    have hresting := halive.queue.resting
    obtain ⟨hsame, hcommit⟩ := perform_apart hresting input.2
    refine ⟨halive.queue.congr (perform_resting hresting input.1) hsame hcommit, ?_⟩
    rcases halive.mode with ⟨⟨hunfaulted, hadmissible⟩, hstate⟩ | hwaits
    · exact Or.inl ⟨⟨hunfaulted, hsame.symm ▸ hadmissible⟩, hstate⟩
    · exact Or.inr hwaits
  | start ready => exact applyRuntimeStart_sound h ready
  | poll => exact applyRuntimePoll_sound h
  | reconcile entry outcome => exact applyRuntimeReconcile_sound h entry outcome

theorem applyRun_sound (handlers : ApplyHandlers σ) (h : Sound start drive)
    (events : List ApplyEvent) : Sound start (applyRun handlers drive events) := by
  induction events generalizing drive with
  | nil => exact h
  | cons event rest ih => exact ih (applyStep_sound handlers h event)

theorem applyRuntimeCreate_sound {runtime : ApplyRuntime} {maxPendingEntries : ℕ}
    (hresting : Resting core) (h : applyRuntimeCreate core maxPendingEntries = .ok runtime)
    (host : σ) : Sound core.appliedIndex ⟨runtime, core, host, []⟩ := by
  unfold applyRuntimeCreate at h
  split_ifs at h with hzero hbehind
  obtain rfl := Except.ok.inj h
  refine Or.inr ⟨?_, Or.inl ⟨⟨rfl, rfl, ?_⟩, ?_⟩⟩
  · exact
      { ordered := fun _ _ _ _ _ heq => absurd heq (by simp)
        through_eq := rfl
        resting := hresting
        start_le := le_rfl
        cursor_le := le_rfl
        admitted_eq := rfl
        committed := not_lt.mp hbehind
        aligned := fun _ _ _ hentry => by cases hentry
        covered := fun _ hlow hhigh => absurd hhigh (not_le.mpr hlow)
        within := fun _ hentry => by cases hentry
        distinct := fun _ hentry => by cases hentry
        settled := fun _ hentry => by cases hentry
        untouched := fun _ _ => rfl }
  · exact fun _ hrecord => by cases hrecord
  · exact Bool.noConfusion

/-- In every run, whatever the state machine and the host answer, every submission is justified by
what came before it; and while the runtime is not faulted the entries it took over are committed
and the core has applied as far as the runtime says. -/
theorem apply_ordering {config : CoreConfig} {core : Core} {runtime : ApplyRuntime}
    {maxPendingEntries : ℕ} (hcore : coreCreate config = .ok core)
    (hruntime : applyRuntimeCreate core maxPendingEntries = .ok runtime)
    (handlers : ApplyHandlers σ) (host : σ) (events : List ApplyEvent) :
    let reached := applyRun handlers ⟨runtime, core, host, []⟩ events
    Ordered core.appliedIndex reached.records ∧
      (reached.runtime.faulted = false →
        (∀ entry ∈ handedEntries reached.records, entry.index ≤ reached.core.commitIndex) ∧
        reached.core.appliedIndex = reached.runtime.progress.appliedThrough) := by
  have hsound := applyRun_sound handlers
    (applyRuntimeCreate_sound (coreCreate_resting hcore) hruntime host) events
  refine ⟨hsound.ordered, fun hunfaulted => ?_⟩
  have halive := hsound.alive hunfaulted
  refine ⟨fun entry hentry => ?_, halive.queue.through_eq.symm⟩
  exact (halive.queue.within entry hentry).trans halive.queue.committed

/-- A state machine that gives the answers it has left. -/
def answeringMachine : ApplyHandlers (List ApplyAdmission × List ApplySettlement) :=
  { storage := some fun _ answers => (.ok, answers)
    enqueue := some fun _ answers => (.ok, answers)
    enqueueSnapshot := none
    tryApply := fun _ _ answers =>
      ((answers.1.headD .accepted, .ok), (answers.1.tail, answers.2))
    pollSettlement := fun answers => ((.ok, answers.2.head?), (answers.1, answers.2.tail)) }

def soloRuntime : ApplyRuntime :=
  { entries := []
    entryCapacity := 4
    entryCursor := 0
    admittedThrough := 0
    state := .idle
    progress := { RuntimeResult.blank with appliedThrough := 0 }
    active := false
    faulted := false
    reconciliationPending := false }

/-- It is full once, then gives the first entry back once and applies it. -/
def soloDrive : ApplyDrive (List ApplyAdmission × List ApplySettlement) :=
  { runtime := soloRuntime
    core := createdCore soloConfig
    host := ([.full], [⟨1, .pending, .ok⟩, ⟨1, .applied, .ok⟩])
    records := [] }

def soloElect : { input : Input // acknowledges input = false } :=
  ⟨.call (.tick { elapsedTicks := 5, nextElectionTimeoutTicks := 5 }) 8, rfl⟩

def soloPropose : { input : Input // acknowledges input = false } :=
  ⟨.call (.propose [{ commandId := 1, data := [] }, { commandId := 2, data := [] }]) 8, rfl⟩

def consuming (drive : ApplyDrive (List ApplyAdmission × List ApplySettlement))
    (input : { input : Input // acknowledges input = false }) : List ApplyEvent :=
  [.core input, .start (perform drive.core input.1).2.ready]

def soloEvents : List ApplyEvent :=
  let election := consuming soloDrive soloElect
  election ++ consuming (applyRun answeringMachine soloDrive election) soloPropose ++
    [.poll, .poll, .poll]

theorem solo_apply_ordered :
    coreCreate soloConfig = .ok (createdCore soloConfig) ∧
      applyRuntimeCreate (createdCore soloConfig) 4 = .ok soloRuntime ∧
      (applyRun answeringMachine soloDrive soloEvents).records.length = 8 ∧
      Ordered 0 (applyRun answeringMachine soloDrive soloEvents).records ∧
      (applyRun answeringMachine soloDrive soloEvents).core.appliedIndex = 1 := by
  have hcore : coreCreate soloConfig = .ok (createdCore soloConfig) :=
    createdCore_ok (by decide +kernel)
  have hruntime : applyRuntimeCreate (createdCore soloConfig) 4 = .ok soloRuntime := by
    rfl
  obtain ⟨hordered, hthrough⟩ :=
    apply_ordering hcore hruntime answeringMachine soloDrive.host soloEvents
  refine ⟨hcore, hruntime, by decide +kernel, hordered, ?_⟩
  exact (hthrough (by decide +kernel)).2.trans (by decide +kernel)

end RaftApplyOrdering
