import TurboRaft.RaftRuntime

/-! # Rules for calls of the runtime

The runtime changes a core through the callbacks of its host and through acknowledgements only.
What those keep, every call of the runtime keeps. -/
namespace RaftRuntimeRules

open RaftTypes RaftConfiguration RaftCore RaftRuntime

variable {σ : Type} {S : Status → Prop} {R : Core → σ → Prop}

/-- The callback keeps what holds of the core and the host, and gives answers of one kind. -/
def CallbackKeeps (S : Status → Prop) (R : Core → σ → Prop) (call : Callback σ) : Prop :=
  ∀ core host, R core host → R (call core host).2.1 (call core host).2.2 ∧ S (call core host).1

def complete (handlers : Handlers σ) : Bool :=
  handlers.storage.isSome && handlers.enqueue.isSome && handlers.enqueueSnapshot.isSome &&
    handlers.applyBatch.isSome

structure HandlersKeep (S : Status → Prop) (R : Core → σ → Prop) (handlers : Handlers σ) :
    Prop where
  storage : ∀ call ∈ handlers.storage, ∀ step, CallbackKeeps S R (call step)
  enqueue : ∀ call ∈ handlers.enqueue, ∀ message, CallbackKeeps S R (call message)
  enqueueSnapshot : ∀ call ∈ handlers.enqueueSnapshot, ∀ request, CallbackKeeps S R (call request)
  applyBatch : ∀ call ∈ handlers.applyBatch, ∀ entries, CallbackKeeps S R (call entries)
  missing : complete handlers = false → S .einval

structure AcksKeep (R : Core → σ → Prop) : Prop where
  ready : ∀ core admitted host, R core host → R (coreAckReady core admitted).2 host
  applied : ∀ core index host, R core host → R (coreAckApplied core index).2 host
  advance : ∀ core host, R core host → R (coreAdvance core).2 host

def DriveMeets (drive : Drive σ) (R : Core → σ → Prop) : Prop := R drive.core drive.host

/-- A stage before the entries keeps what holds of the core and the host, and how far entries are
applied; it faults the runtime exactly when it fails, and it fails as a callback did. -/
def DriveKept (S : Status → Prop) (drive : Drive σ) (result : Status × Drive σ)
    (R : Core → σ → Prop) : Prop :=
  DriveMeets result.2 R ∧ result.2.result.appliedThrough = drive.result.appliedThrough ∧
    (result.2.runtime =
      if result.1 = .ok then drive.runtime else { drive.runtime with faulted := true }) ∧
    (result.1 = .ok ∨ S result.1)

theorem DriveKept.blocked {drive : Drive σ} {result : Status × Drive σ}
    (h : DriveKept S drive result R) :
    result.2.runtime.applyBlocked = drive.runtime.applyBlocked := by
  rw [h.2.2.1]
  split_ifs <;> rfl

theorem callback_keeps {call : Callback σ} (hcall : CallbackKeeps S R call) (drive : Drive σ)
    (h : DriveMeets drive R) :
    DriveMeets (callback call drive).2 R ∧ S (callback call drive).1 := by
  have hkept := hcall drive.core drive.host h
  exact hkept

section Stages

variable {handlers : Handlers σ} {drive : Drive σ}

theorem persistSteps_keeps {storage : StorageStep → Callback σ}
    (hstorage : ∀ step, CallbackKeeps S R (storage step)) (steps : List StorageStep)
    (h : DriveMeets drive R) : DriveKept S drive (persistSteps storage steps drive) R := by
  induction steps generalizing drive with
  | nil => exact ⟨h, rfl, rfl, Or.inl rfl⟩
  | cons step rest ih =>
    obtain ⟨hkept, hanswer⟩ := callback_keeps (hstorage step) (drive.at (stageOf step)) h
    unfold persistSteps
    dsimp only
    split_ifs with hfailed
    · exact ⟨(callback_keeps (hstorage .rollback) _ hkept).1, rfl, (if_neg hfailed).symm,
        Or.inr hanswer⟩
    · exact ih hkept

theorem persistReadyWith_keeps (hhandlers : HandlersKeep S R handlers) (ready : Ready)
    (h : DriveMeets drive R) : DriveKept S drive (persistReadyWith handlers ready drive) R := by
  unfold persistReadyWith
  split_ifs
  · cases hstorage : handlers.storage with
    | none => exact ⟨h, rfl, rfl, Or.inr (hhandlers.missing (by simp [complete, hstorage]))⟩
    | some storage =>
      have hsteps := hhandlers.storage storage hstorage
      obtain ⟨hkept, hanswer⟩ := callback_keeps (hsteps .begin) (drive.at .storageBegin) h
      unfold runtimePersist
      dsimp only
      split_ifs with hfailed
      · exact ⟨hkept, rfl, (if_neg hfailed).symm, Or.inr hanswer⟩
      · exact persistSteps_keeps hsteps _ hkept
  · exact ⟨h, rfl, rfl, Or.inl rfl⟩

theorem sendMessages_keeps {enqueue : Message → Callback σ}
    (henqueue : ∀ message, CallbackKeeps S R (enqueue message)) (messages : List Message)
    (h : DriveMeets drive R) : DriveKept S drive (sendMessages enqueue messages drive) R := by
  induction messages generalizing drive with
  | nil => exact ⟨h, rfl, rfl, Or.inl rfl⟩
  | cons message rest ih =>
    obtain ⟨hkept, hanswer⟩ := callback_keeps (henqueue message) drive h
    unfold sendMessages
    dsimp only
    split_ifs with hfailed
    · exact ⟨hkept, rfl, (if_neg hfailed).symm, Or.inr hanswer⟩
    · exact @ih (countMessage _) hkept

theorem sendSnapshots_keeps (hhandlers : HandlersKeep S R handlers)
    (requests : List SnapshotRequest) (h : DriveMeets drive R) :
    DriveKept S drive (sendSnapshots handlers.enqueueSnapshot requests drive) R := by
  induction requests generalizing drive with
  | nil => exact ⟨h, rfl, rfl, Or.inl rfl⟩
  | cons request rest ih =>
    unfold sendSnapshots
    cases henqueue : handlers.enqueueSnapshot with
    | none => exact ⟨h, rfl, rfl, Or.inr (hhandlers.missing (by simp [complete, henqueue]))⟩
    | some enqueue =>
      obtain ⟨hkept, hanswer⟩ :=
        callback_keeps (hhandlers.enqueueSnapshot enqueue henqueue request) drive h
      rw [henqueue] at ih
      dsimp only
      split_ifs with hfailed
      · exact ⟨hkept, rfl, (if_neg hfailed).symm, Or.inr hanswer⟩
      · exact ih hkept

theorem sendReady_keeps (hhandlers : HandlersKeep S R handlers) (ready : Ready)
    (h : DriveMeets drive R) : DriveKept S drive (sendReady handlers ready drive) R := by
  unfold sendReady
  split_ifs
  · exact sendSnapshots_keeps hhandlers _ h
  · cases henqueue : handlers.enqueue with
    | none => exact ⟨h, rfl, rfl, Or.inr (hhandlers.missing (by simp [complete, henqueue]))⟩
    | some enqueue =>
      have hkept : DriveKept S (drive.at .transportSend) _ R :=
        sendMessages_keeps (hhandlers.enqueue enqueue henqueue) ready.messages h
      dsimp only
      split_ifs with hfailed
      · exact hkept
      · have hsent := sendSnapshots_keeps hhandlers ready.snapshotRequests hkept.1
        have hsame := hkept.2.2.1.trans (if_pos (not_not.mp hfailed))
        exact ⟨hsent.1, hsent.2.1.trans hkept.2.1, hsent.2.2.1.trans (by rw [hsame]; rfl), hsent.2.2.2⟩

end Stages

section Apply

variable {drive : Drive σ}

/-- A part of the loop over the entries keeps what holds of the core and the host, and it blocks
no batch. -/
def ApplyKept (drive done : Drive σ) (R : Core → σ → Prop) : Prop :=
  DriveMeets done R ∧ (done.runtime.applyBlocked = true → drive.runtime.applyBlocked = true)

theorem ApplyKept.clear {done : Drive σ} (h : ApplyKept drive done R) :
    ApplyKept drive (clearApplyBlock done) R :=
  ⟨h.1, fun hblocked => Bool.noConfusion hblocked⟩

theorem ackEntries_keeps (hacks : AcksKeep R) (entries : List Entry) (h : DriveMeets drive R) :
    ApplyKept drive (ackEntries entries drive).2 R := by
  induction entries generalizing drive with
  | nil => exact ⟨h, id⟩
  | cons entry rest ih =>
    have hkept := hacks.applied drive.core entry.index drive.host h
    unfold ackEntries
    dsimp only at hkept ⊢
    split_ifs
    · exact ⟨hkept, id⟩
    · exact @ih { drive with
        core := _
        result := { drive.result with appliedThrough := entry.index } } hkept

theorem ackBefore_keeps (hacks : AcksKeep R) (entries : List Entry) (first : ℕ)
    (acknowledged : Bool) (h : DriveMeets drive R) :
    ApplyKept drive (ackBefore entries first acknowledged drive).2 R := by
  unfold ackBefore
  split_ifs
  · exact ⟨h, id⟩
  have hkept := hacks.ready drive.core entries.length drive.host h
  unfold ackReadyPrefix
  dsimp only at hkept ⊢
  split_ifs
  · exact ⟨hkept, id⟩
  · exact @ackEntries_keeps _ _ (Drive.at { drive with core := _ } .coreAdvance) hacks _ hkept

theorem ackAfter_keeps (hacks : AcksKeep R) (passed : List Entry) (acknowledged : Bool)
    (h : DriveMeets drive R) : ApplyKept drive (ackAfter passed acknowledged drive).2 R := by
  unfold ackAfter
  split_ifs
  · have hkept : ApplyKept (drive.at .coreAdvance) _ R := ackEntries_keeps hacks passed h
    dsimp only at hkept ⊢
    split_ifs
    · exact hkept.clear
    · exact hkept
  · exact ⟨h, id⟩

theorem failApply_keeps (hacks : AcksKeep R) (entries : List Entry) (first : ℕ)
    (acknowledged : Bool) (cause : Status) (h : DriveMeets drive R) :
    ApplyKept drive (failApply entries first acknowledged cause drive).2 R := by
  have hkept := ackBefore_keeps hacks entries first acknowledged h
  unfold failApply
  dsimp only at hkept ⊢
  split_ifs <;> exact hkept.clear

theorem blockApply_keeps (hacks : AcksKeep R) (entries : List Entry) (first : ℕ)
    (acknowledged : Bool) (h : DriveMeets drive R) :
    DriveMeets (blockApply entries first acknowledged drive).2 R := by
  have hkept := ackBefore_keeps hacks entries first acknowledged h
  unfold blockApply
  dsimp only at hkept ⊢
  split_ifs <;> exact hkept.1

theorem endApply_keeps (entries : List Entry) (acknowledged : Bool) (h : DriveMeets drive R)
    : ApplyKept drive (endApply entries acknowledged drive).2 R := by
  refine ⟨?_, fun hblocked => Bool.noConfusion hblocked⟩
  unfold endApply
  split_ifs
  · exact h
  · cases entries.getLast? <;> exact h

/-- The state machine was asked last, and it was busy. -/
def Busy (handlers : Handlers σ) (R : Core → σ → Prop) (host : σ) : Prop :=
  ∃ apply batch core before, handlers.applyBatch = some apply ∧ R core before ∧
    (apply batch core before).1 = .ebusy ∧ host = (apply batch core before).2.2

/-- A batch that is blocked was blocked before, or the state machine is busy with it. -/
def Applied (handlers : Handlers σ) (drive done : Drive σ) (R : Core → σ → Prop) : Prop :=
  DriveMeets done R ∧ (done.runtime.applyBlocked = true →
    drive.runtime.applyBlocked = true ∨ Busy handlers R done.host)

variable {handlers : Handlers σ}

theorem ApplyKept.applied {done : Drive σ} (h : ApplyKept drive done R) :
    Applied handlers drive done R :=
  ⟨h.1, fun hblocked => Or.inl (h.2 hblocked)⟩

theorem Applied.after {middle done : Drive σ} (h : Applied handlers middle done R)
    (hmiddle : middle.runtime.applyBlocked = true → drive.runtime.applyBlocked = true) :
    Applied handlers drive done R :=
  ⟨h.1, fun hblocked => (h.2 hblocked).imp_left hmiddle⟩

theorem applyLoop_keeps (hhandlers : HandlersKeep S R handlers)
    (hacks : AcksKeep R) (entries : List Entry) (acknowledged : Bool) (turns first : ℕ)
    (h : DriveMeets drive R) :
    Applied handlers drive (applyLoop handlers entries acknowledged turns first drive).2 R := by
  induction turns generalizing first drive with
  | zero => exact (endApply_keeps entries acknowledged h).applied
  | succ turns ih =>
    unfold applyLoop
    cases entries[first]? with
    | none => exact (endApply_keeps entries acknowledged h).applied
    | some entry =>
      dsimp only
      by_cases hconfiguration : confEntryIsConfiguration entry = true
      · have hkept := ackAfter_keeps hacks [entry] acknowledged h
        split_ifs
        · exact hkept.applied
        · exact (ih _ hkept.1).after hkept.2
      · rw [if_neg hconfiguration]
        cases happly : handlers.applyBatch with
        | none => exact ⟨h, Or.inl⟩
        | some apply =>
          have hkept := (callback_keeps
            (hhandlers.applyBatch apply happly (batchAt entries first)) drive h).1
          have hbusy : (callback (apply (batchAt entries first)) drive).1 = .ebusy →
              Busy handlers R (callback (apply (batchAt entries first)) drive).2.host :=
            fun hstatus => ⟨apply, _, _, _, happly, h, hstatus, rfl⟩
          have hsame : (callback (apply (batchAt entries first)) drive).2.runtime = drive.runtime :=
            rfl
          dsimp only
          generalize callback (apply (batchAt entries first)) drive = answer at hkept hbusy hsame
          obtain ⟨status, next⟩ := answer
          dsimp only at hkept hbusy hsame ⊢
          rw [Applied, ← hsame]
          by_cases hstatus : status = .ebusy
          · rw [if_pos hstatus]
            have hhost : DriveMeets (blockApply entries first acknowledged next).2
                fun _ host => host = next.host :=
              blockApply_keeps ⟨fun _ _ _ h => h, fun _ _ _ h => h, fun _ _ h => h⟩ _ _ _ rfl
            refine ⟨blockApply_keeps hacks entries first acknowledged hkept, fun _ => Or.inr ?_⟩
            rw [show (blockApply entries first acknowledged next).2.host = next.host from hhost]
            exact hbusy hstatus
          rw [if_neg hstatus]
          by_cases hfailed : status ≠ .ok
          · rw [if_pos hfailed]
            exact (failApply_keeps hacks entries first acknowledged status hkept).applied
          · rw [if_neg hfailed]
            have hacked := ackAfter_keeps hacks (batchAt entries first) acknowledged hkept
            split_ifs
            · exact hacked.applied
            · exact (ih _ hacked.1).after hacked.2

end Apply

section Interface

variable {handlers : Handlers σ} {drive : Drive σ} {core : Core}

theorem advanceAfterApply_keeps {done : Drive σ} (hacks : AcksKeep R)
    (h : Applied handlers drive done R) : Applied handlers drive (advanceAfterApply done).2 R := by
  have hadvanced := hacks.advance done.core done.host h.1
  unfold advanceAfterApply
  dsimp only
  split_ifs <;> exact ⟨hadvanced, h.2⟩

variable (hhandlers : HandlersKeep S R handlers) (hacks : AcksKeep R)

include hhandlers hacks

theorem applyReady_keeps (ready : Ready) (h : DriveMeets drive R) :
    Applied handlers drive (applyReady handlers ready drive).2 R := by
  unfold applyReady
  split_ifs
  · exact ⟨h, Or.inl⟩
  · exact @applyLoop_keeps _ _ _ (drive.at .stateMachineApply) _ hhandlers hacks _ _ _ _ h

theorem processReady_keeps (ready : Ready) (h : DriveMeets drive R) :
    Applied handlers drive (processReady handlers ready drive).2 R := by
  have hstored := persistReadyWith_keeps hhandlers ready h
  have hsent := sendReady_keeps hhandlers ready hstored.1
  have hsame := hsent.blocked.trans hstored.blocked
  have happlied := (applyReady_keeps hhandlers hacks ready hsent.1).after hsame.symm.trans
  unfold processReady
  dsimp only
  split_ifs
  · exact ⟨hstored.1, fun hblocked => Or.inl (hstored.blocked.symm.trans hblocked)⟩
  · exact ⟨hsent.1, fun hblocked => Or.inl (hsame.symm.trans hblocked)⟩
  · exact happlied
  · exact advanceAfterApply_keeps hacks happlied

theorem runtimeProcess_keeps (runtime : Runtime) (host : σ) (ready : Ready) (h : R core host) :
    Applied handlers (startDrive runtime core host)
      (runtimeProcess handlers runtime core host ready).2 R := by
  unfold runtimeProcess
  dsimp only
  split_ifs
  · exact ⟨h, Or.inl⟩
  · exact ⟨h, Or.inl⟩
  · exact @processReady_keeps _ _ _ _ { startDrive runtime core host with result := _ } hhandlers hacks
      ready h

theorem runtimeRetryApply_keeps (runtime : Runtime) (host : σ) (h : R core host) :
    DriveMeets (runtimeRetryApply handlers runtime core host).2 R := by
  have happlied : DriveMeets ((applyFrom handlers runtime.blockedEntries runtime.blockedApplyBegin true
      (startDrive runtime core host)).2) R :=
    (@applyLoop_keeps _ _ _ ((startDrive runtime core host).at .stateMachineApply) _ hhandlers hacks
      _ _ _ _ h).1
  unfold runtimeRetryApply
  dsimp only
  split_ifs
  · exact h
  · exact h
  · exact happlied
  · exact happlied

end Interface

variable {P : σ → Prop} {core : Core} {handlers : Handlers σ} {drive : Drive σ}

def Unmoved (core : Core) (P : σ → Prop) (core' : Core) (host : σ) : Prop := core' = core ∧ P host

/-- Callbacks that do what they are asked to and leave the core alone. -/
def HandlersWilling (P : σ → Prop) (handlers : Handlers σ) : Prop :=
  ∀ core, HandlersKeep (· = .ok) (Unmoved core P) handlers

structure Passed (P : σ → Prop) (core : Core) (answer : Status × Drive σ) : Prop where
  ok : answer.1 = .ok
  core : answer.2.core = core
  runtime : answer.2.runtime = .fresh
  host : P answer.2.host

theorem Passed.again {answer : Status × Drive σ} (h : Passed P core answer) :
    Passed P core (.ok, answer.2) :=
  ⟨rfl, h.core, h.runtime, h.host⟩

variable (h : Passed P core (.ok, drive))

include h

theorem Passed.at (stage : RuntimeStage) :
    Passed P core (.ok, drive.at stage) :=
  ⟨rfl, h.core, h.runtime, h.host⟩

theorem Passed.kept {answer : Status × Drive σ}
    (hkept : DriveKept (· = .ok) drive answer (Unmoved core P)) : Passed P core answer := by
  obtain ⟨⟨hcore, hhost⟩, _, hruntime, hanswer⟩ := hkept
  have hok : answer.1 = .ok := hanswer.elim id id
  exact ⟨hok, hcore, (hruntime.trans (if_pos hok)).trans h.runtime, hhost⟩

theorem endApply_passed (entries : List Entry) :
    Passed P core (endApply entries false drive) := by
  have hcleared : ∀ drive : Drive σ, drive.runtime = .fresh →
      (clearApplyBlock drive).runtime = .fresh := by
    intro drive hfresh
    unfold clearApplyBlock
    rw [hfresh]
    rfl
  unfold endApply
  cases entries.getLast? with
  | none | some entry => exact ⟨rfl, h.core, hcleared _ h.runtime, h.host⟩

variable (hhandlers : HandlersWilling P handlers)

include hhandlers

theorem applyLoop_passed (entries : List Entry) (turns first : ℕ) :
    Passed P core (applyLoop handlers entries false turns first drive) := by
  obtain ⟨apply, hsome⟩ : ∃ apply, handlers.applyBatch = some apply := by
    refine Option.ne_none_iff_exists'.mp fun hnone => ?_
    cases (hhandlers core).missing (by simp [complete, hnone])
  induction turns generalizing first drive with
  | zero => exact endApply_passed h entries
  | succ turns ih =>
    unfold applyLoop
    rw [hsome]
    cases entries[first]? with
    | none => exact endApply_passed h entries
    | some entry =>
      obtain ⟨hkept, hok⟩ := callback_keeps
        ((hhandlers core).applyBatch apply hsome (batchAt entries first)) drive ⟨h.core, h.host⟩
      dsimp only
      by_cases hconf : confEntryIsConfiguration entry = true
      · rw [if_pos hconf]
        exact ih h _
      · rw [if_neg hconf, hok]
        exact ih ⟨rfl, hkept.1, h.runtime, hkept.2⟩ _

theorem applyReady_passed (ready : Ready) :
    Passed P core (applyReady handlers ready drive) := by
  unfold applyReady
  split_ifs
  · exact h
  · exact applyLoop_passed (h.at _) hhandlers _ _ _

theorem processReady_passed (ready : Ready) (hadvance : (coreAdvance core).1 = .ok) :
    Passed P (coreAdvance core).2 (processReady handlers ready drive) := by
  have hstored := h.kept (persistReadyWith_keeps (hhandlers core) ready ⟨h.core, h.host⟩)
  have hsent := hstored.again.kept
    (sendReady_keeps (hhandlers core) ready ⟨hstored.core, hstored.host⟩)
  have happlied := applyReady_passed hsent.again hhandlers ready
  unfold processReady
  dsimp only
  rw [if_neg (not_not.mpr hstored.ok), if_neg (not_not.mpr hsent.ok),
    if_neg (not_not.mpr happlied.ok)]
  unfold advanceAfterApply
  dsimp only
  rw [happlied.core, if_neg (not_not.mpr hadvance)]
  exact ⟨rfl, rfl, happlied.runtime, happlied.host⟩

omit h in
/-- With willing callbacks a Ready goes through whenever the core lets itself be advanced. -/
theorem runtimeProcess_passed {host : σ} (hhost : P host)
    (hadvance : (coreAdvance core).1 = .ok) (ready : Ready) :
    Passed P (coreAdvance core).2 (runtimeProcess handlers .fresh core host ready) := by
  refine processReady_passed ?_ hhandlers ready hadvance
  exact ⟨rfl, rfl, rfl, hhost⟩

end RaftRuntimeRules
