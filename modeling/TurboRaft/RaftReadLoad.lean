import TurboRaft.RaftCallConduct

/-! # The reads a call completes

A call completes only reads that were waiting, or the one it admits itself. So a host that has room
for the waiting reads has room for the completed ones. -/
namespace RaftReadLoad

open RaftTypes RaftCoreState RaftCoreEmit RaftCoreStep RaftCore RaftCoreRuns RaftOutbox
open RaftCallConduct RaftCoreHistories RaftOperationEffects RaftOrder

variable {core core' start : Core} {call call' : Call}

/-- The reads a call has completed, and those that still wait. -/
def readLoad (call : Call) : ℕ := call.ready.readStates.length + readTotalCount call.core

theorem readTotalCount_view (h : readView core' = readView core) :
    readTotalCount core' = readTotalCount core := by
  rw [readTotalCount, readTotalCount,
    show core'.pendingReadContexts = core.pendingReadContexts from congrArg ReadView.contexts h,
    show core'.waitingReadContexts = core.waitingReadContexts from congrArg ReadView.waiting h]

theorem sending_readLoad {allowed : ℕ → Prop} (h : Sending allowed call call') :
    readLoad call' = readLoad call := by
  obtain ⟨⟨_, _, hcore⟩, hstates⟩ := h.keeps
    (fun mid => mid.ready.readStates = call.ready.readStates) rfl (by
      rintro mid peer after - - hmid hwrote
      cases hwrote <;> exact hmid)
  rw [readLoad, readLoad, hstates, hcore]
  rfl

theorem readEmitActive_load (call : Call) : readLoad (readEmitActive call) = readTotalCount call.core := by
  simp [readLoad, readEmitActive, readTotalCount, readClearActive]

theorem readStartActiveBarrier_load (call : Call) :
    readLoad (readStartActiveBarrier call) ≤ readLoad call := by
  unfold readStartActiveBarrier
  dsimp only
  split_ifs
  · rw [readEmitActive_load]
    exact Nat.le_add_left _ _
  · rw [broadcastReadIndex_eq, voterCast_eq]
    exact le_rfl

theorem readMoveWaitingToActive_load (core : Core) (ready : Ready) :
    readLoad ⟨readMoveWaitingToActive core, ready⟩ ≤ readLoad ⟨core, ready⟩ := by
  simp [readLoad, readMoveWaitingToActive, readTotalCount]

section

variable (hstates : call.ready.readStates = [])

include hstates

theorem stepReadIndexResponse_load {m : Message}
    (voter : Option ℕ) : readLoad (stepReadIndexResponse call m voter) ≤ readTotalCount call.core := by
  have hload : readLoad call = readTotalCount call.core := by
    rw [readLoad, hstates]
    exact Nat.zero_add _
  unfold stepReadIndexResponse
  dsimp only
  split_ifs
  · change call.ready.readStates.length + 0 ≤ _
    rw [hstates]
    exact Nat.zero_le _
  · exact hload.le
  · unfold completeBarrier
    dsimp only
    have hemitted := readEmitActive_load
      ⟨{ call.core with pendingReadAcks := call.core.pendingReadAcks ||| indexBit voter }, call.ready⟩
    split_ifs
    · refine (readStartActiveBarrier_load _).trans ((readMoveWaitingToActive_load _ _).trans ?_)
      exact hemitted.le
    · exact hemitted.le
  · exact hload.le

theorem pollBody_load (hok : pollBody call = (.ok, call')) :
    readLoad call' ≤ readTotalCount call.core := by
  have hload : readLoad call = readTotalCount call.core := by
    rw [readLoad, hstates]
    exact Nat.zero_add _
  unfold pollBody at hok
  split_ifs at hok <;> cases hok <;> rw [sending_readLoad (fillReplicationWindows_sending _)]
  · exact (readStartActiveBarrier_load _).trans
      ((readMoveWaitingToActive_load _ _).trans hload.le)
  · exact hload.le

theorem readIndexBody_load {contextId : UInt64}
    (hok : readIndexBody contextId call = (.ok, call')) :
    readLoad call' ≤ readTotalCount call.core + 1 := by
  unfold readIndexBody at hok
  split_ifs at hok <;> cases hok
  · rw [readLoad, hstates]
    unfold joinRead
    split_ifs <;> simp [readTotalCount] <;> omega
  · refine (readStartActiveBarrier_load _).trans ((readMoveWaitingToActive_load _ _).trans ?_)
    simp only [readLoad, readTotalCount, hstates, List.length_nil, List.length_append,
      List.length_singleton]
    omega

end

def readsAdded : Input → ℕ
  | .call (.readIndex _) _ => 1
  | _ => 0

theorem runCall_load {body : Call → Status × Call} {capacity bound : ℕ}
    (hbody : ∀ call, body (beginCall core capacity) = (.ok, call) → readLoad call ≤ bound)
    (hok : runCall core capacity body = (.ok, call)) : readLoad call ≤ bound := by
  obtain ⟨next, hresult, rfl⟩ := runCall_ok hok
  have hadmitted : readLoad (finish (beforeOf core) next) = readLoad next := by
    unfold RaftCoreEmit.finish admitCommitted
    split_ifs <;> rfl
  exact hadmitted.le.trans (hbody next hresult)

/-- Completed reads come from the waiting ones, so a call has room for them where the waiting ones
had room. -/
theorem perform_readLoad (h : Resting core) (horderly : Orderly core) {input : Input}
    (hcall : isCall input = true) (hok : perform core input = (.ok, call)) :
    readLoad call ≤ readTotalCount core + readsAdded input := by
  have hconducted := perform_conducted h horderly hcall
  rw [hok] at hconducted
  cases hconducted with
  | failed hne => exact absurd rfl hne
  | done hconduct =>
    cases hconduct.reads with
    | kept hreads _ _ _ hstates =>
      rw [readLoad, hstates, readTotalCount_view hreads, List.length_nil, Nat.zero_add]
      exact Nat.le_add_right _ _
    | cleared hcontexts hwaiting hstates =>
      rw [readLoad, hstates, readTotalCount, hcontexts, hwaiting]
      exact Nat.zero_le _
    | busy hreading =>
      have hreading : isReading input = true := hreading
      cases input with
      | step m capacity =>
        have htype : m.type = .readIndexResponse := beq_iff_eq.mp hreading
        obtain ⟨peer, hran⟩ := coreStep_ran hok
        refine runCall_load (fun next hnext => ?_) hran
        unfold stepBody at hnext
        split_ifs at hnext
        · cases hnext
        · rw [stepDispatch, htype] at hnext
          cases hnext
          exact stepReadIndexResponse_load rfl _
      | call operation capacity =>
        cases operation with
        | readIndex contextId =>
          have hran := @performOperation_ran core call capacity (.readIndex contextId) hok
          exact runCall_load (fun _ hnext => readIndexBody_load rfl hnext) hran
        | poll => exact runCall_load (fun _ hnext => pollBody_load rfl hnext) hok
        | _ => cases hreading
      | _ => cases hcall

end RaftReadLoad
