import TurboRaft.RaftCoreStep
import Mathlib.Tactic.Common

/-! # What emission leaves alone

Emitting messages moves next indices and windows of the core and adds to the messages and
snapshot requests of the Ready. Everything else stays, and every addition satisfies what
can be shown for the single messages. -/
namespace RaftEmission

open RaftTypes RaftLog RaftCoreState
open RaftCoreEmit

def withProgress (core : Core) (nextIndex : ℕ → ℕ) (windows : ℕ → AppendWindow) : Core :=
  { core with nextIndex, appendWindows := windows }

/-- The cores that differ in next indices and windows only. -/
def Progressed (core core' : Core) : Prop :=
  ∃ nextIndex windows, core' = withProgress core nextIndex windows

def withEmissions (call : Call) (messages : List Message) (requests : List SnapshotRequest) :
    Ready :=
  { call.ready with
    messages := call.ready.messages ++ messages
    snapshotRequests := call.ready.snapshotRequests ++ requests
    emissionRoles := call.ready.emissionRoles ++
      List.replicate (messages.length + requests.length) call.core.role }

theorem Progressed.refl (core : Core) : Progressed core core :=
  ⟨core.nextIndex, core.appendWindows, rfl⟩

theorem Progressed.trans {a b c : Core} (h : Progressed a b) (h' : Progressed b c) :
    Progressed a c := by
  obtain ⟨_, _, rfl⟩ := h
  obtain ⟨next, windows, rfl⟩ := h'
  exact ⟨next, windows, rfl⟩

variable {P : Message → Prop} {Q : SnapshotRequest → Prop} {call : Call}

/-- The calls reached by emitting messages with `P` and snapshot requests with `Q`. -/
structure Emitted (P : Message → Prop) (Q : SnapshotRequest → Prop) (call call' : Call) : Prop where
  core : Progressed call.core call'.core
  ready : ∃ messages requests, call'.ready = withEmissions call messages requests ∧
    (∀ m ∈ messages, P m) ∧ ∀ r ∈ requests, Q r

theorem Emitted.refl (P : Message → Prop) (Q : SnapshotRequest → Prop) (call : Call) :
    Emitted P Q call call := by
  refine ⟨.refl _, [], [], ?_, by simp, by simp⟩
  simp [withEmissions]

theorem Emitted.trans {a b c : Call} (h : Emitted P Q a b) (h' : Emitted P Q b c) :
    Emitted P Q a c := by
  obtain ⟨ms, rs, hready, hms, hrs⟩ := h.ready
  obtain ⟨ms', rs', hready', hms', hrs'⟩ := h'.ready
  refine ⟨h.core.trans h'.core, ms ++ ms', rs ++ rs', ?_, ?_, ?_⟩
  · have hrole : b.core.role = a.core.role := by
      obtain ⟨_, _, hcore⟩ := h.core
      rw [hcore]
      rfl
    have hcount : ms.length + rs.length + (ms'.length + rs'.length) =
        (ms ++ ms').length + (rs ++ rs').length := by
      simp only [List.length_append]
      omega
    rw [hready', withEmissions, hready, hrole]
    simp only [withEmissions, List.append_assoc, List.replicate_append_replicate, hcount]
  · intro m hm
    exact (List.mem_append.mp hm).elim (hms m) (hms' m)
  · intro r hr
    exact (List.mem_append.mp hr).elim (hrs r) (hrs' r)

theorem Emitted.of_core {core : Core} (h : Progressed call.core core) :
    Emitted P Q call { call with core } := by
  refine ⟨h, [], [], ?_, by simp, by simp⟩
  simp [withEmissions]

theorem emitWith_emitted {type : MessageType} {toId : NodeId} {granted : Bool}
    {edit : Message → Message} (hmsg : P (edit (newMessage call.core type toId granted))) :
    Emitted P Q call (emitWith call type toId granted edit).1 := by
  unfold emitWith
  split_ifs
  · exact .refl P Q call
  · refine ⟨.refl _, [edit (newMessage call.core type toId granted)], [], ?_, ?_, by simp⟩
    · simp [withEmissions]
    · intro m hm
      rw [List.mem_singleton.mp hm]
      exact hmsg

def snapshotRequestFor (core : Core) (peer : ℕ) : SnapshotRequest :=
  { peerId := peerId core peer
    leaderTerm := core.term
    snapshotIndex := core.log.baseIndex
    snapshotTerm := core.log.baseTerm }

/-- What holds of the requests and snapshot requests a core can replicate with. -/
structure Speaks (P : Message → Prop) (Q : SnapshotRequest → Prop) (core : Core) : Prop where
  request : ∀ core' peer type, Progressed core core' →
    (type = .appendRequest ∨ type = .heartbeatRequest) →
    core'.log.baseIndex < core'.nextIndex peer →
    P (replicationMessage core' peer (newMessage core' type (peerId core' peer) false))
  snapshot : ∀ peer, peerId core peer ≠ core.selfId → Q (snapshotRequestFor core peer)

theorem Speaks.progressed {core core' : Core} (h : Speaks P Q core) (hp : Progressed core core') :
    Speaks P Q core' := by
  constructor
  · intro core'' peer type hp' htype hnext
    exact h.request core'' peer type (hp.trans hp') htype hnext
  · obtain ⟨_, _, rfl⟩ := hp
    exact h.snapshot

theorem speaks_anything (core : Core) : Speaks (fun _ => True) (fun _ => True) core :=
  ⟨fun _ _ _ _ _ _ => trivial, fun _ _ => trivial⟩

variable {peer : ℕ}

theorem emitSnapshotRequest_emitted (hrequest : Q (snapshotRequestFor call.core peer)) :
    Emitted P Q call (emitSnapshotRequest call peer) := by
  unfold emitSnapshotRequest
  split_ifs
  · exact .refl P Q call
  · exact .refl P Q call
  · refine ⟨.refl _, [], [snapshotRequestFor call.core peer], ?_, by simp, ?_⟩
    · simp [withEmissions, snapshotRequestFor]
    · intro r hr
      rw [List.mem_singleton.mp hr]
      exact hrequest

theorem emitAppend_emitted (h : Speaks P Q call.core)
    (hnext : call.core.log.baseIndex < call.core.nextIndex peer) :
    Emitted P Q call (emitAppend call peer).1 := by
  have hmsg := h.request call.core peer .appendRequest (.refl _) (Or.inl rfl) hnext
  have hemit := emitWith_emitted (Q := Q) hmsg
  unfold emitAppend
  cases hemitted : emitWith call .appendRequest (peerId call.core peer) false
    (replicationMessage call.core peer) with
  | mk emitted sent =>
    rw [hemitted] at hemit
    cases sent with
    | false => exact .refl P Q call
    | true =>
      dsimp only
      split
      · exact .refl P Q call
      · apply hemit.trans
        apply Emitted.of_core
        exact ⟨_, _, rfl⟩

theorem emitReplication_emitted (h : Speaks P Q call.core)
    (hrequest : Q (snapshotRequestFor call.core peer)) (allowHeartbeat : Bool) :
    Emitted P Q call (emitReplication call peer allowHeartbeat).1 := by
  unfold emitReplication
  split_ifs with hpaused hbase hlast hfull
  · exact .refl P Q call
  · have hprogress : Progressed call.core (setWindow call.core peer (appendWindowReset true)) :=
      ⟨_, _, rfl⟩
    apply (Emitted.of_core hprogress).trans
    exact emitSnapshotRequest_emitted hrequest
  · exact .refl P Q call
  · exact emitAppend_emitted h (by omega)
  · exact .refl P Q call
  · exact emitWith_emitted
      (h.request call.core peer .heartbeatRequest (.refl _) (Or.inr rfl) (by omega))

theorem fillPeerReplicationWindow_idle
    (h : logLastIndex call.core.log < call.core.nextIndex peer) :
    fillPeerReplicationWindow call peer = call := by
  have hbase : call.core.log.baseIndex ≤ logLastIndex call.core.log := Nat.le_add_right _ _
  unfold fillPeerReplicationWindow
  rw [if_neg (by omega)]
  cases call.ready.messageCapacity - call.ready.messages.length with
  | zero => rfl
  | succ fuel =>
    unfold fillPeerLoop
    rw [if_neg]
    simp only [Bool.and_eq_true, decide_eq_true_eq, not_and]
    omega

end RaftEmission
