import Mathlib.Data.List.TakeWhile
import TurboRaft.RaftDataStream
import TurboRaft.RaftSnapshotSafety

/-! # What the ends of a transfer promise

An acknowledgement that the sender of a data stream refuses should leave the sender alone, and the
first chunk of a newer leader should replace the transfer of an older one. Both hold with
exceptions, which are stated exactly. -/
namespace RaftTransferContracts

open RaftTypes RaftWire

section Acknowledgements

open RaftDataStream

variable {s : DataSender} {ack : DataAck}

inductive SenderCall where
  | begin (term : ℕ) (streamId : UInt64) (source : DataSource)
  | next (answer : Except Status (List UInt8))
  | cancel (offset : ℕ)
  | resume
  | acknowledge (ack : DataAck)
  | reset

def senderPerform (s : DataSender) : SenderCall → DataSender
  | .begin term streamId source => (senderBeginSource s term streamId source).2
  | .next answer => (senderNext s answer).2
  | .cancel offset => (senderCancel s offset).2
  | .resume => (senderResume s).2
  | .acknowledge ack => (senderAcknowledge s ack).2
  | .reset => senderClear s

/-- The acknowledgement is refused after it has moved the sender: a rejection that comes when the
stream is complete, or an acceptance whose durability does not fit its offset. -/
def tearsSender (s : DataSender) (ack : DataAck) : Bool :=
  s.active && !ackForeign s ack &&
    if ack.accepted then
      decide (s.acknowledgedOffset ≤ ack.nextOffset) &&
        (ack.nextOffset == s.acknowledgedOffset ||
          s.claims.any fun claim => claim.offset + claim.length == ack.nextOffset) &&
        (ack.nextOffset == s.size) != ack.durable &&
        (ack.nextOffset != s.acknowledgedOffset ||
          s.claims.head?.any fun claim => decide (claim.offset + claim.length ≤ ack.nextOffset))
    else
      !ack.durable && decide (ack.nextOffset < s.acknowledgedOffset) && s.complete

def tearsAlong (s : DataSender) : List SenderCall → Bool
  | [] => false
  | .acknowledge ack :: rest =>
    tearsSender s ack || tearsAlong (senderAcknowledge s ack).2 rest
  | call :: rest => tearsAlong (senderPerform s call) rest

theorem moved_eq_self {offset : ℕ} {claims : List DataClaim} :
    { s with acknowledgedOffset := offset, claims } = s ↔
      offset = s.acknowledgedOffset ∧ claims = s.claims := by
  constructor
  · intro h
    exact ⟨congrArg DataSender.acknowledgedOffset h, congrArg DataSender.claims h⟩
  · rintro ⟨rfl, rfl⟩
    rfl

theorem released_eq_self {offset : ℕ} {passed : DataClaim → Bool} :
    { s with acknowledgedOffset := offset, claims := s.claims.dropWhile passed } = s ↔
      offset = s.acknowledgedOffset ∧ s.claims.head?.any passed = false := by
  rw [moved_eq_self, List.dropWhile_eq_self_iff]
  cases s.claims <;> simp

section Reached

variable (hactive : s.active = true) (hforeign : ackForeign s ack = false)

include hactive hforeign

/-- A rejection moves the offset back before a complete sender refuses to resume from there. -/
theorem rejection_atomic (hrejected : ack.accepted = false) :
    ((senderAcknowledge s ack).1 ≠ .ok → (senderAcknowledge s ack).2 = s) ↔
      tearsSender s ack = false := by
  have htears : tearsSender s ack =
      (!ack.durable && decide (ack.nextOffset < s.acknowledgedOffset) && s.complete) := by
    simp [tearsSender, hactive, hforeign, hrejected]
  rw [senderAcknowledge, if_neg (by simp [hactive]), if_neg (by simp [hforeign]),
    if_pos (by simp [hrejected]), htears]
  cases ack.durable with
  | true => simp
  | false =>
    rcases Nat.lt_or_ge s.acknowledgedOffset ack.nextOffset with hahead | hback
    · simp [hahead, hahead.le]
    · rw [if_neg (by simpa using hback), senderResume]
      by_cases hcomplete : s.complete = true
      · have hmoved := @moved_eq_self s ack.nextOffset s.claims
        rw [if_pos (by simp [hcomplete])]
        simp only [ne_eq, reduceCtorEq, not_false_eq_true, forall_const, hmoved]
        simp [hback.lt_iff_ne, hcomplete]
      · simp [hactive, hcomplete]

/-- An acceptance moves the window before its durability is compared with its offset. -/
theorem acceptance_atomic (haccepted : ack.accepted = true) :
    ((senderAcknowledge s ack).1 ≠ .ok → (senderAcknowledge s ack).2 = s) ↔
      tearsSender s ack = false := by
  have htears : tearsSender s ack = (decide (s.acknowledgedOffset ≤ ack.nextOffset) &&
      (ack.nextOffset == s.acknowledgedOffset ||
        s.claims.any fun claim => claim.offset + claim.length == ack.nextOffset) &&
      (ack.nextOffset == s.size) != ack.durable &&
      (ack.nextOffset != s.acknowledgedOffset ||
        s.claims.head?.any fun claim => decide (claim.offset + claim.length ≤ ack.nextOffset))) := by
    simp [tearsSender, hactive, hforeign, haccepted]
  rw [senderAcknowledge, if_neg (by simp [hactive]), if_neg (by simp [hforeign]),
    if_neg (by simp [haccepted]), htears]
  rcases Nat.lt_or_ge ack.nextOffset s.acknowledgedOffset with hbehind | hreached
  · simp [hbehind]
  rw [if_neg hreached.not_gt, decide_eq_true hreached]
  cases hboundary : ack.nextOffset == s.acknowledgedOffset ||
      s.claims.any fun claim => claim.offset + claim.length == ack.nextOffset with
  | false =>
    have hbetween := Bool.or_eq_false_iff.mp hboundary
    simp [bne, hbetween.1, hbetween.2]
  | true =>
    have hgoes : (ack.nextOffset != s.acknowledgedOffset &&
        !s.claims.any fun claim => claim.offset + claim.length == ack.nextOffset) = false := by
      rw [bne, ← Bool.not_or, hboundary]
      rfl
    rw [hgoes]
    cases ack.nextOffset == s.size <;> cases ack.durable <;>
      simp [released_eq_self]

end Reached

theorem senderAcknowledge_atomic (s : DataSender) (ack : DataAck) :
    ((senderAcknowledge s ack).1 ≠ .ok → (senderAcknowledge s ack).2 = s) ↔
      tearsSender s ack = false := by
  cases hactive : s.active with
  | false => simp [senderAcknowledge, tearsSender, hactive]
  | true =>
    cases hforeign : ackForeign s ack with
    | true => simp [senderAcknowledge, tearsSender, hactive, hforeign]
    | false =>
      cases haccepted : ack.accepted with
      | false => exact rejection_atomic hactive hforeign haccepted
      | true => exact acceptance_atomic hactive hforeign haccepted

/-- The offsets lie within the stream, and a complete sender has all of it acknowledged. -/
structure Settled (s : DataSender) : Prop where
  acknowledged : s.acknowledgedOffset ≤ s.size
  next : s.nextOffset ≤ s.size
  claims : ∀ claim ∈ s.claims, claim.offset ≤ s.size
  done : s.complete = true → s.acknowledgedOffset = s.size

theorem Settled.fresh (hacknowledged : s.acknowledgedOffset = 0) (hnext : s.nextOffset = 0)
    (hclaims : s.claims = []) (hdone : s.complete = true → s.size = 0) : Settled s where
  acknowledged := hacknowledged ▸ Nat.zero_le _
  next := hnext ▸ Nat.zero_le _
  claims := by simp [hclaims]
  done := fun hcomplete => hacknowledged.trans (hdone hcomplete).symm

section

variable (h : Settled s)

include h

theorem senderNext_settled (answer : Except Status (List UInt8)) :
    Settled (senderNext s answer).2 := by
  unfold senderNext
  split_ifs
  · exact h
  dsimp only
  cases senderFindFreeSlot s with
  | none => exact h
  | some slot =>
    cases senderRead s (min (s.size - s.nextOffset) s.config.chunkSize) answer with
    | error status => exact h
    | ok data =>
      dsimp only
      split_ifs
      · exact h
      · have hnext := h.next
        refine { h with next := ?_, claims := fun claim hclaim => ?_ }
        · change s.nextOffset + min (s.size - s.nextOffset) s.config.chunkSize ≤ s.size
          omega
        · rcases List.mem_append.mp hclaim with hold | hnew
          · exact h.claims claim hold
          · rw [List.mem_singleton.mp hnew]
            exact h.next

theorem senderCancel_settled (offset : ℕ) : Settled (senderCancel s offset).2 := by
  unfold senderCancel
  cases hlast : s.claims.getLast? with
  | none => exact h
  | some claim =>
    dsimp only
    split_ifs
    · exact h
    · exact { h with
        next := h.claims claim (List.mem_of_getLast? hlast)
        claims := fun claim hclaim => h.claims claim ((List.dropLast_sublist _).mem hclaim) }

theorem senderResume_settled : Settled (senderResume s).2 := by
  unfold senderResume
  split_ifs
  · exact h
  · exact { h with next := h.acknowledged, claims := fun _ hclaim => absurd hclaim List.not_mem_nil }

theorem within_of_not_foreign (hforeign : ¬ackForeign s ack = true) :
    ack.nextOffset ≤ s.size := by
  have hnext := h.next
  simp only [ackForeign, Bool.or_eq_true, not_or, decide_eq_true_eq, not_lt] at hforeign
  omega

theorem senderAcknowledge_settled (hwhole : tearsSender s ack = false) :
    Settled (senderAcknowledge s ack).2 := by
  by_cases hok : (senderAcknowledge s ack).1 = .ok
  swap
  · rw [(senderAcknowledge_atomic s ack).mpr hwhole hok]
    exact h
  revert hok
  have hnext := h.next
  unfold senderAcknowledge
  dsimp only
  split_ifs with _ hforeign _ _ hbehind _ hend
  all_goals intro hok
  · cases hok
  · cases hok
  · cases hok
  · have hwithin := within_of_not_foreign h hforeign
    unfold senderResume at hok ⊢
    split_ifs at hok ⊢ with hdone
    exact
      { acknowledged := hwithin
        next := hwithin
        claims := fun _ hclaim => absurd hclaim List.not_mem_nil
        done := fun hcomplete => absurd hcomplete (by simp_all) }
  · cases hok
  · cases hok
  · cases hok
  · exact { h with
      acknowledged := (beq_iff_eq.mp hend).le
      claims := fun claim hclaim => h.claims claim ((List.dropWhile_sublist _).mem hclaim)
      done := fun _ => beq_iff_eq.mp hend }
  · cases hok
  · have hwithin := within_of_not_foreign h hforeign
    refine { h with
      acknowledged := hwithin
      claims := fun claim hclaim => h.claims claim ((List.dropWhile_sublist _).mem hclaim)
      done := fun hcomplete => ?_ }
    have hall := h.done hcomplete
    change ack.nextOffset = s.size
    omega

theorem senderPerform_settled {calls : List SenderCall}
    (hwhole : tearsAlong s calls = false) : Settled (calls.foldl senderPerform s) := by
  induction calls generalizing s with
  | nil => exact h
  | cons call rest ih =>
    cases call with
    | begin term streamId source =>
      apply ih _ hwhole
      change Settled (senderBeginSource s term streamId source).2
      unfold senderBeginSource
      split_ifs
      · exact h
      · exact h
      · exact .fresh rfl rfl rfl Bool.noConfusion
    | next answer => exact ih (senderNext_settled h answer) hwhole
    | cancel offset => exact ih (senderCancel_settled h offset) hwhole
    | resume => exact ih (senderResume_settled h) hwhole
    | acknowledge ack =>
      obtain ⟨hack, hrest⟩ := Bool.or_eq_false_iff.mp hwhole
      exact ih (senderAcknowledge_settled h hack) hrest
    | reset => exact ih (.fresh rfl rfl rfl fun _ => rfl) hwhole

end

/-- A refused acknowledgement leaves the sender alone exactly when it does not tear it, and without
such acknowledgements a complete sender keeps its whole stream acknowledged. -/
theorem data_acks_atomic {config : DataSenderConfig} {created : DataSender}
    (hcreated : senderCreate config = .ok created) (calls : List SenderCall) :
    (∀ ack, ((senderAcknowledge (calls.foldl senderPerform created) ack).1 ≠ .ok →
        (senderAcknowledge (calls.foldl senderPerform created) ack).2 =
          calls.foldl senderPerform created) ↔
        tearsSender (calls.foldl senderPerform created) ack = false) ∧
      (tearsAlong created calls = false →
        (calls.foldl senderPerform created).complete = true →
        (calls.foldl senderPerform created).acknowledgedOffset =
          (calls.foldl senderPerform created).size) := by
  refine ⟨senderAcknowledge_atomic _, fun hwhole => (senderPerform_settled ?_ hwhole).done⟩
  unfold senderCreate at hcreated
  split_ifs at hcreated
  cases hcreated
  exact .fresh rfl rfl rfl fun _ => rfl

def chunkAck (nextOffset : ℕ) (accepted durable : Bool) : DataAck :=
  { fromId := 2
    toId := 1
    term := 4
    streamId := 9
    streamSize := 3
    nextOffset
    streamDigest := zeroDigest
    accepted, durable }

def newSender : DataSender := (senderCreate ⟨1, 2, 100, 2, 2⟩).toOption.get (by decide)

/-- A stream of three bytes is sent in two chunks and acknowledged. -/
def twoChunks (acks : List DataAck) : List SenderCall :=
  [.begin 4 9 (.memory [10, 20, 30] zeroDigest), .next (.error .eio), .next (.error .eio)] ++
    acks.map .acknowledge

theorem two_chunks_settle :
    ((twoChunks [chunkAck 3 true true, chunkAck 3 true true]).foldl
      senderPerform newSender).acknowledgedOffset = 3 :=
  (data_acks_atomic (rfl : senderCreate ⟨1, 2, 100, 2, 2⟩ = .ok newSender)
    (twoChunks [chunkAck 3 true true, chunkAck 3 true true])).2
    (by decide +kernel) (by decide +kernel)

/-- The whole stream is acknowledged but not as durable: the answer is refused, and the window has
moved. A rejection after completion is refused and takes the acknowledged offset back. -/
theorem refused_acks_move_sender :
    (senderAcknowledge ((twoChunks []).foldl senderPerform newSender) (chunkAck 3 true false)).1 =
        .eproto ∧
      ((twoChunks []).foldl senderPerform newSender).acknowledgedOffset = 0 ∧
      ((twoChunks [chunkAck 3 true false]).foldl senderPerform newSender).acknowledgedOffset = 3 ∧
      ((twoChunks [chunkAck 3 true true, chunkAck 0 false false]).foldl
        senderPerform newSender).complete = true ∧
      ((twoChunks [chunkAck 3 true true, chunkAck 0 false false]).foldl
        senderPerform newSender).acknowledgedOffset = 0 := by
  decide +kernel

end Acknowledgements

open RaftSnapshotTransfer RaftSnapshotSafety

variable {sha : List UInt8 → Digest} {r : SnapshotReceiver} {c : SnapshotChunk}
  {calls : ReceiveCalls}

inductive ReceiverCall where
  | handle (chunk : SnapshotChunk) (calls : ReceiveCalls)
  | reset

def receiverPerform (sha : List UInt8 → Digest) (r : SnapshotReceiver) :
    ReceiverCall → SnapshotReceiver
  | .handle chunk calls => (receiverHandle sha r chunk calls).receiver
  | .reset => clearReceiver r

/-- A first chunk that the receiver can take: it is well formed, its snapshot fits the buffer, and
if it brings the whole snapshot, then with the right digest. -/
def firstChunkValid (sha : List UInt8 → Digest) (r : SnapshotReceiver) (c : SnapshotChunk) : Bool :=
  chunkValid r c && c.snapshotOffset == 0 &&
    (r.config.streaming || decide (c.snapshotSize ≤ r.config.maxBufferedSnapshotBytes)) &&
    (!c.done || sha c.data == c.snapshotDigest)

/-- The receiver that has cleared its transfer and taken nothing but the first chunk `c`. -/
def startedWith (r : SnapshotReceiver) (c : SnapshotChunk) : SnapshotReceiver where
  config := r.config
  leaderId := c.fromId
  leaderTerm := c.term
  snapshotIndex := c.snapshotIndex
  snapshotTerm := c.snapshotTerm
  configuration := c.configuration.getD noConf
  snapshotSize := c.snapshotSize
  nextOffset := c.data.length
  digest := c.snapshotDigest
  data := if c.done then [] else c.data
  hashed := c.data
  streamStarted := r.config.streaming && !c.done
  aborts := r.aborts + r.streamStarted.toNat
  active := true
  completed := c.done

/-- To clear an unfinished transfer calls the abort of its sink once. -/
def AbortsUnfinished (r : SnapshotReceiver) : Prop :=
  r.config.streaming = true → r.active = true → r.completed = false →
    (clearReceiver r).aborts = r.aborts + 1

theorem clearReceiver_aborts (r : SnapshotReceiver) : AbortsUnfinished (clearReceiver r) :=
  fun _ hactive => Bool.noConfusion hactive

theorem receiverStart_aborts (h : AbortsUnfinished r) :
    AbortsUnfinished (receiverStart r c calls).2 := by
  unfold receiverStart
  split_ifs with _ _ _ hstreaming
  · exact h
  · exact h
  · exact clearReceiver_aborts _
  · exact clearReceiver_aborts _
  · exact fun _ _ _ => rfl
  · exact fun hsink => absurd hsink hstreaming

theorem receiverAccept_aborts (h : AbortsUnfinished r) :
    AbortsUnfinished (receiverAccept sha r c calls).receiver := by
  unfold receiverAccept receiverFinish
  dsimp only
  split_ifs
  · exact h
  · exact h
  · exact h
  · exact clearReceiver_aborts _
  · exact clearReceiver_aborts _
  · exact h
  · exact clearReceiver_aborts _
  · exact clearReceiver_aborts _
  · exact fun _ _ hopen => Bool.noConfusion hopen

theorem receiverHandle_aborts (h : AbortsUnfinished r) :
    AbortsUnfinished (receiverHandle sha r c calls).receiver := by
  have hstart := @receiverStart_aborts r c calls h
  unfold receiverHandle
  split_ifs
  · exact h
  · exact h
  · split
    next hstarted => exact receiverAccept_aborts (by rwa [hstarted] at hstart)
    next hstarted => rwa [hstarted] at hstart
  · exact h
  · split
    next hstarted => exact receiverAccept_aborts (by rwa [hstarted] at hstart)
    next hstarted => rwa [hstarted] at hstart
  · exact receiverAccept_aborts h

theorem receiverStart_fits (h : firstChunkValid sha r c = true) :
    receiverStart r c allSucceed = (.ok, startedWith r { c with data := [], done := false }) := by
  have hfits : (!r.config.streaming && c.snapshotSize != 0 &&
      decide (r.config.maxBufferedSnapshotBytes < c.snapshotSize)) = false := by
    simp only [firstChunkValid, Bool.and_eq_true, Bool.or_eq_true, decide_eq_true_eq] at h
    rcases h.1.2 with hstreaming | hsize
    · simp [hstreaming]
    · simp [hsize.not_gt]
  unfold receiverStart
  rw [hfits]
  cases hstreaming : r.config.streaming <;>
    simp [hstreaming, allSucceed, startedWith, clearReceiver]

theorem receiverAccept_first (h : firstChunkValid sha r c = true) :
    let out := receiverAccept sha (startedWith r { c with data := [], done := false }) c allSucceed
    out.status = .ok ∧ out.ack.accepted = true ∧ out.receiver = startedWith r c := by
  simp only [firstChunkValid, Bool.and_eq_true, beq_iff_eq, Bool.or_eq_true, Bool.not_eq_true'] at h
  cases hdone : c.done <;>
    simp_all [receiverAccept, receiverFinish, allSucceed, startedWith]

/-- The first chunk of a newer leader starts its transfer exactly when the receiver is idle or the
chunk's snapshot index is higher, and an older leader's chunk changes no active transfer. -/
theorem newer_leader_supersedes (sha : List UInt8 → Digest) {config : ReceiverConfig}
    {created : SnapshotReceiver} (hcreated : receiverCreate config = .ok created) (history : List ReceiverCall) :
    let r := history.foldl (receiverPerform sha) created
    (∀ c, firstChunkValid sha r c = true → r.leaderTerm < c.term →
        r.snapshotIndex ≤ c.snapshotIndex →
        (((receiverHandle sha r c allSucceed).status = .ok ∧
          (receiverHandle sha r c allSucceed).ack.accepted = true ∧
          (receiverHandle sha r c allSucceed).receiver = startedWith r c ∧ AbortsUnfinished r) ↔
          r.active = false ∨ r.snapshotIndex < c.snapshotIndex)) ∧
      ∀ c calls, r.active = true → c.term < r.leaderTerm →
        (receiverHandle sha r c calls).receiver = r := by
  intro r
  have hopen : AbortsUnfinished r := by
    refine List.foldlRecOn history _ ?_ fun r h call _ => ?_
    · unfold receiverCreate at hcreated
      split_ifs at hcreated
      cases hcreated
      exact fun _ hactive => Bool.noConfusion hactive
    · cases call with
      | handle chunk calls => exact receiverHandle_aborts h
      | reset => exact clearReceiver_aborts r
  refine ⟨fun c hvalid hterm hindex => ?_, fun c calls hactive hterm => ?_⟩
  · have hmismatch : identityMatches r c = false := by
      simp [identityMatches, hterm.ne]
    obtain ⟨hstatus, haccepted, hreceiver⟩ := receiverAccept_first hvalid
    unfold receiverHandle
    rw [receiverStart_fits hvalid]
    dsimp only
    generalize receiverAccept sha _ c allSucceed = out at *
    simp only [firstChunkValid, Bool.and_eq_true, beq_iff_eq] at hvalid
    rw [hvalid.1.1.1, hmismatch, hvalid.1.1.2]
    cases hactive : r.active with
    | false => simp [hstatus, haccepted, hreceiver, hopen]
    | true =>
      rcases hindex.eq_or_lt with hsame | hhigher
      · simp [hsame]
      · simp [hstatus, haccepted, hreceiver, hopen, hterm.not_gt, hhigher, hhigher.not_ge]
  · have hmismatch : identityMatches r c = false := by
      simp [identityMatches, hterm.ne']
    unfold receiverHandle
    simp only [hactive, hmismatch, hterm, decide_true, Bool.or_true, Bool.not_true, Bool.not_false,
      Bool.false_eq_true, if_true, if_false]
    split_ifs <;> rfl

def chunkOfTerm (term snapshotIndex : ℕ) : SnapshotChunk :=
  { smallChunk 0 [10, 20] with term, snapshotIndex }

def halfReceiver : SnapshotReceiver :=
  receiverPerform headDigest smallReceiver (.handle (chunkOfTerm 2 5) allSucceed)

theorem higher_snapshot_supersedes :
    (receiverHandle headDigest halfReceiver (chunkOfTerm 3 6) allSucceed).status = .ok :=
  (((newer_leader_supersedes headDigest
    (rfl : receiverCreate smallReceiverConfig = .ok smallReceiver)
    [.handle (chunkOfTerm 2 5) allSucceed]).1 (chunkOfTerm 3 6) (by decide +kernel) (by decide +kernel)
    (by decide +kernel)).mpr (Or.inr (by decide +kernel))).1

/-- The leader of term 3 sends the snapshot that the leader of term 2 did not finish: it is
refused, and the receiver waits for term 2. -/
theorem same_snapshot_refused :
    firstChunkValid headDigest halfReceiver (chunkOfTerm 3 5) = true ∧
      halfReceiver.leaderTerm < 3 ∧ halfReceiver.snapshotIndex ≤ 5 ∧
      (receiverHandle headDigest halfReceiver (chunkOfTerm 3 5) allSucceed).status = .eproto ∧
      (receiverHandle headDigest halfReceiver (chunkOfTerm 3 5) allSucceed).receiver =
        halfReceiver := by
  decide +kernel

end RaftTransferContracts
