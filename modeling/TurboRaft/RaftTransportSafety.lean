import TurboRaft.RaftTransport
import TurboRaft.RaftWireLemmas

/-! # Transport sessions deliver what was sent

The feed loop acts like a machine that takes one byte at a time, so the cuts of the stream do not
matter. On a stream of encoded packets that machine delivers the encoded payloads in order. -/
namespace RaftTransportSafety

open RaftTypes ByteFormats RaftWire RaftWireLemmas RaftTransport

variable {sink : Sink} {r : Receiver} {s : Session}

section Decoders

/-! A decoder that fails does not fail with success, so the feed loop sees every fault. -/

variable {frame : List UInt8}

theorem wireDecode_error : wireDecode frame ≠ .error .ok := by
  have hv3 (payload : List UInt8) : wireDecodeV3 payload ≠ .error .ok := by
    unfold wireDecodeV3
    repeat' split
    all_goals simp
  unfold wireDecode
  split
  · simp
  · split
    next heq =>
      rintro ⟨⟩
      exact hv3 _ heq
    next => simp

theorem wireDecodeSnapshotChunk_error : wireDecodeSnapshotChunk frame ≠ .error .ok := by
  have hconf (bytes : List UInt8) : decodedConfiguration bytes ≠ .error .ok := by
    unfold decodedConfiguration
    repeat' split
    all_goals simp
  unfold wireDecodeSnapshotChunk
  split
  · simp
  · split
    · split
      · split
        · simp
        · split
          next heq =>
            rintro ⟨⟩
            exact hconf _ heq
          next =>
            dsimp only
            split <;> simp
      · simp
    · simp

theorem wireDecodeSnapshotAck_error : wireDecodeSnapshotAck frame ≠ .error .ok := by
  unfold wireDecodeSnapshotAck
  dsimp only
  repeat' split
  all_goals simp

theorem wireDecodeDataChunk_error : wireDecodeDataChunk frame ≠ .error .ok := by
  unfold wireDecodeDataChunk
  dsimp only
  repeat' split
  all_goals simp

theorem wireDecodeDataAck_error : wireDecodeDataAck frame ≠ .error .ok := by
  unfold wireDecodeDataAck
  dsimp only
  repeat' split
  all_goals simp

theorem wirePeekPayloadKind_error : wirePeekPayloadKind frame ≠ .error .ok := by
  unfold wirePeekPayloadKind
  repeat' split
  all_goals simp

theorem map_error {α β : Type} {x : Except Status α} {f : α → β} (h : x ≠ .error .ok) :
    x.map f ≠ .error .ok := by
  cases x <;> simp_all [Except.map]

theorem decodeBody_error (kind : PayloadKind) : decodeBody s frame kind ≠ .error .ok := by
  cases kind with
  | raft => exact map_error wireDecode_error
  | snapshotChunk =>
    simp only [decodeBody]
    split
    next heq =>
      rintro ⟨⟩
      exact wireDecodeSnapshotChunk_error heq
    next => split <;> simp
  | snapshotAck => exact map_error wireDecodeSnapshotAck_error
  | dataChunk => exact map_error wireDecodeDataChunk_error
  | dataAck => exact map_error wireDecodeDataAck_error

theorem decodeFrame_error : decodeFrame s frame ≠ .error .ok := by
  unfold decodeFrame
  split
  next heq =>
    rintro ⟨⟩
    exact wirePeekPayloadKind_error heq
  next => exact decodeBody_error _

/-- A dispatch that reports success leaves an active session active, any other faults it. -/
theorem dispatchFrame_active (sink : Sink) (hactive : isActive r.session = true) :
    isActive (dispatchFrame sink r).2.session = true ↔ (dispatchFrame sink r).1 = .ok := by
  unfold dispatchFrame
  split
  next status heq =>
    have hstatus : status ≠ .ok := by
      rintro rfl
      exact decodeFrame_error heq
    simp [isActive, faultSession, hstatus]
  next =>
    split
    · simp [isActive, faultSession]
    · simp only [settleAnswer]
      repeat' split
      all_goals simp_all [isActive, faultSession, recordRejection, acceptMetadata]

end Decoders

section ByteMachine

variable {data : List UInt8}

def pushPrefix (s : Session) (bytes : List UInt8) : Session :=
  { s with lengthPrefix := s.lengthPrefix ++ bytes }

def pushFrame (s : Session) (bytes : List UInt8) : Session := { s with frame := s.frame ++ bytes }

def announce (s : Session) : Session := { s with expectedFrameSize := beValue s.lengthPrefix }

def sizeFrame (s : Session) : Session :=
  if frameSizeRefused (announce s) then faultSession (announce s) else announce s

def settleFrame (sink : Sink) (r : Receiver) : Receiver :=
  match dispatchFrame sink r with
  | (.ok, r) => { r with session := resetFrame r.session }
  | (_, r) => r

/-- What one byte of the stream does to the receiver. -/
def acceptByte (sink : Sink) (r : Receiver) (b : UInt8) : Receiver :=
  if !isActive r.session then
    r
  else if r.session.lengthPrefix.length < lengthPrefixSize then
    let filled := pushPrefix r.session [b]
    { r with session :=
        if filled.lengthPrefix.length < lengthPrefixSize then filled else sizeFrame filled }
  else
    let filled := pushFrame r.session [b]
    if filled.frame.length < filled.expectedFrameSize then { r with session := filled }
    else settleFrame sink { r with session := filled }

/-- Where an active session stands between two bytes. -/
structure Framing (s : Session) : Prop where
  bound : s.lengthPrefix.length ≤ lengthPrefixSize
  before : s.lengthPrefix.length < lengthPrefixSize → s.frame = []
  within : s.lengthPrefix.length = lengthPrefixSize → s.frame.length < s.expectedFrameSize

theorem fold_inactive (h : isActive r.session = false) : data.foldl (acceptByte sink) r = r := by
  induction data with
  | nil => rfl
  | cons b data ih => rw [List.foldl_cons, acceptByte, h, Bool.not_false, if_pos rfl, ih]

@[simp] theorem pushPrefix_length (s : Session) (bytes : List UInt8) :
    (pushPrefix s bytes).lengthPrefix.length = s.lengthPrefix.length + bytes.length :=
  List.length_append

@[simp] theorem pushFrame_length (s : Session) (bytes : List UInt8) :
    (pushFrame s bytes).frame.length = s.frame.length + bytes.length :=
  List.length_append

theorem prefix_fills : Fills (acceptByte sink)
    (fun r bytes => { r with session := pushPrefix r.session bytes })
    (fun r => { r with session := sizeFrame r.session })
    (fun r => lengthPrefixSize - r.session.lengthPrefix.length)
    (fun r => isActive r.session = true) where
  nil r := by simp [pushPrefix]
  append r bytes more := by simp [pushPrefix]
  room_push r bytes := by simp [Nat.sub_sub]
  stays r bytes hactive := hactive
  step_eq r b hactive hroom := by
    simp only [acceptByte, hactive, Bool.not_true, Bool.false_eq_true, if_false, pushPrefix_length,
      List.length_singleton]
    rw [if_pos (by omega)]
    split_ifs <;> first | rfl | omega

theorem frame_fills : Fills (acceptByte sink)
    (fun r bytes => { r with session := pushFrame r.session bytes }) (settleFrame sink)
    (fun r => r.session.expectedFrameSize - r.session.frame.length)
    (fun r => isActive r.session = true ∧ r.session.lengthPrefix.length = lengthPrefixSize) where
  nil r := by simp [pushFrame]
  append r bytes more := by simp [pushFrame]
  room_push r bytes := by simp [pushFrame, Nat.sub_sub]
  stays r bytes hopen := hopen
  step_eq r b hopen hroom := by
    have hexpected : (pushFrame r.session [b]).expectedFrameSize = r.session.expectedFrameSize := rfl
    simp only [acceptByte, hopen.1, Bool.not_true, Bool.false_eq_true, if_false, pushFrame_length,
      List.length_singleton, hexpected]
    rw [if_neg hopen.2.not_lt]
    split_ifs <;> first | rfl | omega

theorem settleFrame_ok (h : (dispatchFrame sink r).1 = .ok) :
    settleFrame sink r =
      { (dispatchFrame sink r).2 with session := resetFrame (dispatchFrame sink r).2.session } := by
  unfold settleFrame
  generalize dispatchFrame sink r = outcome at h ⊢
  obtain ⟨status, after⟩ := outcome
  cases h
  rfl

theorem settleFrame_failed (h : (dispatchFrame sink r).1 ≠ .ok) :
    settleFrame sink r = (dispatchFrame sink r).2 := by
  unfold settleFrame
  split
  next heq => simp [heq] at h
  next heq => rw [heq]

/-- What a settled frame leaves: an active session between two frames, or a faulted one. -/
theorem settleFrame_cases (sink : Sink) (hactive : isActive r.session = true) :
    ((dispatchFrame sink r).1 = .ok ∧ isActive (settleFrame sink r).session = true ∧
      (settleFrame sink r).session.lengthPrefix = [] ∧ (settleFrame sink r).session.frame = []) ∨
    ((dispatchFrame sink r).1 ≠ .ok ∧ isActive (settleFrame sink r).session = false) := by
  have hiff := dispatchFrame_active sink hactive
  by_cases hok : (dispatchFrame sink r).1 = .ok
  · rw [settleFrame_ok hok]
    exact .inl ⟨hok, hiff.mpr hok, rfl, rfl⟩
  · rw [settleFrame_failed hok]
    exact .inr ⟨hok, Bool.eq_false_iff.mpr fun h => hok (hiff.mp h)⟩

theorem Framing.fresh (hlead : s.lengthPrefix = []) (hframe : s.frame = []) : Framing s :=
  ⟨by simp [hlead], fun _ => hframe, by simp [hlead]⟩

theorem announce_waits (hframe : s.frame = []) (haccepted : frameSizeRefused (announce s) = false) :
    (announce s).frame.length < (announce s).expectedFrameSize := by
  have hempty : (announce s).frame.length = 0 := List.length_eq_zero_iff.mpr hframe
  simp only [frameSizeRefused, Bool.or_eq_false_iff, decide_eq_false_iff_not, wireHeaderSize]
    at haccepted
  omega

end ByteMachine

section FeedLoop

variable {fuel : ℕ} {data : List UInt8}

@[simp] theorem feedLoop_nil : feedLoop sink fuel r [] = (.ok, r) := by
  cases fuel <;> rfl

/-- The part of a turn of the feed loop behind the length prefix. -/
def frameTurn (sink : Sink) (fuel : ℕ) (r : Receiver) (data : List UInt8) : Status × Receiver :=
  let (s, rest) := readFrame r.session data
  if s.frame.length < s.expectedFrameSize then
    feedLoop sink fuel { r with session := s } rest
  else
    match dispatchFrame sink { r with session := s } with
    | (.ok, r) => feedLoop sink fuel { r with session := resetFrame r.session } rest
    | (status, r) => (status, r)

theorem readFrame_short (h : s.frame.length + data.length < s.expectedFrameSize) :
    readFrame s data = (pushFrame s data, []) := by
  have hmin : min (s.expectedFrameSize - s.frame.length) data.length = data.length := by omega
  simp [readFrame, hmin, pushFrame]

theorem readFrame_full {head rest : List UInt8}
    (h : s.frame.length + head.length = s.expectedFrameSize) :
    readFrame s (head ++ rest) = (pushFrame s head, rest) := by
  have hmin : min (s.expectedFrameSize - s.frame.length) (head ++ rest).length = head.length := by
    rw [List.length_append]
    omega
  simp only [readFrame, hmin, pushFrame, List.take_left, List.drop_left]

theorem readPrefix_short (h : s.lengthPrefix.length + data.length < lengthPrefixSize) :
    readPrefix s data = (.short, pushPrefix s data, []) := by
  have hmin : min (lengthPrefixSize - s.lengthPrefix.length) data.length = data.length := by omega
  have hopen : s.lengthPrefix.length < lengthPrefixSize := by omega
  simp [readPrefix, hmin, hopen, pushPrefix, h]

theorem readPrefix_full {head rest : List UInt8} (hopen : s.lengthPrefix.length < lengthPrefixSize)
    (h : s.lengthPrefix.length + head.length = lengthPrefixSize) :
    readPrefix s (head ++ rest) =
      (if frameSizeRefused (announce (pushPrefix s head)) then .refused else .complete,
        announce (pushPrefix s head), rest) := by
  have hmin : min (lengthPrefixSize - s.lengthPrefix.length) (head ++ rest).length =
    head.length := by
    rw [List.length_append]
    omega
  have hfull : ¬ (s.lengthPrefix ++ head).length < lengthPrefixSize := by
    rw [List.length_append]
    omega
  simp only [readPrefix, hmin, if_pos hopen, List.take_left, List.drop_left, if_neg hfull]
  rfl

theorem split_at_length (data : List UInt8) {n : ℕ} (h : n ≤ data.length) :
    ∃ head rest, data = head ++ rest ∧ head.length = n :=
  ⟨data.take n, data.drop n, (List.take_append_drop n data).symm, List.length_take_of_le h⟩

/-- What the induction over the turns of the loop gives for the turns that are left. -/
def LoopFolds (sink : Sink) (fuel : ℕ) : Prop :=
  ∀ (r : Receiver) (data : List UInt8), isActive r.session = true → Framing r.session →
    data.length ≤ fuel → (feedLoop sink fuel r data).2 = data.foldl (acceptByte sink) r

theorem frameTurn_folds (data : List UInt8) (hloop : LoopFolds sink fuel)
    (hactive : isActive r.session = true)
    (hwhole : r.session.lengthPrefix.length = lengthPrefixSize)
    (hopen : r.session.frame.length < r.session.expectedFrameSize)
      (hfuel : data.length ≤ fuel + 1) :
    (frameTurn sink fuel r data).2 = data.foldl (acceptByte sink) r := by
  unfold frameTurn
  rcases Nat.lt_or_ge data.length (r.session.expectedFrameSize - r.session.frame.length)
    with hless | hmore
  · have hshort : r.session.frame.length + data.length < r.session.expectedFrameSize := by omega
    have hwaits : (pushFrame r.session data).frame.length <
        (pushFrame r.session data).expectedFrameSize := by
      simpa [pushFrame] using hshort
    rw [readFrame_short hshort, frame_fills.short ⟨hactive, hwhole⟩ hless]
    simp only [if_pos hwaits, feedLoop_nil]
  · obtain ⟨head, rest, rfl, hhead⟩ := split_at_length data hmore
    have hfull : r.session.frame.length + head.length = r.session.expectedFrameSize := by omega
    have hdone : ¬ (pushFrame r.session head).frame.length <
        (pushFrame r.session head).expectedFrameSize := by
      simp only [pushFrame, List.length_append]
      omega
    rw [readFrame_full hfull, List.foldl_append,
      frame_fills.filled ⟨hactive, hwhole⟩ (Nat.sub_pos_of_lt hopen) hhead]
    simp only [if_neg hdone]
    set filled : Receiver := { r with session := pushFrame r.session head } with hfilled
    have hactive' : isActive filled.session = true := hactive
    obtain ⟨hok, hstill, hlead, hframe⟩ | ⟨hfailed, hfaulted⟩ := settleFrame_cases sink hactive'
    · rw [settleFrame_ok hok] at hstill hlead hframe ⊢
      rw [List.length_append] at hfuel
      rw [← hloop _ rest hstill (Framing.fresh hlead hframe) (by omega)]
      generalize dispatchFrame sink filled = outcome at hok ⊢
      obtain ⟨status, after⟩ := outcome
      cases hok
      rfl
    · rw [fold_inactive hfaulted, settleFrame_failed hfailed]
      generalize dispatchFrame sink filled = outcome at hfailed ⊢
      obtain ⟨status, after⟩ := outcome
      split
      next heq =>
        cases heq
        exact absurd rfl hfailed
      next heq =>
        cases heq
        rfl

theorem feedLoop_folds : LoopFolds sink fuel := by
  induction fuel with
  | zero =>
    intro r data _ _ hfuel
    rw [List.length_eq_zero_iff.mp (Nat.le_zero.mp hfuel)]
    rfl
  | succ fuel ih =>
    intro r data hactive hframing hfuel
    rcases data.eq_nil_or_concat' with rfl | hdata
    · rfl
    have hne : data.isEmpty = false := by
      obtain ⟨front, b, rfl⟩ := hdata
      simp
    rcases Nat.lt_or_ge r.session.lengthPrefix.length lengthPrefixSize with hopen | hclosed
    · rcases Nat.lt_or_ge data.length (lengthPrefixSize - r.session.lengthPrefix.length)
        with hless | hmore
      · have hshort : r.session.lengthPrefix.length + data.length < lengthPrefixSize := by omega
        simp only [feedLoop, hne, Bool.false_eq_true, if_false, readPrefix_short hshort,
          feedLoop_nil, prefix_fills.short hactive hless]
      · obtain ⟨head, rest, rfl, hhead⟩ := split_at_length data hmore
        have hfull : r.session.lengthPrefix.length + head.length = lengthPrefixSize := by omega
        have hframe : (pushPrefix r.session head).frame = [] := hframing.before hopen
        have hwhole : (pushPrefix r.session head).lengthPrefix.length = lengthPrefixSize := by
          simpa [pushPrefix] using hfull
        rw [List.foldl_append, prefix_fills.filled hactive (Nat.sub_pos_of_lt hopen) hhead]
        simp only [feedLoop, hne, Bool.false_eq_true, if_false, readPrefix_full hopen hfull]
        cases hrefused : frameSizeRefused (announce (pushPrefix r.session head)) with
        | true =>
          simp only [sizeFrame, hrefused, if_true]
          exact (fold_inactive rfl).symm
        | false =>
          have hturn := frameTurn_folds rest ih
            (r := { r with session := announce (pushPrefix r.session head) })
            hactive hwhole (announce_waits hframe hrefused) (by
              rw [List.length_append] at hfuel
              omega)
          simp only [sizeFrame, hrefused, Bool.false_eq_true, if_false]
          exact hturn
    · have hwhole := le_antisymm hframing.bound hclosed
      rw [← frameTurn_folds data ih hactive hwhole (hframing.within hwhole) hfuel]
      simp only [feedLoop, hne, Bool.false_eq_true, if_false, readPrefix,
        if_neg (Nat.not_lt.mpr hclosed)]
      rfl

end FeedLoop

def countBytes (n : ℕ) (r : Receiver) : Receiver :=
  { r with session := { r.session with status :=
      { r.session.status with bytesDecoded := r.session.status.bytesDecoded + n } } }

section Counters

/-! What a session counts steers nothing: receivers that differ in the counters, with sinks that
answer alike, go on alike. -/

structure Counters where
  bytes : ℕ
  rejections : ℕ
  lastGroup : UInt64
  lastError : Status

def recount (x : Counters) (s : Session) : Session :=
  { s with status :=
      { s.status with
        bytesDecoded := x.bytes
        groupRoutingRejections := x.rejections
        lastRejectedGroupId := x.lastGroup
        lastGroupRoutingError := x.lastError } }

def countersOf (s : Session) : Counters :=
  ⟨s.status.bytesDecoded, s.status.groupRoutingRejections, s.status.lastRejectedGroupId,
    s.status.lastGroupRoutingError⟩

/-- Sessions that differ in nothing but their counters. -/
def AlikeSessions (s t : Session) : Prop := ∃ x, t = recount x s

theorem AlikeSessions.refl (s : Session) : AlikeSessions s s := ⟨countersOf s, rfl⟩

/-- Two calls report the same and leave what `R` relates. -/
structure Likewise {α : Type} (R : α → α → Prop) (p q : Status × α) : Prop where
  status : p.1 = q.1
  after : R p.2 q.2

variable {n fuel : ℕ} {other : Sink} {t : Receiver} {data : List UInt8}

/-- Sinks that answer alike once they have been called `n` times. -/
def AgreeFrom (n : ℕ) (sink other : Sink) : Prop :=
  ∀ past payload, n ≤ past.length → sink past payload = other past payload

/-- Receivers of two runs after `n` calls of the sinks or more. -/
structure Alike (n : ℕ) (r t : Receiver) : Prop where
  sessions : AlikeSessions r.session t.session
  delivered : r.delivered = t.delivered
  beyond : n ≤ r.delivered.length

theorem Alike.trans {u : Receiver} (h : Alike n r t) (h' : Alike n t u) : Alike n r u := by
  obtain ⟨⟨x, hx⟩, hdelivered, hbeyond⟩ := h
  obtain ⟨⟨y, hy⟩, hdelivered', -⟩ := h'
  exact ⟨⟨y, by rw [hy, hx]; rfl⟩, hdelivered.trans hdelivered', hbeyond⟩

theorem settleAnswer_recount (s : Session) (x : Counters) (groupId : UInt64) (answer : Status) :
    Likewise AlikeSessions (settleAnswer s groupId answer)
      (settleAnswer (recount x s) groupId answer) := by
  unfold settleAnswer
  split
  · exact ⟨rfl, ⟨x.bytes, x.rejections + 1, groupId, answer⟩, rfl⟩
  · split
    · exact ⟨rfl, x, rfl⟩
    · exact ⟨rfl, x, rfl⟩

theorem readPrefix_recount {x : Counters} :
    readPrefix (recount x s) data =
      ((readPrefix s data).1, recount x (readPrefix s data).2.1, (readPrefix s data).2.2) := by
  have hsame : (recount x s).lengthPrefix = s.lengthPrefix := rfl
  unfold readPrefix
  dsimp only
  rw [hsame]
  split
  · split <;> rfl
  · rfl

section

variable (hsinks : AgreeFrom n sink other)

include hsinks

theorem dispatchFrame_alike (h : Alike n r t) :
    Likewise (Alike n) (dispatchFrame sink r) (dispatchFrame other t) := by
  obtain ⟨⟨x, hx⟩, hdelivered, hbeyond⟩ := h
  obtain ⟨s, delivered⟩ := r
  obtain ⟨session, same⟩ := t
  subst hx hdelivered
  have hdecode : decodeFrame (recount x s) (recount x s).frame = decodeFrame s s.frame := rfl
  unfold dispatchFrame
  rw [hdecode]
  cases decodeFrame s s.frame with
  | error status => exact ⟨rfl, ⟨x, rfl⟩, rfl, hbeyond⟩
  | ok decoded =>
    obtain ⟨metadata, body⟩ := decoded
    have hrefused : metadataRefused (recount x s) metadata body =
      metadataRefused s metadata body := rfl
    simp only [hrefused]
    cases metadataRefused s metadata body with
    | true => exact ⟨rfl, ⟨x, rfl⟩, rfl, hbeyond⟩
    | false =>
      have hanswer := hsinks delivered ⟨metadata.groupId, body⟩ hbeyond
      obtain ⟨hstatus, hsession⟩ := settleAnswer_recount (acceptMetadata s metadata) x
        metadata.groupId (other delivered ⟨metadata.groupId, body⟩)
      simp only [Bool.false_eq_true, if_false, hanswer]
      exact ⟨hstatus, hsession, rfl, hbeyond.trans (by simp)⟩

def LoopsAlike (n : ℕ) (sink other : Sink) (fuel : ℕ) : Prop :=
  ∀ {r t : Receiver} (data : List UInt8), Alike n r t →
    Likewise (Alike n) (feedLoop sink fuel r data) (feedLoop other fuel t data)

theorem frameTurn_alike (hloop : LoopsAlike n sink other fuel) (data : List UInt8)
    (h : Alike n r t) :
    Likewise (Alike n) (frameTurn sink fuel r data) (frameTurn other fuel t data) := by
  obtain ⟨⟨x, hx⟩, hdelivered, hbeyond⟩ := h
  have hread : readFrame t.session data =
      (recount x (readFrame r.session data).1, (readFrame r.session data).2) := by
    rw [hx]
    rfl
  unfold frameTurn
  rw [hread]
  generalize readFrame r.session data = read
  have hfilled : Alike n { r with session := read.1 } { t with session := recount x read.1 } :=
    ⟨⟨x, rfl⟩, hdelivered, hbeyond⟩
  have hlength : (recount x read.1).frame = read.1.frame := rfl
  have hexpected : (recount x read.1).expectedFrameSize = read.1.expectedFrameSize := rfl
  dsimp only
  rw [hlength, hexpected]
  split
  · exact hloop _ hfilled
  · obtain ⟨hstatus, hafter⟩ := dispatchFrame_alike hsinks hfilled
    generalize dispatchFrame sink { r with session := read.1 } = one at hstatus hafter ⊢
    generalize dispatchFrame other { t with session := recount x read.1 } = two
      at hstatus hafter ⊢
    obtain ⟨status, after⟩ := one
    obtain ⟨same, after'⟩ := two
    cases hstatus
    obtain ⟨⟨y, hy⟩, hdelivered', hbeyond'⟩ := hafter
    cases status with
    | ok =>
      refine hloop _ ⟨⟨y, ?_⟩, hdelivered', hbeyond'⟩
      rw [hy]
      rfl
    | _ => exact ⟨rfl, ⟨y, hy⟩, hdelivered', hbeyond'⟩

theorem feedLoop_alike (fuel : ℕ) : LoopsAlike n sink other fuel := by
  induction fuel with
  | zero => exact fun _ h => ⟨rfl, h⟩
  | succ fuel ih =>
    intro r t data h
    cases hempty : data.isEmpty with
    | true =>
      rw [List.isEmpty_iff.mp hempty]
      exact ⟨rfl, h⟩
    | false =>
      obtain ⟨⟨x, hx⟩, hdelivered, hbeyond⟩ := h
      simp only [feedLoop, hempty, Bool.false_eq_true, if_false, hx, readPrefix_recount]
      obtain ⟨progress, s, rest⟩ := readPrefix r.session data
      have hfilled : Alike n { r with session := s } { t with session := recount x s } :=
        ⟨⟨x, rfl⟩, hdelivered, hbeyond⟩
      cases progress with
      | short => exact ih rest hfilled
      | refused => exact ⟨rfl, ⟨x, rfl⟩, hdelivered, hbeyond⟩
      | complete => exact frameTurn_alike hsinks ih rest hfilled

theorem transportFeed_alike (data : List UInt8) (h : Alike n r t) :
    Likewise (Alike n) (transportFeed sink r data) (transportFeed other t data) := by
  obtain ⟨⟨x, hx⟩, hdelivered, hbeyond⟩ := h
  have hactive : isActive t.session = isActive r.session := by
    rw [hx]
    rfl
  unfold transportFeed
  rw [hactive]
  split
  · exact ⟨rfl, ⟨x, hx⟩, hdelivered, hbeyond⟩
  · refine feedLoop_alike hsinks _ data ⟨⟨{ x with bytes := x.bytes + data.length }, ?_⟩,
      hdelivered, hbeyond⟩
    rw [hx]
    rfl

end

end Counters

section Pieces

variable {data : List UInt8} (hframing : isActive r.session = true → Framing r.session)

include hframing

theorem acceptByte_framing (b : UInt8)
    (hstill : isActive (acceptByte sink r b).session = true) :
      Framing (acceptByte sink r b).session := by
  cases hactive : isActive r.session with
  | false =>
    have hsame : acceptByte sink r b = r := by simp [acceptByte, hactive]
    rw [hsame] at hstill ⊢
    exact hframing hstill
  | true =>
    obtain ⟨hbound, hbefore, hwithin⟩ := hframing hactive
    unfold acceptByte at hstill ⊢
    simp only [hactive, Bool.not_true, Bool.false_eq_true, if_false] at hstill ⊢
    rcases Nat.lt_or_ge r.session.lengthPrefix.length lengthPrefixSize with hopen | hclosed
    · have hlength : (pushPrefix r.session [b]).lengthPrefix.length =
          r.session.lengthPrefix.length + 1 := by simp [pushPrefix]
      have hframe : (pushPrefix r.session [b]).frame = [] := hbefore hopen
      simp only [if_pos hopen] at hstill ⊢
      by_cases hmore : (pushPrefix r.session [b]).lengthPrefix.length < lengthPrefixSize
      · rw [if_pos hmore]
        exact ⟨hmore.le, fun _ => hframe, fun hwhole => absurd hwhole hmore.ne⟩
      · rw [if_neg hmore] at hstill ⊢
        cases hrefused : frameSizeRefused (announce (pushPrefix r.session [b])) with
        | true =>
          simp [sizeFrame, hrefused, isActive, faultSession] at hstill
        | false =>
          simp only [sizeFrame, hrefused, Bool.false_eq_true, if_false]
          exact ⟨hlength.trans_le hopen, fun hless => absurd hless hmore,
            fun _ => announce_waits hframe hrefused⟩
    · simp only [if_neg (Nat.not_lt.mpr hclosed)] at hstill ⊢
      split
      next hmore => exact ⟨hbound, fun hless => absurd hclosed (Nat.not_le.mpr hless),
        fun _ => hmore⟩
      next hdone =>
        rw [if_neg hdone] at hstill
        obtain ⟨-, -, hlead, hframe⟩ | ⟨-, hfaulted⟩ :=
          settleFrame_cases sink (r := { r with session := pushFrame r.session [b] }) hactive
        · exact Framing.fresh hlead hframe
        · rw [hfaulted] at hstill
          cases hstill

theorem fold_framing :
    isActive (data.foldl (acceptByte sink) r).session = true →
      Framing (data.foldl (acceptByte sink) r).session := by
  induction data generalizing r with
  | nil => exact hframing
  | cons b data ih => exact ih (acceptByte_framing hframing b)

theorem transportFeed_folds (sink : Sink) (data : List UInt8) :
    Alike 0 (data.foldl (acceptByte sink) r) (transportFeed sink r data).2 := by
  unfold transportFeed
  cases hactive : isActive r.session with
  | false =>
    rw [fold_inactive hactive]
    exact ⟨AlikeSessions.refl _, rfl, Nat.zero_le _⟩
  | true =>
    rw [← feedLoop_folds r data hactive (hframing hactive) le_rfl]
    have hcounted : Alike 0 r (countBytes data.length r) :=
      ⟨⟨{ countersOf r.session with bytes := _ }, rfl⟩, rfl, Nat.zero_le _⟩
    exact (feedLoop_alike (fun _ _ _ => rfl) _ data hcounted).after

def feedPieces (sink : Sink) (r : Receiver) (pieces : List (List UInt8)) : Receiver :=
  pieces.foldl (fun r piece => (transportFeed sink r piece).2) r

theorem feedPieces_folds {t : Receiver} (sink : Sink) (h : Alike 0 r t)
    (pieces : List (List UInt8)) :
    Alike 0 (pieces.flatten.foldl (acceptByte sink) r) (feedPieces sink t pieces) := by
  induction pieces generalizing r t with
  | nil => exact h
  | cons piece pieces ih =>
    rw [List.flatten_cons, List.foldl_append]
    exact ih (fold_framing hframing) ((transportFeed_folds hframing sink piece).trans
      (transportFeed_alike (fun _ _ _ => rfl) piece h).after)

/-- What the host sees of a receiver: the payloads it was given, whether the session is faulted and
the last accepted message identifier. -/
def outcome (r : Receiver) : List Delivery × TransportState × UInt64 :=
  (r.delivered, r.session.status.state, r.session.lastInboundMessageId)

omit hframing in
theorem Alike.outcome_eq {t : Receiver} {n : ℕ} (h : Alike n r t) : outcome t = outcome r := by
  obtain ⟨⟨x, hx⟩, hdelivered, -⟩ := h
  rw [outcome, outcome, hx, hdelivered]
  rfl

end Pieces

section Packets

variable {payload : TransportPayload} {capacity : ℕ} {packet : List UInt8} {after : Session}
  {metadata : WireMetadata} {body : PayloadBody} {frame : List UInt8}

def BodyWords : PayloadBody → Prop
  | .raft m => MessageWords m
  | .snapshotChunk c => SnapshotChunkWords c
  | .snapshotAck a => SnapshotAckWords a
  | .dataChunk c => DataChunkWords c
  | .dataAck a => DataAckWords a

/-- A read message carries no campaign term. -/
def ReadsPlain : PayloadBody → Prop
  | .raft m => isReadMessage m.type = true → m.campaignTerm = 0
  | _ => True

theorem encodePayload_cases (h : encodePayload s payload capacity = (.ok packet, after)) :
    ∃ metadata frame, prepareOutbound s payload = .ok metadata ∧
      encodeBody s metadata payload.body (capacity - lengthPrefixSize) = .ok frame ∧
      packet = beBytes lengthPrefixSize frame.length ++ frame ∧
      after = commitOutbound s (lengthPrefixSize + frame.length) := by
  unfold encodePayload at h
  split at h
  · cases h
  · split at h
    · cases h
    next metadata hmetadata =>
      split at h
      · cases h
      next frame hframe =>
        split at h
        · cases h
        · cases h
          exact ⟨metadata, frame, hmetadata, hframe, rfl, rfl⟩

theorem encodePayload_error {status : Status}
    (h : encodePayload s payload capacity = (.error status, after)) :
    after = s := by
  unfold encodePayload at h
  repeat' split at h
  all_goals cases h
  all_goals rfl

theorem encodeBody_decodes {peer : Session} (h : encodeBody s metadata body capacity = .ok frame)
    (hwords : BodyWords body) (hplain : ReadsPlain body)
    (hchunk : peer.snapshotChunkSize = s.snapshotChunkSize) :
    decodeFrame peer frame = .ok (metadata, body) ∧ wireHeaderSize ≤ frame.length ∧
      frame.length ≤ RaftWire.maxFrameSize := by
  cases body with
  | raft m =>
    obtain ⟨⟨payload, hframed⟩, hdecode⟩ := wireEncode_framed h hwords hplain
    refine ⟨?_, hframed.bounds⟩
    simp only [decodeFrame, hframed.peek, decodeBody, hdecode, Except.map]
  | snapshotChunk c =>
    simp only [encodeBody] at h
    split at h
    · cases h
    next hsize =>
      obtain ⟨⟨payload, hframed⟩, hdecode⟩ := wireEncodeSnapshotChunk_framed h hwords
      refine ⟨?_, hframed.bounds⟩
      simp only [decodeFrame, hframed.peek, decodeBody, hdecode, hchunk, if_neg hsize]
  | snapshotAck a =>
    obtain ⟨⟨payload, hframed⟩, hdecode⟩ := wireEncodeSnapshotAck_framed h hwords
    refine ⟨?_, hframed.bounds⟩
    simp only [decodeFrame, hframed.peek, decodeBody, hdecode, Except.map]
  | dataChunk c =>
    obtain ⟨⟨payload, hframed⟩, hdecode⟩ := wireEncodeDataChunk_framed h hwords
    refine ⟨?_, hframed.bounds⟩
    simp only [decodeFrame, hframed.peek, decodeBody, hdecode, Except.map]
  | dataAck a =>
    obtain ⟨⟨payload, hframed⟩, hdecode⟩ := wireEncodeDataAck_framed h hwords
    refine ⟨?_, hframed.bounds⟩
    simp only [decodeFrame, hframed.peek, decodeBody, hdecode, Except.map]

/-- The receiving session `peer` stands between two packets and expects the next one of `s`. -/
structure Linked (s peer : Session) : Prop where
  cluster : peer.clusterId = s.clusterId
  sender : peer.peerNodeId = s.localNodeId
  receiver : peer.localNodeId = s.peerNodeId
  chunks : peer.snapshotChunkSize = s.snapshotChunkSize
  frames : RaftWire.maxFrameSize ≤ peer.maxFrameSize
  active : isActive peer = true
  idlePrefix : peer.lengthPrefix = []
  idleFrame : peer.frame = []
  ascending : s.outboundIdsExhausted = false → peer.lastInboundMessageId < s.nextOutboundMessageId

def holdFrame (s : Session) (frame : List UInt8) : Session :=
  { s with
    lengthPrefix := beBytes lengthPrefixSize frame.length
    expectedFrameSize := frame.length
    frame }

theorem feedLoop_packet (hlead : r.session.lengthPrefix = []) (hidle : r.session.frame = [])
    (hlow : wireHeaderSize ≤ frame.length) (hhigh : frame.length ≤ RaftWire.maxFrameSize)
    (hmax : frame.length ≤ r.session.maxFrameSize) (fuel : ℕ) :
    feedLoop sink (fuel + 1) r (beBytes lengthPrefixSize frame.length ++ frame) =
      ((dispatchFrame sink { r with session := holdFrame r.session frame }).1,
        settleFrame sink { r with session := holdFrame r.session frame }) := by
  have hvalue : beValue (beBytes lengthPrefixSize frame.length) = frame.length :=
    beValue_beBytes (lt_of_le_of_lt hhigh (by decide))
  have hempty : r.session.lengthPrefix.length = 0 := List.length_eq_zero_iff.mpr hlead
  set sized := announce (pushPrefix r.session (beBytes lengthPrefixSize frame.length)) with hsized
  have hexpected : sized.expectedFrameSize = frame.length := by
    simp only [hsized, announce, pushPrefix, hlead, List.nil_append, hvalue]
  have hread : readPrefix r.session (beBytes lengthPrefixSize frame.length ++ frame) =
      (.complete, sized, frame) := by
    have haccepted : frameSizeRefused sized = false := by
      have hmax' : frame.length ≤ sized.maxFrameSize := hmax
      simp only [frameSizeRefused, hexpected, Bool.or_eq_false_iff, decide_eq_false_iff_not]
      omega
    rw [readPrefix_full (by rw [hempty]; decide) (by rw [hempty, beBytes_length, Nat.zero_add]),
      ← hsized, haccepted]
    rfl
  have hframe : readFrame sized frame = (holdFrame r.session frame, []) := by
    have hfull : sized.frame.length + frame.length = sized.expectedFrameSize := by
      rw [hexpected, show sized.frame = [] from hidle, List.length_nil, Nat.zero_add]
    have happend : readFrame sized (frame ++ []) = _ := readFrame_full hfull
    rw [List.append_nil] at happend
    rw [happend]
    simp only [pushFrame, holdFrame, hsized, announce, pushPrefix, hlead, hidle, List.nil_append,
      hvalue]
  have hwhole : ¬ (holdFrame r.session frame).frame.length <
      (holdFrame r.session frame).expectedFrameSize := lt_irrefl _
  have hne : (beBytes lengthPrefixSize frame.length ++ frame).isEmpty = false := rfl
  simp only [feedLoop, hne, Bool.false_eq_true, if_false, hread, hframe, if_neg hwhole,
    feedLoop_nil, settleFrame]
  generalize dispatchFrame sink { r with session := holdFrame r.session frame } = outcome
  obtain ⟨status, after⟩ := outcome
  cases status <;> rfl

theorem fold_packet (hlink : Linked s r.session)
    (hlow : wireHeaderSize ≤ frame.length) (hhigh : frame.length ≤ RaftWire.maxFrameSize) :
    (beBytes lengthPrefixSize frame.length ++ frame).foldl (acceptByte sink) r =
      settleFrame sink { r with session := holdFrame r.session frame } := by
  rw [← feedLoop_folds r _ hlink.active (Framing.fresh hlink.idlePrefix hlink.idleFrame)
    (Nat.le_succ _), feedLoop_packet hlink.idlePrefix hlink.idleFrame hlow hhigh
    (hhigh.trans hlink.frames)]

theorem settleFrame_accepted (hdecode : decodeFrame r.session r.session.frame = .ok (metadata, body))
    (hmetadata : metadataRefused r.session metadata body = false)
    (hanswer : sink r.delivered ⟨metadata.groupId, body⟩ = .ok) :
    settleFrame sink r =
      { session := resetFrame (acceptMetadata r.session metadata)
        delivered := r.delivered ++ [⟨metadata.messageId, metadata.groupId, body⟩] } := by
  have hdispatch : dispatchFrame sink r =
      (.ok, { session := acceptMetadata r.session metadata
              delivered := r.delivered ++ [⟨metadata.messageId, metadata.groupId, body⟩] }) := by
    unfold dispatchFrame
    rw [hdecode]
    simp only [hmetadata, Bool.false_eq_true, if_false, settleAnswer, hanswer]
    rfl
  rw [settleFrame, hdispatch]

theorem commitOutbound_next (size : ℕ)
    (hleft : (commitOutbound s size).outboundIdsExhausted = false) :
    (commitOutbound s size).nextOutboundMessageId.toNat = s.nextOutboundMessageId.toNat + 1 := by
  simp only [commitOutbound, Bool.or_eq_false_iff] at hleft
  have hne : s.nextOutboundMessageId.toNat ≠ uint64Max := by simpa using hleft.2
  have hlt := s.nextOutboundMessageId.toNat_lt
  simp only [commitOutbound, hleft.2, Bool.false_eq_true, if_false, UInt64.toNat_add]
  have hone : (1 : UInt64).toNat = 1 := rfl
  unfold uint64Max at hne
  omega

/-- One encoded packet is delivered with the identifier it was sent with, and the sessions are
linked for the next one. -/
theorem packet_delivered (hlink : Linked s r.session)
    (h : encodePayload s payload capacity = (.ok packet, after)) (hwords : BodyWords payload.body)
    (hplain : ReadsPlain payload.body) (haccepts : sink r.delivered payload = .ok) :
    Linked after (packet.foldl (acceptByte sink) r).session ∧
      (packet.foldl (acceptByte sink) r).delivered =
        r.delivered ++ [⟨s.nextOutboundMessageId, payload⟩] ∧ s.outboundIdsExhausted = false ∧
      after = commitOutbound s packet.length := by
  obtain ⟨metadata, frame, hprepare, hframe, rfl, rfl⟩ := encodePayload_cases h
  obtain ⟨hdecode, hlow, hhigh⟩ := encodeBody_decodes hframe hwords hplain hlink.chunks
  unfold prepareOutbound at hprepare
  split_ifs at hprepare with hgroup hrefused
  cases hprepare
  simp only [Bool.or_eq_true, Bool.not_eq_true', bne_iff_ne, ne_eq, not_or, Bool.not_eq_false,
    Bool.not_eq_true, Decidable.not_not, beq_iff_eq] at hgroup hrefused
  obtain ⟨⟨⟨hactive, hleft⟩, hfrom⟩, hto⟩ := hrefused
  have hascending := hlink.ascending hleft
  have hmetadata : metadataRefused (holdFrame r.session frame)
      ⟨s.clusterId, payload.groupId, s.nextOutboundMessageId⟩ payload.body = false := by
    have hpositive : s.nextOutboundMessageId ≠ 0 := by
      intro hzero
      rw [hzero] at hascending
      exact absurd hascending (UInt64.not_lt.mpr UInt64.zero_le)
    have hcluster : (holdFrame r.session frame).clusterId = s.clusterId := hlink.cluster
    have hlast : ¬ s.nextOutboundMessageId ≤ (holdFrame r.session frame).lastInboundMessageId :=
      UInt64.not_le.mpr hascending
    have hsender : (holdFrame r.session frame).peerNodeId = s.localNodeId := hlink.sender
    have hreceiver : (holdFrame r.session frame).localNodeId = s.peerNodeId := hlink.receiver
    simp [metadataRefused, hcluster, hgroup, hpositive, hlast, hsender, hreceiver, hfrom, hto]
  rw [fold_packet hlink hlow hhigh, settleFrame_accepted (r := { r
      with session := holdFrame r.session frame }) hdecode hmetadata haccepts]
  refine ⟨?_, rfl, hleft, by simp⟩
  exact
    { cluster := hlink.cluster
      sender := hlink.sender
      receiver := hlink.receiver
      chunks := hlink.chunks
      frames := hlink.frames
      active := hlink.active
      idlePrefix := rfl
      idleFrame := rfl
      ascending := fun hmore => UInt64.lt_iff_toNat_lt.mpr (by
        rw [commitOutbound_next _ hmore]
        exact Nat.lt_succ_self _) }

end Packets

structure Attempt where
  payload : TransportPayload
  capacity : ℕ
  words : BodyWords payload.body

def encodeAll : Session → List Attempt → List (TransportPayload × List UInt8)
  | _, [] => []
  | s, a :: attempts =>
    match encodePayload s a.payload a.capacity with
    | (.ok packet, s) => (a.payload, packet) :: encodeAll s attempts
    | (.error _, s) => encodeAll s attempts

theorem encodeAll_exhausted (hexhausted : s.outboundIdsExhausted = true) (attempts : List Attempt) :
    encodeAll s attempts = [] := by
  induction attempts with
  | nil => rfl
  | cons a attempts ih =>
    have hprepare (metadata : WireMetadata) : prepareOutbound s a.payload ≠ .ok metadata := by
      simp only [prepareOutbound, hexhausted, Bool.or_true, Bool.true_or, if_true]
      split <;> simp
    unfold encodeAll
    split
    next heq =>
      obtain ⟨metadata, frame, hok, -⟩ := encodePayload_cases heq
      exact absurd hok (hprepare metadata)
    next heq => rw [encodePayload_error heq, ih]

/-- The packets of a sequence of encodes, given to the machine one byte after another. -/
theorem stream_delivered (hlink : Linked s r.session) (attempts : List Attempt)
    (hplain : ∀ a ∈ attempts, ReadsPlain a.payload.body)
    (haccepts : ∀ past payload, sink past payload = .ok) :
    ∃ new after, Linked after
        (((encodeAll s attempts).map Prod.snd).flatten.foldl (acceptByte sink) r).session ∧
      (((encodeAll s attempts).map Prod.snd).flatten.foldl (acceptByte sink) r).delivered =
        r.delivered ++ new ∧
      new.map Delivery.payload = (encodeAll s attempts).map Prod.fst ∧
      new.map (fun d => d.messageId.toNat) =
        List.range' s.nextOutboundMessageId.toNat (encodeAll s attempts).length := by
  induction attempts generalizing s r with
  | nil => exact ⟨[], s, hlink, (List.append_nil _).symm, rfl, rfl⟩
  | cons a attempts ih =>
    have hrest : ∀ a ∈ attempts, ReadsPlain a.payload.body := fun a ha =>
      hplain a (List.mem_cons_of_mem _ ha)
    unfold encodeAll
    split
    next packet after heq =>
      obtain ⟨hnext, hdelivered, hleft, hafter⟩ := packet_delivered hlink heq a.words
        (hplain a List.mem_cons_self) (haccepts _ _)
      obtain ⟨new, last, hlast, hnew, hpayloads, hids⟩ := ih hnext hrest
      refine ⟨⟨s.nextOutboundMessageId, a.payload⟩ :: new, last, ?_, ?_, ?_, ?_⟩
      · simpa only [List.map_cons, List.flatten_cons, List.foldl_append] using hlast
      · simp only [List.map_cons, List.flatten_cons, List.foldl_append]
        rw [hnew, hdelivered, List.append_assoc, List.singleton_append]
      · simp only [List.map_cons, hpayloads]
      · rw [List.map_cons, hids, List.length_cons, List.range'_succ]
        cases hmore : after.outboundIdsExhausted with
        | true => rw [encodeAll_exhausted hmore, List.length_nil, List.range'_zero,
            List.range'_zero]
        | false =>
          have hsucc : after.nextOutboundMessageId.toNat = s.nextOutboundMessageId.toNat + 1 := by
            rw [hafter] at hmore ⊢
            exact commitOutbound_next _ hmore
          rw [hsucc]
    next status after heq =>
      rw [encodePayload_error heq]
      exact ih hlink hrest

variable {config mirrored : SessionConfig}

theorem sessionCreate_ok (h : sessionCreate config = .ok s) :
    s.clusterId = config.clusterId ∧ s.localNodeId = config.localNodeId ∧
      s.peerNodeId = config.peerNodeId ∧ s.snapshotChunkSize = maxSnapshotChunkBytes ∧
      RaftWire.maxFrameSize ≤ s.maxFrameSize ∧ isActive s = true ∧ s.lengthPrefix = [] ∧
        s.frame = [] ∧
      s.lastInboundMessageId = 0 ∧ s.nextOutboundMessageId = config.firstOutboundMessageId ∧
      config.firstOutboundMessageId ≠ 0 := by
  unfold sessionCreate at h
  split at h
  · cases h
  next hvalid =>
    split at h
    next hhandshake =>
      cases h
      have hframes : RaftWire.maxFrameSize ≤ config.handshake.maxFrameSize := by
        unfold handshakeResultValidate at hhandshake
        split_ifs at hhandshake with hcomplete hsupported
        simp only [Bool.or_eq_true, decide_eq_true_eq, not_or, Nat.not_lt] at hsupported
        exact hsupported.1.2
      have hfirst : config.firstOutboundMessageId ≠ 0 := by
        simp only [Bool.or_eq_true, beq_iff_eq, not_or] at hvalid
        exact hvalid.2
      exact ⟨rfl, rfl, rfl, rfl, hframes, rfl, rfl, rfl, rfl, rfl, hfirst⟩
    next => cases h

structure Mirrored (config mirrored : SessionConfig) : Prop where
  cluster : mirrored.clusterId = config.clusterId
  sender : mirrored.peerNodeId = config.localNodeId
  receiver : mirrored.localNodeId = config.peerNodeId

theorem created_linked {sender receiver : Session} (hmirror : Mirrored config mirrored)
    (hsender : sessionCreate config = .ok sender)
      (hreceiver : sessionCreate mirrored = .ok receiver) :
    Linked sender receiver := by
  obtain ⟨hcluster, hlocal, hpeer, hchunks, -, -, -, -, -, hnext, hfirst⟩ :=
    sessionCreate_ok hsender
  obtain ⟨hcluster', hlocal', hpeer', hchunks', hframes, hactive, hlead, hframe, hlast, -, -⟩ :=
    sessionCreate_ok hreceiver
  exact
    { cluster := by rw [hcluster', hcluster, hmirror.cluster]
      sender := by rw [hpeer', hlocal, hmirror.sender]
      receiver := by rw [hlocal', hpeer, hmirror.receiver]
      chunks := hchunks'.trans hchunks.symm
      frames := hframes
      active := hactive
      idlePrefix := hlead
      idleFrame := hframe
      ascending := fun _ => by
        rw [hlast, hnext]
        exact UInt64.pos_iff_ne_zero.mpr hfirst }

/-- The receiver is given the payloads that the sender encoded, in order and each once, with
consecutive identifiers, however the stream of packets is cut; and no stream, encoded by a peer or
not, shows the host of the receiver how it was cut. -/
theorem session_delivers_sent {sender receiver : Session} (hmirror : Mirrored config mirrored)
    (hsender : sessionCreate config = .ok sender)
      (hreceiver : sessionCreate mirrored = .ok receiver) :
    (∀ (attempts : List Attempt) (sink : Sink) (pieces : List (List UInt8)),
      (∀ a ∈ attempts, ReadsPlain a.payload.body) → (∀ past payload, sink past payload = .ok) →
      pieces.flatten = ((encodeAll sender attempts).map Prod.snd).flatten →
      let r := feedPieces sink ⟨receiver, []⟩ pieces
      r.delivered.map Delivery.payload = (encodeAll sender attempts).map Prod.fst ∧
        r.delivered.map (fun d => d.messageId.toNat) =
          List.range' config.firstOutboundMessageId.toNat (encodeAll sender attempts).length ∧
        r.session.lengthPrefix = [] ∧ r.session.frame = [] ∧ r.session.status.state = .ready) ∧
    ∀ (sink : Sink) (stream : List UInt8) (pieces : List (List UInt8)), pieces.flatten = stream →
      outcome (feedPieces sink ⟨receiver, []⟩ pieces) =
        outcome (transportFeed sink ⟨receiver, []⟩ stream).2 := by
  have hlink := created_linked hmirror hsender hreceiver
  have hframing : isActive receiver = true → Framing receiver := fun _ =>
    Framing.fresh hlink.idlePrefix hlink.idleFrame
  refine ⟨fun attempts sink pieces hplain haccepts hpieces => ?_,
    fun sink stream pieces hstream => ?_⟩
  · obtain ⟨⟨x, hx⟩, hdelivered, -⟩ := feedPieces_folds (r := ⟨receiver, []⟩) hframing sink
      ⟨AlikeSessions.refl _, rfl, le_rfl⟩ pieces
    obtain ⟨new, after, hafter, hnew, hpayloads, hids⟩ :=
      stream_delivered (r := ⟨receiver, []⟩) hlink attempts hplain haccepts
    rw [← hpieces] at hafter hnew
    rw [hnew, List.nil_append] at hdelivered
    obtain ⟨-, -, -, -, -, -, -, -, -, hnext, -⟩ := sessionCreate_ok hsender
    rw [hnext] at hids
    dsimp only
    rw [hx, ← hdelivered]
    exact ⟨hpayloads, hids, hafter.idlePrefix, hafter.idleFrame, beq_iff_eq.mp hafter.active⟩
  · have hone : (transportFeed sink ⟨receiver, []⟩ stream).2 =
        feedPieces sink ⟨receiver, []⟩ [stream] := rfl
    have hfolds := feedPieces_folds (r := ⟨receiver, []⟩) hframing sink
      ⟨AlikeSessions.refl _, rfl, le_rfl⟩
    rw [hone, (hfolds pieces).outcome_eq, (hfolds [stream]).outcome_eq, hstream]
    simp

def endpoint (localNodeId peerNodeId : NodeId) : SessionConfig :=
  let clusterId : ClusterId := ⟨List.replicate 16 1, sixteen_ones⟩
  { clusterId, localNodeId, peerNodeId
    firstOutboundMessageId := 1
    handshake :=
      { complete := true
        clusterId, localNodeId, peerNodeId
        peerProcessIncarnation := List.replicate 16 1
        featureBits := 0
        wireMajor := 1
        wireMinor := 0
        maxFrameSize := RaftWire.maxFrameSize
        maxSnapshotChunkSize := maxSnapshotChunkBytes } }

def readRequest : Attempt :=
  { payload :=
      { groupId := 7
        body := .raft
          { type := .readIndexRequest
            fromId := 1
            toId := 2
            term := 3
            campaignTerm := 0
            lastLogIndex := 0
            lastLogTerm := 0
            leaderCommit := 0
            previousLogIndex := 0
            previousLogTerm := 0
            matchIndex := 0
            rejectHint := 0
            entries := []
            granted := false
            contextId := 9 } }
    capacity := 4096
    words := by constructor <;> simp }

def sessionOne : Session := (sessionCreate (endpoint 1 2)).toOption.get rfl

def sessionTwo : Session := (sessionCreate (endpoint 2 1)).toOption.get rfl

def readRequests : List Attempt := [readRequest, { readRequest with capacity := 60 }]

def readStream : List UInt8 := ((encodeAll sessionOne readRequests).map Prod.snd).flatten

theorem read_request_delivered :
    let r := feedPieces (fun _ _ => .ok) ⟨sessionTwo, []⟩ [readStream.take 9, readStream.drop 9]
    r.delivered.map Delivery.payload = [readRequest.payload] ∧
      r.delivered.map (fun d => d.messageId.toNat) = [1] ∧ r.session.status.state = .ready ∧
      outcome r = outcome (transportFeed (fun _ _ => .ok) ⟨sessionTwo, []⟩ readStream).2 := by
  have hencoded : (encodeAll sessionOne readRequests).map Prod.fst = [readRequest.payload] := by
    decide +kernel
  have hcount : (encodeAll sessionOne readRequests).length = 1 := by
    rw [← List.length_map (f := Prod.fst), hencoded, List.length_singleton]
  have hmirror : Mirrored (endpoint 1 2) (endpoint 2 1) := ⟨rfl, rfl, rfl⟩
  have hone : sessionCreate (endpoint 1 2) = .ok sessionOne := rfl
  have htwo : sessionCreate (endpoint 2 1) = .ok sessionTwo := rfl
  obtain ⟨hsent, hcuts⟩ := session_delivers_sent hmirror hone htwo
  obtain ⟨hpayloads, hids, -, -, hready⟩ := hsent readRequests (fun _ _ => .ok)
    [readStream.take 9, readStream.drop 9]
    (by simp [readRequests, readRequest, ReadsPlain]) (fun _ _ => rfl) (by simp [readStream])
  rw [hencoded] at hpayloads
  rw [hcount] at hids
  exact ⟨hpayloads, hids, hready, hcuts _ readStream _ (by simp)⟩

end RaftTransportSafety
