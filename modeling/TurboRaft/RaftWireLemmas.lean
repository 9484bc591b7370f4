import TurboRaft.RaftConfigurationLemmas
import TurboRaft.RaftWire

/-! # Wire frames: round trips

A frame that an encoder has written is decoded to the same metadata and payload, for payloads
whose numbers are 64-bit words. -/
namespace RaftWireLemmas

open RaftTypes RaftConfiguration RaftConfigurationLemmas ByteFormats RaftWire

section Envelopes

variable {kind : PayloadKind} {metadata : WireMetadata} {payload frame : List UInt8}

/-- An envelope before a payload within the limit of its kind. -/
structure Framed (kind : PayloadKind) (metadata : WireMetadata)
    (payload frame : List UInt8) : Prop where
  frame_eq : frame = wireWriteEnvelope kind payload.length metadata ++ payload
  group : metadata.groupId ≠ 0
  limit : payload.length ≤ wirePayloadLimit kind.number

theorem wirePayloadLimit_le (kind : PayloadKind) :
    wirePayloadLimit kind.number ≤ maxSnapshotPayloadSize := by
  cases kind <;> decide

theorem payloadKindOf_number (kind : PayloadKind) : payloadKindOf kind.number = some kind := by
  cases kind <;> rfl

theorem wireWriteEnvelope_length (kind : PayloadKind) (n : ℕ) (metadata : WireMetadata) :
    (wireWriteEnvelope kind n metadata).length = wireHeaderSize := by
  have hmagic : ((Format.u8.many 4).put wireMagic).length = 4 := rfl
  simp [wireWriteEnvelope, envelopeFormat, clusterIdFormat, hmagic]

section

variable (h : Framed kind metadata payload frame)

include h

theorem Framed.metadata_valid :
    wireMetadataValid metadata = true := bne_iff_ne.mpr h.group

theorem Framed.length :
    frame.length = wireHeaderSize + payload.length := by
  rw [h.frame_eq, List.length_append, wireWriteEnvelope_length]

theorem Framed.bounds :
    wireHeaderSize ≤ frame.length ∧ frame.length ≤ maxFrameSize := by
  have hlimit := h.limit
  have hmax := wirePayloadLimit_le kind
  rw [h.length]
  unfold maxFrameSize
  omega

theorem Framed.get :
    envelopeFormat.get frame = some
      ({ magic := wireMagic
         version := wireVersion
         headerSize := wireHeaderSize
         payloadLength := payload.length
         payloadKind := kind.number
         metadata }, payload) := by
  have hlimit := h.limit
  have hmax := wirePayloadLimit_le kind
  have hkind : kind.number < 256 ^ 4 := by cases kind <;> decide
  have hpayload : payload.length < 256 ^ 4 := by
    have : maxSnapshotPayloadSize < 256 ^ 4 := by decide
    omega
  rw [h.frame_eq]
  apply envelopeFormat.get_put
  exact ⟨⟨rfl, fun _ _ => trivial⟩, (by decide : wireVersion < 256 ^ 2),
    (by decide : wireHeaderSize < 256 ^ 2), hpayload, hkind, trivial, Format.u64be_fits _,
    Format.u64be_fits _⟩

theorem Framed.read :
    wireReadEnvelope frame kind = some (metadata, payload) := by
  have hlimit := Nat.not_lt.mpr h.limit
  simp [wireReadEnvelope, h.get, h.length, h.group, hlimit]

theorem Framed.peek : wirePeekPayloadKind frame = .ok kind := by
  have hlimit := Nat.not_lt.mpr h.limit
  have hlong : ¬ frame.length < wireHeaderSize := Nat.not_lt.mpr h.bounds.1
  simp [wirePeekPayloadKind, h.get, h.length, hlimit, payloadKindOf_number]

end

@[simp] theorem clusterIdFormat_canonical : clusterIdFormat.Canonical :=
  Format.fixed_canonical fun _ _ => rfl

@[simp] theorem digestFormat_canonical : digestFormat.Canonical :=
  Format.fixed_canonical fun _ _ => rfl

theorem envelopeFormat_canonical : envelopeFormat.Canonical := by
  refine Format.map_canonical ?_ fun _ _ => rfl
  repeat' apply Format.seq_canonical
  all_goals simp

/-- An accepted envelope is the one that is written for its metadata and payload. -/
theorem wireReadEnvelope_framed (h : wireReadEnvelope frame kind = some (metadata, payload)) :
    Framed kind metadata payload frame := by
  simp only [wireReadEnvelope, Option.bind_eq_bind, Option.bind_eq_some_iff, Prod.exists] at h
  obtain ⟨⟨magic, version, headerSize, length, number, written⟩, rest, hget, h⟩ := h
  split_ifs at h with hwrong
  cases h
  simp only [Bool.or_eq_true, bne_iff_ne, ne_eq, decide_eq_true_eq, beq_iff_eq, not_or,
    not_not, not_lt] at hwrong
  obtain ⟨⟨⟨⟨⟨⟨rfl, rfl⟩, rfl⟩, rfl⟩, hlimit⟩, hlength⟩, hgroup⟩ := hwrong
  have hframe : frame = wireWriteEnvelope kind length written ++ payload :=
    (envelopeFormat_canonical hget).2
  have hpayload : payload.length = length := by
    rw [hframe, List.length_append, wireWriteEnvelope_length] at hlength
    omega
  exact ⟨hpayload ▸ hframe, hgroup, hpayload ▸ hlimit⟩

theorem valid_of_checked {valid : Bool} (h : ¬ (!wireMetadataValid metadata || !valid) = true) :
    metadata.groupId ≠ 0 ∧ valid = true := by
  simpa [wireMetadataValid] using h

end Envelopes

theorem flagByte_le (flag : Bool) : flagByte flag ≤ 1 := by
  cases flag <;> decide

theorem flagByte_fits (flag : Bool) : flagByte flag < 256 ^ 1 :=
  lt_of_le_of_lt (flagByte_le flag) (by decide)

@[simp] theorem flagByte_ne_zero (flag : Bool) : (flagByte flag != 0) = flag := by
  cases flag <;> rfl

theorem flagByte_of_le {n : ℕ} (h : n ≤ 1) : flagByte (n != 0) = n := by
  obtain rfl | rfl := Nat.le_one_iff_eq_zero_or_eq_one.mp h <;> rfl

section RaftMessages

structure MessageWords (m : Message) : Prop where
  term : m.term < 2 ^ 64
  campaignTerm : m.campaignTerm < 2 ^ 64
  lastLogIndex : m.lastLogIndex < 2 ^ 64
  lastLogTerm : m.lastLogTerm < 2 ^ 64
  leaderCommit : m.leaderCommit < 2 ^ 64
  previousLogIndex : m.previousLogIndex < 2 ^ 64
  previousLogTerm : m.previousLogTerm < 2 ^ 64
  matchIndex : m.matchIndex < 2 ^ 64
  rejectHint : m.rejectHint < 2 ^ 64
  entries : ∀ entry ∈ m.entries, entry.index < 2 ^ 64 ∧ entry.term < 2 ^ 64

variable {m : Message} {metadata : WireMetadata} {capacity : ℕ} {frame : List UInt8}

theorem messageTypeOf_number (type : MessageType) :
    messageTypeOf (messageTypeNumber type) = some type := by
  cases type <;> rfl

theorem messageValid_entries (h : messageValid m = true) :
    m.entries.length ≤ maxAppendEntries ∧
      (m.entries ≠ [] → m.type = .appendRequest ∧
        ∀ i entry, m.entries[i]? = some entry → entryValid m.previousLogIndex entry i = true) := by
  simp only [messageValid, Bool.and_eq_true, decide_eq_true_eq] at h
  obtain ⟨⟨_, hcount⟩, hkind⟩ := h
  refine ⟨hcount, fun hne => ?_⟩
  have hlength : (m.entries.length == 0) = false := by
    simpa using hne
  split_ifs at hkind with hread
  · simp [hlength] at hkind
  · simp only [hlength, Bool.false_or, Bool.and_eq_true, beq_iff_eq, List.all_eq_true] at hkind
    refine ⟨hkind.2.1, fun i entry hentry => ?_⟩
    exact hkind.2.2 (entry, i) (List.mk_mem_zipIdx_iff_getElem?.mpr hentry)

theorem entry_data_bound (h : messageValid m = true) {entry : Entry} (hentry : entry ∈ m.entries) :
    entry.data.length ≤ maxEntryBytes := by
  obtain ⟨i, hi⟩ := List.mem_iff_getElem?.mp hentry
  have hvalid := ((messageValid_entries h).2 (List.ne_nil_of_mem hentry)).2 i entry hi
  simp only [entryValid, Bool.and_eq_true, decide_eq_true_eq] at hvalid
  exact hvalid.1.1.2

theorem wireV3_fits (h : messageValid m = true) (hwords : MessageWords m) :
    wireV3Format.fits (wireV3FromMessage m) := by
  have hcount := (messageValid_entries h).1
  have hcampaign : (wireV3FromMessage m).campaignTerm < 256 ^ 8 := by
    simp only [wireV3FromMessage]
    split_ifs
    · exact m.contextId.toNat_lt
    · exact hwords.campaignTerm
  have hgranted : (wireV3FromMessage m).granted < 256 ^ 1 := flagByte_fits m.granted
  have htype : (wireV3FromMessage m).messageType < 256 ^ 1 := by
    simp only [wireV3FromMessage]
    cases m.type <;> decide
  have hentries : (wireV3FromMessage m).entryCount < 256 ^ 4 := by
    have : maxAppendEntries < 256 ^ 4 := by decide
    exact lt_of_le_of_lt hcount this
  refine ⟨htype, hgranted, (by decide : 0 < 256 ^ 2), hentries, Format.u64le_fits _,
    Format.u64le_fits _, hwords.term, hcampaign, hwords.lastLogIndex, hwords.lastLogTerm,
    hwords.leaderCommit, hwords.previousLogIndex, hwords.previousLogTerm, hwords.matchIndex,
    hwords.rejectHint, ⟨?_, ?_⟩, ?_, ?_⟩
  · simp [wireV3FromMessage]
    omega
  · intro slot hslot
    simp only [wireV3FromMessage, List.mem_append, List.mem_map, List.mem_replicate] at hslot
    rcases hslot with ⟨entry, hentry, rfl⟩ | ⟨_, rfl⟩
    · obtain ⟨hindex, hterm⟩ := hwords.entries entry hentry
      exact ⟨hindex, hterm, Format.u64le_fits _⟩
    · exact ⟨(by decide : 0 < 256 ^ 8), (by decide : 0 < 256 ^ 8), Format.u64le_fits _⟩
  · simp [wireV3FromMessage]
    omega
  · intro data hdata
    simp only [wireV3FromMessage, List.mem_append, List.mem_map, List.mem_replicate] at hdata
    have hsmall : maxEntryBytes < 256 ^ 4 := by decide
    rcases hdata with ⟨entry, hentry, rfl⟩ | ⟨_, rfl⟩
    · exact lt_of_le_of_lt (entry_data_bound h hentry) hsmall
    · exact (by decide : 0 < 256 ^ 4)

theorem padded_getD {α β : Type} (f : α → β) (items : List α) (n : ℕ) (d : β) (i : ℕ) :
    (items.map f ++ List.replicate n d).getD i d = ((items[i]?).map f).getD d := by
  rw [List.getD_eq_getElem?_getD]
  rcases Nat.lt_or_ge i items.length with hlt | hge
  · rw [List.getElem?_append_left (by simpa using hlt), List.getElem?_map]
  · rw [List.getElem?_append_right (by simpa using hge), List.getElem?_eq_none hge]
    simp only [List.getElem?_replicate, Option.map_none, Option.getD_none]
    split_ifs <;> rfl

theorem slots_getD (m : Message) (i : ℕ) :
    (wireV3FromMessage m).slots.getD i emptySlot = ((m.entries[i]?).map slotOf).getD emptySlot :=
  padded_getD slotOf m.entries _ emptySlot i

theorem data_getD (m : Message) (i : ℕ) :
    (wireV3FromMessage m).data.getD i [] = ((m.entries[i]?).map Entry.data).getD [] :=
  padded_getD Entry.data m.entries _ [] i

theorem slotValid_from (h : messageValid m = true) (i : ℕ) :
    slotValid (wireV3FromMessage m) i = true := by
  unfold slotValid
  rw [slots_getD, data_getD]
  cases hentry : m.entries[i]? with
  | none =>
    have hge : ¬ i < m.entries.length := by
      rw [List.getElem?_eq_none_iff] at hentry
      omega
    simp [wireV3FromMessage, hge, emptySlot]
  | some entry =>
    have hlt : i < m.entries.length := (List.getElem?_eq_some_iff.mp hentry).1
    have hne : m.entries ≠ [] := List.ne_nil_of_length_pos (by omega)
    have hvalid := ((messageValid_entries h).2 hne).2 i entry hentry
    simp only [entryValid, Bool.and_eq_true, decide_eq_true_eq, bne_iff_ne, ne_eq, beq_iff_eq,
      Bool.or_eq_true, Bool.not_eq_true'] at hvalid
    obtain ⟨⟨⟨⟨hindex, hterm⟩, hdata⟩, hplace⟩, hconf⟩ := hvalid
    have hdecoded : entry.commandId ≠ 0 ∨ (confDecode entry.data).isOk = true := by
      by_cases hzero : entry.commandId = 0
      · right
        simpa [confEntryIsConfiguration, hzero, confEntryDecode, hindex, hterm,
          Nat.not_lt.mpr hdata] using hconf
      · exact Or.inl hzero
    simpa [wireV3FromMessage, hlt, slotOf, hindex, hterm, hdata, hdecoded] using hplace

theorem wireV3FieldsValid_from (h : messageValid m = true) :
    wireV3FieldsValid (wireV3FromMessage m) m.type = true := by
  have hslots : (List.range maxAppendEntries).all (slotValid (wireV3FromMessage m)) = true :=
    List.all_eq_true.mpr fun i _ => slotValid_from h i
  have hgranted : (wireV3FromMessage m).granted ≤ 1 := flagByte_le m.granted
  have hentries := messageValid_entries h
  have happend : (m.entries.length == 0 || m.type == .appendRequest) = true := by
    by_cases hnil : m.entries = []
    · simp [hnil]
    · simp [(hentries.2 hnil).1]
  have hread : (!isReadMessage m.type || ((wireV3FromMessage m).campaignTerm != 0 &&
      (wireV3FromMessage m).term != 0 && (wireV3FromMessage m).entryCount == 0)) = true := by
    cases hread : isReadMessage m.type with
    | false => rfl
    | true =>
      simp only [messageValid, hread, if_true, Bool.and_eq_true, bne_iff_ne, ne_eq, beq_iff_eq] at h
      obtain ⟨_, ⟨hcontext, hterm⟩, hnone⟩ := h
      have hnumber : m.contextId.toNat ≠ 0 := by
        intro hzero
        exact hcontext (UInt64.toNat_inj.mp hzero)
      simp [wireV3FromMessage, hread, hterm, hnone, hnumber]
  simp only [messageValid, Bool.and_eq_true] at h
  simp only [wireV3FieldsValid, hslots, hread, Bool.and_true]
  simp only [wireV3FromMessage] at hgranted ⊢
  simp [h.1.1.1, h.1.1.2, hentries.1, happend, hgranted]

theorem wireV3ToMessage_from (hread : isReadMessage m.type = true → m.campaignTerm = 0)
    (hcontext : isReadMessage m.type = false → m.contextId = 0) :
    wireV3ToMessage (wireV3FromMessage m) m.type = m := by
  let back := wireV3ToMessage (wireV3FromMessage m) m.type
  have hentries : back.entries = m.entries := by
    apply List.ext_getElem?
    intro i
    simp only [back, wireV3ToMessage, slots_getD, data_getD, List.getElem?_map]
    cases hentry : m.entries[i]? with
    | none =>
      have hge : m.entries.length ≤ i := List.getElem?_eq_none_iff.mp hentry
      rw [List.getElem?_eq_none (by simpa [wireV3FromMessage] using hge), Option.map_none]
    | some entry =>
      have hlt : i < m.entries.length := (List.getElem?_eq_some_iff.mp hentry).1
      rw [List.getElem?_range (show i < (wireV3FromMessage m).entryCount from hlt), Option.map_some,
        hentry]
      rfl
  have hgranted : back.granted = m.granted := flagByte_ne_zero m.granted
  have hcampaign : back.campaignTerm = m.campaignTerm := by
    cases hm : isReadMessage m.type with
    | true => simp [back, wireV3ToMessage, hm, hread hm]
    | false => simp [back, wireV3ToMessage, wireV3FromMessage, hm]
  have hid : back.contextId = m.contextId := by
    cases hm : isReadMessage m.type with
    | true => simp [back, wireV3ToMessage, wireV3FromMessage, hm]
    | false => simp [back, wireV3ToMessage, hm, hcontext hm]
  calc back = { m with
          campaignTerm := back.campaignTerm
          entries := back.entries
          granted := back.granted
          contextId := back.contextId } := rfl
    _ = m := by rw [hcampaign, hentries, hgranted, hid]

theorem wireEncode_framed (h : wireEncode metadata m capacity = .ok frame) (hwords : MessageWords m)
    (hread : isReadMessage m.type = true → m.campaignTerm = 0) :
    (∃ payload, Framed .raft metadata payload frame) ∧ wireDecode frame = .ok (metadata, m) := by
  unfold wireEncode at h
  dsimp only at h
  split_ifs at h with hinvalid hshort hspace hlarge
  simp only [Except.ok.injEq] at h
  replace hinvalid := valid_of_checked hinvalid
  have hframed : Framed .raft metadata (wireV3Format.put (wireV3FromMessage m)) frame :=
    ⟨h.symm, hinvalid.1, Nat.not_lt.mp hlarge⟩
  refine ⟨⟨_, hframed⟩, ?_⟩
  have hcontext : isReadMessage m.type = false → m.contextId = 0 := by
    intro hplain
    have hvalid := hinvalid.2
    simp only [messageValid, hplain, Bool.false_eq_true, if_false, Bool.and_eq_true,
      beq_iff_eq] at hvalid
    exact hvalid.2.1
  have hpayload : wireDecodeV3 (wireV3Format.put (wireV3FromMessage m)) = .ok m := by
    have htype : messageTypeOf (wireV3FromMessage m).messageType = some m.type :=
      messageTypeOf_number m.type
    simp only [wireDecodeV3, wireV3Format.get_put_all (wireV3_fits hinvalid.2 hwords), htype,
      wireV3FieldsValid_from hinvalid.2, if_true, wireV3ToMessage_from hread hcontext]
  simp only [wireDecode, hframed.read, hpayload]

end RaftMessages

section Snapshots

variable {metadata : WireMetadata} {capacity : ℕ} {frame : List UInt8}

structure SnapshotChunkWords (c : SnapshotChunk) : Prop where
  term : c.term < 2 ^ 64
  snapshotIndex : c.snapshotIndex < 2 ^ 64
  snapshotTerm : c.snapshotTerm < 2 ^ 64
  snapshotOffset : c.snapshotOffset < 2 ^ 64
  snapshotSize : c.snapshotSize < 2 ^ 64

theorem encodedConfiguration_decoded {configuration : Option Conf} {bytes : List UInt8}
    (h : encodedConfiguration configuration = .ok bytes) :
    decodedConfiguration bytes = .ok configuration ∧ bytes.length ≤ confMaxEncodedSize := by
  cases configuration with
  | none =>
    cases h
    exact ⟨rfl, Nat.zero_le _⟩
  | some conf =>
    obtain ⟨hdecoded, hlength⟩ := confDecode_confEncode h
    have hvalid : confValidate conf = .ok := by
      unfold encodedConfiguration confEncode at h
      dsimp only at h
      split_ifs at h with hinvalid
      simpa using hinvalid
    have hmembers : conf.members.length ≤ maxMembers := (confValidate_members hvalid).2.1
    have hne : (bytes.length == 0) = false := by
      rw [hlength]
      simp
    have hmax : confMemberSize * conf.members.length ≤ confMemberSize * maxMembers :=
      Nat.mul_le_mul_left _ hmembers
    refine ⟨?_, ?_⟩
    · simp [decodedConfiguration, hne, hdecoded]
    · unfold confMaxEncodedSize
      omega

theorem snapshotChunk_put_eq (w : WireSnapshotChunk) :
    wireSnapshotChunkFormat.put w = wireSnapshotChunkPrefix w ++ w.data := by
  simp only [wireSnapshotChunkFormat, wireSnapshotChunkPrefix, Format.map, Format.seq, Format.varData,
    Format.le, Format.word, List.append_assoc]

theorem snapshotChunk_prefix_length (c : SnapshotChunk) (configuration : List UInt8) :
    (wireSnapshotChunkPrefix (wireFromSnapshotChunk c configuration)).length =
      snapshotChunkBlockLength + 12 + configuration.length + digestSize := by
  simp [wireSnapshotChunkPrefix, wireFromSnapshotChunk, c.snapshotDigest.size, digestSize,
    snapshotChunkBlockLength]
  omega

theorem wireEncodeSnapshotChunk_framed {c : SnapshotChunk}
    (h : wireEncodeSnapshotChunk metadata c capacity = .ok frame) (hwords : SnapshotChunkWords c) :
    (∃ payload, Framed .snapshotChunk metadata payload frame) ∧
      wireDecodeSnapshotChunk frame = .ok (metadata, c) := by
  unfold wireEncodeSnapshotChunk at h
  split_ifs at h with hinvalid hshort
  cases hconf : encodedConfiguration c.configuration with
  | error status => simp [hconf] at h
  | ok configuration =>
    obtain ⟨hdecoded, hsize⟩ := encodedConfiguration_decoded hconf
    simp only [hconf] at h
    split_ifs at h with hspace hlarge hroom
    simp only [Except.ok.injEq] at h
    replace hinvalid := valid_of_checked hinvalid
    have hchunk := hinvalid.2
    simp only [snapshotChunkValid, Bool.and_eq_true, decide_eq_true_eq] at hchunk
    have hdata : c.data.length ≤ maxSnapshotChunkBytes := hchunk.1.1.1.1.2
    have hoffset : c.snapshotOffset ≤ c.snapshotSize := hchunk.1.1.1.1.1.2
    have hlength : (wireSnapshotChunkFormat.put (wireFromSnapshotChunk c configuration)).length =
        snapshotChunkBlockLength + 12 + configuration.length + digestSize + c.data.length := by
      rw [snapshotChunk_put_eq, List.length_append, snapshotChunk_prefix_length]
      rfl
    rw [← hlength] at h
    have hframed : Framed .snapshotChunk metadata
        (wireSnapshotChunkFormat.put (wireFromSnapshotChunk c configuration)) frame :=
      ⟨h.symm, hinvalid.1, hlength ▸ Nat.not_lt.mp hlarge⟩
    have hfits : wireSnapshotChunkFormat.fits (wireFromSnapshotChunk c configuration) := by
      have hsmall : ∀ n, n ≤ maxSnapshotChunkBytes → n < 256 ^ 4 := fun n hn =>
        lt_of_le_of_lt hn (by decide)
      refine ⟨Format.u64le_fits _, Format.u64le_fits _, hwords.term, hwords.snapshotIndex,
        hwords.snapshotTerm, hwords.snapshotOffset, hwords.snapshotSize, flagByte_fits _,
        hsmall _ (hsize.trans (by decide)), hsmall _ ?_, hsmall _ hdata⟩
      exact (le_of_eq c.snapshotDigest.size).trans (by decide)
    have hbounds : ¬ (1 < flagByte c.done) ∧ ¬ confMaxEncodedSize < configuration.length ∧
        ¬ maxSnapshotChunkBytes < c.data.length ∧ ¬ c.snapshotSize < c.snapshotOffset :=
      ⟨Nat.not_lt.mpr (flagByte_le _), Nat.not_lt.mpr hsize, Nat.not_lt.mpr hdata,
        Nat.not_lt.mpr hoffset⟩
    refine ⟨⟨_, hframed⟩, ?_⟩
    simp only [wireDecodeSnapshotChunk, hframed.read, wireSnapshotChunkFormat.get_put_all hfits]
    simp [wireFromSnapshotChunk, c.snapshotDigest.size, hbounds, hdecoded, hinvalid.2]

theorem encodedConfiguration_of_valid {c : SnapshotChunk} (h : snapshotChunkValid c = true) :
    ∃ bytes, encodedConfiguration c.configuration = .ok bytes := by
  simp only [snapshotChunkValid, Bool.and_eq_true] at h
  have hconf := h.1.1.2
  cases hc : c.configuration with
  | none => exact ⟨[], rfl⟩
  | some conf =>
    have hvalid : confValidate conf = .ok := by
      split_ifs at hconf <;> simp_all
    have hmembers : conf.members.length ≤ maxMembers := (confValidate_members hvalid).2.1
    have hsize : ¬ confMaxEncodedSize < confHeaderSize + confMemberSize * conf.members.length := by
      unfold confMaxEncodedSize
      have := Nat.mul_le_mul_left confMemberSize hmembers
      omega
    simp [encodedConfiguration, confEncode, hvalid, hsize]

/-- With room for it the prefix is written and its length and that of the frame are reported, and
the contiguous frame is the prefix before the data. -/
def PrefixAgrees (encodePrefix : ℕ → Except Status (List UInt8) × ℕ × ℕ)
    (encode : ℕ → Except Status (List UInt8)) (data : List UInt8) : Prop :=
  ∃ bytes, (∀ capacity, bytes.length ≤ capacity →
      encodePrefix capacity = (.ok bytes, bytes.length, bytes.length + data.length)) ∧
    ∀ capacity, bytes.length + data.length ≤ capacity → encode capacity = .ok (bytes ++ data)

theorem snapshotChunk_prefixed {c : SnapshotChunk} (hmetadata : wireMetadataValid metadata = true)
    (hc : snapshotChunkValid c = true) :
    PrefixAgrees (wireEncodeSnapshotChunkPrefix metadata c) (wireEncodeSnapshotChunk metadata c)
      c.data := by
  obtain ⟨configuration, hconf⟩ := encodedConfiguration_of_valid hc
  have hsize := (encodedConfiguration_decoded hconf).2
  have hdata : c.data.length ≤ maxSnapshotChunkBytes := by
    simp only [snapshotChunkValid, Bool.and_eq_true, decide_eq_true_eq] at hc
    exact hc.1.1.1.1.2
  have hlength := snapshotChunk_prefix_length c configuration
  have hlimit : ¬ maxSnapshotPayloadSize <
      snapshotChunkBlockLength + 12 + configuration.length + digestSize + c.data.length := by
    have : snapshotChunkBlockLength + 12 + confMaxEncodedSize + digestSize + maxSnapshotChunkBytes ≤
        maxSnapshotPayloadSize := by decide
    omega
  refine ⟨wireWriteEnvelope .snapshotChunk (snapshotChunkBlockLength + 12 + configuration.length +
    digestSize + c.data.length) metadata ++
    wireSnapshotChunkPrefix (wireFromSnapshotChunk c configuration), ?_, ?_⟩
  all_goals
    intro capacity hcapacity
    rw [List.length_append, wireWriteEnvelope_length, hlength] at hcapacity
  · simp only [wireEncodeSnapshotChunkPrefix, hmetadata, hc, hconf, List.length_append,
      wireWriteEnvelope_length, hlength, hlimit]
    rw [if_neg (by simp), if_neg (by omega)]
    simp
  · simp only [wireEncodeSnapshotChunk, hmetadata, hc, hconf, hlimit]
    rw [if_neg (by simp), if_neg (by omega), if_neg (by omega), if_neg (by simp), if_neg (by omega),
      snapshotChunk_put_eq, List.append_assoc]
    rfl

structure SnapshotAckWords (a : SnapshotAck) : Prop where
  term : a.term < 2 ^ 64
  snapshotIndex : a.snapshotIndex < 2 ^ 64
  snapshotSize : a.snapshotSize < 2 ^ 64
  nextOffset : a.nextOffset < 2 ^ 64

theorem wireEncodeSnapshotAck_framed {a : SnapshotAck}
    (h : wireEncodeSnapshotAck metadata a capacity = .ok frame) (hwords : SnapshotAckWords a) :
    (∃ payload, Framed .snapshotAck metadata payload frame) ∧
      wireDecodeSnapshotAck frame = .ok (metadata, a) := by
  unfold wireEncodeSnapshotAck at h
  dsimp only at h
  split_ifs at h with hinvalid hspace
  simp only [Except.ok.injEq] at h
  replace hinvalid := valid_of_checked hinvalid
  have hlength : (wireSnapshotAckFormat.put (wireFromSnapshotAck a)).length =
      snapshotAckBlockLength + 4 + digestSize := by
    simp [wireSnapshotAckFormat, wireFromSnapshotAck, a.snapshotDigest.size, digestSize]
  rw [← hlength] at h
  have hframed : Framed .snapshotAck metadata (wireSnapshotAckFormat.put
    (wireFromSnapshotAck a)) frame :=
    ⟨h.symm, hinvalid.1, by rw [hlength]; decide⟩
  have hfits : wireSnapshotAckFormat.fits (wireFromSnapshotAck a) := by
    refine ⟨Format.u64le_fits _, Format.u64le_fits _, hwords.term, hwords.snapshotIndex,
      hwords.snapshotSize, hwords.nextOffset, flagByte_fits _, ?_⟩
    exact lt_of_le_of_lt (le_of_eq a.snapshotDigest.size) (by decide)
  have hflag := Nat.not_lt.mpr (flagByte_le a.accepted)
  refine ⟨⟨_, hframed⟩, ?_⟩
  simp only [wireDecodeSnapshotAck, hframed.read, wireSnapshotAckFormat.get_put_all hfits]
  simp [wireFromSnapshotAck, a.snapshotDigest.size, hflag, hinvalid.2]

end Snapshots

variable {metadata : WireMetadata} {capacity : ℕ} {frame : List UInt8}

structure DataChunkWords (c : DataChunk) : Prop where
  term : c.term < 2 ^ 64
  streamOffset : c.streamOffset < 2 ^ 64
  streamSize : c.streamSize < 2 ^ 64

theorem wireDataChunkFormat_canonical : wireDataChunkFormat.Canonical := by
  refine Format.map_canonical ?_ fun _ _ => rfl
  repeat' apply Format.seq_canonical
  all_goals simp

theorem wireDataAckFormat_canonical : wireDataAckFormat.Canonical := by
  refine Format.map_canonical ?_ fun _ _ => rfl
  repeat' apply Format.seq_canonical
  all_goals simp

theorem dataChunk_payload_length (c : DataChunk) :
    (wireDataChunkFormat.put (wireFromDataChunk c) ++ c.data).length =
      dataChunkFixedSize + c.data.length := by
  simp [wireDataChunkFormat, digestFormat, digestSize]

theorem wireEncodeDataChunk_framed {c : DataChunk}
    (h : wireEncodeDataChunk metadata c capacity = .ok frame) (hwords : DataChunkWords c) :
    (∃ payload, Framed .dataChunk metadata payload frame) ∧
      wireDecodeDataChunk frame = .ok (metadata, c) := by
  unfold wireEncodeDataChunk at h
  split_ifs at h with hinvalid hspace
  simp only [Except.ok.injEq] at h
  replace hinvalid := valid_of_checked hinvalid
  have hchunk := hinvalid.2
  simp only [dataChunkValid, Bool.and_eq_true, decide_eq_true_eq] at hchunk
  have hdata : c.data.length ≤ maxDataChunkBytes := hchunk.1.1.1.2
  have hlength := dataChunk_payload_length c
  rw [← hlength] at h
  have hlimit : dataChunkFixedSize + c.data.length ≤ wirePayloadLimit PayloadKind.dataChunk.number
    := by
    change dataChunkFixedSize + c.data.length ≤ maxDataPayloadSize
    unfold maxDataPayloadSize dataChunkFixedSize
    omega
  have hframed : Framed .dataChunk metadata
      (wireDataChunkFormat.put (wireFromDataChunk c) ++ c.data) frame :=
    ⟨h.symm, hinvalid.1, hlength ▸ hlimit⟩
  have hfits : wireDataChunkFormat.fits (wireFromDataChunk c) := by
    refine ⟨Format.u64be_fits _, Format.u64be_fits _, hwords.term, Format.u64be_fits _,
      hwords.streamOffset, hwords.streamSize, trivial, flagByte_fits _, ?_⟩
    exact lt_of_le_of_lt hdata (by decide)
  have hflag := Nat.not_lt.mpr (flagByte_le c.done)
  refine ⟨⟨_, hframed⟩, ?_⟩
  simp only [wireDecodeDataChunk, hframed.read, wireDataChunkFormat.get_put _ hfits]
  simp [wireFromDataChunk, hflag, hinvalid.2]

theorem wireDecodeDataChunk_reencoded {c : DataChunk}
    (h : wireDecodeDataChunk frame = .ok (metadata, c)) (hcapacity : frame.length ≤ capacity) :
    wireEncodeDataChunk metadata c capacity = .ok frame := by
  unfold wireDecodeDataChunk at h
  cases hread : wireReadEnvelope frame .dataChunk with
  | none => simp [hread] at h
  | some r =>
    cases hget : wireDataChunkFormat.get r.2 with
    | none => simp [hread, hget] at h
    | some p =>
      simp only [hread, hget] at h
      split_ifs at h with hwrong
      simp only [Bool.or_eq_true, bne_iff_ne, ne_eq, decide_eq_true_eq, Bool.not_eq_true', not_or,
        not_not, not_lt, Bool.not_eq_false] at hwrong
      obtain ⟨⟨hdata, hflag⟩, hvalid⟩ := hwrong
      have hframed := wireReadEnvelope_framed hread
      have hput := (wireDataChunkFormat_canonical hget).2
      simp only [Except.ok.injEq, Prod.mk.injEq] at h
      obtain ⟨rfl, hc⟩ := h
      have hfrom : wireFromDataChunk c = p.1 := by
        simp only [← hc, wireFromDataChunk, flagByte_of_le hflag, ← hdata]
      have hlast : p.2 = c.data := by rw [← hc]
      rw [← hfrom, hlast] at hput
      have hlength := dataChunk_payload_length c
      have hspace := hframed.length
      rw [hput, hlength] at hspace
      rw [hc] at hvalid
      simp only [wireEncodeDataChunk, hframed.metadata_valid, hvalid]
      rw [if_neg (by simp), if_neg (by omega), hframed.frame_eq, hput, hlength]

theorem dataChunk_prefixed {c : DataChunk} (hmetadata : wireMetadataValid metadata = true)
    (hc : dataChunkValid c = true) :
    PrefixAgrees (wireEncodeDataChunkPrefix metadata c) (wireEncodeDataChunk metadata c) c.data := by
  have hlength := dataChunk_payload_length c
  rw [List.length_append] at hlength
  refine ⟨wireWriteEnvelope .dataChunk (dataChunkFixedSize + c.data.length) metadata ++
    wireDataChunkFormat.put (wireFromDataChunk c), ?_, ?_⟩
  all_goals
    intro capacity hcapacity
    rw [List.length_append, wireWriteEnvelope_length] at hcapacity
  · simp only [wireEncodeDataChunkPrefix, hmetadata, hc, List.length_append,
      wireWriteEnvelope_length]
    rw [if_neg (by simp), if_neg (by omega)]
    simp only [Prod.mk.injEq, true_and]
    omega
  · simp only [wireEncodeDataChunk, hmetadata, hc]
    rw [if_neg (by simp), if_neg (by omega), List.append_assoc]

structure DataAckWords (a : DataAck) : Prop where
  term : a.term < 2 ^ 64
  streamSize : a.streamSize < 2 ^ 64
  nextOffset : a.nextOffset < 2 ^ 64

theorem dataAck_payload_length (a : DataAck) :
    (wireDataAckFormat.put (wireFromDataAck a)).length = dataAckFixedSize := by
  simp [wireDataAckFormat, digestFormat, digestSize]

theorem wireEncodeDataAck_framed {a : DataAck}
    (h : wireEncodeDataAck metadata a capacity = .ok frame) (hwords : DataAckWords a) :
    (∃ payload, Framed .dataAck metadata payload frame) ∧
      wireDecodeDataAck frame = .ok (metadata, a) := by
  unfold wireEncodeDataAck at h
  split_ifs at h with hinvalid hspace
  simp only [Except.ok.injEq] at h
  replace hinvalid := valid_of_checked hinvalid
  have hlength := dataAck_payload_length a
  rw [← hlength] at h
  have hframed : Framed .dataAck metadata (wireDataAckFormat.put (wireFromDataAck a)) frame :=
    ⟨h.symm, hinvalid.1, by rw [hlength]; decide⟩
  have hfits : wireDataAckFormat.fits (wireFromDataAck a) :=
    ⟨Format.u64be_fits _, Format.u64be_fits _, hwords.term, Format.u64be_fits _, hwords.streamSize,
      hwords.nextOffset, trivial, flagByte_fits _, flagByte_fits _⟩
  have haccepted := Nat.not_lt.mpr (flagByte_le a.accepted)
  have hdurable := Nat.not_lt.mpr (flagByte_le a.durable)
  refine ⟨⟨_, hframed⟩, ?_⟩
  simp only [wireDecodeDataAck, hframed.read, wireDataAckFormat.get_put_all hfits]
  simp [wireFromDataAck, haccepted, hdurable, hinvalid.2]

theorem wireDecodeDataAck_reencoded {a : DataAck}
    (h : wireDecodeDataAck frame = .ok (metadata, a)) (hcapacity : frame.length ≤ capacity) :
    wireEncodeDataAck metadata a capacity = .ok frame := by
  unfold wireDecodeDataAck at h
  cases hread : wireReadEnvelope frame .dataAck with
  | none => simp [hread] at h
  | some r =>
    simp only [hread] at h
    split at h
    case h_2 => cases h
    case h_1 w hget =>
      split_ifs at h with hwrong
      simp only [Bool.or_eq_true, decide_eq_true_eq, Bool.not_eq_true', not_or, not_lt,
        Bool.not_eq_false] at hwrong
      obtain ⟨⟨haccepted, hdurable⟩, hvalid⟩ := hwrong
      have hframed := wireReadEnvelope_framed hread
      have hput := (wireDataAckFormat_canonical hget).2
      simp only [Except.ok.injEq, Prod.mk.injEq] at h
      obtain ⟨rfl, ha⟩ := h
      have hfrom : wireFromDataAck a = w := by
        simp only [← ha, wireFromDataAck, flagByte_of_le haccepted, flagByte_of_le hdurable]
      rw [← hfrom, List.append_nil] at hput
      have hlength := dataAck_payload_length a
      have hspace := hframed.length
      rw [hput, hlength] at hspace
      rw [ha] at hvalid
      simp only [wireEncodeDataAck, hframed.metadata_valid, hvalid]
      rw [if_neg (by simp), if_neg (by omega), hframed.frame_eq, hput, hlength]

theorem chunk_frames_exact (metadata : WireMetadata) (capacity : ℕ) :
    (wireMetadataValid metadata = true →
      (∀ c, dataChunkValid c = true → DataChunkWords c →
        wireHeaderSize + dataChunkFixedSize + c.data.length ≤ capacity →
        ∃ frame, wireEncodeDataChunk metadata c capacity = .ok frame ∧
          wireDecodeDataChunk frame = .ok (metadata, c)) ∧
      (∀ a, dataAckValid a = true → DataAckWords a → wireHeaderSize + dataAckFixedSize ≤ capacity →
        ∃ frame, wireEncodeDataAck metadata a capacity = .ok frame ∧
          wireDecodeDataAck frame = .ok (metadata, a)) ∧
      (∀ c, dataChunkValid c = true → PrefixAgrees (wireEncodeDataChunkPrefix metadata c)
        (wireEncodeDataChunk metadata c) c.data) ∧
      ∀ c, snapshotChunkValid c = true → PrefixAgrees (wireEncodeSnapshotChunkPrefix metadata c)
        (wireEncodeSnapshotChunk metadata c) c.data) ∧
    ∀ frame, frame.length ≤ capacity →
      (∀ c, wireDecodeDataChunk frame = .ok (metadata, c) →
        wireEncodeDataChunk metadata c capacity = .ok frame) ∧
      ∀ a, wireDecodeDataAck frame = .ok (metadata, a) →
        wireEncodeDataAck metadata a capacity = .ok frame := by
  refine ⟨fun hmetadata => ⟨?_, ?_, fun _ => dataChunk_prefixed hmetadata,
    fun _ => snapshotChunk_prefixed hmetadata⟩, fun frame hroom =>
      ⟨fun _ h => wireDecodeDataChunk_reencoded h hroom,
        fun _ h => wireDecodeDataAck_reencoded h hroom⟩⟩
  · intro c hc hwords hroom
    have hencode : ∃ frame, wireEncodeDataChunk metadata c capacity = .ok frame := by
      simp [wireEncodeDataChunk, hmetadata, hc, Nat.not_lt.mpr hroom]
    obtain ⟨frame, hframe⟩ := hencode
    exact ⟨frame, hframe, (wireEncodeDataChunk_framed hframe hwords).2⟩
  · intro a ha hwords hroom
    have hencode : ∃ frame, wireEncodeDataAck metadata a capacity = .ok frame := by
      simp [wireEncodeDataAck, hmetadata, ha, Nat.not_lt.mpr hroom]
    obtain ⟨frame, hframe⟩ := hencode
    exact ⟨frame, hframe, (wireEncodeDataAck_framed hframe hwords).2⟩

theorem chunk_frames_exact_small :
    let metadata : WireMetadata := ⟨⟨List.replicate 16 0, rfl⟩, 1, 1⟩
    let c : DataChunk := ⟨1, 2, 1, 1, 0, 2, ⟨List.replicate 32 0, rfl⟩, [10, 20], true⟩
    ∃ frame, wireEncodeDataChunk metadata c 135 = .ok frame ∧
      wireDecodeDataChunk frame = .ok (metadata, c) :=
  ((chunk_frames_exact _ _).1 (by decide)).1 _ (by decide) ⟨by decide, by decide, by decide⟩
    (by decide)

end RaftWireLemmas
