import TurboRaft.RaftMembershipTransition
import Mathlib.Tactic.Ring
import Mathlib.Data.List.Chain

/-! # Configurations: codec round trip and validity

What is encoded decodes to itself, decoded configurations are valid, and the stable
configuration of ascending disjoint sets is valid. -/
namespace RaftConfigurationLemmas

open RaftTypes RaftConfiguration RaftMembership

variable {configuration : Conf} {ids : List NodeId}

def bytesValue (start : ℕ) (bytes : List UInt8) : ℕ :=
  bytes.foldl (fun value byte => value * 256 + byte.toNat) start

@[simp] theorem putBytes_length (count value : ℕ) (tail : List UInt8) :
    (putBytes count value tail).length = count + tail.length := by
  induction count generalizing value tail with
  | zero => simp [putBytes]
  | succ count ih =>
    simp only [putBytes, ih, List.length_cons]
    omega

theorem bytesValue_putBytes (count value start : ℕ) (tail : List UInt8) :
    bytesValue start (putBytes count value tail) =
      bytesValue (start * 256 ^ count + value % 256 ^ count) tail := by
  induction count generalizing value tail with
  | zero => simp [putBytes, Nat.mod_one]
  | succ count ih =>
    have hbyte : (UInt8.ofNat (value % 256)).toNat = value % 256 := by simp
    have hsplit : value % 256 ^ (count + 1) = value % 256 + 256 * (value / 256 % 256 ^ count) := by
      rw [Nat.pow_succ', Nat.mod_mul]
    simp only [putBytes, ih]
    simp only [bytesValue, List.foldl_cons, hbyte]
    congr 1
    rw [hsplit]
    ring

theorem confGetU64_confPutU64 (value : UInt64) : confGetU64 (confPutU64 value) = value := by
  have hvalue : bytesValue 0 (confPutU64 value) = value.toNat := by
    rw [confPutU64, bytesValue_putBytes]
    simp only [bytesValue, List.foldl_nil, Nat.zero_mul, Nat.zero_add]
    exact Nat.mod_eq_of_lt value.toNat_lt
  change UInt64.ofNat (bytesValue 0 (confPutU64 value)) = value
  rw [hvalue, UInt64.ofNat_toNat]

theorem bytesValue_lt (bytes : List UInt8) : bytesValue 0 bytes < 256 ^ bytes.length := by
  induction bytes using List.reverseRecOn with
  | nil => simp [bytesValue]
  | append_singleton bytes byte ih =>
    have hbyte := byte.toNat_lt
    simp only [bytesValue, List.foldl_append, List.foldl_cons, List.foldl_nil,
      List.length_append, List.length_singleton, Nat.pow_succ] at ih ⊢
    omega

theorem putBytes_bytesValue (bytes tail : List UInt8) :
    putBytes bytes.length (bytesValue 0 bytes) tail = bytes ++ tail := by
  induction bytes using List.reverseRecOn generalizing tail with
  | nil => rfl
  | append_singleton bytes byte ih =>
    have hbyte := byte.toNat_lt
    have hvalue : bytesValue 0 (bytes ++ [byte]) = bytesValue 0 bytes * 256 + byte.toNat := by
      simp [bytesValue]
    have hquotient : (bytesValue 0 bytes * 256 + byte.toNat) / 256 = bytesValue 0 bytes := by omega
    rw [List.length_append, List.length_singleton, putBytes, hvalue, hquotient, ih]
    simp

theorem confPutU64_confGetU64 {bytes : List UInt8} (h : bytes.length = 8) :
    confPutU64 (confGetU64 bytes) = bytes := by
  have hsmall : bytesValue 0 bytes < 2 ^ 64 := by
    have := bytesValue_lt bytes
    rw [h] at this
    exact this
  have hvalue : (confGetU64 bytes).toNat = bytesValue 0 bytes := by
    exact Nat.mod_eq_of_lt hsmall
  rw [confPutU64, hvalue, ← h, putBytes_bytesValue, List.append_nil]

@[simp] theorem confPutU64_length (value : UInt64) : (confPutU64 value).length = 8 := by
  simp [confPutU64]

section Codec

variable {bytes : List UInt8} {capacity : ℕ} {entry : Entry}

@[simp] theorem confEncodeMember_length (member : ConfMember) :
    (confEncodeMember member).length = confMemberSize := by
  simp [confEncodeMember]

theorem flatMap_confEncodeMember_length (members : List ConfMember) :
    (members.flatMap confEncodeMember).length = confMemberSize * members.length := by
  induction members with
  | nil => rfl
  | cons member rest ih =>
    simp only [List.flatMap_cons, List.length_append, ih, confEncodeMember_length, List.length_cons]
    ring

theorem confDecodeMembers_encode (members : List ConfMember) :
    confDecodeMembers members.length (members.flatMap confEncodeMember) = members := by
  induction members with
  | nil => rfl
  | cons member rest ih =>
    have hget : (confEncodeMember member ++ rest.flatMap confEncodeMember).getD 8 0 =
        member.roles := by
      simp [confEncodeMember]
    have htake : (confEncodeMember member ++ rest.flatMap confEncodeMember).take 8 =
        confPutU64 member.nodeId := by
      simp [confEncodeMember]
    have hdrop : (confEncodeMember member ++ rest.flatMap confEncodeMember).drop confMemberSize =
        rest.flatMap confEncodeMember :=
      List.drop_left' (confEncodeMember_length member)
    simp only [List.length_cons, List.flatMap_cons, confDecodeMembers, hget, htake, hdrop, ih,
      confGetU64_confPutU64]

theorem confValidate_members (h : confValidate configuration = .ok) :
    configuration.members.length ≠ 0 ∧ configuration.members.length ≤ maxMembers ∧
      idsAscending (memberIds configuration) = true ∧
      (∀ m ∈ configuration.members, confRolesValid configuration.phase m.roles = true) ∧
      (membersWith configuration confOldVoter).length ≠ 0 ∧
      (membersWith configuration confNewVoter).length ≠ 0 := by
  unfold confValidate at h
  split_ifs at h with hshape hmembers hvoters
  simp only [Bool.or_eq_true, not_or, beq_iff_eq, decide_eq_true_eq, Bool.not_eq_true',
    Bool.not_eq_false, List.all_eq_true, Bool.and_eq_true, bne_iff_ne, not_lt] at hshape hmembers hvoters
  exact ⟨hshape.1.2, hshape.2, by simpa using hmembers.1, by simpa using hmembers.2, hvoters⟩

theorem confDecode_confEncode (h : confEncode configuration capacity = .ok bytes) :
    confDecode bytes = .ok configuration ∧
      bytes.length = confHeaderSize + confMemberSize * configuration.members.length := by
  unfold confEncode at h
  split_ifs at h with hvalid hcap
  simp only [bne_iff_ne, ne_eq, not_not] at hvalid
  have hmembers := confValidate_members hvalid
  cases h
  have hcount : (UInt8.ofNat configuration.members.length).toNat = configuration.members.length := by
    have hsmall : configuration.members.length ≤ 31 := hmembers.2.1
    exact Nat.mod_eq_of_lt (by omega)
  have hphase : confDecodePhase (confPhaseByte configuration.phase) = some configuration.phase := by
    cases configuration.phase <;> rfl
  have hlength := flatMap_confEncodeMember_length configuration.members
  have hread := confDecodeMembers_encode configuration.members
  generalize configuration.members.flatMap confEncodeMember = members at hlength hread ⊢
  have hle : ¬ maxMembers < configuration.members.length := hmembers.2.1.not_gt
  unfold confDecode
  simp [confMagic, confHeaderSize, hcount, hphase, hread,
    confGetU64_confPutU64, hmembers.1, hle, hvalid]
  refine ⟨?_, by omega⟩
  rw [if_neg (by omega), if_pos (by omega)]

theorem confDecode_valid (h : confDecode bytes = .ok configuration)
    : confValidate configuration = .ok := by
  unfold confDecode at h
  split_ifs at h with hhead
  simp only at h
  split_ifs at h with hcount hlen
  cases hphase : confDecodePhase (bytes.getD 5 0) with simp only [hphase] at h
  | none =>
    cases h
  | some phase =>
    split_ifs at h with hvalid
    simp only [bne_iff_ne, ne_eq, not_not] at hvalid
    cases h
    exact hvalid

theorem encode_confDecodeMembers {count : ℕ}
    (h : bytes.length = confMemberSize * count) :
    (confDecodeMembers count bytes).length = count ∧
      (confDecodeMembers count bytes).flatMap confEncodeMember = bytes := by
  induction count generalizing bytes with
  | zero => exact ⟨rfl, (List.length_eq_zero_iff.mp h).symm⟩
  | succ count ih =>
    have hlength : bytes.length = 9 * count + 9 := h
    have hroles : [bytes.getD 8 0] = (bytes.drop 8).take 1 := by
      rw [List.drop_eq_getElem_cons (by omega), List.getD_eq_getElem?_getD,
        List.getElem?_eq_getElem (by omega)]
      rfl
    have hmember : confEncodeMember ⟨confGetU64 (bytes.take 8), bytes.getD 8 0⟩ =
        bytes.take confMemberSize := by
      rw [confEncodeMember, confPutU64_confGetU64 (List.length_take_of_le (by omega)), hroles,
        ← List.take_add]
    have hdropped : (bytes.drop confMemberSize).length = confMemberSize * count := by
      rw [List.length_drop, hlength, Nat.add_sub_cancel]
    have hrest := ih hdropped
    refine ⟨congrArg (· + 1) hrest.1, ?_⟩
    rw [confDecodeMembers, List.flatMap_cons, hrest.2, hmember, List.take_append_drop]

theorem confPhaseByte_decoded {byte : UInt8} {phase : ConfPhase}
    (h : confDecodePhase byte = some phase) : confPhaseByte phase = byte := by
  unfold confDecodePhase at h
  split_ifs at h with hjoint hfinal
  · cases h
    exact (beq_iff_eq.mp hjoint).symm
  · cases h
    exact (beq_iff_eq.mp hfinal).symm

theorem take_header (h : 8 ≤ bytes.length) :
    bytes.take 8 = bytes.take 4 ++
      [bytes.getD 4 0, bytes.getD 5 0, bytes.getD 6 0, bytes.getD 7 0] := by
  match bytes, h with
  | _ :: _ :: _ :: _ :: _ :: _ :: _ :: _ :: _, _ => rfl

theorem confEncode_confDecode (h : confDecode bytes = .ok configuration) (hroom : bytes.length ≤ capacity) :
    confEncode configuration capacity = .ok bytes := by
  have hvalid := confDecode_valid h
  unfold confDecode at h
  split_ifs at h with hhead
  simp only [Bool.or_eq_true, decide_eq_true_eq, bne_iff_ne, not_or, not_lt, not_not] at hhead
  obtain ⟨⟨⟨hlong, hmagic⟩, hversion⟩, hzero⟩ := hhead
  replace hlong : 16 ≤ bytes.length := hlong
  have hheader : confMagic ++ [confCodecVersion, bytes.getD 5 0, bytes.getD 6 0, 0] =
      bytes.take 8 := by
    rw [take_header (by omega), hmagic, hversion, hzero]
  simp only at h
  split_ifs at h with hcount hlength
  simp only [bne_iff_ne, ne_eq, not_not] at hlength
  have hrest : (bytes.drop confHeaderSize).length = confMemberSize * (bytes.getD 6 0).toNat := by
    rw [List.length_drop, hlength, Nat.add_sub_cancel_left]
  have hword : ((bytes.drop 8).take 8).length = 8 :=
    List.length_take_of_le (by rw [List.length_drop]; omega)
  obtain ⟨hmembers, hencoded⟩ := encode_confDecodeMembers hrest
  cases hphase : confDecodePhase (bytes.getD 5 0) with simp only [hphase] at h
  | none =>
    cases h
  | some phase =>
    split_ifs at h
    cases h
    unfold confEncode
    rw [hvalid, bne_self_eq_false, if_neg Bool.false_ne_true]
    rw [hmembers, if_neg (not_lt.mpr (hlength ▸ hroom)), hencoded, confPutU64_confGetU64 hword,
      UInt8.ofNat_toNat, confPhaseByte_decoded hphase, hheader, ← List.take_add,
      List.take_append_drop]

/-- The codec is a bijection between the valid configurations and the byte strings it accepts. -/
theorem conf_codec_bijective :
    (∀ (configuration : Conf) (capacity : ℕ), confValidate configuration = .ok →
      confHeaderSize + confMemberSize * configuration.members.length ≤ capacity →
      ∃ bytes, confEncode configuration capacity = .ok bytes ∧
        confDecode bytes = .ok configuration) ∧
      ∀ (bytes : List UInt8) (configuration : Conf) (capacity : ℕ),
        confDecode bytes = .ok configuration → bytes.length ≤ capacity →
        confEncode configuration capacity = .ok bytes := by
  refine ⟨fun configuration capacity hvalid hroom => ?_, fun _ _ _ => confEncode_confDecode⟩
  have hencoded : ∃ bytes, confEncode configuration capacity = .ok bytes := by
    unfold confEncode
    rw [if_neg (by simp [hvalid]), if_neg (not_lt.mpr hroom)]
    exact ⟨_, rfl⟩
  obtain ⟨bytes, hbytes⟩ := hencoded
  exact ⟨bytes, hbytes, (confDecode_confEncode hbytes).1⟩

/-- Voters 1 and 2 are being replaced by 4 and 5, and voter 3 stays. -/
def jointOfFive : Conf :=
  { phase := .joint, transitionId := 7, members := [⟨1, 1⟩, ⟨2, 1⟩, ⟨3, 3⟩, ⟨4, 2⟩, ⟨5, 2⟩] }

theorem conf_codec_joint :
    (∃ bytes, confEncode jointOfFive maxEntryBytes = .ok bytes ∧
        confDecode bytes = .ok jointOfFive) ∧
      confEncode jointOfFive maxEntryBytes =
        .ok [0x54, 0x52, 0x43, 0x46, 1, 1, 5, 0, 0, 0, 0, 0, 0, 0, 0, 7, 0, 0, 0, 0, 0, 0, 0, 1, 1,
          0, 0, 0, 0, 0, 0, 0, 2, 1, 0, 0, 0, 0, 0, 0, 0, 3, 3, 0, 0, 0, 0, 0, 0, 0, 4, 2,
          0, 0, 0, 0, 0, 0, 0, 5, 2] :=
  ⟨conf_codec_bijective.1 _ _ (by decide) (by decide),
    conf_codec_bijective.2 _ _ _ (by decide) (by decide)⟩

theorem confEntryDecode_valid (h : confEntryDecode entry = .ok configuration)
    : confValidate configuration = .ok := by
  unfold confEntryDecode at h
  split_ifs at h
  exact confDecode_valid h

theorem confEntryDecode_encode {index term : ℕ}
    (h : confEntryEncode configuration index term = .ok entry) :
    confEntryDecode entry = .ok configuration ∧ entry.index = index ∧ entry.term = term ∧
      entry.commandId = 0 ∧ entry.data.length ≤ maxEntryBytes ∧ index ≠ 0 ∧ term ≠ 0 := by
  unfold confEntryEncode at h
  split_ifs at h with hzero
  simp only [Bool.or_eq_true, beq_iff_eq, not_or] at hzero
  cases hbytes : confEncode configuration maxEntryBytes with
  | error status => simp [hbytes] at h
  | ok bytes =>
    simp only [hbytes] at h
    cases h
    obtain ⟨hdecode, hlen⟩ := confDecode_confEncode hbytes
    have hvalid := confValidate_members (confDecode_valid hdecode)
    have hsize : bytes.length ≤ maxEntryBytes := by
      have hsmall : configuration.members.length ≤ 31 := hvalid.2.1
      have hsum : bytes.length = 16 + 9 * configuration.members.length := hlen
      have : maxEntryBytes = 512 := rfl
      omega
    refine ⟨?_, rfl, rfl, rfl, hsize, hzero.1, hzero.2⟩
    unfold confEntryDecode
    simp [confEntryIsConfiguration, hzero.1, hzero.2, hsize.not_gt, hdecode]

end Codec

section Ascending

variable {nodeId : NodeId}

theorem idsAscending_iff :
    idsAscending ids = true ↔ (∀ id ∈ ids, id ≠ 0) ∧ ids.Pairwise (· < ·) := by
  simp [idsAscending, List.isChain_iff_pairwise]

/-- The early stop of the search never misses an identifier of an ascending list. -/
theorem ascendingFind_complete (h : ids.Pairwise (· < ·)) {k : ℕ}
    (hk : ids[k]? = some nodeId) (start : ℕ) :
    ascendingFind nodeId ids start = some (start + k) := by
  induction ids generalizing k start with
  | nil => simp at hk
  | cons id rest ih =>
    rw [List.pairwise_cons] at h
    cases k with
    | zero =>
      simp only [List.getElem?_cons_zero, Option.some.injEq] at hk
      simp [ascendingFind, hk]
    | succ k =>
      have hlt : id < nodeId := h.1 nodeId (List.mem_of_getElem? hk)
      have hne : (id == nodeId) = false := by
        rw [beq_eq_false_iff_ne]
        exact fun heq => UInt64.lt_irrefl _ (heq ▸ hlt)
      have hnot : ¬ nodeId < id := fun hgt => UInt64.lt_irrefl _ (UInt64.lt_trans hlt hgt)
      simp only [ascendingFind, hne, hnot, if_false, Bool.false_eq_true]
      rw [ih h.2 hk]
      congr 1
      omega

theorem ascendingIndex_complete (h : idsAscending ids = true) {k : ℕ}
    (hk : ids[k]? = some nodeId) : ascendingIndex ids nodeId = some k := by
  obtain ⟨hpos, hlt⟩ := idsAscending_iff.mp h
  have hne : (nodeId == 0) = false := by
    rw [beq_eq_false_iff_ne]
    exact hpos nodeId (List.mem_of_getElem? hk)
  simp only [ascendingIndex, hne, Bool.false_eq_true, if_false]
  rw [ascendingFind_complete hlt hk]
  simp

theorem membershipRoles_of_mem (h : idsAscending (memberIds configuration) = true)
    {member : ConfMember} (hm : member ∈ configuration.members) :
    membershipRoles configuration member.nodeId = member.roles := by
  obtain ⟨k, hk⟩ := List.mem_iff_getElem?.mp hm
  have hid : (memberIds configuration)[k]? = some member.nodeId := by simp [memberIds, hk]
  simp [membershipRoles, membershipIndex, ascendingIndex_complete h hid, hk]

end Ascending

variable {members : List ConfMember}

structure Merged (voters learners : List NodeId) (members : List ConfMember) : Prop where
  ascending : (members.map ConfMember.nodeId).Pairwise (· < ·)
  roles : ∀ m ∈ members, (m.roles = confVoterRoles ∧ m.nodeId ∈ voters) ∨
    (m.roles = confLearner ∧ m.nodeId ∈ learners)
  voting : (members.filter (fun m => m.roles == confVoterRoles)).map ConfMember.nodeId = voters
  size : members.length = voters.length + learners.length

theorem Merged.all {P : NodeId → Prop} {vs ls : List NodeId}
    (h : Merged vs ls members) (hvs : ∀ x ∈ vs, P x) (hls : ∀ x ∈ ls, P x) :
    ∀ id ∈ members.map ConfMember.nodeId, P id := by
  intro id hid
  obtain ⟨m, hm, rfl⟩ := List.mem_map.mp hid
  rcases h.roles m hm with ⟨_, hin⟩ | ⟨_, hin⟩
  · exact hvs _ hin
  · exact hls _ hin

theorem merged_cons_voter {v : NodeId} {vs ls : List NodeId}
    (hvs : ∀ x ∈ vs, v < x) (hls : ∀ x ∈ ls, v < x) (h : Merged vs ls members) :
    Merged (v :: vs) ls (⟨v, confVoterRoles⟩ :: members) where
  ascending := List.pairwise_cons.mpr ⟨h.all hvs hls, h.ascending⟩
  roles := by
    intro m hm
    rcases List.mem_cons.mp hm with rfl | hm
    · exact Or.inl ⟨rfl, List.mem_cons_self⟩
    · exact (h.roles m hm).imp (fun hv => ⟨hv.1, List.mem_cons_of_mem _ hv.2⟩) id
  voting := by simp [h.voting]
  size := by simp only [List.length_cons, h.size]; omega

theorem merged_cons_learner {l : NodeId} {vs ls : List NodeId}
    (hvs : ∀ x ∈ vs, l < x) (hls : ∀ x ∈ ls, l < x) (h : Merged vs ls members) :
    Merged vs (l :: ls) (⟨l, confLearner⟩ :: members) where
  ascending := List.pairwise_cons.mpr ⟨h.all hvs hls, h.ascending⟩
  roles := by
    intro m hm
    rcases List.mem_cons.mp hm with rfl | hm
    · exact Or.inr ⟨rfl, List.mem_cons_self⟩
    · exact (h.roles m hm).imp id fun hv => ⟨hv.1, List.mem_cons_of_mem _ hv.2⟩
  voting := by
    exact h.voting
  size := by simp only [List.length_cons, h.size]; omega

theorem membershipStableLoop_merged (fuel : ℕ) (voters learners : List NodeId)
    (hfuel : voters.length + learners.length ≤ fuel)
    (hdisjoint : setsDisjoint fuel voters learners = true)
    (hv : voters.Pairwise (· < ·)) (hl : learners.Pairwise (· < ·)) :
    Merged voters learners (membershipStableLoop fuel voters learners) := by
  induction fuel generalizing voters learners with
  | zero =>
    have hvoters : voters = [] := List.length_eq_zero_iff.mp (by omega)
    have hlearners : learners = [] := List.length_eq_zero_iff.mp (by omega)
    subst hvoters hlearners
    exact ⟨List.Pairwise.nil, by simp [membershipStableLoop], rfl, rfl⟩
  | succ fuel ih =>
    match voters, learners with
    | [], [] => exact ⟨List.Pairwise.nil, by simp [membershipStableLoop], rfl, rfl⟩
    | v :: vs, [] =>
      rw [List.pairwise_cons] at hv
      simp only [List.length_cons, List.length_nil] at hfuel
      refine merged_cons_voter hv.1 (by simp) (ih vs [] (by simp; omega) ?_ hv.2 hl)
      cases fuel <;> cases vs <;> rfl
    | [], l :: ls =>
      rw [List.pairwise_cons] at hl
      simp only [List.length_cons, List.length_nil] at hfuel
      refine merged_cons_learner (by simp) hl.1 (ih [] ls (by simp; omega) ?_ hv hl.2)
      cases fuel <;> cases ls <;> rfl
    | v :: vs, l :: ls =>
      have hvs := List.pairwise_cons.mp hv
      have hls := List.pairwise_cons.mp hl
      simp only [List.length_cons] at hfuel
      simp only [setsDisjoint] at hdisjoint
      simp only [membershipStableLoop]
      split_ifs at hdisjoint ⊢ with hlt heq heq
      · refine merged_cons_voter hvs.1 ?_ (ih vs (l :: ls) (by simp; omega) hdisjoint hvs.2 hl)
        intro x hx
        rcases List.mem_cons.mp hx with rfl | hx
        · exact hlt
        · exact UInt64.lt_trans hlt (hls.1 x hx)
      · have hgt : l < v := by
          refine UInt64.lt_of_le_of_ne (UInt64.not_lt.mp hlt) ?_
          rintro rfl
          simp at heq
        refine merged_cons_learner ?_ hls.1 (ih (v :: vs) ls (by simp; omega) hdisjoint hv hls.2)
        intro x hx
        rcases List.mem_cons.mp hx with rfl | hx
        · exact hgt
        · exact UInt64.lt_trans hgt (hvs.1 x hx)

theorem membershipStable_valid {voters learners : List NodeId}
    (h : membershipStable voters learners = .ok configuration) :
    confValidate configuration = .ok ∧ configuration.phase = .final := by
  unfold membershipStable at h
  split_ifs at h with hset
  simp only [bne_iff_ne, ne_eq, not_not] at hset
  cases h
  unfold membershipValidateSet at hset
  split_ifs at hset with hsize hascending hdisjoint
  simp only [Bool.or_eq_true, beq_iff_eq, decide_eq_true_eq, not_or, not_lt,
    Bool.not_eq_true'] at hsize hascending hdisjoint
  obtain ⟨⟨hpos, hle⟩, hroom⟩ := hsize
  obtain ⟨hvoters, hlearners⟩ := hascending
  obtain ⟨hvpos, hvlt⟩ := idsAscending_iff.mp (Bool.not_eq_false _ ▸ hvoters)
  obtain ⟨hlpos, hllt⟩ := idsAscending_iff.mp (Bool.not_eq_false _ ▸ hlearners)
  have hmerged := membershipStableLoop_merged _ voters learners le_rfl
    (Bool.not_eq_false _ ▸ hdisjoint) hvlt hllt
  refine ⟨?_, rfl⟩
  have hids : idsAscending ((membershipStableLoop (voters.length + learners.length) voters
      learners).map ConfMember.nodeId) = true :=
    idsAscending_iff.mpr ⟨hmerged.all hvpos hlpos, hmerged.ascending⟩
  have hroles : ∀ m ∈ membershipStableLoop (voters.length + learners.length) voters learners,
      confRolesValid .final m.roles = true := by
    intro m hm
    rcases hmerged.roles m hm with ⟨hrole, _⟩ | ⟨hrole, _⟩ <;> rw [hrole] <;> rfl
  obtain ⟨v, hv⟩ := List.exists_mem_of_length_pos (Nat.pos_of_ne_zero hpos)
  rw [← hmerged.voting] at hv
  obtain ⟨m, hm, _⟩ := List.mem_map.mp hv
  obtain ⟨hm, hrole⟩ := List.mem_filter.mp hm
  rw [beq_iff_eq] at hrole
  have hsize := hmerged.size
  have hvoter : ∀ flag, hasRole confVoterRoles flag = true → (membersWith
      { phase := .final, transitionId := 0, members := membershipStableLoop
          (voters.length + learners.length) voters learners } flag).length ≠ 0 := by
    intro flag hflag hzero
    rw [membersWith, List.length_map, List.length_eq_zero_iff] at hzero
    exact List.ne_nil_of_mem (List.mem_filter.mpr ⟨hm, by rw [hrole]; exact hflag⟩) hzero
  have hnonzero : membershipStableLoop (voters.length + learners.length) voters learners ≠ [] :=
    List.ne_nil_of_mem hm
  have hfits : ¬ maxMembers <
      (membershipStableLoop (voters.length + learners.length) voters learners).length := by omega
  simpa [confValidate, memberIds, hids, hnonzero, hfits, hvoter confOldVoter rfl,
    hvoter confNewVoter rfl] using hroles

end RaftConfigurationLemmas
