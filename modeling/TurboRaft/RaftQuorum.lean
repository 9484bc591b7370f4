import TurboRaft.Majorities
import TurboRaft.ConfiguredLog
import TurboRaft.RaftTransitionLemmas

/-! # Quorums of configurations

A set of nodes is a quorum of a configuration when it holds a majority of the old voters
and a majority of the new voters. The bitmask tests of a core imply this for the set of
peers whose bits are set. Quorums of a configuration and of its successor meet. -/
namespace RaftQuorum

open RaftTypes RaftConfiguration RaftMembership RaftMembershipTransition RaftCoreState
open RaftConfigurationLemmas RaftTransitionLemmas Majorities ConfiguredLog

variable {configuration : Conf} {acks : ℕ} {s : Set NodeId} {joint : Conf} {flag : UInt8}
  {id : NodeId}

def ConfQuorum (configuration : Conf) (s : Set NodeId) : Prop :=
  IsMajority (membersWith configuration confOldVoter) s ∧
    IsMajority (membersWith configuration confNewVoter) s

/-- Entries with their terms and the configuration they carry. -/
def raftScheme (initial : Conf) : Scheme NodeId Entry Conf where
  termOf := Entry.term
  confOf entry := (confEntryDecode entry).toOption
  initial := initial
  quorum := ConfQuorum

section Masks

variable {nodeId : NodeId} {ids : List NodeId}

theorem testBit_one_shiftLeft (k i : ℕ) : (1 <<< k).testBit i = decide (k = i) := by
  rw [Nat.one_shiftLeft, Nat.testBit_two_pow]

theorem maskOf_succ (count : ℕ) (p : ℕ → Bool) :
    maskOf (count + 1) p = if p count then maskOf count p ||| (1 <<< count) else maskOf count p := by
  simp [maskOf, List.range_succ]

@[simp] theorem testBit_maskOf (count : ℕ) (p : ℕ → Bool) (i : ℕ) :
    (maskOf count p).testBit i = (decide (i < count) && p i) := by
  induction count with
  | zero => simp [maskOf]
  | succ count ih =>
    have hbit : (maskOf (count + 1) p).testBit i =
        ((maskOf count p).testBit i || (p count && decide (count = i))) := by
      rw [maskOf_succ]
      split_ifs with hp
      · rw [Nat.testBit_or, testBit_one_shiftLeft, hp, Bool.true_and]
      · simp [hp]
    rw [hbit, ih]
    rcases Nat.lt_trichotomy i count with hlt | rfl | hgt
    · simp [hlt, Nat.lt_succ_of_lt hlt, hlt.ne']
    · simp
    · simp [hgt.ne, show ¬ i < count from hgt.le.not_gt, show ¬ i < count + 1 by omega]

theorem ascendingFind_sound {start k : ℕ}
    (h : ascendingFind nodeId ids start = some k) : start ≤ k ∧ ids[k - start]? = some nodeId := by
  induction ids generalizing start with
  | nil => simp [ascendingFind] at h
  | cons id rest ih =>
    simp only [ascendingFind] at h
    split_ifs at h with heq hlt
    · cases h
      simpa using heq
    · obtain ⟨hle, hget⟩ := ih h
      refine ⟨by omega, ?_⟩
      have : k - start = (k - (start + 1)) + 1 := by omega
      rw [this, List.getElem?_cons_succ]
      exact hget

theorem ascendingIndex_sound {k : ℕ}
    (h : ascendingIndex ids nodeId = some k) : nodeId ≠ 0 ∧ ids[k]? = some nodeId := by
  unfold ascendingIndex at h
  split_ifs at h with hzero
  refine ⟨by simpa using hzero, ?_⟩
  simpa using (ascendingFind_sound h).2

end Masks

section Tests

variable {core : Core}

theorem roleCount_eq (configuration : Conf) (flag : UInt8) :
    roleCount configuration flag = (membersWith configuration flag).length := by
  simp [roleCount, membersWith, List.countP_eq_length_filter]

/-- The acknowledged members of a role are hits of any set that has their identifiers. -/
theorem roleAcks_le_hits
    (h : ∀ i id, (memberIds configuration)[i]? = some id → acks.testBit i = true → id ∈ s) :
    roleAcks configuration flag acks ≤ hits (membersWith configuration flag) s := by
  classical
  have hcount : hits (membersWith configuration flag) s =
      configuration.members.zipIdx.countP
        (fun m => decide (m.1.nodeId ∈ s) && hasRole m.1.roles flag) := by
    have hfst : configuration.members.zipIdx.map Prod.fst = configuration.members := by simp
    conv_lhs => rw [hits, membersWith, List.countP_map, List.countP_filter, ← hfst, List.countP_map]
    rfl
  rw [hcount]
  refine List.countP_mono_left ?_
  rintro ⟨m, i⟩ hm hrole
  rw [Bool.and_eq_true] at hrole ⊢
  have hget := List.mem_zipIdx_iff_getElem?.mp hm
  refine ⟨decide_eq_true (h i m.nodeId ?_ hrole.2), hrole.1⟩
  simp [memberIds, hget]

theorem membershipHasQuorum_sound (hq : membershipHasQuorum configuration acks = true)
    (h : ∀ i id, (memberIds configuration)[i]? = some id → acks.testBit i = true → id ∈ s) :
    ConfQuorum configuration s := by
  unfold membershipHasQuorum at hq
  split_ifs at hq
  simp only [Bool.and_eq_true, decide_eq_true_eq] at hq
  obtain ⟨⟨_, hold⟩, hnew⟩ := hq
  rw [roleCount_eq] at hold hnew
  exact ⟨hold.trans (roleAcks_le_hits h), hnew.trans (roleAcks_le_hits h)⟩

theorem coreHasQuorum_sound (hq : coreHasQuorum core acks = true)
    (h : ∀ k v, core.peers[k]? = some v → acks.testBit k = true → v ∈ s) :
    ConfQuorum (coreMembership core) s := by
  refine membershipHasQuorum_sound hq ?_
  intro i id hid hbit
  simp only [testBit_maskOf, Bool.and_eq_true, memberAcknowledged, memberIdAt, hid,
    Option.getD_some] at hbit
  cases hpeer : peerIndex core id with
  | none => simp [hpeer] at hbit
  | some k =>
    simp only [hpeer] at hbit
    exact h k id (ascendingIndex_sound hpeer).2 hbit.2

theorem coreMatchQuorum_sound {candidate : ℕ}
    (hq : coreMatchQuorum core candidate = true)
    (h : ∀ k v, core.peers[k]? = some v → candidate ≤ core.matchIndex k → v ∈ s) :
    0 < candidate ∧ ConfQuorum (coreMembership core) s := by
  unfold coreMatchQuorum membershipMatchQuorum at hq
  split_ifs at hq with hzero
  simp only [Bool.or_eq_true, beq_iff_eq, decide_eq_true_eq, not_or] at hzero
  refine ⟨Nat.pos_of_ne_zero hzero.1, membershipHasQuorum_sound hq ?_⟩
  intro i id hid hbit
  simp only [testBit_maskOf, Bool.and_eq_true, decide_eq_true_eq, memberMatch, memberIdAt, hid,
    Option.getD_some] at hbit
  cases hpeer : peerIndex core id with simp only [hpeer] at hbit
  | none =>
    omega
  | some k =>
    exact h k id (ascendingIndex_sound hpeer).2 hbit.2

end Tests

variable {initial : Conf} {final : Conf} {transition : MembershipTransition}

theorem overlap_of_common {a b : Conf} (flag flag' : UInt8)
    (ha : ∀ s, ConfQuorum a s → IsMajority (membersWith a flag) s)
    (hb : ∀ s, ConfQuorum b s → IsMajority (membersWith b flag') s)
    (same : membersWith a flag = membersWith b flag') : (raftScheme initial).Overlap a b := by
  intro P Q hP hQ
  obtain ⟨v, _, hv⟩ := (ha P hP).meet (same ▸ hb Q hQ)
  exact ⟨v, hv⟩

theorem overlap_self (configuration : Conf) :
    (raftScheme initial).Overlap configuration configuration :=
  overlap_of_common confOldVoter confOldVoter (fun _ h => h.1)
    (fun _ h => h.1) rfl

theorem hasRole_of_subset {roles : UInt8} (flags : UInt8) (hsub : flags &&& flag = flag)
    (h : hasRole roles flag = true) : hasRole roles flags = true := by
  simp only [hasRole, bne_iff_ne, ne_eq] at h ⊢
  intro hzero
  apply h
  rw [← hsub, ← UInt8.and_assoc, hzero, UInt8.zero_and]

theorem final_roles (hvalid : confValidate configuration = .ok)
    (hfinal : configuration.phase = .final) {m : ConfMember} (hm : m ∈ configuration.members) :
    m.roles = confVoterRoles ∨ m.roles = confLearner := by
  have hroles := (confValidate_members hvalid).2.2.2.1 m hm
  rw [hfinal] at hroles
  unfold confRolesValid at hroles
  split_ifs at hroles
  simpa using hroles

theorem overlap_joint {stable : Conf} (hvalid : confValidate stable = .ok)
    (hfinal : stable.phase = .final) (h : jointOldVotersMatch stable joint = true) :
    (raftScheme initial).Overlap stable joint := by
  refine overlap_of_common confOldVoter confOldVoter (fun _ h => h.1)
    (fun _ h => h.1) ?_
  rw [jointOldVotersMatch, beq_iff_eq] at h
  rw [← h, membersWith]
  congr 1
  refine List.filter_congr ?_
  intro m hm
  rw [membershipIsVoter, membershipRoles_of_mem (confValidate_members hvalid).2.2.1 hm]
  rcases final_roles hvalid hfinal hm with hrole | hrole <;> rw [hrole] <;> rfl

/-- Filtering the roles for the final membership keeps the new voters in their order. -/
theorem finalMember_new (members : List ConfMember) :
    ((members.filterMap finalMember).filter (fun m => hasRole m.roles confNewVoter)).map
        ConfMember.nodeId =
      (members.filter (fun m => hasRole m.roles confNewVoter)).map ConfMember.nodeId := by
  induction members with
  | nil => rfl
  | cons m rest ih =>
    by_cases hnew : hasRole m.roles confNewVoter = true
    · have hmember : finalMember m = some ⟨m.nodeId, confVoterRoles⟩ := by
        simp [finalMember, hnew, hasRole_of_subset (confNewVoter ||| confLearner) rfl hnew]
      have hkept : hasRole confVoterRoles confNewVoter = true := rfl
      simp only [List.filterMap_cons, hmember, List.filter_cons, hkept, hnew, if_true,
        List.map_cons, ih]
    · rw [Bool.not_eq_true] at hnew
      have hkept : hasRole confLearner confNewVoter = false := rfl
      cases hmember : finalMember m with
      | none => simp only [List.filterMap_cons, hmember, List.filter_cons, hnew, ih,
          Bool.false_eq_true, if_false]
      | some target =>
        have htarget : target.roles = confLearner := by
          simp only [finalMember, hnew, Bool.false_eq_true, if_false] at hmember
          split_ifs at hmember
          cases hmember
          rfl
        simp only [List.filterMap_cons, hmember, List.filter_cons, htarget, hkept, hnew, ih,
          Bool.false_eq_true, if_false]

theorem membersWith_final (h : membershipFinal joint = .ok final) :
    membersWith final confNewVoter = membersWith joint confNewVoter := by
  unfold membershipFinal at h
  split_ifs at h
  simp only at h
  split_ifs at h
  cases h
  exact finalMember_new joint.members

theorem overlap_final (h : membershipFinal joint = .ok final) :
    (raftScheme initial).Overlap joint final :=
  overlap_of_common confNewVoter confNewVoter (fun _ h => h.2)
    (fun _ h => h.2) (membersWith_final h).symm

theorem overlap_of_validateNext
    (hcommitted : confValidate transition.committed = .ok)
    (h : membershipTransitionValidateNext transition configuration = .ok) :
    (raftScheme initial).Overlap (transitionBase transition) configuration := by
  obtain ⟨_, _, _, hfollows⟩ := validateNext_ok_iff.mp h
  rcases hfollows with ⟨_, hnone, hfinal, hmatch⟩ | ⟨_, _, hnext⟩
  · have hbase : transitionBase transition = transition.committed := by
      simp [transitionBase, hnone]
    rw [hbase]
    exact overlap_joint hcommitted hfinal hmatch
  · exact overlap_final hnext

theorem voter_of_role (h : idsAscending (memberIds configuration) = true)
    (hflag : confVoterRoles &&& flag = flag) (hid : id ∈ membersWith configuration flag)
    : membershipIsVoter configuration id = true := by
  obtain ⟨m, hm, rfl⟩ := List.mem_map.mp hid
  obtain ⟨hmem, hrole⟩ := List.mem_filter.mp hm
  rw [membershipIsVoter, membershipRoles_of_mem h hmem]
  exact hasRole_of_subset confVoterRoles hflag hrole

theorem mem_of_voter (h : membershipIsVoter configuration id = true) : id ∈ memberIds configuration := by
  unfold membershipIsVoter membershipRoles at h
  cases hindex : membershipIndex configuration id with
  | none =>
    rw [hindex] at h
    change hasRole 0 confVoterRoles = true at h
    exact absurd h (by decide)
  | some index => exact List.mem_of_getElem? (ascendingIndex_sound hindex).2

theorem sole_voter_follows (hbuilt : Built transition)
    (hpending : transition.pending = [])
    (hnext : membershipTransitionValidateNext transition configuration = .ok)
    (hquorum : ConfQuorum transition.committed {id}) :
    membershipIsVoter configuration id = true := by
  obtain ⟨hvalid, _, _, hfollows⟩ := validateNext_ok_iff.mp hnext
  have hascending := (confValidate_members hvalid).2.2.1
  rcases hfollows with ⟨_, _, _, hjoint⟩ | ⟨_, _, hfinal⟩
  · obtain ⟨ids, hids⟩ := hbuilt
    have hstable := peerSetMembershipValid_ascending
      ((peerSetBuild_ok hids).2.2.1 transition.committed List.mem_cons_self)
    have hid := hquorum.1.sole
    have hold : id ∈ membersWith configuration confOldVoter := by
      rw [jointOldVotersMatch, beq_iff_eq] at hjoint
      rw [← hjoint]
      obtain ⟨m, hm, rfl⟩ := List.mem_map.mp hid
      refine List.mem_map_of_mem (List.mem_filter.mpr ⟨(List.mem_filter.mp hm).1, ?_⟩)
      exact voter_of_role hstable rfl hid
    exact voter_of_role hascending rfl hold
  · have hbase : transitionBase transition = transition.committed := by
      rw [transitionBase, hpending]
      rfl
    rw [hbase] at hfinal
    have hnew : id ∈ membersWith configuration confNewVoter := by
      rw [membersWith_final hfinal]
      exact hquorum.2.sole
    exact voter_of_role hascending rfl hnew

theorem confs_eq_confPairs (entries : List Entry) :
    (raftScheme initial).confs entries = (confPairs entries).map Prod.fst := by
  simp only [Scheme.confs, raftScheme, confPairs, List.map_filterMap, Option.map_map]
  congr 1
  funext entry
  cases (confEntryDecode entry).toOption <;> rfl

theorem conf_valid (hinitial : confValidate initial = .ok) (entries : List Entry) :
    confValidate ((raftScheme initial).conf entries) = .ok := by
  unfold Scheme.conf
  cases hlast : ((raftScheme initial).confs entries).getLast? with
  | none => exact hinitial
  | some configuration =>
    have hmem := List.mem_of_getLast? hlast
    rw [confs_eq_confPairs] at hmem
    obtain ⟨p, hp, rfl⟩ := List.mem_map.mp hmem
    obtain ⟨entry, _, _, hdecode⟩ := confPairs_index hp
    exact confEntryDecode_valid hdecode

end RaftQuorum
