import Mathlib.Data.Finset.Basic
import TurboRaft.RaftQuorum

/-! # Quorums across one membership change

A change leads from a stable membership over a joint one to its final membership. Quorums of
neighbouring memberships meet. The merge that builds the joint membership never takes the
largest word, so the joint membership may lack one old voter; a majority of the remaining old
voters still meets every majority of all of them. A core tests its quorums over peers, and its
answer is that of the membership. -/
namespace RaftJointQuorums

open RaftTypes RaftConfiguration RaftMembership RaftCoreState
open RaftConfigurationLemmas RaftTransitionLemmas RaftQuorum

variable {ids : List NodeId} {next : NodeId}

def indexMask (membership : Conf) (s : Finset NodeId) : ℕ :=
  maskOf membership.members.length (fun i => decide (memberIdAt membership i ∈ s))

/-- Every quorum of `a` has a node in common with every quorum of `b`. -/
def QuorumsMeet (a b : Conf) : Prop :=
  ∀ s t : Finset NodeId, membershipHasQuorum a (indexMask a s) = true →
    membershipHasQuorum b (indexMask b t) = true → ∃ id, id ∈ s ∧ id ∈ t

/-- The two masks name the same nodes: a member has its bit when its peer has one. -/
def Corresponding (core : Core) (peerAcks memberAcks : ℕ) : Prop :=
  ∀ i id, (memberIds (coreMembership core))[i]? = some id →
    (memberAcks.testBit i = true ↔ ∃ k, core.peers[k]? = some id ∧ peerAcks.testBit k = true)

section Meeting

variable {a b : Conf}

theorem confQuorum_of_indexMask {membership : Conf} {s : Finset NodeId}
    (h : membershipHasQuorum membership (indexMask membership s) = true) :
    ConfQuorum membership (s : Set NodeId) := by
  refine membershipHasQuorum_sound h ?_
  intro i id hid hbit
  simp only [indexMask, testBit_maskOf, Bool.and_eq_true, memberIdAt, hid, Option.getD_some,
    decide_eq_true_eq] at hbit
  exact hbit.2

theorem quorumsMeet_of_confQuorum
    (h : ∀ s t, ConfQuorum a s → ConfQuorum b t → ∃ id, id ∈ s ∧ id ∈ t) : QuorumsMeet a b :=
  fun _ _ hs ht => h _ _ (confQuorum_of_indexMask hs) (confQuorum_of_indexMask ht)

theorem quorumsMeet_self (membership : Conf) : QuorumsMeet membership membership := by
  refine quorumsMeet_of_confQuorum fun s t hs ht => ?_
  obtain ⟨id, _, hid⟩ := hs.1.meet ht.1
  exact ⟨id, hid⟩

theorem quorumsMeet_final {joint final : Conf} (h : membershipFinal joint = .ok final) :
    QuorumsMeet joint final := by
  refine quorumsMeet_of_confQuorum fun s t hs ht => ?_
  have hnew := ht.2
  rw [membersWith_final h] at hnew
  obtain ⟨id, _, hid⟩ := hs.2.meet hnew
  exact ⟨id, hid⟩

end Meeting

theorem dropHead_of_headIs (h : headIs next ids = true) : ids = next :: dropHead next ids := by
  cases ids with
  | nil => cases h
  | cons id rest =>
    change (id == next) = true at h
    rw [beq_iff_eq] at h
    subst h
    simp [dropHead]

theorem dropHead_of_not_headIs (h : headIs next ids = false) : dropHead next ids = ids := by
  cases ids with
  | nil => rfl
  | cons id rest =>
    change (id == next) = false at h
    simp [dropHead, h]

theorem headIs_of_mem (h : ids.Pairwise (· < ·)) (hle : ∀ x ∈ ids, next ≤ x) (hmem : next ∈ ids)
    : headIs next ids = true := by
  cases ids with
  | nil => cases hmem
  | cons id rest =>
    change (id == next) = true
    rw [beq_iff_eq]
    rcases List.mem_cons.mp hmem with heq | hrest
    · exact heq.symm
    · have hlt := (List.pairwise_cons.mp h).1 next hrest
      exact absurd hlt (UInt64.not_lt.mpr (hle id List.mem_cons_self))

theorem length_dropHead_le (next : NodeId) (ids : List NodeId) :
    (dropHead next ids).length ≤ ids.length := by
  cases ids with
  | nil => exact Nat.le_refl _
  | cons id rest =>
    simp only [dropHead]
    split_ifs <;> simp

theorem length_dropHead_of_headIs (h : headIs next ids = true)
    : (dropHead next ids).length + 1 = ids.length := by
  conv_rhs => rw [dropHead_of_headIs h]
  rfl

theorem hasRole_merged (old new learner : Bool) :
    hasRole ((if old then confOldVoter else 0) ||| (if new then confNewVoter else 0) |||
      (if learner then confLearner else 0)) confOldVoter = old := by
  cases old <;> cases new <;> cases learner <;> rfl

theorem mergeNext_spec {current voters learners : List NodeId} (hcurrent : current.Pairwise (· < ·))
    (hvoters : voters.Pairwise (· < ·)) (hlearners : learners.Pairwise (· < ·))
    (h : headMin (headMin (headMin uint64MaxId current) voters) learners = next) :
    (∀ ids ∈ [current, voters, learners], ∀ x ∈ ids, next ≤ x) ∧
      (next = uint64MaxId ∨ ∃ ids ∈ [current, voters, learners], headIs next ids = true) := by
  have hsorted : ∀ ids ∈ [current, voters, learners], ids.Pairwise (· < ·) := by
    simp [hcurrent, hvoters, hlearners]
  obtain ⟨_, hall, hfrom⟩ := foldl_headMin hsorted uint64MaxId
  change ∀ ids ∈ _, ∀ x ∈ ids, headMin (headMin (headMin uint64MaxId current) voters) learners ≤ x
    at hall
  rw [h] at hall
  refine ⟨hall, ?_⟩
  rcases hfrom with hmax | ⟨ids, hids, hmem⟩
  · exact Or.inl (h.symm.trans hmax)
  · refine Or.inr ⟨ids, hids, headIs_of_mem (hsorted ids hids) (hall ids hids) ?_⟩
    rw [← h]
    exact hmem

/-- The old voters of the merge are those of its first source below the largest word. -/
theorem membershipJointLoop_old (fuel : ℕ) {current voters learners : List NodeId}
    (hfuel : current.length + voters.length + learners.length ≤ fuel)
    (hcurrent : current.Pairwise (· < ·)) (hvoters : voters.Pairwise (· < ·))
    (hlearners : learners.Pairwise (· < ·)) :
    ((membershipJointLoop fuel current voters learners).filter
      (fun m => hasRole m.roles confOldVoter)).map ConfMember.nodeId =
      current.filter (· != uint64MaxId) := by
  induction fuel generalizing current voters learners with
  | zero =>
    have hnone : current = [] := List.length_eq_zero_iff.mp (by omega)
    subst hnone
    rfl
  | succ fuel ih =>
    unfold membershipJointLoop
    generalize hnext : headMin (headMin (headMin uint64MaxId current) voters) learners = next
    obtain ⟨hall, hfrom⟩ := mergeNext_spec hcurrent hvoters hlearners hnext
    by_cases hmax : next = uint64MaxId
    · -- what is left of the first source is at most the largest word
      subst hmax
      refine (List.filter_eq_nil_iff.mpr fun x hx => ?_).symm
      have hle := hall current List.mem_cons_self x hx
      simp [UInt64.le_antisymm (le_uint64MaxId x) hle]
    · rw [if_neg (by simpa using hmax), List.filter_cons, hasRole_merged]
      obtain ⟨ids, hids, hhead⟩ := hfrom.resolve_left hmax
      -- some source loses its head
      have hless : (dropHead next current).length + (dropHead next voters).length +
          (dropHead next learners).length ≤ fuel := by
        have hc := length_dropHead_le next current
        have hv := length_dropHead_le next voters
        have hl := length_dropHead_le next learners
        have hdropped := length_dropHead_of_headIs hhead
        simp only [List.mem_cons, List.not_mem_nil, or_false] at hids
        rcases hids with rfl | rfl | rfl <;> omega
      have hrest := ih hless (pairwise_dropHead hcurrent) (pairwise_dropHead hvoters)
        (pairwise_dropHead hlearners)
      cases hold : headIs next current with
      | true =>
        rw [if_pos rfl, List.map_cons, hrest]
        conv_rhs => rw [dropHead_of_headIs hold, List.filter_cons, if_pos (by simpa using hmax)]
      | false =>
        rw [if_neg Bool.false_ne_true, hrest, dropHead_of_not_headIs hold]

section Change

variable {stable joint : Conf} {voters learners : List NodeId} {transitionId : UInt64}

theorem membershipJoint_ok (h : membershipJoint stable voters learners transitionId = .ok joint) :
    membershipStableValid stable = true ∧ membershipValidateSet voters learners = .ok ∧
      joint.phase = .joint ∧ confValidate joint = .ok ∧
      joint.members = membershipJointLoop
        (stable.members.length + voters.length + learners.length)
        ((stable.members.filter (fun m => m.roles != confLearner)).map ConfMember.nodeId)
        voters learners := by
  unfold membershipJoint at h
  split_ifs at h with hinput
  · dsimp only at h
    split_ifs at h with hvalid
    cases h
    simp only [Bool.or_eq_true, Bool.not_eq_true', bne_iff_ne, not_or, Bool.not_eq_false,
      not_not] at hinput hvalid
    exact ⟨hinput.1.2, hinput.2, rfl, hvalid, rfl⟩

theorem membershipStableValid_spec (h : membershipStableValid stable = true) :
    (memberIds stable).Pairwise (· < ·) ∧
      ∀ m ∈ stable.members, m.roles = confVoterRoles ∨ m.roles = confLearner := by
  simp only [membershipStableValid, Bool.and_eq_true, List.all_eq_true, Bool.or_eq_true,
    beq_iff_eq] at h
  exact ⟨(idsAscending_iff.mp h.1.1.2).2, h.1.2⟩

theorem membershipValidateSet_ascending (h : membershipValidateSet voters learners = .ok) :
    voters.Pairwise (· < ·) ∧ learners.Pairwise (· < ·) := by
  unfold membershipValidateSet at h
  split_ifs at h with _ hascending
  simp only [Bool.or_eq_true, Bool.not_eq_true', not_or, Bool.not_eq_false] at hascending
  exact ⟨(idsAscending_iff.mp hascending.1).2, (idsAscending_iff.mp hascending.2).2⟩

theorem membershipJoint_old (h : membershipJoint stable voters learners transitionId = .ok joint) :
    membersWith joint confOldVoter =
      (membersWith stable confOldVoter).filter (· != uint64MaxId) := by
  obtain ⟨hstable, hset, _, _, hmembers⟩ := membershipJoint_ok h
  obtain ⟨hsorted, hroles⟩ := membershipStableValid_spec hstable
  obtain ⟨hvoters, hlearners⟩ := membershipValidateSet_ascending hset
  have hsame : (stable.members.filter (fun m => m.roles != confLearner)).map ConfMember.nodeId =
      membersWith stable confOldVoter := by
    congr 1
    refine List.filter_congr fun m hm => ?_
    rcases hroles m hm with hrole | hrole <;> rw [hrole] <;> rfl
  have hcurrent : (membersWith stable confOldVoter).Pairwise (· < ·) :=
    hsorted.sublist (List.filter_sublist.map _)
  have hlength : (membersWith stable confOldVoter).length ≤ stable.members.length := by
    rw [membersWith, List.length_map]
    exact List.length_filter_le _ _
  rw [membersWith, hmembers, hsame]
  exact membershipJointLoop_old _ (by omega) hcurrent hvoters hlearners

theorem length_filter_max (h : ids.Pairwise (· < ·)) :
    ids.length ≤ (ids.filter (· != uint64MaxId)).length + 1 := by
  have hsplit := List.length_eq_length_filter_add (l := ids) (· != uint64MaxId)
  have honce : (ids.filter (fun x => !(x != uint64MaxId))).length ≤ 1 := by
    have hnodup : ids.Nodup := h.imp fun {_ _} hlt => UInt64.ne_of_lt hlt
    have hcount := List.nodup_iff_count_le_one.mp hnodup uint64MaxId
    rw [List.count_eq_length_filter] at hcount
    refine le_of_eq_of_le ?_ hcount
    congr 2
    funext x
    rw [bne, Bool.not_not]
  omega

theorem quorumsMeet_joint (h : membershipJoint stable voters learners transitionId = .ok joint) :
    QuorumsMeet stable joint := by
  refine quorumsMeet_of_confQuorum fun s t hs ht => ?_
  have hold := ht.1
  rw [membershipJoint_old h] at hold
  have hsorted : (membersWith stable confOldVoter).Pairwise (· < ·) :=
    (membershipStableValid_spec (membershipJoint_ok h).1).1.sublist (List.filter_sublist.map _)
  obtain ⟨id, _, hid⟩ := hs.1.meet_sublist hold List.filter_sublist (length_filter_max hsorted)
  exact ⟨id, hid⟩

theorem finalMember_some {source target : ConfMember} (h : finalMember source = some target) :
    target.nodeId = source.nodeId ∧
      (target.roles = confVoterRoles ∨ target.roles = confLearner) := by
  unfold finalMember at h
  split_ifs at h <;> cases h
  · exact ⟨rfl, Or.inl rfl⟩
  · exact ⟨rfl, Or.inr rfl⟩

theorem finalMember_ids (members : List ConfMember) :
    ((members.filterMap finalMember).map ConfMember.nodeId).Sublist
      (members.map ConfMember.nodeId) := by
  induction members with
  | nil => exact .slnil
  | cons m rest ih =>
    cases hmember : finalMember m with
    | none =>
      rw [List.filterMap_cons_none hmember]
      exact ih.cons _
    | some target =>
      rw [List.filterMap_cons_some hmember, List.map_cons, List.map_cons,
        (finalMember_some hmember).1]
      exact ih.cons_cons _

/-- A joint membership always has a final one: its new voters are kept. -/
theorem membershipFinal_of_joint (hphase : joint.phase = .joint)
    (hvalid : confValidate joint = .ok) : ∃ final, membershipFinal joint = .ok final := by
  obtain ⟨_, hlength, hascending, _, _, hnew⟩ := confValidate_members hvalid
  have hroles : ∀ m ∈ joint.members.filterMap finalMember,
      m.roles = confVoterRoles ∨ m.roles = confLearner := by
    intro m hm
    obtain ⟨source, _, hsource⟩ := List.mem_filterMap.mp hm
    exact (finalMember_some hsource).2
  generalize hfinal : ({ phase := .final, transitionId := joint.transitionId
                         members := joint.members.filterMap finalMember } : Conf) = final
  have hkept : membersWith final confNewVoter = membersWith joint confNewVoter := by
    rw [← hfinal]
    exact finalMember_new joint.members
  have hsame : membersWith final confOldVoter = membersWith final confNewVoter := by
    rw [← hfinal]
    unfold membersWith
    congr 1
    refine List.filter_congr fun m hm => ?_
    rcases hroles m hm with hrole | hrole <;> rw [hrole] <;> rfl
  have hids : idsAscending (memberIds final) = true := by
    obtain ⟨hpos, hsorted⟩ := idsAscending_iff.mp hascending
    have hsub : (memberIds final).Sublist (memberIds joint) := by
      rw [← hfinal]
      exact finalMember_ids joint.members
    exact idsAscending_iff.mpr
      ⟨fun id hid => hpos id (hsub.subset hid), hsorted.sublist hsub⟩
  have hfits : final.members.length ≤ maxMembers := by
    rw [← hfinal]
    exact (List.length_filterMap_le _ _).trans hlength
  have hsome : (membersWith final confNewVoter).length ≠ 0 := by
    rw [hkept]
    exact hnew
  have hvalidFinal : confValidate final = .ok := by
    have hnonempty : final.members.length ≠ 0 := by
      intro hzero
      apply hsome
      rw [membersWith, List.length_eq_zero_iff.mp hzero]
      rfl
    have hphaseFinal : final.phase = .final := by rw [← hfinal]
    have hall : final.members.all (fun m => confRolesValid final.phase m.roles) = true := by
      rw [List.all_eq_true, hphaseFinal]
      intro m hm
      rw [← hfinal] at hm
      rcases hroles m hm with hrole | hrole <;> rw [hrole] <;> rfl
    unfold confValidate
    rw [if_neg (by simp [hphaseFinal, hnonempty, hfits]), if_neg (by simp [hids, hall]),
      if_pos (by simp only [hsame, Bool.and_self, bne_iff_ne, ne_eq]; exact hsome)]
  refine ⟨final, ?_⟩
  unfold membershipFinal
  rw [if_neg (by simp [hphase, hvalid])]
  rw [hfinal, if_neg (by simp [hvalidFinal])]

end Change

section Translation

variable {core : Core} {peerAcks memberAcks : ℕ} {id : NodeId}

theorem membershipHasQuorum_congr {membership : Conf} {acks acks' : ℕ}
    (h : ∀ i < membership.members.length, acks.testBit i = acks'.testBit i) :
    membershipHasQuorum membership acks = membershipHasQuorum membership acks' := by
  have hacks : ∀ flag, roleAcks membership flag acks = roleAcks membership flag acks' := by
    intro flag
    refine List.countP_congr ?_
    rintro ⟨m, i⟩ hm
    have hlt : i < membership.members.length :=
      (List.getElem?_eq_some_iff.mp (List.mem_zipIdx_iff_getElem?.mp hm)).1
    simp only [h i hlt]
  unfold membershipHasQuorum
  rw [hacks, hacks]

theorem memberAcknowledged_iff (hpeers : idsAscending core.peers = true) {i : ℕ}
    (hid : (memberIds (coreMembership core))[i]? = some id) :
    memberAcknowledged core peerAcks i = true ↔
      ∃ k, core.peers[k]? = some id ∧ peerAcks.testBit k = true := by
  have hat : memberIdAt (coreMembership core) i = id := by simp [memberIdAt, hid]
  unfold memberAcknowledged
  rw [hat]
  constructor
  · intro h
    cases hpeer : peerIndex core id with rw [hpeer] at h
    | none =>
      cases h
    | some k =>
      exact ⟨k, (ascendingIndex_sound hpeer).2, h⟩
  · rintro ⟨k, hk, hbit⟩
    rw [show peerIndex core id = some k from ascendingIndex_complete hpeers hk]
    exact hbit

theorem coreHasQuorum_translated (hpeers : idsAscending core.peers = true)
    (h : Corresponding core peerAcks memberAcks) :
    coreHasQuorum core peerAcks = membershipHasQuorum (coreMembership core) memberAcks := by
  refine membershipHasQuorum_congr fun i hi => ?_
  obtain ⟨id, hid⟩ : ∃ id, (memberIds (coreMembership core))[i]? = some id :=
    ⟨_, List.getElem?_eq_getElem (by simpa [memberIds] using hi)⟩
  rw [testBit_maskOf, decide_eq_true hi, Bool.true_and, Bool.eq_iff_iff,
    memberAcknowledged_iff hpeers hid, h i id hid]

/-- Every member below the largest word is a peer, whatever configurations are pending. -/
theorem member_is_peer (hbuild : coreBuildPeerSet core.membershipTransition = .ok core.peers)
    (hid : id ∈ memberIds (coreMembership core)) (hmax : id ≠ uint64MaxId) :
    id ∈ core.peers :=
  ((peerSetBuild_spec hbuild).2.2 id).mpr
    ⟨hmax, _, List.mem_map_of_mem List.mem_cons_self, hid⟩

end Translation

/-- The quorums of a stable membership, of a joint membership that leaves it and of the final
membership that ends the change meet pairwise along the change. A core that has committed any of
the three finds the quorums of that membership, with every member but the largest word among its
peers. -/
theorem joint_change_quorums {stable joint : Conf} {voters learners : List NodeId}
    {transitionId : UInt64}
    (hjoint : membershipJoint stable voters learners transitionId = .ok joint) :
    ∃ final, membershipFinal joint = .ok final ∧
      (QuorumsMeet stable stable ∧ QuorumsMeet stable joint ∧ QuorumsMeet joint joint ∧
        QuorumsMeet joint final ∧ QuorumsMeet final final) ∧
      ∀ core, coreMembership core ∈ [stable, joint, final] →
        coreBuildPeerSet core.membershipTransition = .ok core.peers →
        (∀ id ∈ memberIds (coreMembership core), id ≠ uint64MaxId → id ∈ core.peers) ∧
        ∀ peerAcks memberAcks, Corresponding core peerAcks memberAcks →
          coreHasQuorum core peerAcks =
            membershipHasQuorum (coreMembership core) memberAcks := by
  obtain ⟨_, _, hphase, hvalid, _⟩ := membershipJoint_ok hjoint
  obtain ⟨final, hfinal⟩ := membershipFinal_of_joint hphase hvalid
  refine ⟨final, hfinal, ⟨quorumsMeet_self _, quorumsMeet_joint hjoint, quorumsMeet_self _,
    quorumsMeet_final hfinal, quorumsMeet_self _⟩, ?_⟩
  intro core _ hbuild
  refine ⟨fun id hid hmax => member_is_peer hbuild hid hmax, fun peerAcks memberAcks h => ?_⟩
  exact coreHasQuorum_translated (peerSetBuild_spec hbuild).2.1 h

def replacedVoter : Conf :=
  { phase := .final, transitionId := 0
    members := [⟨1, confVoterRoles⟩, ⟨2, confVoterRoles⟩, ⟨3, confVoterRoles⟩] }

theorem replaced_voter_quorums :
    ∃ joint, membershipJoint replacedVoter [2, 3, 4] [] 7 = .ok joint ∧
      ∃ final, membershipFinal joint = .ok final ∧ QuorumsMeet replacedVoter joint ∧
        QuorumsMeet joint final := by
  have hjoint : membershipJoint replacedVoter [2, 3, 4] [] 7 =
      .ok { phase := .joint, transitionId := 7
            members := [⟨1, confOldVoter⟩, ⟨2, confVoterRoles⟩, ⟨3, confVoterRoles⟩,
              ⟨4, confNewVoter⟩] } := by decide +kernel
  obtain ⟨final, hfinal, ⟨_, hleave, _, hend, _⟩, _⟩ := joint_change_quorums hjoint
  exact ⟨_, hjoint, final, hfinal, hleave, hend⟩

end RaftJointQuorums
