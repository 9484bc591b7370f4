import TurboRaft.RaftConfigurationLemmas
import TurboRaft.RaftCoreState
import Mathlib.Data.List.Perm.Subperm

/-! # Membership transitions: what staging accepts

A transition accepts a joint configuration of its committed voters, and the final
configuration of the joint one it stands on. Staging the configuration entries of a list
appends them in order, and peer sets of fewer memberships never need more room. -/
namespace RaftTransitionLemmas

open RaftTypes RaftConfiguration RaftMembership RaftMembershipTransition RaftCoreState
open RaftConfigurationLemmas

variable {transition : MembershipTransition} {configuration : Conf} {next : NodeId}
  {ids : List NodeId} {sources : List (List NodeId)} {membership : Conf} {memberships : List Conf}
  {entry : Entry} (commitIndex : ℕ)

/-- The two configurations a transition can take next. -/
def Follows (transition : MembershipTransition) (configuration : Conf) : Prop :=
  (configuration.phase = .joint ∧ transition.pending = [] ∧ transition.committed.phase = .final ∧
      jointOldVotersMatch transition.committed configuration = true) ∨
    (configuration.phase = .final ∧ (transitionBase transition).phase = .joint ∧
      membershipFinal (transitionBase transition) = .ok configuration)

theorem validateNext_ok_iff :
    membershipTransitionValidateNext transition configuration = .ok ↔
      confValidate configuration = .ok ∧ transition.pending.length ≤ 1 ∧
        (∃ ids, peerSetBuild (transition.committed :: pendingConfs transition ++ [configuration])
          = .ok ids) ∧ Follows transition configuration := by
  unfold membershipTransitionValidateNext Follows
  by_cases hvalid : confValidate configuration = .ok
  swap
  · simp [hvalid]
  by_cases hlen : transition.pending.length ≤ 1
  swap
  · have : peerSetMaxSources - 2 < transition.pending.length := Nat.not_le.mp hlen
    simp [hvalid, hlen, this]
  have hroom : ¬ peerSetMaxSources - 2 < transition.pending.length := Nat.not_lt.mpr hlen
  simp only [hvalid, hlen, hroom, bne_self_eq_false, Bool.false_eq_true, if_false, true_and]
  cases hbuild : peerSetBuild (transition.committed :: pendingConfs transition ++ [configuration]) with
  | error status => simp
  | ok ids =>
    cases hphase : configuration.phase with
    | joint => simp [and_assoc]
    | final =>
      cases hjoint : (transitionBase transition).phase with
      | final => simp
      | joint =>
        cases hfinal : membershipFinal (transitionBase transition) with
        | error status | ok expected => simp

theorem headMin_le (next : NodeId) (ids : List NodeId) : headMin next ids ≤ next := by
  cases ids with
  | nil => exact UInt64.le_refl _
  | cons id rest =>
    simp only [headMin]
    split_ifs with h
    · exact UInt64.le_of_lt h
    · exact UInt64.le_refl _

theorem headMin_le_mem (h : ids.Pairwise (· < ·)) {x : NodeId} (hx : x ∈ ids)
    : headMin next ids ≤ x := by
  cases ids with
  | nil => cases hx
  | cons id rest =>
    have hid : headMin next (id :: rest) ≤ id := by
      simp only [headMin]
      split_ifs with hlt
      · exact UInt64.le_refl _
      · exact UInt64.not_lt.mp hlt
    rcases List.mem_cons.mp hx with rfl | hx
    · exact hid
    · exact UInt64.le_trans hid (UInt64.le_of_lt ((List.pairwise_cons.mp h).1 x hx))

theorem headMin_eq (next : NodeId) (ids : List NodeId) :
    headMin next ids = next ∨ headMin next ids ∈ ids := by
  cases ids with
  | nil => exact Or.inl rfl
  | cons id rest =>
    simp only [headMin]
    split_ifs
    · exact Or.inr List.mem_cons_self
    · exact Or.inl rfl

theorem foldl_headMin (hs : ∀ s ∈ sources, s.Pairwise (· < ·)) (start : NodeId) :
    sources.foldl headMin start ≤ start ∧
      (∀ s ∈ sources, ∀ x ∈ s, sources.foldl headMin start ≤ x) ∧
      (sources.foldl headMin start = start ∨ ∃ s ∈ sources, sources.foldl headMin start ∈ s) := by
  induction sources generalizing start with
  | nil => exact ⟨UInt64.le_refl _, by simp, Or.inl rfl⟩
  | cons first rest ih =>
    obtain ⟨hle, hall, hfrom⟩ := ih (fun s h => hs s (List.mem_cons_of_mem _ h)) (headMin start first)
    rw [List.foldl_cons]
    refine ⟨UInt64.le_trans hle (headMin_le start first), ?_, ?_⟩
    · intro s hmem x hx
      rcases List.mem_cons.mp hmem with rfl | hmem
      · exact UInt64.le_trans hle (headMin_le_mem (hs _ List.mem_cons_self) hx)
      · exact hall s hmem x hx
    · rcases hfrom with heq | ⟨s, hmem, hin⟩
      · rw [heq]
        exact (headMin_eq start first).imp id fun hin => ⟨first, List.mem_cons_self, hin⟩
      · exact Or.inr ⟨s, List.mem_cons_of_mem _ hmem, hin⟩

theorem le_uint64MaxId (id : NodeId) : id ≤ uint64MaxId := by
  rw [UInt64.le_iff_toNat_le]
  have := id.toNat_lt
  have hmax : uint64MaxId.toNat = 2 ^ 64 - 1 := rfl
  omega

/-- An identifier that some source lists; the largest word ends the walk and never counts. -/
def Listed (sources : List (List NodeId)) (id : NodeId) : Prop :=
  id ≠ uint64MaxId ∧ ∃ s ∈ sources, id ∈ s

theorem peerSetNext_none (hs : ∀ s ∈ sources, s.Pairwise (· < ·)) (h : peerSetNext sources = none)
    (id : NodeId) : ¬ Listed sources id := by
  rintro ⟨hne, s, hmem, hid⟩
  simp only [peerSetNext] at h
  split_ifs at h with hmax
  rw [beq_iff_eq] at hmax
  have hle := (foldl_headMin hs uint64MaxId).2.1 s hmem id hid
  rw [hmax] at hle
  exact hne (UInt64.le_antisymm (le_uint64MaxId id) hle)

theorem peerSetNext_some (hs : ∀ s ∈ sources, s.Pairwise (· < ·))
    (h : peerSetNext sources = some next) :
    Listed sources next ∧ ∀ s ∈ sources, ∀ x ∈ s, next ≤ x := by
  simp only [peerSetNext] at h
  split_ifs at h with hmax
  cases h
  rw [beq_iff_eq] at hmax
  obtain ⟨_, hall, hfrom⟩ := foldl_headMin hs uint64MaxId
  exact ⟨⟨hmax, hfrom.resolve_left hmax⟩, hall⟩

theorem mem_dropHead (h : ids.Pairwise (· < ·)) (hle : ∀ x ∈ ids, next ≤ x) {x : NodeId}
    : x ∈ dropHead next ids ↔ x ∈ ids ∧ x ≠ next := by
  cases ids with
  | nil => simp [dropHead]
  | cons id rest =>
    have hrest := (List.pairwise_cons.mp h).1
    have hnext := hle id List.mem_cons_self
    have habove : ∀ y ∈ rest, y ≠ next := fun y hy heq =>
      UInt64.not_lt.mpr hnext (heq ▸ hrest y hy)
    simp only [dropHead]
    split_ifs with heq
    · rw [beq_iff_eq] at heq
      subst heq
      constructor
      · exact fun hx => ⟨List.mem_cons_of_mem _ hx, habove x hx⟩
      · rintro ⟨hx, hne⟩
        exact (List.mem_cons.mp hx).resolve_left hne
    · rw [beq_iff_eq] at heq
      constructor
      · intro hx
        refine ⟨hx, ?_⟩
        rcases List.mem_cons.mp hx with rfl | hx
        · exact heq
        · exact habove x hx
      · exact fun hx => hx.1

theorem pairwise_dropHead (h : ids.Pairwise (· < ·)) : (dropHead next ids).Pairwise (· < ·) := by
  cases ids with
  | nil => exact h
  | cons id rest =>
    simp only [dropHead]
    split_ifs
    · exact (List.pairwise_cons.mp h).2
    · exact h

theorem listed_dropHead (hs : ∀ s ∈ sources, s.Pairwise (· < ·))
    (hle : ∀ s ∈ sources, ∀ x ∈ s, next ≤ x) (id : NodeId) :
    Listed (sources.map (dropHead next)) id ↔ Listed sources id ∧ id ≠ next := by
  constructor
  · rintro ⟨hne, t, ht, hid⟩
    obtain ⟨s, hmem, rfl⟩ := List.mem_map.mp ht
    obtain ⟨hin, hother⟩ := (mem_dropHead (hs s hmem) (hle s hmem)).mp hid
    exact ⟨⟨hne, s, hmem, hin⟩, hother⟩
  · rintro ⟨⟨hne, s, hmem, hin⟩, hother⟩
    exact ⟨hne, _, List.mem_map_of_mem hmem,
      (mem_dropHead (hs s hmem) (hle s hmem)).mpr ⟨hin, hother⟩⟩

/-- The walk lists every identifier once and in order, unless there are too many. -/
theorem peerSetLoop_cases (capacity : ℕ) (sources : List (List NodeId))
    (hs : ∀ s ∈ sources, s.Pairwise (· < ·)) :
    (∃ ids, peerSetLoop capacity sources = .ok ids ∧ ids.length ≤ capacity ∧
        ids.Pairwise (· < ·) ∧ ∀ id, id ∈ ids ↔ Listed sources id) ∨
      ((∀ ids, peerSetLoop capacity sources ≠ .ok ids) ∧
        ∃ ids : List NodeId, ids.length = capacity + 1 ∧ ids.Nodup ∧
          ∀ id ∈ ids, Listed sources id) := by
  induction capacity generalizing sources with
  | zero =>
    unfold peerSetLoop
    cases hnext : peerSetNext sources with
    | none =>
      exact Or.inl ⟨[], rfl, le_rfl, List.Pairwise.nil,
        fun id => iff_of_false (List.not_mem_nil) (peerSetNext_none hs hnext id)⟩
    | some next =>
      refine Or.inr ⟨by simp, [next], rfl, by simp, ?_⟩
      intro id hid
      rw [List.mem_singleton.mp hid]
      exact (peerSetNext_some hs hnext).1
  | succ capacity ih =>
    unfold peerSetLoop
    cases hnext : peerSetNext sources with
    | none =>
      exact Or.inl ⟨[], rfl, Nat.zero_le _, List.Pairwise.nil,
        fun id => iff_of_false (List.not_mem_nil) (peerSetNext_none hs hnext id)⟩
    | some next =>
      obtain ⟨hlisted, hle⟩ := peerSetNext_some hs hnext
      have hdrop := listed_dropHead hs hle
      have hs' : ∀ t ∈ sources.map (dropHead next), t.Pairwise (· < ·) := by
        intro t ht
        obtain ⟨s, hmem, rfl⟩ := List.mem_map.mp ht
        exact pairwise_dropHead (hs s hmem)
      rcases ih _ hs' with ⟨ids, hok, hlen, hsorted, hmem⟩ | ⟨herror, ids, hlen, hnodup, hmem⟩
      · left
        refine ⟨next :: ids, by simp [hok], by simp; omega, ?_, ?_⟩
        · refine List.pairwise_cons.mpr ⟨?_, hsorted⟩
          intro id hid
          obtain ⟨⟨_, s, hsmem, hin⟩, hother⟩ := (hdrop id).mp ((hmem id).mp hid)
          exact UInt64.lt_of_le_of_ne (hle s hsmem id hin) (Ne.symm hother)
        · intro id
          rw [List.mem_cons, hmem id, hdrop id]
          constructor
          · rintro (rfl | h)
            · exact hlisted
            · exact h.1
          · intro h
            by_cases heq : id = next
            · exact Or.inl heq
            · exact Or.inr ⟨h, heq⟩
      · right
        refine ⟨?_, next :: ids, by simp [hlen], ?_, ?_⟩
        · intro out hout
          simp only at hout
          split at hout
          · cases hout
          · rename_i found hfound
            exact herror found hfound
        · exact List.nodup_cons.mpr ⟨fun hin => ((hdrop next).mp (hmem next hin)).2 rfl, hnodup⟩
        · intro id hid
          rcases List.mem_cons.mp hid with rfl | hid
          · exact hlisted
          · exact ((hdrop id).mp (hmem id hid)).1

theorem peerSetMembershipValid_ascending (h : peerSetMembershipValid membership = true)
    : idsAscending (memberIds membership) = true := by
  simp only [peerSetMembershipValid, Bool.and_eq_true] at h
  exact h.2

theorem peerSetMembershipValid_of_confValidate (h : confValidate membership = .ok)
    : peerSetMembershipValid membership = true := by
  obtain ⟨hpos, hle, hids, _⟩ := confValidate_members h
  simp only [peerSetMembershipValid, Bool.and_eq_true, bne_iff_ne, decide_eq_true_eq]
  exact ⟨⟨hpos, hle⟩, hids⟩

theorem peerSetBuild_eq (hpos : memberships ≠ []) (hle : memberships.length ≤ peerSetMaxSources)
    (hvalid : ∀ m ∈ memberships, peerSetMembershipValid m = true) :
    peerSetBuild memberships = peerSetLoop maxMembers (memberships.map memberIds) := by
  have hall : memberships.all peerSetMembershipValid = true := List.all_eq_true.mpr hvalid
  simp [peerSetBuild, hpos, hle.not_gt, hall]

theorem peerSetBuild_ok (h : peerSetBuild memberships = .ok ids) :
    memberships ≠ [] ∧ memberships.length ≤ peerSetMaxSources ∧
      (∀ m ∈ memberships, peerSetMembershipValid m = true) ∧
      peerSetLoop maxMembers (memberships.map memberIds) = .ok ids := by
  unfold peerSetBuild at h
  split_ifs at h with hshape hvalid
  simp only [Bool.or_eq_true, beq_iff_eq, List.length_eq_zero_iff, decide_eq_true_eq, not_or,
    not_lt, Bool.not_eq_true', Bool.not_eq_false, List.all_eq_true] at hshape hvalid
  exact ⟨hshape.1, hshape.2, hvalid, h⟩

theorem memberIds_pairwise (hvalid : ∀ m ∈ memberships, peerSetMembershipValid m = true) :
    ∀ s ∈ memberships.map memberIds, s.Pairwise (· < ·) := by
  intro s hs
  obtain ⟨m, hm, rfl⟩ := List.mem_map.mp hs
  exact (idsAscending_iff.mp (peerSetMembershipValid_ascending (hvalid m hm))).2

/-- A peer set is ascending, fits the peer table and lists the members it was built from. -/
theorem peerSetBuild_spec (h : peerSetBuild memberships = .ok ids) :
    ids.length ≤ maxMembers ∧ idsAscending ids = true ∧
      ∀ id, id ∈ ids ↔ Listed (memberships.map memberIds) id := by
  obtain ⟨_, _, hvalid, hloop⟩ := peerSetBuild_ok h
  rcases peerSetLoop_cases maxMembers _ (memberIds_pairwise hvalid) with
    ⟨found, hfound, hlen, hsorted, hmem⟩ | ⟨herror, _⟩
  · cases hfound.symm.trans hloop
    refine ⟨hlen, idsAscending_iff.mpr ⟨?_, hsorted⟩, hmem⟩
    intro id hid
    obtain ⟨_, s, hs, hin⟩ := (hmem id).mp hid
    obtain ⟨m, hm, rfl⟩ := List.mem_map.mp hs
    exact (idsAscending_iff.mp (peerSetMembershipValid_ascending (hvalid m hm))).1 id hin
  · exact absurd hloop (herror ids)

theorem peerSetBuild_subset {fewer : List Conf} (h : peerSetBuild memberships = .ok ids)
    (hpos : fewer ≠ []) (hle : fewer.length ≤ peerSetMaxSources) (hsub : fewer ⊆ memberships) :
    ∃ less, peerSetBuild fewer = .ok less := by
  obtain ⟨_, _, hvalid, _⟩ := peerSetBuild_ok h
  obtain ⟨hlen, _, hmem⟩ := peerSetBuild_spec h
  have hvalid' : ∀ m ∈ fewer, peerSetMembershipValid m = true := fun m hm => hvalid m (hsub hm)
  rw [peerSetBuild_eq hpos hle hvalid']
  rcases peerSetLoop_cases maxMembers _ (memberIds_pairwise hvalid') with
    ⟨less, hless, _⟩ | ⟨_, many, hmany, hnodup, hlisted⟩
  · exact ⟨less, hless⟩
  · have hinto : many ⊆ ids := by
      intro id hid
      obtain ⟨hne, s, hs, hin⟩ := hlisted id hid
      obtain ⟨m, hm, rfl⟩ := List.mem_map.mp hs
      exact (hmem id).mpr ⟨hne, _, List.mem_map_of_mem (hsub hm), hin⟩
    have := (List.Nodup.subperm hnodup hinto).length_le
    omega

theorem peerSetBuild_single (h : confValidate membership = .ok) :
    ∃ ids, peerSetBuild [membership] = .ok ids := by
  have hvalid : ∀ m ∈ [membership], peerSetMembershipValid m = true := by
    intro m hm
    rw [List.mem_singleton.mp hm]
    exact peerSetMembershipValid_of_confValidate h
  rw [peerSetBuild_eq (by simp) (by simp) hvalid]
  rcases peerSetLoop_cases maxMembers _ (memberIds_pairwise hvalid) with
    ⟨ids, hids, _⟩ | ⟨_, many, hmany, hnodup, hlisted⟩
  · exact ⟨ids, hids⟩
  · have hinto : many ⊆ memberIds membership := by
      intro id hid
      obtain ⟨_, s, hs, hin⟩ := hlisted id hid
      simp only [List.map_cons, List.map_nil, List.mem_singleton] at hs
      exact hs ▸ hin
    have hlen := (List.Nodup.subperm hnodup hinto).length_le
    have hmembers := (confValidate_members h).2.1
    rw [memberIds, List.length_map] at hlen
    omega

variable {entries : List Entry} {staged : MembershipTransition}

def confPairs (entries : List Entry) : List (Conf × ℕ) :=
  entries.filterMap fun entry =>
    (confEntryDecode entry).toOption.map fun configuration => (configuration, entry.index)

@[simp] theorem confPairs_nil : confPairs [] = [] := rfl

@[simp] theorem confPairs_append (a b : List Entry) :
    confPairs (a ++ b) = confPairs a ++ confPairs b :=
  List.filterMap_append

theorem confPairs_singleton_ok (h : confEntryDecode entry = .ok configuration) :
    confPairs [entry] = [(configuration, entry.index)] := by
  simp [confPairs, h, Except.toOption]

theorem confPairs_singleton_error {status : Status} (h : confEntryDecode entry = .error status)
    : confPairs [entry] = [] := by
  simp [confPairs, h, Except.toOption]

theorem confEntryDecode_command (h : confEntryIsConfiguration entry = false) :
    confEntryDecode entry = .error .enoent := by
  simp [confEntryDecode, h]

theorem confPairs_index {p : Conf × ℕ} (h : p ∈ confPairs entries) :
    ∃ entry ∈ entries, entry.index = p.2 ∧ confEntryDecode entry = .ok p.1 := by
  obtain ⟨entry, hmem, hsome⟩ := List.mem_filterMap.mp h
  cases hdecode : confEntryDecode entry with
  | error status => simp [hdecode, Except.toOption] at hsome
  | ok configuration =>
    simp only [hdecode, Except.toOption, Option.map_some, Option.some.injEq] at hsome
    subst hsome
    exact ⟨entry, hmem, rfl, hdecode⟩

theorem membershipTransitionStage_above {index : ℕ}
    (habove : ∀ p ∈ transition.pending, p.2 < index)
    (h : membershipTransitionStage transition configuration index = .ok staged) :
    membershipTransitionValidateNext transition configuration = .ok ∧
      staged = { transition with pending := transition.pending ++ [(configuration, index)] } := by
  have hfind : transition.pending.find? (fun p => p.2 == index) = none := by
    rw [List.find?_eq_none]
    intro p hp
    simpa using (habove p hp).ne
  simp only [membershipTransitionStage, hfind] at h
  split_ifs at h
  cases hnext : membershipTransitionValidateNext transition configuration with
  | ok =>
    simp only [hnext] at h
    cases h
    exact ⟨rfl, rfl⟩
  | _ =>
    simp only [hnext] at h
    cases h

def Built (transition : MembershipTransition) : Prop :=
  ∃ ids, coreBuildPeerSet transition = .ok ids

theorem built_of_validateNext {index : ℕ}
    (h : membershipTransitionValidateNext transition configuration = .ok) :
    Built { transition with pending := transition.pending ++ [(configuration, index)] } := by
  obtain ⟨_, _, ⟨ids, hids⟩, _⟩ := validateNext_ok_iff.mp h
  refine ⟨ids, ?_⟩
  rw [← hids]
  simp [coreBuildPeerSet, pendingConfs]

/-- Staging goes on behind a command, and behind a configuration that the transition takes. -/
theorem stageEntries_cons {entry : Entry}
    (h : stageEntries transition (entry :: entries) = .ok staged) :
    (confEntryIsConfiguration entry = false ∧ stageEntries transition entries = .ok staged) ∨
      ∃ configuration next, confEntryDecode entry = .ok configuration ∧
        membershipTransitionStage transition configuration entry.index = .ok next ∧
        stageEntries next entries = .ok staged := by
  unfold stageEntries membershipTransitionStageEntry at h
  cases hkind : confEntryIsConfiguration entry with
  | false =>
    simp only [hkind, Bool.false_eq_true, if_false] at h
    exact Or.inl ⟨rfl, h⟩
  | true =>
    simp only [hkind, if_true] at h
    cases hdecode : confEntryDecode entry with
    | error status => simp [hdecode] at h
    | ok configuration =>
      simp only [hdecode] at h
      cases hstage : membershipTransitionStage transition configuration entry.index with
      | error status => simp [hstage] at h
      | ok next =>
        simp only [hstage] at h
        exact Or.inr ⟨configuration, next, rfl, hstage, h⟩

theorem stageEntries_ok (hascending : entries.Pairwise fun a b => a.index < b.index)
    (habove : ∀ p ∈ transition.pending, ∀ e ∈ entries, p.2 < e.index)
    (h : stageEntries transition entries = .ok staged) :
    staged.committed = transition.committed ∧
      staged.pending = transition.pending ++ confPairs entries ∧
      (Built transition → Built staged) := by
  induction entries generalizing transition with
  | nil =>
    cases h
    simp
  | cons entry rest ih =>
    rw [List.pairwise_cons] at hascending
    have hrest : ∀ p ∈ transition.pending, ∀ e ∈ rest, p.2 < e.index :=
      fun p hp e he => habove p hp e (List.mem_cons_of_mem _ he)
    have hsplit : confPairs (entry :: rest) = confPairs [entry] ++ confPairs rest :=
      confPairs_append [entry] rest
    rcases stageEntries_cons h with ⟨hkind, h⟩ | ⟨configuration, next, hdecode, hstage, h⟩
    · rw [hsplit, confPairs_singleton_error (confEntryDecode_command hkind)]
      exact ih hascending.2 hrest h
    · obtain ⟨hvalid, rfl⟩ := membershipTransitionStage_above
        (fun p hp => habove p hp entry List.mem_cons_self) hstage
      obtain ⟨hcommitted, hpending, hbuilt⟩ := ih hascending.2 (by
        intro p hp e he
        rcases List.mem_append.mp hp with hp | hp
        · exact hrest p hp e he
        · rw [List.mem_singleton.mp hp]
          exact hascending.1 e he) h
      rw [hsplit, confPairs_singleton_ok hdecode]
      refine ⟨hcommitted, ?_, fun _ => hbuilt (built_of_validateNext hvalid)⟩
      rw [hpending, List.append_assoc]

/-- Applying a commit index moves the configurations at or below it to the committed one. -/
theorem applyPending_eq (committed : Conf) (below above : List (Conf × ℕ))
    (hbelow : ∀ p ∈ below, p.2 ≤ commitIndex) (habove : ∀ p ∈ above, commitIndex < p.2) :
    applyPending commitIndex committed (below ++ above) =
      { committed := ((below.map Prod.fst).getLast?).getD committed, pending := above } := by
  induction below generalizing committed with
  | nil =>
    cases above with
    | nil => rfl
    | cons first rest =>
      have hnot : ¬ first.2 ≤ commitIndex := (habove first List.mem_cons_self).not_ge
      simp [applyPending, hnot]
  | cons first rest ih =>
    have hle : first.2 ≤ commitIndex := hbelow first List.mem_cons_self
    simp only [List.cons_append, applyPending, hle, if_true]
    rw [ih first.1 (fun p hp => hbelow p (List.mem_cons_of_mem _ hp))]
    cases hmap : rest.map Prod.fst with
    | nil => simp [hmap]
    | cons second others => simp [hmap, List.getLast?_cons]

/-- Whatever is applied, the configurations left are among those there were. -/
theorem applyPending_subset (committed : Conf) (pending : List (Conf × ℕ)) :
    (applyPending commitIndex committed pending).committed ::
        pendingConfs (applyPending commitIndex committed pending) ⊆
      committed :: pending.map Prod.fst ∧
    (applyPending commitIndex committed pending).pending.length ≤ pending.length := by
  induction pending generalizing committed with
  | nil => exact ⟨List.Subset.refl _, le_rfl⟩
  | cons first rest ih =>
    simp only [applyPending]
    split_ifs
    · obtain ⟨hsub, hlen⟩ := ih first.1
      refine ⟨?_, by simp; omega⟩
      intro c hc
      rcases List.mem_cons.mp (hsub hc) with rfl | hin
      · simp
      · simp [hin]
    · exact ⟨List.Subset.refl _, le_rfl⟩

theorem Built.apply (h : Built transition) (commitIndex : ℕ) :
    Built (membershipTransitionApply transition commitIndex) := by
  obtain ⟨ids, hids⟩ := h
  obtain ⟨hsub, hlen⟩ := applyPending_subset commitIndex transition.committed transition.pending
  have hsize := (peerSetBuild_ok hids).2.1
  refine peerSetBuild_subset hids (by simp) ?_ hsub
  simp only [List.length_cons, pendingConfs, List.length_map] at hsize ⊢
  exact (Nat.succ_le_succ hlen).trans hsize

theorem Built.clear (h : Built transition) : Built { transition with pending := [] } := by
  obtain ⟨ids, hids⟩ := h
  refine peerSetBuild_subset hids (by simp) (by simp [pendingConfs]) ?_
  intro c hc
  simp only [pendingConfs, List.map_nil, List.mem_singleton] at hc
  simp [hc]

end RaftTransitionLemmas
