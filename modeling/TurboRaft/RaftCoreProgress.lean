import TurboRaft.RaftRefinement

/-! # Peers, commit index and log of one core

The peer set follows the transition, a leader settles what a quorum has acknowledged, and
appended entries enter the leader's log. -/
namespace RaftCoreProgress

open RaftTypes RaftConfiguration RaftMembershipTransition RaftLog RaftCoreState RaftCoreStep
open RaftLogLemmas RaftQuorum RaftTransitionLemmas RaftRefinement ConfiguredLog Replication Function

variable {l : List Entry} {p : Conf × ℕ} {a b i : ℕ} {entries : List Entry}
  {transition : MembershipTransition} {log : Log}

variable {M : Mode} {n : NodeId} {g g' : Ghost} {core : Core}

structure Kept (core core' : Core) : Prop where
  selfId : core'.selfId = core.selfId
  term : core'.term = core.term
  votedFor : core'.votedFor = core.votedFor
  log : core'.log = core.log
  commitIndex : core'.commitIndex = core.commitIndex

theorem Kept.refl (core : Core) : Kept core core := ⟨rfl, rfl, rfl, rfl, rfl⟩

theorem Kept.trans {a b c : Core} (h : Kept a b) (h' : Kept b c) : Kept a c :=
  ⟨h'.selfId.trans h.selfId, h'.term.trans h.term, h'.votedFor.trans h.votedFor,
    h'.log.trans h.log, h'.commitIndex.trans h.commitIndex⟩

section Peers

variable {peers : List NodeId}

/-- Refreshing the peers changes the peer table and nothing else that safety depends on. -/
theorem coreRefreshPeers_view (core : Core) (peers : List NodeId) :
    coreView (coreRefreshPeers core peers) = { coreView core with
      peers
      matchIndex := (coreRefreshPeers core peers).matchIndex } := by
  unfold coreRefreshPeers
  split_ifs with hsame hleader
  · rw [beq_iff_eq] at hsame
    rw [← hsame]
    rfl
  · unfold refreshSelf
    cases peerIndex (carriedPeers core peers) (carriedPeers core peers).selfId <;> rfl
  · rfl

theorem coreRefreshPeers_kept (core : Core) (peers : List NodeId) :
    Kept core (coreRefreshPeers core peers) := by
  have hview := coreRefreshPeers_view core peers
  exact ⟨congrArg CoreView.selfId hview, congrArg CoreView.term hview,
    congrArg CoreView.votedFor hview, congrArg CoreView.log hview,
    congrArg CoreView.commitIndex hview⟩

theorem carriedMatch_ok
    (hmatched : ∀ k p, core.peers[k]? = some p → MatchOk g n core.term p (core.matchIndex k))
    {k : ℕ} {p : NodeId} (hp : peers[k]? = some p) :
    MatchOk g n core.term p (carriedMatch core peers k) := by
  unfold carriedMatch
  split_ifs
  · cases hindex : peerSetIndex core.peers ((peers[k]?).getD 0) with
    | none => exact Or.inl (Nat.zero_le _)
    | some old =>
      rw [hp] at hindex
      exact hmatched old p (ascendingIndex_sound hindex).2
  · exact Or.inl (Nat.zero_le _)

theorem matchOk_self (h : GhostOk M g) {t : ℕ} (hleads : g.leader t = some n)
    (hterm : g.term n = t) : MatchOk g n t n (g.log n).length := by
  left
  have hlog := (h.inv.node n).leader_log (by rw [hterm]; exact hleads)
  rw [h.inv.ledger.leader_ack _ _ hleads, hlog, hterm]

theorem coreBase_refresh (h : GhostOk M g) (hc : CoreBase M g n (coreView core))
    (hrole : core.role ≠ .candidate)
    (hbuild : coreBuildPeerSet core.membershipTransition = .ok peers) :
    CoreOk M g n (coreView (coreRefreshPeers core peers)) := by
  rw [coreRefreshPeers_view]
  refine { hc with
    leader := fun hleader => { hc.leader hleader with matched := ?_ }
    candidate := fun hcand => absurd hcand hrole
    peers := hbuild }
  intro k p hp
  have hl := hc.leader hleader
  have hlead : core.role = .leader := hleader
  unfold coreRefreshPeers
  split_ifs with hsame hnot
  · rw [beq_iff_eq] at hsame
    subst hsame
    exact hl.matched k p hp
  · have hcarried := carriedMatch_ok hl.matched hp
    unfold refreshSelf
    cases hself : peerIndex (carriedPeers core peers) (carriedPeers core peers).selfId with
    | none => exact hcarried
    | some self =>
      change MatchOk g n core.term p (update (carriedMatch core peers) self
        (logLastIndex core.log) k)
      by_cases hk : k = self
      · subst hk
        have hpn : p = n := by
          have hindex : peers[k]? = some core.selfId := (ascendingIndex_sound hself).2
          rw [← hc.self_id]
          exact Option.some.inj (hp.symm.trans hindex)
        rw [update_self, hpn, hc.represents.lastIndex]
        exact matchOk_self h hl.leads hc.term_now
      · rw [update_of_ne hk]
        exact hcarried
  · exact absurd (by simp [hlead]) hnot

theorem observe_same (hterm : g.term n = core.term) : g.observe n core.term = g := by
  unfold Chronicle.observe
  rw [← hterm, update_eq_self]

theorem coreBase_sync (h : GhostOk M g) (hc : CoreBase M g n (coreView core))
    (hrole : core.role ≠ .candidate) :
    ∃ synced, coreSyncMembership core = .ok synced ∧ CoreOk M g n (coreView synced) ∧
      Kept core synced ∧ synced.role ≠ .candidate := by
  obtain ⟨peers, hbuild⟩ : Built core.membershipTransition := hc.built
  have hrefreshed := coreBase_refresh h hc hrole hbuild
  have hkept := coreRefreshPeers_kept core peers
  have hrefreshedRole : (coreRefreshPeers core peers).role = core.role :=
    congrArg CoreView.role (coreRefreshPeers_view core peers)
  have hterm := hrefreshed.durable.term_eq
  simp only [coreSyncMembership, hbuild]
  split_ifs with hdown
  · have hfollower := (hrefreshed.follow h le_rfl).2
    rw [observe_same hterm] at hfollower
    refine ⟨_, rfl, hfollower, ⟨hkept.selfId, ?_, ?_, hkept.log, hkept.commitIndex⟩, ?_⟩
    · simp [becomeFollower, readResetAll, readClearActive, hkept.term]
    · simp [becomeFollower, readResetAll, readClearActive, hkept.votedFor]
    · exact fun hcand => Role.noConfusion hcand
  · refine ⟨_, rfl, hrefreshed, ⟨hkept.selfId, hkept.term, hkept.votedFor, hkept.log,
      hkept.commitIndex⟩, ?_⟩
    rw [hrefreshedRole]
    exact hrole

end Peers

theorem confPairs_ascending (h : l.Pairwise fun a b => a.index < b.index) :
    (confPairs l).Pairwise fun a b => a.2 < b.2 := by
  refine List.Pairwise.filterMap _ ?_ h
  intro a b hab p hp q hq
  obtain ⟨_, _, rfl⟩ := Option.map_eq_some_iff.mp hp
  obtain ⟨_, _, rfl⟩ := Option.map_eq_some_iff.mp hq
  exact hab

theorem confPairs_above (h : WellFormed l) (hp : p ∈ confPairs (l.drop i)) : i < p.2 := by
  obtain ⟨e, he, hindex, _⟩ := confPairs_index hp
  obtain ⟨k, hk⟩ := List.mem_iff_getElem?.mp he
  rw [List.getElem?_drop] at hk
  have := (h _ e hk).1
  omega

theorem confPairs_below (h : WellFormed l) (hp : p ∈ confPairs (l.take i)) : p.2 ≤ i := by
  obtain ⟨e, he, hindex, _⟩ := confPairs_index hp
  obtain ⟨k, hk⟩ := List.mem_iff_getElem?.mp he
  obtain ⟨hlt, _⟩ := List.getElem?_eq_some_iff.mp hk
  rw [List.length_take] at hlt
  rw [List.getElem?_take_of_lt (by omega)] at hk
  have := (h _ e hk).1
  omega

theorem drop_split (l : List Entry) (hab : a ≤ b) : l.drop a = (l.take b).drop a ++ l.drop b := by
  rcases Nat.lt_or_ge l.length b with hlt | hge
  · rw [List.take_of_length_le hlt.le, List.drop_eq_nil_of_le hlt.le, List.append_nil]
  · conv_lhs => rw [← List.take_append_drop b l]
    rw [List.drop_append_of_le_length (by rw [List.length_take]; omega)]

theorem confPairs_between (h : WellFormed l) (hp : p ∈ confPairs ((l.take b).drop a)) : p.2 ≤ b := by
  apply confPairs_below h
  rw [confPairs_split _ a]
  exact List.mem_append_right _ hp

theorem apply_conf (M : Mode) (h : WellFormed l) (hab : a ≤ b)
    (hcommitted : transition.committed = M.scheme.conf (l.take a))
    (hpending : transition.pending = confPairs (l.drop a)) :
    membershipTransitionApply transition b =
      { committed := M.scheme.conf (l.take b), pending := confPairs (l.drop b) } := by
  have hconf : M.scheme.conf (l.take b) =
      ((M.scheme.confs ((l.take b).drop a)).getLast?).getD (M.scheme.conf (l.take a)) := by
    rw [← conf_append]
    congr 1
    have := List.take_append_drop a (l.take b)
    rw [List.take_take, Nat.min_eq_left hab] at this
    exact this.symm
  have hconfs : M.scheme.confs ((l.take b).drop a) =
      (confPairs ((l.take b).drop a)).map Prod.fst := confs_eq_confPairs _
  unfold membershipTransitionApply
  rw [hpending, drop_split l hab, confPairs_append, hcommitted, applyPending_eq b _ _ _
    (fun p hp => confPairs_between h hp) (fun p hp => confPairs_above h hp), hconf, hconfs]

theorem commitLimit_le (transition : MembershipTransition) (candidate : ℕ) :
    membershipTransitionCommitLimit transition candidate ≤ candidate := by
  unfold membershipTransitionCommitLimit
  split
  · exact le_rfl
  · split_ifs <;> omega

theorem commitLimit_le_pending {first : Conf × ℕ} {rest : List (Conf × ℕ)}
    (h : transition.pending = first :: rest) (candidate : ℕ) :
    membershipTransitionCommitLimit transition candidate ≤ first.2 := by
  unfold membershipTransitionCommitLimit
  rw [h]
  dsimp only
  split_ifs <;> omega

theorem confPairs_within_limit (h : WellFormed l) {candidate : ℕ}
    (hpending : transition.pending = confPairs (l.drop a)) (hab : a ≤ b)
    (hb : b ≤ membershipTransitionCommitLimit transition candidate) :
    (confPairs ((l.take b).drop a)).length ≤ 1 := by
  have hsplit := hpending
  rw [drop_split l hab, confPairs_append] at hsplit
  match hpairs : confPairs ((l.take b).drop a) with
  | [] | [_] => simp
  | first :: second :: rest =>
    rw [hpairs] at hsplit
    have hfirst := commitLimit_le_pending hsplit candidate
    have hsecond : second.2 ≤ b := by
      apply confPairs_between h (a := a)
      rw [hpairs]
      simp
    have hascending := confPairs_ascending
      ((h.ascending.sublist (List.take_sublist b l)).sublist (List.drop_sublist a _))
    rw [hpairs, List.pairwise_cons] at hascending
    have := hascending.1 second (by simp)
    omega

theorem commitCandidate_some {limit : ℕ} (h : commitCandidate core limit = some i) :
    core.commitIndex < i ∧ i ≤ limit ∧ (∃ e, logGet core.log i = some e ∧ e.term = core.term) ∧
      coreMatchQuorum core i = true := by
  induction limit with
  | zero => simp [commitCandidate] at h
  | succ limit ih =>
    unfold commitCandidate at h
    split_ifs at h with hdone hfound
    · cases h
      rw [Bool.and_eq_true, Option.any_eq_true] at hfound
      obtain ⟨⟨e, he, hterm⟩, hquorum⟩ := hfound
      exact ⟨by omega, le_rfl, ⟨e, he, by simpa using hterm⟩, hquorum⟩
    · obtain ⟨h1, h2, h3, h4⟩ := ih h
      exact ⟨h1, by omega, h3, h4⟩

theorem coreOk_commitTo (hc : CoreOk M g n (coreView core)) {g₁ : Ghost} (hadv : Advance M n g g₁)
    (hterm : g₁.term n = g.term n) (hvote : g₁.vote n = g.vote n) (hlog : g₁.log n = g.log n)
    (hknown : g₁.known n = M.known i) (hle : core.commitIndex ≤ i) (hbound : i ≤ (g.log n).length)
    (hrole : core.role ≠ .candidate)
    (happlied : (membershipTransitionApply core.membershipTransition i).committed =
      M.scheme.conf ((g.log n).take i))
    (hleader : core.role = .leader →
      (membershipTransitionApply core.membershipTransition i).pending =
        confPairs ((g.log n).drop i) ∧ ∀ r ∈ g₁.records, r.term = core.term → r.index ≤ i) :
    ∃ core', advanceCommit core i = (.ok, core') ∧ CoreOk M g₁ n (coreView core') ∧
      Kept { core with commitIndex := i } core' ∧ core'.role ≠ .candidate := by
  have hbase : CoreBase M g₁ n (coreView { core with
      commitIndex := i
      membershipTransition := membershipTransitionApply core.membershipTransition i }) := by
    constructor
    case durable =>
      constructor
      case term_eq => exact hterm.trans hc.durable.term_eq
      case vote_eq =>
        rw [hvote]
        exact hc.durable.vote_eq
      case log_rep =>
        rw [hlog]
        exact hc.durable.log_rep
      case base_le => exact hc.base_le_commit.trans hle
      case commit_le =>
        rw [hlog]
        exact hbound
      case known_eq => exact hknown
    case self => exact hc.self
    case named => exact hc.named
    case conf =>
      rw [hlog]
      exact happlied
    case built => exact Built.apply hc.built i
    case plain =>
      intro hf
      have hnone : core.membershipTransition.pending = [] := hc.plain hf
      change (applyPending i core.membershipTransition.committed
        core.membershipTransition.pending).pending = []
      rw [hnone]
      rfl
    case leader =>
      intro hlead
      have hl := hc.leader hlead
      obtain ⟨hpending, hown⟩ := hleader hlead
      refine ⟨hadv.ext.book.leader _ _ hl.leads, ?_, ?_, hown⟩
      · exact fun k p hp => (hl.matched k p hp).extend hadv.ext
      · rw [hlog]
        exact hpending
    case candidate => exact fun hcand => absurd hcand hrole
    case preCandidate => exact hc.preCandidate
  obtain ⟨synced, hsync, hok, hkept, hnot⟩ := coreBase_sync hadv.ok hbase hrole
  refine ⟨synced, ?_, hok, ?_, hnot⟩
  · simp only [RaftCoreStep.advanceCommit, hsync]
  · exact ⟨hkept.selfId, hkept.term, hkept.votedFor, hkept.log, hkept.commitIndex⟩

theorem coreOk_record_ok (h : GhostOk M g) (hc : CoreOk M g n (coreView core))
    (hrole : core.role = .leader)
    (hcand : commitCandidate core (membershipTransitionCommitLimit core.membershipTransition
      (logLastIndex core.log)) = some i) :
    RecordOk M.scheme g.toBook g.records ⟨core.term, i, g.known n⟩ ∧
      ∀ q ∈ g.records, q.term = core.term → M.scheme.confCount (g.settled q) ≤
        M.scheme.confCount ((g.history core.term).take (g.known n)) := by
  have hl := hc.leader hrole
  have hleads : g.leader core.term = some n := hl.leads
  have hnow := hc.term_now
  have hlog : g.log n = g.history core.term := by
    rw [← hnow]
    exact (h.inv.node n).leader_log (by rw [hnow]; exact hleads)
  obtain ⟨habove, hlimit, ⟨e, hget, hterm⟩, hquorum⟩ := commitCandidate_some hcand
  have hlast := hc.represents.lastIndex
  have hbound : i ≤ (g.log n).length := by
    have := commitLimit_le core.membershipTransition (logLastIndex core.log)
    omega
  have hknown : g.known n ≤ core.commitIndex := by
    rw [hc.known_commit]
    exact M.known_le _
  have hentry : (g.log n)[i - 1]? = some e := by
    rwa [hc.represents.get, if_pos (by have := hc.base_le_commit; omega)] at hget
  -- how many configurations lie between the known index and the new one
  have hcount : M.scheme.confCount ((g.log n).take i) ≤
        M.scheme.confCount ((g.log n).take (g.known n)) + 1 ∧
      ∀ q ∈ g.records, q.term = core.term → M.scheme.confCount ((g.log n).take q.index) ≤
        M.scheme.confCount ((g.log n).take (g.known n)) := by
    cases hfixed : M.fixed with
    | true =>
      have hnone : ∀ k, M.scheme.confCount ((g.log n).take k) = 0 := by
        intro k
        rw [confCount_eq_confPairs, confPairs_shorten (List.take_prefix _ _) (h.log_plain hfixed n)]
        rfl
      simp [hnone]
    | false =>
      have htracked : M.tracked = true := M.follows.resolve_left (by simp [hfixed])
      have heq : g.known n = core.commitIndex := by
        rw [hc.known_commit, Mode.known, if_pos htracked]
      rw [heq]
      constructor
      · have hone := confPairs_within_limit (h.log_formed n) hl.pending habove.le hlimit
        have hsplit := confPairs_split ((g.log n).take i) core.commitIndex
        rw [List.take_take, Nat.min_eq_left habove.le] at hsplit
        rw [confCount_eq_confPairs, confCount_eq_confPairs, hsplit, List.length_append]
        exact Nat.add_le_add_left hone _
      · intro q hq hqterm
        apply confCount_mono
        exact List.take_prefix_take_left (hl.own q hq hqterm)
  constructor
  · constructor
    case led => simp [hleads]
    case fresh =>
      have hpre : (g.log n).take (i - 1) ++ [e] <+: g.history core.term := by
        have hsnoc : (g.log n).take (i - 1) ++ [e] = (g.log n).take (i - 1 + 1) := by
          rw [List.take_add_one, hentry]
          rfl
        rw [hsnoc, ← hlog]
        exact List.take_prefix _ _
      have := h.inv.ledger.opening_le_of_term (by simp [hleads]) hpre hterm
      rw [List.length_take] at this
      change (g.opening core.term).length < i
      omega
    case bound =>
      rw [← hlog]
      exact hbound
    case base_le => exact hknown.trans habove.le
    case quorum =>
      refine ⟨{ p | i ≤ g.ack p core.term }, ?_, fun p hp => hp⟩
      rw [← hlog, hc.toCoreBase.conf_known h]
      refine (coreMatchQuorum_sound hquorum ?_).2
      intro k p hp hmatch
      rcases hl.matched k p hp with hack | ⟨_, hleader⟩
      · exact hmatch.trans hack
      · have : core.matchIndex k ≤ g.known n := hleader
        omega
    case single =>
      change M.scheme.confCount ((g.history core.term).take i) ≤ _
      rw [← hlog]
      exact hcount.1
    case certified =>
      have := (h.inv.node n).known_certified
      rw [hnow, hlog] at this
      exact this
  · intro q hq hqterm
    have := hcount.2 q hq hqterm
    rw [hlog] at this
    unfold Book.settled
    rw [hqterm]
    exact this

theorem coreOk_leaderCommit (h : GhostOk M g) (hc : CoreOk M g n (coreView core))
    (hrole : core.role = .leader)
    (hcand : commitCandidate core (membershipTransitionCommitLimit core.membershipTransition
      (logLastIndex core.log)) = some i) :
    ∃ g' core', Advance M n g g' ∧ advanceCommit core i = (.ok, core') ∧
      CoreOk M g' n (coreView core') ∧ Kept { core with commitIndex := i } core' ∧
      core'.role ≠ .candidate ∧ ∃ r ∈ g'.records, r.term = core.term ∧ r.index = i := by
  have hl := hc.leader hrole
  have hleads : g.leader core.term = some n := hl.leads
  have hnow := hc.term_now
  obtain ⟨hok, hown⟩ := coreOk_record_ok h hc hrole hcand
  have hsettle := advance_settle h hleads hok hown
  obtain ⟨habove, _, _, _⟩ := commitCandidate_some hcand
  have hlog : g.log n = g.history core.term := by
    rw [← hnow]
    exact (h.inv.node n).leader_log (by rw [hnow]; exact hleads)
  have hbound : i ≤ (g.log n).length := by
    rw [hlog]
    exact hok.bound
  have hlearn : Advance M n (g.settle ⟨core.term, i, g.known n⟩)
      (M.learn (g.settle ⟨core.term, i, g.known n⟩) n i) := by
    refine M.advance_learn hsettle.ok hok.base_le hbound ?_
    intro _
    refine Or.inr ⟨_, List.mem_cons_self, ?_, ?_⟩
    · change core.term < g.term n + 1
      omega
    · change (g.log n).take i <+: (g.history core.term).take i
      rw [hlog]
  have hadv := hsettle.trans hlearn
  obtain ⟨hterm, hlogs, hbook⟩ := M.learn_same (g.settle ⟨core.term, i, g.known n⟩) n i
  have hrecords : (M.learn (g.settle ⟨core.term, i, g.known n⟩) n i).records =
      ⟨core.term, i, g.known n⟩ :: g.records := congrArg Book.records hbook
  have happly := apply_conf M (h.log_formed n) habove.le hc.committed hl.pending
  obtain ⟨core', hadvance, hcore, hkept, hnot⟩ := coreOk_commitTo hc hadv
    (by rw [hterm]; rfl) (congrArg (fun b => b.vote n) hbook) (by rw [hlogs]; rfl)
    (M.learn_known (g := g.settle _) hc.known_commit i) habove.le hbound
    (by rw [hrole]; exact Role.noConfusion)
    (by rw [happly]) (by
      intro _
      refine ⟨by rw [happly], ?_⟩
      intro r hr hrterm
      rw [hrecords] at hr
      rcases List.mem_cons.mp hr with rfl | hr
      · exact le_rfl
      · exact (hl.own r hr hrterm).trans habove.le)
  exact ⟨_, core', hadv, hadvance, hcore, hkept, hnot, _, by rw [hrecords]; exact List.mem_cons_self,
    rfl, rfl⟩

theorem coreOk_matchSelf (h : GhostOk M g) (hc : CoreOk M g n (coreView core)) (self : Option ℕ)
    (hself : ∀ k, self = some k → core.peers[k]? = some core.selfId) (hi : i = (g.log n).length)
    : CoreOk M g n (coreView (matchSelf core self i)) := by
  cases self with
  | none => exact hc
  | some k =>
    have hpeer := hself k rfl
    rw [hc.self_id] at hpeer
    refine hc.matchPeer hpeer ?_
    intro hrole
    rw [hi]
    exact matchOk_self h (hc.leader hrole).leads hc.term_now

theorem matchSelf_kept (core : Core) (self : Option ℕ) (i : ℕ) :
    Kept core (RaftCoreStep.matchSelf core self i) := by
  cases self <;> exact ⟨rfl, rfl, rfl, rfl, rfl⟩

theorem matchSelf_role (core : Core) (self : Option ℕ) (i : ℕ) :
    (RaftCoreStep.matchSelf core self i).role = core.role := by
  cases self <;> rfl

theorem coreOk_grown (hc : CoreOk M g n (coreView core)) {g₁ : Ghost} (hadv : Advance M n g g₁)
    (hterm : g₁.term n = g.term n) (hvote : g₁.vote n = g.vote n) (hknown : g₁.known n = g.known n)
    (hlog : g₁.log n = g.log n ++ entries) (hrole : core.role = .leader)
    (hrecords : g₁.records = g.records)
    (hrep : log = { core.log with entries := core.log.entries ++ entries })
    (hcommitted : transition.committed = core.membershipTransition.committed)
    (hpending : transition.pending = core.membershipTransition.pending ++ confPairs entries)
    (hbuilt : Built transition) (hplain : M.fixed = true → confPairs entries = []) :
    CoreBase M g₁ n (coreView { core with log, membershipTransition := transition }) := by
  have hl := hc.leader hrole
  have hlead : core.role = .leader := hrole
  constructor
  case durable =>
    constructor
    case term_eq => exact hterm.trans hc.durable.term_eq
    case vote_eq =>
      rw [hvote]
      exact hc.durable.vote_eq
    case log_rep =>
      rw [hlog]
      rw [hrep]
      exact hc.represents.append entries
    case base_le =>
      rw [hrep]
      exact hc.base_le_commit
    case commit_le =>
      rw [hlog, List.length_append]
      exact hc.commit_le_length.trans (Nat.le_add_right _ _)
    case known_eq => exact hknown.trans hc.durable.known_eq
  case self => exact hc.self
  case named => exact hc.named
  case conf =>
    change transition.committed = M.scheme.conf ((g₁.log n).take core.commitIndex)
    rw [hlog, List.take_append_of_le_length hc.commit_le_length, hcommitted]
    exact hc.committed
  case built => exact hbuilt
  case plain =>
    intro hf
    change transition.pending = []
    rw [hpending, hplain hf, List.append_nil]
    exact hc.plain hf
  case leader =>
    intro _
    refine ⟨hadv.ext.book.leader _ _ hl.leads, ?_, ?_, ?_⟩
    · exact fun k p hp => (hl.matched k p hp).extend hadv.ext
    · change transition.pending = confPairs ((g₁.log n).drop core.commitIndex)
      rw [hlog, List.drop_append_of_le_length hc.commit_le_length, confPairs_append, hpending]
      exact congrArg (· ++ confPairs entries) hl.pending
    · rw [hrecords]
      exact hl.own
  case candidate =>
    intro hcand
    exact absurd (hlead.symm.trans hcand) (by decide)
  case preCandidate =>
    intro hpre
    exact absurd (hlead.symm.trans hpre) (by decide)

theorem confPairs_commands (h : ∀ e ∈ entries, e.commandId ≠ 0) : confPairs entries = [] := by
  refine List.filterMap_eq_nil_iff.mpr ?_
  intro e he
  have hkind : confEntryIsConfiguration e = false := by
    simpa [confEntryIsConfiguration] using h e he
  rw [confEntryDecode_command hkind]
  rfl

theorem coreOk_appendCommands (h : GhostOk M g) (hc : CoreOk M g n (coreView core))
    (hrole : core.role = .leader) {proposals : List Proposal}
    (hok : logAppendLocalBatch core.log core.term proposals = .ok (log, entries)) :
    ∃ g₁, Advance M n g g₁ ∧ CoreOk M g₁ n (coreView { core with log }) ∧
      log = { core.log with entries := core.log.entries ++ entries } ∧
      logLastIndex log = (g₁.log n).length := by
  obtain ⟨hlog, _, _, hentries⟩ := logAppendLocalBatch_ok hok
  have hnow := hc.term_now
  have hlast := hc.represents.lastIndex
  have hmem : ∀ e ∈ entries, e.term = core.term ∧ e.commandId ≠ 0 := by
    intro e he
    obtain ⟨i, hi⟩ := List.mem_iff_getElem?.mp he
    exact (hentries i e hi).2
  obtain ⟨g₁, hadv, hlog₁, hterm, hknown, hvote, _, hrecords⟩ := advance_commands h
    (by rw [hnow]; exact (hc.leader hrole).leads) entries
    (by rw [hnow]; exact fun e he => (hmem e he).1) (fun e he => (hmem e he).2)
    (by rw [← hlast]; exact fun i e he => (hentries i e he).1)
  have hnone := confPairs_commands fun e he => (hmem e he).2
  have hbase := coreOk_grown hc hadv (congrFun hterm n) (congrFun hvote n) (congrFun hknown n) hlog₁ hrole
    hrecords hlog rfl (by rw [hnone, List.append_nil]) hc.built (fun _ => hnone)
  refine ⟨g₁, hadv, ⟨hbase, hc.peers⟩, hlog, ?_⟩
  exact Represents.lastIndex hbase.durable.log_rep

theorem coreOk_appendConfiguration (h : GhostOk M g) (hc : CoreOk M g n (coreView core))
    (hrole : core.role = .leader) (hfixed : M.fixed = false) {configuration : Conf}
    {staged : MembershipTransition} {entry : Entry}
    (hstage : membershipTransitionStage core.membershipTransition configuration
      (logLastIndex core.log + 1) = .ok staged)
    (hok : logAppendConfiguration core.log core.term configuration = .ok (log, entry)) :
    ∃ g₁, Advance M n g g₁ ∧
      CoreBase M g₁ n (coreView { core with log, membershipTransition := staged }) ∧
      log = { core.log with entries := core.log.entries ++ [entry] } ∧
      entry.index = (g₁.log n).length := by
  have hl := hc.leader hrole
  have hnow := hc.term_now
  have hlast := hc.represents.lastIndex
  obtain ⟨hlog, hdecode, hentry, hterm⟩ := logAppendConfiguration_ok hok
  have hpending : core.membershipTransition.pending = confPairs ((g.log n).drop core.commitIndex) :=
    hl.pending
  have habove : ∀ p ∈ core.membershipTransition.pending, p.2 < logLastIndex core.log + 1 := by
    intro p hp
    rw [hpending] at hp
    rw [hlast]
    have hin : p ∈ confPairs ((g.log n).take (g.log n).length) := by
      rw [List.take_length, confPairs_split _ core.commitIndex]
      exact List.mem_append_right _ hp
    exact Nat.lt_succ_of_le (confPairs_below (h.log_formed n) hin)
  obtain ⟨hvalid, hstaged⟩ := membershipTransitionStage_above habove hstage
  have hpairs : confPairs [entry] = [(configuration, logLastIndex core.log + 1)] := by
    rw [confPairs_singleton_ok hdecode, hentry.1]
  have hadv : Advance M n g (g.append n entry) := by
    refine advance_append h (by rw [hnow]; exact hl.leads) (by rw [hnow]; exact hterm)
      (by rw [← hlast]; exact hentry) (fun hf => by rw [hfixed] at hf; cases hf) ?_
    intro k hk
    cases hdecode.symm.trans hk
    rw [← hc.transitionBase_eq hrole]
    exact overlap_of_validateNext hc.toCoreBase.committed_valid hvalid
  have hlog₁ : (g.append n entry).log n = g.log n ++ [entry] := by simp [Chronicle.append]
  refine ⟨_, hadv, ?_, hlog, ?_⟩
  · refine coreOk_grown hc hadv rfl rfl rfl hlog₁ hrole rfl hlog ?_ ?_ ?_ ?_
    · rw [hstaged]
    · rw [hstaged, hpairs]
    · rw [hstaged]
      exact built_of_validateNext hvalid
    · intro hf
      rw [hfixed] at hf
      cases hf
  · rw [hlog₁, List.length_append, ← hlast]
    exact hentry.1

end RaftCoreProgress
