import TurboRaft.RaftCoreProgress

/-! # Requests of a leader

What a follower does with a heartbeat or append request: it follows the term, takes over
the entries, rebuilds its pending configurations from the request and moves its commit
index. The commit index is certified when the request covers it. -/
namespace RaftFollowerProgress

open RaftTypes RaftMembershipTransition RaftLog RaftCoreState RaftCoreStep RaftLogLemmas
open RaftTransitionLemmas RaftCoreProgress RaftRefinement RaftLogReconcile ConfiguredLog Replication

variable {source : List Entry} {m : Message} {transition : MembershipTransition}

variable {M : Mode} {n : NodeId} {g g' : Ghost} {core : Core}

/-- The commit index a matching request leads to lies within the entries it vouches for. -/
def commitCovered (core : Core) (m : Message) : Bool :=
  decide (m.term < core.term) || decide (m.leaderCommit ≤ core.commitIndex) ||
    match logReconcile core.log m.previousLogIndex m.previousLogTerm m.entries core.commitIndex with
    | .error _ => true
    | .ok (_, r) =>
      !r.matched || r.changed ||
        decide (min m.leaderCommit (logLastIndex core.log) ≤ m.previousLogIndex + m.entries.length)

section Rebuild

variable {previous : ℕ}

theorem filterMap_range' (l : List Entry) (a k : ℕ) :
    (List.range' (a + 1) k).filterMap (fun i => l[i - 1]?) = (l.drop a).take k := by
  induction k generalizing a with
  | zero => simp
  | succ k ih =>
    rw [List.range'_succ, List.filterMap_cons]
    rcases Nat.lt_or_ge a l.length with hlt | hge
    · have hget : l[a + 1 - 1]? = some l[a] := by simp [hlt]
      rw [hget, ih (a + 1), List.drop_eq_getElem_cons hlt, List.take_succ_cons]
    · have hget : l[a + 1 - 1]? = none := by simp [hge]
      rw [hget, ih (a + 1), List.drop_eq_nil_of_le hge, List.drop_eq_nil_of_le (by omega)]
      simp

theorem filter_above (l : List Entry) (start commitIndex : ℕ)
    (hindex : ∀ i e, l[i]? = some e → e.index = start + i + 1) :
    l.filter (fun e => decide (commitIndex < e.index)) = l.drop (commitIndex - start) := by
  induction l generalizing start with
  | nil => simp
  | cons e rest ih =>
    have he : e.index = start + 1 := hindex 0 e rfl
    have hrest := ih (start + 1) (by
      intro i x hx
      have := hindex (i + 1) x (by simpa using hx)
      omega)
    rw [List.filter_cons, hrest]
    rcases Nat.lt_or_ge start commitIndex with hlt | hge
    · have hout : ¬ commitIndex < e.index := by omega
      have hstep : commitIndex - start = (commitIndex - (start + 1)) + 1 := by omega
      rw [hstep]
      simp [hout]
    · have hin : commitIndex < e.index := by omega
      have hzero : commitIndex - start = 0 := by omega
      have hzero' : commitIndex - (start + 1) = 0 := by omega
      simp [hin, hzero, hzero']

/-- Kept and incoming entries above the commit index are a stretch of the leader's log. -/
theorem rebuilt_entries {full incoming : List Entry} (hrep : Represents core.log full)
    (hbase : core.log.baseIndex ≤ core.commitIndex) (hsource : WellFormed source)
    (hincoming : incoming = (source.drop previous).take incoming.length)
    (hbound : previous + incoming.length ≤ source.length) (hlen : previous ≤ full.length)
    (hsame : full.take previous = source.take previous) :
    retainedEntries core previous ++
        incoming.filter (fun entry => decide (core.commitIndex < entry.index)) =
      (source.take (previous + incoming.length)).drop core.commitIndex := by
  have hretained : retainedEntries core previous = (full.take previous).drop core.commitIndex := by
    unfold retainedEntries
    rw [hrep.lastIndex, Nat.min_eq_left hlen, List.drop_take, ← filterMap_range']
    refine List.filterMap_congr ?_
    intro i hi
    rw [List.mem_range'_1] at hi
    rw [hrep.get, if_pos (by omega)]
  have hfilter : incoming.filter (fun entry => decide (core.commitIndex < entry.index)) =
      incoming.drop (core.commitIndex - previous) := by
    refine filter_above incoming previous core.commitIndex ?_
    intro i e he
    obtain ⟨hi, _⟩ := List.getElem?_eq_some_iff.mp he
    rw [hincoming, List.getElem?_take_of_lt hi, List.getElem?_drop] at he
    exact (hsource _ e he).1
  have hsplit : source.take (previous + incoming.length) = source.take previous ++ incoming := by
    rw [List.take_add]
    exact congrArg _ hincoming.symm
  have hlength : (source.take previous).length = previous := by
    rw [List.length_take]
    omega
  rw [hretained, hfilter, hsplit, hsame, List.drop_append, hlength]

theorem rebuild_ok {full incoming : List Entry} (hrep : Represents core.log full)
    (hbase : core.log.baseIndex ≤ core.commitIndex) (hsource : WellFormed source)
    (hincoming : incoming = (source.drop previous).take incoming.length)
    (hbound : previous + incoming.length ≤ source.length) (hlen : previous ≤ full.length)
    (hsame : full.take previous = source.take previous) (hbuilt : Built core.membershipTransition)
    (hok : coreRebuildPendingTransition core previous incoming = .ok transition) :
    transition.committed = core.membershipTransition.committed ∧
      transition.pending =
        confPairs ((source.take (previous + incoming.length)).drop core.commitIndex) ∧
      Built transition := by
  unfold coreRebuildPendingTransition at hok
  rw [rebuilt_entries hrep hbase hsource hincoming hbound hlen hsame] at hok
  have hascending := (hsource.ascending.sublist
    (List.take_sublist (previous + incoming.length) _)).sublist
      (List.drop_sublist core.commitIndex _)
  obtain ⟨hcommitted, hpending, hstaged⟩ := stageEntries_ok hascending
    (fun p hp => by cases hp) hok
  exact ⟨hcommitted, hpending, hstaged (Built.clear hbuilt)⟩

end Rebuild

section Accept

variable {r : ReconcileResult}

structure Taken (g : Ghost) (n : NodeId) (m : Message) (core : Core) (log : Log)
    (r : ReconcileResult) (taken : List Entry) : Prop where
  slice : SliceOk g m
  reach : m.previousLogIndex ≤ (g.log n).length
  same : (g.log n).take m.previousLogIndex = (g.history m.term).take m.previousLogIndex
  replaces : Replaces (g.log n)
    ((g.history m.term).take (m.previousLogIndex + m.entries.length)) taken
  keeps : (g.log n).take core.commitIndex <+: taken
  represents : Represents log taken
  base : log.baseIndex = core.log.baseIndex ∧ log.baseTerm = core.log.baseTerm
  unchanged : r.changed = false → log = core.log ∧ taken = g.log n
  changed : r.changed = true →
    taken.length = m.previousLogIndex + m.entries.length ∧
      persisted core.log.entries core.log.baseIndex log r = log.entries

theorem coreOk_reconcile_request (h : GhostOk M g) (hc : CoreOk M g n (coreView core))
    (hreq : RequestOk M g m) {log : Log}
    (hok : logReconcile core.log m.previousLogIndex m.previousLogTerm m.entries core.commitIndex =
      .ok (log, r)) (hmatched : r.matched = true) : ∃ taken, Taken g n m core log r taken := by
  have hrep := hc.represents
  obtain ⟨hmatch, _⟩ := logReconcile_matches hok
  rw [hmatched] at hmatch
  obtain ⟨_, hlen, hterm⟩ := (hrep.matches_iff _ _).mp hmatch
  rcases hreq.slice with hslice | hvoid
  · have hsame : (g.log n).take m.previousLogIndex =
        (g.history m.term).take m.previousLogIndex := by
      refine sound_matching (h.inv.node n).log_sound (h.inv.ledger.history_sound m.term) hlen
        (by have := hslice.bound; omega) ?_
      exact hterm.trans hslice.previous
    have hlength : ((g.history m.term).take (m.previousLogIndex + m.entries.length)).length =
        m.previousLogIndex + m.entries.length := List.length_take_of_le hslice.bound
    have hcases := logReconcile_cases hrep (h.formed m.term) hslice.entries (fun _ _ => hsame)
      (hrep.lastIndex.symm ▸ hc.commit_le_length) hok
    cases hcases with
    | mismatch _ hfalse => rw [hmatched] at hfalse; cases hfalse
    | kept _ _ hunchanged hhas =>
      exact ⟨g.log n, hslice, hlen, hsame, Or.inl ⟨hhas, rfl⟩, List.take_prefix _ _, hrep,
        ⟨rfl, rfl⟩, fun _ => ⟨rfl, rfl⟩, fun hf => Bool.noConfusion (hunchanged.symm.trans hf)⟩
    | replaced _ _ _ hchanged hlacks hrepresents hbase hkept hstored =>
      exact ⟨_, hslice, hlen, hsame, Or.inr ⟨hlacks, rfl⟩, hkept, hrepresents, hbase,
        fun hf => Bool.noConfusion (hchanged.symm.trans hf), fun _ => ⟨hlength, hstored⟩⟩
  · exact absurd (hterm.trans hvoid.term)
      (endTerm_take_ne_zero (h.log_formed n) hvoid.index hlen)

theorem coreOk_accept (h : GhostOk M g) (hc : CoreOk M g n (coreView core)) (hreq : RequestOk M g m)
    (hfrom : m.fromId ≠ n) (hterm : core.term ≤ m.term) {log : Log}
    {taken : List Entry} (htaken : Taken g n m core log r taken)
    (htransition : coreRebuildPendingTransition core m.previousLogIndex m.entries = .ok transition)
    :
    ∃ g₁, Advance M n g g₁ ∧
      CoreBase M g₁ n (coreView { acceptLeader core m log with membershipTransition := transition }) ∧
      g₁.log n = taken ∧ g₁.history = g.history ∧ g₁.records = g.records ∧
      m.previousLogIndex + m.entries.length ≤ g₁.ack n m.term ∧
      transition.committed = core.membershipTransition.committed ∧
      transition.pending = confPairs (((g.history m.term).take
        (m.previousLogIndex + m.entries.length)).drop core.commitIndex) := by
  have hlead := hreq.leader
  obtain ⟨hobserve, hfollow⟩ := hc.follow h hterm
  obtain ⟨hcommitted, hpending, hbuilt⟩ := rebuild_ok hc.represents hc.base_le_commit
    (h.formed m.term) htaken.slice.entries htaken.slice.bound htaken.reach htaken.same hc.built
    htransition
  have hnow : (g.observe n m.term).term n = m.term := by simp [Chronicle.observe]
  have hkeeps : (g.log n).take (g.known n) <+: taken := by
    refine (List.take_prefix_take_left ?_).trans htaken.keeps
    rw [hc.known_commit]
    exact M.known_le _
  let next := (g.observe n m.term).accept n (m.previousLogIndex + m.entries.length) taken
  have haccept : Advance M n (g.observe n m.term) next := by
    refine advance_accept hobserve.ok ?_ ?_ ?_ hkeeps
    · rw [hnow]
      change g.leader m.term ≠ some n
      rw [hlead]
      exact fun heq => hfrom (Option.some.inj heq)
    · rw [hnow]
      exact htaken.slice.bound
    · rw [hnow]
      exact htaken.replaces
  have hlog : next.log n = taken := by simp [next, Chronicle.accept]
  have hcommitLen : core.commitIndex ≤ taken.length := by
    have hle := htaken.keeps.length_le
    rw [List.length_take_of_le hc.commit_le_length] at hle
    exact hle
  have htake : taken.take core.commitIndex = (g.log n).take core.commitIndex := by
    have := take_eq_of_longer htaken.keeps
      (by rw [List.length_take_of_le hc.commit_le_length] : core.commitIndex ≤ _)
    rw [this, List.take_take, Nat.min_self]
  refine ⟨_, hobserve.trans haccept, ?_, hlog, rfl, rfl, ?_, hcommitted, hpending⟩
  · refine { hc with
      durable := { hfollow.durable with log_rep := ?_, base_le := ?_, commit_le := ?_ }
      conf := ?_
      built := hbuilt
      plain := ?_
      leader := fun hrole => Role.noConfusion hrole
      candidate := fun hrole => Role.noConfusion hrole
      preCandidate := fun hrole => Role.noConfusion hrole }
    · rw [hlog]
      exact htaken.represents
    · change log.baseIndex ≤ core.commitIndex
      rw [htaken.base.1]
      exact hc.base_le_commit
    · rw [hlog]
      exact hcommitLen
    · change transition.committed = M.scheme.conf ((next.log n).take core.commitIndex)
      rw [hlog, htake, hcommitted]
      exact hc.committed
    · intro hf
      change transition.pending = []
      have hnone := confPairs_shorten (List.take_prefix
        (m.previousLogIndex + m.entries.length) _) (h.plain hf m.term)
      rw [confPairs_split _ core.commitIndex] at hnone
      rw [hpending]
      exact (List.append_eq_nil_iff.mp hnone).2
  · simp [next, Chronicle.accept, hnow]

end Accept

theorem commitLimit_ge {low candidate : ℕ} (hpending : ∀ p ∈ transition.pending, low ≤ p.2)
    (hle : low ≤ candidate) : low ≤ membershipTransitionCommitLimit transition candidate := by
  unfold membershipTransitionCommitLimit
  cases hp : transition.pending with
  | nil => exact hle
  | cons first rest =>
    dsimp only
    split_ifs
    · exact hle
    · exact hpending first (by simp [hp])

/-- The follower's commit rule, for a transition that lists the configurations of `source`
above the commit index. -/
theorem coreOk_followerCommit (h : GhostOk M g) (hc : CoreOk M g n (coreView core))
    (hrole : core.role = .follower) (hsource : WellFormed source) (hpre : source <+: g.log n)
    (hpending : core.membershipTransition.pending = confPairs (source.drop core.commitIndex))
    (hcovered : M.tracked = true → core.commitIndex < m.leaderCommit →
      min m.leaderCommit (g.log n).length ≤ source.length)
    (hcertified : M.tracked = true → g.Certified (source.take m.leaderCommit) (g.term n + 1)) :
    ∃ g₁ core', Advance M n g g₁ ∧ followerCommit core m = (.ok, core') ∧
      CoreOk M g₁ n (coreView core') ∧
      Kept { core with commitIndex := core'.commitIndex } core' ∧ g₁.toBook = g.toBook := by
  unfold RaftCoreStep.followerCommit
  split_ifs with hbehind
  swap
  · exact ⟨g, core, .refl h n, rfl, hc, .refl _, rfl⟩
  have hlast := hc.represents.lastIndex
  generalize hi : membershipTransitionCommitLimit core.membershipTransition
    (min m.leaderCommit (logLastIndex core.log)) = i
  rw [hlast] at hi
  have hmin : i ≤ min m.leaderCommit (g.log n).length := by
    rw [← hi]
    exact commitLimit_le _ _
  have hlow : core.commitIndex ≤ i := by
    rw [← hi]
    refine commitLimit_ge ?_ (by have := hc.commit_le_length; omega)
    intro p hp
    rw [hpending] at hp
    exact (confPairs_above hsource hp).le
  have hbound : i ≤ (g.log n).length := by omega
  have hwithin : M.tracked = true → i ≤ source.length := by
    intro ht
    have := hcovered ht hbehind
    omega
  have htake : M.tracked = true → (g.log n).take i = source.take i :=
    fun ht => take_eq_of_longer hpre (hwithin ht)
  have hlearn : Advance M n g (M.learn g n i) := by
    refine M.advance_learn h ?_ hbound ?_
    · rw [hc.known_commit]
      exact (M.known_le _).trans hlow
    · intro ht
      rw [htake ht]
      exact certifiedBy_shorten (hcertified ht) (List.take_prefix_take_left (by omega))
  have happlied : (membershipTransitionApply core.membershipTransition i).committed =
      M.scheme.conf ((g.log n).take i) := by
    cases ht : M.tracked with
    | true =>
      have hcommitted : core.membershipTransition.committed =
          M.scheme.conf (source.take core.commitIndex) := by
        rw [hc.committed, take_eq_of_longer hpre (by have := hwithin ht; omega)]
      rw [apply_conf M hsource hlow hcommitted hpending, htake ht]
    | false =>
      have hfixed : M.fixed = true := M.follows.resolve_right (by simp [ht])
      have hplain : ∀ k, M.scheme.conf ((g.log n).take k) = M.initial := fun k =>
        M.conf_plain (confPairs_shorten (List.take_prefix _ _) (h.log_plain hfixed n))
      have hnone : core.membershipTransition.pending = [] := hc.plain hfixed
      rw [membershipTransitionApply, hnone, applyPending, hplain, hc.committed, hplain]
  obtain ⟨hterm, hlogs, hbook⟩ := M.learn_same g n i
  obtain ⟨core', hadvance, hcore, hkept, _⟩ := coreOk_commitTo hc hlearn (congrFun hterm n)
    (congrArg (fun b => b.vote n) hbook) (congrFun hlogs n) (M.learn_known hc.known_commit i)
    hlow hbound (by rw [hrole]; exact Role.noConfusion) happlied
    (fun hlead => by rw [hrole] at hlead; cases hlead)
  have hcommit : core'.commitIndex = i := hkept.commitIndex
  refine ⟨_, core', hlearn, hadvance, hcore, ?_, hbook⟩
  rw [hcommit]
  exact hkept

end RaftFollowerProgress
