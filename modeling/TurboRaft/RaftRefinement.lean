import TurboRaft.RaftCluster
import TurboRaft.RaftLogReconcile
import TurboRaft.RaftQuorum
import TurboRaft.ReplicationInvariant

/-! # Clusters against chronicles

How cores, disks, messages and snapshot offers relate to a chronicle of the group. A mode
says what is followed: a fixed configuration, or commit indices that are certified, or
both. Everything a node holds on to is stable when the chronicle is extended. -/
namespace RaftRefinement

open RaftTypes RaftConfiguration RaftMembershipTransition RaftLog RaftCoreState RaftCoreEmit
open RaftCoreStep RaftCluster RaftLogLemmas RaftQuorum RaftTransitionLemmas ConfiguredLog Replication
open Function

abbrev Ghost := Chronicle NodeId Entry

/-- What a refinement follows. Without tracking, known indices stay zero and the
configuration has to be fixed. -/
structure Mode where
  initial : Conf
  fixed : Bool
  tracked : Bool
  valid : confValidate initial = .ok
  stable : initial.phase = .final
  follows : fixed = true ∨ tracked = true

def Mode.scheme (M : Mode) : Scheme NodeId Entry Conf := raftScheme M.initial

def Mode.known (M : Mode) (commitIndex : ℕ) : ℕ := if M.tracked then commitIndex else 0

theorem Mode.known_le (M : Mode) (commitIndex : ℕ) : M.known commitIndex ≤ commitIndex := by
  unfold Mode.known
  split_ifs
  · exact le_rfl
  · exact Nat.zero_le _

theorem Mode.overlap (M : Mode) (configuration : Conf) :
    M.scheme.Overlap configuration configuration :=
  overlap_self configuration

/-- A chronicle whose leaders' logs are made of proper entries. -/
structure GhostOk (M : Mode) (g : Ghost) : Prop where
  inv : Inv M.scheme g
  formed : ∀ t, WellFormed (g.history t)
  plain : M.fixed = true → ∀ t, confPairs (g.history t) = []

section Ghost

variable {M : Mode} {g g' : Ghost} {l : List Entry}

theorem confPairs_shorten {a b : List Entry} (hab : a <+: b) (h : confPairs b = []) :
    confPairs a = [] := by
  obtain ⟨c, rfl⟩ := hab
  rw [confPairs_append] at h
  exact (List.append_eq_nil_iff.mp h).1

/-- Sound lists are prefixes of leaders' logs, so they share what those have. -/
theorem GhostOk.sound_formed (h : GhostOk M g) (hl : Sound M.scheme g.toBook l) :
    WellFormed l ∧ (M.fixed = true → confPairs l = []) := by
  by_cases hnil : l = []
  · subst hnil
    exact ⟨fun i e he => by simp at he, fun _ => rfl⟩
  · have hpre := hl.prefix_history hnil
    exact ⟨(h.formed _).shorten hpre, fun hf => confPairs_shorten hpre (h.plain hf _)⟩

theorem GhostOk.log_formed (h : GhostOk M g) (n : NodeId) : WellFormed (g.log n) :=
  (h.sound_formed (h.inv.node n).log_sound).1

theorem GhostOk.log_plain (h : GhostOk M g) (hf : M.fixed = true) (n : NodeId) :
    confPairs (g.log n) = [] :=
  (h.sound_formed (h.inv.node n).log_sound).2 hf

theorem Mode.conf_plain (M : Mode) (h : confPairs l = []) :
    M.scheme.conf l = M.initial := by
  unfold Scheme.conf Mode.scheme
  rw [confs_eq_confPairs, h]
  rfl

/-- The known part of a log survives whatever happens to the node. -/
theorem known_kept (h : GhostOk M g) (h' : GhostOk M g') (hx : g.Extends g') (n : NodeId) :
    (g.log n).take (g.known n) <+: g'.log n := by
  have hold := hx.book.certified (h.inv.node n).known_certified
  have hnew := (h'.inv.node n).known_certified
  have hle := hx.known n
  have hlen' := (h'.inv.node n).known_le
  rcases h'.inv.ledger.certified_total hold hnew with hpre | hpre
  · exact hpre.trans (List.take_prefix _ _)
  · have heq := hpre.eq_of_length_le (by simp only [List.length_take]; omega)
    rw [← heq]
    exact List.take_prefix _ _

end Ghost

/-- The fields of a core that safety depends on. -/
structure CoreView where
  selfId : NodeId
  transition : MembershipTransition
  peers : List NodeId
  role : Role
  term : ℕ
  votedFor : NodeId
  log : Log
  commitIndex : ℕ
  campaignTerm : ℕ
  votes : ℕ
  matchIndex : ℕ → ℕ

def coreView (core : Core) : CoreView :=
  { selfId := core.selfId
    transition := core.membershipTransition
    peers := core.peers
    role := core.role
    term := core.term
    votedFor := core.votedFor
    log := core.log
    commitIndex := core.commitIndex
    campaignTerm := core.campaignTerm
    votes := core.votes
    matchIndex := core.matchIndex }

def voteOf (votedFor : NodeId) : Option NodeId := if votedFor = 0 then none else some votedFor

/-- Term, vote, log and commit index as disk and core both hold them. -/
structure DurableOk (M : Mode) (g : Ghost) (n : NodeId) (term : ℕ) (votedFor : NodeId) (log : Log)
    (commitIndex : ℕ) : Prop where
  term_eq : g.term n = term
  vote_eq : g.vote n term = voteOf votedFor
  log_rep : Represents log (g.log n)
  base_le : log.baseIndex ≤ commitIndex
  commit_le : commitIndex ≤ (g.log n).length
  known_eq : g.known n = M.known commitIndex

/-- What stands behind a match index: an acknowledgement of the term, or a snapshot of
settled entries that both sides know. -/
def MatchOk (g : Ghost) (leader : NodeId) (term : ℕ) (peer : NodeId) (index : ℕ) : Prop :=
  index ≤ g.ack peer term ∨ (index ≤ g.known peer ∧ index ≤ g.known leader)

structure LeaderOk (g : Ghost) (n : NodeId) (v : CoreView) : Prop where
  leads : g.leader v.term = some n
  matched : ∀ k p, v.peers[k]? = some p → MatchOk g n v.term p (v.matchIndex k)
  pending : v.transition.pending = confPairs ((g.log n).drop v.commitIndex)
  own : ∀ r ∈ g.records, r.term = v.term → r.index ≤ v.commitIndex

structure CandidateOk (g : Ghost) (n : NodeId) (v : CoreView) : Prop where
  unelected : g.leader v.term ≠ some n
  ballot : g.ballot v.term n = some (g.log n, g.known n)
  votes : ∀ k p, v.peers[k]? = some p → v.votes.testBit k = true → g.vote p v.term = some n

/-- A core whose peer set may still have to follow its transition. -/
structure CoreBase (M : Mode) (g : Ghost) (n : NodeId) (v : CoreView) : Prop where
  durable : DurableOk M g n v.term v.votedFor v.log v.commitIndex
  self : v.selfId = n
  named : n ≠ 0
  conf : v.transition.committed = M.scheme.conf ((g.log n).take v.commitIndex)
  built : Built v.transition
  plain : M.fixed = true → v.transition.pending = []
  leader : v.role = .leader → LeaderOk g n v
  candidate : v.role = .candidate → CandidateOk g n v
  preCandidate : v.role = .preCandidate → v.campaignTerm = 0 ∨ v.campaignTerm = v.term + 1

structure CoreOk (M : Mode) (g : Ghost) (n : NodeId) (v : CoreView) : Prop
    extends CoreBase M g n v where
  peers : coreBuildPeerSet v.transition = .ok v.peers

def diskLog (disk : Disk) : Log :=
  { entries := disk.entries
    maxEntries := 0
    baseIndex := disk.snapshotIndex
    baseTerm := disk.snapshotTerm }

structure DiskOk (M : Mode) (g : Ghost) (n : NodeId) (disk : Disk) : Prop where
  durable : DurableOk M g n disk.term disk.votedFor (diskLog disk) disk.commitIndex
  fresh : disk.configuration = none → disk.snapshotIndex = 0
  configured : ∀ c, disk.configuration = some c →
    c = M.scheme.conf ((g.log n).take disk.snapshotIndex)

structure Durable (disk : Disk) (core : Core) : Prop where
  term : disk.term = core.term
  votedFor : disk.votedFor = core.votedFor
  entries : disk.entries = core.log.entries
  base : disk.snapshotIndex = core.log.baseIndex
  baseTerm : disk.snapshotTerm = core.log.baseTerm
  commit : disk.commitIndex = core.commitIndex

/-- The entries of a request are a stretch of its leader's log. -/
structure SliceOk (g : Ghost) (m : Message) : Prop where
  bound : m.previousLogIndex + m.entries.length ≤ (g.history m.term).length
  entries : m.entries = ((g.history m.term).drop m.previousLogIndex).take m.entries.length
  previous : m.previousLogTerm = endTerm ((g.history m.term).take m.previousLogIndex)

/-- A request that points beyond its leader's log; no log matches it. -/
structure VoidOk (m : Message) : Prop where
  term : m.previousLogTerm = 0
  index : 0 < m.previousLogIndex
  entries : m.entries = []

structure RequestOk (M : Mode) (g : Ghost) (m : Message) : Prop where
  leader : g.leader m.term = some m.fromId
  slice : SliceOk g m ∨ VoidOk m
  commit : M.tracked = true → m.leaderCommit ≤ (g.history m.term).length ∧
    g.Certified ((g.history m.term).take m.leaderCommit) (m.term + 1)

def BallotOk (g : Ghost) (m : Message) : Prop :=
  ∃ l k, g.ballot m.term m.fromId = some (l, k) ∧ m.lastLogIndex = l.length ∧
    m.lastLogTerm = endTerm l

/-- What a message in the network says about the chronicle. -/
def MsgOk (M : Mode) (g : Ghost) (m : Message) : Prop :=
  match m.type with
  | .preVoteResponse => m.granted = true → m.campaignTerm ≠ 0
  | .voteRequest => BallotOk g m
  | .voteResponse => m.granted = true → g.vote m.fromId m.term = some m.toId
  | .heartbeatRequest | .appendRequest => RequestOk M g m
  | .heartbeatResponse | .appendResponse => m.granted = true → m.matchIndex ≤ g.ack m.fromId m.term
  | .preVoteRequest | .timeoutNow | .readIndexRequest | .readIndexResponse => True

/-- An offered snapshot is a certified prefix with the configuration in force after it. -/
structure OfferOk (M : Mode) (g : Ghost) (o : SnapshotOffer) : Prop where
  leader : g.leader o.leaderTerm = some o.fromId
  other : o.toId ≠ o.fromId
  settled : M.tracked = true → ∃ p, g.Certified p (o.leaderTerm + 1) ∧
    p.length = o.snapshotIndex ∧ endTerm p = o.snapshotTerm ∧ M.scheme.conf p = o.configuration

section Extensions

variable {M : Mode} {g g' : Ghost} {m : Message} (hx : g.Extends g')

include hx

theorem MatchOk.extend {l p : NodeId} {t i : ℕ} (h : MatchOk g l t p i) :
    MatchOk g' l t p i := by
  rcases h with hack | ⟨hpeer, hleader⟩
  · exact Or.inl (hack.trans (hx.book.ack p t))
  · exact Or.inr ⟨hpeer.trans (hx.known p), hleader.trans (hx.known l)⟩

theorem SliceOk.extend (h : SliceOk g m) : SliceOk g' m where
  bound := h.bound.trans (hx.book.history m.term).length_le
  entries := by
    obtain ⟨more, hmore⟩ := hx.book.history m.term
    have hbound := h.bound
    rw [← hmore, List.drop_append_of_le_length (by omega),
      List.take_append_of_le_length (by simp only [List.length_drop]; omega)]
    exact h.entries
  previous := by
    have hbound := h.bound
    rw [hx.book.take_history (by omega)]
    exact h.previous

theorem RequestOk.extend (h : RequestOk M g m) :
    RequestOk M g' m where
  leader := hx.book.leader _ _ h.leader
  slice := h.slice.imp (SliceOk.extend hx) id
  commit ht := by
    obtain ⟨hle, hcert⟩ := h.commit ht
    refine ⟨hle.trans (hx.book.history m.term).length_le, ?_⟩
    rw [hx.book.take_history hle]
    exact hx.book.certified hcert

theorem MsgOk.extend (h : MsgOk M g m) : MsgOk M g' m := by
  unfold MsgOk at h ⊢
  cases htype : m.type with
  | voteRequest =>
    simp only [htype] at h
    obtain ⟨l, k, hb, hrest⟩ := h
    exact ⟨l, k, hx.book.ballot _ _ _ hb, hrest⟩
  | voteResponse =>
    simp only [htype] at h
    exact fun hg => hx.book.vote _ _ _ (h hg)
  | heartbeatRequest | appendRequest =>
    simp only [htype] at h
    exact h.extend hx
  | heartbeatResponse | appendResponse =>
    simp only [htype] at h
    exact fun hg => (h hg).trans (hx.book.ack _ _)
  | preVoteResponse =>
    simp only [htype] at h
    exact h
  | preVoteRequest | timeoutNow | readIndexRequest | readIndexResponse => trivial

theorem OfferOk.extend {o : SnapshotOffer} (h : OfferOk M g o) :
    OfferOk M g' o where
  leader := hx.book.leader _ _ h.leader
  other := h.other
  settled ht := by
    obtain ⟨p, hp, hrest⟩ := h.settled ht
    exact ⟨p, hx.book.certified hp, hrest⟩

end Extensions

structure Advance (M : Mode) (n : NodeId) (g g' : Ghost) : Prop where
  steps : Steps M.scheme g g'
  ext : g.Extends g'
  ok : GhostOk M g'
  others : ∀ m, m ≠ n → Untouched g g' m
  records : ∀ r ∈ g'.records, r ∈ g.records ∨ g'.leader r.term = some n

variable {M : Mode} {n : NodeId} {g g' g'' : Ghost}

theorem Advance.refl (h : GhostOk M g) (n : NodeId) : Advance M n g g where
  steps := .refl
  ext := .refl g
  ok := h
  others m _ := .refl g m
  records _ hr := Or.inl hr

theorem Advance.trans (h : Advance M n g g') (h' : Advance M n g' g'') : Advance M n g g'' where
  steps := h.steps.trans h'.steps
  ext := h.ext.trans h'.ext
  ok := h'.ok
  others m hm := (h.others m hm).trans (h'.others m hm)
  records r hr := by
    rcases h'.records r hr with hmid | hnew
    · exact (h.records r hmid).imp id (h'.ext.book.leader _ _)
    · exact Or.inr hnew

/-- A step that writes a new log for the current term of the node. -/
theorem Advance.of_update (h : GhostOk M g) (step : Step M.scheme g g') {l : List Entry}
    (history : g'.history = update g.history (g.term n) l) (formed : WellFormed l)
    (plain : M.fixed = true → confPairs l = []) (records : g'.records = g.records)
    (others : ∀ m, m ≠ n → Untouched g g' m) : Advance M n g g' := by
  obtain ⟨hext, hinv⟩ := step.keeps M.overlap h.inv
  refine ⟨.single step, hext, ⟨hinv, ?_, fun hf => ?_⟩, others, fun r hr => Or.inl (records ▸ hr)⟩ <;>
    rw [history]
  · exact (forall_update_iff _ fun _ l => WellFormed l).mpr ⟨formed, fun t _ => h.formed t⟩
  · exact (forall_update_iff _ fun _ l => confPairs l = []).mpr ⟨plain hf, fun t _ => h.plain hf t⟩

theorem Advance.of_step (h : GhostOk M g) (step : Step M.scheme g g')
    (history : g'.history = g.history) (records : g'.records = g.records)
    (others : ∀ m, m ≠ n → Untouched g g' m) : Advance M n g g' :=
  .of_update h step (history.trans (update_eq_self _ _).symm) (h.formed _) (fun hf => h.plain hf _)
    records others

section Actions

variable (h : GhostOk M g)

include h

theorem advance_observe {t : ℕ} (later : g.term n ≤ t) :
    Advance M n g (g.observe n t) :=
  .of_step h (.observe n t later) rfl rfl fun _ hm => untouched_observe hm t

theorem advance_campaign {t : ℕ} (later : g.term n < t) :
    Advance M n g (g.campaign n t) :=
  .of_step h (.campaign n t later) rfl rfl fun _ hm => untouched_campaign hm t

theorem advance_grant {c : NodeId} {b : List Entry × ℕ}
    (free : g.vote n (g.term n) = none ∨ g.vote n (g.term n) = some c)
    (ballot : g.ballot (g.term n) c = some b) (fresh : UpToDate M.scheme b.1 (g.log n)) :
    Advance M n g (g.grant n c) :=
  .of_step h (.grant n c b free ballot fresh) rfl rfl fun _ hm => untouched_grant hm c

theorem advance_accept {i : ℕ} {l : List Entry}
    (follows : g.leader (g.term n) ≠ some n) (bound : i ≤ (g.history (g.term n)).length)
    (replaces : Replaces (g.log n) ((g.history (g.term n)).take i) l)
    (keeps : (g.log n).take (g.known n) <+: l) : Advance M n g (g.accept n i l) :=
  .of_step h (.accept n i l follows bound replaces keeps) rfl rfl fun _ hm => untouched_accept hm i l

theorem advance_install {p l : List Entry}
    (follows : g.leader (g.term n) ≠ some n) (certified : g.Certified p (g.term n + 1))
    (ahead : g.known n ≤ p.length) (replaces : Replaces (g.log n) p l) :
    Advance M n g (g.install n p.length l) :=
  .of_step h (.install n p l follows certified ahead replaces) rfl rfl
    fun _ hm => untouched_install hm p.length l

theorem advance_learn {k : ℕ} (ahead : g.known n ≤ k)
    (bound : k ≤ (g.log n).length) (certified : g.Certified ((g.log n).take k) (g.term n + 1)) :
    Advance M n g (g.learn n k) :=
  .of_step h (.learn n k ahead bound certified) rfl rfl fun _ hm => untouched_learn hm k

theorem advance_settle {r : Record} (leads : g.leader r.term = some n)
    (ok : RecordOk M.scheme g.toBook g.records r)
    (own : ∀ q ∈ g.records, q.term = r.term → M.scheme.confCount (g.settled q) ≤
      M.scheme.confCount ((g.history r.term).take r.base)) : Advance M n g (g.settle r) := by
  have step : Step M.scheme g (g.settle r) := .settle r ok own
  obtain ⟨hext, hinv⟩ := step.keeps M.overlap h.inv
  refine ⟨.single step, hext, ⟨hinv, h.formed, h.plain⟩, fun m _ => untouched_settle r m, ?_⟩
  intro q hq
  rcases List.mem_cons.mp hq with rfl | hq
  · exact Or.inr leads
  · exact Or.inl hq

theorem advance_elect {V : Set NodeId} (first : g.leader (g.term n) ≠ some n)
    (wins : Wins M.scheme g n V) : Advance M n g (g.elect n) :=
  .of_update h (.elect n V first wins) rfl (h.log_formed n) (fun hf => h.log_plain hf n) rfl
    fun _ hm => untouched_elect hm

theorem advance_append {e : Entry} (leads : g.leader (g.term n) = some n)
    (term : e.term = g.term n) (formed : EntryOk ((g.log n).length + 1) e)
    (plain : M.fixed = true → confPairs [e] = [])
    (chained : ∀ k, confEntryDecode e = .ok k → M.scheme.Overlap (M.scheme.conf (g.log n)) k) :
    Advance M n g (g.append n e) := by
  have step : Step M.scheme g (g.append n e) := by
    refine .append n e leads term fun k hk => chained k ?_
    cases hdecode : confEntryDecode e with
    | error status => simp [Mode.scheme, raftScheme, hdecode, Except.toOption] at hk
    | ok c =>
      simp only [Mode.scheme, raftScheme, hdecode, Except.toOption, Option.some.injEq] at hk
      rw [hk]
  refine .of_update h step rfl ((h.log_formed n).append ?_) ?_ rfl
    fun m hm => untouched_append hm e leads
  · intro i x hx
    obtain ⟨hi, rfl⟩ := List.getElem?_eq_some_iff.mp hx
    have hzero : i = 0 := by simpa using hi
    subst hzero
    exact formed
  · intro hf
    rw [confPairs_append, h.log_plain hf n, plain hf, List.append_nil]

theorem advance_commands (leads : g.leader (g.term n) = some n)
    (entries : List Entry) (hterm : ∀ e ∈ entries, e.term = g.term n)
    (hcommand : ∀ e ∈ entries, e.commandId ≠ 0)
    (hformed : ∀ i e, entries[i]? = some e → EntryOk ((g.log n).length + i + 1) e) :
    ∃ g', Advance M n g g' ∧ g'.log n = g.log n ++ entries ∧ g'.term = g.term ∧
      g'.known = g.known ∧ g'.vote = g.vote ∧ g'.leader = g.leader ∧ g'.records = g.records := by
  induction entries generalizing g with
  | nil => exact ⟨g, .refl h n, by simp, rfl, rfl, rfl, rfl, rfl⟩
  | cons e rest ih =>
    have hdecode : confEntryDecode e = .error .enoent :=
      confEntryDecode_command (by simpa [confEntryIsConfiguration] using hcommand e List.mem_cons_self)
    have hstep : Advance M n g (g.append n e) := by
      refine advance_append h leads (hterm e List.mem_cons_self) (hformed 0 e rfl)
        (fun _ => confPairs_singleton_error hdecode) ?_
      intro k hk
      rw [hdecode] at hk
      cases hk
    have hlog : (g.append n e).log n = g.log n ++ [e] := by simp [Chronicle.append]
    obtain ⟨g', hadv, hlog', hterm', hknown, hvote, hleader, hrecords⟩ := ih hstep.ok leads
      (fun x hx => hterm x (List.mem_cons_of_mem _ hx))
      (fun x hx => hcommand x (List.mem_cons_of_mem _ hx)) (by
        intro i x hx
        have := hformed (i + 1) x (by simpa using hx)
        rw [hlog, List.length_append, List.length_singleton]
        rwa [show (g.log n).length + 1 + i + 1 = (g.log n).length + (i + 1) + 1 by omega])
    refine ⟨g', hstep.trans hadv, ?_, hterm', hknown, hvote, hleader, hrecords⟩
    rw [hlog', hlog, List.append_assoc]
    rfl

end Actions

section Others

variable {v : CoreView}

theorem DurableOk.of_same {term : ℕ} {votedFor : NodeId} {log : Log} {commitIndex : ℕ}
    (h : DurableOk M g n term votedFor log commitIndex) (hterm : g'.term n = g.term n)
    (hvote : g'.vote n = g.vote n) (hlog : g'.log n = g.log n) (hknown : g'.known n = g.known n) :
    DurableOk M g' n term votedFor log commitIndex where
  term_eq := hterm.trans h.term_eq
  vote_eq := by rw [hvote]; exact h.vote_eq
  log_rep := by rw [hlog]; exact h.log_rep
  base_le := h.base_le
  commit_le := by rw [hlog]; exact h.commit_le
  known_eq := hknown.trans h.known_eq

theorem DurableOk.untouched (u : Untouched g g' n) {term : ℕ} {votedFor : NodeId} {log : Log}
    {commitIndex : ℕ} (h : DurableOk M g n term votedFor log commitIndex) :
    DurableOk M g' n term votedFor log commitIndex :=
  h.of_same u.term u.vote u.log u.known

theorem DiskOk.untouched (u : Untouched g g' n) {disk : Disk} (h : DiskOk M g n disk) :
    DiskOk M g' n disk where
  durable := h.durable.untouched u
  fresh := h.fresh
  configured := by rw [u.log]; exact h.configured

theorem CandidateOk.untouched (u : Untouched g g' n) (hx : g.Extends g')
    (h : CandidateOk g n v) : CandidateOk g' n v where
  unelected hl := h.unelected (u.leads _ hl).1
  ballot := by rw [u.log, u.known]; exact hx.book.ballot _ _ _ h.ballot
  votes k p hp hbit := hx.book.vote _ _ _ (h.votes k p hp hbit)

theorem CoreOk.untouched {actor : NodeId} (hadv : Advance M actor g g') (hn : n ≠ actor)
    (h : CoreOk M g n v) : CoreOk M g' n v where
  durable := h.durable.untouched (hadv.others n hn)
  self := h.self
  named := h.named
  conf := by rw [(hadv.others n hn).log]; exact h.conf
  built := h.built
  plain := h.plain
  peers := h.peers
  leader hrole := by
    have hl := h.leader hrole
    have hleads := hadv.ext.book.leader _ _ hl.leads
    refine ⟨hleads, fun k p hp => (hl.matched k p hp).extend hadv.ext, ?_, ?_⟩
    · rw [(hadv.others n hn).log]
      exact hl.pending
    · intro r hr hterm
      rcases hadv.records r hr with hold | hnew
      · exact hl.own r hold hterm
      · rw [hterm] at hnew
        exact absurd (Option.some.inj (hleads.symm.trans hnew)) hn
  candidate hrole := (h.candidate hrole).untouched (hadv.others n hn) hadv.ext
  preCandidate := h.preCandidate

end Others

section Facts

variable {v : CoreView}

section Core

variable {core : Core} (hc : CoreBase M g n (coreView core))

include hc

theorem CoreBase.term_now : g.term n = core.term := hc.durable.term_eq

theorem CoreBase.represents : Represents core.log (g.log n) := hc.durable.log_rep

theorem CoreBase.base_le_commit : core.log.baseIndex ≤ core.commitIndex := hc.durable.base_le

theorem CoreBase.commit_le_length : core.commitIndex ≤ (g.log n).length := hc.durable.commit_le

theorem CoreBase.known_commit : g.known n = M.known core.commitIndex := hc.durable.known_eq

theorem CoreBase.self_id : core.selfId = n := hc.self

theorem CoreBase.committed :
    core.membershipTransition.committed = M.scheme.conf ((g.log n).take core.commitIndex) := hc.conf

end Core

theorem CoreBase.conf_known (h : GhostOk M g) (hc : CoreBase M g n v) :
    M.scheme.conf ((g.log n).take (g.known n)) = v.transition.committed := by
  rw [hc.conf, hc.durable.known_eq]
  unfold Mode.known
  split_ifs with ht
  · rfl
  · have hf := M.follows.resolve_right ht
    have hplain : ∀ i, confPairs ((g.log n).take i) = [] := fun i =>
      confPairs_shorten (List.take_prefix _ _) (h.log_plain hf n)
    rw [M.conf_plain (hplain _), M.conf_plain (hplain _)]

theorem CoreBase.committed_valid (hc : CoreBase M g n v) :
    confValidate v.transition.committed = .ok := by
  rw [hc.conf]
  exact conf_valid M.valid _

theorem testBit_indexBit {ids : List NodeId} (hlen : ids.length ≤ maxMembers) {voter : Option ℕ}
    {k : ℕ} {p : NodeId} (hk : ids[k]? = some p) (hbit : (indexBit voter).testBit k = true) :
    voter = some k := by
  cases voter with
  | some i =>
    simp only [indexBit, testBit_one_shiftLeft, decide_eq_true_eq] at hbit
    rw [hbit]
  | none =>
    simp only [indexBit, testBit_one_shiftLeft, decide_eq_true_eq] at hbit
    obtain ⟨hlt, _⟩ := List.getElem?_eq_some_iff.mp hk
    have hsmall : ids.length ≤ 31 := hlen
    omega

theorem voterIndex_sound {core : Core} {nodeId : NodeId} {k : ℕ}
    (h : voterIndex core nodeId = some k) : nodeId ≠ 0 ∧ core.peers[k]? = some nodeId := by
  unfold voterIndex at h
  cases hpeer : peerIndex core nodeId with
  | none => simp [hpeer] at h
  | some i =>
    simp only [hpeer] at h
    split_ifs at h
    cases h
    exact ascendingIndex_sound hpeer

theorem voter_of_testBit {core : Core} {nodeId p : NodeId} {k : ℕ}
    (hlen : core.peers.length ≤ maxMembers) (hp : core.peers[k]? = some p)
    (hbit : (indexBit (voterIndex core nodeId)).testBit k = true) : p = nodeId :=
  Option.some.inj (hp.symm.trans (voterIndex_sound (testBit_indexBit hlen hp hbit)).2)

theorem CoreOk.peers_length (hc : CoreOk M g n v) : v.peers.length ≤ maxMembers :=
  (peerSetBuild_spec hc.peers).1

end Facts

section Roles

variable {core : Core} {message : Message} (hc : CoreOk M g n (coreView core))

include hc

theorem CoreOk.follow (h : GhostOk M g) {t : ℕ} (hle : core.term ≤ t) :
    Advance M n g (g.observe n t) ∧
      CoreOk M (g.observe n t) n (coreView (becomeFollower core t)) := by
  have hterm := hc.term_now
  refine ⟨advance_observe h (by omega), { hc with
    durable := { hc.durable with term_eq := ?_, vote_eq := ?_ }
    leader := fun hrole => Role.noConfusion hrole
    candidate := fun hrole => Role.noConfusion hrole
    preCandidate := fun hrole => Role.noConfusion hrole }⟩
  · change update g.term n t n = if core.term < t then t else core.term
    rw [update_self]
    split_ifs <;> omega
  · change g.vote n (if core.term < t then t else core.term) =
      voteOf (if core.term < t then 0 else core.votedFor)
    split_ifs with hlt
    · cases hvote : g.vote n t with
      | none => rfl
      | some c =>
        have := (h.inv.node n).vote_le t c hvote
        omega
    · exact hc.durable.vote_eq

theorem CoreOk.preCampaign : CoreOk M g n (coreView (preCandidateState core)) :=
  { hc with
    leader := fun hrole => Role.noConfusion hrole
    candidate := fun hrole => Role.noConfusion hrole
    preCandidate := fun _ => Or.inr rfl }

theorem CoreOk.withCampaignTerm {t : ℕ}
    (ht : core.role = .preCandidate → t = 0 ∨ t = core.term + 1) :
    CoreOk M g n (coreView { core with campaignTerm := t }) :=
  { hc with
    leader := fun hrole => { hc.leader hrole with }
    candidate := fun hrole => { hc.candidate hrole with }
    preCandidate := ht }

theorem CoreOk.campaign (h : GhostOk M g) (hterm : core.campaignTerm = core.term + 1) :
    Advance M n g (g.campaign n (core.term + 1)) ∧
      CoreOk M (g.campaign n (core.term + 1)) n (coreView (candidateState core)) := by
  have hnow := hc.term_now
  have hself := hc.self_id
  have hvote : (g.campaign n (core.term + 1)).vote n (core.term + 1) = some n := by
    simp [Chronicle.campaign]
  refine ⟨advance_campaign h (by omega), { hc with
    durable := { hc.durable with term_eq := ?_, vote_eq := ?_ }
    leader := fun hrole => Role.noConfusion hrole
    candidate := fun _ => ⟨?_, ?_, ?_⟩
    preCandidate := fun hrole => Role.noConfusion hrole }⟩
  · change update g.term n (core.term + 1) n = core.campaignTerm
    rw [update_self, hterm]
  · change (g.campaign n (core.term + 1)).vote n core.campaignTerm = voteOf core.selfId
    rw [hterm, hvote, hself, voteOf, if_neg hc.named]
  · change g.leader core.campaignTerm ≠ some n
    intro hl
    have := h.inv.leader_le hl
    omega
  · change (g.campaign n (core.term + 1)).ballot core.campaignTerm n = some (g.log n, g.known n)
    rw [hterm]
    simp [Chronicle.campaign]
  · intro k p hp hbit
    change (g.campaign n (core.term + 1)).vote p core.campaignTerm = some n
    have hpn : p = n := (voter_of_testBit hc.peers_length hp hbit).trans hself
    rw [hpn, hterm, hvote]

theorem CoreOk.countVote {nodeId : NodeId} (hvote : g.vote nodeId core.term = some n) :
    CoreOk M g n (coreView { core with
      votes := core.votes ||| indexBit (voterIndex core nodeId) }) := by
  refine { hc with
    leader := fun hrole => { hc.leader hrole with }
    candidate := fun hrole => { hc.candidate hrole with votes := ?_ } }
  intro k p hp hbit
  change (core.votes ||| indexBit (voterIndex core nodeId)).testBit k = true at hbit
  rw [Nat.testBit_or, Bool.or_eq_true] at hbit
  rcases hbit with hold | hnew
  · exact (hc.candidate hrole).votes k p hp hold
  · rw [voter_of_testBit hc.peers_length hp hnew]
    exact hvote

omit hc in
theorem logIsUpToDate_sound {log : List Entry} {l : List Entry}
    (hrep : Represents core.log log) (hindex : message.lastLogIndex = l.length)
    (hterm : message.lastLogTerm = endTerm l) (h : logIsUpToDate core message = true) :
    UpToDate M.scheme l log := by
  unfold logIsUpToDate at h
  rw [hrep.lastTerm, hrep.lastIndex, hindex, hterm] at h
  split_ifs at h with hne
  · exact Or.inl (of_decide_eq_true h)
  · refine Or.inr ⟨?_, of_decide_eq_true h⟩
    simp only [bne_iff_ne, ne_eq, not_not] at hne
    exact hne.symm

theorem CoreOk.grantVote (h : GhostOk M g) (hballot : BallotOk g message)
    (hfrom : message.fromId ≠ 0)
    (hgranted : voteGranted core message = true) :
    Advance M n g (g.grant n message.fromId) ∧
      CoreOk M (g.grant n message.fromId) n (coreView { core with
        votedFor := message.fromId
        electionElapsedTicks := 0 }) := by
  simp only [voteGranted, Bool.and_eq_true, beq_iff_eq, Bool.or_eq_true] at hgranted
  obtain ⟨⟨⟨_, hterm⟩, hfree⟩, hfresh⟩ := hgranted
  obtain ⟨l, k, hb, hindex, hlast⟩ := hballot
  have hnow := hc.term_now
  have hvote : g.vote n core.term = voteOf core.votedFor := hc.durable.vote_eq
  rw [hterm, ← hnow] at hb
  have hadv : Advance M n g (g.grant n message.fromId) := by
    refine advance_grant h ?_ hb (logIsUpToDate_sound hc.durable.log_rep hindex hlast hfresh)
    rw [hnow, hvote]
    unfold voteOf
    rcases hfree with hzero | heq
    · exact Or.inl (by simp [hzero])
    · exact Or.inr (by simp [heq, hfrom])
  refine ⟨hadv, { hc with
    durable := { hc.durable with vote_eq := ?_ }
    leader := fun hrole => { hc.leader hrole with }
    candidate := fun hrole => { hc.candidate hrole with votes := ?_ } }⟩
  · change (g.grant n message.fromId).vote n core.term = voteOf message.fromId
    rw [voteOf, if_neg hfrom, ← hnow]
    simp [Chronicle.grant]
  · exact fun k p hp hbit => hadv.ext.book.vote _ _ _ ((hc.candidate hrole).votes k p hp hbit)

end Roles

variable {core : Core}

/-- At most one configuration above the commit index, and the transition knows about it. -/
def electionReady (core : Core) : Bool :=
  core.membershipTransition.pending ==
      confPairs (core.log.entries.drop (core.commitIndex - core.log.baseIndex)) &&
    decide (core.membershipTransition.pending.length ≤ 1)

def leaderMatch (core : Core) (peer : ℕ) : ℕ :=
  if voterIndex core core.selfId = some peer then logLastIndex core.log
  else if peer < core.peers.length then 0 else core.matchIndex peer

theorem leaderState_view (core : Core) :
    coreView (leaderState core) = { coreView core with
      role := .leader
      campaignTerm := 0
      votes := 0
      matchIndex := leaderMatch core } := by
  unfold leaderState
  cases hself : voterIndex core core.selfId with
  | none =>
    have hmatch : leaderMatch core =
        fun peer => if peer < core.peers.length then 0 else core.matchIndex peer := by
      funext peer
      simp [leaderMatch, hself]
    rw [hmatch]
    rfl
  | some self =>
    have hmatch : leaderMatch core = update
        (fun peer => if peer < core.peers.length then 0 else core.matchIndex peer) self
        (logLastIndex core.log + 1 - 1) := by
      funext peer
      by_cases hpeer : peer = self
      · simp [leaderMatch, hself, hpeer]
      · simp [leaderMatch, hself, hpeer, Ne.symm hpeer]
    rw [hmatch]
    rfl

theorem retained_above_commit {full : List Entry} {log : Log} {commitIndex : ℕ}
    (hrep : Represents log full) (hbase : log.baseIndex ≤ commitIndex) :
    log.entries.drop (commitIndex - log.baseIndex) = full.drop commitIndex := by
  rw [hrep.entries, List.drop_drop]
  congr 1
  omega

theorem confCount_eq_confPairs (M : Mode) (l : List Entry) :
    M.scheme.confCount l = (confPairs l).length := by
  unfold Scheme.confCount Mode.scheme
  rw [confs_eq_confPairs, List.length_map]

theorem confPairs_split (l : List Entry) (i : ℕ) :
    confPairs l = confPairs (l.take i) ++ confPairs (l.drop i) := by
  rw [← confPairs_append, List.take_append_drop]

theorem CoreBase.pending_of_ready (h : GhostOk M g) (hc : CoreBase M g n (coreView core))
    (hready : M.fixed = false → electionReady core = true) :
    core.membershipTransition.pending = confPairs ((g.log n).drop core.commitIndex) ∧
      M.scheme.confCount (g.log n) ≤ M.scheme.confCount ((g.log n).take (g.known n)) + 1 := by
  have hrep := hc.represents
  cases hfixed : M.fixed with
  | true =>
    have hplain := h.log_plain hfixed n
    have hdrop : confPairs ((g.log n).drop core.commitIndex) = [] := by
      rw [confPairs_split (g.log n) core.commitIndex] at hplain
      exact (List.append_eq_nil_iff.mp hplain).2
    constructor
    · rw [hdrop]
      exact hc.plain hfixed
    · rw [confCount_eq_confPairs, hplain]
      simp
  | false =>
    have hboth := hready hfixed
    simp only [electionReady, Bool.and_eq_true, beq_iff_eq, decide_eq_true_eq] at hboth
    obtain ⟨hpending, hlength⟩ := hboth
    rw [retained_above_commit hrep hc.base_le_commit] at hpending
    refine ⟨hpending, ?_⟩
    have htracked : M.tracked = true := M.follows.resolve_left (by simp [hfixed])
    have hknown : g.known n = core.commitIndex := by
      rw [hc.known_commit, Mode.known, if_pos htracked]
    rw [hpending] at hlength
    rw [confCount_eq_confPairs, confCount_eq_confPairs, hknown,
      confPairs_split (g.log n) core.commitIndex, List.length_append]
    omega

theorem CoreOk.elected (h : GhostOk M g) (hc : CoreOk M g n (coreView core))
    (hrole : core.role = .candidate) (hready : M.fixed = false → electionReady core = true)
    (hquorum : coreHasQuorum core core.votes = true) :
    Advance M n g (g.elect n) ∧ CoreOk M (g.elect n) n (coreView (leaderState core)) ∧
      (g.elect n).leader core.term = some n := by
  have hcand := hc.candidate hrole
  have hnow := hc.term_now
  have hself := hc.self_id
  obtain ⟨hpending, hcount⟩ := hc.toCoreBase.pending_of_ready h hready
  have hadv : Advance M n g (g.elect n) := by
    refine advance_elect h (V := { p | g.vote p core.term = some n }) ?_ ⟨?_, ?_, ?_, hcount⟩
    · rw [hnow]
      exact hcand.unelected
    · rw [hnow]
      exact hcand.ballot
    · rw [hc.toCoreBase.conf_known h]
      exact coreHasQuorum_sound hquorum fun k p hp hbit => hcand.votes k p hp hbit
    · rw [hnow]
      exact fun p hp => hp
  have hleads : (g.elect n).leader core.term = some n := by
    rw [← hnow]
    simp [Chronicle.elect]
  have hhistory : (g.elect n).history core.term = g.log n := by
    rw [← hnow]
    simp [Chronicle.elect]
  refine ⟨hadv, ?_, hleads⟩
  rw [leaderState_view]
  refine { hc with
    durable := hc.durable.of_same rfl rfl rfl rfl
    leader := fun _ => ⟨hleads, ?_, hpending, ?_⟩
    candidate := fun hrole => Role.noConfusion hrole
    preCandidate := fun hrole => Role.noConfusion hrole }
  · intro k p hp
    change MatchOk (g.elect n) n core.term p (leaderMatch core k)
    unfold leaderMatch
    split_ifs with hindex hlt
    · have hpeer := (voterIndex_sound hindex).2
      have hpn : p = n := (Option.some.inj (hp.symm.trans hpeer)).trans hself
      left
      rw [hpn, hadv.ok.inv.ledger.leader_ack _ _ hleads, hhistory]
      exact hc.represents.lastIndex.le
    · exact Or.inl (Nat.zero_le _)
    · obtain ⟨hk, _⟩ := List.getElem?_eq_some_iff.mp hp
      exact absurd hk hlt
  · -- nobody led this term before, so nothing was settled in it
    intro r hr hterm
    obtain ⟨_, _, hok⟩ := h.inv.ledger.record_ok hr
    obtain ⟨d, hd⟩ := Option.ne_none_iff_exists'.mp hok.led
    have hrterm : r.term = core.term := hterm
    rw [hrterm] at hd
    have hdn : d = n := Option.some.inj ((hadv.ext.book.leader _ _ hd).symm.trans hleads)
    exact absurd (hdn ▸ hd) hcand.unelected

section Progress

variable {i : ℕ} {disk : Disk}

/-- A core learns a commit index where these are followed. -/
def Mode.learn (M : Mode) (g : Ghost) (n : NodeId) (i : ℕ) : Ghost :=
  if M.tracked then g.learn n i else g

theorem Mode.learn_same (M : Mode) (g : Ghost) (n : NodeId) (i : ℕ) :
    (M.learn g n i).term = g.term ∧ (M.learn g n i).log = g.log ∧
      (M.learn g n i).toBook = g.toBook := by
  unfold Mode.learn
  split_ifs
  · exact ⟨rfl, rfl, rfl⟩
  · exact ⟨rfl, rfl, rfl⟩

theorem Mode.learn_known (M : Mode) {g : Ghost} {n : NodeId} {c : ℕ} (h : g.known n = M.known c)
    (i : ℕ) : (M.learn g n i).known n = M.known i := by
  unfold Mode.learn Mode.known at *
  split_ifs at h ⊢
  · simp [Chronicle.learn]
  · exact h

theorem Mode.advance_learn (h : GhostOk M g) (ahead : g.known n ≤ i) (bound : i ≤ (g.log n).length)
    (certified : M.tracked = true → g.Certified ((g.log n).take i) (g.term n + 1)) :
    Advance M n g (M.learn g n i) := by
  unfold Mode.learn
  split_ifs with ht
  · exact RaftRefinement.advance_learn h ahead bound (certified ht)
  · exact .refl h n

variable (hc : CoreOk M g n (coreView core))

include hc

theorem CoreOk.matchPeer {peer : ℕ} {p : NodeId}
    (hpeer : core.peers[peer]? = some p) (hmatch : core.role = .leader → MatchOk g n core.term p i)
    : CoreOk M g n (coreView (setMatch core peer i)) := by
  refine { hc with
    leader := fun hrole => { hc.leader hrole with matched := ?_ }
    candidate := fun hrole => { hc.candidate hrole with } }
  intro k q hq
  change MatchOk g n core.term q (update core.matchIndex peer i k)
  by_cases hk : k = peer
  · subst hk
    have hqp : q = p := Option.some.inj (hq.symm.trans hpeer)
    rw [update_self, hqp]
    exact hmatch hrole
  · rw [update_of_ne hk]
    exact (hc.leader hrole).matched k q hq

/-- The last appended configuration of a leader is the one in force after its whole log. -/
theorem CoreOk.transitionBase_eq (hrole : core.role = .leader) :
    transitionBase core.membershipTransition = M.scheme.conf (g.log n) := by
  have hpending : core.membershipTransition.pending = confPairs ((g.log n).drop core.commitIndex) :=
    (hc.leader hrole).pending
  have hconfs : M.scheme.confs ((g.log n).drop core.commitIndex) =
      (confPairs ((g.log n).drop core.commitIndex)).map Prod.fst := confs_eq_confPairs _
  conv_rhs => rw [← List.take_append_drop core.commitIndex (g.log n), conf_append, hconfs]
  unfold transitionBase
  rw [hpending, hc.committed, List.getLast?_map]

theorem CoreOk.no_final (h : GhostOk M g) (hfixed : M.fixed = true) :
    membershipTransitionNeedsFinal core.membershipTransition = false := by
  have hplain : confPairs ((g.log n).take core.commitIndex) = [] :=
    confPairs_shorten (List.take_prefix _ _) (h.log_plain hfixed n)
  unfold membershipTransitionNeedsFinal
  rw [hc.committed, M.conf_plain hplain, M.stable]
  rfl

theorem CoreOk.diskOk (hd : Durable disk core)
    (hfresh : disk.configuration = none → disk.snapshotIndex = 0)
    (hconfigured : ∀ c, disk.configuration = some c →
      c = M.scheme.conf ((g.log n).take disk.snapshotIndex)) : DiskOk M g n disk := by
  refine ⟨?_, hfresh, hconfigured⟩
  have hrep := hc.represents
  constructor
  case term_eq => exact hc.durable.term_eq.trans hd.term.symm
  case vote_eq =>
    rw [hd.term, hd.votedFor]
    exact hc.durable.vote_eq
  case log_rep =>
    refine ⟨?_, ?_, ?_⟩
    · change disk.snapshotIndex ≤ _
      rw [hd.base]
      exact hrep.base_le
    · change disk.entries = (g.log n).drop disk.snapshotIndex
      rw [hd.entries, hd.base]
      exact hrep.entries
    · change disk.snapshotTerm = endTerm ((g.log n).take disk.snapshotIndex)
      rw [hd.baseTerm, hd.base]
      exact hrep.baseTerm
  case base_le =>
    change disk.snapshotIndex ≤ disk.commitIndex
    rw [hd.base, hd.commit]
    exact hc.base_le_commit
  case commit_le =>
    rw [hd.commit]
    exact hc.commit_le_length
  case known_eq =>
    rw [hd.commit]
    exact hc.known_commit

theorem CoreOk.ballotOk (hrole : core.role = .candidate) (toId : NodeId) :
    BallotOk g (newMessage core .voteRequest toId false) := by
  have hrep := hc.represents
  refine ⟨g.log n, g.known n, ?_, hrep.lastIndex, hrep.lastTerm⟩
  change g.ballot core.term core.selfId = some (g.log n, g.known n)
  rw [hc.self_id]
  exact (hc.candidate hrole).ballot

end Progress

end RaftRefinement
