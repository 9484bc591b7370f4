import TurboRaft.RaftOutbox
import TurboRaft.RaftFollowerProgress

/-! # Calls against chronicles

A call first changes the fields that safety depends on and then emits messages. This
module says what the end of a call has to satisfy, and shows it for the calls that
change roles, terms and votes. -/
namespace RaftCallRefinement

open RaftTypes RaftLog RaftCoreState RaftCoreEmit RaftCoreStep RaftCore RaftCluster RaftLogLemmas
open Replication RaftEmission RaftRefinement RaftOutbox

variable {M : Mode} {n : NodeId} {g g' : Ghost} {disk : Disk} {core : Core} {call call' : Call}

structure SnapshotOk (g : Ghost) (n : NodeId) (r : SnapshotRequest) : Prop where
  leader : g.leader r.leaderTerm = some n
  term : r.leaderTerm = g.term n
  other : r.peerId ≠ n

structure Leading (M : Mode) (g : Ghost) (n : NodeId) (v : CoreView) : Prop where
  leads : g.leader v.term = some n
  self : v.selfId = n
  term : g.term n = v.term
  represents : Represents v.log (g.history v.term)
  commit : M.tracked = true → v.commitIndex ≤ (g.history v.term).length ∧
    g.Certified ((g.history v.term).take v.commitIndex) (v.term + 1)

theorem coreOk_leading (h : GhostOk M g) {v : CoreView} (hc : CoreOk M g n v)
    (hleads : g.leader v.term = some n) : Leading M g n v := by
  have hterm := hc.durable.term_eq
  have hlog : g.log n = g.history v.term := by
    rw [← hterm]
    exact (h.inv.node n).leader_log (by rw [hterm]; exact hleads)
  refine ⟨hleads, hc.self, hterm, hlog ▸ hc.durable.log_rep, ?_⟩
  intro ht
  have hknown : g.known n = v.commitIndex := by
    rw [hc.durable.known_eq, Mode.known, if_pos ht]
  have hcertified := (h.inv.node n).known_certified
  rw [hknown, hterm, hlog] at hcertified
  exact ⟨hlog ▸ hc.durable.commit_le, hcertified⟩

theorem replicationMessage_ok (hl : Leading M g n (coreView core)) {peer : ℕ}
    (hnext : core.log.baseIndex < core.nextIndex peer) (type : MessageType) (toId : NodeId) :
    RequestOk M g (replicationMessage core peer (newMessage core type toId false)) := by
  have hrep : Represents core.log (g.history core.term) := hl.represents
  have hlast := hrep.lastIndex
  constructor
  case leader =>
    change g.leader core.term = some core.selfId
    rw [show core.selfId = n from hl.self]
    exact hl.leads
  case slice =>
    let slice := logSlice core.log (core.nextIndex peer) (replicationCount core peer)
    have hslice : slice =
        ((g.history core.term).drop (core.nextIndex peer - 1)).take (replicationCount core peer) :=
      hrep.slice hnext _
    rcases hrep.previousTerm (show core.log.baseIndex ≤ core.nextIndex peer - 1 by omega) with
      ⟨hle, hterm⟩ | ⟨hbeyond, hterm⟩
    · left
      have hlength : slice.length = replicationCount core peer := by
        rw [hslice, List.length_take, List.length_drop]
        unfold replicationCount
        omega
      constructor
      case bound =>
        change core.nextIndex peer - 1 + slice.length ≤ (g.history core.term).length
        rw [hlength]
        unfold replicationCount
        omega
      case entries =>
        change slice =
          ((g.history core.term).drop (core.nextIndex peer - 1)).take slice.length
        rw [hlength, hslice]
      case previous => exact hterm
    · right
      refine ⟨hterm, show 0 < core.nextIndex peer - 1 by omega, ?_⟩
      change slice = []
      rw [hslice, List.drop_eq_nil_of_le (by omega), List.take_nil]
  case commit => exact hl.commit

theorem progressed_view {core' : Core} (h : Progressed core core') :
    coreView core' = coreView core := by
  obtain ⟨_, _, rfl⟩ := h
  rfl

/-- Whatever a leader replicates with is true of the chronicle. -/
theorem coreOk_speaks (h : GhostOk M g) (hc : CoreOk M g n (coreView core))
    (hleads : g.leader core.term = some n) : Speaks (MsgOk M g) (SnapshotOk g n) core := by
  have hl := coreOk_leading h hc hleads
  constructor
  · intro core' peer type hprogress htype hnext
    have hl' : Leading M g n (coreView core') := by
      rw [progressed_view hprogress]
      exact hl
    have hok := replicationMessage_ok hl' hnext type (peerId core' peer)
    rcases htype with rfl | rfl <;> exact hok
  · intro peer hother
    exact ⟨hleads, hc.term_now.symm, hc.self_id ▸ hother⟩

/-- What a Ready reports about log and commit index. -/
structure Report where
  logChanged : Bool
  logTruncateFrom : ℕ
  logEntries : List Entry
  commitChanged : Bool
  commitIndex : ℕ

def reportOf (ready : Ready) : Report :=
  { logChanged := ready.logChanged
    logTruncateFrom := ready.logTruncateFrom
    logEntries := ready.logEntries
    commitChanged := ready.commitChanged
    commitIndex := ready.commitIndex }

/-- The part of a call that only adds true messages and requests. -/
structure Sent (M : Mode) (g : Ghost) (n : NodeId) (call call' : Call) : Prop where
  view : coreView call'.core = coreView call.core
  report : reportOf call'.ready = reportOf call.ready
  messages : ∀ m ∈ call'.ready.messages, m ∈ call.ready.messages ∨ MsgOk M g m
  requests : ∀ r ∈ call'.ready.snapshotRequests,
    r ∈ call.ready.snapshotRequests ∨ SnapshotOk g n r

theorem Sent.trans {a b c : Call} (h : Sent M g n a b) (h' : Sent M g n b c) : Sent M g n a c where
  view := h'.view.trans h.view
  report := h'.report.trans h.report
  messages m hm := (h'.messages m hm).elim (h.messages m) Or.inr
  requests r hr := (h'.requests r hr).elim (h.requests r) Or.inr

theorem Sent.of_view (h : coreView core = coreView call.core) :
    Sent M g n call { call with core } :=
  ⟨h, rfl, fun _ hm => Or.inl hm, fun _ hr => Or.inl hr⟩

theorem Sent.refl (M : Mode) (g : Ghost) (n : NodeId) (call : Call) : Sent M g n call call :=
  .of_view rfl

theorem Sent.of_emitted (h : Emitted (MsgOk M g) (SnapshotOk g n) call call') :
    Sent M g n call call' := by
  obtain ⟨ms, rs, hready, hms, hrs⟩ := h.ready
  refine ⟨progressed_view h.core, ?_, ?_, ?_⟩
  · rw [hready]
    rfl
  · intro m hm
    rw [hready] at hm
    exact (List.mem_append.mp hm).imp id (hms m)
  · intro r hr
    rw [hready] at hr
    exact (List.mem_append.mp hr).imp id (hrs r)

theorem Sent.emitWith {type : MessageType} {toId : NodeId} {granted : Bool}
    {edit : Message → Message} (hmsg : MsgOk M g (edit (newMessage call.core type toId granted))) :
    Sent M g n call (emitWith call type toId granted edit).1 :=
  .of_emitted (emitWith_emitted hmsg)

theorem Sent.readEmitActive : Sent M g n call (readEmitActive call) :=
  ⟨rfl, rfl, fun _ hm => Or.inl hm, fun _ hr => Or.inl hr⟩

theorem Sent.readStartActiveBarrier : Sent M g n call (readStartActiveBarrier call) := by
  have hbarrier : Sent M g n call { call with core := readBarrier call.core } := .of_view rfl
  unfold RaftCoreEmit.readStartActiveBarrier
  dsimp only
  split_ifs
  · exact hbarrier.trans .readEmitActive
  · exact hbarrier.trans (.of_emitted (broadcastReadIndex_emitted fun _ => trivial))

theorem Sent.completeBarrier : Sent M g n call (completeBarrier call) := by
  have hactive : Sent M g n call (RaftCoreEmit.readEmitActive call) := .readEmitActive
  unfold RaftCoreStep.completeBarrier
  dsimp only
  split_ifs
  · apply hactive.trans
    refine Sent.trans ?_ .readStartActiveBarrier
    exact .of_view rfl
  · exact hactive

/-- The Ready reports what has to be added to the disk for it to hold the core. -/
structure Stored (disk : Disk) (call : Call) : Prop where
  entries : persistEntries disk call.ready = call.core.log.entries
  commit : (if call.ready.commitChanged then call.ready.commitIndex else disk.commitIndex) =
    call.core.commitIndex
  base : disk.snapshotIndex = call.core.log.baseIndex
  baseTerm : disk.snapshotTerm = call.core.log.baseTerm

structure CallOk (M : Mode) (g : Ghost) (n : NodeId) (disk : Disk) (call : Call) : Prop where
  core : CoreOk M g n (coreView call.core)
  stored : Stored disk call
  messages : ∀ m ∈ call.ready.messages, MsgOk M g m
  requests : ∀ r ∈ call.ready.snapshotRequests, SnapshotOk g n r

/-- The commit index of a leader moves in its term only by a record. -/
def Raised (g : Ghost) (before after : Core) : Prop :=
  before.role = .leader → after.term = before.term → before.commitIndex < after.commitIndex →
    ∃ r ∈ g.records, r.term = before.term ∧ r.index = after.commitIndex

theorem Raised.refl (g : Ghost) (core : Core) : Raised g core core :=
  fun _ _ hlt => absurd hlt (Nat.lt_irrefl _)

inductive Outcome (M : Mode) (g : Ghost) (n : NodeId) (disk : Disk) (core : Core) :
    Status × Call → Prop where
  | done {call : Call} (g' : Ghost) (advance : Advance M n g g') (ok : CallOk M g' n disk call)
      (raised : Raised g' core call.core) : Outcome M g n disk core (.ok, call)
  | failed {status : Status} {call : Call} (status_ne : status ≠ .ok)
      (view : coreView call.core = coreView core) : Outcome M g n disk core (status, call)

structure Started (M : Mode) (g : Ghost) (n : NodeId) (disk : Disk) (call : Call) : Prop where
  ghost : GhostOk M g
  core : CoreOk M g n (coreView call.core)
  durable : Durable disk call.core
  quiet : call.ready = resetReady call.ready.messageCapacity

theorem Stored.of_same (h : Stored disk call) (hlog : call'.core.log = call.core.log)
    (hcommit : call'.core.commitIndex = call.core.commitIndex)
    (hreport : reportOf call'.ready = reportOf call.ready) : Stored disk call' := by
  have hchanged : call'.ready.logChanged = call.ready.logChanged :=
    congrArg Report.logChanged hreport
  have hfrom : call'.ready.logTruncateFrom = call.ready.logTruncateFrom :=
    congrArg Report.logTruncateFrom hreport
  have hentries : call'.ready.logEntries = call.ready.logEntries :=
    congrArg Report.logEntries hreport
  have hmoved : call'.ready.commitChanged = call.ready.commitChanged :=
    congrArg Report.commitChanged hreport
  have hindex : call'.ready.commitIndex = call.ready.commitIndex :=
    congrArg Report.commitIndex hreport
  constructor
  · unfold persistEntries
    rw [hchanged, hfrom, hentries, hlog]
    exact h.entries
  · rw [hmoved, hindex, hcommit]
    exact h.commit
  · rw [hlog]
    exact h.base
  · rw [hlog]
    exact h.baseTerm

theorem CallOk.sent (h : CallOk M g n disk call) (hs : Sent M g n call call') :
    CallOk M g n disk call' where
  core := by rw [hs.view]; exact h.core
  stored :=
    h.stored.of_same (congrArg CoreView.log hs.view) (congrArg CoreView.commitIndex hs.view)
      hs.report
  messages m hm := (hs.messages m hm).elim (h.messages m) id
  requests r hr := (hs.requests r hr).elim (h.requests r) id

section

variable (hs : Started M g n disk call)

include hs

theorem Started.stored (hlog : core.log = call.core.log)
    (hcommit : core.commitIndex = call.core.commitIndex) :
    Stored disk { call with core } := by
  constructor
  · rw [hlog, ← hs.durable.entries, hs.quiet]
    rfl
  · rw [hcommit, ← hs.durable.commit, hs.quiet]
    rfl
  · rw [hlog]
    exact hs.durable.base
  · rw [hlog]
    exact hs.durable.baseTerm

theorem Started.callOk (hcore : CoreOk M g' n (coreView core))
    (hlog : core.log = call.core.log) (hcommit : core.commitIndex = call.core.commitIndex) :
    CallOk M g' n disk { call with core } where
  core := hcore
  stored := hs.stored hlog hcommit
  messages := by rw [hs.quiet]; exact fun m hm => absurd hm List.not_mem_nil
  requests := by rw [hs.quiet]; exact fun r hr => absurd hr List.not_mem_nil

theorem Started.done (hadv : Advance M n g g')
    (hcore : CoreOk M g' n (coreView core)) (hlog : core.log = call.core.log)
    (hcommit : core.commitIndex = call.core.commitIndex)
    (hsent : Sent M g' n { call with core } call') :
    Outcome M g n disk call.core (.ok, call') := by
  refine .done g' hadv ((hs.callOk hcore hlog hcommit).sent hsent) ?_
  intro _ _ hlt
  have hsame : call'.core.commitIndex = core.commitIndex := congrArg CoreView.commitIndex hsent.view
  omega

theorem Started.same (hsent : Sent M g n call call') :
    Outcome M g n disk call.core (.ok, call') :=
  hs.done (.refl hs.ghost n) hs.core rfl rfl hsent

end

theorem Outcome.refused {status : Status} (hstatus : status ≠ .ok) :
    Outcome M g n disk call.core (status, call) :=
  .failed hstatus rfl

theorem Started.follow (hs : Started M g n disk call) {t : ℕ} (hle : call.core.term ≤ t) :
    Outcome M g n disk call.core (.ok, { call with core := becomeFollower call.core t }) := by
  obtain ⟨hadv, hcore⟩ := hs.core.follow hs.ghost hle
  exact hs.done hadv hcore rfl rfl (.refl M _ n _)

def electsItself (core : Core) : Bool := coreHasQuorum core (indexBit (voterIndex core core.selfId))

def messageElects (core : Core) (m : Message) : Bool :=
  match m.type with
  | .voteResponse => willVoteWin core m (voterIndex core m.fromId)
  | .preVoteResponse => willPreVoteWin core m (voterIndex core m.fromId) && electsItself core
  | .timeoutNow => timeoutNowAccepted core m && electsItself core
  | _ => false

theorem Started.becomeLeader (hs : Started M g n disk call) (hadv : Advance M n g g')
    (hcore : CoreOk M g' n (coreView core)) (hlog : core.log = call.core.log)
    (hcommit : core.commitIndex = call.core.commitIndex) (hrole : core.role = .candidate)
    (hquorum : coreHasQuorum core core.votes = true)
    (hready : M.fixed = false → electionReady core = true) :
    Outcome M g n disk call.core (.ok, becomeLeader { call with core }) := by
  obtain ⟨helect, hleader, hleads⟩ := hcore.elected hadv.ok hrole hready hquorum
  have hview := leaderState_view core
  have hterm : (leaderState core).term = core.term := congrArg CoreView.term hview
  refine hs.done (hadv.trans helect) hleader ?_ ?_ ?_
  · exact (congrArg CoreView.log hview).trans hlog
  · exact (congrArg CoreView.commitIndex hview).trans hcommit
  · apply Sent.of_emitted
    apply broadcastReplication_emitted
    exact coreOk_speaks helect.ok hleader (by rw [hterm]; exact hleads)

theorem Started.startElection (hs : Started M g n disk call)
    (hcore : CoreOk M g n (coreView core)) (hlog : core.log = call.core.log)
    (hcommit : core.commitIndex = call.core.commitIndex)
    (hterm : core.campaignTerm = core.term + 1)
    (hready : M.fixed = false → electsItself core = true → electionReady core = true) :
    Outcome M g n disk call.core (.ok, startElection { call with core }) := by
  obtain ⟨hadv, hcandidate⟩ := hcore.campaign hs.ghost hterm
  unfold RaftCoreEmit.startElection
  dsimp only
  split_ifs with hquorum
  · apply hs.becomeLeader hadv hcandidate hlog hcommit rfl hquorum
    intro hfixed
    exact hready hfixed hquorum
  · exact hs.done hadv hcandidate hlog hcommit
      (.of_emitted (broadcast_emitted (CoreOk.ballotOk hcandidate rfl)))

theorem Started.startPreVote (hs : Started M g n disk call)
    (hview : coreView core = coreView call.core)
    (hready : M.fixed = false → electsItself core = true → electionReady core = true) :
    Outcome M g n disk call.core (.ok, startPreVote { call with core }) := by
  have hcore : CoreOk M g n (coreView core) := by
    rw [hview]
    exact hs.core
  have hlog : core.log = call.core.log := congrArg CoreView.log hview
  have hcommit : core.commitIndex = call.core.commitIndex := congrArg CoreView.commitIndex hview
  unfold RaftCoreEmit.startPreVote
  dsimp only
  split_ifs
  · exact hs.startElection hcore.preCampaign hlog hcommit rfl hready
  · refine hs.done (.refl hs.ghost n) hcore.preCampaign hlog hcommit
      (.of_emitted (broadcast_emitted fun _ => trivial))

section Votes

variable {m : Message}

variable (hs : Started M g n disk call)

include hs

theorem stepPreVoteRequest_outcome :
    Outcome M g n disk call.core (.ok, stepPreVoteRequest call m) := by
  have hcore : CoreOk M g n (coreView { call.core with campaignTerm := 0 }) :=
    hs.core.withCampaignTerm fun _ => Or.inl rfl
  apply hs.done (.refl hs.ghost n) hcore rfl rfl
  unfold stepPreVoteRequest RaftCoreEmit.emit RaftCoreEmit.emitWith
  split_ifs
  · exact .refl M g n _
  · refine ⟨rfl, rfl, ?_, fun _ hr => Or.inl hr⟩
    intro r hr
    rcases List.mem_append.mp hr with hr | hr
    · exact Or.inl hr
    · -- a grant answers a campaign term above the own term
      rw [List.mem_singleton.mp hr]
      right
      intro hgranted
      simp only [id_eq, newMessage, Bool.and_eq_true, decide_eq_true_eq] at hgranted ⊢
      omega

theorem stepPreVoteResponse_outcome (hm : MsgOk M g m) (htype : m.type = .preVoteResponse)
    (hready : M.fixed = false → messageElects call.core m = true →
      electionReady call.core = true) :
    Outcome M g n disk call.core
      (.ok, stepPreVoteResponse call m (voterIndex call.core m.fromId)) := by
  unfold stepPreVoteResponse
  split_ifs with hlater hignored
  · exact hs.follow hlater.le
  · exact hs.same (.refl M g n call)
  · simp only [Bool.or_eq_true, bne_iff_ne, ne_eq, Bool.not_eq_true', not_or, not_not,
      Bool.not_eq_false] at hignored
    obtain ⟨⟨⟨hrole, hcampaign⟩, hgranted⟩, hunset⟩ := hignored
    have hcore : CoreOk M g n (coreView { call.core with
        preVotes := call.core.preVotes ||| indexBit (voterIndex call.core m.fromId) }) := hs.core
    dsimp only
    split_ifs with hquorum
    · -- the grant names this campaign, whose term is therefore not zero
      apply hs.startElection hcore rfl rfl
      · have hsome : m.campaignTerm ≠ 0 := by
          unfold MsgOk at hm
          rw [htype] at hm
          exact hm hgranted
        rw [hcampaign] at hsome
        exact (hs.core.preCandidate hrole).resolve_left hsome
      · intro hfixed hself
        have hwins : willPreVoteWin call.core m (voterIndex call.core m.fromId) = true := by
          simp only [willPreVoteWin, Bool.and_eq_true, beq_iff_eq, decide_eq_true_eq]
          exact ⟨⟨⟨⟨⟨hrole, not_lt.mp hlater⟩, hcampaign⟩, hgranted⟩, hunset⟩, hquorum⟩
        apply hready hfixed
        unfold messageElects
        rw [htype]
        exact Bool.and_eq_true_iff.mpr ⟨hwins, hself⟩
    · exact hs.done (.refl hs.ghost n) hcore rfl rfl (.refl M g n _)

theorem stepVoteRequest_outcome (hm : MsgOk M g m)
    (htype : m.type = .voteRequest) (hfrom : m.fromId ≠ 0) :
    Outcome M g n disk call.core (.ok, stepVoteRequest call m) := by
  have hballot : BallotOk g m := by
    unfold MsgOk at hm
    rw [htype] at hm
    exact hm
  -- first the term of the request is taken over
  have hfollowed : ∃ g₁ core, Advance M n g g₁ ∧ CoreOk M g₁ n (coreView core) ∧ BallotOk g₁ m ∧
      core.log = call.core.log ∧ core.commitIndex = call.core.commitIndex ∧
      core = if call.core.term < m.term then becomeFollower call.core m.term else call.core := by
    by_cases hlater : call.core.term < m.term
    · obtain ⟨hadv, hcore⟩ := hs.core.follow hs.ghost hlater.le
      refine ⟨_, _, hadv, hcore, ?_, rfl, rfl, by rw [if_pos hlater]⟩
      obtain ⟨l, k, hb, hrest⟩ := hballot
      exact ⟨l, k, hadv.ext.book.ballot _ _ _ hb, hrest⟩
    · exact ⟨g, call.core, .refl hs.ghost n, hs.core, hballot, rfl, rfl, by rw [if_neg hlater]⟩
  obtain ⟨g₁, core, hadv, hcore, hballot, hlog, hcommit, heq⟩ := hfollowed
  unfold stepVoteRequest
  rw [← heq]
  dsimp only
  split_ifs with hgranted
  · obtain ⟨hgrant, hvoted⟩ := hcore.grantVote hadv.ok hballot hfrom hgranted
    refine hs.done (hadv.trans hgrant) hvoted hlog hcommit (.emitWith ?_)
    intro _
    change (g₁.grant n m.fromId).vote core.selfId core.term = some m.fromId
    rw [hcore.self_id, ← hcore.term_now]
    simp [Chronicle.grant]
  · refine hs.done hadv hcore hlog hcommit (.emitWith ?_)
    exact fun hfalse => Bool.noConfusion hfalse

theorem stepVoteResponse_outcome (hm : MsgOk M g m)
    (htype : m.type = .voteResponse) (hto : m.toId = n)
    (hready : M.fixed = false → messageElects call.core m = true →
      electionReady call.core = true) :
    Outcome M g n disk call.core
      (.ok, stepVoteResponse call m (voterIndex call.core m.fromId)) := by
  unfold stepVoteResponse
  split_ifs with hlater hignored
  · exact hs.follow hlater.le
  · exact hs.same (.refl M g n call)
  · simp only [Bool.or_eq_true, bne_iff_ne, ne_eq, Bool.not_eq_true', not_or, not_not,
      Bool.not_eq_false] at hignored
    obtain ⟨⟨⟨hrole, hterm⟩, hgranted⟩, hunset⟩ := hignored
    have hvote : g.vote m.fromId call.core.term = some n := by
      unfold MsgOk at hm
      rw [htype] at hm
      rw [← hterm, hm hgranted, hto]
    have hcore := hs.core.countVote hvote
    dsimp only
    split_ifs with hquorum
    · apply hs.becomeLeader (.refl hs.ghost n) hcore rfl rfl hrole hquorum
      intro hfixed
      apply hready hfixed
      unfold messageElects
      rw [htype]
      simp only [willVoteWin, Bool.and_eq_true, beq_iff_eq]
      exact ⟨⟨⟨⟨hrole, hterm⟩, hgranted⟩, hunset⟩, hquorum⟩
    · exact hs.done (.refl hs.ghost n) hcore rfl rfl (.refl M g n _)

theorem stepTimeoutNow_outcome (htype : m.type = .timeoutNow)
    (hready : M.fixed = false → messageElects call.core m = true →
      electionReady call.core = true) :
    Outcome M g n disk call.core (.ok, stepTimeoutNow call m) := by
  unfold stepTimeoutNow
  split_ifs with haccepted
  · have hcore : CoreOk M g n (coreView { call.core with
        campaignTerm := call.core.term + 1
        electionElapsedTicks := 0 }) :=
      hs.core.withCampaignTerm fun _ => Or.inr rfl
    apply hs.startElection hcore rfl rfl rfl
    intro hfixed hself
    apply hready hfixed
    unfold messageElects
    rw [htype]
    exact Bool.and_eq_true_iff.mpr ⟨haccepted, hself⟩
  · exact hs.same (.refl M g n call)

end Votes

variable {m : Message} (hs : Started M g n disk call)

include hs

theorem stepReadIndexRequest_outcome :
    Outcome M g n disk call.core (.ok, stepReadIndexRequest call m) := by
  unfold stepReadIndexRequest
  split_ifs
  · exact hs.same (.emitWith trivial)
  · exact hs.same (.refl M g n call)

theorem stepReadIndexResponse_outcome (voter : Option ℕ) :
    Outcome M g n disk call.core (.ok, stepReadIndexResponse call m voter) := by
  unfold stepReadIndexResponse
  split_ifs with hlater hignored
  · exact hs.follow hlater.le
  · exact hs.same (.refl M g n call)
  · dsimp only
    have hacked : Sent M g n call { call with core :=
        { call.core with pendingReadAcks := call.core.pendingReadAcks ||| indexBit voter } } :=
      .of_view rfl
    split_ifs
    · exact hs.same (hacked.trans .completeBarrier)
    · exact hs.same hacked

theorem readIndexBody_outcome (contextId : UInt64) :
    Outcome M g n disk call.core (readIndexBody contextId call) := by
  unfold readIndexBody
  split_ifs
  · exact .refused Status.noConfusion
  · exact .refused Status.noConfusion
  · exact .refused Status.noConfusion
  · exact .refused Status.noConfusion
  · apply hs.same
    apply Sent.of_view
    unfold joinRead
    split_ifs <;> rfl
  · exact .refused Status.noConfusion
  · apply hs.same
    refine Sent.trans ?_ .readStartActiveBarrier
    exact .of_view rfl

theorem Started.unchanged (status : Status) :
    Outcome M g n disk call.core (status, call) := by
  by_cases hstatus : status = .ok
  · rw [hstatus]
    exact hs.same (.refl M g n call)
  · exact .refused hstatus

theorem Started.tickHeartbeat (hrole : call.core.role = .leader)
    (hview : coreView core = coreView call.core) (ticks required : ℕ) :
    Outcome M g n disk call.core (tickHeartbeat { call with core } ticks required) := by
  have hterm : core.term = call.core.term := congrArg CoreView.term hview
  unfold RaftCore.tickHeartbeat
  split_ifs
  · exact .failed Status.noConfusion hview
  · have hbeaten : Sent M g n call
        { call with core := { core with heartbeatElapsedTicks := 0 } } := .of_view hview
    apply hs.same
    apply hbeaten.trans
    apply Sent.of_emitted
    apply broadcastReplication_emitted
    have hcore : CoreOk M g n (coreView { core with heartbeatElapsedTicks := 0 }) := by
      rw [hbeaten.view]
      exact hs.core
    apply coreOk_speaks hs.ghost hcore
    rw [hterm]
    exact (hs.core.leader hrole).leads
  · exact hs.same (.of_view hview)

end RaftCallRefinement
