import TurboRaft.RaftOperations

/-! # One core under arbitrary inputs

The inputs are messages nobody sent, calls in any order, every kind of acknowledgement and
compaction. One spec holds for every body of a call: the invariant of the core stays, the commit
index does not fall, and the Ready reports every change of the log and of the commit index. A body
that fails leaves the core as it was, except for the clocks of a leader whose heartbeats did not
fit. -/
namespace RaftCoreRuns

open RaftTypes RaftConfiguration RaftMembershipTransition RaftLog RaftCoreState RaftCoreEmit
open RaftCoreStep RaftCore RaftCluster RaftTransitionLemmas RaftRefinement RaftEmission
open RaftCallRefinement RaftLogReconcile RaftOutbox Executions

inductive Input where
  | step (message : Message) (capacity : ℕ)
  | call (operation : Operation) (capacity : ℕ)
  | ackReady (admitted : ℕ)
  | ackApplied (index : ℕ)
  | advance
  | setPeerPaused (peer : NodeId) (paused : Bool)
  | compact
  deriving DecidableEq, Repr

def withoutReady (result : Status × Core) : Status × Call :=
  (result.1, { core := result.2, ready := resetReady 0 })

def compactAtPoint (core : Core) : Status × Core :=
  match coreSnapshotPoint core with
  | .error status => (status, core)
  | .ok point => coreCompact core point

def perform (core : Core) : Input → Status × Call
  | .step message capacity => coreStep core message capacity
  | .call operation capacity => performOperation core operation capacity
  | .ackReady admitted => withoutReady (coreAckReady core admitted)
  | .ackApplied index => withoutReady (coreAckApplied core index)
  | .advance => withoutReady (coreAdvance core)
  | .setPeerPaused peer paused => withoutReady (coreSetPeerPaused core peer paused)
  | .compact => withoutReady (compactAtPoint core)

/-- Every input can be given in every state; a refused one changes what it changes. -/
def coreSystem (core : Core) : StepSystem Core Input :=
  { init := core, step := fun core input => some (perform core input).2.core }

/-- What every input keeps, also in the middle of a call. -/
structure LooseInv (core : Core) : Prop where
  pending : ∀ p ∈ core.membershipTransition.pending, core.commitIndex < p.2
  ascending : core.membershipTransition.pending.Pairwise fun a b => a.2 < b.2
  slots : SlotsOk core.log
  base_le : core.log.baseIndex ≤ core.appliedIndex
  applied_le : core.appliedIndex ≤ core.applyAdmittedIndex
  admitted_le : core.applyAdmittedIndex ≤ core.commitIndex
  commit_le : core.commitIndex ≤ logLastIndex core.log
  campaign : core.role = .preCandidate → core.campaignTerm = 0 ∨ core.campaignTerm = core.term + 1

/-- The peer set follows the configurations, except while one of them is being taken over. -/
structure CoreInv (core : Core) : Prop extends LooseInv core where
  peers : coreBuildPeerSet core.membershipTransition = .ok core.peers

/-- Between two calls no call is running, and what waits to be applied is what was handed
out last. -/
structure Resting (core : Core) : Prop extends CoreInv core where
  idle : core.inCall = false
  handed : core.pendingApplyIndex ≠ 0 →
    core.pendingApplyIndex = core.commitIndex ∧ core.readyOutstanding = true

theorem CoreInv.built {core : Core} (h : CoreInv core) : Built core.membershipTransition :=
  ⟨_, h.peers⟩

theorem CoreInv.base_le_commit (h : CoreInv core) : core.log.baseIndex ≤ core.commitIndex :=
  h.base_le.trans (h.applied_le.trans h.admitted_le)

theorem Resting.free (h : Resting core) (hfree : core.readyOutstanding = false) :
    core.pendingApplyIndex = 0 := by
  by_contra hwaits
  have := (h.handed hwaits).2
  rw [hfree] at this
  cases this

variable {transition staged : MembershipTransition} {commitIndex : ℕ} {core : Core}

/-- What the pending configurations of a transition satisfy between two moves. -/
structure Staged (transition : MembershipTransition) (commitIndex : ℕ) : Prop where
  built : Built transition
  above : ∀ p ∈ transition.pending, commitIndex < p.2
  ascending : transition.pending.Pairwise fun a b => a.2 < b.2

theorem CoreInv.transitionStaged (h : CoreInv core) :
    Staged core.membershipTransition core.commitIndex := ⟨h.built, h.pending, h.ascending⟩

theorem Staged.clear (h : Staged transition commitIndex) :
    Staged { transition with pending := [] } commitIndex :=
  ⟨h.built.clear, fun _ hp => absurd hp List.not_mem_nil, List.Pairwise.nil⟩

theorem Staged.stage (h : Staged transition commitIndex) {configuration : Conf} {index : ℕ}
    (hindex : commitIndex < index)
    (hok : membershipTransitionStage transition configuration index = .ok staged) :
    Staged staged commitIndex ∧ staged.committed = transition.committed := by
  cases hfound : transition.pending.find? (fun p => p.2 == index) with
  | some p =>
    simp only [membershipTransitionStage, hfound] at hok
    split_ifs at hok
    cases hok
    exact ⟨h, rfl⟩
  | none =>
    simp only [membershipTransitionStage, hfound] at hok
    split_ifs at hok with hzero hmany hfull
    cases hnext : membershipTransitionValidateNext transition configuration with
    | ok =>
      simp only [hnext, Except.ok.injEq] at hok
      subst hok
      refine ⟨⟨built_of_validateNext hnext, ?_, ?_⟩, rfl⟩
      · intro p hp
        rcases List.mem_append.mp hp with hp | hp
        · exact h.above p hp
        · rw [List.mem_singleton.mp hp]
          exact hindex
      · -- the new index lies above the last one, and so above all of them
        rw [List.pairwise_append]
        refine ⟨h.ascending, List.pairwise_singleton _ _, ?_⟩
        intro p hp q hq
        rw [List.mem_singleton.mp hq]
        simp only [Bool.or_eq_true, not_or] at hfull
        obtain ⟨front, last, hsplit⟩ :=
          (List.eq_nil_or_concat' transition.pending).resolve_left (List.ne_nil_of_mem hp)
        rw [hsplit, List.getLast?_concat] at hfull
        have hlast : last.2 < index := by simpa using hfull.2
        have hascending := h.ascending
        rw [hsplit] at hp hascending
        rcases List.mem_append.mp hp with hp | hp
        · exact ((List.pairwise_append.mp hascending).2.2 p hp last (by simp)).trans hlast
        · rw [List.mem_singleton.mp hp]
          exact hlast
    | _ =>
      simp only [hnext] at hok
      cases hok

theorem confEntryDecode_zero (configuration : Conf) :
    confEntryDecode zeroEntry ≠ .ok configuration := by
  intro h
  have hfails : (confEntryDecode zeroEntry).isOk = false := by decide
  rw [h] at hfails
  cases hfails

section

variable (h : Staged transition commitIndex)

include h

theorem Staged.stageEntries {entries : List Entry}
    (hentries : ∀ e ∈ entries, commitIndex < e.index ∨ e = zeroEntry)
    (hok : stageEntries transition entries = .ok staged) :
    Staged staged commitIndex ∧ staged.committed = transition.committed := by
  induction entries generalizing transition with
  | nil =>
    cases hok
    exact ⟨h, rfl⟩
  | cons entry rest ih =>
    have hrest : ∀ e ∈ rest, commitIndex < e.index ∨ e = zeroEntry :=
      fun e he => hentries e (List.mem_cons_of_mem _ he)
    rcases stageEntries_cons hok with ⟨_, hok⟩ | ⟨configuration, next, hdecode, hstage, hok⟩
    · exact ih h hrest hok
    · have habove : commitIndex < entry.index := by
        rcases hentries entry List.mem_cons_self with habove | hzero
        · exact habove
        · rw [hzero] at hdecode
          exact absurd hdecode (confEntryDecode_zero configuration)
      obtain ⟨hnext, hcommitted⟩ := h.stage habove hstage
      obtain ⟨hstaged, hsame⟩ := ih hnext hrest hok
      exact ⟨hstaged, hsame.trans hcommitted⟩

theorem Staged.apply (index : ℕ) :
    Staged (membershipTransitionApply transition index) index := by
  have hbuilt := h.built.apply index
  have hsuffix : ∀ (committed : Conf) (pending : List (Conf × ℕ)),
      pending.Pairwise (fun a b => a.2 < b.2) →
      (∀ p ∈ (applyPending index committed pending).pending, index < p.2) ∧
        (applyPending index committed pending).pending.Pairwise fun a b => a.2 < b.2 := by
    intro committed pending
    induction pending generalizing committed with
    | nil => exact fun _ => ⟨fun _ hp => absurd hp List.not_mem_nil, List.Pairwise.nil⟩
    | cons first rest ih =>
      intro hascending
      unfold applyPending
      by_cases hle : first.2 ≤ index
      · rw [if_pos hle]
        exact ih first.1 (List.pairwise_cons.mp hascending).2
      · rw [if_neg hle]
        refine ⟨?_, hascending⟩
        intro p hp
        rcases List.mem_cons.mp hp with rfl | hp
        · omega
        · have := (List.pairwise_cons.mp hascending).1 p hp
          omega
  obtain ⟨habove, hascending⟩ := hsuffix transition.committed transition.pending h.ascending
  exact ⟨hbuilt, habove, hascending⟩

/-- The commit limit never falls behind what is committed already. -/
theorem Staged.commitLimit {candidate : ℕ} (hcandidate : commitIndex ≤ candidate) :
    commitIndex ≤ membershipTransitionCommitLimit transition candidate := by
  unfold membershipTransitionCommitLimit
  cases hpending : transition.pending with
  | nil => exact hcandidate
  | cons first rest =>
    have := h.above first (by rw [hpending]; exact List.mem_cons_self)
    dsimp only
    split_ifs <;> omega

end

/-- A follower rebuilds its pending configurations from entries above its commit index. -/
theorem CoreInv.rebuild (h : CoreInv core) {retained : ℕ} {incoming : List Entry}
    (hok : coreRebuildPendingTransition core retained incoming = .ok staged) :
    Staged staged core.commitIndex ∧ staged.committed = core.membershipTransition.committed := by
  apply h.transitionStaged.clear.stageEntries _ hok
  intro e he
  rcases List.mem_append.mp he with hkept | hnew
  · obtain ⟨index, hindex, hget⟩ := List.mem_filterMap.mp hkept
    have hlow := (List.mem_range'_1.mp hindex).1
    rcases h.slots.get hget with hnamed | hzero
    · left
      omega
    · exact Or.inr hzero
  · left
    simpa using (List.mem_filter.mp hnew).2

/-- What the input of a call may be assumed to satisfy, apart from being an input: the entries
of a request are numbered, an election starts in a later term, and a request reaches the last
configuration of the log. `ticking` says that the input is this tick, with this capacity. -/
structure Faith where
  numbered : Prop
  campaigned : Prop
  reaching : Prop
  ticking : Tick → ℕ → Prop

variable {F : Faith} {L : Log → Prop} {core core' core'' : Core} {call call' : Call}

/-- The fields that only acknowledgements and the frame of a call change. -/
structure ApplyView where
  appliedIndex : ℕ
  applyAdmittedIndex : ℕ
  pendingApplyIndex : ℕ
  readyOutstanding : Bool
  inCall : Bool

def applyView (core : Core) : ApplyView :=
  { appliedIndex := core.appliedIndex
    applyAdmittedIndex := core.applyAdmittedIndex
    pendingApplyIndex := core.pendingApplyIndex
    readyOutstanding := core.readyOutstanding
    inCall := core.inCall }

/-- Only timers, progress and read state may have changed. -/
structure Inert (core core' : Core) : Prop where
  view : coreView core' = coreView core
  apply : applyView core' = applyView core

/-- The term does not fall, and a vote is kept for the rest of its term. -/
def KeepsVote (core core' : Core) : Prop :=
  core.term ≤ core'.term ∧
    (core'.term = core.term → core.votedFor ≠ 0 → core'.votedFor = core.votedFor)

def mirrorOf (core : Core) : Disk :=
  { term := core.term
    votedFor := core.votedFor
    snapshotIndex := core.log.baseIndex
    snapshotTerm := core.log.baseTerm
    configuration := none
    entries := core.log.entries
    commitIndex := core.commitIndex }

/-- The retained entries a core has committed, and those it has not. -/
def committedEntries (core : Core) : List Entry :=
  core.log.entries.take (core.commitIndex - core.log.baseIndex)

def pendingEntries (core : Core) : List Entry :=
  core.log.entries.drop (core.commitIndex - core.log.baseIndex)

/-- The configuration after some entries, when `base` is the one before them. -/
def confAfter (base : Conf) (entries : List Entry) : Conf :=
  (((confPairs entries).map Prod.fst).getLast?).getD base

structure Tracked (base : Conf) (core : Core) : Prop where
  named : Numbered core.log.baseIndex core.log.entries
  committed : core.membershipTransition.committed = confAfter base (committedEntries core)
  pending : core.membershipTransition.pending = confPairs (pendingEntries core)

def crossed (core core' : Core) : List Entry :=
  (core'.log.entries.drop (core.commitIndex - core.log.baseIndex)).take
    (core'.commitIndex - core.commitIndex)

/-- What the body of a call has written into its Ready, apart from messages and reads. -/
structure Notice where
  report : Report
  committed : List Entry

def noticeOf (ready : Ready) : Notice :=
  { report := reportOf ready, committed := ready.committedEntries }

/-- What a successful body did. The Ready is complete, and committed entries stay, when the
input was faithful. -/
structure Effect (F : Faith) (core : Core) (call : Call) : Prop where
  inv : CoreInv call.core
  apply : applyView call.core = applyView core
  commit_le : core.commitIndex ≤ call.core.commitIndex
  base : call.core.log.baseIndex = core.log.baseIndex
  stored : F.numbered → Stored (mirrorOf core) call
  kept : F.numbered → committedEntries core <+: call.core.log.entries
  settled : call.core.commitIndex = core.commitIndex →
    call.core.membershipTransition.committed = core.membershipTransition.committed
  steady : F.campaigned → KeepsVote core call.core
  tracked : F.numbered → F.reaching → ∀ base, Tracked base core →
    Tracked base call.core ∧ (confPairs (crossed core call.core)).length ≤ 1
  unoffered : call.ready.committedEntries = []

def agedCore (core : Core) (ticks : ℕ) : Core :=
  tickWindows (tickTransfer (tickQuorum core ticks) ticks) ticks

/-- A leader's heartbeats are due and do not fit into the Ready. -/
def heartbeatMissed (core : Core) (tick : Tick) (capacity : ℕ) : Bool :=
  timeoutValid core tick.nextElectionTimeoutTicks && core.role == .leader &&
    !membershipTransitionNeedsFinal core.membershipTransition &&
    !(tickReached core.checkQuorumElapsedTicks tick.elapsedTicks core.electionTimeoutTicks &&
      !coreHasQuorum core core.recentActive) &&
    tickReached core.heartbeatElapsedTicks tick.elapsedTicks core.heartbeatTicks &&
    decide (capacity < unpausedRemotePeerCount core)

inductive Ending (F : Faith) (core : Core) : Status × Call → Prop where
  | done {call : Call} (effect : Effect F core call) : Ending F core (.ok, call)
  | refused {status : Status} {call : Call} (status_ne : status ≠ .ok)
      (same : call.core = core) : Ending F core (status, call)
  | aged {call : Call} (tick : Tick) (capacity : ℕ) (ticking : F.ticking tick capacity)
      (missed : heartbeatMissed core tick capacity = true)
      (same : call.core = agedCore core tick.elapsedTicks) : Ending F core (.enospc, call)

/-- An effect that leaves the log of the core, or one that the input may lead to. -/
structure Deed (F : Faith) (L : Log → Prop) (core : Core) (call : Call) : Prop extends
    Effect F core call where
  log : call.core.log = core.log ∨ L call.core.log

def Closing (F : Faith) (L : Log → Prop) (core : Core) (result : Status × Call) : Prop :=
  Ending F core result ∧ (result.1 = .ok → result.2.core.log = core.log ∨ L result.2.core.log)

structure Begun (call : Call) : Prop where
  inv : CoreInv call.core
  quiet : noticeOf call.ready = noticeOf (resetReady 0)

/-- Log, commit index and configurations are those of the beginning. -/
structure Moved (F : Faith) (core core' : Core) : Prop where
  inv : CoreInv core'
  apply : applyView core' = applyView core
  log : core'.log = core.log
  commit : core'.commitIndex = core.commitIndex
  transition : core'.membershipTransition = core.membershipTransition
  steady : F.campaigned → KeepsVote core core'

section Endings

variable {P : Message → Prop} {Q : SnapshotRequest → Prop}

theorem Inert.refl (core : Core) : Inert core core := ⟨rfl, rfl⟩

theorem Inert.of_progressed (h : Progressed core core') : Inert core core' := by
  obtain ⟨next, windows, rfl⟩ := h
  exact ⟨rfl, rfl⟩

theorem KeepsVote.of_same (hterm : core'.term = core.term) (hvote : core'.votedFor = core.votedFor) :
    KeepsVote core core' :=
  ⟨hterm.ge, fun _ _ => hvote⟩

theorem KeepsVote.of_lt (h : core.term < core'.term) : KeepsVote core core' :=
  ⟨h.le, fun hsame => absurd hsame (by omega)⟩

theorem KeepsVote.then_same (h : KeepsVote core core') (hterm : core''.term = core'.term)
    (hvote : core''.votedFor = core'.votedFor) : KeepsVote core core'' := by
  obtain ⟨hle, hkept⟩ := h
  refine ⟨by omega, fun hsame hvoted => ?_⟩
  rw [hvote]
  exact hkept (by omega) hvoted

theorem KeepsVote.follow (h : KeepsVote core core') (t : ℕ) : KeepsVote core (becomeFollower core' t) := by
  by_cases hlater : core'.term < t
  · have hterm : (becomeFollower core' t).term = t := if_pos hlater
    have := h.1
    exact .of_lt (by omega)
  · exact h.then_same (if_neg hlater) (if_neg hlater)

theorem LooseInv.carry (h : LooseInv core)
    (htransition : core'.membershipTransition = core.membershipTransition)
    (hcommit : core'.commitIndex = core.commitIndex) (hlog : core'.log = core.log)
    (happlied : core'.appliedIndex = core.appliedIndex)
    (hadmitted : core'.applyAdmittedIndex = core.applyAdmittedIndex)
    (hcampaign : core'.role = .preCandidate →
      core'.campaignTerm = 0 ∨ core'.campaignTerm = core'.term + 1) : LooseInv core' := by
  constructor
  case pending => rw [htransition, hcommit]; exact h.pending
  case ascending => rw [htransition]; exact h.ascending
  case slots => rw [hlog]; exact h.slots
  case base_le => rw [hlog, happlied]; exact h.base_le
  case applied_le => rw [happlied, hadmitted]; exact h.applied_le
  case admitted_le => rw [hadmitted, hcommit]; exact h.admitted_le
  case commit_le => rw [hcommit, hlog]; exact h.commit_le
  case campaign => exact hcampaign

theorem CoreInv.of_views (h : CoreInv core) (hview : coreView core' = coreView core)
    (happly : applyView core' = applyView core) : CoreInv core' := by
  have htransition : core'.membershipTransition = core.membershipTransition :=
    congrArg CoreView.transition hview
  have hpeers : core'.peers = core.peers := congrArg CoreView.peers hview
  have hrole : core'.role = core.role := congrArg CoreView.role hview
  have hcampaign : core'.campaignTerm = core.campaignTerm := congrArg CoreView.campaignTerm hview
  have hterm : core'.term = core.term := congrArg CoreView.term hview
  constructor
  · apply h.toLooseInv.carry htransition (congrArg CoreView.commitIndex hview)
      (congrArg CoreView.log hview) (congrArg ApplyView.appliedIndex happly)
      (congrArg ApplyView.applyAdmittedIndex happly)
    rw [hrole, hcampaign, hterm]
    exact h.campaign
  · rw [htransition, hpeers]
    exact h.peers

theorem committedEntries_initial (core : Core) : committedEntries core <+: core.log.entries :=
  List.take_prefix _ _

theorem Tracked.of_same {base : Conf} (h : Tracked base core) (hlog : core'.log = core.log)
    (hcommit : core'.commitIndex = core.commitIndex)
    (htransition : core'.membershipTransition = core.membershipTransition) : Tracked base core' := by
  constructor
  case named => rw [hlog]; exact h.named
  case committed =>
    rw [htransition, committedEntries, hlog, hcommit]
    exact h.committed
  case pending =>
    rw [htransition, pendingEntries, hlog, hcommit]
    exact h.pending

theorem crossed_nothing (h : core'.commitIndex = core.commitIndex) : crossed core core' = [] := by
  rw [crossed, h, Nat.sub_self, List.take_zero]

theorem Moved.refl (h : CoreInv core) : Moved F core core :=
  ⟨h, rfl, rfl, rfl, rfl, fun _ => .of_same rfl rfl⟩

theorem Moved.inert (h : Moved F core core') (hinert : Inert core' core'') :
    Moved F core core'' where
  inv := h.inv.of_views hinert.view hinert.apply
  apply := hinert.apply.trans h.apply
  log := (congrArg CoreView.log hinert.view).trans h.log
  commit := (congrArg CoreView.commitIndex hinert.view).trans h.commit
  transition := (congrArg CoreView.transition hinert.view).trans h.transition
  steady hc := (h.steady hc).then_same (congrArg CoreView.term hinert.view)
    (congrArg CoreView.votedFor hinert.view)

theorem Effect.quiet (h : Moved F core call.core)
    (hnotice : noticeOf call.ready = noticeOf (resetReady 0)) : Effect F core call where
  inv := h.inv
  apply := h.apply
  commit_le := h.commit.ge
  base := by rw [h.log]
  stored _ := by
    have hreport := congrArg Notice.report hnotice
    have hchanged : call.ready.logChanged = false := congrArg Report.logChanged hreport
    have hmoved : call.ready.commitChanged = false := congrArg Report.commitChanged hreport
    constructor
    · unfold persistEntries
      rw [hchanged, h.log]
      rfl
    · rw [hmoved, h.commit]
      rfl
    · rw [h.log]
      rfl
    · rw [h.log]
      rfl
  kept _ := by
    rw [h.log]
    exact committedEntries_initial core
  settled _ := congrArg MembershipTransition.committed h.transition
  steady := h.steady
  tracked _ _ base htracked := by
    refine ⟨htracked.of_same h.log h.commit h.transition, ?_⟩
    rw [crossed_nothing h.commit]
    exact Nat.zero_le _
  unoffered := congrArg Notice.committed hnotice

theorem Effect.inert (h : Effect F core call) (hinert : Inert call.core call'.core)
    (hnotice : noticeOf call'.ready = noticeOf call.ready) : Effect F core call' := by
  have hreport := congrArg Notice.report hnotice
  have hlog : call'.core.log = call.core.log := congrArg CoreView.log hinert.view
  have hcommit : call'.core.commitIndex = call.core.commitIndex :=
    congrArg CoreView.commitIndex hinert.view
  have htransition : call'.core.membershipTransition = call.core.membershipTransition :=
    congrArg CoreView.transition hinert.view
  constructor
  case inv => exact h.inv.of_views hinert.view hinert.apply
  case apply => exact hinert.apply.trans h.apply
  case commit_le => rw [hcommit]; exact h.commit_le
  case base => rw [hlog]; exact h.base
  case stored => exact fun hf => (h.stored hf).of_same hlog hcommit hreport
  case kept =>
    intro hf
    rw [hlog]
    exact h.kept hf
  case settled =>
    rw [hcommit, htransition]
    exact h.settled
  case steady =>
    intro hc
    exact (h.steady hc).then_same (congrArg CoreView.term hinert.view)
      (congrArg CoreView.votedFor hinert.view)
  case tracked =>
    intro hf hr base htracked
    obtain ⟨hnext, hcrossed⟩ := h.tracked hf hr base htracked
    refine ⟨hnext.of_same hlog hcommit htransition, ?_⟩
    rw [crossed, hlog, hcommit]
    exact hcrossed
  case unoffered => exact (congrArg Notice.committed hnotice).trans h.unoffered

theorem Deed.quiet (h : Moved F core call.core)
    (hnotice : noticeOf call.ready = noticeOf (resetReady 0)) : Deed F L core call :=
  ⟨.quiet h hnotice, Or.inl h.log⟩

theorem Deed.inert (h : Deed F L core call) (hinert : Inert call.core call'.core)
    (hnotice : noticeOf call'.ready = noticeOf call.ready) : Deed F L core call' := by
  refine ⟨h.toEffect.inert hinert hnotice, ?_⟩
  rw [show call'.core.log = call.core.log from congrArg CoreView.log hinert.view]
  exact h.log

theorem Closing.done (h : Deed F L core call) : Closing F L core (.ok, call) :=
  ⟨.done h.toEffect, fun _ => h.log⟩

theorem Closing.refused {status : Status} (hstatus : status ≠ .ok) (hsame : call.core = core) :
    Closing F L core (status, call) :=
  ⟨.refused hstatus hsame, fun hok => absurd hok hstatus⟩

theorem emitted_notice (h : Emitted P Q call call') : noticeOf call'.ready = noticeOf call.ready := by
  obtain ⟨ms, rs, hready, _⟩ := h.ready
  rw [hready]
  rfl

theorem Deed.emitted (h : Deed F L core call)
    (he : Emitted P Q call call') : Deed F L core call' :=
  h.inert (.of_progressed he.core) (emitted_notice he)

theorem Begun.moved (h : Begun call) (hmoved : Moved F call.core core') :
    Deed F L call.core { call with core := core' } :=
  .quiet hmoved h.quiet

theorem Begun.report (h : Begun call) : reportOf call.ready = reportOf (resetReady 0) :=
  congrArg Notice.report h.quiet

theorem Begun.same (h : Begun call) : Deed F L call.core call := .quiet (.refl h.inv) h.quiet

theorem Begun.unchanged (h : Begun call) (status : Status) : Closing F L call.core (status, call) := by
  by_cases hstatus : status = .ok
  · rw [hstatus]
    exact .done h.same
  · exact .refused hstatus rfl

theorem emit_anything {type : MessageType} {toId : NodeId} {granted : Bool}
    {edit : Message → Message} :
    Emitted (fun _ => True) (fun _ => True) call (emitWith call type toId granted edit).1 :=
  emitWith_emitted trivial

end Endings

theorem Moved.follow (h : Moved F core core') (t : ℕ) : Moved F core (becomeFollower core' t) :=
  { h with
    inv := { h.inv with campaign := fun hrole => Role.noConfusion hrole }
    steady := fun hc => (h.steady hc).follow t }

theorem Begun.follow (h : Begun call) (t : ℕ) :
    Deed F L call.core { call with core := becomeFollower call.core t } :=
  h.moved ((Moved.refl h.inv).follow t)

theorem leaderState_apply (core : Core) : applyView (leaderState core) = applyView core := by
  unfold leaderState
  cases voterIndex core core.selfId <;> rfl

theorem Moved.lead (h : Moved F core core') : Moved F core (leaderState core') := by
  have hview := leaderState_view core'
  have hrole : (leaderState core').role = .leader := congrArg CoreView.role hview
  have hlog : (leaderState core').log = core'.log := congrArg CoreView.log hview
  have hcommit : (leaderState core').commitIndex = core'.commitIndex :=
    congrArg CoreView.commitIndex hview
  have htransition : (leaderState core').membershipTransition = core'.membershipTransition :=
    congrArg CoreView.transition hview
  have hpeers : (leaderState core').peers = core'.peers := congrArg CoreView.peers hview
  have happly := leaderState_apply core'
  constructor
  case inv =>
    constructor
    · apply h.inv.toLooseInv.carry htransition hcommit hlog (congrArg ApplyView.appliedIndex happly)
        (congrArg ApplyView.applyAdmittedIndex happly)
      intro hpre
      rw [hrole] at hpre
      cases hpre
    · rw [htransition, hpeers]
      exact h.inv.peers
  case apply => exact happly.trans h.apply
  case log => exact hlog.trans h.log
  case commit => exact hcommit.trans h.commit
  case transition => exact htransition.trans h.transition
  case steady =>
    intro hc
    exact (h.steady hc).then_same (congrArg CoreView.term hview) (congrArg CoreView.votedFor hview)

theorem Begun.becomeLeader (h : Begun call) (hmoved : Moved F call.core core') :
    Deed F L call.core (becomeLeader { call with core := core' }) :=
  (h.moved hmoved.lead).emitted (broadcastReplication_emitted (speaks_anything _))

theorem Moved.candidate (h : Moved F core core')
    (hsteady : F.campaigned → KeepsVote core (candidateState core')) :
    Moved F core (candidateState core') :=
  { h with
    inv := { h.inv with campaign := fun hrole => Role.noConfusion hrole }
    steady := hsteady }

theorem Begun.startElection (h : Begun call) (hmoved : Moved F call.core core')
    (hsteady : F.campaigned → KeepsVote call.core (candidateState core')) :
    Deed F L call.core (startElection { call with core := core' }) := by
  have hcandidate := hmoved.candidate hsteady
  unfold RaftCoreEmit.startElection
  dsimp only
  split_ifs
  · exact h.becomeLeader hcandidate
  · exact (h.moved hcandidate).emitted (P := fun _ => True) (Q := fun _ => True)
      (broadcast_emitted fun _ => trivial)

theorem Moved.preCandidate (h : Moved F core core') : Moved F core (preCandidateState core') :=
  { h with
    inv := { h.inv with campaign := fun _ => Or.inr rfl }
    steady := fun hc => (h.steady hc).then_same rfl rfl }

theorem Begun.startPreVote (h : Begun call) (hmoved : Moved F call.core core')
    (hterm : core'.term = call.core.term) :
    Deed F L call.core (startPreVote { call with core := core' }) := by
  unfold RaftCoreEmit.startPreVote
  dsimp only
  split_ifs
  · apply h.startElection hmoved.preCandidate
    intro _
    apply KeepsVote.of_lt
    change call.core.term < core'.term + 1
    omega
  · exact (h.moved hmoved.preCandidate).emitted (P := fun _ => True) (Q := fun _ => True)
      (broadcast_emitted fun _ => trivial)

section Votes

variable {m : Message}

theorem Moved.campaignTerm (h : Moved F core core') {t : ℕ} (ht : t = 0 ∨ t = core'.term + 1) :
    Moved F core { core' with campaignTerm := t } :=
  { h with
    inv := { h.inv with campaign := fun _ => ht }
    steady := fun hc => (h.steady hc).then_same rfl rfl }

theorem stepPreVoteRequest_effect (h : Begun call) :
    Deed F L call.core (stepPreVoteRequest call m) := by
  have hmoved : Moved F call.core { call.core with campaignTerm := 0 } :=
    (Moved.refl h.inv).campaignTerm (Or.inl rfl)
  unfold stepPreVoteRequest RaftCoreEmit.emit RaftCoreEmit.emitWith
  split_ifs
  · exact .quiet hmoved h.quiet
  · exact .quiet hmoved h.quiet

/-- The pre-votes are won, but the campaign they were for has been forgotten: the election
would take place in term zero. -/
def campaignForgotten (core : Core) (m : Message) : Bool :=
  m.type == .preVoteResponse && willPreVoteWin core m (voterIndex core m.fromId) &&
    core.campaignTerm == 0 &&
    (core.term != 0 || (core.votedFor != 0 && core.votedFor != core.selfId))

theorem CoreInv.elects (h : CoreInv core) (hrole : core.role = .preCandidate)
    (hforgotten : core.campaignTerm = 0 →
      core.term = 0 ∧ (core.votedFor = 0 ∨ core.votedFor = core.selfId)) :
    KeepsVote core (candidateState core) := by
  rcases h.campaign hrole with hzero | hnext
  · obtain ⟨hterm, hvote⟩ := hforgotten hzero
    refine ⟨?_, fun _ hvoted => (hvote.resolve_left hvoted).symm⟩
    omega
  · apply KeepsVote.of_lt
    change core.term < core.campaignTerm
    omega

theorem stepPreVoteResponse_effect (h : Begun call) (htype : m.type = .preVoteResponse)
    (hkept : F.campaigned → campaignForgotten call.core m = false) :
    Deed F L call.core (stepPreVoteResponse call m (voterIndex call.core m.fromId)) := by
  unfold stepPreVoteResponse
  split_ifs with hlater hignored
  · exact h.follow _
  · exact h.same
  · simp only [Bool.or_eq_true, not_or, bne_iff_ne, ne_eq, Decidable.not_not] at hignored
    obtain ⟨⟨⟨hrole, hcampaign⟩, hgranted⟩, hfresh⟩ := hignored
    have hcounted : Moved F call.core { call.core with
        preVotes := call.core.preVotes ||| indexBit (voterIndex call.core m.fromId) } :=
      (Moved.refl h.inv).inert ⟨rfl, rfl⟩
    dsimp only
    split_ifs with hquorum
    · apply h.startElection hcounted
      intro hc
      have hremembered := hkept hc
      refine h.inv.elects hrole fun hzero => ?_
      by_contra hbad
      have hwins : willPreVoteWin call.core m (voterIndex call.core m.fromId) = true := by
        simp only [Bool.not_eq_true, Bool.not_eq_false'] at hgranted hfresh
        unfold willPreVoteWin
        simp only [Bool.and_eq_true, beq_iff_eq, decide_eq_true_eq]
        exact ⟨⟨⟨⟨⟨hrole, by omega⟩, hcampaign⟩, hgranted⟩, hfresh⟩, hquorum⟩
      have hfails : campaignForgotten call.core m = true := by
        unfold campaignForgotten
        simp only [htype, hwins, hzero, BEq.rfl, Bool.true_and, Bool.or_eq_true, bne_iff_ne,
          Bool.and_eq_true]
        tauto
      rw [hfails] at hremembered
      cases hremembered
    · exact h.moved hcounted

/-- The vote request of a later term makes the core a follower of that term first. -/
def termFollowed (core : Core) (m : Message) : Core :=
  if core.term < m.term then becomeFollower core m.term else core

theorem Moved.termFollowed (h : CoreInv core) : Moved F core (termFollowed core m) := by
  unfold RaftCoreRuns.termFollowed
  split_ifs
  · exact (Moved.refl h).follow _
  · exact .refl h

theorem stepVoteRequest_effect (h : Begun call) : Deed F L call.core (stepVoteRequest call m) := by
  have hfollowed : Moved F call.core (termFollowed call.core m) := .termFollowed h.inv
  change Deed F L call.core (if voteGranted (termFollowed call.core m) m = true then _ else _)
  by_cases hgranted : voteGranted (termFollowed call.core m) m = true
  · rw [if_pos hgranted]
    have hvoted : Moved F call.core { termFollowed call.core m with
        votedFor := m.fromId
        electionElapsedTicks := 0 } := by
      refine ⟨{ hfollowed.inv with }, hfollowed.apply, hfollowed.log, hfollowed.commit,
        hfollowed.transition, ?_⟩
      intro hc
      obtain ⟨hle, hsame⟩ := hfollowed.steady hc
      refine ⟨hle, fun hterm hvoted => ?_⟩
      unfold voteGranted at hgranted
      simp only [Bool.and_eq_true, Bool.or_eq_true, beq_iff_eq] at hgranted
      have hvote := hsame hterm hvoted
      rcases hgranted.1.2 with hzero | hfrom
      · exact absurd (hvote.symm.trans hzero) hvoted
      · exact hfrom.symm.trans hvote
    exact (h.moved hvoted).emitted emit_anything
  · rw [if_neg hgranted]
    exact (h.moved hfollowed).emitted emit_anything

theorem stepVoteResponse_effect (h : Begun call) (voter : Option ℕ) :
    Deed F L call.core (stepVoteResponse call m voter) := by
  unfold stepVoteResponse
  split_ifs
  · exact h.follow _
  · exact h.same
  · have hcounted : Moved F call.core { call.core with
        votes := call.core.votes ||| indexBit voter } :=
      ⟨{ h.inv with }, rfl, rfl, rfl, rfl, fun _ => .of_same rfl rfl⟩
    dsimp only
    split_ifs
    · exact h.becomeLeader hcounted
    · exact h.moved hcounted

theorem stepTimeoutNow_effect (h : Begun call) : Deed F L call.core (stepTimeoutNow call m) := by
  unfold stepTimeoutNow
  split_ifs
  · have hmoved : Moved F call.core { call.core with
        campaignTerm := call.core.term + 1
        electionElapsedTicks := 0 } :=
      ((Moved.refl h.inv).campaignTerm (Or.inr rfl)).inert ⟨rfl, rfl⟩
    exact h.startElection hmoved fun _ => .of_lt (Nat.lt_succ_self _)
  · exact h.same

end Votes

variable {m : Message}

theorem readEmitActive_effect (h : Deed F L core call) : Deed F L core (readEmitActive call) :=
  h.inert ⟨rfl, rfl⟩ rfl

theorem readStartActiveBarrier_effect (h : Deed F L core call) :
    Deed F L core (readStartActiveBarrier call) := by
  have hbarrier : Deed F L core { call with core := readBarrier call.core } :=
    h.inert ⟨rfl, rfl⟩ rfl
  unfold RaftCoreEmit.readStartActiveBarrier
  dsimp only
  split_ifs
  · exact readEmitActive_effect hbarrier
  · exact hbarrier.emitted (P := fun _ => True) (Q := fun _ => True)
      (broadcastReadIndex_emitted fun _ => trivial)

theorem stepReadIndexRequest_effect (h : Begun call) :
    Deed F L call.core (stepReadIndexRequest call m) := by
  unfold stepReadIndexRequest
  split_ifs
  · exact h.same.emitted emit_anything
  · exact h.same

theorem completeBarrier_effect (h : Deed F L core call) : Deed F L core (completeBarrier call) := by
  have hactive := readEmitActive_effect h
  unfold completeBarrier
  dsimp only
  split_ifs
  · apply readStartActiveBarrier_effect
    exact hactive.inert ⟨rfl, rfl⟩ rfl
  · exact hactive

theorem stepReadIndexResponse_effect (h : Begun call) (voter : Option ℕ) :
    Deed F L call.core (stepReadIndexResponse call m voter) := by
  unfold stepReadIndexResponse
  split_ifs
  · exact h.follow _
  · exact h.same
  · have hcounted : Deed F L call.core { call with core :=
        { call.core with pendingReadAcks := call.core.pendingReadAcks ||| indexBit voter } } :=
      h.same.inert ⟨rfl, rfl⟩ rfl
    dsimp only
    split_ifs
    · exact completeBarrier_effect hcounted
    · exact hcounted

theorem readIndexBody_ending (h : Begun call) (contextId : UInt64) :
    Closing F L call.core (readIndexBody contextId call) := by
  unfold readIndexBody
  split_ifs
  · exact .refused (by decide) rfl
  · exact .refused (by decide) rfl
  · exact .refused (by decide) rfl
  · exact .refused (by decide) rfl
  · have hjoined : Inert call.core (joinRead call.core contextId) := by
      unfold joinRead
      split_ifs <;> exact ⟨rfl, rfl⟩
    exact .done (h.same.inert hjoined rfl)
  · exact .refused (by decide) rfl
  · apply Closing.done
    apply readStartActiveBarrier_effect
    exact h.same.inert ⟨rfl, rfl⟩ rfl

theorem Moved.setMatch (h : Moved F core core') (peer index : ℕ) :
    Moved F core (setMatch core' peer index) :=
  { h with inv := { h.inv with } }

theorem Moved.setWindow (h : Moved F core core') (peer : ℕ) (window : AppendWindow) :
    Moved F core (setWindow core' peer window) :=
  h.inert ⟨rfl, rfl⟩

theorem Moved.setNext (h : Moved F core core') (peer next : ℕ) :
    Moved F core (setNext core' peer next) :=
  h.inert ⟨rfl, rfl⟩

theorem Moved.restartPeer (h : Moved F core core') (peer snapshotIndex : ℕ) :
    Moved F core (restartPeer core' peer snapshotIndex) := by
  unfold RaftCore.restartPeer
  split_ifs
  · exact ((h.setMatch _ _).setNext _ _).setWindow _ _
  · exact (h.setNext _ _).setWindow _ _

end RaftCoreRuns
