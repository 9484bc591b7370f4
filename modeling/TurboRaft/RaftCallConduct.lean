import TurboRaft.RaftCallContracts
import TurboRaft.RaftResponseConduct

/-! # Conduct along runs

What all calls send, as inputs of one core: to whom and in which role, and how much of it. Two
inputs break the rules. A response, or a proposal, that commits a configuration can go on with
a peer index or a leadership that is gone; and an answer can be sent that nobody asked room
for. -/
namespace RaftCallConduct

open RaftTypes RaftMembershipTransition RaftLog RaftCoreState RaftCoreEmit RaftCoreStep RaftCore
open RaftCluster RaftTransitionLemmas RaftQuorum RaftRefinement RaftCoreRuns RaftOutbox RaftConduct
open RaftCoreHistories RaftCoreProgress RaftLeaderConduct RaftOrder RaftResponseConduct

variable {core core' : Core} {call call' : Call} {T : Terms} {capacity : ℕ}

inductive Conducted (T : Terms) (core : Core) (capacity : ℕ) : Status × Call → Prop where
  | done {call : Call} (conduct : Conduct T (beginCall core capacity) call) :
      Conducted T core capacity (.ok, call)
  | failed {status : Status} {call : Call} (status_ne : status ≠ .ok)
      (silent : ∃ room, call.ready = resetReady room) : Conducted T core capacity (status, call)

theorem beginCall_blank (h : Resting core) (horderly : Orderly core) :
    Blank (beginCall core capacity) where
  inv := { h.toCoreInv with }
  orderly := { horderly with }
  messages := rfl
  requests := rfl
  states := rfl
  roles := rfl

theorem refuse_conducted {status : Status} (hstatus : status ≠ .ok) :
    Conducted T core capacity (refuse core capacity status) :=
  .failed hstatus ⟨capacity, rfl⟩

theorem runCall_conducted {body : Call → Status × Call} (h : Resting core) (horderly : Orderly core)
    (hbody : Blank (beginCall core capacity) → ∀ call,
      body (beginCall core capacity) = (.ok, call) → Conduct T (beginCall core capacity) call) :
    Conducted T core capacity (runCall core capacity body) := by
  unfold runCall
  split_ifs
  · exact refuse_conducted Status.noConfusion
  have hconduct := hbody (beginCall_blank h horderly)
  cases hresult : body (beginCall core capacity) with
  | mk status call =>
    cases status with
    | ok => exact .done ((hconduct call hresult).finish _)
    | _ => exact .failed Status.noConfusion ⟨_, rfl⟩

section Inputs

variable {m : Message} {peer : ℕ}

def isResponse (m : Message) : Bool := m.type == .heartbeatResponse || m.type == .appendResponse

def proposalsAccepted (core : Core) (proposals : List Proposal) (capacity : ℕ) : Bool :=
  !(proposals.length == 0 || maxProposalBatch < proposals.length || !proposals.all proposalValid) &&
    !beginRefused core && proposalsTaken core proposals capacity

/-- The response or proposal is accepted, commits a configuration and then sends with an index
or a leadership that the commit has taken away, or transfers the leadership to a node that
cannot take it over. -/
def misdirects (core : Core) : Input → Bool
  | .step m capacity =>
    stepTaken core m capacity && isResponse m &&
      match peerIndex core m.fromId with
      | none => false
      | some peer => responseTaken core m peer && grantMisleads core capacity m peer
  | .call (.propose proposals) capacity =>
    proposalsAccepted core proposals capacity &&
      replicatesDeposed (proposedCore core proposals) capacity
  | _ => false

/-- The Ready has no room at all, and the step sends something it did not ask room for: the
transfer to a sender whose response did not reach the end of the log, or the answer to a paused
sender that its own request has removed from the peers. -/
def overflows (core : Core) : Input → Bool
  | .step m capacity =>
    stepTaken core m capacity && capacity == 0 &&
      match peerIndex core m.fromId with
      | none => false
      | some peer =>
        (isResponse m && responseTaken core m peer && transferUnasked core m peer) ||
          (isRequest m && !requestMalformed m && decide (core.term ≤ m.term) &&
            peerPaused core m.fromId && senderDropped core m)
  | _ => false

def committedPeers (core : Core) : Input → List NodeId
  | .step m capacity =>
    match peerIndex core m.fromId with
    | none => core.peers
    | some peer =>
      if stepTaken core m capacity && isResponse m && responseTaken core m peer then
        transitionPeers (responseTransition core m peer)
      else
        core.peers
  | .call (.propose proposals) _ => transitionPeers (reachedTransition (proposedCore core proposals))
  | .call (.tick _) _ =>
    match membershipTransitionFinal core.membershipTransition with
    | .error _ => core.peers
    | .ok configuration => transitionPeers (reachedTransition (configuredCore core configuration))
  | _ => core.peers

/-- The commit of an input gives the bit of an acknowledged read to another peer. -/
def movesAcks (core : Core) (input : Input) : Bool :=
  (List.range (committedPeers core input).length).any fun k =>
    core.pendingReadAcks.testBit k && (committedPeers core input)[k]? != core.peers[k]?

def isReading : Input → Bool
  | .step m _ => m.type == .readIndexResponse
  | .call (.readIndex _) _ => true
  | .call .poll _ => true
  | _ => false

def termsOf (core : Core) (input : Input) : Terms where
  settled := misdirects core input = false
  roomy := overflows core input = false
  unmoved := movesAcks core input = false
  reading := isReading input = true

theorem movesAcks_sound {input : Input} (h : movesAcks core input = false) (k : ℕ) (p : NodeId)
    (hbit : core.pendingReadAcks.testBit k = true)
    (hp : (committedPeers core input)[k]? = some p) : core.peers[k]? = some p := by
  have hk := (List.getElem?_eq_some_iff.mp hp).1
  have hheld := List.any_eq_false.mp h k (List.mem_range.mpr hk)
  simp only [hbit, Bool.true_and, bne_iff_ne, ne_eq, Decidable.not_not] at hheld
  exact hheld.symm.trans hp

theorem responseTransition_begin :
    responseTransition (beginCall core capacity).core m peer = responseTransition core m peer := by
  unfold responseTransition
  rw [reachedTransition_view (show coreView (raisedCore (beginCall core capacity).core m peer) =
    coreView (raisedCore core m peer) from rfl)]
  rfl

theorem grantedCore_begin :
    SameProgress (grantedCore (beginCall core capacity).core m peer) (grantedCore core m peer) := by
  have hsame : SameProgress (raisedCore (beginCall core capacity).core m peer)
      (raisedCore core m peer) := ⟨rfl, rfl, rfl, rfl, rfl, rfl, rfl⟩
  unfold grantedCore
  rw [responseTransition_begin]
  exact hsame.refresh _

theorem transferDue_begin :
    transferDue (beginCall core capacity).core m peer = transferDue core m peer := by
  unfold transferDue responseMatch
  rw [responseTransition_begin, grantedCore_begin.matched]
  rfl

theorem grantMisleads_begin {room : ℕ} :
    grantMisleads (beginCall core capacity).core room m peer = grantMisleads core room m peer := by
  unfold grantMisleads senderPaused
  rw [responseTransition_begin, transferDue_begin, grantedCore_begin.next,
    grantedCore_begin.reaches]
  rfl

theorem transferUnasked_begin :
    transferUnasked (beginCall core capacity).core m peer = transferUnasked core m peer := by
  unfold transferUnasked senderPaused
  rw [responseTransition_begin, transferDue_begin]
  rfl

theorem matchSelf_congr {a b : Core} (h : coreView a = coreView b) (hsame : SameProgress a b)
    (self : Option ℕ) (index : ℕ) :
    coreView (matchSelf a self index) = coreView (matchSelf b self index) ∧
      SameProgress (matchSelf a self index) (matchSelf b self index) := by
  cases self with
  | none => exact ⟨h, hsame⟩
  | some self =>
    have hmatch : Function.update a.matchIndex self index =
        Function.update b.matchIndex self index := by rw [hsame.matched]
    have hnext : Function.update a.nextIndex self (index + 1) =
        Function.update b.nextIndex self (index + 1) := by rw [hsame.next]
    refine ⟨?_, hsame.selfId, hsame.role, hsame.log, hsame.peers, hmatch, hnext, hsame.paused⟩
    change { coreView a with matchIndex := Function.update a.matchIndex self index } =
      { coreView b with matchIndex := Function.update b.matchIndex self index }
    rw [h, hmatch]

theorem refreshSelf_congr {a b : Core} (h : coreView a = coreView b) (hsame : SameProgress a b)
    (peers : List NodeId) (index : ℕ) :
    coreView (matchSelf (coreRefreshPeers a peers) (peerIndex (coreRefreshPeers a peers)
        (coreRefreshPeers a peers).selfId) index) =
      coreView (matchSelf (coreRefreshPeers b peers) (peerIndex (coreRefreshPeers b peers)
        (coreRefreshPeers b peers).selfId) index) := by
  have hrefreshed := hsame.refresh peers
  have hview : coreView (coreRefreshPeers a peers) = coreView (coreRefreshPeers b peers) := by
    rw [coreRefreshPeers_view, coreRefreshPeers_view, h, hrefreshed.matched]
  generalize coreRefreshPeers a peers = x at hview hrefreshed
  generalize coreRefreshPeers b peers = y at hview hrefreshed
  have hindex : peerIndex x x.selfId = peerIndex y y.selfId :=
    congrArg (fun v : CoreView => peerSetIndex v.peers v.selfId) hview
  rw [hindex]
  exact (matchSelf_congr hview hrefreshed _ _).1

theorem proposedCore_begin (core : Core) (proposals : List Proposal) (capacity : ℕ) :
    coreView (proposedCore (beginCall core capacity).core proposals) =
        coreView (proposedCore core proposals) ∧
      SameProgress (proposedCore (beginCall core capacity).core proposals)
        (proposedCore core proposals) := by
  unfold proposedCore
  rw [show (beginCall core capacity).core.log = core.log from rfl,
    show (beginCall core capacity).core.term = core.term from rfl]
  cases logAppendLocalBatch core.log core.term proposals with
  | error status => exact ⟨rfl, rfl, rfl, rfl, rfl, rfl, rfl, rfl⟩
  | ok result =>
    refine matchSelf_congr ?_ ?_ _ _
    · rfl
    · exact ⟨rfl, rfl, rfl, rfl, rfl, rfl, rfl⟩

theorem replicatesDeposed_congr {a b : Core} (h : coreView a = coreView b) (hsame : SameProgress a b)
    (room : ℕ) : replicatesDeposed a room = replicatesDeposed b room := by
  unfold replicatesDeposed reachedCore
  rw [reachedTransition_view h, hsame.selfId, (hsame.refresh _).reachesSome]

theorem configuredCore_begin (configuration : Conf) :
    reachedTransition (configuredCore (beginCall core capacity).core configuration) =
      reachedTransition (configuredCore core configuration) := by
  apply reachedTransition_view
  unfold configuredCore
  rw [show (beginCall core capacity).core.membershipTransition = core.membershipTransition from rfl,
    show (beginCall core capacity).core.log = core.log from rfl,
    show (beginCall core capacity).core.term = core.term from rfl]
  cases membershipTransitionStage core.membershipTransition configuration
      (logLastIndex core.log + 1) with
  | error status => rfl
  | ok staged =>
    dsimp only
    cases coreBuildPeerSet staged with
    | error status => rfl
    | ok peers =>
      cases logAppendConfiguration core.log core.term configuration with
      | error status => rfl
      | ok result =>
        refine refreshSelf_congr ?_ ?_ _ _
        · rfl
        · exact ⟨rfl, rfl, rfl, rfl, rfl, rfl, rfl⟩

end Inputs

section Steps

variable {m : Message} {peer : ℕ}

section

variable (hheard : Heard (beginCall core capacity) m peer)

include hheard

variable (htaken : stepTaken core m capacity = true)

include htaken

theorem response_conduct (hresponse : isResponse m = true)
    (hok : stepHeartbeatResponse (beginCall core capacity) m peer = (.ok, call)) :
    Conduct (termsOf core (.step m capacity)) (beginCall core capacity) call := by
  have hindex : peerIndex core m.fromId = some peer := hheard.index
  have htype : m.type = .heartbeatResponse ∨ m.type = .appendResponse := by
    simpa [isResponse] using hresponse
  refine stepHeartbeatResponse_conduct hheard htype ?_ ?_ ?_ hok
  · intro hsettled htook
    have hclear : misdirects core (.step m capacity) = false := hsettled
    simp only [misdirects, htaken, hresponse, hindex, Bool.true_and] at hclear
    rw [show responseTaken core m peer = true from htook] at hclear
    rw [grantMisleads_begin]
    exact hclear
  · intro hroomy htook hzero
    have hclear : overflows core (.step m capacity) = false := hroomy
    obtain rfl : capacity = 0 := hzero
    simp only [overflows, htaken, hresponse, hindex, Bool.true_and, beq_self_eq_true,
      Bool.or_eq_false_iff] at hclear
    rw [show responseTaken core m peer = true from htook] at hclear
    rw [transferUnasked_begin]
    exact hclear.1
  · intro hunmoved htook k p hbit hp
    have hclear := hunmoved
    refine movesAcks_sound hclear k p hbit ?_
    rw [responseTransition_begin] at hp
    simp only [committedPeers, hindex, htaken, hresponse, Bool.true_and]
    rw [show responseTaken core m peer = true from htook]
    exact hp

theorem request_conduct (hrequest : isRequest m = true) (hformed : requestMalformed m = false)
    (hok : stepHeartbeatRequest (beginCall core capacity) m = (.ok, call)) :
    Conduct (termsOf core (.step m capacity)) (beginCall core capacity) call := by
  have hindex : peerIndex core m.fromId = some peer := hheard.index
  refine stepHeartbeatRequest_conduct hheard hrequest ?_ hok
  intro hroomy hterm hzero hpaused
  have hclear : overflows core (.step m capacity) = false := hroomy
  obtain rfl : capacity = 0 := hzero
  have hfresh : decide (core.term ≤ m.term) = true := decide_eq_true hterm
  simp only [overflows, htaken, hrequest, hindex, hformed, hfresh, Bool.true_and,
    beq_self_eq_true, Bool.or_eq_false_iff, Bool.not_false] at hclear
  rw [show peerPaused core m.fromId = true from hpaused] at hclear
  exact hclear.2

theorem stepDispatch_conduct (hok : stepDispatch m peer (beginCall core capacity) = (.ok, call)) :
    Conduct (termsOf core (.step m capacity)) (beginCall core capacity) call := by
  unfold stepDispatch at hok
  cases htype : m.type with rw [htype] at hok
  | preVoteRequest =>
    cases hok
    exact stepPreVoteRequest_conduct hheard htype
  | preVoteResponse =>
    cases hok
    exact stepPreVoteResponse_conduct hheard htype
  | voteRequest =>
    cases hok
    exact stepVoteRequest_conduct hheard htype
  | voteResponse =>
    cases hok
    exact stepVoteResponse_conduct hheard _
  | heartbeatRequest | appendRequest =>
    split_ifs at hok with hformed
    · cases hok
    · exact request_conduct hheard htaken (by simp [isRequest, htype])
        (Bool.not_eq_true _ ▸ hformed) hok
  | heartbeatResponse | appendResponse =>
    exact response_conduct hheard htaken (by simp [isResponse, htype]) hok
  | timeoutNow =>
    cases hok
    exact stepTimeoutNow_conduct hheard htype
  | readIndexRequest =>
    cases hok
    exact stepReadIndexRequest_conduct hheard htype
  | readIndexResponse =>
    cases hok
    have hreading : (termsOf core (.step m capacity)).reading := by
      change (m.type == .readIndexResponse) = true
      rw [htype]
      rfl
    exact stepReadIndexResponse_conduct hheard.blank hreading m _

end

theorem coreStep_conducted (h : Resting core) (horderly : Orderly core) (m : Message)
    (capacity : ℕ) :
    Conducted (termsOf core (.step m capacity)) core capacity (coreStep core m capacity) := by
  unfold coreStep
  cases hpeer : peerIndex core m.fromId with
  | none =>
    dsimp only
    split_ifs
    · exact refuse_conducted Status.noConfusion
    · exact refuse_conducted Status.noConfusion
  | some peer =>
    dsimp only
    split_ifs with haddress hsender
    · exact refuse_conducted Status.noConfusion
    · exact refuse_conducted Status.noConfusion
    by_cases hbegins : beginRefused core = true
    · rw [runCall, if_pos hbegins]
      exact refuse_conducted Status.noConfusion
    apply runCall_conducted h horderly
    intro hblank call hok
    unfold stepBody at hok
    split_ifs at hok with hfull
    · cases hok
    simp only [Bool.or_eq_true, bne_iff_ne, beq_iff_eq, not_or, ne_eq, Decidable.not_not] at haddress
    have hroom : stepRequired core m ≤ capacity := by
      have hfits := Bool.not_eq_true _ ▸ hfull
      exact Nat.not_lt.mp (of_decide_eq_false hfits)
    have htaken : stepTaken core m capacity = true := by
      simp [stepTaken, haddress, hpeer, hsender, hbegins, hroom]
    exact stepDispatch_conduct ⟨hblank, hpeer, haddress.2, hroom⟩ htaken hok

end Steps

section Operations

variable {input : Input}

theorem performOperation_conducted (h : Resting core) (horderly : Orderly core)
    (operation : Operation) (capacity : ℕ) :
    Conducted (termsOf core (.call operation capacity)) core capacity
      (performOperation core operation capacity) := by
  unfold performOperation
  cases operation with
  | tick tick =>
    dsimp only [coreTick]
    split_ifs
    · exact refuse_conducted Status.noConfusion
    refine runCall_conducted h horderly fun hblank call hok => tickBody_conduct hblank ?_ hok
    intro hunmoved _ configuration hfinal k p hbit hp
    have hclear := hunmoved
    refine movesAcks_sound hclear k p hbit ?_
    have hfinal : membershipTransitionFinal core.membershipTransition = .ok configuration := hfinal
    rw [configuredCore_begin] at hp
    rw [committedPeers, hfinal]
    exact hp
  | propose proposals =>
    dsimp only [coreProposeBatch]
    split_ifs with hvalid
    · exact refuse_conducted Status.noConfusion
    by_cases hbegins : beginRefused core = true
    · rw [runCall, if_pos hbegins]
      exact refuse_conducted Status.noConfusion
    refine runCall_conducted h horderly fun hblank call hok => proposeBody_conduct hblank ?_ ?_ hok
    · intro hsettled htaken
      have hclear : misdirects core (.call (.propose proposals) capacity) = false := hsettled
      obtain ⟨hview, hsame⟩ := proposedCore_begin core proposals capacity
      rw [replicatesDeposed_congr hview hsame]
      have htaken : proposalsTaken core proposals capacity = true := htaken
      rw [Bool.not_eq_true] at hvalid hbegins
      rw [misdirects, proposalsAccepted, hvalid, hbegins, htaken] at hclear
      exact hclear
    · intro hunmoved k p hbit hp
      have hclear := hunmoved
      rw [reachedTransition_view (proposedCore_begin core proposals capacity).1] at hp
      exact movesAcks_sound hclear k p hbit hp
  | changeMembership change =>
    dsimp only [coreChangeMembership]
    split_ifs
    · exact refuse_conducted Status.noConfusion
    · exact runCall_conducted h horderly fun hblank _ hok => changeMembershipBody_conduct hblank hok
  | transferLeadership transferee =>
    dsimp only [coreTransferLeadership]
    split_ifs with hself
    · exact refuse_conducted Status.noConfusion
    simp only [Bool.or_eq_true, beq_iff_eq, not_or] at hself
    cases hvoter : voterIndex core transferee with
    | none => exact refuse_conducted Status.noConfusion
    | some peer =>
      exact runCall_conducted h horderly fun hblank _ hok =>
        transferBody_conduct hblank hvoter hself.2 hok
  | readIndex contextId =>
    dsimp only [coreReadIndex]
    split_ifs
    · exact refuse_conducted Status.noConfusion
    · exact runCall_conducted h horderly fun hblank _ hok => readIndexBody_conduct hblank rfl hok
  | poll =>
    exact runCall_conducted h horderly fun hblank _ hok => pollBody_conduct hblank rfl hok
  | snapshotCompleted nodeId index =>
    dsimp only [coreSnapshotCompleted]
    cases hpeer : peerIndex core nodeId with
    | none =>
      dsimp only
      split_ifs
      · exact refuse_conducted Status.noConfusion
      · exact refuse_conducted Status.noConfusion
    | some peer =>
      split_ifs with hself hbase
      · exact refuse_conducted Status.noConfusion
      · exact refuse_conducted Status.noConfusion
      simp only [Bool.or_eq_true, beq_iff_eq, not_or] at hself
      exact runCall_conducted h horderly fun hblank _ hok =>
        snapshotCompletedBody_conduct hblank hpeer hself.1.2 (Nat.not_lt.mp hbase) hok

def inputCapacity : Input → ℕ
  | .step _ capacity => capacity
  | .call _ capacity => capacity
  | _ => 0

theorem perform_conducted (h : Resting core) (horderly : Orderly core)
    (hcall : isCall input = true) :
    Conducted (termsOf core input) core (inputCapacity input) (perform core input) := by
  cases input with
  | step m capacity => exact coreStep_conducted h horderly m capacity
  | call operation capacity => exact performOperation_conducted h horderly operation capacity
  | _ => cases hcall

theorem perform_silent (hcall : isCall input = false) :
    (perform core input).2.ready = resetReady 0 := by
  cases input with
  | step | call => cases hcall
  | _ => rfl

end Operations

section Runs

variable {config : CoreConfig}

/-- What every input but a call changes: the marks of what is applied, the paused peers, and the
start of the log. -/
structure Bookkept (core core' : Core) : Prop where
  last : logLastIndex core'.log = logLastIndex core.log
  others : core' = { core with
    appliedIndex := core'.appliedIndex
    applyAdmittedIndex := core'.applyAdmittedIndex
    pendingApplyIndex := core'.pendingApplyIndex
    readyOutstanding := core'.readyOutstanding
    pausedPeers := core'.pausedPeers
    log := core'.log }

theorem Bookkept.refl (core : Core) : Bookkept core core := ⟨rfl, rfl⟩

theorem perform_bookkept (h : Resting core) {input : Input} (hcall : isCall input = false) :
    Bookkept core (perform core input).2.core := by
  cases input with
  | step | call => cases hcall
  | ackReady admitted =>
    change Bookkept core (coreAckReady core admitted).2
    rcases coreAckReady_cases core admitted with ⟨_, hsame⟩ | ⟨_, _, hacked⟩
    · rw [hsame]
      exact .refl core
    · rw [hacked]
      exact ⟨rfl, rfl⟩
  | ackApplied index =>
    change Bookkept core (coreAckApplied core index).2
    unfold coreAckApplied
    split_ifs <;> exact ⟨rfl, rfl⟩
  | advance =>
    change Bookkept core (coreAdvance core).2
    unfold coreAdvance
    split_ifs <;> exact ⟨rfl, rfl⟩
  | setPeerPaused nodeId paused =>
    change Bookkept core (coreSetPeerPaused core nodeId paused).2
    obtain ⟨_, hsame⟩ := RaftRecovery.coreSetPeerPaused_same core nodeId paused
    rw [hsame]
    exact ⟨rfl, rfl⟩
  | compact =>
    change Bookkept core (compactAtPoint core).2
    rcases compactAtPoint_cases core with ⟨_, hsame⟩ | ⟨term, _, _, hbase, hcompacted⟩
    · rw [hsame]
      exact .refl core
    · rw [hcompacted]
      refine ⟨?_, rfl⟩
      have hcommit := h.commit_le
      simp only [logLastIndex, logCount, List.length_drop] at hcommit ⊢
      omega

theorem orderly_bookkept (h : Orderly core) (hkept : Bookkept core core') : Orderly core' := by
  obtain ⟨hlast, hothers⟩ := hkept
  rw [hothers]
  exact { h with matched := fun hrole peer hpeer => hlast.symm ▸ h.matched hrole peer hpeer }

theorem perform_orderly (h : Resting core) (horderly : Orderly core) (input : Input) :
    Orderly (perform core input).2.core := by
  by_cases hcall : isCall input = true
  · have hconducted := perform_conducted h horderly hcall
    have hfinished := perform_finished h hcall
    generalize perform core input = result at hconducted hfinished
    cases hfinished with
    | done => cases hconducted with
      | done hconduct => exact hconduct.orderly
      | failed hstatus => exact absurd rfl hstatus
    | refused _ hsame => exact hsame ▸ horderly
    | aged tick _ _ _ hsame => exact hsame ▸ orderly_aged horderly tick.elapsedTicks
  · exact orderly_bookkept horderly (perform_bookkept h (Bool.not_eq_true _ ▸ hcall))

theorem coreCreate_follower (h : coreCreate config = .ok core) :
    core.role = .follower := by
  obtain ⟨r⟩ := coreCreate_recovery h
  rw [r.result]
  exact coreRefreshPeers_role _ _

theorem coreCreate_orderly (h : coreCreate config = .ok core) :
    Orderly core := by
  obtain ⟨r⟩ := coreCreate_recovery h
  have hreplayed : WindowsOk (replayedCore config r.transition r.staged r.peers r.log) := by
    refine ⟨?_, fun _ => Nat.zero_le _⟩
    change 1 ≤ if config.maxInflightAppendRequests == 0 then defaultMaxInflightAppendRequests
      else config.maxInflightAppendRequests
    split_ifs with hzero
    · decide
    · exact Nat.one_le_iff_ne_zero.mpr (by simpa using hzero)
  have hwindows := coreRefreshPeers_windows hreplayed r.synced
  have hrole := coreCreate_follower h
  have hreads :=
      (congrArg readView r.result).trans (coreRefreshPeers_undisturbed _ r.synced).1.reads
  have hinflight := (congrArg Core.maxInflightAppendRequests r.result).trans rfl
  have hcontexts : core.pendingReadContexts = [] := congrArg ReadView.contexts hreads
  have hwaiting : core.waitingReadContexts = [] := congrArg ReadView.waiting hreads
  constructor
  case voter => exact r.voting
  case campaigner => exact fun hnot => absurd hrole hnot
  case matched => exact fun hleader => Role.noConfusion (hrole.symm.trans hleader)
  case room => exact hinflight ▸ hwindows.some_room
  case window =>
    intro peer
    rw [r.windows, hinflight]
    exact hwindows.window peer
  case reads =>
    rw [readTotalCount, hcontexts, hwaiting]
    exact Nat.zero_le _
  case limit =>
    rw [show core.maxPendingReads = _ from congrArg ReadView.limit hreads]
    change (if config.maxPendingReads == 0 then defaultMaxPendingReads
      else config.maxPendingReads) ≤ maxPendingReadsLimit
    have hvalid := r.valid
    simp only [settingsInvalid, Bool.or_eq_false_iff, decide_eq_false_iff_not, not_lt] at hvalid
    split_ifs
    · decide
    · exact hvalid.1.1.1.1.2
  case reading => exact fun _ => ⟨hcontexts, hwaiting⟩
  case unasked => exact fun _ => congrArg ReadView.acks hreads

theorem run_orderly (run : CoreRun) {k : ℕ} (hk : k ≤ run.run.length) :
    Orderly (run.run.state k) := by
  have hmeets : run.run.Meets fun _ _ => True := fun _ _ => trivial
  refine (run.run.invariant hmeets (fun core => Resting core ∧ Orderly core)
    ⟨coreCreate_resting run.created, coreCreate_orderly run.created⟩ ?_ k hk).2
  intro core input core' h _ hstep
  cases hstep
  exact ⟨perform_resting h.1 input, perform_orderly h.1 h.2 input⟩

end Runs

theorem peers_nonzero (h : CoreInv core) {id : NodeId} (hid : id ∈ core.peers) : id ≠ 0 := by
  obtain ⟨_, _, hindex⟩ := index_of_mem (peerSetBuild_spec h.peers).2.1 hid
  exact (ascendingIndex_sound hindex).1

theorem runCall_done {body : Call → Status × Call} (hbegins : beginRefused core = false)
    (hbody : body (beginCall core capacity) = (.ok, call)) :
    runCall core capacity body = (.ok, finish (beforeOf core) call) := by
  rw [runCall, hbegins, if_neg Bool.false_ne_true, hbody]

theorem stepTaken_heard {m : Message} (h : Resting core) (horderly : Orderly core)
    (htaken : stepTaken core m capacity = true) :
    ∃ peer, peerIndex core m.fromId = some peer ∧ Heard (beginCall core capacity) m peer ∧
      beginRefused core = false ∧
      coreStep core m capacity = runCall core capacity (stepDispatch m peer) := by
  obtain ⟨peer, hpeer, hstep⟩ := coreStep_taken htaken
  simp only [stepTaken, Bool.and_eq_true, bne_iff_ne, Bool.not_eq_true', decide_eq_true_eq] at htaken
  obtain ⟨⟨⟨⟨⟨_, hremote⟩, _⟩, _⟩, hbegins⟩, hroom⟩ := htaken
  exact ⟨peer, hpeer, ⟨beginCall_blank h horderly, hpeer, hremote, hroom⟩, hbegins, hstep⟩

theorem stepDispatch_response {m : Message} (h : isResponse m = true) (peer : ℕ) (call : Call) :
    stepDispatch m peer call = stepHeartbeatResponse call m peer := by
  have htype : m.type = .heartbeatResponse ∨ m.type = .appendResponse := by
    simpa [isResponse] using h
  rcases htype with htype | htype <;> rw [stepDispatch, htype]

theorem misdirects_strays (h : Resting core) (horderly : Orderly core) {input : Input}
    (hmisdirects : misdirects core input = true) : ¬ SendsToPeers core (perform core input).2 := by
  have hstrays : ∀ {capacity body}, beginRefused core = false →
      (∃ call, body (beginCall core capacity) = (.ok, call) ∧
        ¬ SendsToPeers (beginCall core capacity).core call) →
      ¬ SendsToPeers core (runCall core capacity body).2 := by
    rintro capacity body hbegins ⟨call, hbody, hnot⟩ hsends
    rw [runCall_done hbegins hbody] at hsends
    exact hnot hsends.of_finish
  unfold misdirects at hmisdirects
  split at hmisdirects
  case h_1 m capacity =>
    simp only [Bool.and_eq_true] at hmisdirects
    obtain ⟨⟨htaken, hresponse⟩, hmisleads⟩ := hmisdirects
    obtain ⟨peer, hpeer, hheard, hbegins, hstep⟩ := stepTaken_heard h horderly htaken
    rw [hpeer] at hmisleads
    simp only [Bool.and_eq_true] at hmisleads
    obtain ⟨call, hresult, hnot⟩ := grantMisleads_strays hheard hmisleads.1
      (grantMisleads_begin.trans hmisleads.2)
    rw [perform, hstep]
    exact hstrays hbegins ⟨call, (stepDispatch_response hresponse peer _).trans hresult, hnot⟩
  case h_2 proposals capacity =>
    simp only [proposalsAccepted, Bool.and_eq_true, Bool.not_eq_true'] at hmisdirects
    obtain ⟨⟨⟨hvalid, hbegins⟩, htaken⟩, hdeposed⟩ := hmisdirects
    obtain ⟨hlead, entries, hbody⟩ := proposeBody_leads (beginCall_blank h horderly) htaken
    obtain ⟨hview, hsame⟩ := proposedCore_begin core proposals capacity
    obtain ⟨call, hresult, hnot⟩ := afterAppend_strays entries
      (beginCall_blank h horderly) hlead ((replicatesDeposed_congr hview hsame _).trans hdeposed)
    rw [perform, performOperation, coreProposeBatch, hvalid, if_neg Bool.false_ne_true]
    exact hstrays hbegins ⟨call, hbody.trans hresult, fun hsends => hnot hsends.toPosted⟩
  case h_3 => cases hmisdirects

/-- Whatever a call sends goes to a peer, and what only a leader may say is said in the role of
the leader; a TIMEOUT_NOW goes to a voter that has the whole log. The inputs that commit a
configuration and go on with what it has taken away are all the exceptions. -/
theorem calls_send_to_peers (run : CoreRun) {k : ℕ} (hk : k < run.run.length) :
    SendsToPeers (run.run.state k) (perform (run.run.state k) (run.run.event k)).2 ↔
      misdirects (run.run.state k) (run.run.event k) = false := by
  have hresting := run.resting hk.le
  have horderly := run_orderly run hk.le
  generalize run.run.event k = input
  refine ⟨fun hsends => ?_, fun hsettled => ?_⟩
  · by_contra hmisdirects
    exact misdirects_strays hresting horderly (Bool.not_eq_false _ ▸ hmisdirects) hsends
  have hafter := perform_resting hresting input
  have hsilent : ∀ call, Silent call.ready → SendsToPeers (run.run.state k) call := by
    rintro call ⟨hmessages, hrequests, _, hroles⟩
    refine ⟨⟨?_, ?_⟩, ⟨?_, ?_⟩, ?_⟩
    · rw [hmessages]
      exact fun _ hm => absurd hm List.not_mem_nil
    · rw [hrequests]
      exact fun _ hr => absurd hr List.not_mem_nil
    · rw [hmessages]
      exact fun _ hm => absurd hm List.not_mem_nil
    · rw [hrequests]
      exact fun _ hr => absurd hr List.not_mem_nil
    · rw [hroles]
      exact fun _ hr => absurd hr List.not_mem_nil
  by_cases hcall : isCall input = true
  · have hconducted := perform_conducted hresting horderly hcall
    generalize perform (run.run.state k) input = result at hconducted hafter
    cases hconducted with
    | done hconduct =>
      have hposted := hconduct.posted hsettled
      refine ⟨⟨fun m hm => { hposted.messages m hm with }, hposted.requests⟩, ⟨?_, ?_⟩,
        hconduct.spoken⟩
      · intro m hm
        rcases (hposted.messages m hm).known with hbefore | hnow
        · exact peers_nonzero hresting.toCoreInv hbefore
        · exact peers_nonzero hafter.toCoreInv hnow
      · exact fun r hr => peers_nonzero hafter.toCoreInv (hposted.requests r hr).known
    | failed _ hfailed =>
      obtain ⟨_, hready⟩ := hfailed
      exact hsilent _ (hready ▸ ⟨rfl, rfl, rfl, rfl⟩)
  · have hready : (perform (run.run.state k) input).2.ready = resetReady 0 :=
      perform_silent (Bool.not_eq_true _ ▸ hcall)
    exact hsilent _ (hready ▸ ⟨rfl, rfl, rfl, rfl⟩)

def finalResponse : Input :=
  .step { plainMessage .appendResponse 3 1 1 with
    granted := true, previousLogIndex := 1, matchIndex := 2 } 2

/-- Node 1 is elected by node 2, and the group shrinks to nodes 1 and 3. -/
def shrinkingInputs : List Input :=
  [.call (.tick { elapsedTicks := 5, nextElectionTimeoutTicks := 5 }) 2, .advance,
    .step { plainMessage .preVoteResponse 2 1 0 with campaignTerm := 1, granted := true } 2,
    .advance, .step { plainMessage .voteResponse 2 1 1 with granted := true } 2, .advance,
    .call (.changeMembership { voters := [1, 3], learners := [], transitionId := 7 }) 2, .advance,
    .step { plainMessage .appendResponse 3 1 1 with granted := true, matchIndex := 1 } 2, .advance,
    .call (.tick { elapsedTicks := 1, nextElectionTimeoutTicks := 5 }) 3, .advance, finalResponse]

def shrinkingRun : CoreRun := .ofInputs sampleConfig shrinkingInputs (by decide +kernel)

/-- The tick that appends the final configuration sends it to the peer that has answered. -/
theorem shrinking_tick_addressed :
    (perform (shrinkingRun.run.state 10) (shrinkingRun.run.event 10)).2.ready.messages.map
      (fun m => (m.type, m.toId)) = [(.appendRequest, 3)] ∧
      SendsToPeers (shrinkingRun.run.state 10)
        (perform (shrinkingRun.run.state 10) (shrinkingRun.run.event 10)).2 := by
  refine ⟨by decide +kernel, ?_⟩
  exact (calls_send_to_peers shrinkingRun (k := 10) (by decide +kernel)).mpr (by decide +kernel)

/-- The response commits the final configuration, which has no peer under the index of node 3
any more, and the leader asks for a snapshot transfer to node 0. -/
theorem final_response_misdirects :
    shrinkingRun.run.length = 13 ∧
      (perform (shrinkingRun.run.state 12) (shrinkingRun.run.event 12)).1 = .ok ∧
      (perform (shrinkingRun.run.state 12) (shrinkingRun.run.event 12)).2.ready.snapshotRequests.map
        SnapshotRequest.peerId = [0] := by
  decide +kernel

/-- The Ready of a call stays within the room that its host and the core have for it. -/
structure Bounded (core : Core) (capacity : ℕ) (call : Call) : Prop where
  messages : call.ready.messages.length ≤ capacity
  requests : call.ready.snapshotRequests.length ≤ maxMembers
  states : call.ready.readStates.length ≤ core.maxPendingReads
  limit : core.maxPendingReads ≤ maxPendingReadsLimit
  windows : ∀ peer, (call.core.appendWindows peer).items.length ≤
    call.core.maxInflightAppendRequests

theorem finish_messages (before : Before) (call : Call) :
    (finish before call).ready.messages = call.ready.messages := by
  unfold RaftCoreEmit.finish finishReady admitCommitted
  dsimp only
  split_ifs <;> rfl

theorem overflows_sends (h : Resting core) (horderly : Orderly core) {input : Input}
    (hoverflows : overflows core input = true) :
    inputCapacity input = 0 ∧ (perform core input).2.ready.messages.length = 1 := by
  cases input with
  | step m capacity =>
    simp only [overflows, Bool.and_eq_true, beq_iff_eq] at hoverflows
    obtain ⟨⟨htaken, rfl⟩, hsends⟩ := hoverflows
    obtain ⟨peer, hpeer, hheard, hbegins, hstep⟩ := stepTaken_heard h horderly htaken
    rw [hpeer] at hsends
    suffices hsent : ∃ call, stepDispatch m peer (beginCall core 0) = (.ok, call) ∧
        call.ready.messages.length = 1 by
      obtain ⟨call, hdispatch, hlength⟩ := hsent
      refine ⟨rfl, ?_⟩
      rw [perform, hstep, runCall_done hbegins hdispatch, finish_messages, hlength]
    simp only [Bool.or_eq_true, Bool.and_eq_true, Bool.not_eq_true', decide_eq_true_eq] at hsends
    rcases hsends with ⟨⟨hresponse, htook⟩, hunasked⟩ | ⟨⟨⟨⟨hrequest, hformed⟩, hterm⟩, _⟩, hdropped⟩
    · obtain ⟨call, hok, hlength⟩ := transferUnasked_sends hheard htook
        (transferUnasked_begin.trans hunasked)
      exact ⟨call, (stepDispatch_response hresponse peer _).trans hok, hlength⟩
    · obtain ⟨call, hok, hlength⟩ := senderDropped_answered hheard.blank hterm hdropped
      refine ⟨call, ?_, hlength⟩
      rw [← hok]
      have htype : m.type = .heartbeatRequest ∨ m.type = .appendRequest := by
        simpa [isRequest] using hrequest
      rcases htype with htype | htype <;>
        simp only [stepDispatch, htype, hformed, Bool.false_eq_true, if_false]
  | _ => cases hoverflows

/-- What a call leaves in its Ready fits, except that two steps ask for no room for a message
that they then send: the transfer to a peer whose response is an old one, and the answer to a
paused sender that has just been removed. -/
theorem ready_fits_iff (run : CoreRun) {k : ℕ} (hk : k ≤ run.run.length) (input : Input) :
    Bounded (run.run.state k) (inputCapacity input) (perform (run.run.state k) input).2 ↔
      overflows (run.run.state k) input = false := by
  have hresting := run.resting hk
  have horderly := run_orderly run hk
  have hafter := perform_orderly hresting horderly input
  constructor
  · intro hbounded
    by_contra hoverflows
    obtain ⟨hzero, hone⟩ := overflows_sends hresting horderly (Bool.not_eq_false _ ▸ hoverflows)
    have hfits := hbounded.messages
    omega
  · intro hroomy
    by_cases hcall : isCall input = true
    · have hconducted := perform_conducted hresting horderly hcall
      generalize perform (run.run.state k) input = result at hconducted hafter
      cases hconducted with
      | done hconduct =>
        have hfits := (hconduct.fits hroomy).trans_eq hconduct.capacity
        exact ⟨hfits, hconduct.requests, hconduct.states, horderly.limit,
          hafter.window⟩
      | failed _ hsilent =>
        obtain ⟨_, hready⟩ := hsilent
        constructor
        case limit => exact horderly.limit
        case windows => exact hafter.window
        all_goals
          rw [hready]
          exact Nat.zero_le _
    · have hready : (perform (run.run.state k) input).2.ready = resetReady 0 :=
        perform_silent (Bool.not_eq_true _ ▸ hcall)
      constructor
      case limit => exact horderly.limit
      case windows => exact hafter.window
      all_goals
        rw [hready]
        exact Nat.zero_le _

def pausedTransferInputs : List Input :=
  [.call (.tick { elapsedTicks := 5, nextElectionTimeoutTicks := 5 }) 2, .advance,
    .step { plainMessage .preVoteResponse 2 1 0 with campaignTerm := 1, granted := true } 2,
    .advance, .step { plainMessage .voteResponse 2 1 1 with granted := true } 2, .advance,
    .call (.propose [{ commandId := 7, data := [] }]) 2, .advance,
    .call (.transferLeadership 2) 1, .setPeerPaused 2 true,
    .step { plainMessage .appendResponse 2 1 1 with granted := true, matchIndex := 1 } 1, .advance,
    .setPeerPaused 2 false]

def pausedTransferRun : CoreRun := .ofInputs sampleConfig pausedTransferInputs (by decide +kernel)

def lateResponse (capacity : ℕ) : Input :=
  .step { plainMessage .heartbeatResponse 2 1 1 with granted := true } capacity

theorem late_response_with_room :
    overflows (pausedTransferRun.run.state 13) (lateResponse 1) = false ∧
      (perform (pausedTransferRun.run.state 13) (lateResponse 1)).2.ready.messages.length ≤ 1 := by
  have hroomy : overflows (pausedTransferRun.run.state 13) (lateResponse 1) = false := by
    decide +kernel
  exact ⟨hroomy, ((ready_fits_iff pausedTransferRun (k := 13) (by decide +kernel) _).mpr
    hroomy).messages⟩

/-- Without any room the transfer is written past the end of the messages. -/
theorem late_response_overflows :
    pausedTransferRun.run.length = 13 ∧
      (perform (pausedTransferRun.run.state 13) (lateResponse 0)).1 = .ok ∧
      (perform (pausedTransferRun.run.state 13) (lateResponse 0)).2.ready.messages.length = 1 := by
  decide +kernel

end RaftCallConduct
