import TurboRaft.RaftCoreHistories

/-! # What a call promises

Two promises that every call makes about its own core, and the exact inputs for which a call
breaks them: a call that fails changes nothing, and term, vote and commit index never go
back. -/
namespace RaftCallContracts

open RaftTypes RaftCoreState RaftCoreEmit RaftCoreStep RaftCore RaftRefinement RaftEmission
open RaftCoreRuns RaftCallRefinement RaftCoreHistories RaftOperationEffects RaftOutbox

variable {core : Core} {ticks capacity : ℕ} {tick : Tick} {m : Message}

/-- Some clock of the leader would show these ticks: the one of the quorum check, unless it
starts over from zero with the same activity, the one of a transfer, or that of a request in
flight. -/
def clocksRun (core : Core) (ticks : ℕ) : Bool :=
  !(tickReached core.checkQuorumElapsedTicks ticks core.electionTimeoutTicks &&
      core.checkQuorumElapsedTicks == 0 &&
      core.recentActive == indexBit (voterIndex core core.selfId)) ||
    core.leadershipTransferTarget != 0 ||
    (List.range core.peers.length).any fun peer =>
      !peerIndexPaused core peer && !(core.appendWindows peer).items.isEmpty

/-- The tick ages the clocks of a leader and then finds no room for its heartbeats. -/
def missedTick (core : Core) : Input → Bool
  | .call (.tick tick) capacity =>
    tick.elapsedTicks != 0 && heartbeatMissed core tick capacity &&
      clocksRun core tick.elapsedTicks
  | _ => false

theorem tickQuorum_still (hreached : tickReached core.checkQuorumElapsedTicks ticks
      core.electionTimeoutTicks = true) (helapsed : core.checkQuorumElapsedTicks = 0)
    (hactive : core.recentActive = indexBit (voterIndex core core.selfId)) :
    tickQuorum core ticks = core := by
  unfold tickQuorum
  rw [if_pos hreached, ← hactive, ← helapsed]

theorem tickQuorum_shows (hticks : ticks ≠ 0)
    (helapsed : (tickQuorum core ticks).checkQuorumElapsedTicks = core.checkQuorumElapsedTicks)
    (hactive : (tickQuorum core ticks).recentActive = core.recentActive) :
    tickReached core.checkQuorumElapsedTicks ticks core.electionTimeoutTicks = true ∧
      core.checkQuorumElapsedTicks = 0 ∧
      core.recentActive = indexBit (voterIndex core core.selfId) := by
  unfold tickQuorum at helapsed hactive
  split_ifs at helapsed hactive with hreached
  · exact ⟨hreached, helapsed.symm, hactive.symm⟩
  · dsimp only at helapsed
    omega

theorem tickTransfer_shows (hticks : ticks ≠ 0)
    (htarget : (tickTransfer core ticks).leadershipTransferTarget = core.leadershipTransferTarget)
    (helapsed : (tickTransfer core ticks).leadershipTransferElapsedTicks =
      core.leadershipTransferElapsedTicks) : core.leadershipTransferTarget = 0 := by
  unfold tickTransfer at htarget helapsed
  split_ifs at htarget helapsed with hnone hreached
  · exact beq_iff_eq.mp hnone
  · exact htarget.symm
  · dsimp only at helapsed
    omega

theorem tickWindows_window (peer : ℕ) (hpeer : peer < core.peers.length)
    (hlive : peerIndexPaused core peer = false) :
    (tickWindows core ticks).appendWindows peer =
      if windowTimedOut core ticks peer then appendWindowReset true
      else agedWindow (core.appendWindows peer) ticks := by
  dsimp only [tickWindows]
  rw [hlive]
  simp [hpeer]

theorem tickWindows_shows (hticks : ticks ≠ 0) {peer : ℕ} (hpeer : peer < core.peers.length)
    (hlive : peerIndexPaused core peer = false)
    (hsame : (tickWindows core ticks).appendWindows peer = core.appendWindows peer) :
    (core.appendWindows peer).items = [] := by
  rw [tickWindows_window peer hpeer hlive] at hsame
  have hitems := congrArg AppendWindow.items hsame
  split_ifs at hitems
  · exact hitems.symm
  · cases hnow : (core.appendWindows peer).items with
    | nil => rfl
    | cons item rest =>
      rw [agedWindow, hnow] at hitems
      have haged := congrArg AppendInflight.elapsedTicks (List.cons.inj hitems).1
      dsimp only at haged
      omega

theorem tickWindows_still (hempty : ∀ peer, peer < core.peers.length →
      peerIndexPaused core peer = false → (core.appendWindows peer).items = []) :
    tickWindows core ticks = core := by
  have hkept : ∀ peer, windowTimedOut core ticks peer = false := by
    intro peer
    unfold windowTimedOut
    by_cases hpeer : peer < core.peers.length
    · cases hlive : peerIndexPaused core peer with
      | true => simp
      | false => simp [hempty peer hpeer hlive]
    · simp [hpeer]
  have hwindows : (tickWindows core ticks).appendWindows = core.appendWindows := by
    funext peer
    by_cases hpeer : peer < core.peers.length
    · cases hlive : peerIndexPaused core peer with
      | true => simp [tickWindows, hkept, hlive]
      | false =>
        have hnone := hempty peer hpeer hlive
        rw [tickWindows_window peer hpeer hlive, hkept, agedWindow, hnone, List.map_nil, ← hnone]
        rfl
    · simp [tickWindows, hkept, hpeer]
  have hnext : (tickWindows core ticks).nextIndex = core.nextIndex := by
    funext peer
    simp [tickWindows, hkept]
  calc tickWindows core ticks
      = { core with
          nextIndex := (tickWindows core ticks).nextIndex
          appendWindows := (tickWindows core ticks).appendWindows } := rfl
    _ = core := by rw [hwindows, hnext]

theorem tickQuorum_others (core : Core) (ticks : ℕ) :
    (tickQuorum core ticks).leadershipTransferTarget = core.leadershipTransferTarget ∧
      (tickQuorum core ticks).leadershipTransferElapsedTicks =
        core.leadershipTransferElapsedTicks ∧
      (tickQuorum core ticks).peers = core.peers ∧
      (tickQuorum core ticks).appendWindows = core.appendWindows ∧
      peerIndexPaused (tickQuorum core ticks) = peerIndexPaused core := by
  unfold tickQuorum
  split_ifs <;> exact ⟨rfl, rfl, rfl, rfl, rfl⟩

theorem tickTransfer_others (core : Core) (ticks : ℕ) :
    (tickTransfer core ticks).checkQuorumElapsedTicks = core.checkQuorumElapsedTicks ∧
      (tickTransfer core ticks).recentActive = core.recentActive ∧
      (tickTransfer core ticks).peers = core.peers ∧
      (tickTransfer core ticks).appendWindows = core.appendWindows ∧
      peerIndexPaused (tickTransfer core ticks) = peerIndexPaused core := by
  unfold tickTransfer
  split_ifs <;> exact ⟨rfl, rfl, rfl, rfl, rfl⟩

/-- What a tick does first to a leader is visible unless all its clocks stand still. -/
theorem agedCore_eq_iff (hticks : ticks ≠ 0) :
    agedCore core ticks = core ↔ clocksRun core ticks = false := by
  have hstill : clocksRun core ticks = false ↔
      (tickReached core.checkQuorumElapsedTicks ticks core.electionTimeoutTicks = true ∧
        core.checkQuorumElapsedTicks = 0 ∧
        core.recentActive = indexBit (voterIndex core core.selfId)) ∧
      core.leadershipTransferTarget = 0 ∧
      ∀ peer, peer < core.peers.length → peerIndexPaused core peer = false →
        (core.appendWindows peer).items = [] := by
    unfold clocksRun
    simp only [Bool.or_eq_false_iff, Bool.not_eq_false', Bool.and_eq_true, beq_iff_eq, bne_eq_false_iff_eq,
      List.any_eq_false, List.mem_range, Bool.not_eq_true', not_and, Bool.not_eq_false,
      List.isEmpty_iff, and_assoc]
  rw [hstill]
  constructor
  · intro hsame
    obtain ⟨htarget, helapsed, hpeers, hwindows, hpaused⟩ := tickQuorum_others core ticks
    obtain ⟨hcheck, hactive, hpeers', hwindows', hpaused'⟩ :=
      tickTransfer_others (tickQuorum core ticks) ticks
    refine ⟨tickQuorum_shows hticks ?_ ?_, ?_, ?_⟩
    · have hfield : (agedCore core ticks).checkQuorumElapsedTicks = _ :=
        congrArg Core.checkQuorumElapsedTicks hsame
      exact hcheck.symm.trans hfield
    · have hfield : (agedCore core ticks).recentActive = _ := congrArg Core.recentActive hsame
      exact hactive.symm.trans hfield
    · rw [← htarget]
      apply tickTransfer_shows hticks
      · exact (congrArg Core.leadershipTransferTarget hsame).trans htarget.symm
      · exact (congrArg Core.leadershipTransferElapsedTicks hsame).trans helapsed.symm
    · intro peer hpeer hlive
      rw [← hpeers, ← hpeers'] at hpeer
      rw [← hpaused, ← hpaused'] at hlive
      have hnone := tickWindows_shows hticks hpeer hlive (by
        rw [hwindows', hwindows]
        exact congrFun (congrArg Core.appendWindows hsame) peer)
      rwa [hwindows', hwindows] at hnone
  · rintro ⟨⟨hreached, helapsed, hactive⟩, htransfer, hwindows⟩
    unfold agedCore
    rw [tickQuorum_still hreached helapsed hactive]
    have hrests : tickTransfer core ticks = core := by
      unfold tickTransfer
      rw [htransfer]
      rfl
    rw [hrests, tickWindows_still hwindows]

theorem tickBody_missed {call : Call}
    (h : heartbeatMissed call.core tick call.ready.messageCapacity = true) :
    tickBody tick call =
      (.enospc, { call with core := agedCore call.core tick.elapsedTicks }) := by
  unfold heartbeatMissed at h
  simp only [Bool.and_eq_true, Bool.not_eq_true'] at h
  obtain ⟨⟨⟨⟨⟨hvalid, hrole⟩, hfinal⟩, hkept⟩, hdue⟩, hfull⟩ := h
  obtain ⟨helapsed, hlimit⟩ := (agedCore_clock call.core tick.elapsedTicks).2
  unfold tickBody
  rw [hvalid, hrole, hfinal, tickLeader_eq call tick.elapsedTicks hkept]
  unfold tickHeartbeat
  rw [helapsed, hlimit, hdue]
  have hlacks : lacksCapacity { call with core := agedCore call.core tick.elapsedTicks }
      (unpausedRemotePeerCount call.core) = true := hfull
  rw [hlacks]
  rfl

theorem coreTick_missed (hidle : core.inCall = false) (hfree : core.readyOutstanding = false)
    (hticks : tick.elapsedTicks ≠ 0) (hmissed : heartbeatMissed core tick capacity = true) :
    (coreTick core tick capacity).1 = .enospc ∧
      (coreTick core tick capacity).2.core = agedCore core tick.elapsedTicks := by
  have hbody : tickBody tick (beginCall core capacity) = (.enospc,
      { beginCall core capacity with
        core := agedCore (beginCall core capacity).core tick.elapsedTicks }) :=
    tickBody_missed hmissed
  have hbegins : beginRefused core = false := by
    unfold beginRefused
    rw [hidle, hfree]
    rfl
  unfold coreTick runCall
  rw [if_neg (by simpa using hticks), if_neg (by simp [hbegins]), hbody]
  exact ⟨rfl, abandonCall_aged hidle rfl⟩

/-- A call that fails leaves its core as it was, unless it is a tick whose heartbeats are due
and do not fit: that one has aged the clocks of the leader before. -/
theorem failed_call_changes_nothing (run : CoreRun) {k : ℕ} (hk : k ≤ run.run.length)
    (hfree : (run.run.state k).readyOutstanding = false) {input : Input}
    (hcall : isCall input = true) :
    ((perform (run.run.state k) input).1 ≠ .ok →
        (perform (run.run.state k) input).2.core = run.run.state k) ↔
      missedTick (run.run.state k) input = false := by
  have hresting := run.resting hk
  generalize run.run.state k = core at hfree hresting
  constructor
  · intro hatomic
    cases input with
    | call operation capacity =>
      cases operation with
      | tick tick =>
        by_contra hbad
        simp only [missedTick, Bool.and_eq_false_iff, bne_eq_false_iff_eq, not_or,
          Bool.not_eq_false] at hbad
        obtain ⟨⟨hticks, hmissed⟩, hclocks⟩ := hbad
        obtain ⟨hstatus, hcore⟩ := coreTick_missed hresting.idle hfree hticks hmissed
        have hsame : agedCore core tick.elapsedTicks = core := by
          rw [← hcore]
          apply hatomic
          change (coreTick core tick capacity).1 ≠ .ok
          rw [hstatus]
          exact Status.noConfusion
        rw [(agedCore_eq_iff hticks).mp hsame] at hclocks
        cases hclocks
      | _ => rfl
    | _ => rfl
  · intro hkept hfailed
    have hfinished := perform_finished hresting hcall
    generalize perform core input = result at hfinished hfailed
    cases hfinished with
    | done _ => exact absurd rfl hfailed
    | refused _ hsame => exact hsame
    | aged tick capacity hticking hmissed hsame =>
      obtain ⟨rfl, hticks⟩ := hticking
      have hstill : clocksRun core tick.elapsedTicks = false := by
        simpa [missedTick, hticks, hmissed] using hkept
      exact hsame.trans ((agedCore_eq_iff hticks).mpr hstill)

def electedRun : CoreRun :=
  .ofInputs sampleConfig
    [.call (.tick { elapsedTicks := 5, nextElectionTimeoutTicks := 5 }) 2, .advance,
      .step { plainMessage .preVoteResponse 2 1 0 with campaignTerm := 1, granted := true } 2,
      .advance, .step { plainMessage .voteResponse 2 1 1 with granted := true } 2, .advance]
    (by decide +kernel)

theorem elected_proposal_refused :
    (perform (electedRun.run.state 6)
        (.call (.propose [{ commandId := 7, data := [] }]) 1)).1 = .enospc ∧
      (perform (electedRun.run.state 6)
        (.call (.propose [{ commandId := 7, data := [] }]) 1)).2.core = electedRun.run.state 6 := by
  have hfailed : (perform (electedRun.run.state 6)
      (.call (.propose [{ commandId := 7, data := [] }]) 1)).1 = .enospc := by decide +kernel
  refine ⟨hfailed, ?_⟩
  apply (failed_call_changes_nothing electedRun (k := 6) (by decide +kernel) (by decide +kernel)
    rfl).mpr rfl
  rw [hfailed]
  exact Status.noConfusion

/-- Without room for two heartbeats the tick fails, and the quorum check has come closer. -/
theorem missed_heartbeat_ages_leader :
    (electedRun.run.state 6).readyOutstanding = false ∧
      (perform (electedRun.run.state 6)
        (.call (.tick { elapsedTicks := 1, nextElectionTimeoutTicks := 5 }) 1)).1 = .enospc ∧
      (electedRun.run.state 6).checkQuorumElapsedTicks = 0 ∧
      (perform (electedRun.run.state 6)
        (.call (.tick { elapsedTicks := 1, nextElectionTimeoutTicks := 5 }) 1)).2.core.checkQuorumElapsedTicks
        = 1 := by
  decide +kernel

theorem startElection_view (call : Call) :
    (startElection call).core.term = call.core.campaignTerm ∧
      (startElection call).core.votedFor = call.core.selfId := by
  have hview : coreView (startElection call).core =
      coreView (leaderState (candidateState call.core)) ∨
      coreView (startElection call).core = coreView (candidateState call.core) := by
    unfold startElection
    dsimp only
    split_ifs
    · exact Or.inl (progressed_view (broadcastReplication_emitted (speaks_anything _)).core)
    · exact Or.inr (progressed_view (broadcast_emitted (P := fun _ => True) (Q := fun _ => True)
        fun _ => trivial).core)
  rw [leaderState_view] at hview
  rcases hview with hview | hview <;>
    exact ⟨congrArg CoreView.term hview, congrArg CoreView.votedFor hview⟩

def countPreVote (call : Call) (voter : Option ℕ) : Call :=
  { call with core := { call.core with preVotes := call.core.preVotes ||| indexBit voter } }

theorem stepPreVoteResponse_wins {call : Call} {voter : Option ℕ}
    (h : willPreVoteWin call.core m voter = true) :
    stepPreVoteResponse call m voter = startElection (countPreVote call voter) := by
  simp only [willPreVoteWin, Bool.and_eq_true, beq_iff_eq, decide_eq_true_eq] at h
  obtain ⟨⟨⟨⟨⟨hrole, hterm⟩, hcampaign⟩, hgranted⟩, hfresh⟩, hquorum⟩ := h
  unfold stepPreVoteResponse
  rw [if_neg (not_lt.mpr hterm), if_neg (by simp [hrole, hcampaign, hgranted, hfresh])]
  exact if_pos hquorum

theorem coreStep_forgotten (htaken : stepTaken core m capacity = true)
    (h : campaignForgotten core m = true) :
    (coreStep core m capacity).2.core.term = 0 ∧
      (coreStep core m capacity).2.core.votedFor = core.selfId := by
  obtain ⟨peer, _, hstep⟩ := coreStep_taken htaken
  have hbegins : beginRefused core = false := by
    simp only [stepTaken, Bool.and_eq_true, Bool.not_eq_true'] at htaken
    exact htaken.1.2
  simp only [campaignForgotten, Bool.and_eq_true, beq_iff_eq] at h
  obtain ⟨⟨⟨htype, hwins⟩, hzero⟩, _⟩ := h
  let begun := beginCall core capacity
  let voter := voterIndex begun.core m.fromId
  have hhandler := stepPreVoteResponse_wins
    (show willPreVoteWin begun.core m voter = true from hwins)
  have hdispatch : stepDispatch m peer begun = (.ok, stepPreVoteResponse begun m voter) := by
    unfold stepDispatch
    rw [htype]
  obtain ⟨hterm, hvote⟩ := startElection_view (countPreVote begun voter)
  rw [hstep]
  unfold runCall
  rw [if_neg (by simp [hbegins]), hdispatch, hhandler]
  rw [finish_core]
  exact ⟨hterm.trans hzero, hvote⟩

/-- In every step of a run term and commit index do not fall and a vote is kept in its term,
unless the input wins the pre-votes of a campaign that the core has forgotten. -/
theorem calls_never_go_back (run : CoreRun) {k : ℕ} (hk : k < run.run.length) :
    (KeepsVote (run.run.state k) (run.run.state (k + 1)) ∧
        (run.run.state k).commitIndex ≤ (run.run.state (k + 1)).commitIndex) ↔
      forgottenCampaign (run.run.state k) (run.run.event k) = false := by
  have hresting := run.resting hk.le
  rw [run.step hk]
  generalize run.run.state k = core at hresting
  generalize run.run.event k = input
  constructor
  · rintro ⟨⟨hterm, hvote⟩, _⟩
    cases input with
    | step m capacity =>
      by_contra hbad
      simp only [forgottenCampaign, Bool.and_eq_false_iff, not_or, Bool.not_eq_false] at hbad
      obtain ⟨htaken, hforgotten⟩ := hbad
      obtain ⟨hfalls, hself⟩ := coreStep_forgotten htaken hforgotten
      dsimp only [perform] at hterm hvote
      rw [hfalls] at hterm hvote
      rw [hself] at hvote
      have hzero : core.term = 0 := by omega
      simp only [campaignForgotten, hzero, Bool.and_eq_true, Bool.or_eq_true, bne_iff_ne, ne_eq,
        not_true_eq_false, false_or] at hforgotten
      exact hforgotten.2.2 (hvote hzero.symm hforgotten.2.1).symm
    | _ => rfl
  · intro hkept
    cases hcall : isCall input with
    | true =>
      have hfinished := perform_finished hresting hcall
      generalize perform core input = result at hfinished
      cases hfinished with
      | done hcalled => exact ⟨hcalled.steady hkept, hcalled.commit_le⟩
      | refused _ hsame =>
        rw [hsame]
        exact ⟨.of_same rfl rfl, le_rfl⟩
      | aged tick _ _ _ hsame =>
        have hview := (agedCore_inert core tick.elapsedTicks).view
        rw [hsame]
        exact ⟨.of_same (congrArg CoreView.term hview) (congrArg CoreView.votedFor hview),
          (congrArg CoreView.commitIndex hview).ge⟩
    | false =>
      have htended := perform_tended hresting hcall
      exact ⟨.of_same htended.term htended.vote, htended.commit.ge⟩

/-- Node 1 votes in term 1, campaigns for term 2 and answers a pre-vote request meanwhile. -/
def forgottenInputs : List Input :=
  [.step (plainMessage .voteRequest 2 1 1) 2, .advance,
    .call (.tick { elapsedTicks := 5, nextElectionTimeoutTicks := 5 }) 2, .advance,
    .step { plainMessage .preVoteRequest 2 1 1 with campaignTerm := 2 } 2, .advance]

def lateRun : CoreRun :=
  .ofInputs sampleConfig (forgottenInputs ++
    [.step { plainMessage .preVoteResponse 2 1 1 with campaignTerm := 2, granted := true } 2])
    (by decide +kernel)

def forgottenRun : CoreRun :=
  .ofInputs sampleConfig (forgottenInputs ++
    [.step { plainMessage .preVoteResponse 2 1 0 with granted := true } 2]) (by decide +kernel)

theorem late_pre_vote_harmless :
    lateRun.run.length = 7 ∧ KeepsVote (lateRun.run.state 6) (lateRun.run.state 7) ∧
      (lateRun.run.state 6).commitIndex ≤ (lateRun.run.state 7).commitIndex :=
  ⟨by decide +kernel, (calls_never_go_back lateRun (k := 6) (by decide +kernel)).mpr
    (by decide +kernel)⟩

/-- The core becomes a candidate of term 0 after it was in term 1. -/
theorem forgotten_campaign_lowers_term :
    forgottenRun.run.length = 7 ∧ (forgottenRun.run.state 6).term = 1 ∧
      (perform (forgottenRun.run.state 6) (forgottenRun.run.event 6)).1 = .ok ∧
      (forgottenRun.run.state 7).term = 0 := by
  decide +kernel

end RaftCallContracts
