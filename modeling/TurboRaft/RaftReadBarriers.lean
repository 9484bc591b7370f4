import TurboRaft.RaftCallConduct

/-! # Read barriers

A leader counts who has acknowledged a read by the index of the sender among the peers. The
count is right as long as no commit gives the index of an acknowledgement to another peer. -/
namespace RaftReadBarriers

open RaftTypes RaftConfiguration RaftCoreState RaftCoreEmit RaftCoreStep RaftCore
open RaftTransitionLemmas RaftQuorum RaftRefinement RaftCoreRuns RaftOutbox RaftConduct
open RaftCallConduct RaftCoreHistories RaftLeaderConduct RaftOperationEffects RaftOrder Majorities

abbrev Answers := ℕ → UInt64 → NodeId → Prop

variable {heard heard' : Answers} {core core' : Core} {call call' : Call} {capacity : ℕ}

/-- Whoever a core counts for its barrier has acknowledged it, or is the core itself. -/
structure Backed (heard : Answers) (core : Core) : Prop where
  active : core.pendingReadContexts ≠ [] →
    core.pendingReadContextId = core.pendingReadContexts.headD 0
  counted : ∀ k p, core.pendingReadAcks.testBit k = true → core.peers[k]? = some p →
    p = core.selfId ∨ heard core.term core.pendingReadContextId p

/-- The reads in a Ready were acknowledged by a quorum. A barrier goes by its first read. -/
def Completed (heard : Answers) (call : Call) : Prop :=
  ∀ state, call.ready.readStates.head? = some state →
    ConfQuorum (coreMembership call.core)
      {p | p = call.core.selfId ∨ heard call.core.term state.contextId p}

structure Barrier (heard : Answers) (call : Call) : Prop where
  backed : Backed heard call.core
  completed : Completed heard call

theorem Backed.mono (h : Backed heard core) (hmore : ∀ t c p, heard t c p → heard' t c p) :
    Backed heard' core where
  active := h.active
  counted k p hbit hp := (h.counted k p hbit hp).imp_right (hmore _ _ _)

theorem Backed.keep (h : Backed heard core) (hreads : readView core' = readView core)
    (hterm : core'.term = core.term) (hheld : AcksHeld core core') : Backed heard core' := by
  have hcontexts : core'.pendingReadContexts = core.pendingReadContexts :=
    congrArg ReadView.contexts hreads
  have hid : core'.pendingReadContextId = core.pendingReadContextId :=
    congrArg ReadView.contextId hreads
  have hacks : core'.pendingReadAcks = core.pendingReadAcks := congrArg ReadView.acks hreads
  have hself : core'.selfId = core.selfId := congrArg ReadView.self hreads
  constructor
  case active =>
    rw [hcontexts, hid]
    exact h.active
  case counted =>
    intro k p hbit hp
    rw [hacks] at hbit
    rw [hself, hterm, hid]
    exact h.counted k p hbit (hheld k p hbit hp)

theorem Backed.idle (horderly : Orderly core) (hnone : core.pendingReadContexts = []) :
    Backed heard core where
  active hsome := absurd hnone hsome
  counted k p hbit := by
    rw [horderly.unasked hnone, Nat.zero_testBit] at hbit
    cases hbit

theorem completed_nothing (hnone : call.ready.readStates = []) : Completed heard call := by
  intro state hstate
  rw [hnone] at hstate
  cases hstate

theorem Barrier.carry (h : Barrier heard call) (hreads : readView call'.core = readView call.core)
    (hterm : call'.core.term = call.core.term) (hpeers : call'.core.peers = call.core.peers)
    (hmembership : coreMembership call'.core = coreMembership call.core)
    (hstates : call'.ready.readStates = call.ready.readStates) : Barrier heard call' := by
  have hself : call'.core.selfId = call.core.selfId := congrArg ReadView.self hreads
  refine ⟨h.backed.keep hreads hterm (acksHeld_refl hpeers), ?_⟩
  intro state hstate
  rw [hmembership, hself, hterm]
  exact h.completed state (hstates ▸ hstate)

section Bodies

variable {start : Call} {m : Message}

theorem readEmitActive_barrier (h : Backed heard call.core)
    (hquorum : coreHasQuorum call.core call.core.pendingReadAcks = true) :
    Barrier heard (readEmitActive call) := by
  constructor
  case backed =>
    refine ⟨fun hsome => absurd rfl hsome, fun k p hbit _ => ?_⟩
    change Nat.testBit 0 k = true at hbit
    rw [Nat.zero_testBit] at hbit
    cases hbit
  case completed =>
    intro state hstate
    change (call.core.pendingReadContexts.map _).head? = some state at hstate
    cases hcontexts : call.core.pendingReadContexts with rw [hcontexts] at hstate
    | nil =>
      cases hstate
    | cons first rest =>
      cases hstate
      have hid : call.core.pendingReadContextId = first := by
        rw [h.active (by rw [hcontexts]; exact List.cons_ne_nil _ _), hcontexts]
        rfl
      have hsound : ConfQuorum (coreMembership call.core)
          {p | p = call.core.selfId ∨ heard call.core.term first p} := by
        refine coreHasQuorum_sound hquorum fun k p hp hbit => ?_
        have hcounted := h.counted k p hbit hp
        rw [hid] at hcounted
        exact hcounted
      exact hsound

theorem readBarrier_backed (hpeers : core.peers.length ≤ maxMembers) :
    Backed heard (readBarrier core) where
  active _ := rfl
  counted k p hbit hp := by
    exact Or.inl (voter_of_testBit hpeers hp hbit)

theorem readStartActiveBarrier_barrier (hpeers : call.core.peers.length ≤ maxMembers)
    (hstates : Completed heard call) : Barrier heard (readStartActiveBarrier call) := by
  have hbacked : Backed heard (readBarrier call.core) := readBarrier_backed hpeers
  unfold readStartActiveBarrier
  dsimp only
  split_ifs with hquorum
  · refine readEmitActive_barrier ?_ ?_
    · exact hbacked
    · exact hquorum
  · rw [broadcastReadIndex_eq, voterCast_eq]
    exact ⟨hbacked, hstates⟩

theorem fillReplicationWindows_barrier (h : Barrier heard call) :
    Barrier heard (fillReplicationWindows call) := by
  have hsending := fillReplicationWindows_sending call
  obtain ⟨⟨_, _, hcore⟩, hstates⟩ := hsending.keeps
    (fun next => next.ready.readStates = call.ready.readStates) rfl (by
      intro mid peer after _ _ hmid hwrote
      cases hwrote <;> exact hmid)
  exact h.carry (by rw [hcore]; rfl) (by rw [hcore]; rfl) (by rw [hcore]; rfl)
    (by rw [hcore]; rfl) hstates

theorem pollBody_barrier (hpeers : start.core.peers.length ≤ maxMembers)
    (hstates : start.ready.readStates = []) (h : Backed heard start.core)
    (hok : pollBody start = (.ok, call)) : Barrier heard call := by
  unfold pollBody at hok
  split_ifs at hok
  · cases hok
  · cases hok
    exact fillReplicationWindows_barrier
      (readStartActiveBarrier_barrier hpeers (completed_nothing hstates))
  · cases hok
    exact fillReplicationWindows_barrier ⟨h, completed_nothing hstates⟩

theorem readIndexBody_barrier (hpeers : start.core.peers.length ≤ maxMembers)
    (hstates : start.ready.readStates = []) (h : Backed heard start.core) {contextId : UInt64}
    (hok : readIndexBody contextId start = (.ok, call)) : Barrier heard call := by
  unfold readIndexBody at hok
  split_ifs at hok with _ _ _ _ hactive
  · cases hok
  · cases hok
  · cases hok
  · cases hok
  · -- the first read of the barrier stays the first
    cases hok
    rw [bne_iff_ne] at hactive
    have hsome : start.core.pendingReadContexts ≠ [] :=
      fun hnone => hactive (congrArg List.length hnone)
    refine ⟨?_, completed_nothing hstates⟩
    unfold joinRead
    split_ifs
    · refine ⟨fun _ => ?_, h.counted⟩
      rw [h.active hsome]
      cases hcontexts : start.core.pendingReadContexts with
      | nil => exact absurd hcontexts hsome
      | cons first rest => rfl
    · exact ⟨h.active, h.counted⟩
  · cases hok
  · cases hok
    exact readStartActiveBarrier_barrier hpeers (completed_nothing hstates)

def countAnswer (core : Core) (voter : Option ℕ) : Core :=
  { core with pendingReadAcks := core.pendingReadAcks ||| indexBit voter }

theorem countAnswer_backed (h : Backed heard core) (hpeers : core.peers.length ≤ maxMembers)
    {sender : NodeId} (hanswered : heard core.term core.pendingReadContextId sender) :
    Backed heard (countAnswer core (voterIndex core sender)) := by
  refine ⟨h.active, fun k p hbit hp => ?_⟩
  change (core.pendingReadAcks ||| indexBit (voterIndex core sender)).testBit k = true at hbit
  rw [Nat.testBit_or, Bool.or_eq_true] at hbit
  rcases hbit with hbit | hbit
  · exact h.counted k p hbit hp
  · rw [voter_of_testBit hpeers hp hbit]
    exact Or.inr hanswered

theorem completeBarrier_barrier (h : Backed heard call.core)
    (hpeers : call.core.peers.length ≤ maxMembers)
    (hquorum : coreHasQuorum call.core call.core.pendingReadAcks = true) :
    Barrier heard (completeBarrier call) := by
  have hemitted := readEmitActive_barrier h hquorum
  unfold completeBarrier
  dsimp only
  split_ifs
  · exact readStartActiveBarrier_barrier hpeers hemitted.completed
  · exact hemitted

theorem stepReadIndexResponse_barrier (hpeers : start.core.peers.length ≤ maxMembers)
    (horderly : Orderly start.core) (hstates : start.ready.readStates = [])
    (h : Backed heard start.core) (hanswered : heard m.term m.contextId m.fromId) :
    Barrier heard (stepReadIndexResponse start m (voterIndex start.core m.fromId)) := by
  unfold stepReadIndexResponse
  split_ifs with hlater hignored
  · exact ⟨.idle (horderly.follow m.term) rfl, completed_nothing hstates⟩
  · exact ⟨h, completed_nothing hstates⟩
  · simp only [Bool.or_eq_true, bne_iff_ne, beq_iff_eq, not_or, Decidable.not_not] at hignored
    obtain ⟨⟨⟨⟨⟨_, hterm⟩, _⟩, hid⟩, _⟩, _⟩ := hignored
    rw [hterm, hid] at hanswered
    have hcounted := countAnswer_backed h hpeers hanswered
    change Barrier heard (if coreHasQuorum (countAnswer start.core (voterIndex start.core m.fromId))
        (countAnswer start.core (voterIndex start.core m.fromId)).pendingReadAcks then
      completeBarrier { start with core := countAnswer start.core (voterIndex start.core m.fromId) }
      else { start with core := countAnswer start.core (voterIndex start.core m.fromId) })
    split_ifs with hquorum
    · exact completeBarrier_barrier hcounted hpeers hquorum
    · exact ⟨hcounted, completed_nothing hstates⟩

end Bodies

variable {k : ℕ} {input : Input}

def Answering (core : Core) (input : Input) : Answers := fun term contextId node =>
  ∃ m capacity, input = .step m capacity ∧ stepTaken core m capacity = true ∧
    m.type = .readIndexResponse ∧ m.term = term ∧ m.contextId = contextId ∧ m.fromId = node

theorem finish_barrier (h : Barrier heard call) (before : Before) :
    Barrier heard (RaftCoreEmit.finish before call) := by
  have hadmitted : Barrier heard (admitCommitted call) := by
    unfold admitCommitted
    split_ifs
    · exact h.carry rfl rfl rfl rfl rfl
    · exact h
  exact hadmitted.carry rfl rfl rfl rfl rfl

theorem runCall_barrier {body : Call → Status × Call}
    (hbody : ∀ next, body (beginCall core capacity) = (.ok, next) → Barrier heard next)
    (hok : runCall core capacity body = (.ok, call)) : Barrier heard call := by
  obtain ⟨next, hresult, rfl⟩ := runCall_ok hok
  exact finish_barrier (hbody next hresult) _

theorem reading_barrier (h : Resting core) (horderly : Orderly core)
    (hreading : isReading input = true) (hbacked : Backed heard core)
    (hmore : ∀ t c p, Answering core input t c p → heard t c p)
    (hok : perform core input = (.ok, call)) : Barrier heard call := by
  have hpeers := (peerSetBuild_spec h.peers).1
  have hbegun : Backed heard (beginCall core (inputCapacity input)).core :=
    hbacked.keep rfl rfl (acksHeld_refl rfl)
  cases input with
  | step m capacity =>
    have htype : m.type = .readIndexResponse := by simpa [isReading] using hreading
    have htaken : stepTaken core m capacity = true := by
      by_contra hnot
      exact (coreStep_untaken h.idle (Bool.not_eq_true _ ▸ hnot)).1 (congrArg Prod.fst hok)
    obtain ⟨peer, _, hstep⟩ := coreStep_taken htaken
    change coreStep core m capacity = (.ok, call) at hok
    rw [hstep] at hok
    refine runCall_barrier (fun next hnext => ?_) hok
    rw [stepDispatch, htype] at hnext
    cases hnext
    exact stepReadIndexResponse_barrier hpeers (beginCall_blank h horderly).orderly rfl hbegun
      (hmore _ _ _ ⟨m, capacity, rfl, htaken, htype, rfl, rfl, rfl⟩)
  | call operation capacity =>
    cases operation with
    | readIndex contextId =>
      change coreReadIndex core contextId capacity = (.ok, call) at hok
      unfold coreReadIndex at hok
      split_ifs at hok
      · cases hok
      · exact runCall_barrier (fun _ hnext => readIndexBody_barrier hpeers rfl hbegun hnext) hok
    | poll => exact runCall_barrier (fun _ hnext => pollBody_barrier hpeers rfl hbegun hnext) hok
    | _ => cases hreading
  | _ => cases hreading

theorem perform_barrier (h : Resting core) (horderly : Orderly core) (hbacked : Backed heard core)
    (hunmoved : movesAcks core input = false)
    (hmore : ∀ t c p, Answering core input t c p → heard t c p) :
    Barrier heard (perform core input).2 := by
  by_cases hcall : isCall input = true
  · have hconducted := perform_conducted h horderly hcall
    have hfinished := perform_finished h hcall
    have hbusy : ∀ call, perform core input = (.ok, call) → isReading input = true →
        Barrier heard call :=
      fun call hok hreading => reading_barrier h horderly hreading hbacked hmore hok
    generalize perform core input = result at hconducted hfinished hbusy
    cases hconducted with
    | done hconduct =>
      cases hconduct.reads with
      | busy reading => exact hbusy _ rfl reading
      | kept reads _ term held states =>
        exact ⟨hbacked.keep reads term (held hunmoved), completed_nothing states⟩
      | cleared contexts _ states =>
        exact ⟨.idle hconduct.orderly contexts, completed_nothing states⟩
    | failed hstatus hsilent =>
      obtain ⟨_, hready⟩ := hsilent
      refine ⟨?_, completed_nothing (by rw [hready]; rfl)⟩
      cases hfinished with
      | done => exact absurd rfl hstatus
      | refused _ hsame => exact hsame ▸ hbacked
      | aged tick _ _ _ hsame =>
        have hview := (agedCore_inert core tick.elapsedTicks).view
        rw [hsame]
        exact hbacked.keep (agedCore_reads core _) (congrArg CoreView.term hview)
          (acksHeld_refl (congrArg CoreView.peers hview))
  · have hplain : isCall input = false := Bool.not_eq_true _ ▸ hcall
    obtain ⟨_, hothers⟩ := perform_bookkept h hplain
    refine ⟨?_, completed_nothing (by rw [perform_silent hplain]; rfl)⟩
    rw [hothers]
    exact hbacked.keep rfl rfl (acksHeld_refl rfl)

/-- The nodes that have acknowledged a barrier before position `k` of a run. -/
def AnsweredBy (run : CoreRun) (k : ℕ) : Answers := fun term contextId node =>
  ∃ j, j < k ∧ Answering (run.run.state j) (run.run.event j) term contextId node

theorem AnsweredBy.later {run : CoreRun} (t : ℕ) (c : UInt64) (p : NodeId)
    (h : AnsweredBy run k t c p) : AnsweredBy run (k + 1) t c p := by
  obtain ⟨j, hj, hanswering⟩ := h
  exact ⟨j, by omega, hanswering⟩

theorem run_barrier (run : CoreRun)
    (hunmoved : run.run.Meets fun core input => movesAcks core input = false)
    (hk : k < run.run.length) (hbacked : Backed (AnsweredBy run k) (run.run.state k)) :
    Barrier (AnsweredBy run (k + 1)) (perform (run.run.state k) (run.run.event k)).2 :=
  perform_barrier (run.resting hk.le) (run_orderly run hk.le) (hbacked.mono AnsweredBy.later)
    (hunmoved k hk) fun _ _ _ hanswering => ⟨k, Nat.lt_succ_self k, hanswering⟩

theorem run_backed (run : CoreRun)
    (hunmoved : run.run.Meets fun core input => movesAcks core input = false)
    (hk : k ≤ run.run.length) : Backed (AnsweredBy run k) (run.run.state k) := by
  induction k with
  | zero =>
    have hinitial : run.run.state 0 = run.start := run.run.initial
    have horderly := coreCreate_orderly run.created
    rw [hinitial]
    exact .idle horderly (horderly.reading (by rw [coreCreate_follower run.created]; decide)).1
  | succ k ih =>
    rw [run.step hk]
    exact (run_barrier run hunmoved hk (ih (by omega))).backed

/-- The reads that a Ready completes were acknowledged by a quorum of the configuration that is
committed by then: those who sent the leader an acknowledgement of its term with the context of
the barrier, and the leader itself. No commit before has moved an acknowledgement to another
peer. -/
theorem completed_reads_backed (run : CoreRun)
    (hunmoved : run.run.Meets fun core input => movesAcks core input = false) {k : ℕ}
    (hk : k < run.run.length) {state : ReadState}
    (hstate : (perform (run.run.state k) (run.run.event k)).2.ready.readStates.head? = some state) :
    ConfQuorum (coreMembership (run.run.state (k + 1)))
      {p | p = (run.run.state (k + 1)).selfId ∨
        AnsweredBy run (k + 1) (run.run.state (k + 1)).term state.contextId p} := by
  rw [run.step hk]
  exact (run_barrier run hunmoved hk (run_backed run hunmoved hk.le)).completed state hstate

/-- Node 1 is elected by node 2 of nodes 1 to 3 and moves the group to nodes 1, 3, 4 and 5. A
read starts in between, and node 2 acknowledges it. -/
def movingInputs (commit : List Input) : List Input :=
  [.call (.tick { elapsedTicks := 5, nextElectionTimeoutTicks := 5 }) 2, .advance,
    .step { plainMessage .preVoteResponse 2 1 0 with campaignTerm := 1, granted := true } 2,
    .advance, .step { plainMessage .voteResponse 2 1 1 with granted := true } 2, .advance,
    .call (.changeMembership { voters := [1, 3, 4, 5], learners := [], transitionId := 7 }) 4,
    .advance, .step { plainMessage .heartbeatResponse 2 1 1 with
      granted := true, matchIndex := 1 } 4, .advance,
    .call (.tick { elapsedTicks := 1, nextElectionTimeoutTicks := 5 }) 4, .advance,
    .call (.readIndex 9) 4, .advance,
    .step { plainMessage .readIndexResponse 2 1 1 with contextId := 9 } 4] ++ commit ++
  [.step { plainMessage .readIndexResponse 5 1 1 with contextId := 9 } 4]

def movingRun : CoreRun :=
  .ofInputs sampleConfig (movingInputs
    [.step { plainMessage .heartbeatResponse 3 1 1 with granted := true, matchIndex := 2 } 4,
      .step { plainMessage .heartbeatResponse 4 1 1 with granted := true, matchIndex := 2 } 4,
      .advance]) (by decide +kernel)

def stayingRun : CoreRun :=
  .ofInputs sampleConfig (movingInputs
    [.step { plainMessage .readIndexResponse 4 1 1 with contextId := 9 } 4]) (by decide +kernel)

theorem staying_read_backed :
    (stayingRun.run.Meets fun core input => movesAcks core input = false) ∧
      (perform (stayingRun.run.state 16) (stayingRun.run.event 16)).2.ready.readStates.head? =
        some { contextId := 9, index := 1 } ∧
      ConfQuorum (coreMembership (stayingRun.run.state (16 + 1)))
        {p | p = (stayingRun.run.state (16 + 1)).selfId ∨
          AnsweredBy stayingRun (16 + 1) (stayingRun.run.state (16 + 1)).term 9 p} := by
  have hunmoved : stayingRun.run.Meets fun core input => movesAcks core input = false := by
    have hmeets : stayingRun.run.Meets fun core input => (!movesAcks core input) = true :=
      CoreRun.ofInputs_meets _ (by decide +kernel)
    exact hmeets.imp fun _ _ h => by simpa using h
  have hstate : (perform (stayingRun.run.state 16) (stayingRun.run.event 16)).2.ready.readStates.head? =
      some { contextId := 9, index := 1 } := by decide +kernel
  have hbacked := completed_reads_backed stayingRun hunmoved (k := 16) (by decide +kernel) hstate
  exact ⟨hunmoved, hstate, hbacked⟩

def readAnswersFrom (ids : List NodeId) : Input → Bool
  | .step m _ => m.type != .readIndexResponse || ids.contains m.fromId
  | _ => true

/-- The commit of the final configuration gives the acknowledgement of node 2 to node 3. With
that of node 5 the read is completed, although only nodes 1 and 5 of four stand behind it. -/
theorem moved_acknowledgement_counted :
    (perform (movingRun.run.state 18) (movingRun.run.event 18)).2.ready.readStates.head? =
        some { contextId := 9, index := 1 } ∧
      ¬ ConfQuorum (coreMembership (movingRun.run.state 19))
        {p | p = (movingRun.run.state 19).selfId ∨
          AnsweredBy movingRun 19 (movingRun.run.state 19).term 9 p} := by
  refine ⟨by decide +kernel, fun hquorum => ?_⟩
  have hvoters : membersWith (coreMembership (movingRun.run.state 19)) confNewVoter =
      [1, 3, 4, 5] := by decide +kernel
  have hself : (movingRun.run.state 19).selfId = 1 := by decide +kernel
  have hlength : movingRun.run.length = 19 := by decide +kernel
  have hsenders : movingRun.run.Meets fun _ input => readAnswersFrom [2, 5] input = true :=
    CoreRun.ofInputs_meets _ (by decide +kernel)
  have hmajority := hquorum.2
  rw [hvoters, hself] at hmajority
  have hfew : IsMajority [1, 3, 4, 5] {p : NodeId | p = 1 ∨ p = 5} := by
    refine hmajority.mono fun id hid hin => ?_
    rcases hin with hone | ⟨j, hj, m, capacity, hevent, _, htype, _, _, hfrom⟩
    · exact Or.inl hone
    · have hsender := hsenders j (by omega)
      rw [hevent] at hsender
      simp [readAnswersFrom, htype, hfrom] at hsender
      rcases hsender with rfl | rfl
      · simp at hid
      · exact Or.inr rfl
  simp [IsMajority, hits] at hfew

end RaftReadBarriers
