import TurboRaft.RaftSnapshotTransfer

/-! # A completed transfer has been installed

Every chunk, every state of the receiver and every acknowledgement is traced to a transfer that was
begun, and every final acknowledgement to a successful installation. -/
namespace RaftSnapshotSafety

open RaftWire RaftSnapshotTransfer Executions

variable {sha : List UInt8 → Digest}

structure ChunkOf (sha : List UInt8 → Digest) (c : SnapshotChunk) (t : Transfer) : Prop where
  leaderTerm : c.term = t.leaderTerm
  index : c.snapshotIndex = t.snapshotIndex
  term : c.snapshotTerm = t.snapshotTerm
  size : c.snapshotSize = t.bytes.length
  digest : c.snapshotDigest = sha t.bytes
  configuration : c.snapshotOffset = 0 → c.configuration = some t.configuration

structure SenderOf (sha : List UInt8 → Digest) (s : Sender) (t : Transfer) : Prop where
  leaderTerm : s.leaderTerm = t.leaderTerm
  index : s.snapshotIndex = t.snapshotIndex
  term : s.snapshotTerm = t.snapshotTerm
  size : s.size = t.bytes.length
  digest : s.digest = sha t.bytes
  configuration : s.configuration = t.configuration

structure ReceiverOf (sha : List UInt8 → Digest) (r : SnapshotReceiver) (t : Transfer) : Prop where
  index : r.snapshotIndex = t.snapshotIndex
  term : r.snapshotTerm = t.snapshotTerm
  digest : r.digest = sha t.bytes
  configuration : r.configuration = t.configuration

/-- The installation is of the transfer, up to the hash of the bytes. -/
structure InstallOf (sha : List UInt8 → Digest) (i : Install) (t : Transfer) : Prop where
  index : i.snapshotIndex = t.snapshotIndex
  term : i.snapshotTerm = t.snapshotTerm
  configuration : i.configuration = t.configuration
  digest : sha i.data = sha t.bytes

/-- A completed transfer has been installed; any other has not taken all of its bytes. -/
structure Progress (sha : List UInt8 → Digest) (installs : List Install) (r : SnapshotReceiver)
    (t : Transfer) : Prop where
  done : r.completed = true → ∃ i ∈ installs, InstallOf sha i t
  hashed : r.completed = false → r.data = r.hashed
  open_ : r.completed = false → r.nextOffset = 0 ∨ r.nextOffset < r.snapshotSize

def ReceiverTraced (sha : List UInt8 → Digest) (begun : List Transfer) (installs : List Install)
    (r : SnapshotReceiver) : Prop :=
  r.active = true → ∃ t ∈ begun, ReceiverOf sha r t ∧ Progress sha installs r t

/-- The acknowledgement says that the whole snapshot has arrived. -/
def Final (a : SnapshotAck) : Prop := a.accepted = true ∧ a.nextOffset = a.snapshotSize

def AckTraced (sha : List UInt8 → Digest) (begun : List Transfer) (installs : List Install)
    (a : SnapshotAck) : Prop :=
  Final a → ∃ t ∈ begun, a.snapshotIndex = t.snapshotIndex ∧ ∃ i ∈ installs, InstallOf sha i t

/-- The coupling of the two nodes through everything that was sent. -/
structure Coupled (sha : List UInt8 → Digest) (w : TransferWorld) : Prop where
  chunks : ∀ c ∈ w.chunks, ∃ t ∈ w.begun, ChunkOf sha c t
  sender : w.sender.active = true → ∃ t, w.begun.getLast? = some t ∧ SenderOf sha w.sender t
  receiver : ReceiverTraced sha w.begun w.installs w.receiver
  acks : ∀ a ∈ w.acks, AckTraced sha w.begun w.installs a
  complete : w.sender.complete = true →
    w.sender.active = true ∧ ∃ a ∈ w.acks, Final a ∧ a.snapshotIndex = w.sender.snapshotIndex

section Receiver

variable {begun : List Transfer} {installs : List Install} {r : SnapshotReceiver}
  {c : SnapshotChunk} {t : Transfer} {calls : ReceiveCalls}

theorem traced_inactive (h : r.active = false) : ReceiverTraced sha begun installs r := by
  intro hactive
  rw [h] at hactive
  cases hactive

theorem ack_refused {a : SnapshotAck} (h : a.accepted = false) :
    AckTraced sha begun installs a := by
  rintro ⟨haccepted, -⟩
  rw [h] at haccepted
  cases haccepted

def OutcomeTraced (sha : List UInt8 → Digest) (begun : List Transfer) (installs : List Install)
    (out : Received) : Prop :=
  ReceiverTraced sha begun (installs ++ out.installed.toList) out.receiver ∧
    AckTraced sha begun (installs ++ out.installed.toList) out.ack

theorem receiverFinish_traced {ack : SnapshotAck} (ht : t ∈ begun) (hof : ReceiverOf sha r t)
    (hhashed : r.data = r.hashed) (hack : ack.snapshotIndex = t.snapshotIndex) :
    OutcomeTraced sha begun installs (receiverFinish sha r ack calls) := by
  unfold receiverFinish
  split
  · exact ⟨traced_inactive rfl, ack_refused rfl⟩
  next hdigest =>
    split
    · exact ⟨traced_inactive rfl, ack_refused rfl⟩
    · have hsha : sha r.hashed = r.digest := by
        simp only [Bool.or_eq_true, Bool.not_eq_true', bne_iff_ne, ne_eq, not_or,
          Decidable.not_not] at hdigest
        exact hdigest.2
      have hinstall : InstallOf sha
          { leaderTerm := r.leaderTerm
            snapshotIndex := r.snapshotIndex
            snapshotTerm := r.snapshotTerm
            configuration := r.configuration
            data := r.data } t :=
        ⟨hof.index, hof.term, hof.configuration, by rw [hhashed, hsha, hof.digest]⟩
      have hexists : ∃ i ∈ installs ++ [Install.mk r.leaderTerm r.snapshotIndex r.snapshotTerm
          r.configuration r.data], InstallOf sha i t :=
        ⟨_, List.mem_append_right _ List.mem_cons_self, hinstall⟩
      exact ⟨fun _ => ⟨t, ht, ⟨hof.index, hof.term, hof.digest, hof.configuration⟩,
        ⟨fun _ => hexists, by simp, by simp⟩⟩, fun _ => ⟨t, ht, hack, hexists⟩⟩

theorem receiverAccept_traced (ht : t ∈ begun) (hof : ReceiverOf sha r t)
    (hprogress : Progress sha installs r t) (hindex : c.snapshotIndex = t.snapshotIndex)
    (hsize : c.snapshotSize = r.snapshotSize)
    (hdone : c.done = (c.snapshotOffset + c.data.length == c.snapshotSize))
    (hbound : c.snapshotOffset + c.data.length ≤ c.snapshotSize) :
    OutcomeTraced sha begun installs (receiverAccept sha r c calls) := by
  have hsame : ReceiverTraced sha begun (installs ++ []) r := by
    rw [List.append_nil]
    exact fun _ => ⟨t, ht, hof, hprogress⟩
  unfold receiverAccept
  split
  next hcompleted =>
    refine ⟨hsame, fun _ => ⟨t, ht, hindex, ?_⟩⟩
    obtain ⟨i, hi, hinstall⟩ := hprogress.done hcompleted
    exact ⟨i, List.mem_append_left _ hi, hinstall⟩
  next hrunning =>
    rw [Bool.not_eq_true] at hrunning
    have hopen := hprogress.open_ hrunning
    split
    next hearlier =>
      refine ⟨hsame, fun hfinal => absurd hfinal.2 ?_⟩
      simp only [prepareAck]
      omega
    next =>
      split
      · exact ⟨hsame, ack_refused rfl⟩
      next hoffset =>
        split
        · exact ⟨traced_inactive rfl, ack_refused rfl⟩
        · split
          · exact ⟨traced_inactive rfl, ack_refused rfl⟩
          · split
            next hmore =>
              have hshort : r.nextOffset + c.data.length < r.snapshotSize := by
                rw [Bool.not_eq_true', hdone, beq_eq_false_iff_ne] at hmore
                omega
              refine ⟨?_, fun hfinal => absurd hfinal.2 ?_⟩
              · exact fun _ => ⟨t, ht, ⟨hof.index, hof.term, hof.digest, hof.configuration⟩,
                  ⟨fun hcompleted => absurd hcompleted (by simp [hrunning]),
                    fun _ => by rw [hprogress.hashed hrunning], fun _ => .inr hshort⟩⟩
              · simp only [prepareAck]
                omega
            · exact receiverFinish_traced ht ⟨hof.index, hof.term, hof.digest, hof.configuration⟩
                (by simp only [hprogress.hashed hrunning]) hindex

theorem chunkValid_bounds (h : chunkValid r c = true) :
    c.done = (c.snapshotOffset + c.data.length == c.snapshotSize) ∧
      c.snapshotOffset + c.data.length ≤ c.snapshotSize := by
  simp only [chunkValid, Bool.and_eq_true, decide_eq_true_eq, beq_iff_eq] at h
  refine ⟨h.1.2, ?_⟩
  omega

theorem receiverStart_cases (r : SnapshotReceiver) (calls : ReceiveCalls)
    (installs : List Install) (hoffset : c.snapshotOffset = 0) (hchunk : ChunkOf sha c t) :
    ((receiverStart r c calls).1 ≠ .ok ∧
      ((receiverStart r c calls).2 = r ∨ (receiverStart r c calls).2.active = false)) ∨
    ((receiverStart r c calls).1 = .ok ∧ ReceiverOf sha (receiverStart r c calls).2 t ∧
      Progress sha installs (receiverStart r c calls).2 t ∧
      c.snapshotSize = (receiverStart r c calls).2.snapshotSize) := by
  have hconf : c.configuration.getD noConf = t.configuration := by
    rw [hchunk.configuration hoffset, Option.getD_some]
  unfold receiverStart
  split
  · exact .inl ⟨by simp, .inl rfl⟩
  · split
    · exact .inl ⟨by simp, .inl rfl⟩
    · split
      · exact .inl ⟨by simp, .inr rfl⟩
      · split
        · split
          next hbegin => exact .inl ⟨by simpa using hbegin, .inr rfl⟩
          next =>
            exact .inr ⟨rfl, ⟨hchunk.index, hchunk.term, hchunk.digest, hconf⟩,
              ⟨by simp [clearReceiver], fun _ => rfl, fun _ => .inl rfl⟩, rfl⟩
        · exact .inr ⟨rfl, ⟨hchunk.index, hchunk.term, hchunk.digest, hconf⟩,
            ⟨by simp [clearReceiver], fun _ => rfl, fun _ => .inl rfl⟩, rfl⟩

theorem receiverBegin_traced (hr : ReceiverTraced sha begun installs r) (ht : t ∈ begun)
    (hchunk : ChunkOf sha c t) (hvalid : chunkValid r c = true) (hoffset : c.snapshotOffset = 0) :
    OutcomeTraced sha begun installs
      (match receiverStart r c calls with
        | (.ok, started) => receiverAccept sha started c calls
        | (status, after) =>
          { status
            ack := { prepareAck after c with nextOffset := 0 }
            receiver := after
            installed := none }) := by
  obtain ⟨hfailed, hafter⟩ | ⟨hok, hof, hprogress, hsize⟩ :=
    receiverStart_cases r calls installs hoffset hchunk
  · generalize receiverStart r c calls = started at hfailed hafter ⊢
    obtain ⟨status, after⟩ := started
    split
    next heq =>
      cases heq
      exact absurd rfl hfailed
    next heq =>
      cases heq
      refine ⟨?_, ack_refused rfl⟩
      rw [Option.toList_none, List.append_nil]
      obtain rfl | hinactive := hafter
      · exact hr
      · exact traced_inactive hinactive
  · generalize receiverStart r c calls = started at hok hof hprogress hsize ⊢
    obtain ⟨status, after⟩ := started
    cases hok
    exact receiverAccept_traced ht hof hprogress hchunk.index hsize (chunkValid_bounds hvalid).1
      (chunkValid_bounds hvalid).2

theorem receiverHandle_traced (calls : ReceiveCalls) (hr : ReceiverTraced sha begun installs r)
    (hchunk : ∃ t ∈ begun, ChunkOf sha c t) :
    OutcomeTraced sha begun installs (receiverHandle sha r c calls) := by
  obtain ⟨t, ht, hof⟩ := hchunk
  have hsame : ReceiverTraced sha begun (installs ++ []) r := by rwa [List.append_nil]
  unfold receiverHandle
  dsimp only
  split
  · exact ⟨hsame, ack_refused rfl⟩
  next hvalid =>
    rw [Bool.not_eq_true', Bool.not_eq_false] at hvalid
    split
    · split
      · exact ⟨hsame, ack_refused rfl⟩
      next hoffset => exact receiverBegin_traced hr ht hof hvalid (by simpa using hoffset)
    next hactive =>
      split
      · split
        · exact ⟨hsame, ack_refused rfl⟩
        next hnewer =>
          simp only [Bool.or_eq_true, bne_iff_ne, ne_eq, not_or, Decidable.not_not] at hnewer
          exact receiverBegin_traced hr ht hof hvalid hnewer.1.1
      next hidentity =>
        simp only [identityMatches, Bool.not_eq_true', Bool.not_eq_false, Bool.and_eq_true,
          beq_iff_eq] at hactive hidentity
        obtain ⟨s, hs, hreceiver, hprogress⟩ := hr hactive
        exact receiverAccept_traced hs hreceiver hprogress
          (hidentity.1.1.1.2.symm.trans hreceiver.index) hidentity.1.2.symm
          (chunkValid_bounds hvalid).1 (chunkValid_bounds hvalid).2

end Receiver

section Sender

variable {s : Sender} {t : Transfer}

theorem fillChunk_of (h : SenderOf sha s t) (claim : Claim) :
    ChunkOf sha (fillChunk s claim) t := by
  refine ⟨h.leaderTerm, h.index, h.term, h.size, h.digest, fun hoffset => ?_⟩
  have hzero : claim.offset = 0 := hoffset
  simp [fillChunk, hzero, h.configuration]

theorem senderNextChunk_cases (sha : List UInt8 → Digest) (s : Sender) (outcome : ReadOutcome) :
    (∃ status, senderNextChunk s outcome = (.error status, s)) ∨
    ∃ claim after, senderNextChunk s outcome = (.ok (fillChunk after claim), after) ∧
      s.active = true ∧ s.complete = false ∧ after.active = s.active ∧
      after.complete = s.complete ∧ after.snapshotIndex = s.snapshotIndex ∧
      ∀ t, SenderOf sha s t → SenderOf sha after t := by
  unfold senderNextChunk
  split
  · exact .inl ⟨_, rfl⟩
  next hactive =>
    simp only [Bool.or_eq_true, Bool.not_eq_true', not_or, Bool.not_eq_false,
      Bool.not_eq_true] at hactive
    split
    · split
      · exact .inl ⟨_, rfl⟩
      · split
        · exact .inl ⟨_, rfl⟩
        next claim _ _ =>
          exact .inr ⟨claim, s, rfl, hactive.1, hactive.2, rfl, rfl, rfl, fun _ h => h⟩
    · split
      · exact .inl ⟨_, rfl⟩
      · dsimp only
        split
        · exact .inl ⟨_, rfl⟩
        · split
          · exact .inl ⟨_, rfl⟩
          · exact .inr ⟨_, _, rfl, hactive.1, hactive.2, rfl, rfl, rfl, fun _ h =>
              ⟨h.leaderTerm, h.index, h.term, h.size, h.digest, h.configuration⟩⟩

theorem senderAcknowledge_cases (sha : List UInt8 → Digest) (s : Sender) (ack : SnapshotAck) :
    let after := (senderAcknowledge s ack).2
    after.active = s.active ∧ after.snapshotIndex = s.snapshotIndex ∧
      (∀ t, SenderOf sha s t → SenderOf sha after t) ∧
      (after.complete = true → s.complete = true ∨
        (s.active = true ∧ Final ack ∧ ack.snapshotIndex = s.snapshotIndex)) := by
  have hsame : s.active = s.active ∧ s.snapshotIndex = s.snapshotIndex ∧
      (∀ t, SenderOf sha s t → SenderOf sha s t) ∧ (s.complete = true → s.complete = true ∨
        (s.active = true ∧ Final ack ∧ ack.snapshotIndex = s.snapshotIndex)) :=
    ⟨rfl, rfl, fun _ h => h, .inl⟩
  unfold senderAcknowledge
  dsimp only
  split
  · exact hsame
  next hactive =>
    split
    · exact hsame
    next hidentity =>
      split
      · exact hsame
      next hrunning =>
        split
        · exact hsame
        · split
          · split
            · exact hsame
            · exact ⟨rfl, rfl, fun _ h =>
                ⟨h.leaderTerm, h.index, h.term, h.size, h.digest, h.configuration⟩, .inl⟩
          next haccepted =>
            split
            · exact hsame
            · split
              · exact hsame
              · simp only [ackRefused, Bool.or_eq_true, bne_iff_ne, ne_eq, not_or,
                  Decidable.not_not] at hidentity
                have hindex : ack.snapshotIndex = s.snapshotIndex := hidentity.1.1.2
                have hsize : ack.snapshotSize = s.size := hidentity.1.2
                have hfinal : ack.nextOffset = s.size → Final ack := fun hnext =>
                  ⟨by simpa using haccepted, hnext.trans hsize.symm⟩
                have hactive' : s.active = true := by simpa using hactive
                split
                next hcomplete =>
                  exact ⟨rfl, rfl, fun _ h =>
                    ⟨h.leaderTerm, h.index, h.term, h.size, h.digest, h.configuration⟩,
                    fun _ => .inr ⟨hactive', hfinal (by simpa using hcomplete), hindex⟩⟩
                next =>
                  exact ⟨rfl, rfl, fun _ h =>
                    ⟨h.leaderTerm, h.index, h.term, h.size, h.digest, h.configuration⟩,
                    fun hcomplete => .inr ⟨hactive', hfinal (by simpa using hcomplete), hindex⟩⟩

end Sender

section Coupling

variable {w w' : TransferWorld} {s : Sender} {r : SnapshotReceiver}

theorem Coupled.withSender (h : Coupled sha w)
    (hkeeps : s.active = true →
      w.sender.active = true ∧ ∀ t, SenderOf sha w.sender t → SenderOf sha s t)
    (hcomplete : s.complete = true →
      s.active = true ∧ ∃ a ∈ w.acks, Final a ∧ a.snapshotIndex = s.snapshotIndex) :
    Coupled sha { w with sender := s } :=
  { chunks := h.chunks
    sender := fun hactive => by
      obtain ⟨hbefore, hof⟩ := hkeeps hactive
      obtain ⟨t, hlast, ht⟩ := h.sender hbefore
      exact ⟨t, hlast, hof t ht⟩
    receiver := h.receiver
    acks := h.acks
    complete := hcomplete }

theorem Coupled.idleSender (h : Coupled sha w) (hactive : s.active = false)
    (hcomplete : s.complete = false) : Coupled sha { w with sender := s } :=
  h.withSender (fun hs => by simp [hactive] at hs) (fun hs => by simp [hcomplete] at hs)

theorem Coupled.idleReceiver (h : Coupled sha w)
    (hactive : r.active = false) :
    Coupled sha { w with receiver := r } :=
  { chunks := h.chunks
    sender := h.sender
    receiver := traced_inactive hactive
    acks := h.acks
    complete := h.complete }

theorem receiverTraced_begun {begun : List Transfer} {installs : List Install}
    (h : ReceiverTraced sha begun installs r) (t : Transfer) :
    ReceiverTraced sha (begun ++ [t]) installs r := fun hactive => by
  obtain ⟨u, hu, hof⟩ := h hactive
  exact ⟨u, List.mem_append_left _ hu, hof⟩

theorem ackTraced_mono {begun begun' : List Transfer} {installs installs' : List Install}
    {a : SnapshotAck} (h : AckTraced sha begun installs a) (hbegun : begun ⊆ begun')
    (hinstalls : installs ⊆ installs') : AckTraced sha begun' installs' a := fun hfinal => by
  obtain ⟨t, ht, hindex, i, hi, hof⟩ := h hfinal
  exact ⟨t, hbegun ht, hindex, i, hinstalls hi, hof⟩

variable (h : Coupled sha w)

include h

theorem begin_coupled (t : Transfer)
    (hstep : transferStep sha w (.begin t) = some w') : Coupled sha w' := by
  simp only [transferStep] at hstep
  unfold senderBeginSource at hstep
  split_ifs at hstep with hinvalid hbusy
  · cases hstep
    exact h
  · cases hstep
    exact h
  · cases hstep
    exact
      { chunks := fun c hc => by
          obtain ⟨u, hu, hof⟩ := h.chunks c hc
          exact ⟨u, List.mem_append_left _ hu, hof⟩
        sender := fun _ => ⟨t, List.getLast?_concat, rfl, rfl, rfl, rfl, rfl, rfl⟩
        receiver := receiverTraced_begun h.receiver t
        acks := fun a ha => ackTraced_mono (h.acks a ha) (List.subset_append_left _ _)
          (List.Subset.refl _)
        complete := fun hcomplete => by simp [clearSender] at hcomplete }

theorem nextChunk_coupled (outcome : ReadOutcome)
    (hstep : transferStep sha w (.nextChunk outcome) = some w') : Coupled sha w' := by
  obtain ⟨status, heq⟩ | ⟨claim, after, heq, hactive, hrunning, hafter, hcomplete, -, hof⟩ :=
    senderNextChunk_cases sha w.sender outcome
  · simp only [transferStep, heq, Option.some.injEq] at hstep
    exact hstep ▸ h
  · simp only [transferStep, heq, Option.some.injEq] at hstep
    subst hstep
    obtain ⟨t, hlast, ht⟩ := h.sender hactive
    have hmem : t ∈ w.begun := List.mem_of_getLast? hlast
    have hsender := h.withSender (s := after) (fun _ => ⟨hactive, hof⟩)
      (fun hdone => by simp [hcomplete, hrunning] at hdone)
    exact
      { chunks := fun c hc => by
          rcases List.mem_append.mp hc with hc | hc
          · exact h.chunks c hc
          · rw [List.mem_singleton.mp hc]
            exact ⟨t, hmem, fillChunk_of (hof t ht) claim⟩
        sender := hsender.sender
        receiver := hsender.receiver
        acks := hsender.acks
        complete := hsender.complete }

theorem deliverChunk_coupled {chunk : SnapshotChunk} (hchunk : chunk ∈ w.chunks)
    (calls : ReceiveCalls) :
    Coupled sha
      { w with
        receiver := (receiverHandle sha w.receiver chunk calls).receiver
        acks := w.acks ++ [(receiverHandle sha w.receiver chunk calls).ack]
        installs := w.installs ++ (receiverHandle sha w.receiver chunk calls).installed.toList } := by
  obtain ⟨hreceiver, hack⟩ := receiverHandle_traced calls h.receiver (h.chunks chunk hchunk)
  exact
    { chunks := h.chunks
      sender := h.sender
      receiver := hreceiver
      acks := fun a ha => by
        rcases List.mem_append.mp ha with ha | ha
        · exact ackTraced_mono (h.acks a ha) (List.Subset.refl _) (List.subset_append_left _ _)
        · rw [List.mem_singleton.mp ha]
          exact hack
      complete := fun hcomplete => by
        obtain ⟨hactive, a, ha, hfinal⟩ := h.complete hcomplete
        exact ⟨hactive, a, List.mem_append_left _ ha, hfinal⟩ }

theorem deliverAck_coupled {ack : SnapshotAck} (hack : ack ∈ w.acks) :
    Coupled sha { w with sender := (senderAcknowledge w.sender ack).2 } := by
  obtain ⟨hactive, hindex, hof, hcomplete⟩ :=
    senderAcknowledge_cases sha w.sender ack
  refine h.withSender (fun hs => ⟨hactive ▸ hs, hof⟩) fun hs => ?_
  rw [hactive, hindex]
  obtain hbefore | ⟨hbefore, hfinal, hsame⟩ := hcomplete hs
  · exact h.complete hbefore
  · exact ⟨hbefore, ack, hack, hfinal, hsame⟩

theorem coupled_step (e : TransferEvent) (hstep : transferStep sha w e = some w') :
    Coupled sha w' := by
  have hof (s : Sender) (n : ℕ) (claims : List Claim) (t : Transfer) (ht : SenderOf sha s t) :
      SenderOf sha { s with nextOffset := n, claims } t :=
    ⟨ht.leaderTerm, ht.index, ht.term, ht.size, ht.digest, ht.configuration⟩
  cases e with
  | begin t => exact begin_coupled h t hstep
  | nextChunk outcome => exact nextChunk_coupled h outcome hstep
  | cancelChunk offset =>
    cases hstep
    unfold senderCancelChunk
    split
    · exact h
    · split
      · exact h
      · exact h.withSender (fun hs => ⟨hs, hof _ _ _⟩) h.complete
  | resume =>
    cases hstep
    unfold senderPrepareResume
    split
    · exact h
    · exact h.withSender (fun hs => ⟨hs, hof _ _ _⟩) h.complete
  | resetSender =>
    cases hstep
    exact h.idleSender rfl rfl
  | createSender config =>
    simp only [transferStep, senderCreate] at hstep
    split_ifs at hstep
    cases hstep
    exact h.idleSender rfl rfl
  | deliverChunk chunk calls =>
    simp only [transferStep] at hstep
    split_ifs at hstep with hchunk
    cases hstep
    exact deliverChunk_coupled h hchunk calls
  | deliverAck ack =>
    simp only [transferStep] at hstep
    split_ifs at hstep with hack
    cases hstep
    exact deliverAck_coupled h hack
  | resetReceiver =>
    cases hstep
    exact h.idleReceiver rfl
  | createReceiver config =>
    simp only [transferStep, receiverCreate] at hstep
    split_ifs at hstep
    cases hstep
    exact h.idleReceiver rfl

end Coupling

/-- Transfers of one snapshot index carry one snapshot. -/
def SameSnapshots (begun : List Transfer) : Prop :=
  ∀ t ∈ begun, ∀ u ∈ begun, t.snapshotIndex = u.snapshotIndex →
    t.snapshotTerm = u.snapshotTerm ∧ t.configuration = u.configuration ∧ t.bytes = u.bytes

/-- The hash tells the installed bytes from those of every other source. -/
def CollisionFree (sha : List UInt8 → Digest) (begun : List Transfer) (installs : List Install) :
    Prop :=
  ∀ i ∈ installs, ∀ t ∈ begun, sha i.data = sha t.bytes → i.data = t.bytes

/-- The install callback has returned success for exactly this snapshot. -/
def Installed (installs : List Install) (t : Transfer) : Prop :=
  ∃ i ∈ installs, i.snapshotIndex = t.snapshotIndex ∧ i.snapshotTerm = t.snapshotTerm ∧
    i.configuration = t.configuration ∧ i.data = t.bytes

theorem InstallOf.installed {begun : List Transfer} {installs : List Install} {i : Install}
    {t u : Transfer} (h : InstallOf sha i t) (hi : i ∈ installs) (ht : t ∈ begun) (hu : u ∈ begun)
    (hindex : t.snapshotIndex = u.snapshotIndex) (hsame : SameSnapshots begun)
    (hfree : CollisionFree sha begun installs) : Installed installs u := by
  obtain ⟨hterm, hconf, hbytes⟩ := hsame t ht u hu hindex
  exact ⟨i, hi, h.index.trans hindex, h.term.trans hterm, h.configuration.trans hconf,
    (hfree i hi t ht h.digest).trans hbytes⟩

variable {senderConfig : SenderConfig} {receiverConfig : ReceiverConfig} {sender : Sender}
  {receiver : SnapshotReceiver}

theorem coupled_init (hsender : senderCreate senderConfig = .ok sender)
    (hreceiver : receiverCreate receiverConfig = .ok receiver) :
    Coupled sha (transferSystem sha sender receiver).init := by
  have hidle : sender.active = false ∧ sender.complete = false := by
    unfold senderCreate at hsender
    split_ifs at hsender
    cases hsender
    exact ⟨rfl, rfl⟩
  have hinactive : receiver.active = false := by
    unfold receiverCreate at hreceiver
    split_ifs at hreceiver
    cases hreceiver
    rfl
  exact
    { chunks := by simp [transferSystem]
      sender := fun hactive => by
        have hactive' : sender.active = true := hactive
        rw [hidle.1] at hactive'
        cases hactive'
      receiver := traced_inactive hinactive
      acks := by simp [transferSystem]
      complete := fun hcomplete => by
        have hcomplete' : sender.complete = true := hcomplete
        rw [hidle.2] at hcomplete'
        cases hcomplete' }

/-- In every state of every run, a transfer that the sender reports complete has been installed
with its bytes and its configuration, and no acknowledgement of a whole snapshot was sent before
its installation. -/
theorem completed_transfer_installed (hsender : senderCreate senderConfig = .ok sender)
    (hreceiver : receiverCreate receiverConfig = .ok receiver)
    (run : Execution (transferSystem sha sender receiver)) {k : ℕ} (hk : k ≤ run.length)
    (hsame : SameSnapshots (run.state k).begun)
    (hfree : CollisionFree sha (run.state k).begun (run.state k).installs) :
    (∀ t, (run.state k).begun.getLast? = some t → (run.state k).sender.complete = true →
      Installed (run.state k).installs t) ∧
    ∀ a ∈ (run.state k).acks, a.accepted = true → a.nextOffset = a.snapshotSize →
      ∃ t ∈ (run.state k).begun, t.snapshotIndex = a.snapshotIndex ∧
        Installed (run.state k).installs t := by
  have hmeets : run.Meets fun _ _ => True := fun _ _ => trivial
  have hcoupled : Coupled sha (run.state k) := run.invariant hmeets (Coupled sha)
    (coupled_init hsender hreceiver) (fun w e w' h _ hstep => coupled_step h e hstep) k hk
  constructor
  · intro t hlast hcomplete
    obtain ⟨hactive, a, ha, hfinal, hindex⟩ := hcoupled.complete hcomplete
    obtain ⟨u, hu, hack, i, hi, hinstall⟩ := hcoupled.acks a ha hfinal
    obtain ⟨t', hlast', hof⟩ := hcoupled.sender hactive
    rw [hlast] at hlast'
    cases hlast'
    exact hinstall.installed hi hu (List.mem_of_getLast? hlast)
      (hack.symm.trans (hindex.trans hof.index)) hsame hfree
  · intro a ha haccepted hnext
    obtain ⟨t, ht, hindex, i, hi, hinstall⟩ := hcoupled.acks a ha ⟨haccepted, hnext⟩
    exact ⟨t, ht, hindex.symm, hinstall.installed hi ht ht rfl hsame hfree⟩

def headDigest (bytes : List UInt8) : Digest :=
  ⟨(bytes ++ List.replicate digestSize 1).take digestSize, digest_of_head bytes⟩

def smallTransfer : Transfer :=
  { leaderTerm := 2
    snapshotIndex := 5
    snapshotTerm := 1
    configuration :=
      { phase := .final
        transitionId := 0
        members := [{ nodeId := 1, roles := 3 }] }
    bytes := [10, 20, 30] }

def smallSenderConfig : SenderConfig :=
  { selfId := 1
    peerId := 2
    maxSnapshotBytes := 100
    chunkSize := 2
    maxInflightChunks := 2 }

def smallReceiverConfig : ReceiverConfig :=
  { selfId := 2
    maxSnapshotBytes := 100
    maxBufferedSnapshotBytes := 100
    streaming := false }

def smallSender : Sender := (senderCreate smallSenderConfig).toOption.get rfl

def smallReceiver : SnapshotReceiver := (receiverCreate smallReceiverConfig).toOption.get rfl

def smallChunk (offset : ℕ) (data : List UInt8) : SnapshotChunk :=
  { fromId := 1
    toId := 2
    term := 2
    snapshotIndex := 5
    snapshotTerm := 1
    snapshotOffset := offset
    snapshotSize := 3
    snapshotDigest := headDigest [10, 20, 30]
    configuration := if offset == 0 then some smallTransfer.configuration else none
    data
    done := offset + data.length == 3 }

def smallAck (nextOffset : ℕ) : SnapshotAck :=
  { fromId := 2
    toId := 1
    term := 2
    snapshotIndex := 5
    snapshotSize := 3
    nextOffset
    snapshotDigest := headDigest [10, 20, 30]
    accepted := true }

def allSucceed : ReceiveCalls :=
  { allocated := true
    hashReset := true
    streamBegin := .ok
    hashUpdate := true
    streamWrite := .ok
    hashFinish := true
    install := .ok }

def smallEvents : List TransferEvent :=
  [.begin smallTransfer, .nextChunk (.bytes 2), .nextChunk (.bytes 1),
    .deliverChunk (smallChunk 0 [10, 20]) allSucceed,
    .deliverChunk (smallChunk 0 [10, 20]) allSucceed, .resume, .nextChunk (.bytes 2),
    .nextChunk (.bytes 1), .deliverChunk (smallChunk 2 [30]) allSucceed,
    .deliverAck (smallAck 2), .deliverAck (smallAck 3)]

def smallRun : Execution (transferSystem headDigest smallSender smallReceiver) :=
  Execution.ofEvents _ smallEvents (by decide +kernel)

theorem small_transfer_installed : Installed (smallRun.state 11).installs smallTransfer := by
  have hsender : senderCreate smallSenderConfig = .ok smallSender := rfl
  have hreceiver : receiverCreate smallReceiverConfig = .ok smallReceiver := rfl
  have hbegun : (smallRun.state 11).begun = [smallTransfer] := by decide +kernel
  have hsame : SameSnapshots (smallRun.state 11).begun := by simp [SameSnapshots, hbegun]
  have hfree : CollisionFree headDigest (smallRun.state 11).begun (smallRun.state 11).installs := by
    have hinstalls : (smallRun.state 11).installs.map Install.data = [smallTransfer.bytes] := by
      decide +kernel
    intro i hi t ht _
    rw [hbegun, List.mem_singleton] at ht
    have hdata := List.mem_map_of_mem (f := Install.data) hi
    rw [hinstalls, List.mem_singleton] at hdata
    rw [hdata, ht]
  exact (completed_transfer_installed hsender hreceiver smallRun le_rfl hsame hfree).1 smallTransfer
    (by decide +kernel) (by decide +kernel)

end RaftSnapshotSafety
