import TurboRaft.ReplicationChronicle

/-! # Completeness of elections

A candidate that wins with the configuration it knows, and has at most one further
configuration in its log, holds everything settled in earlier terms. The argument
compares how many configurations the winner knows with how many the settling
leader knew: close numbers make the two quorums meet, and distant ones are decided by
the records of the configurations in between. -/
namespace Replication

open ConfiguredLog

variable {N E K : Type*} {S : Scheme N E K} {g : Book N E}

/-- Everything that makes a candidate the winner of a term, apart from its name. What its
voters carry is relative to the leaders before `bound`. -/
structure Winner (S : Scheme N E K) (g : Book N E) (t bound : ℕ) (l : List E) (k : ℕ) (V : Set N) :
    Prop where
  certified : g.Certified (l.take k) t
  pending : S.confCount l ≤ S.confCount (l.take k) + 1
  quorum : S.quorum (S.conf (l.take k)) V
  carries : ∀ v ∈ V, Carries g v t bound l

theorem certified_of_certifiedBy {rs : List Record} {a : List E} {t : ℕ}
    (ha : g.CertifiedBy rs a t) (hrs : rs <:+ g.records) : g.Certified a t := by
  rcases ha with rfl | ⟨r, hr, ht, hl⟩
  · exact Or.inl rfl
  · exact Or.inr ⟨r, hrs.subset hr, ht, hl⟩

variable (h : Ledger S g) {k : ℕ}

include h

variable {bound t : ℕ} {V : Set N} {l : List E} {r : Record}

theorem Ledger.record_ok (hr : r ∈ g.records) :
    ∃ older, older <:+ g.records ∧ RecordOk S g older r := by
  obtain ⟨newer, older, hsplit⟩ := List.append_of_mem hr
  have hsuffix : r :: older <:+ g.records := ⟨newer, hsplit.symm⟩
  exact ⟨older, (List.suffix_cons r older).trans hsuffix, h.records_ok r older hsuffix⟩

theorem Ledger.winner_of_leader {c : N} (hc : g.leader t = some c) :
    ∃ V, Winner S g t t (g.opening t) (g.openingKnown t) V ∧ ∀ v ∈ V, g.vote v t = some c := by
  obtain ⟨V, hquorum, hvotes⟩ := h.leader_votes t c hc
  obtain ⟨_, hcert⟩ := h.ballot_known t c _ (h.leader_ballot t c hc)
  exact ⟨V, ⟨hcert, h.leader_pending t (by simp [hc]), hquorum,
    fun v hv => (hvotes v hv).2⟩, fun v hv => (hvotes v hv).1⟩

theorem Ledger.settled_length (hr : r ∈ g.records) : (g.settled r).length = r.index := by
  obtain ⟨_, _, hok⟩ := h.record_ok hr
  exact List.length_take_of_le hok.bound

theorem Ledger.settled_common {q : Record} (hr : r ∈ g.records) (hq : q ∈ g.records)
    (hterm : r.term ≤ q.term) : g.settled r <+: g.history q.term := by
  obtain ⟨_, _, hok⟩ := h.record_ok hq
  rcases Nat.lt_or_ge r.term q.term with hlt | hge
  · exact (h.complete r hr q.term hlt hok.led).trans (h.opening_prefix _ hok.led)
  · have : r.term = q.term := by omega
    exact this ▸ List.take_prefix _ _

theorem Ledger.certified_common {a b : List E} {u : ℕ} (ha : g.Certified a t) (hb : g.Certified b u)
    : ∃ l, S.Chained l ∧ a <+: l ∧ b <+: l := by
  rcases ha with rfl | ⟨r, hr, _, har⟩
  · rcases hb with rfl | ⟨q, _, _, hbq⟩
    · exact ⟨[], chained_nil, List.prefix_refl _, List.prefix_refl _⟩
    · exact ⟨g.history q.term, h.history_chained _, List.nil_prefix,
        hbq.trans (List.take_prefix _ _)⟩
  rcases hb with rfl | ⟨q, hq, _, hbq⟩
  · exact ⟨g.history r.term, h.history_chained _, har.trans (List.take_prefix _ _),
      List.nil_prefix⟩
  rcases Nat.le_total r.term q.term with hle | hle
  · exact ⟨g.history q.term, h.history_chained _, har.trans (h.settled_common hr hq hle),
      hbq.trans (List.take_prefix _ _)⟩
  · exact ⟨g.history r.term, h.history_chained _, har.trans (List.take_prefix _ _),
      hbq.trans (h.settled_common hq hr hle)⟩

/-- Agreement on settled entries: certified lists are comparable. -/
theorem Ledger.certified_total {a b : List E} {u : ℕ} (ha : g.Certified a t) (hb : g.Certified b u)
    : a <+: b ∨ b <+: a := by
  obtain ⟨l, _, hal, hbl⟩ := h.certified_common ha hb
  exact List.prefix_or_prefix_of_prefix hal hbl

theorem Ledger.exists_conf_record {rs : List Record} (hrs : rs <:+ g.records) {m : ℕ}
    (hl : g.CertifiedBy rs l t) (hm : m < S.confCount l) :
    ∃ r ∈ g.records, r.term < t ∧ S.confCount ((g.history r.term).take r.base) = m ∧
      S.confCount (g.settled r) = m + 1 := by
  induction rs generalizing l t with
  | nil =>
    rcases hl with rfl | ⟨r, hr, _⟩
    · exact absurd hm (Nat.not_lt_zero _)
    · cases hr
  | cons q older ih =>
    have holder : older <:+ g.records := (List.suffix_cons q older).trans hrs
    rcases hl with rfl | ⟨r, hr, ht, hpre⟩
    · exact absurd hm (Nat.not_lt_zero _)
    rcases List.mem_cons.mp hr with rfl | hr
    · have hok := h.records_ok r older hrs
      have hcount := confCount_mono (S := S) hpre
      rcases Nat.lt_or_ge m (S.confCount ((g.history r.term).take r.base)) with hlt | hge
      · obtain ⟨q, hq, hqt, hbase, hindex⟩ := ih holder hok.certified hlt
        exact ⟨q, hq, by omega, hbase, hindex⟩
      · have hsingle := hok.single
        exact ⟨r, hrs.subset (by simp), ht, by omega, by omega⟩
    · exact ih holder (Or.inr ⟨r, hr, ht, hpre⟩) hm

theorem Ledger.heldBetween_record (hr : r ∈ g.records) (t : ℕ) :
    HeldBetween g r.term t (g.settled r) :=
  fun u hu _ hled => h.complete r hr u hu hled

variable (self : ∀ k, S.Overlap k k)

include self

/-- Close numbers of known configurations: the two quorums share a node. -/
theorem Ledger.winner_near (hw : Winner S g t bound l k V) {older : List Record}
    (hok : RecordOk S g older r) (holder : older <:+ g.records) (hrt : r.term < t)
    (hheld : HeldBetween g r.term bound (g.settled r))
    (hup : S.confCount (l.take k) ≤ S.confCount ((g.history r.term).take r.base) + 1)
    (hdown : S.confCount ((g.history r.term).take r.base) ≤ S.confCount (l.take k) + 1) :
    g.settled r <+: l := by
  obtain ⟨log, hchained, hbase, hknown⟩ :=
    h.certified_common (certified_of_certifiedBy hok.certified holder) hw.certified
  obtain ⟨Q, hQ, hacks⟩ := hok.quorum
  obtain ⟨v, hvQ, hvV⟩ :=
    overlap_of_near self hchained hbase hknown hdown hup Q V hQ hw.quorum
  exact hw.carries v hvV r.term r.index hrt (hacks v hvQ) hok.fresh hheld

theorem Ledger.winner_complete (hw : Winner S g t bound l k V) (hr : r ∈ g.records)
    (hrt : r.term < t) : g.settled r <+: l := by
  obtain ⟨older, holder, hok⟩ := h.record_ok hr
  have near : ∀ q ∈ g.records, q.term < t →
      S.confCount (l.take k) ≤ S.confCount ((g.history q.term).take q.base) + 1 →
      S.confCount ((g.history q.term).take q.base) ≤ S.confCount (l.take k) + 1 →
      g.settled q <+: l := by
    intro q hq hqt hup hdown
    obtain ⟨older, holder, hok⟩ := h.record_ok hq
    exact h.winner_near self hw hok holder hqt (h.heldBetween_record hq bound) hup hdown
  by_cases hup : S.confCount (l.take k) ≤ S.confCount ((g.history r.term).take r.base) + 1
  · by_cases hdown : S.confCount ((g.history r.term).take r.base) ≤ S.confCount (l.take k) + 1
    · exact near r hr hrt hup hdown
    · -- the settling leader knew two more configurations, and the second is in the winner's log
      obtain ⟨q, hq, hqt, hbase, hindex⟩ :=
        h.exists_conf_record (m := S.confCount (l.take k) + 1) holder hok.certified (by omega)
      have := confCount_mono (S := S) (near q hq (by omega) (by omega) (by omega))
      have := hw.pending
      omega
  · -- the winner knows more configurations than the settled prefix has
    have hcert : g.Certified (g.settled r) (r.term + 1) :=
      Or.inr ⟨r, hr, by omega, List.prefix_refl _⟩
    rcases h.certified_total hcert hw.certified with hpre | hpre
    · exact hpre.trans (List.take_prefix _ _)
    · have := confCount_mono (S := S) hpre
      have := hok.single
      omega

/-- Election safety: the voters of two winners of one term cannot differ. -/
theorem Ledger.winner_unique (hw : Winner S g t bound l k V) {c d : N}
    (hvotes : ∀ v ∈ V, g.vote v t = some c) (hd : g.leader t = some d) : c = d := by
  obtain ⟨W, hwin, hwvotes⟩ := h.winner_of_leader hd
  have hled : g.leader t ≠ none := by simp [hd]
  by_cases hup : S.confCount (l.take k) ≤
      S.confCount ((g.opening t).take (g.openingKnown t)) + 1
  · by_cases hdown : S.confCount ((g.opening t).take (g.openingKnown t)) ≤
        S.confCount (l.take k) + 1
    · obtain ⟨log, hchained, hl, ho⟩ := h.certified_common hw.certified hwin.certified
      obtain ⟨v, hvV, hvW⟩ :=
        overlap_of_near self hchained hl ho hup hdown V W hw.quorum hwin.quorum
      exact Option.some.inj ((hvotes v hvV).symm.trans (hwvotes v hvW))
    · obtain ⟨q, hq, hqt, _, hindex⟩ :=
        h.exists_conf_record (m := S.confCount (l.take k) + 1) (List.suffix_refl _)
          hwin.certified (by omega)
      have := confCount_mono (S := S) (h.winner_complete self hw hq hqt)
      have := hw.pending
      omega
  · obtain ⟨q, hq, hqt, _, hindex⟩ :=
      h.exists_conf_record (m := S.confCount ((g.opening t).take (g.openingKnown t)) + 1)
        (List.suffix_refl _) hw.certified (by omega)
    have := confCount_mono (S := S) (h.complete q hq t hqt hled)
    have := h.leader_pending t hled
    omega

/-- What a leader settles now is held by every leader of a later term, also by one
elected earlier in time. -/
theorem Ledger.settle_complete (hok : RecordOk S g g.records r)
    (hown : ∀ q ∈ g.records, q.term = r.term →
      S.confCount (g.settled q) ≤ S.confCount ((g.history r.term).take r.base)) :
    ∀ t, r.term < t → g.leader t ≠ none → g.settled r <+: g.opening t := by
  intro t
  induction t using Nat.strong_induction_on with
  | _ t ih =>
    intro hrt hled
    obtain ⟨c, hc⟩ := Option.ne_none_iff_exists'.mp hled
    obtain ⟨V, hw, _⟩ := h.winner_of_leader hc
    have hheld : HeldBetween g r.term t (g.settled r) := fun u hu hut hul => ih u hut hu hul
    by_cases hup : S.confCount ((g.opening t).take (g.openingKnown t)) ≤
        S.confCount ((g.history r.term).take r.base) + 1
    · by_cases hdown : S.confCount ((g.history r.term).take r.base) ≤
          S.confCount ((g.opening t).take (g.openingKnown t)) + 1
      · exact h.winner_near self hw hok (List.suffix_refl _) hrt hheld hup hdown
      · obtain ⟨q, hq, hqt, _, hindex⟩ :=
          h.exists_conf_record (m := S.confCount ((g.opening t).take (g.openingKnown t)) + 1)
            (List.suffix_refl _) hok.certified (by omega)
        have := confCount_mono (S := S) (h.complete q hq t (by omega) hled)
        have := hw.pending
        omega
    · obtain ⟨q, hq, hqt, hbase, hindex⟩ :=
        h.exists_conf_record (m := S.confCount ((g.history r.term).take r.base) + 1)
          (List.suffix_refl _) hw.certified (by omega)
      obtain ⟨_, _, hqok⟩ := h.record_ok hq
      rcases Nat.lt_trichotomy q.term r.term with hlt | heq | hgt
      · -- the record's own leader opened with two more configurations than it knows
        have hopen := (h.complete q hq r.term hlt hok.led).trans (h.opening_prefix _ hok.led)
        have hlen := (h.complete q hq r.term hlt hok.led).length_le
        have hfresh := hok.fresh
        have hsub : g.settled q <+: g.settled r :=
          List.prefix_of_prefix_length_le hopen (List.take_prefix _ _)
            (by rw [Book.settled, Book.settled, List.length_take_of_le hok.bound]
                exact hlen.trans hfresh.le)
        have := confCount_mono (S := S) hsub
        have := hok.single
        omega
      · have := hown q hq heq
        omega
      · -- a leader in between opened with the prefix and settled a later configuration
        have hopen := hheld q.term hgt hqt hqok.led
        have hsub : g.settled r <+: g.settled q :=
          List.prefix_of_prefix_length_le (hopen.trans (h.opening_prefix _ hqok.led))
            (List.take_prefix _ _)
            (by rw [h.settled_length hq]; exact hopen.length_le.trans hqok.fresh.le)
        exact hsub.trans (h.complete q hq t hqt hled)

end Replication
