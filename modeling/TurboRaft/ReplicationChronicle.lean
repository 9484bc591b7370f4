import TurboRaft.ConfiguredLog
import Mathlib.Data.List.Lemmas
import Mathlib.Logic.Function.Basic

/-! # Chronicles of a replicated log

The history variables of leader-based replication: who voted and campaigned with which
log, the log of every elected leader, what each node acknowledged to it, and a record
of every index a leader found replicated on a quorum. Nodes use the configuration of the
log prefix they know to be settled. -/
namespace Replication

open ConfiguredLog

/-- A leader of `term` settled `index`, using the configuration after `base`. -/
structure Record where
  term : ℕ
  index : ℕ
  base : ℕ

/-- What is written down about the whole group: votes, ballots with the log and the known
index of the candidate, leaders with their logs, acknowledgements and records. -/
structure Book (N E : Type*) where
  vote : N → ℕ → Option N
  ballot : ℕ → N → Option (List E × ℕ)
  leader : ℕ → Option N
  opening : ℕ → List E
  openingKnown : ℕ → ℕ
  history : ℕ → List E
  ack : N → ℕ → ℕ
  records : List Record

/-- The book together with the term, the log and the known index of every node. -/
structure Chronicle (N E : Type*) extends Book N E where
  term : N → ℕ
  log : N → List E
  known : N → ℕ

def blank (N E : Type*) : Chronicle N E :=
  { vote := fun _ _ => none
    ballot := fun _ _ => none
    leader := fun _ => none
    opening := fun _ => []
    openingKnown := fun _ => 0
    history := fun _ => []
    ack := fun _ _ => 0
    records := []
    term := fun _ => 0
    log := fun _ => []
    known := fun _ => 0 }

variable {N E K : Type*}

def Book.settled (g : Book N E) (r : Record) : List E := (g.history r.term).take r.index

/-- A list is covered by a record of an earlier term than `before`. -/
def Book.CertifiedBy (g : Book N E) (rs : List Record) (l : List E) (before : ℕ) : Prop :=
  l = [] ∨ ∃ r ∈ rs, r.term < before ∧ l <+: g.settled r

def Book.Certified (g : Book N E) (l : List E) (before : ℕ) : Prop :=
  g.CertifiedBy g.records l before

def lastTerm (S : Scheme N E K) (l : List E) : ℕ := (l.getLast?.map S.termOf).getD 0

/-- The comparison voters make between a candidate's log and their own. -/
def UpToDate (S : Scheme N E K) (candidate voter : List E) : Prop :=
  lastTerm S voter < lastTerm S candidate ∨
    (lastTerm S voter = lastTerm S candidate ∧ voter.length ≤ candidate.length)

/-- Every prefix of the log was once the log of the leader of its last entry's term. -/
def Sound (S : Scheme N E K) (g : Book N E) (l : List E) : Prop :=
  ∀ p e, p ++ [e] <+: l → p ++ [e] <+: g.history (S.termOf e)

/-- All leaders of the terms in between have the list in their opening log. -/
def HeldBetween (g : Book N E) (after before : ℕ) (l : List E) : Prop :=
  ∀ t, after < t → t < before → g.leader t ≠ none → l <+: g.opening t

/-- The list has whatever the voter acknowledged in terms before `t`, as far as the
leaders elected since then and before `bound` had it. -/
def Carries (g : Book N E) (v : N) (t bound : ℕ) (l : List E) : Prop :=
  ∀ T i, T < t → i ≤ g.ack v T → (g.opening T).length < i →
    HeldBetween g T bound ((g.history T).take i) → (g.history T).take i <+: l

structure RecordOk (S : Scheme N E K) (g : Book N E) (older : List Record) (r : Record) :
    Prop where
  led : g.leader r.term ≠ none
  fresh : (g.opening r.term).length < r.index
  bound : r.index ≤ (g.history r.term).length
  base_le : r.base ≤ r.index
  quorum : ∃ Q, S.quorum (S.conf ((g.history r.term).take r.base)) Q ∧
    ∀ v ∈ Q, r.index ≤ g.ack v r.term
  single : S.confCount (g.settled r) ≤ S.confCount ((g.history r.term).take r.base) + 1
  certified : g.CertifiedBy older ((g.history r.term).take r.base) (r.term + 1)

/-- Facts about votes, ballots, leaders, acknowledgements and records. -/
structure Ledger (S : Scheme N E K) (g : Book N E) : Prop where
  vote_ballot : ∀ v t c, g.vote v t = some c → g.ballot t c ≠ none
  ballot_self : ∀ t c b, g.ballot t c = some b → g.vote c t = some c
  ballot_old : ∀ t c b, g.ballot t c = some b → ∀ e ∈ b.1, S.termOf e < t
  ballot_sound : ∀ t c b, g.ballot t c = some b → Sound S g b.1
  ballot_known : ∀ t c b, g.ballot t c = some b → b.2 ≤ b.1.length ∧ g.Certified (b.1.take b.2) t
  leader_ballot : ∀ t c, g.leader t = some c → g.ballot t c = some (g.opening t, g.openingKnown t)
  leader_votes : ∀ t c, g.leader t = some c →
    ∃ V, S.quorum (S.conf ((g.opening t).take (g.openingKnown t))) V ∧
      ∀ v ∈ V, g.vote v t = some c ∧ Carries g v t t (g.opening t)
  leader_pending : ∀ t, g.leader t ≠ none →
    S.confCount (g.opening t) ≤ S.confCount ((g.opening t).take (g.openingKnown t)) + 1
  leader_ack : ∀ t c, g.leader t = some c → g.ack c t = (g.history t).length
  unled : ∀ t, g.leader t = none → g.history t = []
  opening_prefix : ∀ t, g.leader t ≠ none → g.opening t <+: g.history t
  history_new : ∀ t p e, g.leader t ≠ none → p ++ [e] <+: g.history t →
    (g.opening t).length ≤ p.length → S.termOf e = t
  history_sound : ∀ t, Sound S g (g.history t)
  history_chained : ∀ t, S.Chained (g.history t)
  ack_le : ∀ v t, g.ack v t ≤ (g.history t).length
  vote_carries : ∀ v t c b, g.vote v t = some c → g.ballot t c = some b →
    Carries g v t (t + 1) b.1
  records_ok : ∀ r older, r :: older <:+ g.records → RecordOk S g older r
  complete : ∀ r ∈ g.records, ∀ t, r.term < t → g.leader t ≠ none → g.settled r <+: g.opening t

/-- Facts about one node. What it acknowledged stays in its log as long as the leaders
it followed since then had it. -/
structure NodeOk (S : Scheme N E K) (g : Chronicle N E) (n : N) : Prop where
  vote_le : ∀ t c, g.vote n t = some c → t ≤ g.term n
  ack_term : ∀ t, 0 < g.ack n t → t ≤ g.term n
  log_le : ∀ e ∈ g.log n, S.termOf e ≤ g.term n
  log_sound : Sound S g.toBook (g.log n)
  known_le : g.known n ≤ (g.log n).length
  known_certified : g.Certified ((g.log n).take (g.known n)) (g.term n + 1)
  leader_log : g.leader (g.term n) = some n → g.log n = g.history (g.term n)
  retain : ∀ T i, i ≤ g.ack n T → HeldBetween g.toBook T (g.term n + 1) ((g.history T).take i) →
    (g.history T).take i <+: g.log n

structure Inv (S : Scheme N E K) (g : Chronicle N E) : Prop where
  ledger : Ledger S g.toBook
  node : ∀ n, NodeOk S g n

theorem inv_blank (S : Scheme N E K) : Inv S (blank N E) where
  ledger :=
    { vote_ballot := by simp [blank]
      ballot_self := by simp [blank]
      ballot_old := by simp [blank]
      ballot_sound := by simp [blank]
      ballot_known := by simp [blank]
      leader_ballot := by simp [blank]
      leader_votes := by simp [blank]
      leader_pending := by simp [blank]
      leader_ack := by simp [blank]
      unled := by simp [blank]
      opening_prefix := by simp [blank]
      history_new := by simp [blank]
      history_sound := by
        intro t p e h
        exact absurd (List.prefix_nil.mp h) (by simp)
      history_chained := fun _ => chained_nil
      ack_le := by simp [blank]
      vote_carries := by simp [blank]
      records_ok := by simp [blank]
      complete := by simp [blank] }
  node := fun n =>
    { vote_le := by simp [blank]
      ack_term := by simp [blank]
      log_le := by simp [blank]
      log_sound := by
        intro p e h
        exact absurd (List.prefix_nil.mp h) (by simp)
      known_le := by simp [blank]
      known_certified := Or.inl rfl
      leader_log := by simp [blank]
      retain := by simp [blank] }

section Logs

variable {S : Scheme N E K} {g : Book N E} {l : List E} {rs : List Record}

theorem exists_concat_of_pos (h : 0 < l.length) : ∃ p e, l = p ++ [e] := by
  rcases List.eq_nil_or_concat' l with rfl | ⟨p, e, rfl⟩
  · simp at h
  · exact ⟨p, e, rfl⟩

@[simp] theorem lastTerm_append_single (p : List E) (e : E) :
    lastTerm S (p ++ [e]) = S.termOf e := by
  simp [lastTerm]

theorem Sound.shorten {p : List E} (h : Sound S g l) (hp : p <+: l) : Sound S g p :=
  fun a e hae => h a e (hae.trans hp)

theorem Sound.prefix_history (h : Sound S g l) (hl : l ≠ []) :
    l <+: g.history (lastTerm S l) := by
  obtain ⟨p, e, rfl⟩ := exists_concat_of_pos (List.length_pos_iff.mpr hl)
  simpa using h p e (List.prefix_refl _)

/-- Log matching: sound logs with the same term at an index agree up to it. -/
theorem sound_matching {a b : List E} (ha : Sound S g a) (hb : Sound S g b) {i : ℕ}
    (hia : i ≤ a.length) (hib : i ≤ b.length)
    (hterm : lastTerm S (a.take i) = lastTerm S (b.take i)) : a.take i = b.take i := by
  rcases Nat.eq_zero_or_pos i with rfl | hi
  · simp
  have hla : (a.take i).length = i := List.length_take_of_le hia
  have hlb : (b.take i).length = i := List.length_take_of_le hib
  have hpa := (ha.shorten (List.take_prefix i a)).prefix_history
    (List.length_pos_iff.mp (by omega))
  have hpb := (hb.shorten (List.take_prefix i b)).prefix_history
    (List.length_pos_iff.mp (by omega))
  rw [hterm] at hpa
  exact (List.prefix_of_prefix_length_le hpa hpb (by omega)).eq_of_length (by omega)

theorem certifiedBy_shorten {p : List E} {t : ℕ}
    (h : g.CertifiedBy rs l t) (hp : p <+: l) : g.CertifiedBy rs p t := by
  rcases h with rfl | ⟨r, hr, ht, hl⟩
  · exact Or.inl (List.prefix_nil.mp hp)
  · exact Or.inr ⟨r, hr, ht, hp.trans hl⟩

theorem certifiedBy_le {t u : ℕ}
    (h : g.CertifiedBy rs l t) (htu : t ≤ u) : g.CertifiedBy rs l u := by
  rcases h with rfl | ⟨r, hr, ht, hl⟩
  · exact Or.inl rfl
  · exact Or.inr ⟨r, hr, by omega, hl⟩

end Logs

variable {S : Scheme N E K} {g : Book N E} (h : Ledger S g) {t : ℕ}

include h

theorem Ledger.opening_old (hl : g.leader t ≠ none) :
    ∀ e ∈ g.opening t, S.termOf e < t := by
  obtain ⟨c, hc⟩ := Option.ne_none_iff_exists'.mp hl
  exact h.ballot_old t c _ (h.leader_ballot t c hc)

theorem Ledger.opening_le_of_term (hl : g.leader t ≠ none) {p : List E} {e : E}
    (hp : p ++ [e] <+: g.history t) (he : S.termOf e = t) : (g.opening t).length ≤ p.length := by
  by_contra hlt
  have hin : p ++ [e] <+: g.opening t :=
    List.prefix_of_prefix_length_le hp (h.opening_prefix t hl) (by simp; omega)
  have : e ∈ g.opening t := hin.subset (by simp)
  exact absurd he (h.opening_old hl e this).ne

theorem Ledger.led_of_history (hne : g.history t ≠ []) : g.leader t ≠ none :=
  fun hn => hne (h.unled t hn)

theorem Ledger.history_le : ∀ e ∈ g.history t, S.termOf e ≤ t := by
  intro e he
  obtain ⟨p, q, hpq⟩ := List.append_of_mem he
  have hled : g.leader t ≠ none := h.led_of_history (List.ne_nil_of_mem he)
  have hp : p ++ [e] <+: g.history t := ⟨q, by simp [hpq]⟩
  rcases Nat.lt_or_ge p.length (g.opening t).length with hlt | hge
  · have hin : p ++ [e] <+: g.opening t :=
      List.prefix_of_prefix_length_le hp (h.opening_prefix t hled) (by simp; omega)
    exact (h.opening_old hled e (hin.subset (by simp))).le
  · exact (h.history_new t p e hled hp hge).le

/-- Terms never decrease along a sound log. -/
theorem Ledger.term_le_lastTerm {l : List E} (hs : Sound S g l) {e : E} (he : e ∈ l) :
    S.termOf e ≤ lastTerm S l :=
  h.history_le e ((hs.prefix_history (List.ne_nil_of_mem he)).subset he)

/-- The last entry of a prefix that reaches beyond the opening log has the leader's term. -/
theorem Ledger.lastTerm_take {T i : ℕ} (hl : g.leader T ≠ none)
    (hi : (g.opening T).length < i) (hb : i ≤ (g.history T).length) :
    ∃ p e, (g.history T).take i = p ++ [e] ∧ S.termOf e = T := by
  have hlen : ((g.history T).take i).length = i := List.length_take_of_le hb
  obtain ⟨p, e, hpe⟩ := exists_concat_of_pos (l := (g.history T).take i) (by omega)
  refine ⟨p, e, hpe, h.history_new T p e hl (hpe ▸ List.take_prefix i _) ?_⟩
  have : (p ++ [e]).length = i := by rw [← hpe, hlen]
  simp at this
  omega

/-- What a voter holds from a leader is carried to any candidate it finds up to date,
provided the leaders in between had it. -/
theorem Ledger.upToDate_carries {candidate voter : List E} {T i : ℕ} {before : ℕ}
    (hc : Sound S g candidate) (hv : Sound S g voter) (hcold : ∀ e ∈ candidate, S.termOf e < before)
    (hl : g.leader T ≠ none) (hi : (g.opening T).length < i) (hb : i ≤ (g.history T).length)
    (hheld : HeldBetween g T before ((g.history T).take i))
    (hvoter : (g.history T).take i <+: voter) (hup : UpToDate S candidate voter) :
    (g.history T).take i <+: candidate := by
  obtain ⟨p, e, hpe, heT⟩ := h.lastTerm_take hl hi hb
  have hlen : ((g.history T).take i).length = i := List.length_take_of_le hb
  have hmem : e ∈ voter := hvoter.subset (by rw [hpe]; simp)
  have hTv : T ≤ lastTerm S voter := heT ▸ h.term_le_lastTerm hv hmem
  have hvlen : i ≤ voter.length := hlen ▸ hvoter.length_le
  have hne : candidate ≠ [] := by
    rintro rfl
    rcases hup with hlt | ⟨_, hle⟩
    · exact absurd hlt (Nat.not_lt_zero _)
    · simp at hle; simp [hle] at hvlen; omega
  have hcand := hc.prefix_history hne
  obtain ⟨q, f, rfl⟩ := exists_concat_of_pos (List.length_pos_iff.mpr hne)
  rw [lastTerm_append_single] at hcand
  have hU : T ≤ S.termOf f := by
    rcases hup with hlt | ⟨heq, _⟩
    · rw [lastTerm_append_single] at hlt; omega
    · rw [lastTerm_append_single] at heq; omega
  rcases Nat.lt_or_ge T (S.termOf f) with hlt | hge
  · -- the candidate's last entry comes from a later leader, whose opening log has the prefix
    have hled : g.leader (S.termOf f) ≠ none :=
      h.led_of_history (fun hn => by rw [hn] at hcand; simpa using List.prefix_nil.mp hcand)
    have hopen := hheld _ hlt (hcold f (by simp)) hled
    have hbeyond := h.opening_le_of_term hled hcand rfl
    refine hopen.trans (List.prefix_of_prefix_length_le (h.opening_prefix _ hled) hcand ?_)
    simp; omega
  · -- both logs end in the same term, so the longer one contains the shorter
    have hUT : S.termOf f = T := by omega
    rw [hUT] at hcand
    refine List.prefix_of_prefix_length_le (List.take_prefix _ _) hcand ?_
    rcases hup with hlt | ⟨_, hle⟩
    · rw [lastTerm_append_single] at hlt; omega
    · omega

end Replication
