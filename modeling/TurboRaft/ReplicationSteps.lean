import TurboRaft.ReplicationSafety

/-! # Steps of a chronicle

The nine actions that leader-based replication is made of, each with the conditions under
which a node takes it, and the proof that all of them keep the invariant and only add to
what is written down. -/
namespace Replication

open ConfiguredLog Function

variable {N E K : Type*}

/-- What is written down stays: votes, ballots and leaders are final, logs of leaders,
acknowledgements and records only grow. -/
structure Book.Extends (g g' : Book N E) : Prop where
  vote : ∀ v t c, g.vote v t = some c → g'.vote v t = some c
  ballot : ∀ t c b, g.ballot t c = some b → g'.ballot t c = some b
  leader : ∀ t c, g.leader t = some c → g'.leader t = some c
  opening : ∀ t, g.leader t ≠ none → g'.opening t = g.opening t
  history : ∀ t, g.history t <+: g'.history t
  ack : ∀ v t, g.ack v t ≤ g'.ack v t
  records : g.records <:+ g'.records

structure Chronicle.Extends (g g' : Chronicle N E) : Prop where
  book : g.toBook.Extends g'.toBook
  term : ∀ n, g.term n ≤ g'.term n
  known : ∀ n, g.known n ≤ g'.known n

theorem Book.Extends.refl (g : Book N E) : g.Extends g :=
  ⟨fun _ _ _ h => h, fun _ _ _ h => h, fun _ _ h => h, fun _ _ => rfl,
    fun _ => List.prefix_refl _, fun _ _ => le_rfl, List.suffix_refl _⟩

theorem Chronicle.Extends.refl (g : Chronicle N E) : g.Extends g :=
  ⟨.refl _, fun _ => le_rfl, fun _ => le_rfl⟩

section Extends

variable {S : Scheme N E K} {g g' g'' : Book N E} {t : ℕ} {l : List E} (h : g.Extends g')

include h

theorem Book.Extends.led (hl : g.leader t ≠ none) :
    g'.leader t ≠ none := by
  obtain ⟨c, hc⟩ := Option.ne_none_iff_exists'.mp hl
  simp [h.leader t c hc]

theorem Book.Extends.trans (h' : g'.Extends g'') : g.Extends g'' where
  vote v t c hv := h'.vote v t c (h.vote v t c hv)
  ballot t c b hb := h'.ballot t c b (h.ballot t c b hb)
  leader t c hc := h'.leader t c (h.leader t c hc)
  opening t hl := (h'.opening t (h.led hl)).trans (h.opening t hl)
  history t := (h.history t).trans (h'.history t)
  ack v t := (h.ack v t).trans (h'.ack v t)
  records := h.records.trans h'.records

theorem Book.Extends.take_history {i : ℕ} (hi : i ≤ (g.history t).length) :
    (g'.history t).take i = (g.history t).take i :=
  take_eq_of_longer (h.history t) hi

theorem Book.Extends.settled {r : Record}
    (hr : r.index ≤ (g.history r.term).length) : g'.settled r = g.settled r :=
  h.take_history hr

theorem Book.Extends.sound (hl : Sound S g l) : Sound S g' l :=
  fun p e hpe => (hl p e hpe).trans (h.history _)

theorem Book.Extends.certifiedBy {rs rs' : List Record} (hrs : rs ⊆ rs')
    (hl : g.CertifiedBy rs l t) : g'.CertifiedBy rs' l t := by
  rcases hl with rfl | ⟨r, hr, ht, hpre⟩
  · exact Or.inl rfl
  · exact Or.inr ⟨r, hrs hr, ht, hpre.trans ((h.history r.term).take r.index)⟩

theorem Book.Extends.certified (hl : g.Certified l t) :
    g'.Certified l t :=
  h.certifiedBy h.records.subset hl

theorem Book.Extends.heldBetween {a b : ℕ}
    (hl : HeldBetween g' a b l) : HeldBetween g a b l :=
  fun t hat htb hled => h.opening t hled ▸ hl t hat htb (h.led hled)

theorem Book.Extends.recordOk {older : List Record} {r : Record}
    (hr : RecordOk S g older r) : RecordOk S g' older r where
  led := h.led hr.led
  fresh := by rw [h.opening _ hr.led]; exact hr.fresh
  bound := hr.bound.trans (h.history _).length_le
  base_le := hr.base_le
  quorum := by
    obtain ⟨Q, hQ, hacks⟩ := hr.quorum
    rw [h.take_history (hr.base_le.trans hr.bound)]
    exact ⟨Q, hQ, fun v hv => (hacks v hv).trans (h.ack v _)⟩
  single := by
    rw [h.settled hr.bound, h.take_history (hr.base_le.trans hr.bound)]
    exact hr.single
  certified := by
    rw [h.take_history (hr.base_le.trans hr.bound)]
    exact h.certifiedBy (List.Subset.refl _) hr.certified

end Extends

theorem Chronicle.Extends.trans {g g' g'' : Chronicle N E} (h : g.Extends g')
    (h' : g'.Extends g'') : g.Extends g'' :=
  ⟨h.book.trans h'.book, fun n => (h.term n).trans (h'.term n),
    fun n => (h.known n).trans (h'.known n)⟩

/-- A step that leaves the node alone: its own data, and the log it leads with. -/
structure Untouched (g g' : Chronicle N E) (n : N) : Prop where
  term : g'.term n = g.term n
  log : g'.log n = g.log n
  known : g'.known n = g.known n
  vote : g'.vote n = g.vote n
  ack : g'.ack n = g.ack n
  leads : ∀ t, g'.leader t = some n → g.leader t = some n ∧ g'.history t = g.history t

theorem Untouched.refl (g : Chronicle N E) (n : N) : Untouched g g n :=
  ⟨rfl, rfl, rfl, rfl, rfl, fun _ hl => ⟨hl, rfl⟩⟩

theorem Untouched.trans {g g' g'' : Chronicle N E} {n : N} (h : Untouched g g' n)
    (h' : Untouched g' g'' n) : Untouched g g'' n where
  term := h'.term.trans h.term
  log := h'.log.trans h.log
  known := h'.known.trans h.known
  vote := h'.vote.trans h.vote
  ack := h'.ack.trans h.ack
  leads t hl := by
    obtain ⟨hmid, hsame⟩ := h'.leads t hl
    obtain ⟨hold, hsame'⟩ := h.leads t hmid
    exact ⟨hold, hsame.trans hsame'⟩

theorem Untouched.nodeOk {S : Scheme N E K} {g g' : Chronicle N E} {n : N}
    (u : Untouched g g' n) (hx : g.toBook.Extends g'.toBook) (hl : Ledger S g.toBook)
    (h : NodeOk S g n) : NodeOk S g' n where
  vote_le t c hv := by
    rw [u.term]
    exact h.vote_le t c (u.vote ▸ hv)
  ack_term t ha := by
    rw [u.term]
    exact h.ack_term t (u.ack ▸ ha)
  log_le := by rw [u.log, u.term]; exact h.log_le
  log_sound := by rw [u.log]; exact hx.sound h.log_sound
  known_le := by rw [u.known, u.log]; exact h.known_le
  known_certified := by
    rw [u.known, u.log, u.term]
    exact hx.certified h.known_certified
  leader_log hlead := by
    rw [u.term] at hlead ⊢
    obtain ⟨hold, hsame⟩ := u.leads _ hlead
    rw [u.log, hsame]
    exact h.leader_log hold
  retain T i hi hheld := by
    rw [u.ack] at hi
    rw [u.term] at hheld
    have hbound : i ≤ (g.history T).length := hi.trans (hl.ack_le n T)
    rw [hx.take_history hbound] at hheld ⊢
    rw [u.log]
    exact h.retain T i hi (hx.heldBetween hheld)

variable [DecidableEq N]

def Chronicle.observe (g : Chronicle N E) (n : N) (t : ℕ) : Chronicle N E :=
  { g with term := update g.term n t }

def Chronicle.campaign (g : Chronicle N E) (n : N) (t : ℕ) : Chronicle N E :=
  { g with
    term := update g.term n t
    vote := update g.vote n (update (g.vote n) t (some n))
    ballot := update g.ballot t (update (g.ballot t) n (some (g.log n, g.known n))) }

def Chronicle.grant (g : Chronicle N E) (v c : N) : Chronicle N E :=
  { g with vote := update g.vote v (update (g.vote v) (g.term v) (some c)) }

def Chronicle.elect (g : Chronicle N E) (c : N) : Chronicle N E :=
  { g with
    leader := update g.leader (g.term c) (some c)
    opening := update g.opening (g.term c) (g.log c)
    openingKnown := update g.openingKnown (g.term c) (g.known c)
    history := update g.history (g.term c) (g.log c)
    ack := update g.ack c (update (g.ack c) (g.term c) (g.log c).length) }

def Chronicle.append (g : Chronicle N E) (c : N) (e : E) : Chronicle N E :=
  { g with
    log := update g.log c (g.log c ++ [e])
    history := update g.history (g.term c) (g.log c ++ [e])
    ack := update g.ack c (update (g.ack c) (g.term c) ((g.log c).length + 1)) }

def Chronicle.accept (g : Chronicle N E) (n : N) (m : ℕ) (l : List E) : Chronicle N E :=
  { g with
    log := update g.log n l
    ack := update g.ack n (update (g.ack n) (g.term n) (max (g.ack n (g.term n)) m)) }

def Chronicle.install (g : Chronicle N E) (n : N) (k : ℕ) (l : List E) : Chronicle N E :=
  { g with
    log := update g.log n l
    known := update g.known n k }

def Chronicle.settle (g : Chronicle N E) (r : Record) : Chronicle N E :=
  { g with records := r :: g.records }

def Chronicle.learn (g : Chronicle N E) (n : N) (k : ℕ) : Chronicle N E :=
  { g with known := update g.known n k }

/-- A log after it took over `p` from elsewhere: unchanged when it already had it. -/
def Replaces (old p new : List E) : Prop :=
  (p <+: old ∧ new = old) ∨ (¬ p <+: old ∧ new = p)

/-- A candidate with the votes of a quorum of the configuration it knows. -/
structure Wins (S : Scheme N E K) (g : Chronicle N E) (c : N) (V : Set N) : Prop where
  ballot : g.ballot (g.term c) c = some (g.log c, g.known c)
  quorum : S.quorum (S.conf ((g.log c).take (g.known c))) V
  votes : ∀ v ∈ V, g.vote v (g.term c) = some c
  pending : S.confCount (g.log c) ≤ S.confCount ((g.log c).take (g.known c)) + 1

inductive Step (S : Scheme N E K) (g : Chronicle N E) : Chronicle N E → Prop where
  | observe (n : N) (t : ℕ) (later : g.term n ≤ t) : Step S g (g.observe n t)
  | campaign (n : N) (t : ℕ) (later : g.term n < t) : Step S g (g.campaign n t)
  | grant (v c : N) (b : List E × ℕ)
      (free : g.vote v (g.term v) = none ∨ g.vote v (g.term v) = some c)
      (ballot : g.ballot (g.term v) c = some b) (fresh : UpToDate S b.1 (g.log v)) :
      Step S g (g.grant v c)
  | elect (c : N) (V : Set N) (first : g.leader (g.term c) ≠ some c) (wins : Wins S g c V) :
      Step S g (g.elect c)
  | append (c : N) (e : E) (leads : g.leader (g.term c) = some c)
      (term : S.termOf e = g.term c)
      (chained : ∀ k, S.confOf e = some k → S.Overlap (S.conf (g.log c)) k) :
      Step S g (g.append c e)
  | accept (n : N) (m : ℕ) (l : List E) (follows : g.leader (g.term n) ≠ some n)
      (bound : m ≤ (g.history (g.term n)).length)
      (replaces : Replaces (g.log n) ((g.history (g.term n)).take m) l)
      (keeps : (g.log n).take (g.known n) <+: l) : Step S g (g.accept n m l)
  | install (n : N) (p l : List E) (follows : g.leader (g.term n) ≠ some n)
      (certified : g.Certified p (g.term n + 1)) (ahead : g.known n ≤ p.length)
      (replaces : Replaces (g.log n) p l) : Step S g (g.install n p.length l)
  | settle (r : Record) (ok : RecordOk S g.toBook g.records r)
      (own : ∀ q ∈ g.records, q.term = r.term →
        S.confCount (g.settled q) ≤ S.confCount ((g.history r.term).take r.base)) :
      Step S g (g.settle r)
  | learn (n : N) (k : ℕ) (ahead : g.known n ≤ k) (bound : k ≤ (g.log n).length)
      (certified : g.Certified ((g.log n).take k) (g.term n + 1)) : Step S g (g.learn n k)

section Others

variable {g : Chronicle N E} {n m : N} (hm : m ≠ n)

include hm

theorem untouched_observe (t : ℕ) : Untouched g (g.observe n t) m :=
  ⟨by simp [Chronicle.observe, hm], rfl, rfl, rfl, rfl, fun _ hl => ⟨hl, rfl⟩⟩

theorem untouched_campaign (t : ℕ) : Untouched g (g.campaign n t) m :=
  ⟨by simp [Chronicle.campaign, hm], rfl, rfl, by simp [Chronicle.campaign, hm], rfl,
    fun _ hl => ⟨hl, rfl⟩⟩

theorem untouched_grant (c : N) : Untouched g (g.grant n c) m :=
  ⟨rfl, rfl, rfl, by simp [Chronicle.grant, hm], rfl, fun _ hl => ⟨hl, rfl⟩⟩

theorem untouched_elect : Untouched g (g.elect n) m := by
  refine ⟨rfl, rfl, rfl, rfl, by simp [Chronicle.elect, hm], ?_⟩
  intro t hlead
  by_cases ht : t = g.term n
  · subst ht
    simp only [Chronicle.elect, update_self, Option.some.injEq] at hlead
    exact absurd hlead.symm hm
  · simpa [Chronicle.elect, ht] using hlead

theorem untouched_append (e : E) (leads : g.leader (g.term n) = some n) :
    Untouched g (g.append n e) m := by
  refine ⟨rfl, by simp [Chronicle.append, hm], rfl, rfl, by simp [Chronicle.append, hm], ?_⟩
  intro t hlead
  refine ⟨hlead, ?_⟩
  have ht : t ≠ g.term n := by
    rintro rfl
    exact hm (Option.some.inj (hlead.symm.trans leads))
  simp [Chronicle.append, ht]

theorem untouched_accept (i : ℕ) (l : List E) : Untouched g (g.accept n i l) m :=
  ⟨rfl, by simp [Chronicle.accept, hm], rfl, rfl, by simp [Chronicle.accept, hm],
    fun _ hl => ⟨hl, rfl⟩⟩

theorem untouched_install (k : ℕ) (l : List E) : Untouched g (g.install n k l) m :=
  ⟨rfl, by simp [Chronicle.install, hm], by simp [Chronicle.install, hm], rfl, rfl,
    fun _ hl => ⟨hl, rfl⟩⟩

theorem untouched_learn (k : ℕ) : Untouched g (g.learn n k) m :=
  ⟨rfl, rfl, by simp [Chronicle.learn, hm], rfl, rfl, fun _ hl => ⟨hl, rfl⟩⟩

end Others

omit [DecidableEq N] in
theorem untouched_settle {g : Chronicle N E} (r : Record) (m : N) : Untouched g (g.settle r) m :=
  ⟨rfl, rfl, rfl, rfl, rfl, fun _ hl => ⟨hl, rfl⟩⟩

end Replication
