import TurboRaft.ReplicationSteps
import Mathlib.Order.Lattice
import Mathlib.Order.MinMax
import Mathlib.Logic.Relation

/-! # Every step keeps the invariant

One lemma for each action, assembled for single steps and for whole paths. -/
namespace Replication

open ConfiguredLog Function

variable {N E K : Type*} {S : Scheme N E K}

section Helpers

variable {t : ℕ} {g' : Book N E} {a : N → ℕ → ℕ}

theorem update_update_apply {α β γ : Type*} [DecidableEq α] [DecidableEq β] (f : α → β → γ)
    (a a' : α) (b b' : β) (x : γ) :
    update f a (update (f a) b x) a' b' = if a' = a ∧ b' = b then x else f a' b' := by
  by_cases ha : a' = a
  · subst ha
    by_cases hb : b' = b <;> simp [hb]
  · simp [ha]

theorem forall_entry {α β γ : Type*} [DecidableEq α] [DecidableEq β] {F f : α → β → Option γ}
    {a : α} {b : β} {x : γ} (hF : ∀ u c, F u c = if u = a ∧ c = b then some x else f u c)
    {P : α → β → γ → Prop} (hnew : P a b x) (hold : ∀ u c y, f u c = some y → P u c y) :
    ∀ u c y, F u c = some y → P u c y := by
  intro u c y hy
  rw [hF] at hy
  split_ifs at hy with hu
  · rw [hu.1, hu.2]
    exact Option.some.inj hy ▸ hnew
  · exact hold u c y hy

variable {g : Book N E} {p l : List E}

theorem HeldBetween.mono {a b b' : ℕ} (h : HeldBetween g a b' l) (hb : b ≤ b')
    : HeldBetween g a b l :=
  fun t hat htb hled => h t hat (by omega) hled

/-- Acknowledgements of terms before a vote are final, so what it carries is too. -/
theorem Book.Extends.carries (hx : g.Extends g') (h : Ledger S g) {v : N} {b : ℕ}
    (same : ∀ T, T < t → g'.ack v T = g.ack v T) (hc : Carries g v t b l) : Carries g' v t b l := by
  intro T i hT hi hfresh hheld
  rw [same T hT] at hi
  have hbound : i ≤ (g.history T).length := hi.trans (h.ack_le v T)
  have hled : g.leader T ≠ none := by
    apply h.led_of_history
    intro hnil
    rw [hnil] at hbound
    simp at hbound
    omega
  rw [hx.opening T hled] at hfresh
  rw [hx.take_history hbound] at hheld ⊢
  exact hc T i hT hi hfresh (hx.heldBetween hheld)

theorem Book.Extends.elected (hx : g.Extends g') (h : Ledger S g)
    (past : ∀ v t c, g.vote v t = some c → ∀ T, T < t → g'.ack v T = g.ack v T) {c : N}
    (hc : g.leader t = some c) :
    ∃ V, S.quorum (S.conf ((g.opening t).take (g.openingKnown t))) V ∧
      ∀ v ∈ V, g'.vote v t = some c ∧ Carries g' v t t (g.opening t) := by
  obtain ⟨V, hV, hvotes⟩ := h.leader_votes t c hc
  refine ⟨V, hV, fun v hv => ?_⟩
  obtain ⟨hvote, hcarries⟩ := hvotes v hv
  exact ⟨hx.vote v t c hvote, hx.carries h (past v t c hvote) hcarries⟩

theorem Replaces.keeps {old new x : List E} (h : Replaces old p new) (hx : x <+: old)
    (total : x <+: p ∨ p <+: x) : x <+: new := by
  rcases h with ⟨_, rfl⟩ | ⟨hnot, rfl⟩
  · exact hx
  · rcases total with hxp | hpx
    · exact hxp
    · exact absurd (hpx.trans hx) hnot

theorem Replaces.has {old new : List E} (h : Replaces old p new) : p <+: new := by
  rcases h with ⟨hp, rfl⟩ | ⟨_, rfl⟩
  · exact hp
  · exact List.prefix_refl _

theorem Inv.leader_le {g : Chronicle N E} (h : Inv S g) {c : N}
    (hc : g.leader t = some c) : t ≤ g.term c :=
  (h.node c).vote_le t c (h.ledger.ballot_self t c _ (h.ledger.leader_ballot t c hc))

theorem Inv.past_ack [DecidableEq N] {g : Chronicle N E} (h : Inv S g) {n : N}
    {x : ℕ} (hack : ∀ v t, a v t = if v = n ∧ t = g.term n then x else g.ack v t) :
    ∀ v t c, g.vote v t = some c → ∀ T, T < t → a v T = g.ack v T := by
  intro v t c hv T hT
  rw [hack, if_neg]
  rintro ⟨rfl, rfl⟩
  exact absurd ((h.node v).vote_le t c hv) (by omega)

theorem Inv.ack_term_of [DecidableEq N] {g : Chronicle N E} (h : Inv S g) {n : N}
    {x : ℕ} (hack : ∀ v t, a v t = if v = n ∧ t = g.term n then x else g.ack v t) (t : ℕ)
    (ha : 0 < a n t) : t ≤ g.term n := by
  rw [hack] at ha
  split_ifs at ha with hvt
  · exact hvt.2.le
  · exact (h.node n).ack_term t ha

theorem Ledger.sound_chained (h : Ledger S g) (hl : Sound S g l) : S.Chained l := by
  rcases List.eq_nil_or_concat' l with rfl | ⟨p, e, rfl⟩
  · exact chained_nil
  · exact chained_shorten (h.history_chained _) (hl.prefix_history (by simp))

theorem Ledger.withAck (h : Ledger S g) (grow : ∀ v t, g.ack v t ≤ a v t)
    (bound : ∀ v t, a v t ≤ (g.history t).length)
    (lead : ∀ t c, g.leader t = some c → a c t = (g.history t).length)
    (past : ∀ v t c, g.vote v t = some c → ∀ T, T < t → a v T = g.ack v T) :
    g.Extends { g with ack := a } ∧ Ledger S { g with ack := a } := by
  have hx : g.Extends { g with ack := a } := { Book.Extends.refl g with ack := grow }
  refine ⟨hx, { h with
    leader_votes := fun t c hc => hx.elected h past hc
    leader_ack := lead
    ack_le := bound
    vote_carries := ?_
    records_ok := ?_ }⟩
  · intro v t c b hv hb
    exact hx.carries h (past v t c hv) (h.vote_carries v t c b hv hb)
  · intro r older hr
    exact hx.recordOk (h.records_ok r older hr)

theorem Inv.ack_certified_total {g : Chronicle N E} (h : Inv S g) {n : N} {T i : ℕ}
    (hi : i ≤ g.ack n T) (hheld : HeldBetween g.toBook T (g.term n + 1) ((g.history T).take i))
    (hp : g.Certified p (g.term n + 1)) :
    (g.history T).take i <+: p ∨ p <+: (g.history T).take i := by
  rcases hp with rfl | ⟨r, hr, hrt, hpre⟩
  · exact Or.inr List.nil_prefix
  obtain ⟨_, _, hok⟩ := h.ledger.record_ok hr
  have hsettled : p <+: g.history r.term := hpre.trans (List.take_prefix _ _)
  rcases Nat.lt_trichotomy T r.term with hlt | rfl | hgt
  · exact List.prefix_or_prefix_of_prefix
      ((hheld _ hlt (by omega) hok.led).trans (h.ledger.opening_prefix _ hok.led)) hsettled
  · exact List.prefix_or_prefix_of_prefix (List.take_prefix _ _) hsettled
  · by_cases hled : g.leader T = none
    · left
      rw [h.ledger.unled _ hled]
      simp
    · have hopen := (h.ledger.complete r hr T hgt hled).trans (h.ledger.opening_prefix _ hled)
      exact List.prefix_or_prefix_of_prefix (List.take_prefix _ _) (hpre.trans hopen)

theorem Ledger.certified_sound (h : Ledger S g) (hp : g.Certified p (t + 1))
    : Sound S g p ∧ ∀ e ∈ p, S.termOf e ≤ t := by
  rcases hp with rfl | ⟨r, hr, hrt, hpre⟩
  · exact ⟨fun q e hq => absurd (List.prefix_nil.mp hq) (by simp), by simp⟩
  · have hhist : p <+: g.history r.term := hpre.trans (List.take_prefix _ _)
    exact ⟨(h.history_sound _).shorten hhist,
      fun e he => (h.history_le e (hhist.subset he)).trans (by omega)⟩

end Helpers

variable [DecidableEq N] {g : Chronicle N E}

section NodeActions

variable {n : N}

theorem inv_observe (h : Inv S g) {t : ℕ} (later : g.term n ≤ t) :
    g.Extends (g.observe n t) ∧ Inv S (g.observe n t) := by
  refine ⟨⟨.refl _, le_update_self_iff.mpr later, fun _ => le_rfl⟩, h.ledger, fun m => ?_⟩
  · by_cases hm : m = n
    · subst hm
      have hterm : (g.observe m t).term m = t := by simp [Chronicle.observe]
      have hn := h.node m
      exact
        { vote_le := by rw [hterm]; exact fun u c hv => (hn.vote_le u c hv).trans later
          ack_term := by rw [hterm]; exact fun u ha => (hn.ack_term u ha).trans later
          log_le := by rw [hterm]; exact fun e he => (hn.log_le e he).trans later
          log_sound := hn.log_sound
          known_le := hn.known_le
          known_certified := by rw [hterm]; exact certifiedBy_le hn.known_certified (by omega)
          leader_log := by
            rw [hterm]
            intro hlead
            have heq : g.term m = t := le_antisymm later (h.leader_le hlead)
            exact heq ▸ hn.leader_log (heq ▸ hlead)
          retain := by
            intro T i hi hheld
            exact hn.retain T i hi (hheld.mono (by omega)) }
    · exact (untouched_observe hm t).nodeOk (.refl _) h.ledger (h.node m)

theorem inv_learn (h : Inv S g) {k : ℕ} (ahead : g.known n ≤ k)
    (bound : k ≤ (g.log n).length)
    (certified : g.Certified ((g.log n).take k) (g.term n + 1)) :
    g.Extends (g.learn n k) ∧ Inv S (g.learn n k) := by
  refine ⟨⟨.refl _, fun _ => le_rfl, le_update_self_iff.mpr ahead⟩, h.ledger, fun m => ?_⟩
  · by_cases hm : m = n
    · subst hm
      have hknown : (g.learn m k).known m = k := by simp [Chronicle.learn]
      exact { h.node m with
        known_le := by rw [hknown]; exact bound
        known_certified := by rw [hknown]; exact certified }
    · exact (untouched_learn hm k).nodeOk (.refl _) h.ledger (h.node m)

theorem inv_accept (h : Inv S g) {m : ℕ} {l : List E}
    (follows : g.leader (g.term n) ≠ some n) (bound : m ≤ (g.history (g.term n)).length)
    (replaces : Replaces (g.log n) ((g.history (g.term n)).take m) l)
    (keeps : (g.log n).take (g.known n) <+: l) :
    g.Extends (g.accept n m l) ∧ Inv S (g.accept n m l) := by
  have hn := h.node n
  have hack : ∀ v t, (g.accept n m l).ack v t =
      if v = n ∧ t = g.term n then max (g.ack n (g.term n)) m else g.ack v t :=
    fun v t => update_update_apply _ n v _ t _
  obtain ⟨hx, hledger⟩ := h.ledger.withAck (a := (g.accept n m l).ack)
    (by intro v t; rw [hack]; split_ifs with hvt
        · rw [hvt.1, hvt.2]; exact le_max_left _ _
        · exact le_rfl)
    (by intro v t; rw [hack]; split_ifs with hvt
        · rw [hvt.2]; exact max_le (h.ledger.ack_le _ _) bound
        · exact h.ledger.ack_le v t)
    (by intro t c hc; rw [hack]; split_ifs with hvt
        · exact absurd (hvt.2 ▸ hvt.1 ▸ hc) follows
        · exact h.ledger.leader_ack t c hc)
    (h.past_ack hack)
  refine ⟨⟨hx, fun _ => le_rfl, fun _ => le_rfl⟩, hledger, fun v => ?_⟩
  by_cases hv : v = n
  · subst hv
    have hlog : (g.accept v m l).log v = l := by simp [Chronicle.accept]
    have hknown : l.take (g.known v) = (g.log v).take (g.known v) := by
      have := take_eq_of_longer keeps (i := g.known v)
        (by rw [List.length_take_of_le hn.known_le])
      rwa [List.take_take, min_self] at this
    have member : ∀ e ∈ l, e ∈ g.log v ∨ e ∈ g.history (g.term v) := by
      intro e he
      rcases replaces with ⟨_, rfl⟩ | ⟨_, rfl⟩
      · exact Or.inl he
      · exact Or.inr (List.mem_of_mem_take he)
    exact
      { vote_le := hn.vote_le
        ack_term := h.ack_term_of hack
        log_le := by
          rw [hlog]
          intro e he
          rcases member e he with he | he
          · exact hn.log_le e he
          · exact h.ledger.history_le e he
        log_sound := by
          rw [hlog]
          rcases replaces with ⟨_, rfl⟩ | ⟨_, rfl⟩
          · exact hx.sound hn.log_sound
          · exact hx.sound ((h.ledger.history_sound _).shorten (List.take_prefix _ _))
        known_le := by
          rw [hlog]
          have := keeps.length_le
          rwa [List.length_take_of_le hn.known_le] at this
        known_certified := by
          rw [hlog]
          exact hknown ▸ hx.certified hn.known_certified
        leader_log := fun hlead => absurd hlead follows
        retain := by
          rw [hlog]
          intro T i hi hheld
          have hheld' : HeldBetween g.toBook T (g.term v + 1) ((g.history T).take i) := hheld
          rw [hack] at hi
          by_cases hT : T = g.term v
          · subst hT
            rw [if_pos ⟨rfl, rfl⟩] at hi
            rcases Nat.lt_or_ge m i with hmi | him
            · have hile : i ≤ g.ack v (g.term v) := (le_max_iff.mp hi).resolve_right (by omega)
              exact replaces.keeps (hn.retain _ i hile hheld')
                (List.prefix_or_prefix_of_prefix (List.take_prefix _ _) (List.take_prefix _ _))
            · exact (List.take_prefix_take_left him).trans replaces.has
          · rw [if_neg (fun hvt => hT hvt.2)] at hi
            rcases Nat.eq_zero_or_pos i with rfl | hpos
            · simp
            have hTle := hn.ack_term T (by omega)
            refine replaces.keeps (hn.retain T i hi hheld') ?_
            by_cases hled : g.leader (g.term v) = none
            · right
              rw [h.ledger.unled _ hled]
              simp
            · exact List.prefix_or_prefix_of_prefix
                ((hheld' _ (by omega) (by omega) hled).trans (h.ledger.opening_prefix _ hled))
                (List.take_prefix _ _) }
  · exact (untouched_accept hv m l).nodeOk hx h.ledger (h.node v)

theorem inv_install (h : Inv S g) {p l : List E} (follows : g.leader (g.term n) ≠ some n)
    (certified : g.Certified p (g.term n + 1)) (ahead : g.known n ≤ p.length)
    (replaces : Replaces (g.log n) p l) :
    g.Extends (g.install n p.length l) ∧ Inv S (g.install n p.length l) := by
  refine ⟨⟨.refl _, fun _ => le_rfl, le_update_self_iff.mpr ahead⟩, h.ledger, fun v => ?_⟩
  by_cases hv : v = n
  · subst hv
    have hn := h.node v
    have hlog : (g.install v p.length l).log v = l := by simp [Chronicle.install]
    have hknown : (g.install v p.length l).known v = p.length := by simp [Chronicle.install]
    obtain ⟨hsound, hterms⟩ := h.ledger.certified_sound certified
    exact
      { vote_le := hn.vote_le
        ack_term := hn.ack_term
        log_le := by
          rw [hlog]
          rcases replaces with ⟨_, rfl⟩ | ⟨_, rfl⟩
          · exact hn.log_le
          · exact hterms
        log_sound := by
          rw [hlog]
          rcases replaces with ⟨_, rfl⟩ | ⟨_, rfl⟩
          · exact hn.log_sound
          · exact hsound
        known_le := by
          rw [hlog, hknown]
          exact replaces.has.length_le
        known_certified := by
          rw [hlog, hknown, take_eq_of_longer replaces.has le_rfl, List.take_length]
          exact certified
        leader_log := fun hlead => absurd hlead follows
        retain := by
          rw [hlog]
          intro T i hi hheld
          exact replaces.keeps (hn.retain T i hi hheld) (h.ack_certified_total hi hheld certified) }
  · exact (untouched_install hv p.length l).nodeOk (.refl _) h.ledger (h.node v)

end NodeActions

section BookActions

variable {c : N}

omit [DecidableEq N] in
theorem inv_settle (self : ∀ k, S.Overlap k k) (h : Inv S g) {r : Record}
    (ok : RecordOk S g.toBook g.records r)
    (own : ∀ q ∈ g.records, q.term = r.term →
      S.confCount (g.settled q) ≤ S.confCount ((g.history r.term).take r.base)) :
    g.Extends (g.settle r) ∧ Inv S (g.settle r) := by
  have hx : g.toBook.Extends (g.settle r).toBook :=
    { Book.Extends.refl g.toBook with records := List.suffix_cons _ _ }
  have hl := h.ledger
  refine ⟨⟨hx, fun _ => le_rfl, fun _ => le_rfl⟩, ?_, fun n => ?_⟩
  · exact { hl with
      ballot_known := fun t c b hb =>
        ⟨(hl.ballot_known t c b hb).1, hx.certified (hl.ballot_known t c b hb).2⟩
      records_ok := by
        intro q older hq
        rcases List.suffix_cons_iff.mp hq with heq | hq
        · obtain ⟨rfl, rfl⟩ := List.cons.inj heq
          exact hx.recordOk ok
        · exact hx.recordOk (hl.records_ok q older hq)
      complete := by
        intro q hq t hqt hled
        rcases List.mem_cons.mp hq with rfl | hq
        · exact hl.settle_complete self ok own t hqt hled
        · exact hl.complete q hq t hqt hled }
  · exact (untouched_settle r n).nodeOk hx hl (h.node n)

theorem inv_append (h : Inv S g) {e : E} (leads : g.leader (g.term c) = some c)
    (term : S.termOf e = g.term c)
    (chained : ∀ k, S.confOf e = some k → S.Overlap (S.conf (g.log c)) k) :
    g.Extends (g.append c e) ∧ Inv S (g.append c e) := by
  have hl := h.ledger
  have hc := h.node c
  have hled : g.leader (g.term c) ≠ none := by simp [leads]
  have hlog : g.log c = g.history (g.term c) := hc.leader_log leads
  have hhist : ∀ t, (g.append c e).history t =
      if t = g.term c then g.log c ++ [e] else g.history t :=
    update_apply g.history _ _
  have hack : ∀ v t, (g.append c e).ack v t =
      if v = c ∧ t = g.term c then (g.log c).length + 1 else g.ack v t :=
    fun v t => update_update_apply _ c v _ t _
  have hx : g.toBook.Extends (g.append c e).toBook :=
    { Book.Extends.refl g.toBook with
      history := by
        intro t
        rw [hhist]
        split_ifs with ht
        · rw [ht, ← hlog]; exact List.prefix_append _ _
        · exact List.prefix_refl _
      ack := by
        intro v t
        rw [hack]
        split_ifs with hvt
        · rw [hvt.1, hvt.2, hl.leader_ack _ _ leads, ← hlog]; omega
        · exact le_rfl }
  have same := h.past_ack hack
  have hsound : Sound S (g.append c e).toBook (g.log c ++ [e]) := by
    intro p x hp
    rcases List.prefix_concat_iff.mp hp with hp | hp
    · obtain ⟨rfl, hxe⟩ := List.append_inj' hp rfl
      cases hxe
      rw [hhist, if_pos term]
    · exact hx.sound hc.log_sound p x hp
  refine ⟨⟨hx, fun _ => le_rfl, fun _ => le_rfl⟩, ?_, fun n => ?_⟩
  · exact { hl with
      ballot_sound := fun t d b hb => hx.sound (hl.ballot_sound t d b hb)
      ballot_known := fun t d b hb =>
        ⟨(hl.ballot_known t d b hb).1, hx.certified (hl.ballot_known t d b hb).2⟩
      leader_votes := fun t d hd => hx.elected hl same hd
      leader_ack := by
        intro t d hd
        rw [hack, hhist]
        by_cases ht : t = g.term c
        · have hdc : d = c := Option.some.inj (hd.symm.trans (ht ▸ leads))
          simp [ht, hdc]
        · simp only [ht, and_false, if_false]
          exact hl.leader_ack t d hd
      unled := by
        intro t ht
        rw [hhist, if_neg]
        · exact hl.unled t ht
        · rintro rfl
          exact hled ht
      opening_prefix := fun t ht => (hl.opening_prefix t ht).trans (hx.history t)
      history_new := by
        intro t p x ht hp hlen
        rw [hhist] at hp
        split_ifs at hp with heq
        · rcases List.prefix_concat_iff.mp hp with hp | hp
          · obtain ⟨_, hxe⟩ := List.append_inj' hp rfl
            cases hxe
            exact heq ▸ term
          · exact hl.history_new t p x ht (heq ▸ hlog ▸ hp) hlen
        · exact hl.history_new t p x ht hp hlen
      history_sound := (forall_update_iff _ fun _ l => Sound S _ l).mpr
        ⟨hsound, fun t _ => hx.sound (hl.history_sound t)⟩
      history_chained := (forall_update_iff _ fun _ l => S.Chained l).mpr
        ⟨chained_append_single (hlog ▸ hl.history_chained _) chained,
          fun t _ => hl.history_chained t⟩
      ack_le := by
        intro v t
        rw [hack, hhist]
        split_ifs with hvt ht ht
        · simp
        · exact absurd hvt.2 ht
        · have := hl.ack_le v t
          rw [ht, ← hlog] at this
          rw [ht]
          simp
          omega
        · exact hl.ack_le v t
      vote_carries := fun v t d b hv hb => hx.carries hl (same v t d hv) (hl.vote_carries v t d b hv hb)
      records_ok := fun r older hr => hx.recordOk (hl.records_ok r older hr)
      complete := by
        intro r hr t hrt hledt
        obtain ⟨_, _, hok⟩ := hl.record_ok hr
        rw [hx.settled hok.bound]
        exact hl.complete r hr t hrt hledt }
  · by_cases hn : n = c
    · subst hn
      have hnew : (g.append n e).log n = g.log n ++ [e] := by simp [Chronicle.append]
      exact
        { vote_le := hc.vote_le
          ack_term := h.ack_term_of hack
          log_le := by
            rw [hnew]
            intro x hx'
            rcases List.mem_append.mp hx' with hx' | hx'
            · exact hc.log_le x hx'
            · rw [List.mem_singleton.mp hx', term]; exact le_rfl
          log_sound := by
            rw [hnew]
            exact hsound
          known_le := by
            rw [hnew]
            have : g.known n ≤ (g.log n).length := hc.known_le
            simp only [List.length_append, List.length_singleton]
            exact this.trans (Nat.le_succ _)
          known_certified := by
            have hsame : (g.log n ++ [e]).take (g.known n) = (g.log n).take (g.known n) :=
              List.take_append_of_le_length hc.known_le
            rw [hnew]
            exact hsame ▸ hx.certified hc.known_certified
          leader_log := by
            intro _
            rw [hnew]
            exact (if_pos rfl).symm
          retain := by
            intro T i hi hheld
            rw [hnew]
            by_cases hT : T = g.term n
            · rw [hhist, if_pos hT]
              exact List.take_prefix _ _
            · rw [hack, if_neg (fun hvt => hT hvt.2)] at hi
              have hbound := hi.trans (hl.ack_le n T)
              rw [hx.take_history hbound] at hheld ⊢
              exact (hc.retain T i hi (hx.heldBetween hheld)).trans (List.prefix_append _ _) }
    · exact (untouched_append hn e leads).nodeOk hx hl (h.node n)

theorem inv_campaign (h : Inv S g) {n : N} {t : ℕ} (later : g.term n < t) :
    g.Extends (g.campaign n t) ∧ Inv S (g.campaign n t) := by
  have hl := h.ledger
  have hn := h.node n
  have hvote : ∀ v u, (g.campaign n t).vote v u =
      if v = n ∧ u = t then some n else g.vote v u :=
    fun v u => update_update_apply _ n v t u _
  have hballot : ∀ u c, (g.campaign n t).ballot u c =
      if u = t ∧ c = n then some (g.log n, g.known n) else g.ballot u c :=
    fun u c => update_update_apply _ t u n c _
  have unvoted : ∀ c, g.vote n t ≠ some c :=
    fun c hv => absurd (hn.vote_le t c hv) (by omega)
  have unballoted : g.ballot t n = none := by
    by_contra hb
    obtain ⟨b, hb⟩ := Option.ne_none_iff_exists'.mp hb
    exact unvoted n (hl.ballot_self t n b hb)
  have hx : g.toBook.Extends (g.campaign n t).toBook :=
    { Book.Extends.refl g.toBook with
      vote := by
        intro v u c hv
        rw [hvote, if_neg]
        · exact hv
        · rintro ⟨rfl, rfl⟩
          exact unvoted c hv
      ballot := by
        intro u c b hb
        rw [hballot, if_neg]
        · exact hb
        · rintro ⟨rfl, rfl⟩
          rw [unballoted] at hb
          cases hb }
  refine ⟨⟨hx, le_update_self_iff.mpr later.le, fun _ => le_rfl⟩, ?_, fun m => ?_⟩
  · exact { hl with
      vote_ballot := by
        refine forall_entry hvote (by simp [hballot]) fun v u c hv => ?_
        rw [hballot]
        split_ifs
        · simp
        · exact hl.vote_ballot v u c hv
      ballot_self := forall_entry hballot (by simp [hvote])
        fun u c b hb => hx.vote c u c (hl.ballot_self u c b hb)
      ballot_old := by
        refine forall_entry hballot (fun e he => ?_) hl.ballot_old
        have := hn.log_le e he
        omega
      ballot_sound := forall_entry hballot hn.log_sound hl.ballot_sound
      ballot_known := forall_entry hballot
        ⟨hn.known_le, certifiedBy_le hn.known_certified (by omega)⟩ hl.ballot_known
      leader_ballot := fun u c hc => hx.ballot u c _ (hl.leader_ballot u c hc)
      leader_votes := fun u c hc => hx.elected hl (fun _ _ _ _ _ _ => rfl) hc
      vote_carries := by
        intro v u c b hv hb
        rw [hvote] at hv
        rw [hballot] at hb
        split_ifs at hv with hvu
        · -- the candidate's vote for itself: its own log has what it acknowledged
          obtain rfl := Option.some.inj hv
          rw [if_pos ⟨hvu.2, rfl⟩] at hb
          obtain rfl := Option.some.inj hb
          obtain ⟨rfl, rfl⟩ := hvu
          intro T i _ hi _ hheld
          exact hn.retain T i hi (HeldBetween.mono hheld (by omega))
        · split_ifs at hb with huc
          · exact absurd unballoted (huc.1 ▸ huc.2 ▸ hl.vote_ballot v u c hv)
          · exact hl.vote_carries v u c b hv hb
      records_ok := fun r older hr => hx.recordOk (hl.records_ok r older hr) }
  · by_cases hm : m = n
    · subst hm
      have hterm : (g.campaign m t).term m = t := by simp [Chronicle.campaign]
      have hlater := (inv_observe h later.le).2.node m
      exact
        { vote_le := by
            intro u c hv
            rw [hvote] at hv
            rw [hterm]
            split_ifs at hv with hvu
            · exact hvu.2.le
            · exact (hn.vote_le u c hv).trans later.le
          ack_term := hlater.ack_term
          log_le := hlater.log_le
          log_sound := hn.log_sound
          known_le := hn.known_le
          known_certified := hlater.known_certified
          leader_log := by
            intro hlead
            exact absurd (h.leader_le hlead) (by omega)
          retain := hlater.retain }
    · exact (untouched_campaign hm t).nodeOk hx hl (h.node m)

theorem inv_grant (h : Inv S g) {v : N} {b : List E × ℕ}
    (free : g.vote v (g.term v) = none ∨ g.vote v (g.term v) = some c)
    (ballot : g.ballot (g.term v) c = some b) (fresh : UpToDate S b.1 (g.log v)) :
    g.Extends (g.grant v c) ∧ Inv S (g.grant v c) := by
  have hl := h.ledger
  have hn := h.node v
  have hvote : ∀ w u, (g.grant v c).vote w u =
      if w = v ∧ u = g.term v then some c else g.vote w u :=
    fun w u => update_update_apply _ v w _ u _
  have hx : g.toBook.Extends (g.grant v c).toBook :=
    { Book.Extends.refl g.toBook with
      vote := by
        intro w u d hw
        rw [hvote]
        split_ifs with hwu
        · rw [hwu.1, hwu.2] at hw
          rcases free with hf | hf
          · rw [hf] at hw; cases hw
          · exact hf.symm.trans hw
        · exact hw }
  refine ⟨⟨hx, fun _ => le_rfl, fun _ => le_rfl⟩, ?_, fun m => ?_⟩
  · exact { hl with
      vote_ballot := forall_entry hvote
        (fun hnone => Option.some_ne_none b (ballot.symm.trans hnone)) hl.vote_ballot
      ballot_self := fun u d b' hb => hx.vote d u d (hl.ballot_self u d b' hb)
      leader_votes := fun u d hd => hx.elected hl (fun _ _ _ _ _ _ => rfl) hd
      vote_carries := by
        intro w u d b' hw hb
        rw [hvote] at hw
        split_ifs at hw with hwu
        · -- the voter's log has what it acknowledged, and the candidate is up to date with it
          obtain rfl := Option.some.inj hw
          obtain ⟨rfl, rfl⟩ := hwu
          obtain rfl : b = b' := Option.some.inj (ballot.symm.trans hb)
          intro T i hT hi hfresh hheld
          have hbound : i ≤ (g.history T).length := hi.trans (hl.ack_le w T)
          have hled : g.leader T ≠ none := by
            apply hl.led_of_history
            intro hnil
            rw [hnil] at hbound
            simp at hbound
            omega
          exact hl.upToDate_carries (hl.ballot_sound _ _ _ ballot) hn.log_sound
            (hl.ballot_old _ _ _ ballot) hled hfresh hbound (HeldBetween.mono hheld (by omega))
            (hn.retain T i hi hheld) fresh
        · exact hl.vote_carries w u d b' hw hb
      records_ok := fun r older hr => hx.recordOk (hl.records_ok r older hr) }
  · by_cases hm : m = v
    · subst hm
      exact { hn with
        vote_le := by
          intro u d hv
          rw [hvote] at hv
          split_ifs at hv with hvu
          · exact hvu.2.le
          · exact hn.vote_le u d hv }
    · exact (untouched_grant hm c).nodeOk hx hl (h.node m)

omit [DecidableEq N] in
theorem Inv.winner (h : Inv S g) {V : Set N} (wins : Wins S g c V) :
    Winner S g.toBook (g.term c) (g.term c + 1) (g.log c) (g.known c) V where
  certified := (h.ledger.ballot_known _ _ _ wins.ballot).2
  pending := wins.pending
  quorum := wins.quorum
  carries v hv := h.ledger.vote_carries v _ c _ (wins.votes v hv) wins.ballot

theorem inv_elect (self : ∀ k, S.Overlap k k) (h : Inv S g) {V : Set N}
    (first : g.leader (g.term c) ≠ some c) (wins : Wins S g c V) :
    g.Extends (g.elect c) ∧ Inv S (g.elect c) := by
  have hl := h.ledger
  have hc := h.node c
  have hwin := h.winner wins
  obtain ⟨ballot, quorum, votes, pending⟩ := wins
  have hnone : g.leader (g.term c) = none := by
    by_contra hled
    obtain ⟨d, hd⟩ := Option.ne_none_iff_exists'.mp hled
    exact first (hl.winner_unique self hwin votes hd ▸ hd)
  have hleader : ∀ t, (g.elect c).leader t = if t = g.term c then some c else g.leader t :=
    update_apply g.leader _ _
  have hopening : ∀ t, (g.elect c).opening t = if t = g.term c then g.log c else g.opening t :=
    update_apply g.opening _ _
  have hopeningKnown : ∀ t, (g.elect c).openingKnown t =
      if t = g.term c then g.known c else g.openingKnown t :=
    update_apply g.openingKnown _ _
  have hhist : ∀ t, (g.elect c).history t = if t = g.term c then g.log c else g.history t :=
    update_apply g.history _ _
  have hack : ∀ v t, (g.elect c).ack v t =
      if v = c ∧ t = g.term c then (g.log c).length else g.ack v t :=
    fun v t => update_update_apply _ c v _ t _
  have unacked : ∀ v, g.ack v (g.term c) = 0 := by
    intro v
    have := hl.ack_le v (g.term c)
    rw [hl.unled _ hnone] at this
    simpa using this
  have hx : g.toBook.Extends (g.elect c).toBook :=
    { Book.Extends.refl g.toBook with
      leader := by
        intro t d hd
        rw [hleader, if_neg]
        · exact hd
        · rintro rfl
          rw [hnone] at hd
          cases hd
      opening := by
        intro t hled
        rw [hopening, if_neg]
        rintro rfl
        exact hled hnone
      history := by
        intro t
        rw [hhist]
        split_ifs with ht
        · rw [ht, hl.unled _ hnone]; exact List.nil_prefix
        · exact List.prefix_refl _
      ack := by
        intro v t
        rw [hack]
        split_ifs with hvt
        · rw [hvt.2, unacked]; exact Nat.zero_le _
        · exact le_rfl }
  have same := h.past_ack hack
  have carried : ∀ v ∈ V, Carries g.toBook v (g.term c) (g.term c) (g.log c) := by
    intro v hv T i hT hi hfresh hheld
    refine hwin.carries v hv T i hT hi hfresh fun t hTt htc hled => ?_
    rcases Nat.lt_or_ge t (g.term c) with hlt | hge
    · exact hheld t hTt hlt hled
    · have : t = g.term c := by omega
      exact absurd (this ▸ hnone) hled
  refine ⟨⟨hx, fun _ => le_rfl, fun _ => le_rfl⟩, ?_, fun n => ?_⟩
  · exact { hl with
      ballot_sound := fun t d b hb => hx.sound (hl.ballot_sound t d b hb)
      ballot_known := fun t d b hb =>
        ⟨(hl.ballot_known t d b hb).1, hx.certified (hl.ballot_known t d b hb).2⟩
      leader_ballot := by
        intro t d hd
        rw [hleader] at hd
        rw [hopening, hopeningKnown]
        split_ifs at hd ⊢ with ht
        · obtain rfl := Option.some.inj hd
          exact ht ▸ ballot
        · exact hl.leader_ballot t d hd
      leader_votes := by
        intro t d hd
        rw [hleader] at hd
        rw [hopening, hopeningKnown]
        split_ifs at hd ⊢ with ht
        · obtain rfl := Option.some.inj hd
          subst ht
          exact ⟨V, quorum, fun v hv =>
            ⟨votes v hv, hx.carries hl (same v _ c (votes v hv)) (carried v hv)⟩⟩
        · exact hx.elected hl same hd
      leader_pending := by
        intro t hled
        rw [hleader] at hled
        rw [hopening, hopeningKnown]
        split_ifs at hled ⊢ with ht
        · exact pending
        · exact hl.leader_pending t hled
      leader_ack := by
        intro t d hd
        rw [hleader] at hd
        rw [hack, hhist]
        by_cases ht : t = g.term c
        · rw [if_pos ht] at hd
          obtain rfl := Option.some.inj hd
          simp [ht]
        · rw [if_neg ht] at hd
          simp only [ht, and_false, if_false]
          exact hl.leader_ack t d hd
      unled := by
        intro t hled
        rw [hleader] at hled
        rw [hhist]
        split_ifs at hled ⊢ with ht
        exact hl.unled t hled
      opening_prefix := by
        intro t hled
        rw [hleader] at hled
        rw [hopening, hhist]
        split_ifs at hled ⊢ with ht
        · exact List.prefix_refl _
        · exact hl.opening_prefix t hled
      history_new := by
        intro t p e hled hp hlen
        rw [hleader] at hled
        rw [hopening] at hlen
        rw [hhist] at hp
        split_ifs at hled hp hlen with ht
        · have := hp.length_le
          simp at this
          omega
        · exact hl.history_new t p e hled hp hlen
      history_sound := (forall_update_iff _ fun _ l => Sound S _ l).mpr
        ⟨hx.sound hc.log_sound, fun t _ => hx.sound (hl.history_sound t)⟩
      history_chained := (forall_update_iff _ fun _ l => S.Chained l).mpr
        ⟨hl.sound_chained hc.log_sound, fun t _ => hl.history_chained t⟩
      ack_le := by
        intro v t
        rw [hack, hhist]
        split_ifs with hvt ht ht
        · exact le_rfl
        · exact absurd hvt.2 ht
        · rw [ht, unacked]; exact Nat.zero_le _
        · exact hl.ack_le v t
      vote_carries := fun v t d b hv hb => hx.carries hl (same v t d hv) (hl.vote_carries v t d b hv hb)
      records_ok := fun r older hr => hx.recordOk (hl.records_ok r older hr)
      complete := by
        intro r hr t hrt hled
        obtain ⟨_, _, hok⟩ := hl.record_ok hr
        rw [hx.settled hok.bound]
        rw [hleader] at hled
        rw [hopening]
        split_ifs at hled ⊢ with ht
        · exact hl.winner_complete self hwin hr (ht ▸ hrt)
        · exact hl.complete r hr t hrt hled }
  · by_cases hn : n = c
    · subst hn
      exact
        { vote_le := hc.vote_le
          ack_term := h.ack_term_of hack
          log_le := hc.log_le
          log_sound := hx.sound hc.log_sound
          known_le := hc.known_le
          known_certified := hx.certified hc.known_certified
          leader_log := by
            intro _
            exact (if_pos rfl).symm
          retain := by
            intro T i hi hheld
            by_cases hT : T = g.term n
            · rw [hhist, if_pos hT]
              exact List.take_prefix _ _
            · rw [hack, if_neg (fun hvt => hT hvt.2)] at hi
              have hbound := hi.trans (hl.ack_le n T)
              rw [hx.take_history hbound] at hheld ⊢
              exact hc.retain T i hi (hx.heldBetween hheld) }
    · exact (untouched_elect hn).nodeOk hx hl (h.node n)

end BookActions

theorem Step.keeps (self : ∀ k, S.Overlap k k) {g g' : Chronicle N E} (h : Inv S g)
    (step : Step S g g') : g.Extends g' ∧ Inv S g' := by
  cases step with
  | observe n t later => exact inv_observe h later
  | campaign n t later => exact inv_campaign h later
  | grant v c b free ballot fresh => exact inv_grant h free ballot fresh
  | elect c V first wins => exact inv_elect self h first wins
  | append c e leads term chained => exact inv_append h leads term chained
  | accept n m l follows bound replaces keeps => exact inv_accept h follows bound replaces keeps
  | install n p l follows certified ahead replaces =>
    exact inv_install h follows certified ahead replaces
  | settle r ok own => exact inv_settle self h ok own
  | learn n k ahead bound certified => exact inv_learn h ahead bound certified

def Steps (S : Scheme N E K) : Chronicle N E → Chronicle N E → Prop :=
  Relation.ReflTransGen (Step S)

end Replication
