import Mathlib.Data.List.Infix
import Mathlib.Data.Set.Basic

/-! # Logs that carry their own configuration

Some entries of a replicated log name a configuration, and the last one named by a
prefix is in force after it. When neighbouring configurations have overlapping quorums,
so have any two prefixes of one log whose numbers of configurations differ by at most one. -/
namespace ConfiguredLog

/-- Terms and configurations of entries, and the quorums of a configuration. -/
structure Scheme (N E K : Type*) where
  termOf : E → ℕ
  confOf : E → Option K
  initial : K
  quorum : K → Set N → Prop

variable {N E K : Type*} (S : Scheme N E K)

def Scheme.confs (l : List E) : List K := l.filterMap S.confOf

def Scheme.confCount (l : List E) : ℕ := (S.confs l).length

def Scheme.conf (l : List E) : K := (S.confs l).getLast?.getD S.initial

def Scheme.Overlap (a b : K) : Prop :=
  ∀ P Q : Set N, S.quorum a P → S.quorum b Q → ∃ v, v ∈ P ∧ v ∈ Q

/-- Each configuration of the log overlaps with the one in force before it. -/
def Scheme.Chained (l : List E) : Prop :=
  ∀ p e k, p ++ [e] <+: l → S.confOf e = some k → S.Overlap (S.conf p) k

variable {S}

theorem take_eq_of_longer {α : Type*} {a b : List α} (h : a <+: b) {i : ℕ} (hi : i ≤ a.length) :
    b.take i = a.take i := by
  obtain ⟨c, rfl⟩ := h
  exact List.take_append_of_le_length hi

theorem overlap_symm {a b : K} (h : S.Overlap a b) : S.Overlap b a := by
  intro P Q hP hQ
  obtain ⟨v, hv⟩ := h Q P hQ hP
  exact ⟨v, hv.2, hv.1⟩

@[simp] theorem confs_append (p q : List E) : S.confs (p ++ q) = S.confs p ++ S.confs q :=
  List.filterMap_append

@[simp] theorem confCount_append (p q : List E) :
    S.confCount (p ++ q) = S.confCount p + S.confCount q := by
  simp [Scheme.confCount]

theorem confCount_mono {p l : List E} (h : p <+: l) : S.confCount p ≤ S.confCount l := by
  obtain ⟨q, rfl⟩ := h
  simp

theorem conf_append (p q : List E) : S.conf (p ++ q) = ((S.confs q).getLast?).getD (S.conf p) := by
  cases hq : (S.confs q).getLast? with
  | none | some k => simp [Scheme.conf, hq]

theorem conf_append_of_confs_nil {p q : List E} (h : S.confs q = []) :
    S.conf (p ++ q) = S.conf p := by
  simp [Scheme.conf, h]

theorem conf_append_of_confs_single {p q : List E} {k : K} (h : S.confs q = [k]) :
    S.conf (p ++ q) = k := by
  simp [Scheme.conf, h]

theorem conf_eq_of_confCount {p l : List E} (h : p <+: l)
    (hc : S.confCount p = S.confCount l) : S.conf p = S.conf l := by
  obtain ⟨q, rfl⟩ := h
  have hq : S.confs q = [] := by
    rw [confCount_append] at hc
    exact List.length_eq_zero_iff.mp (by unfold Scheme.confCount at hc; omega)
  exact (conf_append_of_confs_nil hq).symm

theorem chained_shorten {p l : List E} (h : S.Chained l) (hp : p <+: l) : S.Chained p :=
  fun a e k hae he => h a e k (hae.trans hp) he

theorem overlap_of_confCount_succ {p l : List E} (hl : S.Chained l) (h : p <+: l)
    (hc : S.confCount l = S.confCount p + 1) : S.Overlap (S.conf p) (S.conf l) := by
  obtain ⟨q, rfl⟩ := h
  have hq : (S.confs q).length = 1 := by
    rw [confCount_append] at hc
    unfold Scheme.confCount at hc
    omega
  obtain ⟨k, hk⟩ := List.length_eq_one_iff.mp hq
  obtain ⟨before, e, after, rfl, hbefore, he, _⟩ := List.filterMap_eq_cons_iff.mp hk
  rw [conf_append_of_confs_single hk]
  have hnone : S.confs before = [] := List.filterMap_eq_nil_iff.mpr hbefore
  rw [← conf_append_of_confs_nil (p := p) hnone]
  exact hl (p ++ before) e k ⟨after, by simp⟩ he

/-- The overlap rule: at most one configuration lies between two prefixes of a log. -/
theorem overlap_of_near (self : ∀ k, S.Overlap k k) {p q l : List E} (hl : S.Chained l)
    (hp : p <+: l) (hq : q <+: l) (hpq : S.confCount p ≤ S.confCount q + 1)
    (hqp : S.confCount q ≤ S.confCount p + 1) : S.Overlap (S.conf p) (S.conf q) := by
  have ordered : ∀ a b : List E, a <+: b → b <+: l → S.confCount b ≤ S.confCount a + 1 →
      S.Overlap (S.conf a) (S.conf b) := by
    intro a b hab hbl hle
    have hmono : S.confCount a ≤ S.confCount b := confCount_mono hab
    rcases Nat.lt_or_ge (S.confCount a) (S.confCount b) with hlt | hge
    · exact overlap_of_confCount_succ (chained_shorten hl hbl) hab (by omega)
    · rw [conf_eq_of_confCount hab (by omega)]
      exact self _
  rcases List.prefix_or_prefix_of_prefix hp hq with h | h
  · exact ordered p q h hq hqp
  · exact overlap_symm (ordered q p h hp hpq)

theorem chained_nil : S.Chained [] := by
  intro p e k h _
  exact absurd (List.prefix_nil.mp h) (by simp)

/-- A chained log grows by an entry whose configuration, if any, overlaps the last one. -/
theorem chained_append_single {l : List E} {e : E} (h : S.Chained l)
    (he : ∀ k, S.confOf e = some k → S.Overlap (S.conf l) k) : S.Chained (l ++ [e]) := by
  intro p x k hp hx
  rcases List.prefix_concat_iff.mp hp with heq | hp
  · obtain ⟨rfl, hxe⟩ := List.append_inj' heq rfl
    cases hxe
    exact he k hx
  · exact h p x k hp hx

end ConfiguredLog
