import Mathlib.Data.List.Count
import Mathlib.Data.Set.Basic
import Mathlib.Tactic.Common

/-! # Majorities of a list

A set holds a majority of a list of voters when more than half of the list's positions
carry a member of the set. -/
namespace Majorities

open Classical

/-- The number of positions of `ids` whose element is in `s`. -/
noncomputable def hits {α : Type*} (ids : List α) (s : Set α) : ℕ :=
  ids.countP (fun id => decide (id ∈ s))

def IsMajority {α : Type*} (ids : List α) (s : Set α) : Prop := ids.length / 2 + 1 ≤ hits ids s

variable {α : Type*} {ids : List α} {s t : Set α}

theorem IsMajority.mono (h : IsMajority ids s) (hst : ∀ id ∈ ids, id ∈ s → id ∈ t) :
    IsMajority ids t := by
  refine h.trans (List.countP_mono_left ?_)
  intro id hid hs
  exact decide_eq_true (hst id hid (of_decide_eq_true hs))

theorem hits_add_hits_le (h : ∀ id ∈ ids, id ∈ s → id ∉ t) :
    hits ids s + hits ids t ≤ ids.length := by
  induction ids with
  | nil => simp [hits]
  | cons id rest ih =>
    have hrest := ih (fun x hx => h x (List.mem_cons_of_mem _ hx))
    have hid := h id List.mem_cons_self
    simp only [hits, List.countP_cons, List.length_cons] at hrest ⊢
    by_cases hs : id ∈ s
    · simp only [hs, hid hs, decide_true, decide_false, if_true]
      simp only [Bool.false_eq_true, if_false]
      omega
    · simp only [hs, decide_false, Bool.false_eq_true, if_false]
      split_ifs <;> omega

theorem IsMajority.meet (hs : IsMajority ids s) (ht : IsMajority ids t) :
    ∃ id ∈ ids, id ∈ s ∧ id ∈ t := by
  by_contra hno
  push Not at hno
  have := hits_add_hits_le hno
  unfold IsMajority at hs ht
  omega

/-- So do a majority of a list and one of the list without at most one of its positions. -/
theorem IsMajority.meet_sublist {fewer : List α} (hs : IsMajority ids s) (ht : IsMajority fewer t)
    (hsub : fewer.Sublist ids) (hlength : ids.length ≤ fewer.length + 1) :
    ∃ id ∈ ids, id ∈ s ∧ id ∈ t := by
  by_contra hno
  push Not at hno
  have hdisjoint := hits_add_hits_le hno
  have hfewer : hits fewer t ≤ hits ids t := hsub.countP_le
  unfold IsMajority at hs ht
  omega

/-- A single element that is a majority by itself is listed. -/
theorem IsMajority.sole {id : α} (h : IsMajority ids {id}) : id ∈ ids := by
  obtain ⟨v, hv, rfl, _⟩ := h.meet h
  exact hv

end Majorities
