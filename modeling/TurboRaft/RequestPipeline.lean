import Mathlib.Data.List.Basic
import Mathlib.Data.List.Forall2
import Mathlib.Tactic.Linarith

/-! # A counted pipeline of requests and completions

Requests wait in a queue, at most one of them is executed at a time, and completions wait to be
taken. A counter of outstanding requests, which includes unread completions, bounds both queues.
Histories of what was accepted, produced and taken stand beside the queues. -/
namespace RequestPipeline

variable {α β : Type*}

structure Pipeline (α β : Type*) where
  queued : List α
  executing : Option α
  ready : List β
  outstandingCount : ℕ
  queuedCount : ℕ
  completedCount : ℕ
  accepted : List α
  produced : List β
  taken : List β

/-- What may happen to a pipeline, with the tests that the participants make. -/
inductive Step (answers : α → β → Prop) (capacity : ℕ) : Pipeline α β → Pipeline α β → Prop
  | accept {p : Pipeline α β} (x : α) (credit : p.outstandingCount ≠ capacity) :
      Step answers capacity p
        { p with
          queued := p.queued ++ [x]
          outstandingCount := p.outstandingCount + 1
          queuedCount := p.queuedCount + 1
          accepted := p.accepted ++ [x] }
  | start {p : Pipeline α β} {x : α} {rest : List α} (idle : p.executing = none)
      (first : p.queued = x :: rest) :
      Step answers capacity p
        { p with
          queued := rest
          executing := some x
          queuedCount := p.queuedCount - 1 }
  | finish {p : Pipeline α β} (x : α) (c : β) (busy : p.executing = some x)
      (answered : answers x c) :
      Step answers capacity p
        { p with
          executing := none
          ready := p.ready ++ [c]
          completedCount := p.completedCount + 1
          produced := p.produced ++ [c] }
  | hand {p : Pipeline α β} {c : β} {rest : List β} (first : p.ready = c :: rest) :
      Step answers capacity p
        { p with
          ready := rest
          outstandingCount := p.outstandingCount - 1
          completedCount := p.completedCount - 1
          taken := p.taken ++ [c] }

structure Sound (answers : α → β → Prop) (capacity : ℕ) (p : Pipeline α β) : Prop where
  queuedCount : p.queuedCount = p.queued.length
  completedCount : p.completedCount = p.ready.length
  outstanding : p.queuedCount + p.executing.toList.length + p.completedCount = p.outstandingCount
  bounded : p.outstandingCount ≤ capacity
  order : ∃ done, p.accepted = done ++ (p.executing.toList ++ p.queued) ∧
    List.Forall₂ answers done p.produced
  handed : p.produced = p.taken ++ p.ready

variable {answers : α → β → Prop} {capacity : ℕ} {p q : Pipeline α β}

section

variable (h : Sound answers capacity p)

include h

theorem Sound.step (hstep : Step answers capacity p q) :
    Sound answers capacity q := by
  obtain ⟨hqueued, hcompleted, houtstanding, hbounded, ⟨done, haccepted, hdone⟩, hhanded⟩ := h
  cases hstep with
  | accept x credit =>
    refine ⟨?_, hcompleted, ?_, ?_, ⟨done, ?_, hdone⟩, hhanded⟩
    · simp [hqueued]
    · dsimp only
      omega
    · dsimp only
      omega
    · simp [haccepted]
  | start idle first =>
    rw [idle, Option.toList_none, List.nil_append] at haccepted
    rw [first] at hqueued
    rw [idle] at houtstanding
    refine ⟨?_, hcompleted, ?_, hbounded, ⟨done, ?_, hdone⟩, hhanded⟩
    · simp [hqueued]
    · simp only [Option.toList_none, Option.toList_some, List.length_nil,
        List.length_singleton] at houtstanding ⊢
      simp only [List.length_cons] at hqueued
      omega
    · simpa [first] using haccepted
  | finish x c busy answered =>
    rw [busy, Option.toList_some, List.singleton_append] at haccepted
    rw [busy] at houtstanding
    refine ⟨hqueued, ?_, ?_, hbounded, ⟨done ++ [x], ?_, ?_⟩, ?_⟩
    · simp [hcompleted]
    · simp only [Option.toList_none, Option.toList_some, List.length_nil,
        List.length_singleton] at houtstanding ⊢
      omega
    · simpa using haccepted
    · exact List.rel_append hdone (.cons answered .nil)
    · simp [hhanded]
  | hand first =>
    rw [first] at hcompleted hhanded
    simp only [List.length_cons] at hcompleted
    refine ⟨hqueued, ?_, ?_, ?_, ⟨done, haccepted, hdone⟩, ?_⟩
    · simp [hcompleted]
    · dsimp only
      omega
    · dsimp only
      omega
    · simpa using hhanded

theorem Sound.ready_room {x : α} (busy : p.executing = some x) :
    p.ready.length < capacity := by
  have houtstanding := h.outstanding
  have hbounded := h.bounded
  have hcompleted := h.completedCount
  rw [busy] at houtstanding
  simp only [Option.toList_some, List.length_singleton] at houtstanding
  omega

theorem Sound.queue_room (credit : p.outstandingCount ≠ capacity) :
    p.queued.length < capacity := by
  have houtstanding := h.outstanding
  have hbounded := h.bounded
  have hqueued := h.queuedCount
  omega

theorem Sound.lengths :
    p.accepted.length = p.produced.length + p.executing.toList.length + p.queued.length := by
  obtain ⟨done, haccepted, hdone⟩ := h.order
  rw [haccepted, List.length_append, List.length_append, hdone.length_eq]
  omega

/-- Nothing waits and nothing runs: every accepted request has its completion, in order. -/
theorem Sound.answered (idle : p.executing = none)
    (empty : p.queued = []) : List.Forall₂ answers p.accepted p.produced := by
  obtain ⟨done, haccepted, hdone⟩ := h.order
  rw [idle, empty, Option.toList_none, List.append_nil, List.append_nil] at haccepted
  rw [haccepted]
  exact hdone

end

theorem Step.produced_mono (hstep : Step answers capacity p q) :
    p.produced.length ≤ q.produced.length := by
  cases hstep <;> simp

theorem Step.accepted_mono (hstep : Step answers capacity p q) :
    p.accepted.length ≤ q.accepted.length := by
  cases hstep <;> simp

end RequestPipeline
