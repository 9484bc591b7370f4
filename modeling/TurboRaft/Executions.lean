import Mathlib.Data.List.GetD
import Mathlib.Data.Nat.Basic
import Mathlib.Logic.Relation
import Mathlib.Tactic.Choose

/-! # Executions of a deterministic step function

An event is enabled when the step function returns a state. Invariants and simulations
are proved once for single steps and lifted here to whole executions. -/
namespace Executions

variable {σ ε γ : Type*}

structure StepSystem (σ ε : Type*) where
  init : σ
  step : σ → ε → Option σ

/-- A finite execution; states and events beyond its length carry no meaning. -/
structure Execution (S : StepSystem σ ε) where
  length : ℕ
  state : ℕ → σ
  event : ℕ → ε
  initial : state 0 = S.init
  transition : ∀ k, k < length → S.step (state k) (event k) = some (state (k + 1))

variable {S : StepSystem σ ε}

/-- Every step of the execution satisfies a condition on the state before it. -/
def Execution.Meets (run : Execution S) (condition : σ → ε → Prop) : Prop :=
  ∀ k, k < run.length → condition (run.state k) (run.event k)

theorem Execution.Meets.and {run : Execution S} {p q : σ → ε → Prop} (hp : run.Meets p)
    (hq : run.Meets q) : run.Meets (fun s e => p s e ∧ q s e) :=
  fun k hk => ⟨hp k hk, hq k hk⟩

theorem Execution.Meets.imp {run : Execution S} {p q : σ → ε → Prop} (hp : run.Meets p)
    (h : ∀ s e, p s e → q s e) : run.Meets q :=
  fun k hk => h _ _ (hp k hk)

/-- What holds initially and is kept by every admitted step holds throughout. -/
theorem Execution.invariant (run : Execution S) {condition : σ → ε → Prop}
    (meets : run.Meets condition) (P : σ → Prop) (base : P S.init)
    (keep : ∀ s e s', P s → condition s e → S.step s e = some s' → P s') :
    ∀ k, k ≤ run.length → P (run.state k) := by
  intro k
  induction k with
  | zero => intro _; rw [run.initial]; exact base
  | succ k ih =>
    intro hk
    exact keep _ _ _ (ih (by omega)) (meets k (by omega)) (run.transition k (by omega))

def Execution.Stays (run : Execution S) (p : σ → Prop) : Prop :=
  ∀ k, k ≤ run.length → p (run.state k)

/-- A relation that every step extends from some start to the end carries over spans. -/
theorem Execution.span (run : Execution S) (R : ℕ → ℕ → Prop) (refl : ∀ k, R k k)
    (trans : ∀ a b c, R a b → R b c → R a c) (step : ∀ k, k < run.length → R k (k + 1))
    {a b : ℕ} (hab : a ≤ b) (hb : b ≤ run.length) : R a b := by
  induction b, hab using Nat.le_induction with
  | base => exact refl a
  | succ b _ ih => exact trans _ _ _ (ih (by omega)) (step b (by omega))

/-- Every step of the execution is matched by abstract steps that end in related states. -/
theorem Execution.simulation (run : Execution S) {condition : σ → ε → Prop}
    (meets : run.Meets condition) (R : σ → γ → Prop) (next : σ → γ → σ → γ → Prop) (start : γ)
    (base : R S.init start)
    (simulate : ∀ s e s' g, R s g → condition s e → S.step s e = some s' →
      ∃ g', next s g s' g' ∧ R s' g') :
    ∃ ghost : ℕ → γ, ghost 0 = start ∧ (∀ k, k ≤ run.length → R (run.state k) (ghost k)) ∧
      ∀ k, k < run.length → next (run.state k) (ghost k) (run.state (k + 1)) (ghost (k + 1)) := by
  classical
  have choice : ∀ k g, ∃ g', k < run.length → R (run.state k) g →
      next (run.state k) g (run.state (k + 1)) g' ∧ R (run.state (k + 1)) g' := by
    intro k g
    by_cases h : k < run.length ∧ R (run.state k) g
    · obtain ⟨g', hg'⟩ := simulate _ _ _ g h.2 (meets k h.1) (run.transition k h.1)
      exact ⟨g', fun _ _ => hg'⟩
    · exact ⟨g, fun hk hr => absurd ⟨hk, hr⟩ h⟩
  choose after hafter using choice
  let ghost : ℕ → γ := fun k => Nat.rec start (fun i g => after i g) k
  have related : ∀ k, k ≤ run.length → R (run.state k) (ghost k) := by
    intro k
    induction k with
    | zero => intro _; rw [run.initial]; exact base
    | succ k ih => intro hk; exact (hafter k _ (by omega) (ih (by omega))).2
  refine ⟨ghost, rfl, related, fun k hk => ?_⟩
  exact (hafter k _ hk (related k (by omega))).1

def runEvents (S : StepSystem σ ε) : σ → List ε → Option σ
  | s, [] => some s
  | s, e :: rest =>
    match S.step s e with
    | none => none
    | some s' => runEvents S s' rest

theorem runEvents_append (s : σ) (xs ys : List ε) :
    runEvents S s (xs ++ ys) = (runEvents S s xs).bind (fun s' => runEvents S s' ys) := by
  induction xs generalizing s with
  | nil => rfl
  | cons x xs ih =>
    simp only [List.cons_append, runEvents]
    cases S.step s x with
    | none => rfl
    | some s' => exact ih s'

/-- Every event of the list satisfies the condition in the state it happens in. -/
def meetsAlong (S : StepSystem σ ε) (condition : σ → ε → Bool) : σ → List ε → Bool
  | _, [] => true
  | s, e :: rest =>
    condition s e && match S.step s e with
      | none => false
      | some s' => meetsAlong S condition s' rest

theorem meetsAlong_at {condition : σ → ε → Bool} {s : σ} {events : List ε}
    (h : meetsAlong S condition s events = true) {k : ℕ} {s' : σ} {e : ε}
    (hstate : runEvents S s (events.take k) = some s') (hevent : events[k]? = some e) :
    condition s' e = true := by
  induction events generalizing s k with
  | nil => simp at hevent
  | cons first rest ih =>
    simp only [meetsAlong, Bool.and_eq_true] at h
    cases k with
    | zero =>
      simp only [List.take_zero, runEvents, Option.some.injEq] at hstate
      simp only [List.getElem?_cons_zero, Option.some.injEq] at hevent
      rw [← hstate, ← hevent]
      exact h.1
    | succ k =>
      simp only [List.take_succ_cons, runEvents] at hstate
      rw [List.getElem?_cons_succ] at hevent
      cases hstep : S.step s first with
      | none => simp [hstep] at hstate
      | some mid =>
        simp only [hstep] at h hstate
        exact ih h.2 hstate hevent

variable {events : List ε}

theorem runEvents_take (h : (runEvents S S.init events).isSome = true) (k : ℕ) :
    runEvents S S.init (events.take k) =
      some ((runEvents S S.init (events.take k)).getD S.init) := by
  rw [← List.take_append_drop k events, runEvents_append] at h
  cases hs : runEvents S S.init (events.take k) with
  | none => simp [hs] at h
  | some s => rfl

variable [Inhabited ε]

/-- A list of enabled events is an execution whose states are those of its prefixes. -/
def Execution.ofEvents (S : StepSystem σ ε) (events : List ε)
    (enabled : (runEvents S S.init events).isSome = true) : Execution S where
  length := events.length
  state k := (runEvents S S.init (events.take k)).getD S.init
  event k := events.getD k default
  initial := by simp [runEvents]
  transition k hk := by
    have split := runEvents_take enabled (k + 1)
    rw [List.take_add_one, runEvents_append, runEvents_take enabled k, Option.bind_some,
      List.getElem?_eq_getElem hk] at split
    simp only [Option.toList_some, runEvents] at split
    rw [List.getD_eq_getElem _ _ hk, List.take_add_one, runEvents_append,
      runEvents_take enabled k, Option.bind_some, List.getElem?_eq_getElem hk]
    simp only [Option.toList_some, runEvents, Option.getD_some]
    cases hs : S.step ((runEvents S S.init (events.take k)).getD S.init) events[k] with
    | none => simp [hs] at split
    | some s' => rfl

theorem Execution.ofEvents_meets (enabled : (runEvents S S.init events).isSome = true)
    {condition : σ → ε → Bool} (h : meetsAlong S condition S.init events = true) :
    (Execution.ofEvents S events enabled).Meets fun s e => condition s e = true := by
  intro k hk
  have hlt : k < events.length := hk
  apply meetsAlong_at h (runEvents_take enabled k)
  change events[k]? = some (events.getD k default)
  rw [List.getElem?_eq_getElem hlt, List.getD_eq_getElem _ _ hlt]

theorem Execution.ofEvents_forall (enabled : (runEvents S S.init events).isSome = true)
    {p : ε → Prop} (h : ∀ e ∈ events, p e) :
    (Execution.ofEvents S events enabled).Meets fun _ e => p e := by
  intro k hk
  have hlt : k < events.length := hk
  change p (events.getD k default)
  rw [List.getD_eq_getElem _ _ hlt]
  exact h _ (List.getElem_mem hlt)

theorem Execution.ofEvents_stays (enabled : (runEvents S S.init events).isSome = true)
    {p : σ → Prop} [DecidablePred p] (hinit : p S.init)
    (h : meetsAlong S (fun s e => (S.step s e).all (decide <| p ·)) S.init events = true) :
    (Execution.ofEvents S events enabled).Stays p := by
  refine Execution.invariant _ (Execution.ofEvents_meets enabled h) p hinit ?_
  intro s e s' _ hmeets hstep
  rw [hstep] at hmeets
  exact of_decide_eq_true hmeets

end Executions
