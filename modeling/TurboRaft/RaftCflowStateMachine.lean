import TurboRaft.Executions
import TurboRaft.RaftApplyRuntime

/-! # The CFlow state machine adapter

One caller admits entries to a statechart and polls for their settlements, while the statechart
calls the settlement hook from threads of its own. Every critical section of the adapter is one
step, so a run is an interleaving of the caller with the hook. -/
namespace RaftCflowStateMachine

open RaftTypes RaftApplyRuntime Executions

inductive InstanceStatus where
  | ok | allocationFailed | internalQueueFull | completionQueueFull | effectJournalFull
  | executorFull | limitExceeded | executorClosed | taskCancelled | invalidArgument
  | bindingMismatch | unsupportedType | invalidConfiguration | internalEventInvalid
  | internalEventTypeMismatch | microstepLimitExceeded | guardFailed | actionFailed | hookFailed
  | wouldBlock
  deriving DecidableEq, Repr

def cflowStatusToError : InstanceStatus → Status
  | .ok => .ok
  | .allocationFailed => .enomem
  | .internalQueueFull | .completionQueueFull | .effectJournalFull | .executorFull
  | .limitExceeded => .enobufs
  | .executorClosed => .eshutdown
  | .taskCancelled => .ecanceled
  | .invalidArgument | .bindingMismatch | .unsupportedType | .invalidConfiguration
  | .internalEventInvalid | .internalEventTypeMismatch | .microstepLimitExceeded => .eproto
  | .guardFailed | .actionFailed | .hookFailed | .wouldBlock => .eio

inductive SettledKind where
  | completed | dropped | cancelled | failed | other
  deriving DecidableEq, Repr

inductive MailboxStatus where
  | ok | full | closed | cancelled | allocationFailed | other
  deriving DecidableEq, Repr

structure Adapter where
  settlement : ApplySettlement
  expectedToken : ℕ
  inFlight : Bool
  settlementReady : Bool
  protocolFault : Bool
  deriving DecidableEq, Repr

def noSettlement : ApplySettlement := { token := 0, outcome := .invalid, cause := .ok }

def settledAs (kind : SettledKind) (status : InstanceStatus) : ApplyOutcome × Status :=
  match kind with
  | .completed => (.applied, .ok)
  | .dropped => (.pending, .ok)
  | .cancelled => (.unknown, .ecanceled)
  | .failed => (.unknown, cflowStatusToError status)
  | .other => (.unknown, .eproto)

def onSettlement (a : Adapter) (token : ℕ) (kind : SettledKind) (status : InstanceStatus) :
    Adapter :=
  if !a.inFlight || a.settlementReady || token != a.expectedToken then
    { a with protocolFault := true }
  else
    let (outcome, cause) := settledAs kind status
    { a with settlement := { token, outcome, cause }, settlementReady := true }

/-- The check that `try_apply` makes twice, before and after it decodes the entry; `bound` says
that there is an instance which has not been shut down. -/
def admissionRefused (a : Adapter) (bound : Bool) : Option (ApplyAdmission × Status) :=
  if !bound then some (.closed, .eshutdown)
  else if a.protocolFault || a.inFlight || a.settlementReady then some (.failed, .eproto)
  else none

def undoAdmission (a : Adapter) : Adapter :=
  if a.settlementReady then { a with protocolFault := true }
  else { a with expectedToken := 0, inFlight := false }

def mailboxAnswer : MailboxStatus → ApplyAdmission × Status
  | .ok => (.accepted, .ok)
  | .full => (.full, .enobufs)
  | .closed => (.closed, .eshutdown)
  | .cancelled => (.closed, .ecanceled)
  | .allocationFailed => (.failed, .enomem)
  | .other => (.failed, .einval)

def pollSettlement (a : Adapter) : (Status × Option ApplySettlement) × Adapter :=
  if a.protocolFault then ((.eproto, none), a)
  else if a.settlementReady then
    ((.ok, some a.settlement), { a with
      settlementReady := false
      inFlight := false
      expectedToken := 0
      settlement := noSettlement })
  else ((.ok, none), a)

inductive Caller where
  | idle
  | decoding (token : ℕ)
  | sending (token : ℕ)
  | returning (token : ℕ) (status : MailboxStatus)
  deriving DecidableEq, Repr

/-- `owed` are the events that the statechart has accepted and not yet settled; `answers` and
`polled` are what the caller was told. -/
structure World where
  adapter : Adapter
  caller : Caller
  owed : List ℕ
  answers : List (ℕ × ApplyAdmission × Status)
  polled : List ApplySettlement
  deriving DecidableEq, Repr

/-- `reserve` comes with the answer of the decoder and whether its event can be sent. -/
inductive Event where
  | tryApply (token : ℕ) (bound : Bool)
  | reserve (decoded : Status) (usable bound : Bool)
  | send (status : MailboxStatus)
  | leave
  | poll
  | hook (token : ℕ) (kind : SettledKind) (status : InstanceStatus)
  deriving DecidableEq, Repr, Inhabited

def World.answer (w : World) (token : ℕ) (answer : ApplyAdmission × Status) : World :=
  { w with caller := .idle, answers := w.answers ++ [(token, answer)] }

def accepted (w : World) : List ℕ :=
  (w.answers.filter fun answer => answer.2.1 == .accepted).map Prod.fst

def outstanding (w : World) : Bool := (accepted w).length != w.polled.length

/-- The caller waits for the settlement of an accepted token before it tries another one, and the
hook is called once for an accepted event and never for another one. -/
def cflowStep (w : World) (e : Event) : Option World :=
  match e, w.caller with
  | .tryApply token bound, .idle =>
    if outstanding w then none
    else if token == 0 then some (w.answer token (.failed, .einval))
    else
      match admissionRefused w.adapter bound with
      | some answer => some (w.answer token answer)
      | none => some { w with caller := .decoding token }
  | .reserve decoded usable bound, .decoding token =>
    if decoded != .ok || !usable then
      some (w.answer token (.failed, if decoded == .ok then .einval else decoded))
    else
      match admissionRefused w.adapter bound with
      | some answer => some (w.answer token answer)
      | none => some { w with
          adapter := { w.adapter with expectedToken := token, inFlight := true }
          caller := .sending token }
  | .send status, .sending token =>
    some { w with
      caller := .returning token status
      owed := if status == .ok then w.owed ++ [token] else w.owed }
  | .leave, .returning token status =>
    let adapter := if status == .ok then w.adapter else undoAdmission w.adapter
    some ({ w with adapter }.answer token (mailboxAnswer status))
  | .poll, .idle =>
    let ((_, settlement), adapter) := pollSettlement w.adapter
    some { w with adapter, polled := w.polled ++ settlement.toList }
  | .hook token kind status, _ =>
    if w.owed.contains token then
      some { w with
        adapter := onSettlement w.adapter token kind status
        owed := w.owed.erase token }
    else none
  | _, _ => none

def cflowSystem : StepSystem World Event where
  init := ⟨⟨noSettlement, 0, false, false, false⟩, .idle, [], [], []⟩
  step := cflowStep

variable {w w' : World} {token : ℕ}

def Settled (w : World) : Prop := accepted w = w.polled.map ApplySettlement.token

/-- Nothing is with the statechart; a caller that is about to send has reserved its token. -/
def Free (w : World) (reserved : Option ℕ) : Prop :=
  w.adapter.inFlight = reserved.isSome ∧ w.adapter.settlementReady = false ∧ w.owed = [] ∧
    ∀ token ∈ reserved, w.adapter.expectedToken = token

def Held (w : World) (token : ℕ) : Prop :=
  w.adapter.inFlight = true ∧ w.adapter.expectedToken = token ∧
    ((w.adapter.settlementReady = false ∧ w.owed = [token]) ∨
      (w.adapter.settlementReady = true ∧ w.owed = [] ∧ w.adapter.settlement.token = token))

def reserved : Caller → Option ℕ
  | .sending token | .returning token _ => some token
  | _ => none

inductive Stage (w : World) : Prop where
  | free (settled : Settled w) (free : Free w (reserved w.caller))
      (unsent : ∀ token, w.caller ≠ .returning token .ok) : Stage w
  | sent {token : ℕ} (caller : w.caller = .returning token .ok) (settled : Settled w)
      (held : Held w token) : Stage w
  | opened {token : ℕ} (caller : w.caller = .idle)
      (opened : accepted w = w.polled.map ApplySettlement.token ++ [token])
      (last : ∃ answer ∈ w.answers.getLast?, answer.2.1 = .accepted) (held : Held w token) : Stage w

structure Sound (w : World) : Prop where
  clean : w.adapter.protocolFault = false
  stage : Stage w

theorem accepted_answer (token : ℕ) (answer : ApplyAdmission × Status) :
    accepted (w.answer token answer) =
      accepted w ++ if answer.1 = .accepted then [token] else [] := by
  by_cases h : answer.1 = .accepted <;> simp [accepted, World.answer, List.filter_append, h]

/-- A caller that has not sent anything yet finds the adapter free. -/
theorem Sound.unsent (h : Sound w) (hidle : w.caller = .idle → outstanding w = false)
    (hcaller : ∀ token, w.caller ≠ .returning token .ok) :
    Settled w ∧ Free w (reserved w.caller) := by
  cases h.stage with
  | free hsettled hfree _ => exact ⟨hsettled, hfree⟩
  | sent hsent _ _ => exact absurd hsent (hcaller _)
  | opened hcaller hopened _ _ => simp [outstanding, hopened] at hidle; exact absurd hcaller hidle

section Refusals

variable (hclean : w.adapter.protocolFault = false) (hsettled : Settled w) (hfree : Free w none)

include hclean hsettled hfree

theorem sound_refused (token : ℕ) {answer : ApplyAdmission × Status}
    (hanswer : answer.1 ≠ .accepted) : Sound (w.answer token answer) := by
  refine ⟨hclean, .free ?_ hfree fun _ => Caller.noConfusion⟩
  unfold Settled
  rw [accepted_answer, if_neg hanswer, List.append_nil]
  exact hsettled

theorem sound_checked {next : World} {bound : Bool}
    (hstep : (match admissionRefused w.adapter bound with
      | some answer => some (w.answer token answer)
      | none => some next) = some w') (hnext : Sound next) : Sound w' := by
  cases hrefused : admissionRefused w.adapter bound with
  | none =>
    rw [hrefused] at hstep
    cases hstep
    exact hnext
  | some answer =>
    rw [hrefused] at hstep
    cases hstep
    refine sound_refused hclean hsettled hfree token ?_
    unfold admissionRefused at hrefused
    split_ifs at hrefused <;> cases hrefused <;> exact ApplyAdmission.noConfusion

end Refusals

theorem Held.settle {other : ℕ} (h : Held w token) (howed : w.owed.contains other = true)
    (kind : SettledKind) (status : InstanceStatus) :
    (onSettlement w.adapter other kind status).protocolFault = w.adapter.protocolFault ∧
      Held { w with
        adapter := onSettlement w.adapter other kind status
        owed := w.owed.erase other } token := by
  obtain ⟨hflight, hexpected, ⟨hunready, hlist⟩ | ⟨_, hlist, _⟩⟩ := h
  · obtain rfl : other = token := by simpa [hlist] using howed
    simp [onSettlement, Held, hflight, hunready, hexpected, hlist]
  · simp [hlist] at howed

theorem Free.poll {reserved : Option ℕ} (h : Free w reserved)
    (hclean : w.adapter.protocolFault = false) :
    pollSettlement w.adapter = ((.ok, none), w.adapter) := by
  simp [pollSettlement, hclean, h.2.1]

theorem Held.poll (h : Held w token) (hclean : w.adapter.protocolFault = false) :
    (pollSettlement w.adapter = ((.ok, none), w.adapter) ∧ w.owed = [token]) ∨
      ∃ s a, pollSettlement w.adapter = ((.ok, some s), a) ∧ s.token = token ∧
        Free { w with adapter := a } none ∧ a.protocolFault = false := by
  obtain ⟨_, _, ⟨hunready, hlist⟩ | ⟨hready, hlist, htoken⟩⟩ := h
  · simp [pollSettlement, hclean, hunready, hlist]
  · right
    simp only [pollSettlement, hclean, hready, Bool.false_eq_true, if_false, if_true]
    exact ⟨_, _, rfl, htoken, ⟨rfl, rfl, hlist, by simp⟩, rfl⟩

theorem Sound.step (h : Sound w) {e : Event} (hstep : cflowStep w e = some w') : Sound w' := by
  have hclean := h.clean
  unfold cflowStep at hstep
  split at hstep
  case h_1 token _ hcaller =>
    split_ifs at hstep with hopen hzero
    all_goals
      obtain ⟨hsettled, hfree⟩ := h.unsent (fun _ => by simpa using hopen) (by simp [hcaller])
      rw [hcaller] at hfree
    · cases hstep
      exact sound_refused hclean hsettled hfree token ApplyAdmission.noConfusion
    · exact sound_checked hclean hsettled hfree hstep
        ⟨hclean, .free hsettled hfree fun _ => Caller.noConfusion⟩
  case h_2 decoded usable _ token hcaller =>
    obtain ⟨hsettled, hfree⟩ := h.unsent (by simp [hcaller]) (by simp [hcaller])
    rw [hcaller] at hfree
    by_cases hundecoded : (decoded != .ok || !usable) = true
    · rw [if_pos hundecoded] at hstep
      cases hstep
      exact sound_refused hclean hsettled hfree token ApplyAdmission.noConfusion
    · rw [if_neg hundecoded] at hstep
      refine sound_checked hclean hsettled hfree hstep
        ⟨hclean, .free hsettled ?_ fun _ => Caller.noConfusion⟩
      exact ⟨rfl, hfree.2.1, hfree.2.2.1, by simp [reserved]⟩
  case h_3 status token hcaller =>
    obtain ⟨hsettled, hflight, hready, howed, hexpected⟩ :=
      h.unsent (by simp [hcaller]) (by simp [hcaller])
    simp only [hcaller, reserved, Option.isSome_some] at hflight hexpected
    cases hstep
    by_cases hok : status = .ok
    · subst hok
      exact ⟨hclean, .sent rfl hsettled
        ⟨hflight, hexpected token rfl, Or.inl ⟨hready, by simp [howed]⟩⟩⟩
    · exact ⟨hclean, .free hsettled ⟨hflight, hready, by simp [hok, howed], hexpected⟩
        fun _ heq => hok (Caller.returning.inj heq).2⟩
  case h_4 token status hcaller =>
    cases hstep
    by_cases hok : status = .ok
    · subst hok
      cases h.stage with
      | free _ _ hunsent => exact absurd hcaller (hunsent token)
      | opened hidle _ _ _ => simp [hcaller] at hidle
      | sent hsent hsettled hheld =>
        obtain rfl := (Caller.returning.inj (hcaller.symm.trans hsent)).1
        refine ⟨hclean, .opened rfl ?_ ⟨_, List.getLast?_concat, rfl⟩ hheld⟩
        rw [accepted_answer]
        exact congrArg (· ++ [token]) hsettled
    · obtain ⟨hsettled, _, hready, howed, _⟩ :=
        h.unsent (by simp [hcaller]) (by simpa [hcaller] using hok)
      let undone : World :=
        { w with adapter := { w.adapter with expectedToken := 0, inFlight := false } }
      have hundone : undoAdmission w.adapter = undone.adapter := by
        simp [undone, undoAdmission, hready]
      simp only [beq_iff_eq, hok, if_false, hundone]
      refine sound_refused (w := undone) hclean hsettled ⟨rfl, hready, howed, by simp⟩ token ?_
      cases status with
      | ok => exact absurd rfl hok
      | _ => exact ApplyAdmission.noConfusion
  case h_5 hcaller =>
    cases h.stage with
    | free hsettled hfree hunsent =>
      simp only [hfree.poll hclean, Option.toList_none, List.append_nil] at hstep
      cases hstep
      exact h
    | sent hsent _ _ => simp [hcaller] at hsent
    | opened hidle hopened hlast hheld =>
      obtain ⟨hpoll, _⟩ | ⟨s, a, hpoll, rfl, hfree, hkept⟩ := hheld.poll hclean
      · simp only [hpoll, Option.toList_none, List.append_nil] at hstep
        cases hstep
        exact h
      · simp only [hpoll, Option.toList_some] at hstep
        cases hstep
        refine ⟨hkept, .free ?_ (hcaller ▸ hfree) (by simp [hcaller])⟩
        rw [Settled, List.map_append]
        exact hopened
  case h_6 _ token kind status =>
    split_ifs at hstep with howed
    cases hstep
    cases h.stage with
    | free _ hfree _ => simp [hfree.2.2.1] at howed
    | sent hsent hsettled hheld =>
      obtain ⟨hsame, hnew⟩ := hheld.settle howed kind status
      exact ⟨hsame.trans hclean, .sent hsent hsettled hnew⟩
    | opened hidle hopened hlast hheld =>
      obtain ⟨hsame, hnew⟩ := hheld.settle howed kind status
      exact ⟨hsame.trans hclean, .opened hidle hopened hlast hnew⟩
  case h_7 => cases hstep

def admits (token : ℕ) : List Event :=
  [.tryApply token true, .reserve .ok true true, .send .ok, .leave]

theorem settled_exactly_once (run : Execution cflowSystem) (k : ℕ) (hk : k ≤ run.length) :
    let w := run.state k
    w.adapter.protocolFault = false ∧
      (∃ rest, accepted w = w.polled.map ApplySettlement.token ++ rest ∧ rest.length ≤ 1 ∧
        (w.caller = .idle → (rest = [] → (pollSettlement w.adapter).1 = (.ok, none)) ∧
          ∀ token ∈ rest, ((pollSettlement w.adapter).1 = (.ok, none) ∧ token ∈ w.owed) ∨
            ∃ s, (pollSettlement w.adapter).1 = (.ok, some s) ∧ s.token = token)) ∧
      ((∀ answer ∈ w.answers.getLast?, answer.2.1 ≠ .accepted) → w.caller = .idle →
        outstanding w = false) ∧
      (w.caller = .idle → outstanding w = false → ∀ token, token ≠ 0 →
        (runEvents cflowSystem w (admits token)).map World.answers =
          some (w.answers ++ [(token, .accepted, .ok)])) := by
  have hinit : Sound cflowSystem.init :=
    ⟨rfl, .free rfl ⟨rfl, rfl, rfl, by simp [reserved, cflowSystem]⟩
      fun _ => Caller.noConfusion⟩
  have hany : run.Meets fun _ _ => True := fun _ _ => trivial
  have hsound := run.invariant hany Sound hinit (fun _ _ _ h _ hstep => h.step hstep) k hk
  generalize run.state k = w at hsound
  dsimp only
  have hclean := hsound.clean
  refine ⟨hclean, ?_, ?_, ?_⟩
  · cases hsound.stage with
    | free hsettled hfree _ =>
      refine ⟨[], by rw [hsettled, List.append_nil], by simp, fun _ => ⟨fun _ => ?_, by simp⟩⟩
      rw [hfree.poll hclean]
    | sent hsent hsettled _ =>
      exact ⟨[], by rw [hsettled, List.append_nil], by simp, fun hidle => by simp [hsent] at hidle⟩
    | @opened token _ hopened _ hheld =>
      refine ⟨[token], hopened, le_rfl, fun _ => ⟨by simp, fun other hother => ?_⟩⟩
      obtain rfl := List.mem_singleton.mp hother
      obtain ⟨hpoll, howed⟩ | ⟨s, a, hpoll, htoken, _⟩ := hheld.poll hclean
      · exact Or.inl ⟨by rw [hpoll], by simp [howed]⟩
      · exact Or.inr ⟨s, by rw [hpoll], htoken⟩
  · intro hlast hidle
    cases hsound.stage with
    | free hsettled _ _ => simp [outstanding, show accepted w = _ from hsettled]
    | sent hsent _ _ => simp [hsent] at hidle
    | opened _ _ hopened _ =>
      obtain ⟨answer, hanswer, haccepted⟩ := hopened
      exact absurd haccepted (hlast answer hanswer)
  · intro hidle hnone token htoken
    obtain ⟨_, hflight, hready, _⟩ := hsound.unsent (fun _ => hnone) (by simp [hidle])
    simp only [hidle, reserved, Option.isSome_none] at hflight
    have hadmitted : admissionRefused w.adapter true = none := by
      simp [admissionRefused, hclean, hflight, hready]
    simp [admits, runEvents, cflowSystem, cflowStep, hidle, hnone, htoken, hadmitted, World.answer,
      mailboxAnswer]

def earlyHook : List Event :=
  [.tryApply 7 true, .reserve .ok true true, .send .ok, .hook 7 .completed .ok, .leave, .poll]

theorem early_hook_settled :
    let run := Execution.ofEvents cflowSystem earlyHook (by decide)
    (run.state 6).polled = [{ token := 7, outcome := .applied, cause := .ok }] ∧
      (run.state 6).adapter.protocolFault = false :=
  ⟨by decide, (settled_exactly_once _ 6 le_rfl).1⟩

end RaftCflowStateMachine
