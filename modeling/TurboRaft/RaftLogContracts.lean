import TurboRaft.Executions
import TurboRaft.RaftLogReconcile

/-! # What the log promises its callers

`logReconcile` as a function of the log and the request, and what every sequence of log calls keeps.
The validation walk stops at the first entry the log does not hold, so what stands behind that
entry reaches the log unchecked. -/
namespace RaftLogContracts

open RaftTypes RaftConfiguration RaftLog RaftLogLemmas RaftLogReconcile Executions

section Reconciling

variable {log result : Log} {previous term protectedIndex : ℕ} {incoming : List Entry}
  {r : ReconcileResult} (hentries : ∀ i e, incoming[i]? = some e → EntryOk (previous + i + 1) e)

include hentries

theorem scan_of_passed (hpassed : Passed log previous incoming incoming.length) :
    reconcileScan log previous 0 incoming = .unchanged := by
  have hcases := reconcileScan_cases log previous 0 incoming
  have hheld : ∀ {j e}, incoming[j]? = some e → logGet log (previous + j + 1) = some e := by
    intro j e he
    rw [hpassed j (List.getElem?_eq_some_iff.mp he).1, he]
  cases hscan : reconcileScan log previous 0 incoming with
  | unchanged => rfl
  | refused status =>
    rw [hscan] at hcases
    obtain ⟨j, e, he, _, hwhy⟩ := hcases
    obtain ⟨_, current, hcurrent, _, hother⟩ := hwhy (hentries j e he)
    exact absurd (Option.some.inj (hcurrent.symm.trans (hheld he))) hother
  | change first truncates =>
    rw [hscan] at hcases
    obtain ⟨j, e, _, he, _, _, _, hother⟩ := hcases
    exact absurd rfl (hother e (hheld he))

theorem scan_of_departs {first : ℕ} {e : Entry} (he : incoming[first]? = some e)
    (hpassed : Passed log previous incoming first)
    (hnew : logGet log (previous + first + 1) ≠ some e) :
    reconcileScan log previous 0 incoming =
      if (logGet log (previous + first + 1)).any (fun current => current.term == e.term) then
        .refused .eproto
      else .change first (logGet log (previous + first + 1)).isSome := by
  -- the walk cannot end elsewhere: before `first` the log holds the entry, behind it the walk
  -- would have passed `first`
  have hend : ∀ {j x}, incoming[j]? = some x → Passed log previous incoming j →
      logGet log (previous + j + 1) ≠ some x → j = first := by
    intro j x hx hbefore hother
    rcases Nat.lt_trichotomy j first with hlt | heq | hgt
    · exact absurd ((hpassed j hlt).trans hx) hother
    · exact heq
    · exact absurd ((hbefore first hgt).trans he) hnew
  have hcases := reconcileScan_cases log previous 0 incoming
  cases hscan : reconcileScan log previous 0 incoming with rw [hscan] at hcases
  | unchanged =>
    exact absurd ((hcases first (List.getElem?_eq_some_iff.mp he).1).trans he) hnew
  | refused status =>
    simp only [Nat.add_zero] at hcases
    obtain ⟨j, x, hx, hbefore, hwhy⟩ := hcases
    obtain ⟨rfl, current, hcurrent, hterm, hother⟩ := hwhy (hentries j x hx)
    obtain rfl := hend hx hbefore fun hsame => hother (Option.some.inj (hcurrent.symm.trans hsame))
    obtain rfl := Option.some.inj (hx.symm.trans he)
    rw [if_pos (by simp [hcurrent, hterm])]
  | change position truncates =>
    simp only [Nat.add_zero, Nat.zero_add] at hcases
    obtain ⟨j, x, rfl, hx, hbefore, _, hheld, hother⟩ := hcases
    obtain rfl := hend hx hbefore fun hsame => hother x hsame rfl
    obtain rfl := Option.some.inj (hx.symm.trans he)
    rw [hheld, if_neg]
    rw [Option.any_eq_true]
    rintro ⟨current, hcurrent, hterm⟩
    exact hother current hcurrent (beq_iff_eq.mp hterm)

def spliced (log : Log) (previous : ℕ) (incoming : List Entry) (first : ℕ) : Log :=
  { log with
    entries := log.entries.take (previous - log.baseIndex + first) ++ incoming.drop first }

/-- A request whose entry at `first` is new to the log or of another term replaces the log from
there on. -/
theorem reconcile_departs (holds : logMatches log previous term = true)
    (hwords : previous + incoming.length ≤ uint64Max) {first : ℕ} {e : Entry}
    (he : incoming[first]? = some e) (hpassed : Passed log previous incoming first)
    (hother : ∀ current, logGet log (previous + first + 1) = some current → current.term ≠ e.term)
    (hprotected : protectedIndex < previous + first + 1)
    (hroom : previous - log.baseIndex + incoming.length ≤ log.maxEntries) :
    let result := spliced log previous incoming first
    let r := replacement previous incoming first (logGet log (previous + first + 1)).isSome
    logReconcile log previous term incoming protectedIndex = .ok (result, r) ∧
      persisted log.entries log.baseIndex result r = result.entries := by
  have hnew : logGet log (previous + first + 1) ≠ some e := fun hsame => hother e hsame rfl
  have hscan := scan_of_departs hentries he hpassed hnew
  rw [if_neg (by
    rw [Option.any_eq_true]
    rintro ⟨current, hcurrent, hterm⟩
    exact hother current hcurrent (beq_iff_eq.mp hterm))] at hscan
  obtain ⟨x, hdeparts⟩ := departs_of_scan holds hscan
  have hnumbered : ∀ j x, first ≤ j → incoming[j]? = some x → x.index = previous + j + 1 :=
    fun j x _ hx => (hentries j x hx).1
  have hlt := hdeparts.lt
  have hspliced : spliced log previous incoming first = replacedLog log previous incoming first := by
    rw [spliced, ← hdeparts.replaced hnumbered]
    rfl
  dsimp only
  rw [hspliced, logReconcile, if_neg (by omega), holds, Bool.not_true, if_neg Bool.false_ne_true,
    hscan]
  refine ⟨?_, hdeparts.reported hnumbered⟩
  dsimp only
  rw [if_neg (by simp; omega), if_neg (by simp; omega)]
  rfl

end Reconciling

/-- A request in order that matches the log changes nothing when the log holds its entries, is
refused when it rewrites an entry within its term, and otherwise replaces the log from the first
entry that differs, as the result reports. A request that does not match changes nothing. -/
theorem reconcile_spec :
    (∀ log previous term incoming protectedIndex result r,
      logReconcile log previous term incoming protectedIndex = .ok (result, r) →
      r.matched = false → result = log) ∧
    ∀ log previous term incoming protectedIndex, logMatches log previous term = true →
      previous + incoming.length ≤ uint64Max →
      (∀ i e, incoming[i]? = some e → EntryOk (previous + i + 1) e) →
      (Passed log previous incoming incoming.length →
        logReconcile log previous term incoming protectedIndex =
          .ok (log, { ReconcileResult.empty with matched := true })) ∧
      ∀ first e, incoming[first]? = some e → Passed log previous incoming first →
        logGet log (previous + first + 1) ≠ some e →
        ((∃ current, logGet log (previous + first + 1) = some current ∧ current.term = e.term) →
          logReconcile log previous term incoming protectedIndex = .error .eproto) ∧
        ((∀ current, logGet log (previous + first + 1) = some current → current.term ≠ e.term) →
          protectedIndex < previous + first + 1 →
          previous - log.baseIndex + incoming.length ≤ log.maxEntries →
          ∃ result r, logReconcile log previous term incoming protectedIndex = .ok (result, r) ∧
            result = spliced log previous incoming first ∧
            r.matched = true ∧ r.changed = true ∧ r.appendFrom = previous + first + 1 ∧
            r.appendCount = incoming.length - first ∧
            r.truncateFrom = (if (logGet log (previous + first + 1)).isSome then r.appendFrom else 0) ∧
            persisted log.entries log.baseIndex result r = result.entries) := by
  constructor
  · intro log previous term incoming protectedIndex result r hok hmatched
    exact ((logReconcile_matches hok).2 hmatched).1
  intro log previous term incoming protectedIndex holds hwords hentries
  refine ⟨fun hpassed => ?_, fun first e he hpassed hnew => ⟨?_, ?_⟩⟩
  · rw [logReconcile, if_neg (by omega), holds, Bool.not_true, if_neg Bool.false_ne_true,
      scan_of_passed hentries hpassed]
  · rintro ⟨current, hcurrent, hterm⟩
    rw [logReconcile, if_neg (by omega), holds, Bool.not_true, if_neg Bool.false_ne_true,
      scan_of_departs hentries he hpassed hnew, if_pos (by simp [hcurrent, hterm])]
  · intro hother hprotected hroom
    obtain ⟨hok, hpersisted⟩ :=
      reconcile_departs hentries holds hwords he hpassed hother hprotected hroom
    exact ⟨_, _, hok, rfl, rfl, rfl, rfl, rfl, rfl, hpersisted⟩

theorem later_term_replaces :
    ∃ result r, logReconcile ⟨[⟨1, 1, 7, []⟩, ⟨2, 1, 8, []⟩], 8, 0, 0⟩ 1 1
        [⟨2, 2, 9, []⟩, ⟨3, 2, 9, []⟩] 1 = .ok (result, r) ∧
      result.entries = [⟨1, 1, 7, []⟩, ⟨2, 2, 9, []⟩, ⟨3, 2, 9, []⟩] ∧ r.truncateFrom = 2 := by
  have hentries : ∀ i e, [(⟨2, 2, 9, []⟩ : Entry), ⟨3, 2, 9, []⟩][i]? = some e →
      EntryOk (1 + i + 1) e := by
    intro i e he
    match i, he with
    | 0, rfl | 1, rfl => exact ⟨rfl, by decide, by decide, fun hzero => absurd hzero (by decide)⟩
  obtain ⟨_, hdiffers⟩ := reconcile_spec.2 ⟨[⟨1, 1, 7, []⟩, ⟨2, 1, 8, []⟩], 8, 0, 0⟩ 1 1 _ 1 rfl
    (by decide) hentries
  obtain ⟨result, r, hok, rfl, _, _, happend, _, htruncate, _⟩ :=
    (hdiffers 0 _ rfl (fun j hj => absurd hj (Nat.not_lt_zero j)) (by decide)).2
      (fun current hcurrent => by cases hcurrent; decide) (by decide) (by decide)
  exact ⟨_, r, hok, rfl, by rw [htruncate, happend]; rfl⟩

/-- A command with the index and term of an entry of the log, but another content, is refused. -/
theorem rewritten_entry_refused :
    logMatches ⟨[⟨1, 1, 7, []⟩], 8, 0, 0⟩ 0 0 = true ∧ EntryOk 1 ⟨1, 1, 9, []⟩ ∧
      logGet ⟨[⟨1, 1, 7, []⟩], 8, 0, 0⟩ 1 ≠ some ⟨1, 1, 9, []⟩ ∧
      logReconcile ⟨[⟨1, 1, 7, []⟩], 8, 0, 0⟩ 0 0 [⟨1, 1, 9, []⟩] 0 = .error .eproto := by
  refine ⟨rfl, ⟨rfl, by decide, by decide, fun hzero => absurd hzero (by decide)⟩, by decide, ?_⟩
  decide +kernel

variable {truncates : Bool}

inductive LogCall where
  | reconcile (previous term : ℕ) (incoming : List Entry) (protectedIndex : ℕ)
  | appendLocal (term : ℕ) (commandId : UInt64) (data : List UInt8)
  | appendLocalBatch (term : ℕ) (proposals : List Proposal)
  | appendConfiguration (term : ℕ) (configuration : Conf)
  | compact (index term : ℕ)
  deriving DecidableEq, Repr

instance : Inhabited LogCall := ⟨.compact 0 0⟩

def logAfter (log : Log) : LogCall → Log
  | .reconcile previous term incoming protectedIndex =>
    match logReconcile log previous term incoming protectedIndex with
    | .error _ => log
    | .ok (result, _) => result
  | .appendLocal term commandId data =>
    match logAppendLocal log term commandId data with
    | .error _ => log
    | .ok (result, _) => result
  | .appendLocalBatch term proposals =>
    match logAppendLocalBatch log term proposals with
    | .error _ => log
    | .ok (result, _) => result
  | .appendConfiguration term configuration =>
    match logAppendConfiguration log term configuration with
    | .error _ => log
    | .ok (result, _) => result
  | .compact index term =>
    match logCompact log index term with
    | .error _ => log
    | .ok result => result

def logSystem (start : Log) : StepSystem Log LogCall :=
  { init := start, step := fun log call => some (logAfter log call) }

/-- A new log under any calls, as long as its indices fit. -/
structure LogRun where
  maxEntries : ℕ
  baseIndex : ℕ
  baseTerm : ℕ
  start : Log
  created : logInit maxEntries baseIndex baseTerm = .ok start
  run : Execution (logSystem start)
  indexable : run.Stays Indexable

def entryChecked (index : ℕ) (e : Entry) : Bool :=
  e.index == index && e.term != 0 && decide (e.data.length ≤ maxEntryBytes) &&
    (e.commandId != 0 || (confEntryDecode e).isOk)

def vetted (log : Log) : LogCall → Bool
  | .reconcile previous term incoming protectedIndex =>
    (unchecked log previous term incoming protectedIndex).all fun p =>
      entryChecked (previous + p.2 + 1) p.1
  | _ => true

/-- Every slot holds an entry that passes the checks for it, and the log is one that could be
created with these entries. -/
structure LogOk (log : Log) : Prop where
  slots : ∀ i e, log.entries[i]? = some e → EntryOk (log.baseIndex + i + 1) e
  room : log.entries.length ≤ log.maxEntries
  base : logBaseValid log.baseIndex log.baseTerm = true

variable {log result : Log} {previous term protectedIndex : ℕ} {incoming : List Entry}
  {r : ReconcileResult}

theorem entryOk_of_checked {index : ℕ} {e : Entry} (h : entryChecked index e = true) :
    EntryOk index e := by
  simp only [entryChecked, Bool.and_eq_true, beq_iff_eq, bne_iff_ne, decide_eq_true_eq,
    Bool.or_eq_true] at h
  obtain ⟨⟨⟨hindex, hterm⟩, hlength⟩, hconf⟩ := h
  refine ⟨hindex, hterm, hlength, fun hzero => ?_⟩
  cases hdecode : confEntryDecode e with
  | ok configuration => exact ⟨configuration, rfl⟩
  | error status => simp [hzero, hdecode, Except.isOk, Except.toBool] at hconf

theorem LogOk.append (h : LogOk log) {more : List Entry}
    (hroom : log.entries.length + more.length ≤ log.maxEntries)
    (hmore : ∀ i e, more[i]? = some e → EntryOk (logLastIndex log + i + 1) e) :
    LogOk { log with entries := log.entries ++ more } := by
  refine ⟨fun i e he => ?_, by rwa [List.length_append], h.base⟩
  rcases Nat.lt_or_ge i log.entries.length with hi | hi
  · exact h.slots i e (by rwa [List.getElem?_append_left hi] at he)
  · rw [List.getElem?_append_right hi] at he
    have hlast := logLastIndex_eq log
    have hentry := hmore _ e he
    rwa [show logLastIndex log + (i - log.entries.length) + 1 = log.baseIndex + i + 1 by omega]
      at hentry

theorem LogOk.drop (h : LogOk log) {log' : Log} (hbase : log.baseIndex ≤ log'.baseIndex)
    (hentries : log'.entries = log.entries.drop (log'.baseIndex - log.baseIndex))
    (hmax : log'.maxEntries = log.maxEntries)
    (hvalid : logBaseValid log'.baseIndex log'.baseTerm = true) : LogOk log' := by
  refine ⟨fun i e he => ?_, ?_, hvalid⟩
  · rw [hentries, List.getElem?_drop] at he
    have hentry := h.slots _ e he
    rwa [show log.baseIndex + (log'.baseIndex - log.baseIndex + i) + 1 = log'.baseIndex + i + 1 by
      omega] at hentry
  · rw [hentries, hmax, List.length_drop]
    exact (Nat.sub_le _ _).trans h.room

/-- The entries that a changing request copies are in order, given that nothing is wrong with those
that are not checked. -/
theorem copied_ok {first : ℕ} {e : Entry}
    (hdeparts : Departs log previous incoming first truncates e)
    (hvetted : vetted log (.reconcile previous term incoming protectedIndex) = true)
    (hmem : ∀ {j x}, first < j → incoming[j]? = some x →
      (x, j) ∈ unchecked log previous term incoming protectedIndex) :
    ∀ j x, first ≤ j → incoming[j]? = some x → EntryOk (previous + j + 1) x := by
  intro j x hj hx
  rcases Nat.eq_or_lt_of_le hj with rfl | hlt
  · rw [← Option.some.inj (hdeparts.entry.symm.trans hx)]
    exact hdeparts.ok
  · exact entryOk_of_checked (List.all_eq_true.mp hvetted _ (hmem hlt hx))

theorem LogOk.reconcile (h : LogOk log)
    (hvetted : vetted log (.reconcile previous term incoming protectedIndex) = true)
    (hok : logReconcile log previous term incoming protectedIndex = .ok (result, r)) :
    LogOk result := by
  cases logReconcile_ok hok with
  | mismatch | same => exact h
  | @change first truncates e holds scanned departs above numbers room =>
    have hcopied := copied_ok departs hvetted (mem_unchecked holds scanned above numbers room)
    have hlow := departs.low
    have hshort := departs.short
    refine ⟨fun i x hx => ?_, (replacedLog_length departs.lt).trans_le room, h.base⟩
    rw [departs.replaced fun j x hj hx => (hcopied j x hj hx).1] at hx
    have hkept : (log.entries.take (previous - log.baseIndex + first)).length =
        previous - log.baseIndex + first := List.length_take_of_le hshort
    rcases Nat.lt_or_ge i (previous - log.baseIndex + first) with hi | hi
    · rw [List.getElem?_append_left (by omega), List.getElem?_take_of_lt hi] at hx
      exact h.slots i x hx
    · rw [List.getElem?_append_right (by omega), hkept, List.getElem?_drop] at hx
      have hentry := hcopied _ x (by omega) hx
      rwa [show previous + (first + (i - (previous - log.baseIndex + first))) + 1 =
        log.baseIndex + i + 1 by omega] at hentry

theorem logAfter_ok (h : LogOk log) {call : LogCall} (hvetted : vetted log call = true) :
    LogOk (logAfter log call) := by
  cases call with
  | reconcile previous term incoming protectedIndex =>
    cases hok : logReconcile log previous term incoming protectedIndex with
    | error status => simpa only [logAfter, hok] using h
    | ok answer => simpa only [logAfter, hok] using h.reconcile hvetted hok
  | appendLocal term commandId data =>
    simp only [logAfter, logAppendLocal]
    split_ifs with hshape hroom
    · exact h
    · exact h
    · simp only [Bool.or_eq_true, beq_iff_eq, decide_eq_true_eq, not_or, not_lt] at hshape hroom
      refine h.append (Nat.lt_of_not_le hroom.2) fun i e he => ?_
      cases i with cases he
      | zero => exact ⟨rfl, hshape.1, hroom.1, fun hzero => absurd hzero hshape.2⟩
  | appendLocalBatch term proposals =>
    cases hok : logAppendLocalBatch log term proposals with
    | error status => simpa only [logAfter, hok] using h
    | ok answer =>
      obtain ⟨hresult, _, _, hentries⟩ := logAppendLocalBatch_ok hok
      simp only [logAfter, hok, hresult]
      refine h.append ?_ fun i e he => (hentries i e he).1
      unfold logAppendLocalBatch at hok
      split_ifs at hok with hshape hfull hvalid
      cases hok
      simp only [Bool.or_eq_true, decide_eq_true_eq, not_or] at hfull
      simp only [logCount, proposalEntries, List.length_map, List.length_zipIdx] at hfull ⊢
      omega
  | appendConfiguration term configuration =>
    cases hok : logAppendConfiguration log term configuration with
    | error status => simpa only [logAfter, hok] using h
    | ok answer =>
      obtain ⟨hresult, _, hentry, _⟩ := logAppendConfiguration_ok hok
      simp only [logAfter, hok, hresult]
      have hroom : log.entries.length < log.maxEntries := by
        unfold logAppendConfiguration at hok
        split_ifs at hok with _ hfull
        exact Nat.lt_of_not_le hfull
      refine h.append hroom fun i e he => ?_
      cases i with cases he
      | zero => exact hentry
  | compact index term =>
    simp only [logAfter, logCompact]
    split_ifs with hbounds hmatches
    · exact h
    · exact h
    · simp only [Bool.or_eq_true, beq_iff_eq, decide_eq_true_eq, not_or, not_le] at hbounds
      refine h.drop hbounds.1.1.le rfl rfl ?_
      simp [logBaseValid, hbounds.1.2, (Nat.zero_le _).trans_lt hbounds.1.1 |>.ne']

theorem reconcile_protects
    (hvetted : vetted log (.reconcile previous term incoming protectedIndex) = true)
    {index : ℕ} (hindex : index ≤ protectedIndex) {x : Entry} (hget : logGet log index = some x) :
    logGet (logAfter log (.reconcile previous term incoming protectedIndex)) index = some x := by
  cases hok : logReconcile log previous term incoming protectedIndex with
  | error status => simpa only [logAfter, hok] using hget
  | ok answer =>
    obtain ⟨result, r⟩ := answer
    simp only [logAfter, hok]
    cases logReconcile_ok hok with
    | mismatch | same => exact hget
    | @change first truncates e holds scanned departs above numbers room =>
      have hcopied := copied_ok departs hvetted (mem_unchecked holds scanned above numbers room)
      obtain ⟨hbase, hlast, hat⟩ := logGet_some hget
      have hend := logLastIndex_eq log
      have hlow := departs.low
      have hlt := departs.lt
      have hkept : index ≤ previous + first := by
        cases htruncates : truncates with
        | true => exact hindex.trans (above htruncates)
        | false =>
          have := departs.ends htruncates
          omega
      have hlength := @replacedLog_length log previous first incoming hlt
      unfold logGet
      rw [if_neg (by
        simp only [logLastIndex, logCount, hlength, Bool.or_eq_true, decide_eq_true_eq, not_or]
        change ¬ index ≤ log.baseIndex ∧ ¬ log.baseIndex + _ < index
        omega)]
      change (replacedLog log previous incoming first).entries[index - log.baseIndex - 1]? = _
      rw [departs.replaced fun j x hj hx => (hcopied j x hj hx).1, List.getElem?_append_left,
        List.getElem?_take_of_lt (by omega)]
      · exact hat
      · rw [List.length_take_of_le departs.short]
        omega

/-- In every run whose requests hold no unchecked entry that would fail the checks, every slot of
the log holds an entry in order, the last index is the one the code computes, and no request
changes an entry up to its protected index. -/
theorem log_stays_in_order (run : LogRun)
    (hmeets : run.run.Meets fun log call => vetted log call = true) :
    (∀ k, k ≤ run.run.length → LogOk (run.run.state k) ∧
      wordLastIndex (run.run.state k) = logLastIndex (run.run.state k)) ∧
    ∀ k, k < run.run.length → ∀ previous term incoming protectedIndex,
      run.run.event k = .reconcile previous term incoming protectedIndex →
      ∀ index e, index ≤ protectedIndex → logGet (run.run.state k) index = some e →
        logGet (run.run.state (k + 1)) index = some e := by
  constructor
  · intro k hk
    refine ⟨?_, (run.indexable k hk).word⟩
    refine run.run.invariant hmeets LogOk ?_ ?_ k hk
    · have hinit := run.created
      unfold logInit at hinit
      split_ifs at hinit with hrefused
      simp only [Bool.or_eq_true, Bool.not_eq_true', not_or, Bool.not_eq_false] at hrefused
      change LogOk run.start
      rw [← Except.ok.inj hinit]
      exact ⟨fun _ _ he => absurd he (by simp), Nat.zero_le _, hrefused.1.2⟩
    · intro log call log' hlog hvetted hstep
      cases hstep
      exact logAfter_ok hlog hvetted
  · intro k hk previous term incoming protectedIndex hevent index e hindex hget
    have hvetted := hmeets k hk
    have hstep := run.run.transition k hk
    rw [hevent] at hvetted hstep
    rw [← Option.some.inj hstep]
    exact reconcile_protects hvetted hindex hget

/-- A local entry, a request behind it, a request of a later term that replaces part of it, a
batch of proposals and a compaction. -/
def orderlyCalls : List LogCall :=
  [.appendLocal 1 5 [], .reconcile 1 1 [⟨2, 1, 6, []⟩, ⟨3, 1, 7, []⟩] 1,
    .reconcile 1 1 [⟨2, 2, 8, []⟩] 1, .appendLocalBatch 2 [⟨9, []⟩], .compact 1 1]

def emptyLog : Log := ⟨[], 8, 0, 0⟩

def orderlyRun : LogRun where
  maxEntries := 8
  baseIndex := 0
  baseTerm := 0
  start := emptyLog
  created := rfl
  run := Execution.ofEvents _ orderlyCalls (by decide +kernel)
  indexable := Execution.ofEvents_stays _ (by decide) (by decide +kernel)

theorem orderly_run_in_order :
    LogOk (orderlyRun.run.state 5) ∧
      logGet (orderlyRun.run.state 3) 1 = logGet (orderlyRun.run.state 2) 1 := by
  obtain ⟨hok, hprotects⟩ := log_stays_in_order orderlyRun
    (Execution.ofEvents_meets (by decide +kernel) (by decide +kernel))
  have hget : logGet (orderlyRun.run.state 2) 1 = some ⟨1, 1, 5, []⟩ := by decide +kernel
  exact ⟨(hok 5 le_rfl).1, (hprotects 2 (by decide) 1 1 _ 1 rfl 1 _ le_rfl hget).trans hget.symm⟩

/-- The second entry of a request names the slot of the first and has no term. It replaces the
first one, and its own slot stays empty. -/
theorem unchecked_entry_stored :
    logInit 8 0 0 = .ok emptyLog ∧
      (logAfter emptyLog (.reconcile 0 0 [⟨1, 1, 7, []⟩, ⟨1, 0, 9, []⟩] 0)).entries =
        [⟨1, 0, 9, []⟩, ⟨0, 0, 0, []⟩] := by
  decide +kernel

end RaftLogContracts
