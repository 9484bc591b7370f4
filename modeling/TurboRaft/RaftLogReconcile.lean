import TurboRaft.RaftLogLemmas

/-! # Reconciling a log with a request

The validation walk ends at the first entry of the request that the log does not hold. Everything
that is known about a reconciliation, of one log or of a cluster's, follows from where it ended. -/
namespace RaftLogReconcile

open RaftTypes RaftConfiguration RaftLog RaftLogLemmas

/-- The slot of an entry is the one its index names, unless nothing was written to it. -/
def SlotsOk (log : Log) : Prop :=
  ∀ i e, log.entries[i]? = some e → e.index = log.baseIndex + i + 1 ∨ e = zeroEntry

section Slots

variable {log : Log} {index : ℕ} {entries : List Entry}

theorem logGet_some {e : Entry} (h : logGet log index = some e) :
    log.baseIndex < index ∧ index ≤ logLastIndex log ∧
      log.entries[index - log.baseIndex - 1]? = some e := by
  unfold logGet at h
  split_ifs at h with hrange
  simp only [Bool.or_eq_true, decide_eq_true_eq, not_or, not_le, not_lt] at hrange
  exact ⟨hrange.1, hrange.2, h⟩

theorem logGet_none (h : logGet log index = none)
    (hbase : log.baseIndex < index) : logLastIndex log < index := by
  by_contra hin
  have hlast := logLastIndex_eq log
  have hlt : index - log.baseIndex - 1 < log.entries.length := by omega
  unfold logGet at h
  rw [if_neg (by simp; omega), List.getElem?_eq_getElem hlt] at h
  cases h

theorem SlotsOk.get (h : SlotsOk log) {e : Entry}
    (hget : logGet log index = some e) : e.index = index ∨ e = zeroEntry := by
  obtain ⟨hbase, _, hat⟩ := logGet_some hget
  rcases h _ e hat with hindex | hzero
  · left
    omega
  · exact Or.inr hzero

def ListSlots (base : ℕ) (entries : List Entry) : Prop :=
  ∀ i e, entries[i]? = some e → e.index = base + i + 1 ∨ e = zeroEntry

theorem ListSlots.resize {base : ℕ} (h : ListSlots base entries)
    (count : ℕ) : ListSlots base (resizeEntries entries count) := by
  intro i e he
  unfold resizeEntries at he
  rcases Nat.lt_or_ge i (entries.take count).length with hi | hi
  · rw [List.getElem?_append_left hi] at he
    rw [List.length_take] at hi
    rw [List.getElem?_take_of_lt (by omega)] at he
    exact h i e he
  · rw [List.getElem?_append_right hi] at he
    exact Or.inr (List.eq_of_mem_replicate (List.mem_of_getElem? he))

theorem ListSlots.place {base : ℕ} (incoming : List Entry)
    (h : ListSlots base entries) : ListSlots base (placeEntries base incoming entries) := by
  induction incoming generalizing entries with
  | nil => exact h
  | cons first rest ih =>
    unfold placeEntries
    rw [List.foldl_cons]
    apply ih
    by_cases hbase : base < first.index
    · rw [if_pos hbase]
      intro i e he
      rw [List.getElem?_set] at he
      by_cases hslot : first.index - base - 1 = i
      · split_ifs at he
        cases he
        left
        omega
      · rw [if_neg hslot] at he
        exact h i e he
    · rw [if_neg hbase]
      exact h

theorem placeEntries_length (base : ℕ) (incoming entries : List Entry) :
    (placeEntries base incoming entries).length = entries.length := by
  induction incoming generalizing entries with
  | nil => rfl
  | cons first rest ih =>
    unfold placeEntries at ih ⊢
    rw [List.foldl_cons, ih]
    split_ifs
    · exact List.length_set
    · rfl

end Slots

/-- The entries of a request are numbered from its previous index on. -/
def Numbered (previous : ℕ) (incoming : List Entry) : Prop :=
  ∀ i e, incoming[i]? = some e → e.index = previous + i + 1

variable {log result : Log} {previous term protectedIndex first : ℕ} {incoming : List Entry}
  {truncates : Bool} {e : Entry} {r : ReconcileResult}

def Passed (log : Log) (previous : ℕ) (incoming : List Entry) (position : ℕ) : Prop :=
  ∀ j, j < position → logGet log (previous + j + 1) = incoming[j]?

theorem Passed.cons {rest : List Entry} {position : ℕ} (h : Passed log (previous + 1) rest position)
    (hfirst : logGet log (previous + 1) = some e) :
    Passed log previous (e :: rest) (position + 1) := by
  intro j hj
  cases j with
  | zero => exact hfirst
  | succ j =>
    rw [List.getElem?_cons_succ, ← h j (by omega)]
    congr 1
    omega

/-- Where the validation walk ends, what it has passed until there, and why it ends there. -/
theorem reconcileScan_cases (log : Log) (previous position : ℕ) (rest : List Entry) :
    match reconcileScan log previous position rest with
    | .refused status => ∃ j e, rest[j]? = some e ∧ Passed log (previous + position) rest j ∧
        (EntryOk (previous + position + j + 1) e → status = .eproto ∧
          ∃ current, logGet log (previous + position + j + 1) = some current ∧
            current.term = e.term ∧ current ≠ e)
    | .unchanged => Passed log (previous + position) rest rest.length
    | .change first truncates => ∃ j e, first = position + j ∧ rest[j]? = some e ∧
        Passed log (previous + position) rest j ∧ EntryOk (previous + position + j + 1) e ∧
        (logGet log (previous + position + j + 1)).isSome = truncates ∧
        ∀ current, logGet log (previous + position + j + 1) = some current →
          current.term ≠ e.term := by
  induction rest generalizing position with
  | nil => exact fun j hj => absurd hj (Nat.not_lt_zero j)
  | cons e rest ih =>
    have hnone : Passed log (previous + position) (e :: rest) 0 :=
      fun j hj => absurd hj (Nat.not_lt_zero j)
    unfold reconcileScan
    split_ifs with hshape hconf
    · simp only [Bool.or_eq_true, bne_iff_ne, beq_iff_eq, decide_eq_true_eq] at hshape
      refine ⟨0, e, rfl, hnone, fun hok => ?_⟩
      have := hok.2.2.1
      rcases hshape with (hindex | hterm) | hlength
      · exact absurd hok.1 hindex
      · exact absurd hterm hok.2.1
      · omega
    · simp only [Bool.and_eq_true, beq_iff_eq] at hconf
      refine ⟨0, e, rfl, hnone, fun hok => ?_⟩
      obtain ⟨configuration, hdecode⟩ := hok.2.2.2 hconf.1
      rw [hdecode] at hconf
      cases hconf.2
    have hok : EntryOk (previous + position + 1) e := by
      simp only [Bool.or_eq_true, bne_iff_ne, beq_iff_eq, decide_eq_true_eq, not_or, ne_eq,
        not_not, not_lt] at hshape
      refine ⟨hshape.1.1, hshape.1.2, hshape.2, fun hzero => ?_⟩
      cases hdecode : confEntryDecode e with
      | ok configuration => exact ⟨configuration, rfl⟩
      | error status => simp [hzero, hdecode, Except.isOk, Except.toBool] at hconf
    cases hget : logGet log (previous + position + 1) with
    | none => exact ⟨0, e, rfl, rfl, hnone, hok, by rw [Nat.add_zero, hget]; rfl, by simp [hget]⟩
    | some current =>
      dsimp only
      split_ifs with hterm hother
      · have hterm : current.term ≠ e.term := by simpa using hterm
        exact ⟨0, e, rfl, rfl, hnone, hok, by rw [Nat.add_zero, hget]; rfl, by simp [hget, hterm]⟩
      · exact ⟨0, e, rfl, hnone, fun _ => ⟨rfl, current, hget, by simpa using hterm,
          by simpa using hother⟩⟩
      · have hsame : current = e := by simpa using hother
        have hpassed : ∀ {j}, Passed log (previous + (position + 1)) rest j →
            Passed log (previous + position) (e :: rest) (j + 1) :=
          fun h => h.cons (hsame ▸ hget)
        have hshift : ∀ j, previous + (position + 1) + j = previous + position + (j + 1) := by omega
        have hlater := ih (position + 1)
        cases hscan : reconcileScan log previous (position + 1) rest with rw [hscan] at hlater
        | refused status =>
          obtain ⟨j, x, hx, hbefore, hwhy⟩ := hlater
          rw [hshift] at hwhy
          exact ⟨j + 1, x, hx, hpassed hbefore, hwhy⟩
        | unchanged =>
          exact hpassed hlater
        | change first truncates =>
          obtain ⟨j, x, hfirst, hx, hbefore, hentry⟩ := hlater
          rw [hshift] at hentry
          exact ⟨j + 1, x, by omega, hx, hpassed hbefore, hentry⟩

theorem logMatches_range {index term : ℕ} (h : logMatches log index term = true) :
    log.baseIndex ≤ index ∧ index ≤ logLastIndex log := by
  have hlast := logLastIndex_eq log
  unfold logMatches at h
  by_cases hbase : (index == log.baseIndex) = true
  · rw [beq_iff_eq] at hbase
    omega
  · rw [if_neg hbase] at h
    cases hget : logGet log index with
    | none => simp [hget] at h
    | some e =>
      obtain ⟨hlow, hhigh, _⟩ := logGet_some hget
      omega

def replacedLog (log : Log) (previous : ℕ) (incoming : List Entry) (first : ℕ) : Log :=
  { log with
    entries := placeEntries log.baseIndex (incoming.drop first)
      (resizeEntries log.entries (previous - log.baseIndex + first + (incoming.length - first))) }

def replacement (previous : ℕ) (incoming : List Entry) (first : ℕ) (truncates : Bool) :
    ReconcileResult :=
  { matched := true
    changed := true
    rejectHint := 0
    truncateFrom := if truncates then previous + first + 1 else 0
    appendFrom := previous + first + 1
    appendCount := incoming.length - first }

/-- The first entry of a request that the log does not hold, and the log up to there. -/
structure Departs (log : Log) (previous : ℕ) (incoming : List Entry) (first : ℕ)
    (truncates : Bool) (e : Entry) : Prop where
  low : log.baseIndex ≤ previous
  entry : incoming[first]? = some e
  passed : Passed log previous incoming first
  ok : EntryOk (previous + first + 1) e
  held : (logGet log (previous + first + 1)).isSome = truncates
  other : ∀ current, logGet log (previous + first + 1) = some current → current.term ≠ e.term
  short : previous - log.baseIndex + first ≤ log.entries.length

/-- No test besides the walk refuses a request that changes the log from `first` on. -/
def otherwiseTaken (log : Log) (previous term : ℕ) (incoming : List Entry) (protectedIndex first : ℕ)
    (truncates : Bool) : Bool :=
  logMatches log previous term && decide (incoming.length ≤ uint64Max - previous) &&
    !(truncates && decide (previous + first + 1 ≤ protectedIndex)) &&
    decide (previous - log.baseIndex + incoming.length ≤ log.maxEntries)

/-- The entries that the log takes from behind the one where the walk stops, which nothing
checks, with their positions in the request. -/
def unchecked (log : Log) (previous term : ℕ) (incoming : List Entry) (protectedIndex : ℕ) :
    List (Entry × ℕ) :=
  match reconcileScan log previous 0 incoming with
  | .change first truncates =>
    if otherwiseTaken log previous term incoming protectedIndex first truncates then
      incoming.zipIdx.drop (first + 1)
    else
      []
  | _ => []

def uncheckedNumbered (log : Log) (previous term : ℕ) (incoming : List Entry)
    (protectedIndex : ℕ) : Bool :=
  (unchecked log previous term incoming protectedIndex).all fun p => p.1.index == previous + p.2 + 1

/-- What a reconciliation that answers OK has done. -/
inductive Reconciles (log : Log) (previous term protectedIndex : ℕ) (incoming : List Entry) :
    Log → ReconcileResult → Prop where
  | mismatch (hint : ℕ) (lacks : logMatches log previous term = false) :
      Reconciles log previous term protectedIndex incoming log
        { ReconcileResult.empty with rejectHint := hint }
  | same (holds : logMatches log previous term = true) (low : log.baseIndex ≤ previous)
      (scanned : reconcileScan log previous 0 incoming = .unchanged)
      (passed : Passed log previous incoming incoming.length) :
      Reconciles log previous term protectedIndex incoming log
        { ReconcileResult.empty with matched := true }
  | change {first : ℕ} {truncates : Bool} {e : Entry} (holds : logMatches log previous term = true)
      (scanned : reconcileScan log previous 0 incoming = .change first truncates)
      (departs : Departs log previous incoming first truncates e)
      (above : truncates = true → protectedIndex ≤ previous + first)
      (numbers : incoming.length ≤ uint64Max - previous)
      (room : previous - log.baseIndex + incoming.length ≤ log.maxEntries) :
      Reconciles log previous term protectedIndex incoming (replacedLog log previous incoming first)
        (replacement previous incoming first truncates)

theorem departs_of_scan (holds : logMatches log previous term = true)
    (hscan : reconcileScan log previous 0 incoming = .change first truncates) :
    ∃ e, Departs log previous incoming first truncates e := by
  obtain ⟨hlow, hhigh⟩ := logMatches_range holds
  have hcases := reconcileScan_cases log previous 0 incoming
  rw [hscan] at hcases
  obtain ⟨j, e, hfirst, hentry, hpassed, hok, hheld, hother⟩ := hcases
  rw [Nat.zero_add] at hfirst
  subst hfirst
  refine ⟨e, hlow, hentry, hpassed, hok, hheld, hother, ?_⟩
  have hlast := logLastIndex_eq log
  obtain ⟨hlt, _⟩ := List.getElem?_eq_some_iff.mp hentry
  rcases Nat.eq_zero_or_pos first with hzero | hpos
  · omega
  · have hprior := hpassed (first - 1) (by omega)
    rw [List.getElem?_eq_getElem (by omega)] at hprior
    have := (logGet_some hprior).2.1
    omega

theorem logReconcile_ok
    (h : logReconcile log previous term incoming protectedIndex = .ok (result, r)) :
    Reconciles log previous term protectedIndex incoming result r := by
  unfold logReconcile at h
  split_ifs at h with hlong hmatch
  · cases h
    exact .mismatch _ (by simpa using hmatch)
  have holds : logMatches log previous term = true := by simpa using hmatch
  cases hscan : reconcileScan log previous 0 incoming with
  | refused status => simp [hscan] at h
  | unchanged =>
    simp only [hscan] at h
    cases h
    have hpassed := reconcileScan_cases log previous 0 incoming
    rw [hscan] at hpassed
    exact .same holds (logMatches_range holds).1 hscan hpassed
  | change first truncates =>
    simp only [hscan] at h
    obtain ⟨e, hdeparts⟩ := departs_of_scan holds hscan
    split at h
    · cases h
    rename_i hprotected
    split at h
    · cases h
    rename_i hroom
    cases h
    simp only [Bool.or_eq_true, decide_eq_true_eq, not_or, not_lt] at hroom
    refine .change holds hscan hdeparts (fun htruncates => ?_) (by omega) (by omega)
    rw [htruncates, Bool.true_and, decide_eq_true_eq] at hprotected
    omega

theorem mem_unchecked (holds : logMatches log previous term = true)
    (scanned : reconcileScan log previous 0 incoming = .change first truncates)
    (above : truncates = true → protectedIndex ≤ previous + first)
    (numbers : incoming.length ≤ uint64Max - previous)
    (room : previous - log.baseIndex + incoming.length ≤ log.maxEntries) {j : ℕ} {x : Entry}
    (hj : first < j) (hx : incoming[j]? = some x) :
    (x, j) ∈ unchecked log previous term incoming protectedIndex := by
  have htaken : otherwiseTaken log previous term incoming protectedIndex first truncates = true := by
    simp only [otherwiseTaken, holds, numbers, room, decide_true, Bool.true_and, Bool.and_true,
      Bool.not_eq_true', Bool.and_eq_false_imp, decide_eq_false_iff_not]
    intro htruncates
    have := above htruncates
    omega
  rw [unchecked, scanned]
  dsimp only
  rw [if_pos htaken]
  refine List.mem_of_getElem? (i := j - (first + 1)) ?_
  rw [List.getElem?_drop, List.getElem?_zipIdx, Nat.add_sub_cancel' hj, hx]
  simp

theorem passed_stretch {k : ℕ} (hlow : log.baseIndex ≤ previous) (hk : k ≤ incoming.length)
    (hpassed : Passed log previous incoming k) :
    log.entries.take (previous - log.baseIndex + k) =
      log.entries.take (previous - log.baseIndex) ++ incoming.take k := by
  rw [List.take_add]
  congr 1
  apply List.ext_getElem?
  intro j
  by_cases hj : j < k
  · rw [List.getElem?_take_of_lt hj, List.getElem?_take_of_lt hj, List.getElem?_drop]
    have hlt : j < incoming.length := by omega
    have hget := hpassed j hj
    rw [List.getElem?_eq_getElem hlt] at hget ⊢
    rw [← (logGet_some hget).2.2]
    congr 1
    omega
  · rw [List.getElem?_take_eq_none (by omega), List.getElem?_take_eq_none (by omega)]

section

variable (h : Departs log previous incoming first truncates e)

include h

theorem Departs.lt :
    first < incoming.length :=
  (List.getElem?_eq_some_iff.mp h.entry).1

theorem Departs.ends
    (hfalse : truncates = false) : log.entries.length = previous - log.baseIndex + first := by
  have hnone : logGet log (previous + first + 1) = none :=
    Option.not_isSome_iff_eq_none.mp (by simp [h.held, hfalse])
  have hlow := h.low
  have hshort := h.short
  have hend : log.baseIndex + log.entries.length < previous + first + 1 :=
    logGet_none hnone (by omega)
  omega

/-- A request that changes nothing above the protected index cuts nothing off below it. -/
theorem Departs.above (hreach : protectedIndex ≤ logLastIndex log)
    (habove : truncates = true → protectedIndex ≤ previous + first) :
    protectedIndex ≤ previous + first := by
  cases htruncates : truncates with
  | true => exact habove htruncates
  | false =>
    have hend := h.ends htruncates
    have hlow := h.low
    have hlast := logLastIndex_eq log
    omega

variable (hnumbered : ∀ j x, first ≤ j → incoming[j]? = some x → x.index = previous + j + 1)

include hnumbered

/-- Entries that are numbered from the change on follow the part of the log that is kept. -/
theorem Departs.replaced :
    (replacedLog log previous incoming first).entries =
      log.entries.take (previous - log.baseIndex + first) ++ incoming.drop first := by
  have hlow := h.low
  change placeEntries log.baseIndex _ _ = _
  rw [placeEntries_contiguous log.baseIndex (previous - log.baseIndex + first)]
  · rw [resizeEntries_take h.short (by omega)]
  · rw [resizeEntries_length, List.length_drop]
  · intro i x hx
    rw [List.getElem?_drop] at hx
    have := hnumbered _ x (by omega) hx
    omega

theorem Departs.content :
    (replacedLog log previous incoming first).entries =
      log.entries.take (previous - log.baseIndex) ++ incoming := by
  rw [h.replaced hnumbered, passed_stretch h.low h.lt.le h.passed, List.append_assoc,
    List.take_append_drop]

theorem Departs.reported :
    persisted log.entries log.baseIndex (replacedLog log previous incoming first)
        (replacement previous incoming first truncates) =
      (replacedLog log previous incoming first).entries :=
  persisted_replaced log.entries (replacedLog log previous incoming first) h.low h.short h.ends
    (h.replaced hnumbered) List.length_drop

end

theorem replacedLog_length (hfirst : first < incoming.length) :
    (replacedLog log previous incoming first).entries.length =
      previous - log.baseIndex + incoming.length := by
  change (placeEntries _ _ _).length = _
  rw [placeEntries_length, resizeEntries_length]
  omega

/-- What a reconciled request leaves behind, whatever it carried. -/
structure Reconciled (log : Log) (previous term protectedIndex : ℕ) (incoming : List Entry)
    (result : Log) (r : ReconcileResult) : Prop where
  slots : SlotsOk result
  base : result.baseIndex = log.baseIndex
  baseTerm : result.baseTerm = log.baseTerm
  reach : protectedIndex ≤ logLastIndex result
  unchanged : r.changed = false → result = log
  ends : r.changed = true → result.entries.length = previous - log.baseIndex + incoming.length
  scanned : r.matched = true → r.changed = false →
    reconcileScan log previous 0 incoming = .unchanged
  reported : uncheckedNumbered log previous term incoming protectedIndex = true →
    r.changed = true → persisted log.entries log.baseIndex result r = result.entries
  kept : uncheckedNumbered log previous term incoming protectedIndex = true →
    log.entries.take (protectedIndex - log.baseIndex) <+: result.entries
  content : uncheckedNumbered log previous term incoming protectedIndex = true →
    r.matched = true →
    result.entries.take (previous - log.baseIndex + incoming.length) =
      log.entries.take (previous - log.baseIndex) ++ incoming
  numbered : uncheckedNumbered log previous term incoming protectedIndex = true →
    r.matched = true → Numbered log.baseIndex log.entries → Numbered previous incoming

theorem logReconcile_reconciled (hslots : SlotsOk log) (hreach : protectedIndex ≤ logLastIndex log)
    (h : logReconcile log previous term incoming protectedIndex = .ok (result, r)) :
    Reconciled log previous term protectedIndex incoming result r := by
  -- what the walk has passed stands in the log, and is numbered as the log is
  have hpassed : ∀ {k}, log.baseIndex ≤ previous → Passed log previous incoming k →
      Numbered log.baseIndex log.entries → ∀ j x, j < k → incoming[j]? = some x →
      x.index = previous + j + 1 := by
    intro k hlow hpassed hlog j x hj hx
    obtain ⟨hbase, _, hat⟩ := logGet_some ((hpassed j hj).trans hx)
    have := hlog _ x hat
    omega
  cases logReconcile_ok h with
  | mismatch hint lacks =>
    exact ⟨hslots, rfl, rfl, hreach, fun _ => rfl, Bool.noConfusion, Bool.noConfusion,
      fun _ => Bool.noConfusion, fun _ => List.take_prefix _ _, fun _ => Bool.noConfusion,
      fun _ => Bool.noConfusion⟩
  | same holds low scanned passed =>
    refine ⟨hslots, rfl, rfl, hreach, fun _ => rfl, Bool.noConfusion, fun _ _ => scanned,
      fun _ => Bool.noConfusion, fun _ => List.take_prefix _ _, fun _ _ => ?_, fun _ _ hlog j x hx => ?_⟩
    · rw [passed_stretch low le_rfl passed, List.take_length]
    · exact hpassed low passed hlog j x (List.getElem?_eq_some_iff.mp hx).1 hx
  | @change first truncates e holds scanned departs above numbers room =>
    have hfrom : uncheckedNumbered log previous term incoming protectedIndex = true →
        ∀ j x, first ≤ j → incoming[j]? = some x → x.index = previous + j + 1 := by
      intro hnumbered j x hj hx
      rcases Nat.eq_or_lt_of_le hj with rfl | hlt
      · rw [← Option.some.inj (departs.entry.symm.trans hx)]
        exact departs.ok.1
      · have hmem := mem_unchecked holds scanned above numbers room hlt hx
        exact beq_iff_eq.mp (List.all_eq_true.mp hnumbered _ hmem)
    have hlength := @replacedLog_length log previous first incoming departs.lt
    have habove := departs.above hreach above
    have hlt := departs.lt
    refine ⟨ListSlots.place _ (ListSlots.resize hslots _), rfl, rfl, ?_, Bool.noConfusion, fun _ => hlength,
      fun _ => Bool.noConfusion, fun hnumbered _ => departs.reported (hfrom hnumbered),
      fun hnumbered => ?_, fun hnumbered _ => ?_, fun hnumbered _ hlog j x hx => ?_⟩
    · change protectedIndex ≤ log.baseIndex + (replacedLog log previous incoming first).entries.length
      omega
    · rw [departs.replaced (hfrom hnumbered)]
      apply List.IsPrefix.trans _ (List.prefix_append _ _)
      exact List.take_prefix_take_left (by omega)
    · rw [← hlength, List.take_length, departs.content (hfrom hnumbered)]
    · rcases Nat.lt_or_ge j first with hj | hj
      · exact hpassed departs.low departs.passed hlog j x hj hx
      · exact hfrom hnumbered j x hj hx

section Numbering

variable {log : Log} {base : ℕ} {entries more : List Entry}

theorem SlotsOk.append (h : SlotsOk log) (hentries : Numbered (logLastIndex log) entries) :
    SlotsOk { log with entries := log.entries ++ entries } := by
  intro i e he
  rcases Nat.lt_or_ge i log.entries.length with hi | hi
  · rw [List.getElem?_append_left hi] at he
    exact h i e he
  · rw [List.getElem?_append_right hi] at he
    have hindex := hentries _ e he
    have hlast := logLastIndex_eq log
    left
    dsimp only
    omega

theorem SlotsOk.drop {log : Log} (h : SlotsOk log) {index term : ℕ} (hle : log.baseIndex ≤ index) :
    SlotsOk { log with
      entries := log.entries.drop (index - log.baseIndex)
      baseIndex := index
      baseTerm := term } := by
  intro i e he
  dsimp only at he ⊢
  rw [List.getElem?_drop] at he
  rcases h _ e he with hnamed | hzero
  · left
    omega
  · exact Or.inr hzero

theorem SlotsOk.numbered {log : Log} (h : SlotsOk log) (hwritten : zeroEntry ∉ log.entries) :
    Numbered log.baseIndex log.entries := by
  intro i e he
  rcases h i e he with hnamed | hzero
  · exact hnamed
  · exact absurd (hzero ▸ List.mem_of_getElem? he) hwritten

variable (h : Numbered base entries)

include h

theorem Numbered.append (h' : Numbered (base + entries.length) more) :
    Numbered base (entries ++ more) := by
  intro i e he
  rcases Nat.lt_or_ge i entries.length with hi | hi
  · rw [List.getElem?_append_left hi] at he
    exact h i e he
  · rw [List.getElem?_append_right hi] at he
    have := h' _ e he
    omega

theorem Numbered.take (k : ℕ) : Numbered base (entries.take k) := by
  intro i e he
  by_cases hi : i < k
  · rw [List.getElem?_take_of_lt hi] at he
    exact h i e he
  · rw [List.getElem?_take_eq_none (by omega)] at he
    cases he

theorem Numbered.drop (k : ℕ) :
    Numbered (base + k) (entries.drop k) := by
  intro i e he
  rw [List.getElem?_drop] at he
  have := h _ e he
  omega

theorem Numbered.ascending :
    entries.Pairwise fun a b => a.index < b.index := by
  rw [List.pairwise_iff_getElem]
  intro i j hi hj hij
  have hfirst := h i _ (List.getElem?_eq_getElem hi)
  have hsecond := h j _ (List.getElem?_eq_getElem hj)
  omega

end Numbering


variable {log result : Log} {full source incoming : List Entry}
  {previous term protectedIndex upTo : ℕ} {r : ReconcileResult}

/-- The outcome of a reconciliation with a slice of the leader's list, `upTo` being the end
of that slice. -/
inductive SliceReconciled (log : Log) (full source : List Entry) (upTo protectedIndex : ℕ) :
    Log → ReconcileResult → Prop where
  | mismatch (r : ReconcileResult) (matched : r.matched = false) (changed : r.changed = false) :
      SliceReconciled log full source upTo protectedIndex log r
  | kept (r : ReconcileResult) (matched : r.matched = true) (changed : r.changed = false)
      (has : source.take upTo <+: full) : SliceReconciled log full source upTo protectedIndex log r
  | replaced (r : ReconcileResult) (result : Log) (matched : r.matched = true)
      (changed : r.changed = true) (lacks : ¬ source.take upTo <+: full)
      (represents : Represents result (source.take upTo))
      (base : result.baseIndex = log.baseIndex ∧ result.baseTerm = log.baseTerm)
      (kept : full.take protectedIndex <+: source.take upTo)
      (stored : persisted log.entries log.baseIndex result r = result.entries) :
      SliceReconciled log full source upTo protectedIndex result r

theorem logReconcile_matches
    (h : logReconcile log previous term incoming protectedIndex = .ok (result, r)) :
    logMatches log previous term = r.matched ∧
      (r.matched = false → result = log ∧ r.changed = false) := by
  cases logReconcile_ok h with
  | mismatch hint lacks => exact ⟨lacks, fun _ => ⟨rfl, rfl⟩⟩
  | same holds | change holds => exact ⟨holds, fun hfalse => Bool.noConfusion hfalse⟩

theorem represents_taken (h : Represents log full) (hbase : log.baseIndex ≤ previous)
    (hlen : previous ≤ full.length) (hresult : result.baseIndex = log.baseIndex)
    (hterm : result.baseTerm = log.baseTerm)
    (hentries : result.entries = log.entries.take (previous - log.baseIndex) ++ incoming) :
    Represents result (full.take previous ++ incoming) where
  base_le := by
    rw [List.length_append, List.length_take]
    omega
  entries := by
    rw [hentries, hresult, h.entries, List.take_drop, Nat.add_sub_cancel' hbase,
      List.drop_append_of_le_length (by rw [List.length_take]; omega)]
  baseTerm := by
    rw [hterm, hresult, h.baseTerm,
      List.take_append_of_le_length (by rw [List.length_take]; omega), List.take_take,
      Nat.min_eq_left hbase]

theorem logReconcile_cases (h : Represents log full) (hsource : WellFormed source)
    (hincoming : incoming = (source.drop previous).take incoming.length)
    (hmatch : previous ≤ full.length → endTerm (full.take previous) = term →
      full.take previous = source.take previous)
    (hreach : protectedIndex ≤ logLastIndex log)
    (hok : logReconcile log previous term incoming protectedIndex = .ok (result, r)) :
    SliceReconciled log full source (previous + incoming.length) protectedIndex result r := by
  have hslice : logMatches log previous term = true →
      previous ≤ full.length ∧
        source.take (previous + incoming.length) = full.take previous ++ incoming := by
    intro holds
    obtain ⟨_, hlen, hterm⟩ := (h.matches_iff previous term).mp holds
    rw [List.take_add, ← hincoming, hmatch hlen hterm]
    exact ⟨hlen, rfl⟩
  have hcopied : ∀ {k}, log.baseIndex ≤ previous → k ≤ incoming.length →
      Passed log previous incoming k → full.take (previous + k) = full.take previous ++ incoming.take k := by
    intro k hlow hk hpassed
    have hstretch := passed_stretch hlow hk hpassed
    rw [List.take_add] at hstretch ⊢
    rw [← List.append_cancel_left hstretch, h.entries, List.drop_drop, Nat.add_sub_cancel' hlow]
  cases logReconcile_ok hok with
  | mismatch hint lacks => exact .mismatch _ rfl rfl
  | same holds low scanned passed =>
    refine .kept _ rfl rfl ?_
    rw [(hslice holds).2, ← incoming.take_length, ← hcopied low le_rfl passed]
    exact List.take_prefix _ _
  | @change first truncates e holds scanned departs above =>
    obtain ⟨hlen, hsplit⟩ := hslice holds
    have hlt := departs.lt
    have hnumbered : ∀ j x, first ≤ j → incoming[j]? = some x → x.index = previous + j + 1 := by
      intro j x _ hx
      obtain ⟨hj, _⟩ := List.getElem?_eq_some_iff.mp hx
      rw [hincoming, List.getElem?_take_of_lt (by omega), List.getElem?_drop] at hx
      exact (hsource _ x hx).1
    refine .replaced _ _ rfl rfl ?_ ?_ ⟨rfl, rfl⟩ ?_ (departs.reported hnumbered)
    · -- the log would hold the entry where the walk ended
      rintro ⟨tail, htail⟩
      have hlow := departs.low
      have hheld : logGet log (previous + first + 1) = some e := by
        rw [h.get, if_pos (by omega), ← htail, hsplit, List.append_assoc]
        rw [List.getElem?_append_right (by rw [List.length_take]; omega), List.length_take,
          Nat.min_eq_left hlen, Nat.add_sub_cancel, Nat.add_sub_cancel_left,
          List.getElem?_append_left hlt]
        exact departs.entry
      exact departs.other e hheld rfl
    · rw [hsplit]
      exact represents_taken h departs.low hlen rfl rfl (departs.content hnumbered)
    · rw [hsplit]
      refine (List.take_prefix_take_left (departs.above hreach above)).trans ?_
      rw [hcopied departs.low hlt.le departs.passed, List.prefix_append_right_inj]
      exact List.take_prefix _ _

end RaftLogReconcile
