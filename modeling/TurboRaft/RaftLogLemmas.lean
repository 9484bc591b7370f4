import TurboRaft.RaftConfigurationLemmas
import TurboRaft.RaftCoreEmit
import TurboRaft.ConfiguredLog
import Mathlib.Tactic.Common

/-! # Logs over their whole history

A log keeps the part above its base point of a list that starts at index one. Reading,
appending, compacting and reconciling are stated for that whole list. -/
namespace RaftLogLemmas

open RaftTypes RaftConfiguration RaftLog RaftCoreEmit RaftConfigurationLemmas

/-- What every log in the cluster keeps: entries know their index, have a term and fit,
and configuration entries decode. -/
def EntryOk (index : ℕ) (entry : Entry) : Prop :=
  entry.index = index ∧ entry.term ≠ 0 ∧ entry.data.length ≤ maxEntryBytes ∧
    (entry.commandId = 0 → ∃ configuration, confEntryDecode entry = .ok configuration)

def WellFormed (full : List Entry) : Prop :=
  ∀ i e, full[i]? = some e → EntryOk (i + 1) e

def endTerm (full : List Entry) : ℕ := (full.getLast?.map Entry.term).getD 0

structure Represents (log : Log) (full : List Entry) : Prop where
  base_le : log.baseIndex ≤ full.length
  entries : log.entries = full.drop log.baseIndex
  baseTerm : log.baseTerm = endTerm (full.take log.baseIndex)

section Reading

variable {log : Log} {full : List Entry}

theorem WellFormed.shorten {a b : List Entry} (h : WellFormed b) (hab : a <+: b) :
    WellFormed a := by
  intro i e he
  obtain ⟨c, rfl⟩ := hab
  obtain ⟨hi, _⟩ := List.getElem?_eq_some_iff.mp he
  apply h i e
  rw [List.getElem?_append_left hi]
  exact he

theorem WellFormed.append {a b : List Entry} (ha : WellFormed a)
    (hb : ∀ i e, b[i]? = some e → EntryOk (a.length + i + 1) e) : WellFormed (a ++ b) := by
  intro i e he
  rcases Nat.lt_or_ge i a.length with hi | hi
  · rw [List.getElem?_append_left hi] at he
    exact ha i e he
  · rw [List.getElem?_append_right hi] at he
    have := hb (i - a.length) e he
    rwa [show a.length + (i - a.length) + 1 = i + 1 by omega] at this

theorem WellFormed.ascending {l : List Entry} (h : WellFormed l) :
    l.Pairwise fun a b => a.index < b.index := by
  rw [List.pairwise_iff_getElem]
  intro i j hi hj hij
  have hfirst := (h i _ (List.getElem?_eq_getElem hi)).1
  have hsecond := (h j _ (List.getElem?_eq_getElem hj)).1
  omega

theorem endTerm_take (full : List Entry) {i : ℕ} (hpos : 0 < i) (hle : i ≤ full.length) :
    ∃ e, full[i - 1]? = some e ∧ endTerm (full.take i) = e.term := by
  have hlt : i - 1 < full.length := by omega
  refine ⟨full[i - 1], List.getElem?_eq_getElem hlt, ?_⟩
  simp [endTerm, List.getLast?_take, hpos.ne', List.getElem?_eq_getElem hlt]

theorem endTerm_take_ne_zero (h : WellFormed full) {i : ℕ} (hpos : 0 < i)
    (hle : i ≤ full.length) : endTerm (full.take i) ≠ 0 := by
  obtain ⟨e, he, hterm⟩ := endTerm_take full hpos hle
  rw [hterm]
  exact (h _ e he).2.1

variable (h : Represents log full)

include h

theorem Represents.lastIndex : logLastIndex log = full.length := by
  have := h.base_le
  simp only [logLastIndex, logCount, h.entries, List.length_drop]
  omega

theorem Represents.lastTerm : logLastTerm log = endTerm full := by
  unfold logLastTerm
  rw [h.entries]
  rcases Nat.lt_or_ge log.baseIndex full.length with hlt | hge
  · have hlast : (full.drop log.baseIndex).getLast? = full.getLast? := by
      rw [List.getLast?_drop, if_neg hlt.not_ge]
    rw [hlast]
    have hne : full ≠ [] := List.length_pos_iff.mp (by omega)
    rw [List.getLast?_eq_some_getLast hne]
    simp [endTerm, List.getLast?_eq_some_getLast hne]
  · have hnil : full.drop log.baseIndex = [] := List.drop_eq_nil_of_le hge
    rw [hnil, h.baseTerm, List.take_of_length_le hge]
    rfl

theorem Represents.get (index : ℕ) :
    logGet log index = if log.baseIndex < index then full[index - 1]? else none := by
  have hlast := h.lastIndex
  unfold logGet
  rw [hlast, h.entries]
  by_cases hbase : log.baseIndex < index
  · rw [if_pos hbase]
    by_cases hlen : full.length < index
    · have hnone : full[index - 1]? = none := List.getElem?_eq_none (by omega)
      simp [hlen, hnone]
    · rw [if_neg (by simp; omega), List.getElem?_drop]
      congr 1
      omega
  · rw [if_neg hbase, if_pos (by simp; omega)]

theorem Represents.matches_iff (index term : ℕ) :
    logMatches log index term = true ↔
      log.baseIndex ≤ index ∧ index ≤ full.length ∧ endTerm (full.take index) = term := by
  have hle := h.base_le
  unfold logMatches
  by_cases hbase : index = log.baseIndex
  · subst hbase
    simp only [beq_self_eq_true, if_true, beq_iff_eq, h.baseTerm, le_refl, hle, true_and]
    exact eq_comm
  rw [if_neg (by simpa using hbase), h.get]
  by_cases habove : log.baseIndex < index
  · rw [if_pos habove]
    rcases Nat.lt_or_ge full.length index with hlen | hlen
    · have hnone : full[index - 1]? = none := List.getElem?_eq_none (by omega)
      simp only [hnone, Bool.false_eq_true, false_iff]
      omega
    · obtain ⟨e, he, hterm⟩ := endTerm_take full (show 0 < index by omega) hlen
      simp only [he, hterm, beq_iff_eq, habove.le, hlen, true_and]
  · rw [if_neg habove]
    simp only [Bool.false_eq_true, false_iff]
    omega

theorem Represents.slice {first : ℕ} (hfirst : log.baseIndex < first)
    (count : ℕ) : logSlice log first count = (full.drop (first - 1)).take count := by
  unfold logSlice
  rw [h.entries, List.drop_drop]
  congr 2
  omega

theorem Represents.previousTerm {index : ℕ} (hbase : log.baseIndex ≤ index) :
    (index ≤ full.length ∧ previousTerm log index = endTerm (full.take index)) ∨
      (full.length < index ∧ previousTerm log index = 0) := by
  have hle := h.base_le
  unfold RaftCoreEmit.previousTerm
  by_cases heq : index = log.baseIndex
  · subst heq
    left
    exact ⟨hle, by simpa using h.baseTerm⟩
  rw [if_neg (by simpa using heq), h.get, if_pos (by omega)]
  rcases Nat.lt_or_ge full.length index with hlen | hlen
  · right
    have hnone : full[index - 1]? = none := List.getElem?_eq_none (by omega)
    simp [hlen, hnone]
  · left
    obtain ⟨e, he, hterm⟩ := endTerm_take full (show 0 < index by omega) hlen
    exact ⟨hlen, by simp [he, hterm]⟩

theorem Represents.append (more : List Entry) :
    Represents { log with entries := log.entries ++ more } (full ++ more) where
  base_le := by
    have := h.base_le
    simp only [List.length_append]
    omega
  entries := by
    simp only [h.entries]
    rw [List.drop_append_of_le_length h.base_le]
  baseTerm := by
    simp only [h.baseTerm]
    rw [List.take_append_of_le_length h.base_le]

theorem Represents.compact {index term : ℕ} {compacted : Log}
    (hok : logCompact log index term = .ok compacted) :
    Represents compacted full ∧ compacted.baseIndex = index ∧ compacted.baseTerm = term ∧
      compacted.entries = log.entries.drop (index - log.baseIndex) := by
  unfold logCompact at hok
  split_ifs at hok with hbounds hmatch
  simp only [Bool.or_eq_true, decide_eq_true_eq, beq_iff_eq, not_or, not_le, not_lt,
    Bool.not_eq_true', Bool.not_eq_false] at hbounds hmatch
  obtain ⟨_, hlen, hterm⟩ := (h.matches_iff index term).mp hmatch
  cases hok
  refine ⟨⟨hlen, ?_, hterm.symm⟩, rfl, rfl, rfl⟩
  change log.entries.drop (index - log.baseIndex) = full.drop index
  rw [h.entries, List.drop_drop]
  congr 1
  omega

end Reading

section Appending

variable {term : ℕ} {proposals : List Proposal}

theorem proposalEntries_get {first : ℕ} {i : ℕ} {e : Entry}
    (h : (proposalEntries first term proposals)[i]? = some e) :
    ∃ proposal, proposals[i]? = some proposal ∧
      e = { index := first + i, term, commandId := proposal.commandId,
            data := proposal.data } := by
  simp only [proposalEntries, List.getElem?_map, List.getElem?_zipIdx, Option.map_map,
    Option.map_eq_some_iff, Function.comp_apply, Nat.zero_add] at h
  obtain ⟨proposal, hp, rfl⟩ := h
  exact ⟨proposal, hp, rfl⟩

theorem logAppendLocalBatch_ok {log result : Log} {entries : List Entry}
    (h : logAppendLocalBatch log term proposals = .ok (result, entries)) :
    result = { log with entries := log.entries ++ entries } ∧ term ≠ 0 ∧ entries ≠ [] ∧
      ∀ i e, entries[i]? = some e →
        EntryOk (logLastIndex log + i + 1) e ∧ e.term = term ∧ e.commandId ≠ 0 := by
  unfold logAppendLocalBatch at h
  split_ifs at h with hshape hroom hvalid
  simp only [Bool.or_eq_true, beq_iff_eq, decide_eq_true_eq, not_or, Bool.not_eq_true',
    Bool.not_eq_false, List.all_eq_true] at hshape hvalid
  cases h
  refine ⟨rfl, hshape.1.1, ?_, ?_⟩
  · intro hnil
    have hlength := congrArg List.length hnil
    simp only [proposalEntries, List.length_map, List.length_zipIdx, List.length_nil] at hlength
    exact hshape.1.2 hlength
  · intro i e he
    obtain ⟨proposal, hp, rfl⟩ := proposalEntries_get he
    have hproposal := hvalid proposal (List.mem_of_getElem? hp)
    simp only [proposalValid, Bool.and_eq_true, bne_iff_ne, decide_eq_true_eq] at hproposal
    refine ⟨⟨?_, hshape.1.1, hproposal.2, fun hzero => absurd hzero hproposal.1⟩, rfl, hproposal.1⟩
    change logLastIndex log + 1 + i = _
    omega

theorem logAppendConfiguration_ok {log result : Log} {configuration : Conf}
    {entry : Entry} (h : logAppendConfiguration log term configuration = .ok (result, entry)) :
    result = { log with entries := log.entries ++ [entry] } ∧
      confEntryDecode entry = .ok configuration ∧ EntryOk (logLastIndex log + 1) entry ∧
      entry.term = term := by
  unfold logAppendConfiguration at h
  split_ifs at h
  cases hencode : confEntryEncode configuration (logLastIndex log + 1) term with
  | error status => simp [hencode] at h
  | ok encoded =>
    simp only [hencode] at h
    cases h
    obtain ⟨hdecode, hindex, hterm, _, hsize, _, hpos⟩ := confEntryDecode_encode hencode
    refine ⟨rfl, hdecode, ⟨hindex, ?_, hsize, fun _ => ⟨_, hdecode⟩⟩, hterm⟩
    rw [hterm]
    exact hpos

end Appending

theorem placeEntries_contiguous (base kept : ℕ) (incoming slots : List Entry)
    (hlen : slots.length = kept + incoming.length)
    (hindex : ∀ i e, incoming[i]? = some e → e.index = base + kept + i + 1) :
    placeEntries base incoming slots = slots.take kept ++ incoming := by
  induction incoming generalizing kept slots with
  | nil => simp_all [placeEntries]
  | cons e rest ih =>
    have he : e.index = base + kept + 1 := hindex 0 e rfl
    simp only [List.length_cons] at hlen
    have hset : placeEntries base (e :: rest) slots = placeEntries base rest (slots.set kept e) := by
      have hslot : e.index - base - 1 = kept := by omega
      simp only [placeEntries, List.foldl_cons, if_pos (show base < e.index by omega), hslot]
    rw [hset, ih (kept + 1) (slots.set kept e) (by simp; omega)]
    · rw [List.take_add_one, List.take_set_of_le (le_refl kept), List.getElem?_set_self (by omega)]
      simp
    · intro i x hx
      have := hindex (i + 1) x (by simpa using hx)
      omega

/-- The entries a host has on disk after it applied what a reconciliation reports. -/
def persisted (entries : List Entry) (baseIndex : ℕ) (log : Log) (r : ReconcileResult) :
    List Entry :=
  (if r.truncateFrom == 0 then entries else entries.take (r.truncateFrom - baseIndex - 1)) ++
    logSlice log r.appendFrom r.appendCount

theorem resizeEntries_take {entries : List Entry} {kept count : ℕ} (hkept : kept ≤ entries.length)
    (hcount : kept ≤ count) : (resizeEntries entries count).take kept = entries.take kept := by
  unfold resizeEntries
  rw [List.take_append_of_le_length (by simp; omega), List.take_take, Nat.min_eq_left hcount]

theorem resizeEntries_length (entries : List Entry) (count : ℕ) :
    (resizeEntries entries count).length = count := by
  simp only [resizeEntries, List.length_append, List.length_take, List.length_replicate]
  omega

theorem persisted_replaced (entries : List Entry) (result : Log) {previous first : ℕ}
    {truncates : Bool} {more : List Entry} {count : ℕ} (hbase : result.baseIndex ≤ previous)
    (hlen : previous - result.baseIndex + first ≤ entries.length)
    (hend : truncates = false → entries.length = previous - result.baseIndex + first)
    (hentries : result.entries = entries.take (previous - result.baseIndex + first) ++ more)
    (hcount : more.length = count) :
    persisted entries result.baseIndex result
      { matched := true
        changed := true
        rejectHint := 0
        truncateFrom := if truncates then previous + first + 1 else 0
        appendFrom := previous + first + 1
        appendCount := count } = result.entries := by
  have hslot : previous + first + 1 - result.baseIndex - 1 =
      previous - result.baseIndex + first := by omega
  have hslice : logSlice result (previous + first + 1) count = more := by
    rw [logSlice, hslot, hentries, List.drop_left' (by rw [List.length_take]; omega),
      List.take_of_length_le hcount.le]
  cases truncates with
  | false => simp [persisted, hslice, hentries, ← hend rfl]
  | true => simp [persisted, hslice, hentries, hslot]

end RaftLogLemmas
