import TurboRaft.RaftConfiguration

/-! # The in-memory log

A bounded vector of entries above a base point. `logReconcile` is the only
operation that replaces entries, and never at or below its protected index. -/
namespace RaftLog

open RaftTypes RaftConfiguration

structure ReconcileResult where
  matched : Bool
  changed : Bool
  rejectHint : ℕ
  truncateFrom : ℕ
  appendFrom : ℕ
  appendCount : ℕ
  deriving DecidableEq, Repr

def ReconcileResult.empty : ReconcileResult := ⟨false, false, 0, 0, 0, 0⟩

def logBaseValid (index term : ℕ) : Bool :=
  (index == 0 && term == 0) || (index != 0 && term != 0)

def logInit (maxEntries baseIndex baseTerm : ℕ) : Except Status Log :=
  if maxEntries == 0 || !logBaseValid baseIndex baseTerm || uint64Max - baseIndex < maxEntries then
    .error .einval
  else
    .ok { entries := [], maxEntries, baseIndex, baseTerm }

def logCount (log : Log) : ℕ := log.entries.length

def logLastIndex (log : Log) : ℕ := log.baseIndex + logCount log

theorem logLastIndex_eq (log : Log) : logLastIndex log = log.baseIndex + log.entries.length := rfl

theorem logLastIndex_append {log : Log} {entries : List Entry} :
    logLastIndex { log with entries := log.entries ++ entries } =
      logLastIndex log + entries.length := by
  rw [logLastIndex_eq, logLastIndex_eq, List.length_append, ← Nat.add_assoc]

/-- The last index as the code computes it, in 64 bits. -/
def wordLastIndex (log : Log) : ℕ := (log.baseIndex + logCount log) % (uint64Max + 1)

/-- The index behind the last one fits in 64 bits. The calls that append local entries do not
check this, and every run is one that keeps it. -/
def Indexable (log : Log) : Prop := logLastIndex log < uint64Max

instance (log : Log) : Decidable (Indexable log) := inferInstanceAs (Decidable (_ < _))

theorem Indexable.word {log : Log} (h : Indexable log) : wordLastIndex log = logLastIndex log :=
  Nat.mod_eq_of_lt (Nat.lt_succ_of_lt h)

def logLastTerm (log : Log) : ℕ :=
  match log.entries.getLast? with
  | none => log.baseTerm
  | some entry => entry.term

def logGet (log : Log) (index : ℕ) : Option Entry :=
  if index ≤ log.baseIndex || logLastIndex log < index then none
  else log.entries[index - log.baseIndex - 1]?

def logSlice (log : Log) (first count : ℕ) : List Entry :=
  (log.entries.drop (first - log.baseIndex - 1)).take count

def logMatches (log : Log) (index term : ℕ) : Bool :=
  if index == log.baseIndex then term == log.baseTerm
  else
    match logGet log index with
    | none => false
    | some entry => entry.term == term

def logCompact (log : Log) (index term : ℕ) : Except Status Log :=
  if index ≤ log.baseIndex || term == 0 || logLastIndex log < index then
    .error .einval
  else if !logMatches log index term then
    .error .eproto
  else
    .ok { log with
      entries := log.entries.drop (index - log.baseIndex)
      baseIndex := index
      baseTerm := term }

def logAppendLocal (log : Log) (term : ℕ) (commandId : UInt64) (data : List UInt8) :
    Except Status (Log × Entry) :=
  if term == 0 || commandId == 0 then
    .error .einval
  else if maxEntryBytes < data.length || log.maxEntries ≤ logCount log then
    .error .enospc
  else
    let entry : Entry := { index := logLastIndex log + 1, term, commandId, data }
    .ok ({ log with entries := log.entries ++ [entry] }, entry)

def proposalValid (proposal : Proposal) : Bool :=
  proposal.commandId != 0 && decide (proposal.data.length ≤ maxEntryBytes)

def proposalEntries (firstIndex term : ℕ) (proposals : List Proposal) : List Entry :=
  proposals.zipIdx.map fun p =>
    { index := firstIndex + p.2, term, commandId := p.1.commandId, data := p.1.data }

def logAppendLocalBatch (log : Log) (term : ℕ) (proposals : List Proposal) :
    Except Status (Log × List Entry) :=
  if term == 0 || proposals.length == 0 || maxProposalBatch < proposals.length then
    .error .einval
  else if log.maxEntries < logCount log || log.maxEntries - logCount log < proposals.length then
    .error .enospc
  else if !proposals.all proposalValid then
    .error .einval
  else
    let entries := proposalEntries (logLastIndex log + 1) term proposals
    .ok ({ log with entries := log.entries ++ entries }, entries)

def logAppendConfiguration (log : Log) (term : ℕ) (configuration : Conf) :
    Except Status (Log × Entry) :=
  if term == 0 then
    .error .einval
  else if log.maxEntries ≤ logCount log then
    .error .enospc
  else
    match confEntryEncode configuration (logLastIndex log + 1) term with
    | .error status => .error status
    | .ok entry => .ok ({ log with entries := log.entries ++ [entry] }, entry)

def rejectHintLoop (log : Log) (conflictTerm : ℕ) : ℕ → ℕ
  | 0 => 0
  | previousIndex + 1 =>
    if log.baseIndex + 1 < previousIndex + 1 &&
        (logGet log previousIndex).any (fun prior => prior.term == conflictTerm) then
      rejectHintLoop log conflictTerm previousIndex
    else
      previousIndex + 1

def logRejectHint (log : Log) (previousIndex : ℕ) : ℕ :=
  if logLastIndex log < previousIndex then
    logLastIndex log + 1
  else if previousIndex ≤ log.baseIndex then
    log.baseIndex + 1
  else
    rejectHintLoop log (((logGet log previousIndex).map Entry.term).getD 0) previousIndex

inductive Scan where
  | refused (status : Status)
  | unchanged
  | change (position : ℕ) (truncates : Bool)
  deriving DecidableEq, Repr

/-- The validation walk of `logReconcile` up to the first entry that differs. Entries
after that point are copied without being checked. -/
def reconcileScan (log : Log) (previousIndex : ℕ) : ℕ → List Entry → Scan
  | _, [] => .unchanged
  | position, incoming :: rest =>
    if incoming.index != previousIndex + position + 1 || incoming.term == 0 ||
        maxEntryBytes < incoming.data.length then
      .refused .einval
    else if incoming.commandId == 0 && (confEntryDecode incoming).isOk == false then
      .refused .eproto
    else
      match logGet log (previousIndex + position + 1) with
      | none => .change position false
      | some current =>
        if current.term != incoming.term then .change position true
        else if current != incoming then .refused .eproto
        else reconcileScan log previousIndex (position + 1) rest

def zeroEntry : Entry := { index := 0, term := 0, commandId := 0, data := [] }

def resizeEntries (entries : List Entry) (count : ℕ) : List Entry :=
  entries.take count ++ List.replicate (count - entries.length) zeroEntry

/-- Each copied entry goes to the slot its own index names. The slot of an index
outside the resized vector does not exist, and nothing is written for it. -/
def placeEntries (baseIndex : ℕ) (incoming entries : List Entry) : List Entry :=
  incoming.foldl
    (fun entries entry =>
      if baseIndex < entry.index then entries.set (entry.index - baseIndex - 1) entry else entries)
    entries

def logReconcile (log : Log) (previousIndex previousTerm : ℕ) (incoming : List Entry)
    (protectedIndex : ℕ) : Except Status (Log × ReconcileResult) :=
  if uint64Max - previousIndex < incoming.length then
    .error .einval
  else if !logMatches log previousIndex previousTerm then
    .ok (log, { ReconcileResult.empty with rejectHint := logRejectHint log previousIndex })
  else
    match reconcileScan log previousIndex 0 incoming with
    | .refused status => .error status
    | .unchanged => .ok (log, { ReconcileResult.empty with matched := true })
    | .change first truncates =>
      let retainedCount := previousIndex - log.baseIndex + first
      let changeIndex := previousIndex + first + 1
      if truncates && decide (changeIndex ≤ protectedIndex) then
        .error .eproto
      else if log.maxEntries < retainedCount ||
          log.maxEntries - retainedCount < incoming.length - first then
        .error .enospc
      else
        .ok ({ log with
            entries := placeEntries log.baseIndex (incoming.drop first)
              (resizeEntries log.entries (retainedCount + (incoming.length - first))) },
          { matched := true
            changed := true
            rejectHint := 0
            truncateFrom := if truncates then changeIndex else 0
            appendFrom := changeIndex
            appendCount := incoming.length - first })

end RaftLog
