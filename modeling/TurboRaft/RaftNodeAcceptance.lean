import Mathlib.Data.List.Nodup
import TurboRaft.RaftNodeConfig
import TurboRaft.RaftRecovery

/-! # Acceptance of node settings by the core

The settings of a group that the node accepts are accepted by the core exactly when the group has
learners and both member lists ascend: the conversion always sets the learner pointer, which the
core refuses without learners, and the node does not look at the order of members. -/
namespace RaftNodeAcceptance

open RaftTypes RaftConfiguration RaftMembership RaftMembershipTransition RaftLog RaftCore
open RaftMulticore RaftNodeConfig RaftConfigurationLemmas RaftRecovery

theorem setsDisjoint_of_disjoint (fuel : ℕ) (voters learners : List NodeId)
    (h : voters.Disjoint learners) : setsDisjoint fuel voters learners = true := by
  induction fuel generalizing voters learners with
  | zero => cases voters <;> cases learners <;> rfl
  | succ fuel ih =>
    match voters, learners with
    | [], _ | _ :: _, [] => rfl
    | v :: vs, l :: ls =>
      have hne : v ≠ l := fun heq => h List.mem_cons_self (heq ▸ List.mem_cons_self)
      simp only [setsDisjoint, beq_iff_eq, hne, if_false]
      split_ifs
      · exact ih vs (l :: ls) fun _ hv hl => h (List.mem_cons_of_mem _ hv) hl
      · exact ih (v :: vs) ls fun _ hv hl => h hv (List.mem_cons_of_mem _ hl)

theorem nodup_of_new {ids : List NodeId}
    (h : ∀ j id, ids[j]? = some id → id ∉ ids.take j) : ids.Nodup := by
  rw [List.nodup_iff_pairwise_ne, List.pairwise_iff_getElem]
  intro i j hi hj hij heq
  refine h j ids[j] (List.getElem?_eq_getElem hj) ?_
  rw [← heq]
  exact List.mem_take_iff_getElem.mpr ⟨i, by omega, rfl⟩

theorem membershipStable_of_sets {voters learners : List NodeId} (hpos : voters ≠ [])
    (hsize : voters.length + learners.length ≤ maxMembers) (hvoters : idsAscending voters = true)
    (hlearners : idsAscending learners = true) (hdisjoint : voters.Disjoint learners) :
    ∃ configuration, membershipStable voters learners = .ok configuration := by
  have hset : membershipValidateSet voters learners = .ok := by
    have hmany : ¬ maxMembers < voters.length := by omega
    have hroom : ¬ maxMembers - voters.length < learners.length := by omega
    simp [membershipValidateSet, hpos, hmany, hroom, hvoters, hlearners,
      setsDisjoint_of_disjoint _ _ _ hdisjoint]
  exact ⟨_, by rw [membershipStable, hset]; rfl⟩

section Creation

structure Unrecovered (config : CoreConfig) : Prop where
  configuration : config.initialConfiguration = none
  vote : config.initialVote = 0
  lastIndex : config.initialLastLogIndex = 0
  lastTerm : config.initialLastLogTerm = 0
  entries : config.initialLogEntries = []
  commit : config.initialCommitIndex = 0
  applied : config.initialAppliedIndex = 0

structure Checked (config : CoreConfig) : Prop where
  self : config.selfId ≠ 0
  voters : config.voters ≠ []
  size : config.voters.length + config.learners.length ≤ maxMembers
  heartbeat : config.heartbeatTicks ≠ 0
  electionMin : config.heartbeatTicks < config.electionMinTicks
  electionMax : config.electionMinTicks ≤ config.electionMaxTicks
  timeout : config.electionMinTicks ≤ config.initialElectionTimeoutTicks ∧
    config.initialElectionTimeoutTicks ≤ config.electionMaxTicks
  inflight : config.maxInflightAppendRequests ≤ RaftTypes.maxInflightAppendRequests
  reads : config.maxPendingReads ≤ maxPendingReadsLimit
  capacity : config.maxLogEntries ≤ uint64Max
  nodup : (config.voters ++ config.learners).Nodup
  member : config.selfId ∈ config.voters ++ config.learners

variable {config : CoreConfig}

theorem settingsInvalid_of_checked (h : Checked config) :
    settingsInvalid config = (!idsAscending config.voters || !idsAscending config.learners) := by
  have hdisjoint := List.disjoint_of_nodup_append h.nodup
  have hshared : config.learners.any (fun id => config.voters.contains id) = false := by
    rw [List.any_eq_false]
    intro id hid
    simpa using fun hvoter => hdisjoint hvoter hid
  have hvoters : config.voters.length ≠ 0 := fun hzero => h.voters (List.length_eq_zero_iff.mp hzero)
  have hsize := h.size
  unfold settingsInvalid
  simp only [beq_eq_false_iff_ne.mpr h.self, beq_eq_false_iff_ne.mpr hvoters,
    beq_eq_false_iff_ne.mpr h.heartbeat, hshared, Bool.or_false, Bool.false_or,
    decide_eq_false (Nat.not_lt.mpr (Nat.le_trans (Nat.le_add_right _ _) hsize)),
    decide_eq_false (Nat.not_lt.mpr (Nat.le_trans (Nat.le_add_left _ _) hsize)),
    decide_eq_false (Nat.not_lt.mpr hsize), decide_eq_false (Nat.not_le.mpr h.electionMin),
    decide_eq_false (Nat.not_lt.mpr h.electionMax), decide_eq_false (Nat.not_lt.mpr h.timeout.1),
    decide_eq_false (Nat.not_lt.mpr h.timeout.2), decide_eq_false (Nat.not_lt.mpr h.inflight),
    decide_eq_false (Nat.not_lt.mpr h.reads)]

theorem identityInvalid_of_checked (h : Checked config) (hfresh : Unrecovered config) :
    identityInvalid config = false := by
  have hcount : config.voters.count config.selfId + config.learners.count config.selfId = 1 := by
    rw [← List.count_append]
    exact List.count_eq_one_of_mem h.nodup h.member
  simp [identityInvalid, configuredSelfCount, hfresh.configuration, hfresh.vote, hcount]

theorem coreCreate_of_checked (h : Checked config) (hfresh : Unrecovered config)
    (hvoters : idsAscending config.voters = true) (hlearners : idsAscending config.learners = true) :
    ∃ core, coreCreate config = .ok core := by
  obtain ⟨membership, hstable⟩ := membershipStable_of_sets h.voters h.size hvoters hlearners
    (List.disjoint_of_nodup_append h.nodup)
  have htransition : createTransition config = .ok { committed := membership, pending := [] } := by
    simp [createTransition, hfresh.configuration, membershipTransitionInit, hstable]
  have hlog : ∃ log, createLog config = .ok log ∧ log.entries = [] := by
    have hcapacity := h.capacity
    have hentries : (if config.maxLogEntries == 0 then defaultMaxLogEntries
        else config.maxLogEntries) ≠ 0 := by
      split_ifs with hzero
      · decide
      · simpa using hzero
    have hroom : ¬ uint64Max - 0 < (if config.maxLogEntries == 0 then defaultMaxLogEntries
        else config.maxLogEntries) := by
      split_ifs
      · decide
      · omega
    refine ⟨{ entries := [], maxEntries := if config.maxLogEntries == 0 then defaultMaxLogEntries
      else config.maxLogEntries, baseIndex := 0, baseTerm := 0 }, ?_, rfl⟩
    simp only [createLog, hfresh.entries, hfresh.lastIndex, hfresh.lastTerm, logInit, logBaseValid,
      beq_eq_false_iff_ne.mpr hentries, hroom]
    rfl
  obtain ⟨log, hlog, hempty⟩ := hlog
  have hsettings : (settingsInvalid config || identityInvalid config) = false := by
    rw [settingsInvalid_of_checked h, identityInvalid_of_checked h hfresh, hvoters, hlearners]
    rfl
  refine coreCreate_plain hsettings htransition (membershipStable_valid hstable).1 hlog
    (by simp [hempty]) fun peers => ?_
  simp [indicesInvalid, blankCore, orBase, hfresh.lastIndex, hfresh.commit, hfresh.applied]

/-- A checked configuration without recovered state is created exactly when both lists ascend. -/
theorem coreCreate_ok_iff (h : Checked config) (hfresh : Unrecovered config) :
    (coreCreate config).isOk = true ↔
      idsAscending config.voters = true ∧ idsAscending config.learners = true := by
  constructor
  · intro hok
    have hsettings : settingsInvalid config = false := by
      by_contra hinvalid
      simp [coreCreate, Bool.not_eq_false _ ▸ hinvalid, Except.isOk, Except.toBool] at hok
    rw [settingsInvalid_of_checked h] at hsettings
    simpa using hsettings
  · rintro ⟨hvoters, hlearners⟩
    obtain ⟨core, hcore⟩ := coreCreate_of_checked h hfresh hvoters hlearners
    rw [hcore]
    rfl

end Creation

section Groups

variable {sizes : ElementSizes} {s : NodeSettings} {groups : List NodeGroupConfig}
variable {g : NodeGroupConfig} {a : GroupAssignment}

theorem convertGroup_core {nodeId : NodeId} {v : GroupDocument}
    (h : convertGroup nodeId v = some (g, a)) :
    Unrecovered g.core.config ∧ g.core.votersPresent = true ∧ g.core.learnersPresent = true ∧
      g.core.config.maxInflightAppendRequests = 0 ∧ g.core.config.maxPendingReads = 0 ∧
      g.core.config.maxLogEntries ≤ uint32Max := by
  simp only [convertGroup, Option.bind_eq_bind, Option.bind_eq_some_iff] at h
  obtain ⟨groupId, _, ownerIndex, _, heartbeat, _, electionMin, _, electionMax, _, capacity, hcapacity,
    h⟩ := h
  split_ifs at h with hmany
  simp only [Option.bind_eq_some_iff, Option.some.injEq, Prod.mk.injEq] at h
  obtain ⟨voters, _, learners, _, h⟩ := h
  obtain ⟨rfl, rfl⟩ := h
  refine ⟨⟨rfl, rfl, rfl, rfl, rfl, rfl, rfl⟩, rfl, rfl, rfl, rfl, ?_⟩
  simp only [nodeU32, Option.bind_eq_some_iff] at hcapacity
  obtain ⟨value, _, hvalue⟩ := hcapacity
  split_ifs at hvalue with hle
  cases hvalue
  exact hle

theorem validate_groups (h : nodeSettingsValidate sizes s = .ok) :
    s.nodeId ≠ 0 ∧ ∃ groups, s.groups = some groups ∧
      ∀ i, i < s.runtime.groups.length → ∃ g a, groups[i]? = some g ∧ s.runtime.groups[i]? = some a ∧
        groupValid s (groups.take i) g a = true := by
  unfold nodeSettingsValidate at h
  cases hgroups : s.groups with
  | none => simp [hgroups] at h
  | some groups =>
    simp only [hgroups] at h
    split_ifs at h with hidentity hruntime hnetwork howners hvalid
    · simp [h] at hruntime
    · simp only [Bool.or_eq_true, beq_iff_eq, not_or] at hidentity
      refine ⟨hidentity.1, groups, rfl, fun i hi => ?_⟩
      simp only [Bool.not_eq_true', Bool.not_eq_false, List.all_eq_true, List.mem_range] at hvalid
      have hgroup := hvalid i hi
      split at hgroup
      · exact ⟨_, _, ‹_›, ‹_›, hgroup⟩
      · cases hgroup

theorem checked_of_groupValid (hnode : s.nodeId ≠ 0) {earlier : List NodeGroupConfig}
    (h : groupValid s earlier g a = true)
    (hinflight : g.core.config.maxInflightAppendRequests = 0)
    (hreads : g.core.config.maxPendingReads = 0)
    (hcapacity : g.core.config.maxLogEntries ≤ uint32Max) : Checked g.core.config := by
  simp only [groupValid, Bool.and_eq_true, beq_iff_eq, bne_iff_ne, ne_eq, decide_eq_true_eq,
    List.all_eq_true, List.mem_range, List.contains_iff_mem] at h
  obtain ⟨⟨⟨⟨⟨⟨⟨⟨⟨⟨⟨⟨⟨⟨⟨⟨⟨⟨-, -⟩, hself⟩, -⟩, hvoters⟩, hmany⟩, hroom⟩, -⟩, hheartbeat⟩, hmin⟩, hmax⟩,
    -⟩, -⟩, hlow⟩, hhigh⟩, -⟩, -⟩, hmembers⟩, hmember⟩ := h
  have hnew : ∀ j id, (g.core.config.voters ++ g.core.config.learners)[j]? = some id →
      id ∉ (g.core.config.voters ++ g.core.config.learners).take j := by
    intro j id hid
    have hj := (List.getElem?_eq_some_iff.mp hid).1
    have hvalid := hmembers j hj
    rw [hid] at hvalid
    simp only [Option.all_some, memberValid, Bool.and_eq_true, Bool.not_eq_true'] at hvalid
    simpa using hvalid.1.2
  refine ⟨hself ▸ hnode, ?_, by omega, hheartbeat, hmin, hmax, ⟨hlow, hhigh⟩, ?_, ?_, ?_,
    nodup_of_new hnew, hself ▸ hmember⟩
  · exact fun hnil => hvoters (hnil ▸ rfl)
  · rw [hinflight]
    exact Nat.zero_le _
  · rw [hreads]
    exact Nat.zero_le _
  · have : uint32Max ≤ uint64Max := by decide
    omega

/-- The core accepts a converted group of accepted settings exactly when the group has learners and
both of its member lists ascend. -/
theorem coreCreateSettings_ok_iff (hvalid : nodeSettingsValidate sizes s = .ok)
    (hgroups : s.groups = some groups) {i : ℕ} (hi : i < s.runtime.groups.length)
    (hgroup : groups[i]? = some g) {v : GroupDocument}
    (hconverted : convertGroup s.nodeId v = some (g, a)) :
    (coreCreateSettings g.core).isOk = true ↔
      g.core.config.learners ≠ [] ∧ idsAscending g.core.config.voters = true ∧
        idsAscending g.core.config.learners = true := by
  obtain ⟨hfresh, hvoters, hlearners, hinflight, hreads, hcapacity⟩ := convertGroup_core hconverted
  obtain ⟨hnode, groups', hgroups', hall⟩ := validate_groups hvalid
  obtain ⟨g', a', hgroup', _, hok⟩ := hall i hi
  have hsame : groups' = groups := Option.some.inj (hgroups'.symm.trans hgroups)
  subst hsame
  have hsameGroup : g' = g := Option.some.inj (hgroup'.symm.trans hgroup)
  subst hsameGroup
  have hchecked := checked_of_groupValid hnode hok hinflight hreads hcapacity
  rw [← coreCreate_ok_iff hchecked hfresh]
  unfold coreCreateSettings
  cases hlist : g'.core.config.learners with
  | nil => simp [hvoters, hlearners, Except.isOk, Except.toBool]
  | cons l ls => simp [hvoters, hlearners]

end Groups

def plainTls : TlsDocument :=
  { caFile := .absent
    certFile := .absent
    keyFile := .absent
    serverName := .absent
    requireClientCertificate := some true }

def peerDocument (id : UInt64) (name : Char) : PeerDocument :=
  { nodeId := some id
    identity := .text (textOf [name])
    endpoint := .text (tcpScheme ++ textOf [name])
    certificates := []
    tls := plainTls }

def groupDocument (voters learners : List UInt64) : GroupDocument :=
  { groupId := some 1
    ownerIndex := some 0
    heartbeatTicks := some 1
    electionMinTicks := some 10
    electionMaxTicks := some 20
    maxLogEntries := some 1024
    voters := voters.map some
    learners := learners.map some
    storagePath := .text (textOf ['/', 'w']) }

def nodeDocument (voters learners : List UInt64) : NodeDocument :=
  { version := some 1
    nodeId := some 1
    clusterId := some ⟨List.replicate 16 1, sixteen_ones⟩
    configEpoch := some 1
    ownerCount := some 1
    capacity := some 64
    workBudget := some 8
    tickMs := some 100
    idleMs := some 1
    networkEnabled := some true
    networkBatch := some 16
    networkQueueItems := some 256
    networkQueueBytes := some 4194304
    reconnectInitialMs := some 10
    reconnectMaxMs := some 1000
    heartbeatIntervalMs := some 1000
    heartbeatTimeoutMs := some 5000
    owners :=
      [ { bindEndpoint := .text (tcpScheme ++ textOf ['a'])
          identity := .text (textOf ['a'])
          peers := [peerDocument 2 'b', peerDocument 3 'c']
          tls := plainTls } ]
    groups := [groupDocument voters learners] }

def documentSizes : ElementSizes := { request := 8, completion := 8, sizeMax := 2 ^ 64 - 1 }

theorem ordered_group_with_learner :
    ∃ s groups g a, convertSettings (nodeDocument [1, 2] [3]) = some s ∧
      nodeSettingsValidate documentSizes s = .ok ∧ s.groups = some groups ∧ groups[0]? = some g ∧
      convertGroup s.nodeId (groupDocument [1, 2] [3]) = some (g, a) ∧
      (coreCreateSettings g.core).isOk = true := by
  have hvalid : nodeSettingsValidate documentSizes
      ((convertSettings (nodeDocument [1, 2] [3])).get rfl) = .ok := by decide +kernel
  refine ⟨_, _, _, _, rfl, hvalid, rfl, rfl, rfl, ?_⟩
  refine (coreCreateSettings_ok_iff (i := 0) (v := groupDocument [1, 2] [3]) hvalid rfl (by decide)
    rfl rfl).mpr ?_
  decide

/-- Both documents are accepted, and the core refuses their group: the first has no learners, the
second lists its voters in descending order. -/
theorem accepted_groups_refused :
    ((nodeConvert documentSizes (nodeDocument [1, 2, 3] [])).toOption.bind (·.groups)).any (fun groups =>
      groups.length == 1 && groups.all fun g => !(coreCreateSettings g.core).isOk) = true ∧
    ((nodeConvert documentSizes (nodeDocument [2, 1] [3])).toOption.bind (·.groups)).any (fun groups =>
      groups.length == 1 && groups.all fun g => !(coreCreateSettings g.core).isOk) = true := by
  decide +kernel

end RaftNodeAcceptance
