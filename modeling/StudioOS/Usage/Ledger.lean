import StudioOS.Usage.Quantities

/-!
# Ledger — ingestion, corrections and replays

`create_usage` and `correct_usage` of `services/usage.py`. A fact has one
entry, under its machine and source event: ingestion inserts it unless it is
there, a correction replaces its measures and takes its version from the one
it expects to the next.
-/

namespace StudioOS.Usage

open List Authz
open Budgets (Measure CachedTokensScope)

/-! ## What a request looks up -/

structure LaunchScope where
  launchId : Uuid
  projectId : Uuid
  taskId : Uuid

/-- `TaskLaunchModel`, as far as a link is checked. -/
structure LinkedLaunch where
  machineId : Uuid
  projectId : Uuid
  taskId : Uuid
  sessionId : Option Uuid

/-- `AIWorkLogModel`, as far as a link is checked. -/
structure LinkedWork where
  machineId : Option Uuid
  agentId : Uuid
  projectId : Uuid
  taskId : Option Uuid
  sessionId : Option Uuid

/-- `WorkSessionModel`, as far as a link is checked. -/
structure LinkedSession where
  machineId : Uuid
  taskId : Uuid

/-- The rows `session.get` finds, and who asks. -/
structure Caller where
  principal : Principal
  launchScope : Option LaunchScope
  project : Uuid → Bool
  launch : Uuid → Option LinkedLaunch
  work : Uuid → Option LinkedWork
  agent : Uuid → Option Agent
  session : Uuid → Option LinkedSession
  taskProject : Uuid → Option Uuid

def notFound (resource : String) : HttpError := ⟨404, [("detail", resource ++ " not found")]⟩

def conflict (code : String) : HttpError := ⟨409, [("error_code", code)]⟩

def invalidLink (resource : String) : HttpError :=
  ⟨409, [("error_code", "invalid_usage_link"), ("resource", resource)]⟩

def ensureOwnMachine (principal : Principal) (machineId : Uuid) : Except HttpError Unit := do
  ensureCanWrite principal "usage"
  if machineId ≠ principal.machine.id then throw (conflict "actor_not_owned")

def ensureLaunchScope (caller : Caller) (entry : UsageIdentity) : Except HttpError Unit :=
  match caller.launchScope with
  | none => .ok ()
  | some scope =>
    if entry.projectId ≠ scope.projectId ∨ entry.taskId ≠ some scope.taskId ∨
        entry.taskLaunchId ≠ some scope.launchId then
      .error ⟨403, [("error_code", "launch_credential_scope")]⟩
    else .ok ()

/-- The largest values of the columns, in the order they are checked. -/
def measurementMaxima (entry : UsageMetrics) : List (String × Option Nat × Nat) :=
  [("tokens_in", entry.tokensIn.value?, 2 ^ 63 - 1),
    ("tokens_out", entry.tokensOut.value?, 2 ^ 63 - 1),
    ("tokens_cached", entry.tokensCached.value?, 2 ^ 63 - 1),
    ("cost", (amount entry.cost).value?, 10 ^ 18 - 1),
    ("duration", entry.duration.value?, 10 ^ 14 - 1)]

def validateMeasurements (entry : UsageMetrics) : Except HttpError Unit :=
  (measurementMaxima entry).forM fun (name, value, maximum) =>
    if value.any (maximum < ·) then
      .error ⟨422, [("error_code", "invalid_usage_measurement"), ("metric", name)]⟩
    else .ok ()

/-- A `set` of identifiers with one added. -/
def addId (ids : List Uuid) (id : Option Uuid) : List Uuid :=
  match id with
  | none => ids
  | some id => if id ∈ ids then ids else ids ++ [id]

/-- The launch of an entry, with the tasks and sessions it adds. -/
def launchLinks (caller : Caller) (entry : UsageIdentity) (links : List Uuid × List Uuid) :
    Except HttpError (List Uuid × List Uuid) :=
  match entry.taskLaunchId with
  | none => .ok links
  | some launchId => do
    let some launch := caller.launch launchId | throw (notFound "task launch")
    if launch.machineId ≠ entry.machineId then throw (forbidden "task_launch" "link")
    if launch.projectId ≠ entry.projectId then throw (invalidLink "task_launch")
    return (addId links.1 launch.taskId, addId links.2 launch.sessionId)

/-- The work entry of an entry, with the tasks and sessions it adds. -/
def workLinks (caller : Caller) (entry : UsageIdentity) (links : List Uuid × List Uuid) :
    Except HttpError (List Uuid × List Uuid) :=
  match entry.aiWorkId with
  | none => .ok links
  | some workId => do
    let some work := caller.work workId | throw (notFound "ai_work entry")
    if work.machineId.any (· ≠ entry.machineId) ∨
        ¬ ownsAgent (caller.agent work.agentId) caller.principal.machine then
      throw (forbidden "ai_work" "link")
    if work.projectId ≠ entry.projectId then throw (invalidLink "ai_work")
    return (addId links.1 work.taskId, addId links.2 work.sessionId)

/-- The sessions of an entry, with the tasks they add. A set has no order; it
is walked here in the order in which the identifiers came. -/
def sessionTasks (caller : Caller) (entry : UsageIdentity) :
    List Uuid → List Uuid → Except HttpError (List Uuid)
  | tasks, [] => .ok tasks
  | tasks, sessionId :: rest => do
    let some linked := caller.session sessionId | throw (notFound "session")
    if linked.machineId ≠ entry.machineId then throw (forbidden "session" "link")
    sessionTasks caller entry (addId tasks linked.taskId) rest

def validateIdentity (caller : Caller) (entry : UsageIdentity) (metrics : UsageMetrics) :
    Except HttpError Unit := do
  ensureLaunchScope caller entry
  ensureProjectAccess caller.principal entry.projectId "write"
  ensureOwnMachine caller.principal entry.machineId
  validateMeasurements metrics
  if ¬ caller.project entry.projectId then throw (notFound "project")
  let links ← launchLinks caller entry (addId [] entry.taskId, addId [] entry.sessionId)
  let (tasks, sessions) ← workLinks caller entry links
  let tasks ← sessionTasks caller entry tasks sessions
  if 1 < tasks.length ∨ 1 < sessions.length then throw (conflict "invalid_usage_link")
  tasks.forM fun taskId => do
    let some projectId := caller.taskProject taskId | throw (notFound "task")
    if projectId ≠ entry.projectId then throw (invalidLink "task")

/-- `uq_usage_ledger_machine_source`. -/
def UsageIdentity.source (entry : UsageIdentity) : Uuid × String :=
  (entry.machineId, entry.sourceEventId)

/-- `usage_ledger_entries`: a fact has one entry. -/
structure Ledger where
  entries : List UsageEntry
  unique : (entries.map fun entry => entry.toUsageIdentity.source).Nodup

def Ledger.getSource (ledger : Ledger) (source : Uuid × String) : Option UsageEntry :=
  ledger.entries.find? fun entry => entry.toUsageIdentity.source = source

/-- `INSERT … ON CONFLICT DO NOTHING`. -/
def Ledger.insert (ledger : Ledger) (entry : UsageEntry) : Ledger :=
  if h : entry.toUsageIdentity.source ∈
      ledger.entries.map fun entry => entry.toUsageIdentity.source then ledger
  else
    { entries := ledger.entries ++ [entry]
      unique := by
        rw [map_append, nodup_append]
        refine ⟨ledger.unique, nodup_singleton _, ?_⟩
        intro source hsource other hother heq
        rw [heq, mem_singleton.mp hother] at hsource
        exact h hsource }

def UsageEntry.corrected (entry : UsageEntry) (block : MeasuredBlock) : UsageEntry :=
  { entry with
    toMeasuredBlock := block
    version := entry.version + 1 }

def Ledger.correct (ledger : Ledger) (source : Uuid × String) (block : MeasuredBlock) : Ledger :=
  { entries := ledger.entries.map fun entry =>
      if entry.toUsageIdentity.source = source then entry.corrected block else entry
    unique := by
      have hmap : (fun entry : UsageEntry => entry.toUsageIdentity.source) ∘ (fun entry =>
          if entry.toUsageIdentity.source = source then entry.corrected block else entry) =
            fun entry => entry.toUsageIdentity.source := by
        funext entry
        by_cases h : entry.toUsageIdentity.source = source
        · rw [Function.comp_apply, if_pos h]
          rfl
        · rw [Function.comp_apply, if_neg h]
      rw [map_map, hmap]
      exact ledger.unique }

/-- `UsageLedgerEntryCreate`. -/
structure UsageCreate extends UsageIdentity, MeasuredBlock

/-- The row an ingestion inserts. -/
def UsageCreate.row (entry : UsageCreate) : UsageEntry :=
  { toUsageIdentity := entry.toUsageIdentity
    toMeasuredBlock := entry.toMeasuredBlock
    version := 1 }

/-- `UsageLedgerCorrection`. -/
structure UsageCorrection extends MeasuredBlock where
  machineId : Uuid
  sourceEventId : String
  expectedVersion : Nat

def createUsage (caller : Caller) (ledger : Ledger) (entry : UsageCreate) :
    Except HttpError (Ledger × UsageEntry) := do
  validateIdentity caller entry.toUsageIdentity entry.toUsageMetrics
  let ledger := ledger.insert entry.row
  match ledger.getSource entry.toUsageIdentity.source with
  | none => throw ⟨500, []⟩
  | some row =>
    if row.toUsageIdentity ≠ entry.toUsageIdentity ∨
        row.provenance.collector ≠ entry.provenance.collector then
      throw (conflict "usage_identity_conflict")
    validateIdentity caller row.toUsageIdentity row.toUsageMetrics
    return (ledger, row)

def correctUsage (caller : Caller) (ledger : Ledger) (correction : UsageCorrection) :
    Except HttpError (Ledger × UsageEntry) := do
  let source := (correction.machineId, correction.sourceEventId)
  ensureOwnMachine caller.principal correction.machineId
  validateMeasurements correction.toUsageMetrics
  match ledger.getSource source with
  | none => throw (notFound "usage entry")
  | some row =>
    validateIdentity caller row.toUsageIdentity row.toUsageMetrics
    if row.provenance.collector ≠ correction.provenance.collector then
      throw (conflict "usage_identity_conflict")
    if row.version ≠ correction.expectedVersion then
      throw ⟨409, [("error_code", "version_conflict"), ("server_version", toString row.version)]⟩
    return (ledger.correct source correction.toMeasuredBlock,
      row.corrected correction.toMeasuredBlock)

/-- One request to the ledger. -/
inductive Request where
  | create (caller : Caller) (entry : UsageCreate)
  | correct (caller : Caller) (correction : UsageCorrection)

def Request.answer (ledger : Ledger) : Request → Except HttpError (Ledger × UsageEntry)
  | .create caller entry => createUsage caller ledger entry
  | .correct caller correction => correctUsage caller ledger correction

/-- The ledger after a request: a request that raises is rolled back. -/
def Request.commit (ledger : Ledger) (request : Request) : Ledger :=
  match request.answer ledger with
  | .ok (ledger, _) => ledger
  | .error _ => ledger

def commitAll (ledger : Ledger) (requests : List Request) : Ledger :=
  requests.foldl Request.commit ledger

/-- The source event sent again: an ingestion of it, with whatever measures, or
the same correction of it. -/
inductive Replays : Request → Request → Prop where
  | create {caller caller' entry entry'}
      (source : entry'.toUsageIdentity.source = entry.toUsageIdentity.source) :
      Replays (.create caller entry) (.create caller' entry')
  | correct {caller caller' correction} :
      Replays (.correct caller correction) (.correct caller' correction)

/-! ## Replays -/

/-- The fact has its entry, in this version or a later one. -/
def Ledger.Holds (ledger : Ledger) (source : Uuid × String) (version : Nat) : Prop :=
  ∃ row, ledger.getSource source = some row ∧ version ≤ row.version

variable {ledger ledger' : Ledger} {source : Uuid × String} {row : UsageEntry}

theorem source_of_getSource (h : ledger.getSource source = some row) :
    row ∈ ledger.entries ∧ row.toUsageIdentity.source = source := by
  refine ⟨List.mem_of_find?_eq_some h, ?_⟩
  have hfound := List.find?_some h
  exact of_decide_eq_true hfound

theorem insert_of_holds {ledger : Ledger} {entry : UsageEntry} {version : Nat}
    (h : ledger.Holds entry.toUsageIdentity.source version) : ledger.insert entry = ledger := by
  obtain ⟨row, hrow, -⟩ := h
  obtain ⟨hmem, hsource⟩ := source_of_getSource hrow
  exact dif_pos (mem_map.mpr ⟨row, hmem, hsource⟩)

theorem Ledger.Holds.insert {version} (h : ledger.Holds source version) (entry) :
    (ledger.insert entry).Holds source version := by
  obtain ⟨row, hrow, hversion⟩ := h
  refine ⟨row, ?_, hversion⟩
  rw [Ledger.insert]
  split
  · exact hrow
  · rw [Ledger.getSource] at hrow ⊢
    rw [List.find?_append, hrow]
    rfl

theorem Ledger.Holds.correct {ledger : Ledger} {source : Uuid × String} {version : Nat}
    (h : ledger.Holds source version) (corrected : Uuid × String) (block : MeasuredBlock) :
    (ledger.correct corrected block).Holds source version := by
  obtain ⟨row, hrow, hversion⟩ := h
  let update := fun entry : UsageEntry =>
    if entry.toUsageIdentity.source = corrected then entry.corrected block else entry
  have hidentity : ∀ entry, (update entry).toUsageIdentity = entry.toUsageIdentity := by
    intro entry
    by_cases hc : entry.toUsageIdentity.source = corrected
    · simp only [update, if_pos hc]
      rfl
    · simp [update, if_neg hc]
  have hversion' : row.version ≤ (update row).version := by
    by_cases hc : row.toUsageIdentity.source = corrected
    · simp only [update, if_pos hc]
      exact Nat.le_succ _
    · simp only [update, if_neg hc]
      exact Nat.le_refl _
  refine ⟨update row, ?_, hversion.trans hversion'⟩
  rw [Ledger.getSource] at hrow ⊢
  show (ledger.entries.map update).find? _ = _
  rw [List.find?_map]
  simp only [Function.comp_def, hidentity, hrow, Option.map_some]

theorem holds_correct (h : ledger.getSource source = some row) (block) :
    (ledger.correct source block).Holds source (row.version + 1) := by
  obtain ⟨-, hsource⟩ := source_of_getSource h
  refine ⟨row.corrected block, ?_, Nat.le_refl _⟩
  have hidentity : ∀ entry : UsageEntry, (if entry.toUsageIdentity.source = source then
      entry.corrected block else entry).toUsageIdentity = entry.toUsageIdentity := by
    intro entry
    by_cases hc : entry.toUsageIdentity.source = source
    · rw [if_pos hc]
      rfl
    · rw [if_neg hc]
  rw [Ledger.getSource] at h ⊢
  rw [Ledger.correct, List.find?_map]
  simp only [Function.comp_def, hidentity, h, Option.map_some, if_pos hsource]

theorem createUsage_ok {caller entry}
    (h : createUsage caller ledger entry = .ok (ledger', row)) : ledger' = ledger.insert entry.row ∧
      ledger'.getSource entry.toUsageIdentity.source = some row := by
  obtain ⟨_, _, h⟩ := bind_ok h
  dsimp only at h
  split at h
  · cases h
  · rename_i found hfound
    obtain ⟨_, h⟩ := guard_ok h
    obtain ⟨_, _, h⟩ := bind_ok h
    obtain ⟨rfl, rfl⟩ := Prod.mk.inj (Except.ok.inj h)
    exact ⟨rfl, hfound⟩

theorem correctUsage_ok {caller correction}
    (h : correctUsage caller ledger correction = .ok (ledger', row)) :
    ∃ found, ledger.getSource (correction.machineId, correction.sourceEventId) = some found ∧
      found.version = correction.expectedVersion ∧
        ledger' = ledger.correct (correction.machineId, correction.sourceEventId)
          correction.toMeasuredBlock := by
  obtain ⟨_, _, h⟩ := bind_ok h
  obtain ⟨_, _, h⟩ := bind_ok h
  split at h
  · cases h
  rename_i found hfound
  obtain ⟨_, _, h⟩ := bind_ok h
  obtain ⟨_, h⟩ := guard_ok h
  obtain ⟨hversion, h⟩ := guard_ok h
  obtain ⟨rfl, -⟩ := Prod.mk.inj (Except.ok.inj h)
  exact ⟨found, hfound, not_not.mp hversion, rfl⟩

theorem Ledger.Holds.commit {ledger source version} (h : ledger.Holds source version)
    (request : Request) :
    (request.commit ledger).Holds source version := by
  rw [Request.commit]
  split
  · rename_i ledger' row hanswer
    cases request with
    | create caller entry =>
      obtain ⟨rfl, -⟩ := createUsage_ok hanswer
      exact h.insert entry.row
    | correct caller correction =>
      obtain ⟨_, -, -, rfl⟩ := correctUsage_ok hanswer
      exact h.correct _ _
  · exact h

theorem Ledger.Holds.commitAll {version} (h : ledger.Holds source version) (requests) :
    (commitAll ledger requests).Holds source version := by
  induction requests generalizing ledger with
  | nil => exact h
  | cons request requests ih => exact ih (h.commit request)

/-- Once a request was accepted, the same source event changes nothing again,
whatever came in between. -/
theorem commit_of_replays {request replay} (h : request.answer ledger = .ok (ledger', row))
    (hreplay : Replays request replay) (requests) :
    replay.commit (commitAll ledger' requests) = commitAll ledger' requests := by
  cases hreplay with
  | @create caller caller' entry entry' hsource =>
    obtain ⟨-, hrow⟩ := createUsage_ok h
    have hholds : ledger'.Holds entry.toUsageIdentity.source 0 := ⟨row, hrow, Nat.zero_le _⟩
    rw [Request.commit]
    split
    · rename_i ledger'' row' hanswer
      obtain ⟨rfl, -⟩ := createUsage_ok hanswer
      refine @insert_of_holds _ entry'.row 0 ?_
      rw [UsageCreate.row, hsource]
      exact hholds.commitAll requests
    · rfl
  | @correct caller caller' correction =>
    obtain ⟨found, hfound, hversion, rfl⟩ := correctUsage_ok h
    have hholds := (holds_correct hfound correction.toMeasuredBlock).commitAll requests
    rw [Request.commit]
    split
    · rename_i ledger'' row' hanswer
      -- a replay that went through would have found the expected version again
      obtain ⟨again, hagain, hsame, -⟩ := correctUsage_ok hanswer
      obtain ⟨later, hlater, hle⟩ := hholds
      rw [hlater] at hagain
      cases hagain
      omega
    · rfl

/-! ## The summary of a ledger -/

/-- The request is answered, and with what the entries add up to. -/
def Reports (titles : Uuid → Option String) (principal : Principal) (query : SummaryQuery)
    (now : Timestamp) (entries : List UsageEntry) (parts : List Part) : Prop :=
  ∃ summary groups, summarizeUsage principal query now parts = .ok summary ∧
    Summarizes titles query entries groups summary

def entryParts (titles : Uuid → Option String) (query : SummaryQuery) (entries : List UsageEntry) :
    List Part :=
  (query.scope entries).map fun entry =>
    { key := groupKey titles query.groupBy entry
      currency := entry.costCurrency
      collector := entry.provenance.collector
      entries := [entry] }

theorem partition_entryParts (titles query entries) :
    Partition titles query entries (entryParts titles query entries) := by
  refine ⟨?_, ?_, ?_, ?_, ?_⟩
  · rw [entryParts, flatMap_map]
    exact List.Perm.of_eq (flatMap_singleton' _)
  all_goals
    intro part hpart
    obtain ⟨entry, -, rfl⟩ := mem_map.mp hpart
    simp

/-- A summary is what the entries add up to as long as the database can add the
tokens of each of them, and only then; sums of more than 28 digits apart, which
are rounded. Replays change nothing. -/
theorem usage_summary_direct (titles : Uuid → Option String) (principal : Principal)
    (query : SummaryQuery) (now : Timestamp) (ledger : Ledger) (parts : List Part)
    (hparts : Partition titles query ledger.entries parts) (hadmitted : Admitted principal query) :
    ((∀ entry ∈ query.scope ledger.entries, ¬ Overflows entry.toUsageMetrics) →
      Fits (query.scope ledger.entries) → Reports titles principal query now ledger.entries parts) ∧
    (Reports titles principal query now ledger.entries parts →
      ∀ entry ∈ query.scope ledger.entries, ¬ Overflows entry.toUsageMetrics) ∧
    ∀ request accepted row replay, request.answer ledger = .ok (accepted, row) →
      Replays request replay → ∀ requests,
        replay.commit (commitAll accepted requests) = commitAll accepted requests := by
  refine ⟨?_, ?_, ?_⟩
  · intro hsums hfits
    exact summarizeUsage_ok hparts hadmitted hfits hsums now
  · intro ⟨summary, _, hok, _⟩ entry hentry hoverflows
    exact summarizeUsage_fails hparts hadmitted hentry hoverflows now summary hok
  · intro request accepted row replay hanswer hreplay requests
    exact commit_of_replays hanswer hreplay requests

section
variable (tokens : Nat) (cost : Measure (Nat × String))

/-- An entry of a machine, with as many tokens in as out. -/
def sampleCreate (event : String) : UsageCreate :=
  { projectId := ⟨"p"⟩
    machineId := ⟨"m"⟩
    sourceEventId := event
    taskId := none
    sessionId := none
    taskLaunchId := none
    aiWorkId := none
    tokensIn := .measured tokens
    tokensOut := .measured tokens
    tokensCached := .measured tokens
    cachedTokensScope := .includedInInput
    cost
    duration := .unknown
    provenance := ⟨"collector", none, none, none, none, none⟩
    periodStart := 0
    periodEnd := 1
    pricing := none }

end

def samplePrincipal : Principal :=
  { machine := ⟨⟨"m"⟩, ⟨"u"⟩⟩
    role := .developer
    projectScope := .projects [⟨"p"⟩] }

def sampleCaller : Caller :=
  { principal := samplePrincipal
    launchScope := none
    project := fun _ => true
    launch := fun _ => none
    work := fun _ => none
    agent := fun _ => none
    session := fun _ => none
    taskProject := fun _ => none }

def sampleQuery : SummaryQuery :=
  { projectId := ⟨"p"⟩
    taskId := none
    taskLaunchId := none
    groupBy := .none
    since := none
    until_ := none
    maxGroups := 100 }

def emptyLedger : Ledger := ⟨[], nodup_nil⟩

theorem admitted_sample : Admitted samplePrincipal sampleQuery := ⟨by decide, by simp [sampleQuery]⟩

/-- Two entries, of which one has no known cost. -/
theorem usage_summary_direct_sample : Reports (fun _ => none) samplePrincipal sampleQuery 0
      [(sampleCreate 3 .unknown "a").row, (sampleCreate 4 (.measured (5, "EUR")) "b").row]
      (entryParts (fun _ => none) sampleQuery
        [(sampleCreate 3 .unknown "a").row, (sampleCreate 4 (.measured (5, "EUR")) "b").row]) := by
  refine (usage_summary_direct (fun _ => none) samplePrincipal sampleQuery 0
    ⟨[(sampleCreate 3 .unknown "a").row, (sampleCreate 4 (.measured (5, "EUR")) "b").row],
      by decide⟩ _ (partition_entryParts _ _ _) admitted_sample).1 ?_ ?_
  · intro entry hentry
    have hscope := mem_of_mem_filter hentry
    simp only [mem_cons, not_mem_nil, or_false] at hscope
    rcases hscope with rfl | rfl <;> simp [Overflows, sampleCreate, UsageCreate.row, Measure.value?]
  · intro name
    cases name <;> decide +kernel

/-- An accepted entry makes the summary of its project fail. -/
theorem summary_overflows : ¬ ∀ titles principal query now requests parts,
      Partition titles query (commitAll emptyLedger requests).entries parts →
        Admitted principal query →
          Reports titles principal query now (commitAll emptyLedger requests).entries parts := by
  intro h
  let requests := [Request.create sampleCaller (sampleCreate (2 ^ 63 - 1) .unknown "a")]
  have hentries : (commitAll emptyLedger requests).entries =
      [(sampleCreate (2 ^ 63 - 1) .unknown "a").row] := by decide +kernel
  have hpartition := partition_entryParts (fun _ => none) sampleQuery
    (commitAll emptyLedger requests).entries
  obtain ⟨summary, _, hok, -⟩ := h (fun _ => none) samplePrincipal sampleQuery 0 requests _
    hpartition admitted_sample
  have hscope : (sampleCreate (2 ^ 63 - 1) .unknown "a").row ∈
      sampleQuery.scope (commitAll emptyLedger requests).entries := by
    rw [hentries]
    decide +kernel
  refine summarizeUsage_fails hpartition admitted_sample hscope ?_ 0 summary hok
  simp [Overflows, sampleCreate, UsageCreate.row, Measure.value?]

end StudioOS.Usage
