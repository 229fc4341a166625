import StudioOS.Library.JsonText
import StudioOS.Sync.Cursor

/-!
# ResponseBudget — Model

`response_budget.py` of the MCP server: the answer of a tool, as the model reads it, is measured
(`renderedChars`) and trimmed from its lowest-priority end until it fits under `max_chars`.
`fitSync` trims the answer of `studio_sync`; `fitStartWork` that of `studio_start_work`, whose sync
block is trimmed by the same step after the context sections.
-/

namespace StudioOS.ResponseBudget

open JsonText Trimming Sync

def textFloor : Nat := 80

def renderedChars (payload : Object) : Int := (Json.object payload).chars 0

def bump (counters : Object) (key : String) : Object :=
  setField counters key (.int (intField counters key + 1))

/-- `trimmed_for_budget`, once something was trimmed. -/
abbrev Trimmed := Option Object

def count (trimmed : Trimmed) (part : String) : Trimmed := some (bump (trimmed.getD []) part)

def uuidJson (id : Option Uuid) : Json :=
  match id with
  | some u => .string u.str
  | none => .null

def textJson (text : Option String) : Json :=
  match text with
  | some s => .string s
  | none => .null

def signalJson (s : CoordinationSignal) : Json :=
  .object
    [("event_id", .string s.eventId.str), ("intent", .string s.intent), ("text", .string s.text),
      ("refs", .object
        [("task_ids", .array (s.refs.taskIds.map fun u => .string u.str)),
          ("decision_ids", .array (s.refs.decisionIds.map fun u => .string u.str)),
          ("paths", .array (s.refs.paths.map .string))]),
      ("in_reply_to", uuidJson s.inReplyTo), ("from_session_id", uuidJson s.fromSessionId)]

def itemJson (item : SyncItem) : Json :=
  .object
    [("kind", .string (match item.kind with | .event => "event" | .claim => "claim")),
      ("why", .string item.why.text),
      ("seq", match item.seq with | some n => .int n | none => .null),
      ("event_type", textJson item.eventType), ("task_id", uuidJson item.taskId),
      ("claim_id", uuidJson item.claimId), ("resource_path", textJson item.resourcePath),
      ("coordination", match item.coordination with | some s => signalJson s | none => .null)]

def allWhy : List SyncWhy := [.ownTask, .decision, .claimOverlap, .roadmapDependency, .coordination]

/-- The counters that were raised. -/
def overflowJson (overflow : SyncWhy → Nat) : Object :=
  (allWhy.filter fun why => overflow why ≠ 0).map fun why => (why.text, .int (overflow why))

def blockFields (block : SyncResult) : Object :=
  [("next_cursor", .int block.nextCursor), ("items", .array (block.items.map itemJson)),
    ("overflow", .object (overflowJson block.overflow)), ("resync", .bool block.resync)]

def trimmedFields (trimmed : Trimmed) : Object :=
  match trimmed with
  | some counters => [("trimmed_for_budget", .object counters)]
  | none => []

/-- A sync block and the counters of the payload it is in. -/
structure SyncPayload where
  block : SyncResult
  trimmed : Trimmed

/-- The last item leaves the block: it is counted in `overflow`, and the
cursor falls below it. -/
def SyncPayload.evictLast (payload : SyncPayload) (item : SyncItem) : SyncPayload :=
  let block := payload.block
  { block :=
      { block with
        items := block.items.dropLast
        overflow := fun why =>
          if why = item.why then block.overflow why + 1 else block.overflow why
        nextCursor := match item.seq with
          | some seq => min block.nextCursor (seq - 1)
          | none => block.nextCursor }
    trimmed := count payload.trimmed "sync_items" }

/-- The step of `trim_sync_block`. -/
def trimSyncBlock (payload : SyncPayload) : Option SyncPayload :=
  payload.block.items.getLast?.map payload.evictLast

def SyncPayload.fields (payload : SyncPayload) : Object :=
  blockFields payload.block ++ trimmedFields payload.trimmed

/-- The payload is within `max_chars`. -/
def SyncPayload.within (maxChars : Int) (payload : SyncPayload) : Bool :=
  renderedChars payload.fields ≤ maxChars

/-- `fit_sync`; no answer is out of fuel. -/
def fitSync (fuel : Nat) (result : SyncResult) (maxChars : Int) : Option SyncResult :=
  (fit (SyncPayload.within maxChars) [trimSyncBlock] fuel ⟨result, none⟩).map fun out =>
    out.2.block

/-! ## The start-work answer -/

/-- `StartWorkResult`, dumped, with the counters of the trimmer. -/
structure StartWork where
  task : Option Object
  session : Option Object
  claimed : Bool
  resumed : Bool
  preparedContext : Option Object
  candidates : List Object
  sync : Option SyncResult
  trimmed : Trimmed

def objectJson (o : Option Object) : Json :=
  match o with
  | some fields => .object fields
  | none => .null

def StartWork.fields (payload : StartWork) : Object :=
  [("task", objectJson payload.task), ("session", objectJson payload.session),
    ("claimed", .bool payload.claimed), ("resumed", .bool payload.resumed),
    ("prepared_context", objectJson payload.preparedContext),
    ("candidates", .array (payload.candidates.map .object)),
    ("sync", objectJson (payload.sync.map blockFields))] ++ trimmedFields payload.trimmed

/-- `payload.get("prepared_context") or {}`. -/
def StartWork.context (payload : StartWork) : Object := payload.preparedContext.getD []

/-- The items of a section of the context; `claims` are those of
`active_work`. -/
def contextItems (context : Object) (part : String) : List Json :=
  if part = "claims" then listField (objectField context "active_work") "claims"
  else listField context part

/-- The section with other items. -/
def setContextItems (context : Object) (part : String) (items : List Json) : Object :=
  if part = "claims" then
    setField context "active_work"
      (.object (setField (objectField context "active_work") "claims" (.array items)))
  else setField context part (.array items)

/-- `omitted_for_budget` counts the section. -/
def countOmitted (context : Object) (part : String) : Object :=
  let omitted := objectField context "omitted_for_budget"
  setField context "omitted_for_budget" (.object (bump omitted part))

/-- `returned` of the section goes down, unless it is 0 or absent. -/
def lowerReturned (context : Object) (part : String) : Object :=
  let returned := objectField context "returned"
  setField context "returned"
    (.object (if intField returned part = 0 then returned
      else setField returned part (.int (intField returned part - 1))))

def evictContext (part : String) (payload : StartWork) : Option StartWork :=
  let context := payload.context
  let items := contextItems context part
  if items.isEmpty then none
  else
    some
      { payload with
        preparedContext :=
          some (countOmitted
            (lowerReturned (setContextItems context part items.dropLast) part) part)
        trimmed := count payload.trimmed part }

/-- `context.get(key) is None`. -/
def isNone (o : Object) (key : String) : Bool :=
  match field o key with
  | none => true
  | some .null => true
  | some _ => false

def dropContextKey (key : String) (payload : StartWork) : Option StartWork :=
  let context := payload.context
  if isNone context key then none
  else
    let dropped := dropField context key
    let returned := dropField (objectField dropped "returned") key
    some
      { payload with
        preparedContext := some (countOmitted (setField dropped "returned" (.object returned)) key)
        trimmed := count payload.trimmed key }

/-- `_evict_list` of the candidates. -/
def evictCandidates (payload : StartWork) : Option StartWork :=
  if payload.candidates.isEmpty then none
  else
    some
      { payload with
        candidates := payload.candidates.dropLast
        trimmed := count payload.trimmed "candidates" }

/-- `trim_sync_block(payload, payload.get("sync"))`. -/
def trimStartWorkSync (payload : StartWork) : Option StartWork :=
  match payload.sync with
  | none => none
  | some block =>
    (trimSyncBlock ⟨block, payload.trimmed⟩).map fun out =>
      { payload with sync := some out.block, trimmed := out.trimmed }

/-- `_shorten` of a text: half of it, or nothing when it is short. -/
def shorten (holder : Object) (key : String) (flag : Option String) : Option Object :=
  match field holder key with
  | some (.string text) =>
    if text.length = 0 then none
    else
      let shortened :=
        if text.length ≤ textFloor then dropField holder key
        else setField holder key (.string (String.ofList (text.toList.take (text.length / 2))))
      match flag with
      | some name => some (setField shortened name (.bool true))
      | none => some shortened
  | _ => none

/-- `_shorten(context.get(part), "description")`. -/
def shortenContext (part : String) (payload : StartWork) : Option StartWork :=
  (shorten (objectField payload.context part) "description" (some "truncated")).map fun holder =>
    { payload with preparedContext := some (setField payload.context part (.object holder)) }

/-- `_shorten(payload.get("task"), "description", flag=None)`. -/
def shortenTask (payload : StartWork) : Option StartWork :=
  (shorten (payload.task.getD []) "description" none).map fun holder =>
    { payload with task := some holder }

/-- The steps of `fit_start_work` before the sync block. -/
def stepsBeforeSync : List (StartWork → Option StartWork) :=
  [evictContext "skills", evictContext "rules", evictContext "notes",
    dropContextKey "roadmap_overview", evictContext "ai_work", evictContext "related_tasks",
    evictContext "decisions", evictCandidates, evictContext "claims", dropContextKey "roadmap"]

def stepsAfterSync : List (StartWork → Option StartWork) :=
  [shortenContext "task", shortenContext "project", shortenTask]

def startWorkSteps : List (StartWork → Option StartWork) :=
  stepsBeforeSync ++ ([trimStartWorkSync] ++ stepsAfterSync)

def StartWork.within (maxChars : Int) (payload : StartWork) : Bool :=
  renderedChars payload.fields ≤ maxChars

/-- The named fields of an object, `null` where they are absent. -/
def pick (o : Object) (keys : List String) : Object :=
  keys.map fun key => (key, (field o key).getD .null)

/-- `task or None`: an empty dict is false. -/
def orNone (o : Option Object) : Option Object := o.filter fun fields => !fields.isEmpty

def minimalStartWork (payload : StartWork) : StartWork :=
  { claimed := payload.claimed
    resumed := payload.resumed
    task := (orNone payload.task).map fun task => pick task ["id", "status", "version"]
    session := (orNone payload.session).map fun session => pick session ["id"]
    preparedContext := none
    candidates := (payload.candidates.take 3).map fun c => pick c ["task_id"]
    sync := none
    trimmed := some (setField (payload.trimmed.getD []) "prepared_context" (.int 1)) }

/-- `fit_start_work`; no answer is out of fuel. -/
def fitStartWork (fuel : Nat) (result : StartWork) (maxChars : Int) : Option StartWork :=
  (fit (StartWork.within maxChars) startWorkSteps fuel result).map fun out =>
    if out.1 then out.2 else minimalStartWork out.2

end StudioOS.ResponseBudget
