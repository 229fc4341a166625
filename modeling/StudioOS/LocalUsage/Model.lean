import StudioOS.Authz
import StudioOS.Library.Text

/-!
# Local usage — Model

`usage/local/base.py`: what a reader of a local session store emits (`UsageEvent`, `TaskClaim`), and
its conversions of what a harness wrote. A conversion that raises ends the read of the session, so
it is an `Except`; what it returns `None` for is skipped.

`json.loads`, `UUID`, the parsing of ISO dates and the conversions of epochs belong to Python
(`Env`).
-/

namespace StudioOS.LocalUsage

/-- A value that `json.loads` returned; `Dict` is a `dict` of them. -/
inductive Json where
  | null
  | bool (b : Bool)
  | int (n : Int)
  | float (x : Float)
  | str (s : String)
  | arr (items : List Json)
  | obj (fields : List (String × Json))

abbrev Dict := List (String × Json)

def Dict.get (doc : Dict) (key : String) : Json :=
  match doc.find? fun field => field.1 = key with
  | some field => field.2
  | none => .null

/-- `value if isinstance(value, str) else None`. -/
def Json.str? : Json → Option String
  | .str s => some s
  | _ => none

/-- `value if isinstance(value, dict) else None`. -/
def Json.dict? : Json → Option Dict
  | .obj fields => some fields
  | _ => none

/-- `value if isinstance(value, list) else []`. -/
def Json.items : Json → List Json
  | .arr items => items
  | _ => []

/-- The exceptions that the code below raises or catches. -/
inductive Raised where
  | valueError
  | recursionError
  | overflowError
  | typeError

/-- What `datetime.fromisoformat` read: the clock as written, and the offset of the
time zone when one is written, in microseconds. -/
structure IsoDatetime where
  clock : Nat
  offset : Option Int

/-- What belongs to Python. -/
structure Env where
  /-- `line.decode("utf-8", "replace")`. -/
  decode : List UInt8 → String
  /-- `json.loads`: a `ValueError` for what is no JSON, a `RecursionError` for JSON that
  is nested too deep. -/
  loads : String → Except Raised Json
  /-- `UUID(text)`, `none` for a `ValueError`. -/
  uuid : String → Option Uuid
  fromisoformat : String → Option IsoDatetime
  /-- `n / 1000` of an `int`, `none` for the `OverflowError` of a result no float holds. -/
  millis : Int → Option Float
  /-- `datetime.fromtimestamp(seconds, tz=UTC)`, `none` for the errors it may raise. -/
  fromtimestamp : Float → Option Timestamp
  fromtimestampInt : Int → Option Timestamp

/-- The end of the year 9999. -/
def maxDatetime : Timestamp := 315537897599999999

/-- `parsed.astimezone(UTC)`; a `datetime` outside the years 1 to 9999 raises. -/
def astimezone (clock : Nat) (offset : Int) : Except Raised Timestamp :=
  let utc := (clock : Int) - offset
  if utc < 0 ∨ (maxDatetime : Int) < utc then .error .overflowError else .ok utc.toNat

/-- `candidate`: the text without blanks, a final `Z` written as an offset. -/
def isoCandidate (text : String) : String :=
  let candidate := Text.strip text.toList
  if candidate.getLast? = some 'Z' then String.ofList (candidate.dropLast ++ "+00:00".toList)
  else String.ofList candidate

/-- `parse_timestamp`. The division and the change of time zone stand outside the
`try`. -/
def parseTimestamp (env : Env) : Json → Except Raised (Option Timestamp)
  | .int n =>
    if n > 100000000000 then
      match env.millis n with
      | none => .error .overflowError
      | some seconds => .ok (env.fromtimestamp seconds)
    else .ok (env.fromtimestampInt n)
  | .float x => .ok (env.fromtimestamp (if x > 100000000000 then x / 1000 else x))
  | .str text =>
    if text = "" then .ok none
    else
      match env.fromisoformat (isoCandidate text) with
      | none => .ok none
      | some { clock, offset := none } => .ok (some clock)
      | some { clock, offset := some offset } => (astimezone clock offset).map some
  | _ => .ok none

def parseUuid (env : Env) (value : Json) : Option Uuid := value.str?.bind env.uuid

def safeCounter : Json → Option Int
  | .int n => if n < 0 then none else some n
  | _ => none

/-- The fields that identify a reader. -/
structure Collector where
  collectorId : String
  collectorVersion : String
  harness : String

def isAsciiAlnum (c : Char) : Bool :=
  ('A' ≤ c && c ≤ 'Z') || ('a' ≤ c && c ≤ 'z') || ('0' ≤ c && c ≤ '9')

/-- `^[A-Za-z0-9][..]{0,limit}$`, where `marks` are the other characters allowed behind
the first. Python's `$` also matches before a newline at the end. -/
def matchesTag (marks : List Char) (limit : Nat) (text : String) : Bool :=
  let body := if text.toList.getLast? = some '\n' then text.toList.dropLast else text.toList
  match body with
  | [] => false
  | first :: rest =>
    isAsciiAlnum first && rest.length ≤ limit && rest.all fun c => isAsciiAlnum c || c ∈ marks

def tagMarks : List Char := ['.', '+', '_', '-']

def modelMarks : List Char := ['.', '+', '_', ':', '@', '/', '[', ']', '-']

/-- A value that `safe_tag` lets through. -/
abbrev Tag := { text : String // matchesTag tagMarks 63 text = true }

/-- A value that `safe_model` lets through. -/
abbrev ModelName := { text : String // matchesTag modelMarks 127 text = true }

/-- `safe_tag`; a tag that is read back from the stored state passes again. -/
def safeTag : Json → Option Tag
  | .str text => if h : matchesTag tagMarks 63 text = true then some ⟨text, h⟩ else none
  | _ => none

def safeModel : Json → Option ModelName
  | .str text => if h : matchesTag modelMarks 127 text = true then some ⟨text, h⟩ else none
  | _ => none

structure BilledTokens where
  input : Option Int
  output : Option Int
  cacheRead : Option Int
  cacheWrite : Option Int
deriving DecidableEq

def BilledTokens.total (tokens : BilledTokens) : Option Int :=
  if tokens.input.isNone ∧ tokens.output.isNone ∧ tokens.cacheRead.isNone ∧
      tokens.cacheWrite.isNone then none
  else
    some (tokens.input.getD 0 + tokens.output.getD 0 + tokens.cacheRead.getD 0 +
      tokens.cacheWrite.getD 0)

/-- No counter is negative. -/
def BilledTokens.Nonneg (tokens : BilledTokens) : Prop :=
  0 ≤ tokens.input.getD 0 ∧ 0 ≤ tokens.output.getD 0 ∧ 0 ≤ tokens.cacheRead.getD 0 ∧
    0 ≤ tokens.cacheWrite.getD 0

theorem safeCounter_nonneg (value) : 0 ≤ (safeCounter value).getD 0 := by
  cases value with
  | int n =>
    by_cases h : n < 0
    · simp [safeCounter, h]
    · simp only [safeCounter, h]
      exact Int.not_lt.mp h
  | _ => exact Int.le_refl 0

structure UsageEvent where
  ts : Timestamp
  model : Option ModelName
  provider : Option Tag
  tokens : BilledTokens
  cwd : Option String

structure TaskClaim where
  ts : Timestamp
  projectId : Uuid
  taskId : Uuid
deriving DecidableEq

inductive Emission where
  | usage (event : UsageEvent)
  | claim (claim : TaskClaim)

def Emission.usage? : Emission → Option UsageEvent
  | .usage event => some event
  | .claim _ => none

def Emission.Nonneg : Emission → Prop
  | .usage event => event.tokens.Nonneg
  | .claim _ => True

def usages (emissions : List Emission) : List UsageEvent := emissions.filterMap Emission.usage?

@[simp] theorem usages_append (first second) :
    usages (first ++ second) = usages first ++ usages second := List.filterMap_append

def claimToolNames : List String := ["studio_start_work", "studio_claim_task"]

def mentionsClaimTool (text : String) : Bool :=
  claimToolNames.any fun name => Text.contains name.toList text.toList

def isHexDigit (c : Char) : Bool :=
  ('0' ≤ c && c ≤ '9') || ('a' ≤ c && c ≤ 'f') || ('A' ≤ c && c ≤ 'F')

/-- `_UUID_PATTERN` at the start of the text, groups of these lengths. -/
def matchUuid : List Nat → List Char → Option (List Char)
  | [], _ => some []
  | [n], text =>
    if (text.take n).length = n ∧ (text.take n).all isHexDigit then some (text.take n) else none
  | n :: groups, text =>
    if (text.take n).length = n ∧ (text.take n).all isHexDigit then
      match text.drop n with
      | '-' :: rest => (matchUuid groups rest).map fun found => text.take n ++ '-' :: found
      | _ => none
    else none

def uuidGroups : List Nat := [8, 4, 4, 4, 12]

/-- The text without a leading character of `marks`. -/
def skipOne (marks : List Char) : List Char → List Char
  | c :: rest => if c ∈ marks then rest else c :: rest
  | [] => []

/-- The pattern `name\"?\s*:\s*[\"']?(uuid)` at the start of the text. No character is
taken by two parts of the pattern, so there is nothing to try again. -/
def matchField (name : String) (text : List Char) : Option (List Char) :=
  if name.toList.isPrefixOf text then
    match (skipOne ['"'] (text.drop name.length)).dropWhile Text.isSpace with
    | ':' :: rest => matchUuid uuidGroups (skipOne ['"', '\''] (rest.dropWhile Text.isSpace))
    | _ => none
  else none

/-- `_TASK_ID_RE.search(text)`, `_PROJECT_ID_RE.search(text)`: the group of the first match. -/
def searchField (name : String) : List Char → Option (List Char)
  | [] => none
  | c :: rest =>
    match matchField name (c :: rest) with
    | some found => some found
    | none => searchField name rest

def claimFromText (env : Env) (ts : Timestamp) (text : String) : Option TaskClaim :=
  if mentionsClaimTool text then do
    let task ← searchField "task_id" text.toList
    let project ← searchField "project_id" text.toList
    let taskId ← env.uuid (String.ofList task)
    let projectId ← env.uuid (String.ofList project)
    return { ts, projectId, taskId }
  else none

/-- `claim_from_arguments` of a `dict`. -/
def claimFromDict (env : Env) (ts : Timestamp) (arguments : Dict) : Option TaskClaim := do
  let projectId ← parseUuid env (arguments.get "project_id")
  let taskId ← parseUuid env (arguments.get "task_id")
  return { ts, projectId, taskId }

/-- `claim_from_arguments`; the only exception that is caught is `ValueError`. -/
def claimFromArguments (env : Env) (ts : Timestamp) : Json → Except Raised (Option TaskClaim)
  | .str text =>
    match env.loads text with
    | .error .valueError => .ok (claimFromText env ts text)
    | .error raised => .error raised
    | .ok decoded => .ok (decoded.dict?.bind (claimFromDict env ts))
  | .obj arguments => .ok (claimFromDict env ts arguments)
  | _ => .ok none

def loadJsonLine (env : Env) (line : String) : Except Raised (Option Dict) :=
  match env.loads line with
  | .error .valueError => .ok none
  | .error raised => .error raised
  | .ok value => .ok value.dict?

def recentIds : Nat := 200

/-- `remember`: the ring after it, and whether the item is new to it. -/
def remember (recent : List String) (item : Option String) : List String × Bool :=
  match item with
  | none => (recent, true)
  | some id =>
    if id = "" then (recent, true)
    else if id ∈ recent then (recent, false)
    else ((recent ++ [id]).drop ((recent ++ [id]).length - recentIds), true)

end StudioOS.LocalUsage
