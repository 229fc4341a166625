import StudioOS.LocalUsage.Scanner

/-!
# OpenCode — one store for all sessions

`opencode.py`: a SQLite database with the sessions, the messages and the parts
of all sessions of the harness, discovered as ONE session of the scanner.
-/

namespace StudioOS.LocalUsage.OpenCode

structure SessionRow where
  id : String
  directory : Option String
  version : Option String

/-- A row of `message`; times are in milliseconds. -/
structure MessageRow where
  id : String
  sessionId : String
  timeUpdated : Int
  data : String

/-- A row of `part`. -/
structure PartRow where
  sessionId : String
  timeCreated : Int
  data : String

structure Database where
  sessions : List SessionRow
  messages : List MessageRow
  parts : List PartRow

structure StoreEnv extends Env where
  /-- `json_extract(m.data, '$.role') = 'assistant'`. -/
  isAssistant : String → Bool
  /-- `json_extract(p.data, '$.type') = 'tool'`, and its tool is like `%studio%`. -/
  isStudioPart : String → Bool
  /-- `int(ts.timestamp() * 1000)`. -/
  toMillis : Timestamp → Int

/-- `entries.get(key)`. -/
def lookup {α : Type} (entries : List (String × α)) (key : String) : Option α :=
  (entries.find? fun entry => entry.1 = key).map Prod.snd

/-- `entries[key] = value`. -/
def assign {α : Type} (entries : List (String × α)) (key : String) (value : α) :
    List (String × α) :=
  if entries.any fun entry => entry.1 = key then
    entries.map fun entry => if entry.1 = key then (key, value) else entry
  else entries ++ [(key, value)]

/-! ## The reader -/

structure CountedMessage where
  ts : Timestamp
  tokens : BilledTokens
deriving DecidableEq

/-- `project:task:ts`, what is stored of a session's last claim. -/
structure Fingerprint where
  claimed : Claimed
  ts : Timestamp
deriving DecidableEq

def fingerprint (claim : TaskClaim) : Fingerprint :=
  { claimed := claim.claimed, ts := claim.ts }

structure ReaderState where
  messages : List (String × CountedMessage)
  claims : List (String × Fingerprint)
  watermark : Int
  harnessVersion : Option String
deriving DecidableEq

/-- An entry of `items`. `sessionId` is the session of the row, which the source does not
carry along. -/
structure Item where
  sessionId : String
  ts : Timestamp
  emission : Emission
  messageId : Option String
  tokens : Option BilledTokens

/-- `_WINDOW_OVERLAP_MS`. -/
def windowOverlap : Int := 120000

def maxStateMessages : Nat := 20000

def sum (left right : Option Int) : Option Int := addOpt left right

def delta (tokens previous : BilledTokens) : BilledTokens :=
  { input := tokens.input.map (· - previous.input.getD 0)
    output := tokens.output.map (· - previous.output.getD 0)
    cacheRead := tokens.cacheRead.map (· - previous.cacheRead.getD 0)
    cacheWrite := tokens.cacheWrite.map (· - previous.cacheWrite.getD 0) }

def assistantTokens (data : Dict) : Option BilledTokens :=
  (data.get "tokens").dict?.map fun tokens =>
    let cache := (tokens.get "cache").dict?.getD []
    { input := safeCounter (tokens.get "input")
      output := sum (safeCounter (tokens.get "output")) (safeCounter (tokens.get "reasoning"))
      cacheRead := safeCounter (cache.get "read")
      cacheWrite := safeCounter (cache.get "write") }

/-- `bool(value)`. -/
def truthy : Json → Bool
  | .null => false
  | .bool b => b
  | .int n => n ≠ 0
  | .float x => x != 0
  | .str s => s ≠ ""
  | .arr items => !items.isEmpty
  | .obj fields => !fields.isEmpty

/-- `json.loads` of a row's data, as a dictionary; only a `ValueError` is caught. -/
def loadData (env : Env) (data : String) : Except Raised (Option Dict) := loadJsonLine env data

/-- The time of a response, of the row when the response has none. -/
def responseTime (env : Env) (data : Dict) (row : MessageRow) :
    Except Raised (Option Timestamp) := do
  let created := (data.get "time").dict?.getD []
  let ts ← parseTimestamp env
    (if truthy (created.get "completed") then created.get "completed" else created.get "created")
  match ts with
  | some ts => return some ts
  | none => parseTimestamp env (.int row.timeUpdated)

/-- One turn of the loop of `_collect`. -/
def collectRow (env : StoreEnv) (messages : List (String × CountedMessage)) (row : MessageRow)
    (session : SessionRow) : Except Raised (Option Item) := do
  match ← loadData env.toEnv row.data with
  | none => return none
  | some data =>
    match assistantTokens data with
    | none => return none
    | some tokens =>
      match ← responseTime env.toEnv data row with
      | none => return none
      | some ts =>
        let previous := ((lookup messages row.id).map CountedMessage.tokens).getD
          BilledTokens.none
        let grown := delta tokens previous
        if grown.total.getD 0 ≤ 0 then return none
        else
          return some
            { sessionId := row.sessionId
              ts
              emission := .usage
                { ts, model := safeModel (data.get "modelID")
                  provider := safeTag (data.get "providerID"), tokens := grown
                  cwd := session.directory }
              messageId := some row.id
              tokens := some tokens }

/-- The rows of the first query: assistant messages of known sessions, oldest first. -/
def assistantRows (env : StoreEnv) (db : Database) (since : Int) : List (MessageRow × SessionRow) :=
  ((db.messages.filterMap fun message =>
    (db.sessions.find? fun session => session.id = message.sessionId).map (message, ·)).filter
      fun row => env.isAssistant row.1.data && since ≤ row.1.timeUpdated).mergeSort
    fun left right => left.1.timeUpdated ≤ right.1.timeUpdated

/-- `_collect`: the items, and the version of the last row that has one. -/
def collect (env : StoreEnv) (db : Database) (since : Int)
    (messages : List (String × CountedMessage)) : Except Raised (List Item × Option String) := do
  let rows := assistantRows env db since
  let found ← rows.mapM fun row => collectRow env messages row.1 row.2
  return (found.filterMap id, rows.foldl (fun version row => row.2.version.or version) none)

/-- The claim of a part; a part that names no claim has none. -/
def partClaim (env : StoreEnv) (row : PartRow) : Except Raised (Option TaskClaim) := do
  match ← loadData env.toEnv row.data with
  | none => return none
  | some data =>
    match (data.get "tool").str? with
    | none => return none
    | some tool =>
      if mentionsClaimTool tool then
        let arguments := (((data.get "state").dict?.getD []).get "input").dict?.getD []
        match parseUuid env.toEnv (arguments.get "project_id"),
            parseUuid env.toEnv (arguments.get "task_id") with
        | some projectId, some taskId => do
          let ts ← parseTimestamp env.toEnv (.int row.timeCreated)
          return ts.map fun ts => { ts, projectId, taskId }
        | _, _ => return none
      else return none

/-- The rows of the second query, oldest first. -/
def partRows (env : StoreEnv) (db : Database) (since : Int) : List PartRow :=
  (db.parts.filter fun part => env.isStudioPart part.data && since ≤ part.timeCreated).mergeSort
    fun left right => left.timeCreated ≤ right.timeCreated

def claimOf (env : StoreEnv) (row : PartRow) : Option (String × TaskClaim) :=
  match partClaim env row with
  | .ok (some claim) => some (row.sessionId, claim)
  | _ => none

/-- The claims a read looks at. -/
def windowClaims (env : StoreEnv) (db : Database) (since : Int) : List (String × TaskClaim) :=
  (partRows env db since).filterMap (claimOf env)

/-- The claims of the store, oldest first. -/
def storeClaims (env : StoreEnv) (db : Database) : List (String × TaskClaim) :=
  ((db.parts.filter fun part => env.isStudioPart part.data).mergeSort
    fun left right => left.timeCreated ≤ right.timeCreated).filterMap (claimOf env)

/-- What `_claims` leaves: the dictionary of fingerprints, the items, and whether it raised. -/
structure ClaimsRead where
  claims : List (String × Fingerprint)
  items : List Item
  raised : Bool

/-- A claim that is not the one its session made last. -/
def takeClaim (claims : List (String × Fingerprint)) (sessionId : String) (claim : TaskClaim) :
    List (String × Fingerprint) × List Item :=
  if lookup claims sessionId = some (fingerprint claim) then (claims, [])
  else
    (assign claims sessionId (fingerprint claim),
      [{ sessionId, ts := claim.ts, emission := .claim claim, messageId := none, tokens := none }])

/-- The loop of `_claims`. -/
def readClaims (env : StoreEnv) (claims : List (String × Fingerprint)) : List PartRow → ClaimsRead
  | [] => { claims, items := [], raised := false }
  | row :: rest =>
    match partClaim env row with
    | .error _ => { claims, items := [], raised := true }
    | .ok none => readClaims env claims rest
    | .ok (some claim) =>
      let taken := takeClaim claims row.sessionId claim
      let later := readClaims env taken.1 rest
      { later with items := taken.2 ++ later.items }

/-- Claims before usage, at the same time. -/
def Item.kind (item : Item) : Nat :=
  match item.emission with
  | .claim _ => 0
  | .usage _ => 1

/-- The order of `items.sort`. -/
def Item.before (left right : Item) : Bool :=
  left.ts < right.ts ∨ (left.ts = right.ts ∧ left.kind ≤ right.kind)

def prune (messages : List (String × CountedMessage)) : List (String × CountedMessage) :=
  if messages.length ≤ maxStateMessages then messages
  else
    let ordered := messages.mergeSort fun left right => left.2.ts ≤ right.2.ts
    let dropped := (ordered.take (messages.length - maxStateMessages)).map Prod.fst
    messages.filter fun entry => entry.1 ∉ dropped

/-- What a read leaves: the stored state, what was emitted, and whether it raised. -/
structure Outcome where
  state : Option ReaderState
  items : List Item
  raised : Bool

/-- The messages that a read has counted. -/
def countMessages (messages : List (String × CountedMessage)) (items : List Item) :
    List (String × CountedMessage) :=
  items.foldl (fun messages item =>
    match item.messageId, item.tokens with
    | some id, some tokens => assign messages id { ts := item.ts, tokens }
    | _, _ => messages) messages

/-- `since_ms`: the look-back of the scan, or the watermark with its overlap. -/
def sinceMillis (floor : Int) (state : Option ReaderState) : Int :=
  max floor (state.elim 0 ReaderState.watermark - windowOverlap)

/-- `OpenCodeLocalReader.read`; `db` is `none` when SQLite refuses. -/
def read (env : StoreEnv) (db : Option Database) (floor : Int) (state : Option ReaderState) :
    Outcome :=
  match db with
  | none => { state, items := [], raised := false }
  | some db =>
    let since := sinceMillis floor state
    match collect env db since (state.elim [] ReaderState.messages) with
    | .error _ => { state, items := [], raised := true }
    | .ok (found, version) =>
      let claimed := readClaims env (state.elim [] ReaderState.claims) (partRows env db since)
      if claimed.raised then
        { state := state.map fun state => { state with claims := claimed.claims }
          items := [], raised := true }
      else
        let items := (found ++ claimed.items).mergeSort Item.before
        { state := some
            { messages := prune (countMessages (state.elim [] ReaderState.messages) items)
              claims := claimed.claims
              watermark := items.foldl (fun newest item => max newest (env.toMillis item.ts))
                (state.elim 0 ReaderState.watermark)
              harnessVersion :=
                (version.filter (· ≠ "")).or (state.bind ReaderState.harnessVersion) }
          items, raised := false }

/-- `OpenCodeLocalReader`, as the scanner sees it. -/
def collector : Collector :=
  { collectorId := "studio-local-opencode", collectorVersion := "1.0.0", harness := "opencode" }

structure World where
  db : Database
  row : Option (Row ReaderState)
  /-- How many claims the store had when a scan last stored what it read. Nothing in the
  source keeps it. -/
  read : Nat

def World.initial : World :=
  { db := { sessions := [], messages := [], parts := [] }, row := none, read := 0 }

inductive Action where
  /-- The harness writes. -/
  | write (db : Database)
  /-- A scan; `floor` is its look-back, and SQLite may refuse. -/
  | scan (location : String) (floor : Int) (reachable : Bool) (roots : List WorkspaceRoot)

def World.readerState (w : World) : Option ReaderState := w.row.bind Row.reader

def readScan (env : StoreEnv) (w : World) (floor : Int) (reachable : Bool) : Outcome :=
  read env (if reachable then some w.db else none) floor w.readerState

/-- What the scan hands to `_apply`. -/
def collected (location : String) (outcome : Outcome) : Collected ReaderState :=
  { session := { nativeId := "opencode-database", location }
    readerState := outcome.state
    emissions := outcome.items.map Item.emission }

def step (env : StoreEnv) (scanEnv : ScanEnv) (w : World) : Action → Option World
  | .write db => some { w with db }
  | .scan location floor reachable roots =>
    let outcome := readScan env w floor reachable
    let item := collected location outcome
    let read := if reachable ∧ ¬ outcome.raised then (storeClaims env w.db).length else w.read
    if item.readerState.isNone ∧ item.emissions.isEmpty then some w
    else
      match apply scanEnv collector ReaderState.harnessVersion roots w.row item with
      | .error _ => some w
      | .ok applied => some { w with row := some applied.row, read }

end StudioOS.LocalUsage.OpenCode
