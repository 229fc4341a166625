import StudioOS.Library.Keyed
import StudioOS.LocalUsage.Model

/-!
# Scanner — from emissions to the ledger

`scanner.py`: `_apply` counts each usage event of a session in the bucket of its task, model and
day, and stores the buckets with the state of the reader and the current claim; `_flush` queues one
ledger entry for a bucket, and a correction each time it has grown.
-/

namespace StudioOS.LocalUsage

/-- `LocalSession`, as far as the scanner reads it. -/
structure LocalSession where
  nativeId : String
  location : String

/-- `_Collected`, with the state `read` returned, or the stored one when it raised. -/
structure Collected (σ : Type) where
  session : LocalSession
  readerState : Option σ
  emissions : List Emission

structure WorkspaceRoot where
  path : String
  projectId : Uuid

/-- The tokens of a bucket and its period, what `_totals` hashes. -/
structure Totals where
  tokens : BilledTokens
  first : Timestamp
  last : Timestamp

/-- `PriceTable`: an amount in millionths of a euro, or the exception of the decimal
arithmetic. -/
structure PriceTable where
  priceListId : String
  estimate : Option ModelName → BilledTokens → Except Raised (Option Nat)

structure ScanEnv where
  machineId : Uuid
  priceTable : PriceTable
  /-- `normcase(abspath(normpath(path)))`, `none` for an error. -/
  normalize : String → Option String
  /-- `os.sep`. -/
  sep : String
  /-- The scope of a bucket id: twelve digits of a SHA-256. -/
  scopeDigest : String → String
  /-- `sha256(repr(totals))`, `none` when an integer has too many digits for `repr`. -/
  totalsDigest : Totals → Option String
  /-- `ts.strftime("%Y%m%d")`. -/
  day : Timestamp → String
  isalnum : Char → Bool

/-- `project_for_path`: the root that contains the path, the longest one wins. -/
def projectForPath (env : ScanEnv) (cwd : Option String) (roots : List WorkspaceRoot) :
    Option Uuid := do
  let cwd ← cwd
  if cwd = "" then none
  let candidate ← env.normalize cwd
  let best := roots.foldl (fun (best : Option (Nat × Uuid)) root =>
    match env.normalize root.path with
    | none => best
    | some base =>
      if candidate = base ∨ (base ++ env.sep).toList <+: candidate.toList then
        match best with
        | none => some (base.length, root.projectId)
        | some found => if base.length > found.1 then some (base.length, root.projectId) else best
      else best) none
  best.map Prod.snd

structure Bucket where
  id : String
  projectId : Uuid
  taskId : Option Uuid
  model : Option ModelName
  provider : Option Tag
  harnessVersion : Option String
  first : Timestamp
  last : Timestamp
  tokens : BilledTokens
  version : Nat
  sentHash : Option String
deriving DecidableEq

/-- The project and the task of a claim, as they are stored. -/
structure Claimed where
  projectId : Uuid
  taskId : Uuid
deriving DecidableEq

def TaskClaim.claimed (claim : TaskClaim) : Claimed :=
  { projectId := claim.projectId, taskId := claim.taskId }

/-- What is stored for a session. -/
structure Row (σ : Type) where
  reader : Option σ
  claim : Option Claimed
  buckets : List Bucket
deriving DecidableEq

/-- The row of a session that has none. -/
def Row.empty {σ : Type} : Row σ := { reader := none, claim := none, buckets := [] }

def addOpt (left right : Option Int) : Option Int :=
  if left.isNone ∧ right.isNone then none else some (left.getD 0 + right.getD 0)

def BilledTokens.none : BilledTokens :=
  { input := Option.none, output := Option.none, cacheRead := Option.none, cacheWrite := Option.none }

def BilledTokens.add (tokens more : BilledTokens) : BilledTokens :=
  { input := addOpt tokens.input more.input
    output := addOpt tokens.output more.output
    cacheRead := addOpt tokens.cacheRead more.cacheRead
    cacheWrite := addOpt tokens.cacheWrite more.cacheWrite }

def bucketId (env : ScanEnv) (collector : Collector) (nativeId : String) (projectId : Uuid)
    (taskId : Option Uuid) (event : UsageEvent) : String :=
  let scope := env.scopeDigest (projectId.str ++ "|" ++ taskId.elim "-" Uuid.str ++ "|" ++
    event.model.elim "-" Subtype.val)
  let native := (nativeId.toList.map fun c =>
    if env.isalnum c ∨ c ∈ ['.', '_', '-'] then c else '-').take 48
  "session." ++ collector.collectorId ++ "." ++ String.ofList native ++ "." ++ scope ++ "." ++
    env.day event.ts

/-- What `_accumulate` assigns to the bucket of an event. -/
def Bucket.count (version : Option String) (event : UsageEvent) (bucket : Bucket) : Bucket :=
  { bucket with
    model := bucket.model.or event.model
    provider := bucket.provider.or event.provider
    harnessVersion := version.or bucket.harnessVersion
    tokens := bucket.tokens.add event.tokens
    first := min event.ts bucket.first
    last := max event.ts bucket.last }

/-- The bucket `_accumulate` adds when there is none. -/
def Bucket.fresh (id : String) (projectId : Uuid) (taskId : Option Uuid)
    (version : Option String) (event : UsageEvent) : Bucket :=
  { id, projectId, taskId, model := event.model, provider := event.provider
    harnessVersion := version, first := event.ts, last := event.ts, tokens := BilledTokens.none
    version := 0, sentHash := none }

def accumulate (buckets : List Bucket) (id : String) (projectId : Uuid) (taskId : Option Uuid)
    (version : Option String) (event : UsageEvent) : List Bucket :=
  Keyed.upsert Bucket.id id (Bucket.count version event)
    ((Bucket.fresh id projectId taskId version event).count version event) buckets

/-- The locals of the loop of `_apply`. The report only counts the events that no
project can be found for; here they are kept. -/
structure Walk where
  current : Option Claimed
  buckets : List Bucket
  unattributed : List UsageEvent

def projectOf (env : ScanEnv) (roots : List WorkspaceRoot) (current : Option Claimed)
    (event : UsageEvent) : Option Uuid :=
  match current with
  | some claimed => some claimed.projectId
  | none => projectForPath env event.cwd roots

/-- What becomes of a usage event under a claim. -/
def Walk.assign (env : ScanEnv) (collector : Collector) (nativeId : String)
    (version : Option String) (roots : List WorkspaceRoot) (walk : Walk) (event : UsageEvent)
    (claimed : Option Claimed) : Walk :=
  match projectOf env roots claimed event with
  | none => { walk with unattributed := walk.unattributed ++ [event] }
  | some projectId =>
    let taskId := claimed.map Claimed.taskId
    { walk with
      buckets := accumulate walk.buckets
        (bucketId env collector nativeId projectId taskId event) projectId taskId version event }

/-- One turn of the loop. -/
def Walk.take (env : ScanEnv) (collector : Collector) (nativeId : String)
    (version : Option String) (roots : List WorkspaceRoot) (walk : Walk) : Emission → Walk
  | .claim claim => { walk with current := some claim.claimed }
  | .usage event => walk.assign env collector nativeId version roots event walk.current

/-! ## The ledger writes -/

/-- `UsageProvenance`. -/
structure Provenance where
  collector : String
  collectorVersion : String
  harness : String
  harnessVersion : Option Tag
  provider : Option Tag
  model : Option ModelName

/-- `UsageLedgerEntryCreate`, or `UsageLedgerCorrection` when a version is expected. -/
structure UsageWrite where
  idempotencyKey : String
  sourceEventId : String
  expectedVersion : Option Nat
  projectId : Uuid
  taskId : Option Uuid
  provenance : Provenance
  periodStart : Timestamp
  periodEnd : Timestamp
  tokensIn : Option Int
  tokensOut : Option Int
  tokensCached : Option Int
  cost : Option Nat
  priceListId : Option String

/-- A tag the contract takes: its pattern ends where the text ends. -/
def endsClean (text : String) : Prop := text.toList.getLast? ≠ some '\n'

instance (text : String) : Decidable (endsClean text) := inferInstanceAs (Decidable (_ ≠ _))

/-- The patterns of `UsageProvenance`. -/
def Provenance.valid (provenance : Provenance) : Prop :=
  (∀ tag ∈ provenance.harnessVersion, endsClean tag.val) ∧
    (∀ tag ∈ provenance.provider, endsClean tag.val) ∧
    ∀ model ∈ provenance.model, endsClean model.val

instance (provenance : Provenance) : Decidable provenance.valid :=
  inferInstanceAs (Decidable (_ ∧ _ ∧ _))

/-- `SourceEventId`. -/
def validSourceEventId (text : String) : Prop :=
  matchesTag ['.', '_', ':', '-'] 127 text = true ∧ endsClean text

instance (text : String) : Decidable (validSourceEventId text) :=
  inferInstanceAs (Decidable (_ ∧ _))

/-- `NonNegativeInt` of a measured counter. -/
def validCount (count : Option Int) : Prop := 0 ≤ count.getD 0

instance (count : Option Int) : Decidable (validCount count) := inferInstanceAs (Decidable (_ ≤ _))

/-- What pydantic checks of a ledger write behind its provenance. -/
def UsageWrite.valid (write : UsageWrite) : Prop :=
  validSourceEventId write.sourceEventId ∧ validCount write.tokensIn ∧
    validCount write.tokensOut ∧ validCount write.tokensCached ∧
    write.periodStart ≤ write.periodEnd

instance (write : UsageWrite) : Decidable write.valid :=
  inferInstanceAs (Decidable (_ ∧ _ ∧ _ ∧ _ ∧ _))

def Bucket.totals (bucket : Bucket) : Totals :=
  { tokens := bucket.tokens, first := bucket.first, last := bucket.last }

def Bucket.provenance (collector : Collector) (bucket : Bucket) : Provenance :=
  { collector := collector.collectorId, collectorVersion := collector.collectorVersion
    harness := collector.harness
    harnessVersion := safeTag (bucket.harnessVersion.elim .null .str)
    provider := bucket.provider, model := bucket.model }

/-- `_create_key` and `_correction_key`, the names the `uuid5` is made of. -/
def writeKey (env : ScanEnv) (bucket : Bucket) (digest : String) : String :=
  let name := "studio:usage-local:" ++ env.machineId.str ++ ":" ++ bucket.id
  if bucket.version = 0 then name
  else name ++ ":" ++ toString bucket.version ++ ":" ++ digest

def Bucket.write (env : ScanEnv) (collector : Collector) (bucket : Bucket) (digest : String)
    (cost : Option Nat) : UsageWrite :=
  { idempotencyKey := writeKey env bucket digest
    sourceEventId := bucket.id
    expectedVersion := if bucket.version = 0 then none else some bucket.version
    projectId := bucket.projectId
    taskId := bucket.taskId
    provenance := bucket.provenance collector
    periodStart := bucket.first
    periodEnd := bucket.last
    tokensIn := addOpt bucket.tokens.input bucket.tokens.cacheWrite
    tokensOut := bucket.tokens.output
    tokensCached := bucket.tokens.cacheRead
    cost
    priceListId := cost.map fun _ => env.priceTable.priceListId }

/-- One turn of the loop of `_flush`. -/
def flushBucket (env : ScanEnv) (collector : Collector) (bucket : Bucket) :
    Except Raised (Bucket × List UsageWrite) :=
  match env.totalsDigest bucket.totals with
  | none => .error .valueError
  | some digest =>
    if bucket.sentHash = some digest then .ok (bucket, [])
    else if ¬ (bucket.provenance collector).valid then .error .valueError
    else if (addOpt bucket.tokens.input bucket.tokens.cacheWrite).getD 0 +
        bucket.tokens.output.getD 0 + bucket.tokens.cacheRead.getD 0 = 0 then
      .ok ({ bucket with sentHash := some digest }, [])
    else
      match env.priceTable.estimate bucket.model bucket.tokens with
      | .error raised => .error raised
      | .ok cost =>
        if ¬ (bucket.write env collector digest cost).valid then .error .valueError
        else
          .ok ({ bucket with version := bucket.version + 1, sentHash := some digest },
            [bucket.write env collector digest cost])

def flush (env : ScanEnv) (collector : Collector) (buckets : List Bucket) :
    Except Raised (List Bucket × List UsageWrite) := do
  let flushed ← buckets.mapM (flushBucket env collector)
  return (flushed.map Prod.fst, flushed.flatMap Prod.snd)

/-- What `_apply` stores, queues and reports. -/
structure Applied (σ : Type) where
  row : Row σ
  writes : List UsageWrite
  unattributed : List UsageEvent

/-- The walk of `_apply` over the emissions of a session. -/
def walkOf {σ : Type} (env : ScanEnv) (collector : Collector) (versionOf : σ → Option String)
    (roots : List WorkspaceRoot) (row : Row σ) (item : Collected σ) : Walk :=
  item.emissions.foldl
    (Walk.take env collector item.session.nativeId (item.readerState.bind versionOf) roots)
    { current := row.claim, buckets := row.buckets, unattributed := [] }

/-- `_apply`; `versionOf` is `reader_state.get("harness_version")`. -/
def apply {σ : Type} [DecidableEq σ] (env : ScanEnv) (collector : Collector)
    (versionOf : σ → Option String) (roots : List WorkspaceRoot) (stored : Option (Row σ))
    (item : Collected σ) : Except Raised (Applied σ) :=
  let walk := walkOf env collector versionOf roots (stored.getD Row.empty) item
  let newRow : Row σ :=
    { reader := item.readerState, claim := walk.current, buckets := walk.buckets }
  if stored = some newRow then
    .ok { row := newRow, writes := [], unattributed := walk.unattributed }
  else do
    let flushed ← flush env collector walk.buckets
    return { row := { newRow with buckets := flushed.1 }, writes := flushed.2
             unattributed := walk.unattributed }

end StudioOS.LocalUsage
