import Mathlib.Data.List.Dedup
import StudioOS.Drift
import StudioOS.HookSync.Merge

/-!
# Hook sync — Model

Library hooks become scripts under `.claude/studio-hooks`, commands in the Claude settings and
entries of an OpenCode plugin. `plan_hook_sync` decides each hook from the local consents and the
disabled keys; `apply_hook_sync` checks that the files are as planned, writes them one after the
other and ends with the manifest and the two lists.

A JSON file is the value that its text holds, whatever the order of its keys.
-/

namespace StudioOS.HookSync

open TextFiles JsonText Drift

/-! ## Hooks -/

inductive HookEvent where
  | sessionStart
  | sessionEnd
  | userPrompt
  | preTool
  | postTool
  | stop
  | subagentStop
  | notification
  | preCompact
deriving DecidableEq

def HookEvent.value : HookEvent → String
  | .sessionStart => "session_start"
  | .sessionEnd => "session_end"
  | .userPrompt => "user_prompt"
  | .preTool => "pre_tool"
  | .postTool => "post_tool"
  | .stop => "stop"
  | .subagentStop => "subagent_stop"
  | .notification => "notification"
  | .preCompact => "pre_compact"

inductive HookMode where
  | blocking
  | advisory
deriving DecidableEq

inductive HookOs where
  | any
  | windows
  | linux
  | macos
deriving DecidableEq

def HookOs.value : HookOs → String
  | .any => "any"
  | .windows => "windows"
  | .linux => "linux"
  | .macos => "macos"

inductive HookShell where
  | pwsh
  | bash
  | sh
  | python
  | node

def HookShell.value : HookShell → String
  | .pwsh => "pwsh"
  | .bash => "bash"
  | .sh => "sh"
  | .python => "python"
  | .node => "node"

structure HookScript where
  os : HookOs
  shell : HookShell
  body : Text

structure HookContent where
  event : HookEvent
  matcher : Option String
  mode : HookMode
  timeoutSeconds : Nat
  scripts : List HookScript
  description : Option String

structure HookProjection where
  stableKey : String
  version : Int
  versionOrigin : String
  scope : String
  content : HookContent

def claudeEvents : HookEvent → String
  | .sessionStart => "SessionStart"
  | .sessionEnd => "SessionEnd"
  | .userPrompt => "UserPromptSubmit"
  | .preTool => "PreToolUse"
  | .postTool => "PostToolUse"
  | .stop => "Stop"
  | .subagentStop => "SubagentStop"
  | .notification => "Notification"
  | .preCompact => "PreCompact"

def opencodeEvents : HookEvent → Option String
  | .preTool => some "tool.execute.before"
  | .postTool => some "tool.execute.after"
  | .sessionStart => some "session.created"
  | .stop => some "session.idle"
  | _ => none

def shellExtensions : HookShell → String
  | .pwsh => "ps1"
  | .bash => "sh"
  | .sh => "sh"
  | .python => "py"
  | .node => "js"

def shellArgv : HookShell → List String
  | .pwsh => ["pwsh", "-NoProfile", "-File"]
  | .bash => ["bash"]
  | .sh => ["sh"]
  | .python => ["python"]
  | .node => ["node"]

/-- A file that should be JSON: its text and what the text holds. -/
inductive Document where
  | json (text : Text) (value : Json)
  | invalid (text : Text)
  | undecodable

structure Home where
  /-- The files of `.claude/studio-hooks`, by name. -/
  scripts : String → Option Node
  /-- `.claude/settings.json`. -/
  settings : Option Document
  /-- `.config/opencode/plugin/studio-hooks.js`. -/
  plugin : Option Node
  /-- `.studio-os/library-hooks-manifest.json`. -/
  manifest : Option Document
  /-- `.studio/hook-consent.json`. -/
  consents : Option Document
  /-- `.studio/hook-disabled.json`. -/
  disabled : Option Document

/-- What is outside this part of the program. -/
structure Env where
  /-- The segments of the home directory. -/
  root : List (List Char)
  sha256 : Text → String
  /-- `json.dumps`, on several lines or compact, with or without sorted keys. -/
  dumps : (indent sortKeys : Bool) → Json → Text

inductive HookSyncError where
  | unsafeKey (key : String)
  | invalidVersion (key : String)
  | duplicateKey (key : String)
  | unknownConsent (key : String)
  | notRegular
  | notUtf8
  | settingsNotJson
  | settingsNotObject
  | settings (err : MergeError)
  /-- `HookSyncConflictError` for locally modified files. -/
  | conflict
  /-- `HookSyncConflictError` of `_verify_plan_is_fresh`. -/
  | changedSincePlanning
  /-- The `FileNotFoundError` of `unlink`. -/
  | fileNotFound

def HookScript.toJson (script : HookScript) : Json :=
  .object [("os", .string script.os.value), ("shell", .string script.shell.value),
    ("body", .string (String.ofList script.body))]

def optionJson : Option String → Json
  | none => .null
  | some s => .string s

/-- `content.model_dump(mode="json")`. -/
def HookContent.toJson (content : HookContent) : Json :=
  .object [("content_schema", .string "studio.library.hook/v1"),
    ("event", .string content.event.value), ("matcher", optionJson content.matcher),
    ("mode", .string (if content.mode = .blocking then "blocking" else "advisory")),
    ("timeout_seconds", .int content.timeoutSeconds),
    ("scripts", .array (content.scripts.map HookScript.toJson)),
    ("description", optionJson content.description)]

/-- `hook_fingerprint`. -/
def Env.fingerprint (env : Env) (content : HookContent) : String :=
  env.sha256 (env.dumps false true content.toJson)

/-- `select_script`: the variant of the system first, then `any`. -/
def selectScript (content : HookContent) (os : HookOs) : Option HookScript :=
  (content.scripts.find? fun script => script.os = os).or
    (content.scripts.find? fun script => script.os = .any)

inductive HookStatus where
  | installed
  | needsConsent
  | disabled
  | noVariant

/-- What an installed hook runs. -/
structure Installed where
  script : HookScript
  /-- The name of its file in the scripts directory. -/
  name : String
  command : String
  opencodeEvent : Option String

structure HookPlanEntry where
  projection : HookProjection
  status : HookStatus
  claudeEvent : String
  installed : Option Installed
  reports : List String

/-- `_SAFE_ARG_RE`. -/
def isSafeArg (part : String) : Bool :=
  !part.isEmpty && part.toList.all fun c =>
    c.isAlphanum || c = '_' || c = '.' || c = '/' || c = ':' || c = '-'

/-- The file of a script. -/
def scriptName (key : String) (shell : HookShell) : String := key ++ "." ++ shellExtensions shell

/-- `script_path.as_posix()`. -/
def Env.scriptPath (env : Env) (name : String) : String :=
  String.ofList (env.root.flatMap fun segment => '/' :: segment) ++ "/.claude/studio-hooks/" ++ name

def Env.command (env : Env) (shell : HookShell) (name : String) : String :=
  " ".intercalate ((shellArgv shell ++ [env.scriptPath name]).map fun part =>
    if isSafeArg part then part else "\"" ++ part ++ "\"")

/-- The event of the OpenCode plugin and what is reported about it. -/
def opencodeTarget (content : HookContent) : Option String × List String :=
  match opencodeEvents content.event with
  | none => (none, ["opencode:event_not_expressible:" ++ content.event.value])
  | some event =>
    if content.mode = .blocking ∧ content.event ≠ .preTool then
      (none, ["opencode:blocking_not_expressible:" ++ content.event.value])
    else (some event, [])

def stringOf : Json → Option String
  | .string s => some s
  | _ => none

def stringField (row : Object) (key : String) : Option String := (field row key).bind stringOf

def Env.planEntry (env : Env) (consents : Object) (disabled : List String) (os : HookOs)
    (projection : HookProjection) : HookPlanEntry :=
  let content := projection.content
  let opencode := opencodeTarget content
  let reports := "codex:not_supported" :: opencode.2
  let refused (status : HookStatus) (reports : List String) : HookPlanEntry :=
    { projection := projection
      status := status
      claudeEvent := claudeEvents content.event
      installed := none
      reports := reports }
  if projection.stableKey ∈ disabled then refused .disabled reports
  else if stringField consents projection.stableKey ≠ some (env.fingerprint content) then
    refused .needsConsent reports
  else
    match selectScript content os with
    | none => refused .noVariant (reports ++ ["no_variant:" ++ os.value])
    | some script =>
      let name := scriptName projection.stableKey script.shell
      { projection := projection
        status := .installed
        claudeEvent := claudeEvents content.event
        installed := some
          { script := script
            name := name
            command := env.command script.shell name
            opencodeEvent := opencode.1 }
        reports := reports }

def renderScript (script : HookScript) : Text :=
  let body := universal script.body
  if body.getLast? = some '\n' then body else body ++ ['\n']

def claudeGroup (projection : HookProjection) (installed : Installed) : Json :=
  .object ((match projection.content.matcher with
      | none => []
      | some matcher => [("matcher", .string matcher)]) ++
    [("hooks", .array [.object [("type", .string "command"),
      ("command", .string installed.command),
      ("timeout", .int projection.content.timeoutSeconds)]])])

/-- An installed entry of the plan. -/
structure InstalledHook where
  projection : HookProjection
  claudeEvent : String
  installed : Installed

def HookPlanEntry.toInstalled (entry : HookPlanEntry) : Option InstalledHook :=
  entry.installed.map fun installed => ⟨entry.projection, entry.claudeEvent, installed⟩

/-- Sorted by stable key. -/
def sortHooks (hooks : List InstalledHook) : List InstalledHook :=
  hooks.mergeSort fun a b => decide (a.projection.stableKey ≤ b.projection.stableKey)

/-- The text of the plugin before its hooks. -/
def pluginHead : String := "\n".intercalate
  ["// Generated by `studio-client hooks-library sync`. Do not edit: changes are",
    "// detected as local drift and never silently overwritten.",
    "import \x7b spawnSync \x7d from \"node:child_process\";", "", "const HOOKS = "]

/-- The text of the plugin behind its hooks. -/
def pluginTail : String := "\n".intercalate
  [";", "", "function run(hook, payload) \x7b",
    "  const result = spawnSync(hook.argv[0], hook.argv.slice(1), \x7b",
    "    input: JSON.stringify(payload ?? \x7b\x7d),", "    encoding: \"utf-8\",",
    "    timeout: hook.timeout_ms,", "  \x7d);",
    "  if (hook.blocking && (result.error || result.status !== 0)) \x7b",
    "    throw new Error(",
    "      `studio hook $\x7bhook.stable_key\x7d blocked: " ++
      "$\x7b(result.stderr || \"\").trim()\x7d`,",
    "    );", "  \x7d", "\x7d", "", "function matches(hook, tool) \x7b",
    "  return !hook.matcher || new RegExp(`^(?:$\x7bhook.matcher\x7d)$`).test(tool ?? \"\");",
    "\x7d", "", "export const StudioHooks = async () => (\x7b",
    "  \"tool.execute.before\": async (input, output) => \x7b",
    "    for (const hook of HOOKS) \x7b",
    "      if (hook.event === \"tool.execute.before\" && matches(hook, input.tool)) \x7b",
    "        run(hook, \x7b input, args: output.args \x7d);", "      \x7d", "    \x7d", "  \x7d,",
    "  \"tool.execute.after\": async (input, output) => \x7b",
    "    for (const hook of HOOKS) \x7b",
    "      if (hook.event === \"tool.execute.after\" && matches(hook, input.tool)) \x7b",
    "        run(hook, \x7b input, output \x7d);", "      \x7d", "    \x7d", "  \x7d,",
    "  event: async (\x7b event \x7d) => \x7b", "    for (const hook of HOOKS) \x7b",
    "      if (hook.event === event.type) run(hook, \x7b event \x7d);", "    \x7d", "  \x7d,",
    "\x7d);", ""]

def Env.pluginEntry (env : Env) (hook : InstalledHook) : Json :=
  .object [("argv", .array ((shellArgv hook.installed.script.shell ++
      [env.scriptPath hook.installed.name]).map .string)),
    ("blocking", .bool (hook.projection.content.mode = .blocking)),
    ("event", optionJson hook.installed.opencodeEvent),
    ("matcher", optionJson hook.projection.content.matcher),
    ("stable_key", .string hook.projection.stableKey),
    ("timeout_ms", .int (hook.projection.content.timeoutSeconds * 1000))]

def Env.renderOpencodePlugin (env : Env) (hooks : List InstalledHook) : Text :=
  pluginHead.toList ++ env.dumps true true (.array ((sortHooks hooks).map env.pluginEntry)) ++
    pluginTail.toList

/-- The path of a script from the home. -/
def relativeScript (name : String) : String := ".claude/studio-hooks/" ++ name

def Env.manifestRow (env : Env) (hook : InstalledHook) : Json :=
  .object [("claude_event", .string hook.claudeEvent),
    ("command", .string hook.installed.command),
    ("fingerprint", .string (env.fingerprint hook.projection.content)),
    ("opencode_event", optionJson hook.installed.opencodeEvent),
    ("scope", .string hook.projection.scope),
    ("script", .string (relativeScript hook.installed.name)),
    ("sha256", .string (env.sha256 (renderScript hook.installed.script))),
    ("stable_key", .string hook.projection.stableKey), ("version", .int hook.projection.version),
    ("version_origin", .string hook.projection.versionOrigin)]

def Env.renderManifest (env : Env) (hooks : List InstalledHook) (plugin : Option Text) : Json :=
  .object [("hooks", .array ((sortHooks hooks).map env.manifestRow)),
    ("opencode_plugin_sha256", optionJson (plugin.map env.sha256)), ("schema_version", .int 1)]

def loadJson : Option Document → Except HookSyncError (Option Json)
  | none => .ok none
  | some (.json _ value) => .ok (some value)
  | some (.invalid _) => .ok none
  | some .undecodable => .error .notUtf8

def loadConsents : Option Json → Object
  | some (.object fields) => fields.filter fun entry => (stringOf entry.2).isSome
  | _ => []

/-- `_load_disabled`, without repetitions. -/
def loadDisabled : Option Json → List String
  | some (.array items) => (items.filterMap stringOf).dedup
  | _ => []

/-- A row of the manifest that has a key. -/
def keyedRow : Json → Option (String × Object)
  | .object fields => (stringField fields "stable_key").map fun key => (key, fields)
  | _ => none

/-- `_load_manifest`: the rows with a key, and the hash of the plugin. -/
def loadManifest (payload : Option Json) : List (String × Object) × Option Json :=
  match payload with
  | some (.object fields) =>
    if ((field fields "schema_version").any fun version => same version (.int 1)) = true then
      match field fields "hooks" with
      | some (.array rows) =>
        (rows.filterMap keyedRow, field fields "opencode_plugin_sha256")
      | _ => ([], none)
    else ([], none)
  | _ => ([], none)

/-- `{row["stable_key"]: row for row in rows}`. -/
def rowsByKey (rows : List (String × Object)) : Object :=
  rows.foldl (fun table row => setField table row.1 (.object row.2)) []

/-- A step of `Path.resolve`. -/
def resolveSegment (path : List (List Char)) (segment : List Char) : List (List Char) :=
  if segment = [] ∨ segment = ['.'] then path
  else if segment = ['.', '.'] then path.dropLast
  else path ++ [segment]

/-- `_resolve_managed`: the name of a script, if the path leads to one. -/
def Env.resolveManaged (env : Env) (relative : Option Json) : Option String :=
  match relative with
  | some (.string relative) =>
    let start := if relative.toList.head? = some '/' then [] else env.root
    let candidate := (relative.toList.splitOn '/').foldl resolveSegment start
    if candidate.dropLast = env.root ++ [".claude".toList, "studio-hooks".toList] then
      candidate.getLast?.map String.ofList
    else none
  | _ => none

/-! ## The plan -/

inductive TargetState where
  | sync (state : SyncState)
  | obsolete
deriving DecidableEq

/-- A script or the plugin in the plan. -/
structure FileTarget where
  state : TargetState
  current : Option Text
  currentSha256 : Option String
  desired : Option Text

structure SettingsTarget where
  state : TargetState
  currentSha256 : Option String
  desired : Json

structure HookSyncPlan where
  entries : List HookPlanEntry
  removed : List String
  scripts : List (String × FileTarget)
  settings : Option SettingsTarget
  plugin : Option FileTarget
  manifest : Json
  /-- The two lists after the run; `none` if the file stays away. -/
  consents : Option Json
  disabled : Option Json

/-- `_read_text`. -/
def readNode : Option Node → Except HookSyncError (Option Text)
  | some (.text chars) => .ok (some (universal chars))
  | some (.binary _) => .error .notUtf8
  | _ => .ok none

def Env.planFile (env : Env) (node : Option Node) (desired : Text) (managedHash : Option String) :
    Except HookSyncError FileTarget :=
  if node = some .directory then .error .notRegular
  else
    match readNode node with
    | .error err => .error err
    | .ok current =>
      .ok
        { state := .sync (classifyState env.sha256 current desired managedHash)
          current := current
          currentSha256 := current.map env.sha256
          desired := some desired }

def Env.planDeletion (env : Env) (node : Option Node) : Except HookSyncError FileTarget :=
  match readNode node with
  | .error err => .error err
  | .ok current =>
    .ok
      { state := .obsolete
        current := current
        currentSha256 := current.map env.sha256
        desired := none }

/-- The hash of the last run for a script, if it wrote the same file. -/
def Env.managedHash (env : Env) (previous : Object) (hook : InstalledHook) : Option String :=
  match field previous hook.projection.stableKey with
  | some (.object row) =>
    if env.resolveManaged (field row "script") = some hook.installed.name then
      stringField row "sha256"
    else none
  | _ => none

def Env.planScripts (env : Env) (home : Home) (previous : Object) :
    List InstalledHook → Except HookSyncError (List (String × FileTarget))
  | [] => .ok []
  | hook :: rest =>
    match env.planFile (home.scripts hook.installed.name) (renderScript hook.installed.script)
        (env.managedHash previous hook) with
    | .error err => .error err
    | .ok target =>
      (env.planScripts home previous rest).map fun targets =>
        (hook.installed.name, target) :: targets

def Env.rowScript (env : Env) (row : String × Json) : Option String :=
  match row.2 with
  | .object fields => env.resolveManaged (field fields "script")
  | _ => none

def rowCommand (row : String × Json) : Option String :=
  match row.2 with
  | .object fields => stringField fields "command"
  | _ => none

/-- The targets of the scripts that are no longer desired. -/
def Env.planObsolete (env : Env) (home : Home) (desired : List String) :
    Object → Except HookSyncError (List (String × FileTarget))
  | [] => .ok []
  | row :: rest =>
    match env.rowScript row with
    | none => env.planObsolete home desired rest
    | some name =>
      if name ∈ desired ∨ ¬(home.scripts name).any Node.isFile then
        env.planObsolete home desired rest
      else
        match env.planDeletion (home.scripts name) with
        | .error err => .error err
        | .ok target =>
          (env.planObsolete home desired rest).map fun targets => (name, target) :: targets

def desiredGroups (hooks : List InstalledHook) (event : String) : List Json :=
  ((sortHooks hooks).filter fun hook => hook.claudeEvent = event).map fun hook =>
    claudeGroup hook.projection hook.installed

def readSettings : Option Document → Except HookSyncError Object
  | none => .ok []
  | some (.json _ (.object fields)) => .ok fields
  | some (.json _ _) => .error .settingsNotObject
  | some (.invalid _) => .error .settingsNotJson
  | some .undecodable => .error .notUtf8

/-- `_read_text` of a JSON file. -/
def readDocument : Option Document → Except HookSyncError (Option Text)
  | none => .ok none
  | some (.json text _) => .ok (some text)
  | some (.invalid text) => .ok (some text)
  | some .undecodable => .error .notUtf8

def Env.planClaudeSettings (env : Env) (document : Option Document) (hooks : List InstalledHook)
    (managed : List String) : Except HookSyncError (Option SettingsTarget) :=
  match readDocument document, readSettings document with
  | .error err, _ => .error err
  | .ok _, .error err => .error err
  | .ok current, .ok settings =>
    let names := ((hooks.map (·.claudeEvent)).dedup).mergeSort fun a b => decide (a ≤ b)
    match mergeClaudeHooks settings names (desiredGroups hooks) managed with
    | .error err => .error (.settings err)
    | .ok merged =>
      if same (.object merged) (.object settings) then
        .ok (current.map fun text => ⟨.sync .current, some (env.sha256 text), .object settings⟩)
      else
        .ok (some
          { state := .sync (if current.isNone then .missing else .outdated)
            currentSha256 := current.map env.sha256
            desired := .object merged })

/-- The part of `plan_hook_sync` about the plugin. -/
def Env.planPlugin (env : Env) (node : Option Node) (hash : Option Json)
    (hooks : List InstalledHook) : Except HookSyncError (Option FileTarget) :=
  let hash := hash.bind stringOf
  if hooks.isEmpty then
    if hash.isSome ∧ node.any Node.isFile then (env.planDeletion node).map some else .ok none
  else (env.planFile node (env.renderOpencodePlugin hooks) hash).map some

/-- `_validate_projection` of each, and the repetitions; the projections are sorted. -/
def validateProjections : List HookProjection → List String → Except HookSyncError Unit
  | [], _ => .ok ()
  | projection :: rest, seen =>
    if !safeStableKey projection.stableKey then .error (.unsafeKey projection.stableKey)
    else if projection.version ≤ 0 then .error (.invalidVersion projection.stableKey)
    else if projection.stableKey ∈ seen then .error (.duplicateKey projection.stableKey)
    else validateProjections rest (projection.stableKey :: seen)

/-- The consents given in this run; each ends a disabling. -/
def Env.giveConsents (env : Env) (projections : List HookProjection) :
    List String → Object × List String → Except HookSyncError (Object × List String)
  | [], lists => .ok lists
  | key :: rest, (consents, disabled) =>
    match projections.find? fun projection => projection.stableKey = key with
    | none => .error (.unknownConsent key)
    | some projection =>
      env.giveConsents projections rest
        (setField consents key (.string (env.fingerprint projection.content)),
          disabled.filter (· ≠ key))

/-- The keys disabled in this run; each ends a consent. -/
def disableKeys : List String → Object × List String → Object × List String
  | [], lists => lists
  | key :: rest, (consents, disabled) =>
    disableKeys rest
      (dropField consents key, if key ∈ disabled then disabled else disabled ++ [key])

/-- What a state file becomes: an empty list is not written where there is no file. -/
def stateFile (document : Option Document) (value : Json) (empty : Bool) : Option Json :=
  if document.isNone && empty then none else some value

/-- The arguments of a run. -/
structure Sync where
  projections : List HookProjection
  consent : List String
  disable : List String
  os : HookOs
  overwrite : Bool

def sortProjections (projections : List HookProjection) : List HookProjection :=
  projections.mergeSort fun a b => decide (a.stableKey ≤ b.stableKey)

/-- The plan once the lists are settled. -/
def Env.planFiles (env : Env) (home : Home) (args : Sync) (consents : Object)
    (disabled : List String) (manifest : List (String × Object) × Option Json) :
    Except HookSyncError HookSyncPlan :=
  let previous := rowsByKey manifest.1
  let entries := (sortProjections args.projections).map (env.planEntry consents disabled args.os)
  let hooks := entries.filterMap HookPlanEntry.toInstalled
  let names := hooks.map (·.installed.name)
  match env.planScripts home previous hooks, env.planObsolete home names previous with
  | .error err, _ => .error err
  | .ok _, .error err => .error err
  | .ok scripts, .ok obsolete =>
    let managed := previous.filterMap rowCommand ++ hooks.map (·.installed.command)
    match env.planClaudeSettings home.settings hooks managed with
    | .error err => .error err
    | .ok settings =>
      let opencode := hooks.filter fun hook => hook.installed.opencodeEvent.isSome
      match env.planPlugin home.plugin manifest.2 opencode with
      | .error err => .error err
      | .ok plugin =>
        let keys := hooks.map (·.projection.stableKey)
        let text :=
          if opencode.isEmpty then none else some (env.renderOpencodePlugin opencode)
        .ok
          { entries := entries
            removed :=
              ((previous.map Prod.fst).filter fun key => !keys.contains key).mergeSort
                fun a b => decide (a ≤ b)
            scripts := scripts ++ obsolete
            settings := settings
            plugin := plugin
            manifest := env.renderManifest hooks text
            consents := stateFile home.consents (.object consents) consents.isEmpty
            disabled := stateFile home.disabled (.array (disabled.map .string))
              disabled.isEmpty }

def Env.planHookSync (env : Env) (home : Home) (args : Sync) : Except HookSyncError HookSyncPlan :=
  match validateProjections (sortProjections args.projections) [] with
  | .error err => .error err
  | .ok () =>
    match loadJson home.consents, loadJson home.disabled with
    | .error err, _ => .error err
    | .ok _, .error err => .error err
    | .ok consents, .ok disabled =>
      match env.giveConsents args.projections args.consent
          (loadConsents consents, loadDisabled disabled) with
      | .error err => .error err
      | .ok lists =>
        match loadJson home.manifest with
        | .error err => .error err
        | .ok manifest =>
          env.planFiles home args (disableKeys args.disable lists).1
            (disableKeys args.disable lists).2 (loadManifest manifest)

/-- A file that the synchronization touches. -/
inductive Place where
  | script (name : String)
  | settings
  | plugin

/-- The hash of the file is the planned one. -/
def Env.fresh (env : Env) (current : Except HookSyncError (Option Text))
    (planned : Option String) : Except HookSyncError Unit :=
  match current with
  | .error err => .error err
  | .ok text => if text.map env.sha256 = planned then .ok () else .error .changedSincePlanning

def Env.freshScripts (env : Env) (home : Home) :
    List (String × FileTarget) → Except HookSyncError Unit
  | [] => .ok ()
  | (name, target) :: rest =>
    match env.fresh (readNode (home.scripts name)) target.currentSha256 with
    | .error err => .error err
    | .ok () => env.freshScripts home rest

def Env.verifyPlanIsFresh (env : Env) (home : Home) (plan : HookSyncPlan) :
    Except HookSyncError Unit :=
  match env.freshScripts home plan.scripts with
  | .error err => .error err
  | .ok () =>
    match plan.settings.elim (.ok ()) fun target =>
        env.fresh (readDocument home.settings) target.currentSha256 with
    | .error err => .error err
    | .ok () =>
      plan.plugin.elim (.ok ()) fun target =>
        env.fresh (readNode home.plugin) target.currentSha256

/-- `plan.locally_modified`; the settings never are. -/
def HookSyncPlan.locallyModified (plan : HookSyncPlan) : Bool :=
  plan.scripts.any (fun entry => entry.2.state = .sync .locallyModified) ||
    plan.plugin.any fun target => target.state = .sync .locallyModified

/-- The file after its turn. -/
def applyFile (node : Option Node) (target : FileTarget) : Except HookSyncError (Option Node) :=
  if target.state = .sync .current then .ok node
  else
    match target.desired with
    | some text => .ok (some (.text text))
    | none => if node.any Node.isFile then .ok none else .error .fileNotFound

def applyScripts : List (String × FileTarget) → Home → Home × Except HookSyncError Unit
  | [], home => (home, .ok ())
  | (name, target) :: rest, home =>
    match applyFile (home.scripts name) target with
    | .error err => (home, .error err)
    | .ok node =>
      applyScripts rest { home with scripts := Function.update home.scripts name node }

/-- The settings after their turn. -/
def Env.applySettings (env : Env) (document : Option Document) :
    Option SettingsTarget → Option Document
  | none => document
  | some target =>
    if target.state = .sync .current then document
    else some (.json (env.dumps true false target.desired ++ ['\n']) target.desired)

/-- A state file or the manifest, written. -/
def Env.writeJson (env : Env) (document : Option Document) : Option Json → Option Document
  | none => document
  | some value => some (.json (env.dumps true true value ++ ['\n']) value)

structure HookSyncResult where
  written : List Place
  deleted : List Place

/-- The files of the plan that are not current, with what they should be. -/
def HookSyncPlan.pending (plan : HookSyncPlan) : List (Place × Bool) :=
  (plan.scripts.filter fun entry => entry.2.state ≠ .sync .current).map
      (fun entry => (.script entry.1, entry.2.desired.isSome)) ++
    ((plan.settings.filter fun target => target.state ≠ .sync .current).toList.map
      fun _ => (.settings, true)) ++
    (plan.plugin.filter fun target => target.state ≠ .sync .current).toList.map
      fun target => (.plugin, target.desired.isSome)

/-- `apply_hook_sync`. The backups go to a directory of their own, which
nothing here reads. -/
def Env.applyHookSync (env : Env) (plan : HookSyncPlan) (overwrite : Bool) (home : Home) :
    Home × Except HookSyncError HookSyncResult :=
  if plan.locallyModified && !overwrite then (home, .error .conflict)
  else
    match env.verifyPlanIsFresh home plan with
    | .error err => (home, .error err)
    | .ok () =>
      match applyScripts plan.scripts home with
      | (home, .error err) => (home, .error err)
      | (home, .ok ()) =>
        let home := { home with settings := env.applySettings home.settings plan.settings }
        match plan.plugin.elim (.ok home.plugin) (applyFile home.plugin) with
        | .error err => (home, .error err)
        | .ok plugin =>
          ({ home with
            plugin := plugin
            manifest := env.writeJson home.manifest (some plan.manifest)
            consents := env.writeJson home.consents plan.consents
            disabled := env.writeJson home.disabled plan.disabled },
            .ok
              { written := (plan.pending.filter (·.2)).map (·.1)
                deleted := (plan.pending.filter fun entry => !entry.2).map (·.1) })

/-- A run: a plan and its application. -/
def Env.sync (env : Env) (home : Home) (args : Sync) : Home × Except HookSyncError HookSyncResult :=
  match env.planHookSync home args with
  | .error err => (home, .error err)
  | .ok plan => env.applyHookSync plan args.overwrite home

end StudioOS.HookSync
