import StudioOS.HookSync.Steps

/-!
# Consent — what a home runs

A home is followed through its runs together with what they managed: every
script, command and plugin ever written, and what the user last said about
each key.
-/

namespace StudioOS.HookSync

open List TextFiles JsonText Drift

structure State where
  home : Home
  /-- The scripts that runs wrote. -/
  scripts : List String
  /-- The commands that runs put in the settings. -/
  commands : List String
  /-- A run wrote the plugin. -/
  plugin : Bool
  /-- The fingerprint that the user last consented to. -/
  consented : String → Option String
  /-- The user disabled the hook, and has not consented to it since. -/
  disabled : String → Bool

def Home.consentList (home : Home) : Object :=
  match loadJson home.consents with
  | .ok payload => loadConsents payload
  | .error _ => []

def Home.disabledList (home : Home) : List String :=
  match loadJson home.disabled with
  | .ok payload => loadDisabled payload
  | .error _ => []

/-- A home in which no run has been. -/
def State.start (home : Home) : State :=
  { home := { home with manifest := none }
    scripts := []
    commands := []
    plugin := false
    consented := stringField home.consentList
    disabled := fun key => decide (key ∈ home.disabledList) }

/-- What the user says in a run. -/
def State.told (env : Env) (state : State) (args : Sync) : State :=
  { state with
    consented := fun key =>
      if key ∈ args.disable then none
      else if key ∈ args.consent then env.given args.projections key
      else state.consented key
    disabled := fun key =>
      decide (key ∈ args.disable) || (decide (key ∉ args.consent) && state.disabled key) }

/-- The hooks that the run of a home installs. -/
def Env.hooksOf (env : Env) (home : Home) (args : Sync) : List InstalledHook :=
  match env.planHookSync home args with
  | .ok plan => plan.hooks
  | .error _ => []

/-- A run; what the user says in it counts if it succeeds. -/
def State.step (env : Env) (state : State) (args : Sync) : State :=
  match env.sync state.home args with
  | (home, .error _) => { state with home := home }
  | (home, .ok _) =>
    let hooks := env.hooksOf state.home args
    { state.told env args with
      home := home
      scripts := state.scripts ++ hooks.map (·.installed.name)
      commands := state.commands ++ hooks.map (·.installed.command)
      plugin := state.plugin || hooks.any fun hook => hook.installed.opencodeEvent.isSome }

def State.runs (env : Env) (syncs : List Sync) (state : State) : State :=
  syncs.foldl (State.step env) state

/-- The projected hook may run: it is not disabled, and the user consented to
its content as it is. -/
structure State.Allows (env : Env) (state : State) (args : Sync) (projection : HookProjection) :
    Prop where
  projected : projection ∈ args.projections
  enabled : state.disabled projection.stableKey = false
  consented : state.consented projection.stableKey = some (env.fingerprint projection.content)

/-- Whatever runs managed in the home belongs to a hook that may run. -/
structure State.Consented (env : Env) (state : State) (args : Sync) : Prop where
  scripts : ∀ name ∈ state.scripts, hasFile (state.home.scripts name) = true →
    ∃ projection hook, state.Allows env args projection ∧ env.Installs args.os projection hook ∧
      name = hook.installed.name ∧
        Holds (state.home.scripts name) (renderScript hook.installed.script)
  commands : ∀ settings, readSettings state.home.settings = .ok settings →
    ∀ event, ∀ command ∈ state.commands, Settings.Runs settings event command →
      ∃ projection hook, state.Allows env args projection ∧ env.Installs args.os projection hook ∧
        event = hook.claudeEvent ∧ command = hook.installed.command
  plugin : state.plugin = true → hasFile state.home.plugin = true →
    ∃ hooks, Holds state.home.plugin (env.renderOpencodePlugin hooks) ∧
      ∀ hook ∈ hooks, ∃ projection, state.Allows env args projection ∧
        env.Installs args.os projection hook

/-- The manifest traces all that runs managed, and the lists are what the user said. -/
structure State.Kept (env : Env) (state : State) (hooks : List InstalledHook) (plugin : Bool) :
    Prop where
  sound : Sound hooks
  manifest : ∃ payload, loadJson state.home.manifest = .ok payload ∧
    Traces env (loadManifest payload) hooks plugin
  scripts : ∀ name ∈ state.scripts, hasFile (state.home.scripts name) = true →
    name ∈ hooks.map (·.installed.name)
  commands : ∀ settings, readSettings state.home.settings = .ok settings →
    ∀ event, ∀ command ∈ state.commands, Settings.Runs settings event command →
      command ∈ hooks.map (·.installed.command)
  plugin : state.plugin = true → hasFile state.home.plugin = true → plugin = true
  consented : ∀ key, state.consented key = stringField state.home.consentList key
  disabled : ∀ key, state.disabled key = true ↔ key ∈ state.home.disabledList

theorem start_kept (env) (home : Home) : (State.start home).Kept env [] false where
  sound := ⟨nodup_nil, by simp⟩
  manifest := ⟨none, rfl, traces_nil env⟩
  scripts := by simp [State.start]
  commands := by simp [State.start]
  plugin := by simp [State.start]
  consented := fun _ => rfl
  disabled := fun key => by
    show decide (key ∈ home.disabledList) = true ↔ key ∈ home.disabledList
    simp

/-! ## A step -/

variable {hooks : List InstalledHook} {env : Env} {state : State}

/-- After the scripts had their turn: the installed ones hold their texts,
and a file that is none of them was not traced. -/
theorem scripts_after {home previous scripts obsolete} (hsound : Sound hooks)
    (hnames : (previous.filterMap env.rowScript).Nodup)
    (hscripts : env.planScripts home previous hooks = .ok scripts)
    (hobsolete : env.planObsolete home (hooks.map (·.installed.name)) previous = .ok obsolete) :
    ∃ files, applyScripts (scripts ++ obsolete) home = ({ home with scripts := files }, .ok ()) ∧
      (∀ hook ∈ hooks, Holds (files hook.installed.name) (renderScript hook.installed.script)) ∧
      ∀ name, hasFile (files name) = true → name ∉ hooks.map (·.installed.name) →
        hasFile (home.scripts name) = true ∧ name ∉ previous.filterMap env.rowScript := by
  obtain ⟨hfirst, hwrites⟩ := planScripts_ok hscripts
  obtain ⟨hsub, hdeletes, hall⟩ := planObsolete_ok hobsolete
  have hnodup : ((scripts ++ obsolete).map Prod.fst).Nodup := by
    rw [map_append, hfirst]
    refine nodup_append.mpr ⟨hsound.names, hsub.nodup hnames, ?_⟩
    rintro name hname _ hother rfl
    obtain ⟨target, htarget, rfl⟩ := mem_map.mp hother
    exact (hdeletes target htarget).1 hname
  have hok : ∀ target ∈ scripts ++ obsolete,
      ∃ node, applyFile (home.scripts target.1) target.2 = .ok node := by
    intro target htarget
    rcases mem_append.mp htarget with hwrite | hdelete
    · obtain ⟨hook, -, -, hwrite⟩ := hwrites target hwrite
      obtain ⟨node, hnode, -⟩ := applyFile_writes hwrite
      exact ⟨node, hnode⟩
    · exact ⟨none, applyFile_deletes (hdeletes target hdelete).2⟩
  obtain ⟨files, happly, htargets, hother⟩ := applyScripts_ok hnodup hok
  refine ⟨files, happly, fun hook hhook => ?_, fun name hfile hnot => ?_⟩
  · have hmem : hook.installed.name ∈ scripts.map Prod.fst := by
      rw [hfirst]
      exact mem_map_of_mem hhook
    obtain ⟨target, htarget, hname⟩ := mem_map.mp hmem
    obtain ⟨other, hother, heq, hwrite⟩ := hwrites target htarget
    have hsame : other = hook := by
      refine inj_on_of_nodup_map hsound.names hother hhook ?_
      exact heq.symm.trans hname
    subst hsame
    obtain ⟨node, hnode, hholds⟩ := applyFile_writes hwrite
    have hafter := htargets target (mem_append_left _ htarget)
    cases hnode.symm.trans hafter
    rwa [hname] at hholds
  · have hout : name ∉ (scripts ++ obsolete).map Prod.fst := by
      intro hin
      rw [map_append, mem_append, hfirst] at hin
      rcases hin with hin | hin
      · exact hnot hin
      obtain ⟨target, htarget, rfl⟩ := mem_map.mp hin
      have hafter := htargets target (mem_append_right _ htarget)
      have hnone : none = files target.1 := Except.ok.inj
        ((applyFile_deletes (hdeletes target htarget).2).symm.trans hafter)
      rw [← hnone] at hfile
      cases hfile
    rw [hother name hout] at hfile
    refine ⟨hfile, fun htraced => hout ?_⟩
    rw [map_append]
    exact mem_append_right _ (hall name htraced hnot hfile)

theorem consentList_after (document : Option Document) {consents : Object} {home : Home}
    (hall : AllStrings consents) (hhome : home.consents =
      env.writeJson document (stateFile document (.object consents) consents.isEmpty)) :
    home.consentList = consents := by
  by_cases hnone : (document.isNone && consents.isEmpty) = true
  · rw [stateFile, if_pos hnone] at hhome
    rw [Bool.and_eq_true, Option.isNone_iff_eq_none, List.isEmpty_iff] at hnone
    rw [Home.consentList, hhome, hnone.1, hnone.2]
    rfl
  · rw [stateFile, if_neg hnone] at hhome
    rw [Home.consentList, hhome]
    exact loadConsents_of_allStrings hall

theorem disabledList_after (document : Option Document) {disabled : List String}
    {home : Home} (hhome : home.disabled =
      env.writeJson document (stateFile document (.array (disabled.map .string)) disabled.isEmpty))
    (key : String) : key ∈ home.disabledList ↔ key ∈ disabled := by
  by_cases hnone : (document.isNone && disabled.isEmpty) = true
  · rw [stateFile, if_pos hnone] at hhome
    rw [Bool.and_eq_true, Option.isNone_iff_eq_none, List.isEmpty_iff] at hnone
    rw [Home.disabledList, hhome, hnone.1, hnone.2]
    rfl
  · rw [stateFile, if_neg hnone] at hhome
    rw [Home.disabledList, hhome]
    simp [Env.writeJson, loadJson, loadDisabled, filterMap_map, Function.comp_def, stringOf]

theorem told_lists {args consents disabled lists plugin} (hkept : state.Kept env hooks plugin)
    (hconsents : loadJson state.home.consents = .ok consents)
    (hdisabled : loadJson state.home.disabled = .ok disabled)
    (hlists : env.giveConsents args.projections args.consent
      (loadConsents consents, loadDisabled disabled) = .ok lists) :
    AllStrings (disableKeys args.disable lists).1 ∧ (∀ key, (state.told env args).consented key =
        stringField (disableKeys args.disable lists).1 key) ∧
      ∀ key, (state.told env args).disabled key = true ↔
        key ∈ (disableKeys args.disable lists).2 := by
  obtain ⟨hall, hgiven, hkeys⟩ := giveConsents_ok hlists (loadConsents_allStrings consents)
  obtain ⟨hall', hgiven', hkeys'⟩ := @disableKeys_spec args.disable lists hall
  have hconsented := hkept.consented
  have hoff := hkept.disabled
  simp only [Home.consentList, hconsents] at hconsented
  simp only [Home.disabledList, hdisabled] at hoff
  refine ⟨hall', fun key => ?_, fun key => ?_⟩
  · rw [hgiven', hgiven, ← hconsented]
    rfl
  · rw [hkeys', hkeys, ← hoff]
    simp [State.told]
    tauto

/-- What a successful run leaves in the files. -/
structure Env.Written (env : Env) (args : Sync) (plan : HookSyncPlan) (home home' : Home)
    (traced : List String) (commands : List String) (hash : Bool) : Prop where
  scripts : ∀ hook ∈ plan.hooks,
    Holds (home'.scripts hook.installed.name) (renderScript hook.installed.script)
  others : ∀ name, hasFile (home'.scripts name) = true →
    name ∉ plan.hooks.map (·.installed.name) →
      hasFile (home.scripts name) = true ∧ name ∉ traced
  settings : ∃ settings settings', readSettings home.settings = .ok settings ∧
    readSettings home'.settings = .ok settings' ∧
    ∀ event command, Settings.Runs settings' event command →
      (Settings.Runs settings event command ∨ Runs (desiredGroups plan.hooks event) command) ∧
        (command ∈ commands ++ plan.hooks.map (·.installed.command) →
          Runs (desiredGroups plan.hooks event) command)
  plugin : (plan.opencode ≠ [] ∧ Holds home'.plugin (env.renderOpencodePlugin plan.opencode)) ∨
    (plan.opencode = [] ∧ (hasFile home'.plugin = true → home'.plugin = home.plugin ∧ hash = false))
  manifest : home'.manifest =
    env.writeJson home.manifest (some (env.renderManifest plan.hooks (env.pluginText plan)))

theorem sync_cases {plugin} (hkept : state.Kept env hooks plugin) (args) :
    (∃ err, env.sync state.home args = (state.home, .error err)) ∨
    ∃ plan home result, env.planHookSync state.home args = .ok plan ∧
      env.sync state.home args = (home, .ok result) ∧
      env.Written args plan state.home home (hooks.map (·.installed.name))
        (hooks.map (·.installed.command)) plugin ∧
      Sound plan.hooks ∧ (∀ hook ∈ plan.hooks, ∃ projection,
        (state.told env args).Allows env args projection ∧ env.Installs args.os projection hook) ∧
      (∀ key, (state.told env args).consented key = stringField home.consentList key) ∧
      ∀ key, (state.told env args).disabled key = true ↔ key ∈ home.disabledList := by
  cases hplan : env.planHookSync state.home args with
  | error err => exact .inl ⟨err, by simp [Env.sync, hplan]⟩
  | ok plan =>
    obtain ⟨hvalid, consents, disabled, manifest, lists, hconsents, hdisabled, hmanifest, hlists,
      hfiles⟩ := planHookSync_cases hplan
    obtain ⟨hhooks, ⟨scripts, obsolete, hscripts, hobsolete, htargets⟩, hsettings, hplugin,
      hrender, hconsentFile, hdisabledFile⟩ := planFiles_cases hfiles
    obtain ⟨hall, hconsented, hoff⟩ := told_lists hkept hconsents hdisabled hlists
    obtain ⟨payload, hpayload, htraces⟩ := hkept.manifest
    cases hmanifest.symm.trans hpayload
    have hsound : Sound plan.hooks := by
      rw [hhooks]
      exact sound_of_valid hvalid
    have hnames : ((rowsByKey (loadManifest manifest).1).filterMap env.rowScript).Nodup := by
      rw [htraces.scripts]
      exact hkept.sound.sorted.names
    obtain ⟨files, happly, hholds, hothers⟩ := scripts_after hsound hnames hscripts hobsolete
    obtain ⟨settings, settings', hread, hread', hruns⟩ := planClaudeSettings_ok hsettings
    obtain ⟨node, hnode, hnodeSpec⟩ := planPlugin_ok hplugin
    by_cases hconflict : (plan.locallyModified && !args.overwrite) = true
    · exact .inl ⟨.conflict, by simp [Env.sync, hplan, Env.applyHookSync, hconflict]⟩
    cases hfresh : env.verifyPlanIsFresh state.home plan with
    | error err =>
      exact .inl ⟨err, by simp [Env.sync, hplan, Env.applyHookSync, hconflict, hfresh]⟩
    | ok =>
      refine .inr ⟨plan, { state.home with
        scripts := files
        settings := env.applySettings state.home.settings plan.settings
        plugin := node
        manifest := env.writeJson state.home.manifest (some plan.manifest)
        consents := env.writeJson state.home.consents plan.consents
        disabled := env.writeJson state.home.disabled plan.disabled },
        { written := (plan.pending.filter (·.2)).map (·.1)
          deleted := (plan.pending.filter fun entry => !entry.2).map (·.1) }, rfl, ?_, ?_,
        hsound, ?_, ?_, ?_⟩
      · simp [Env.sync, hplan, Env.applyHookSync, hconflict, hfresh, htargets, happly, hnode]
      · refine ⟨hholds, fun name hfile hnot => ?_, ⟨settings, settings', hread, hread', ?_⟩, ?_, ?_⟩
        · obtain ⟨hbefore, huntraced⟩ := hothers name hfile hnot
          rw [htraces.scripts] at huntraced
          refine ⟨hbefore, fun hmem => huntraced ?_⟩
          obtain ⟨hook, hhook, rfl⟩ := mem_map.mp hmem
          exact mem_map_of_mem (mem_sortHooks.mpr hhook)
        · intro event command hrun
          obtain ⟨hfrom, hmanaged⟩ := hruns event command hrun
          refine ⟨hfrom, fun hmem => hmanaged ?_⟩
          rw [htraces.commands]
          rcases mem_append.mp hmem with hold | hnew
          · obtain ⟨hook, hhook, rfl⟩ := mem_map.mp hold
            exact mem_append_left _ (mem_map_of_mem (mem_sortHooks.mpr hhook))
          · exact mem_append_right _ hnew
        · rw [htraces.plugin] at hnodeSpec
          exact hnodeSpec
        · rw [← hrender]
      · intro hook hhook
        rw [hhooks] at hhook
        obtain ⟨entry, hentry, hinstalled⟩ := mem_filterMap.mp hhook
        obtain ⟨projection, hprojection, rfl⟩ := mem_map.mp hentry
        obtain ⟨henabled, hconsent, hinstalls⟩ := planEntry_installs hinstalled
        refine ⟨projection, ⟨mem_mergeSort.mp hprojection, ?_, ?_⟩, hinstalls⟩
        · rw [Bool.eq_false_iff]
          exact fun hoffNow => henabled ((hoff _).mp hoffNow)
        · rw [hconsented, hconsent]
      · intro key
        rw [hconsented, consentList_after state.home.consents hall]
        rw [hconsentFile]
      · intro key
        rw [hoff, disabledList_after state.home.disabled]
        rw [hdisabledFile]

/-- A refused run changes nothing; after any other, what runs managed belongs to
hooks that may run, and the manifest traces it. -/
theorem step_cases {plugin} (hkept : state.Kept env hooks plugin) (args) :
    ((∃ err, (env.sync state.home args).2 = .error err) ∧ state.step env args = state) ∨
    ((∃ hooks plugin, (state.step env args).Kept env hooks plugin) ∧
      (state.step env args).Consented env args) := by
  rcases sync_cases hkept args with ⟨err, hsync⟩ |
    ⟨plan, home, result, hplan, hsync, hwritten, hsound, hallowed, hconsented, hoff⟩
  · exact .inl ⟨⟨err, by rw [hsync]⟩, by rw [State.step, hsync]⟩
  refine .inr ?_
  have hstep : state.step env args =
      { state.told env args with
        home := home
        scripts := state.scripts ++ plan.hooks.map (·.installed.name)
        commands := state.commands ++ plan.hooks.map (·.installed.command)
        plugin := state.plugin || plan.hooks.any fun hook =>
          hook.installed.opencodeEvent.isSome } := by
    rw [State.step, hsync, Env.hooksOf, hplan]
  rw [hstep]
  obtain ⟨settings, settings', hread, hread', hruns⟩ := hwritten.settings
  have hscripts : ∀ name ∈ state.scripts ++ plan.hooks.map (·.installed.name),
      hasFile (home.scripts name) = true → name ∈ plan.hooks.map (·.installed.name) := by
    intro name hname hfile
    by_contra hnot
    obtain ⟨hbefore, huntraced⟩ := hwritten.others name hfile hnot
    rcases mem_append.mp hname with hold | hnew
    · exact huntraced (hkept.scripts name hold hbefore)
    · exact hnot hnew
  have hcommands : ∀ event, ∀ command ∈ state.commands ++ plan.hooks.map (·.installed.command),
      Settings.Runs settings' event command →
        ∃ hook ∈ plan.hooks, hook.claudeEvent = event ∧ hook.installed.command = command := by
    intro event command hcommand hrun
    obtain ⟨hfrom, hmanaged⟩ := hruns event command hrun
    rcases mem_append.mp hcommand with hold | hnew
    · rcases hfrom with hbefore | hwanted
      · have htraced := hkept.commands settings hread event command hold hbefore
        exact runs_desiredGroups (hmanaged (mem_append_left _ htraced))
      · exact runs_desiredGroups hwanted
    · exact runs_desiredGroups (hmanaged (mem_append_right _ hnew))
  have hgone : plan.opencode = [] → (state.plugin || plan.hooks.any fun hook =>
      hook.installed.opencodeEvent.isSome) = true → hasFile home.plugin = true →
      (hasFile home.plugin = true → home.plugin = state.home.plugin ∧ plugin = false) →
      False := by
    intro hnone hmanaged hfile hleft
    have hany : (plan.hooks.any fun hook => hook.installed.opencodeEvent.isSome) = false := by
      rw [any_eq_false]
      intro hook hhook hsome
      have hmem : hook ∈ plan.opencode := mem_filter.mpr ⟨hhook, hsome⟩
      rw [hnone] at hmem
      cases hmem
    rw [hany, Bool.or_false] at hmanaged
    obtain ⟨heq, hhash⟩ := hleft hfile
    rw [heq] at hfile
    rw [hkept.plugin hmanaged hfile] at hhash
    cases hhash
  constructor
  · refine ⟨plan.hooks, (env.pluginText plan).isSome, hsound,
      ⟨some (env.renderManifest plan.hooks (env.pluginText plan)), ?_, traces_render env hsound _⟩,
      hscripts, ?_, ?_, hconsented, hoff⟩
    · show loadJson home.manifest = _
      rw [hwritten.manifest]
      rfl
    · intro others hothers event command hcommand hrun
      cases hread'.symm.trans hothers
      obtain ⟨hook, hhook, -, rfl⟩ := hcommands event command hcommand hrun
      exact mem_map_of_mem hhook
    · intro hplugin hfile
      rcases hwritten.plugin with ⟨hsome, -⟩ | ⟨hnone, hleft⟩
      · simp [Env.pluginText, hsome]
      · exact (hgone hnone hplugin hfile hleft).elim
  · refine ⟨?_, ?_, ?_⟩
    · intro name hname hfile
      obtain ⟨hook, hhook, rfl⟩ := mem_map.mp (hscripts name hname hfile)
      obtain ⟨projection, hallows, hinstalls⟩ := hallowed hook hhook
      exact ⟨projection, hook, ⟨hallows.projected, hallows.enabled, hallows.consented⟩, hinstalls,
        rfl, hwritten.scripts hook hhook⟩
    · intro others hothers event command hcommand hrun
      cases hread'.symm.trans hothers
      obtain ⟨hook, hhook, rfl, rfl⟩ := hcommands event command hcommand hrun
      obtain ⟨projection, hallows, hinstalls⟩ := hallowed hook hhook
      exact ⟨projection, hook, ⟨hallows.projected, hallows.enabled, hallows.consented⟩, hinstalls,
        rfl, rfl⟩
    · intro hplugin hfile
      rcases hwritten.plugin with ⟨-, hholds⟩ | ⟨hnone, hleft⟩
      · refine ⟨plan.opencode, hholds, fun hook hhook => ?_⟩
        obtain ⟨projection, hallows, hinstalls⟩ := hallowed hook (mem_filter.mp hhook).1
        exact ⟨projection, ⟨hallows.projected, hallows.enabled, hallows.consented⟩, hinstalls⟩
      · exact (hgone hnone hplugin hfile hleft).elim

theorem runs_kept {env : Env} {state : State} {hooks : List InstalledHook} {plugin : Bool}
    (hkept : state.Kept env hooks plugin) (syncs : List Sync) :
    ∃ hooks plugin, (state.runs env syncs).Kept env hooks plugin := by
  induction syncs generalizing state hooks plugin with
  | nil => exact ⟨hooks, plugin, hkept⟩
  | cons args rest ih =>
    rcases step_cases hkept args with ⟨-, hsame⟩ | ⟨⟨hooks', plugin', hkept'⟩, -⟩
    · refine @ih (state.step env args) hooks plugin ?_
      rwa [hsame]
    · exact ih hkept'

/-- A run that succeeds leaves the home with consent for all it runs. -/
def State.ConsentedBy (env : Env) (state : State) (args : Sync) : Prop :=
  ∀ result, (env.sync state.home args).2 = .ok result →
    (state.step env args).Consented env args

end StudioOS.HookSync
