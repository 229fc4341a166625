import StudioOS.HookSync.Model

/-!
# Steps — what each part of a run does

One lemma for each part of a plan: which hooks are installed, what the
manifest of the last run traces, and what the files are after the run.
-/

namespace StudioOS.HookSync

open List TextFiles JsonText Drift

theorem extension_of_last {shell other}
    (h : (shellExtensions shell).toList.getLast? = (shellExtensions other).toList.getLast?) :
    shellExtensions shell = shellExtensions other := by
  cases shell <;> cases other <;> first | rfl | exact absurd h (by decide)

theorem extension_chars (shell) :
    (shellExtensions shell).toList ≠ [] ∧ '/' ∉ (shellExtensions shell).toList := by
  cases shell <;> decide

theorem scriptName_toList (key) (shell) :
    (scriptName key shell).toList = key.toList ++ '.' :: (shellExtensions shell).toList := by
  simp [scriptName]

theorem scriptName_getLast (key) (shell) :
    (scriptName key shell).toList.getLast? = (shellExtensions shell).toList.getLast? := by
  obtain ⟨c, rest, hchars⟩ := exists_cons_of_ne_nil (extension_chars shell).1
  rw [scriptName_toList, hchars, List.getLast?_append, List.getLast?_cons_cons]
  cases hlast : (c :: rest).getLast? with
  | none => simp at hlast
  | some d => rfl

variable {key : String} {consents o : Object} {env : Env} {projections : List HookProjection}
  {disabled : List String} {target : FileTarget} {node : Option Node} {home : Home}

theorem key_of_scriptName {other shell shell'}
    (h : scriptName key shell = scriptName other shell') : key = other := by
  have hext : shellExtensions shell = shellExtensions shell' := by
    refine extension_of_last ?_
    rw [← scriptName_getLast key, ← scriptName_getLast other, h]
  have hlists := congrArg String.toList h
  rw [scriptName_toList, scriptName_toList, hext] at hlists
  exact String.toList_inj.mp (append_cancel_right hlists)

theorem isKeyChar_ne_slash {c} (h : isKeyChar c = true) : c ≠ '/' := by
  rintro rfl
  revert h
  decide

theorem scriptsDir_toList : ".claude/studio-hooks/".toList =
    ".claude".toList ++ '/' :: ("studio-hooks".toList ++ ['/']) := by decide +kernel

theorem relativeScript_toList (name) : (relativeScript name).toList =
    ".claude".toList ++ '/' :: ("studio-hooks".toList ++ '/' :: name.toList) := by
  have hassoc (a b chars : List Char) :
      (a ++ '/' :: (b ++ ['/'])) ++ chars = a ++ '/' :: (b ++ '/' :: chars) := by simp
  calc (relativeScript name).toList
      = ".claude/studio-hooks/".toList ++ name.toList := String.toList_append
    _ = _ := by rw [scriptsDir_toList, hassoc]

theorem relativeScript_splitOn {name} (h : '/' ∉ name.toList) :
    (relativeScript name).toList.splitOn '/' =
      [".claude".toList, "studio-hooks".toList, name.toList] := by
  rw [relativeScript_toList, splitOn_append_cons_self_of_not_mem (by decide),
    splitOn_append_cons_self_of_not_mem (by decide), splitOn_eq_singleton h]

theorem relativeScript_head (name) : (relativeScript name).toList.head? ≠ some '/' := by
  have hdir : ".claude".toList.head? = some '.' := by decide
  rw [relativeScript_toList, List.head?_append, hdir]
  simp

theorem resolveManaged_relativeScript (env : Env) (hkey : safeStableKey key = true) (shell) :
    env.resolveManaged (some (.string (relativeScript (scriptName key shell)))) =
      some (scriptName key shell) := by
  obtain ⟨c, rest, hchars, hfirst, hrest⟩ := safeStableKey_chars hkey
  have hname : '/' ∉ (scriptName key shell).toList := by
    rw [scriptName_toList, hchars]
    have hc : c ≠ '/' := by
      rintro rfl
      revert hfirst
      decide
    have hr : '/' ∉ rest := fun hmem => isKeyChar_ne_slash (hrest _ hmem) rfl
    simp [hc.symm, hr, (extension_chars shell).2]
  obtain ⟨tail, htail⟩ : ∃ tail, (scriptName key shell).toList = c :: tail := by
    rw [scriptName_toList, hchars]
    exact ⟨_, rfl⟩
  have hdot : c ≠ '.' := by
    rintro rfl
    revert hfirst
    decide
  have hstep (path : List (List Char)) :
      resolveSegment path (scriptName key shell).toList =
        path ++ [(scriptName key shell).toList] := by
    rw [resolveSegment, if_neg, if_neg]
    · rw [htail]
      simp [hdot]
    · rw [htail]
      simp [hdot]
  have hclaude (path : List (List Char)) :
      resolveSegment path ".claude".toList = path ++ [".claude".toList] := if_neg (by decide)
  have hhooks (path : List (List Char)) :
      resolveSegment path "studio-hooks".toList = path ++ ["studio-hooks".toList] :=
    if_neg (by decide)
  simp only [Env.resolveManaged, if_neg (relativeScript_head _), relativeScript_splitOn hname,
    foldl_cons, foldl_nil, hstep, hclaude, hhooks]
  simp

theorem setField_of_not_mem {value}
    (h : key ∉ o.map Prod.fst) : setField o key value = o ++ [(key, value)] := by
  induction o with
  | nil => rfl
  | cons entry rest ih =>
    obtain ⟨k, v⟩ := entry
    rw [map_cons, mem_cons, not_or] at h
    rw [setField, if_neg fun heq => h.1 heq.symm, ih h.2]
    rfl

theorem foldl_setField {rows : List (String × Object)} {table : Object}
    (h : (table.map Prod.fst ++ rows.map Prod.fst).Nodup) :
    rows.foldl (fun table row => setField table row.1 (.object row.2)) table =
      table ++ rows.map fun row => (row.1, .object row.2) := by
  induction rows generalizing table with
  | nil => simp
  | cons row rest ih =>
    have hnot : row.1 ∉ table.map Prod.fst := by
      intro hmem
      have hdisjoint := (nodup_append.mp h).2.2
      exact hdisjoint row.1 hmem row.1 (by simp) rfl
    rw [foldl_cons, setField_of_not_mem hnot, ih]
    · simp
    · simpa using h

/-- The fields of a row. -/
def Env.manifestFields (env : Env) (hook : InstalledHook) : Object :=
  match env.manifestRow hook with
  | .object fields => fields
  | _ => []

theorem loadManifest_render (env : Env) (hooks : List InstalledHook) (plugin) :
    loadManifest (some (env.renderManifest hooks plugin)) =
      ((sortHooks hooks).map fun hook => (hook.projection.stableKey, env.manifestFields hook),
        some (optionJson (plugin.map env.sha256))) := by
  have hrows : ((sortHooks hooks).map env.manifestRow).filterMap keyedRow =
      (sortHooks hooks).map fun hook => (hook.projection.stableKey, env.manifestFields hook) := by
    rw [filterMap_map, ← filterMap_eq_map]
    refine filterMap_congr fun hook _ => ?_
    simp [keyedRow, stringField, stringOf, Env.manifestFields, Env.manifestRow, field_cons]
  have hversion : ((field [("hooks", Json.array ((sortHooks hooks).map env.manifestRow)),
      ("opencode_plugin_sha256", optionJson (plugin.map env.sha256)),
      ("schema_version", .int 1)] "schema_version").any fun version => same version (.int 1)) =
      true := by
    simp [field_cons, same]
  simp only [loadManifest, Env.renderManifest, hversion, if_true]
  simp [hrows, field_cons]

/-- Hooks as a run installs them. -/
structure Sound (hooks : List InstalledHook) : Prop where
  keys : (hooks.map (·.projection.stableKey)).Nodup
  named : ∀ hook ∈ hooks, safeStableKey hook.projection.stableKey = true ∧
    hook.installed.name = scriptName hook.projection.stableKey hook.installed.script.shell

theorem mem_sortHooks {hooks hook} : hook ∈ sortHooks hooks ↔ hook ∈ hooks := mem_mergeSort

theorem Sound.sorted {hooks} (h : Sound hooks) : Sound (sortHooks hooks) where
  keys := ((mergeSort_perm hooks _).map _).nodup_iff.mpr h.keys
  named := fun hook hhook => h.named hook (mem_sortHooks.mp hhook)

theorem Sound.names {hooks} (h : Sound hooks) : (hooks.map (·.installed.name)).Nodup := by
  have hkeys := pairwise_map.mp h.keys
  refine pairwise_map.mpr (hkeys.imp_of_mem ?_)
  intro a b ha hb hne heq
  rw [(h.named a ha).2, (h.named b hb).2] at heq
  exact hne (key_of_scriptName heq)

/-- A previous table that traces the hooks. -/
structure Traces (env : Env) (manifest : List (String × Object) × Option Json)
    (hooks : List InstalledHook) (plugin : Bool) : Prop where
  scripts : (rowsByKey manifest.1).filterMap env.rowScript =
    (sortHooks hooks).map (·.installed.name)
  commands : (rowsByKey manifest.1).filterMap rowCommand =
    (sortHooks hooks).map (·.installed.command)
  plugin : (manifest.2.bind stringOf).isSome = plugin

theorem traces_nil (env) : Traces env (loadManifest none) [] false where
  scripts := by simp [loadManifest, rowsByKey, sortHooks]
  commands := by simp [loadManifest, rowsByKey, sortHooks]
  plugin := rfl

theorem traces_render (env) {hooks} (h : Sound hooks) (plugin) :
    Traces env (loadManifest (some (env.renderManifest hooks plugin))) hooks plugin.isSome := by
  have htable : rowsByKey (loadManifest (some (env.renderManifest hooks plugin))).1 =
      (sortHooks hooks).map fun hook =>
        (hook.projection.stableKey, .object (env.manifestFields hook)) := by
    rw [loadManifest_render, rowsByKey, foldl_setField]
    · simp
    · have hkeys := h.sorted.keys
      rw [map_map, map_nil, nil_append]
      exact hkeys
  refine ⟨?_, ?_, ?_⟩
  · rw [htable, filterMap_map, ← filterMap_eq_map]
    refine filterMap_congr fun hook hhook => ?_
    obtain ⟨hsafe, hname⟩ := h.sorted.named hook hhook
    have hresolve := resolveManaged_relativeScript env hsafe hook.installed.script.shell
    simp only [Function.comp_apply, Env.rowScript, Env.manifestFields, Env.manifestRow, field_cons]
    simpa [hname] using hresolve
  · rw [htable, filterMap_map, ← filterMap_eq_map]
    refine filterMap_congr fun hook _ => ?_
    simp [rowCommand, stringField, stringOf, Env.manifestFields, Env.manifestRow, field_cons]
  · rw [loadManifest_render]
    cases plugin <;> simp [optionJson, stringOf]

def AllStrings (o : Object) : Prop := ∀ entry ∈ o, (stringOf entry.2).isSome = true

theorem loadConsents_allStrings (payload) : AllStrings (loadConsents payload) := by
  intro entry hentry
  unfold loadConsents at hentry
  split at hentry
  · exact (mem_filter.mp hentry).2
  · cases hentry

theorem loadConsents_of_allStrings (h : AllStrings o) : loadConsents (some (.object o)) = o := by
  rw [loadConsents, filter_eq_self]
  exact h

theorem AllStrings.setField (h : AllStrings o) (key s) :
    AllStrings (setField o key (.string s)) := by
  induction o with
  | nil =>
    intro entry hentry
    rw [JsonText.setField, mem_singleton] at hentry
    rw [hentry]
    rfl
  | cons first rest ih =>
    obtain ⟨k, v⟩ := first
    intro entry hentry
    rw [JsonText.setField] at hentry
    split at hentry
    · rcases mem_cons.mp hentry with rfl | hrest
      · rfl
      · exact h entry (.tail _ hrest)
    · rcases mem_cons.mp hentry with rfl | hrest
      · exact h _ mem_cons_self
      · exact ih (fun e he => h e (.tail _ he)) entry hrest

theorem AllStrings.dropField (h : AllStrings o) (key) :
    AllStrings (dropField o key) := fun entry hentry => h entry (mem_filter.mp hentry).1

theorem stringField_setField (o key s other) :
    stringField (setField o key (.string s)) other =
      if other = key then some s else stringField o other := by
  by_cases h : other = key
  · subst h
    simp [stringField, stringOf]
  · rw [if_neg h, stringField, field_setField_of_ne fun heq => h heq.symm, stringField]

theorem stringField_dropField (o key other) :
    stringField (dropField o key) other = if other = key then none else stringField o other := by
  by_cases h : other = key
  · subst h
    simp [stringField]
  · rw [if_neg h, stringField, field_dropField_of_ne fun heq => h heq.symm, stringField]

/-- The fingerprint that a consent of this run is about. -/
def Env.given (env : Env) (projections : List HookProjection) (key : String) : Option String :=
  (projections.find? fun projection => projection.stableKey = key).map fun projection =>
    env.fingerprint projection.content

theorem giveConsents_ok {keys lists lists'}
    (h : env.giveConsents projections keys lists = .ok lists') (hall : AllStrings lists.1) :
    AllStrings lists'.1 ∧ (∀ key, stringField lists'.1 key =
        if key ∈ keys then env.given projections key else stringField lists.1 key) ∧
      ∀ key, key ∈ lists'.2 ↔ key ∈ lists.2 ∧ key ∉ keys := by
  induction keys generalizing lists with
  | nil =>
    cases h
    exact ⟨hall, by simp, by simp⟩
  | cons first rest ih =>
    obtain ⟨consents, disabled⟩ := lists
    simp only [Env.giveConsents] at h
    split at h
    · cases h
    rename_i projection hprojection
    obtain ⟨hall', hconsents, hdisabled⟩ := ih h (hall.setField _ _)
    refine ⟨hall', fun key => ?_, fun key => ?_⟩
    · rw [hconsents, stringField_setField]
      by_cases hkey : key = first
      · subst hkey
        simp [Env.given, hprojection]
      · simp [hkey]
    · rw [hdisabled]
      simp only [mem_filter, decide_eq_true_eq, mem_cons, not_or]
      tauto

theorem disableKeys_spec {keys lists}
    (hall : AllStrings lists.1) : AllStrings (disableKeys keys lists).1 ∧
      (∀ key, stringField (disableKeys keys lists).1 key =
        if key ∈ keys then none else stringField lists.1 key) ∧
      ∀ key, key ∈ (disableKeys keys lists).2 ↔ key ∈ lists.2 ∨ key ∈ keys := by
  induction keys generalizing lists with
  | nil => exact ⟨hall, by simp [disableKeys], by simp [disableKeys]⟩
  | cons first rest ih =>
    obtain ⟨consents, disabled⟩ := lists
    obtain ⟨hall', hconsents, hdisabled⟩ := @ih (dropField consents first,
      if first ∈ disabled then disabled else disabled ++ [first]) (hall.dropField first)
    refine ⟨hall', fun key => ?_, fun key => ?_⟩
    · rw [disableKeys, hconsents, stringField_dropField]
      by_cases hkey : key = first <;> simp [hkey]
    rw [disableKeys, hdisabled]
    by_cases hfirst : first ∈ disabled
    · simp only [hfirst, if_true, mem_cons]
      constructor
      · tauto
      · rintro (h | rfl | h)
        · exact .inl h
        · exact .inl hfirst
        · exact .inr h
    · simp only [hfirst, if_false, mem_append, mem_cons]
      tauto

/-- The hook is what the run makes of the projection. -/
structure Env.Installs (env : Env) (os : HookOs) (projection : HookProjection)
    (hook : InstalledHook) : Prop where
  source : hook.projection = projection
  claudeEvent : hook.claudeEvent = claudeEvents projection.content.event
  script : selectScript projection.content os = some hook.installed.script
  name : hook.installed.name = scriptName projection.stableKey hook.installed.script.shell
  command : hook.installed.command = env.command hook.installed.script.shell hook.installed.name
  opencodeEvent : hook.installed.opencodeEvent = (opencodeTarget projection.content).1

/-- Only a hook that is not disabled and whose fingerprint has consent is installed. -/
theorem planEntry_installs {os projection hook}
    (h : (env.planEntry consents disabled os projection).toInstalled = some hook) :
    projection.stableKey ∉ disabled ∧
      stringField consents projection.stableKey = some (env.fingerprint projection.content) ∧
      env.Installs os projection hook := by
  simp only [Env.planEntry] at h
  split at h
  · cases h
  rename_i hdisabled
  split at h
  · cases h
  rename_i hconsent
  split at h
  · cases h
  · rename_i script hscript
    cases h
    exact ⟨hdisabled, not_not.mp hconsent, rfl, rfl, hscript, rfl, rfl, rfl⟩

def HookSyncPlan.hooks (plan : HookSyncPlan) : List InstalledHook :=
  plan.entries.filterMap HookPlanEntry.toInstalled

theorem validateProjections_ok {seen} (h : validateProjections projections seen = .ok ()) :
    (∀ projection ∈ projections, safeStableKey projection.stableKey = true ∧
      projection.stableKey ∉ seen) ∧ (projections.map (·.stableKey)).Nodup := by
  induction projections generalizing seen with
  | nil => simp
  | cons first rest ih =>
    simp only [validateProjections] at h
    split at h
    · cases h
    rename_i hsafe
    split at h
    · cases h
    split at h
    · cases h
    rename_i hseen
    obtain ⟨hrest, hnodup⟩ := ih h
    refine ⟨fun projection hprojection => ?_, ?_⟩
    · rcases mem_cons.mp hprojection with rfl | hmem
      · exact ⟨by simpa using hsafe, hseen⟩
      · obtain ⟨hsafe', hnot⟩ := hrest projection hmem
        exact ⟨hsafe', fun hin => hnot (.tail _ hin)⟩
    · rw [map_cons, nodup_cons]
      refine ⟨fun hmem => ?_, hnodup⟩
      obtain ⟨other, hother, heq⟩ := mem_map.mp hmem
      exact (hrest other hother).2 (by rw [heq]; exact mem_cons_self)

theorem sound_of_valid {os} (h : validateProjections projections [] = .ok ()) :
    Sound ((projections.map (env.planEntry consents disabled os)).filterMap
      HookPlanEntry.toInstalled) := by
  obtain ⟨hsafe, hnodup⟩ := validateProjections_ok h
  constructor
  · rw [filterMap_map, map_filterMap]
    clear hsafe h
    induction projections with
    | nil => simp
    | cons first rest ih =>
      rw [map_cons, nodup_cons] at hnodup
      rw [filterMap_cons]
      split
      · exact ih hnodup.2
      rename_i key hkey
      refine nodup_cons.mpr ⟨fun hmem => hnodup.1 ?_, ih hnodup.2⟩
      obtain ⟨other, hother, heq⟩ := mem_filterMap.mp hmem
      obtain ⟨hook, hhook, rfl⟩ := Option.map_eq_some_iff.mp hkey
      obtain ⟨hook', hhook', heq'⟩ := Option.map_eq_some_iff.mp heq
      have hfirst := (planEntry_installs hhook).2.2.source
      have hsecond := (planEntry_installs hhook').2.2.source
      rw [hfirst, hsecond] at heq'
      rw [← heq']
      exact mem_map_of_mem hother
  · intro hook hhook
    obtain ⟨entry, hentry, hinstalled⟩ := mem_filterMap.mp hhook
    obtain ⟨projection, hprojection, rfl⟩ := mem_map.mp hentry
    have hinstalls := (planEntry_installs hinstalled).2.2
    rw [hinstalls.source]
    exact ⟨(hsafe projection hprojection).1, hinstalls.name⟩

/-! ## The files -/

/-- The file was written as the text, or reads as the text. -/
def Holds (node : Option Node) (text : Text) : Prop :=
  node = some (.text text) ∨ readNode node = .ok (some text)

def hasFile (node : Option Node) : Bool := node.any Node.isFile

/-- A target whose file gets the text. -/
structure FileTarget.Writes (target : FileTarget) (node : Option Node) (text : Text) : Prop where
  desired : target.desired = some text
  current : target.state = .sync .current → readNode node = .ok (some text)

/-- A target whose file goes. -/
structure FileTarget.Deletes (target : FileTarget) (node : Option Node) : Prop where
  state : target.state = .obsolete
  desired : target.desired = none
  present : hasFile node = true

theorem planFile_writes {desired hash}
    (h : env.planFile node desired hash = .ok target) : target.Writes node desired := by
  simp only [Env.planFile] at h
  split at h
  · cases h
  split at h
  · cases h
  rename_i current hcurrent
  cases h
  refine ⟨rfl, fun hstate => ?_⟩
  rw [hcurrent]
  simp only [TargetState.sync.injEq, classifyState] at hstate
  split at hstate
  · cases hstate
  · split at hstate
    · rename_i heq
      rw [heq]
    · split at hstate <;> cases hstate

theorem planDeletion_deletes
    (h : env.planDeletion node = .ok target) (hfile : hasFile node = true) :
    target.Deletes node := by
  simp only [Env.planDeletion] at h
  split at h
  · cases h
  · cases h
    exact ⟨rfl, rfl, hfile⟩

theorem applyFile_writes {text}
    (h : target.Writes node text) : ∃ node', applyFile node target = .ok node' ∧
      Holds node' text := by
  by_cases hstate : target.state = .sync .current
  · exact ⟨node, by rw [applyFile, if_pos hstate], .inr (h.current hstate)⟩
  · exact ⟨some (.text text), by rw [applyFile, if_neg hstate, h.desired], .inl rfl⟩

theorem applyFile_deletes (h : target.Deletes node) : applyFile node target = .ok none := by
  have hpresent := h.present
  rw [hasFile] at hpresent
  simp [applyFile, h.state, h.desired, hpresent]

theorem planScripts_ok {targets previous hooks}
    (h : env.planScripts home previous hooks = .ok targets) :
    targets.map Prod.fst = hooks.map (·.installed.name) ∧
      (∀ target ∈ targets, ∃ hook ∈ hooks, target.1 = hook.installed.name ∧
        target.2.Writes (home.scripts target.1) (renderScript hook.installed.script)) := by
  induction hooks generalizing targets with
  | nil =>
    cases h
    exact ⟨rfl, by simp⟩
  | cons hook rest ih =>
    simp only [Env.planScripts] at h
    split at h
    · cases h
    rename_i target htarget
    cases hrest : env.planScripts home previous rest with
    | error err =>
      rw [hrest] at h
      cases h
    | ok later =>
      rw [hrest] at h
      cases h
      obtain ⟨hnames, hwrites⟩ := ih hrest
      refine ⟨by simp [hnames], fun entry hentry => ?_⟩
      rcases mem_cons.mp hentry with rfl | hentry
      · exact ⟨hook, mem_cons_self, rfl, planFile_writes htarget⟩
      · obtain ⟨other, hother, heq, hwrite⟩ := hwrites entry hentry
        exact ⟨other, .tail _ hother, heq, hwrite⟩

theorem planObsolete_ok {targets desired rows}
    (h : env.planObsolete home desired rows = .ok targets) :
    (targets.map Prod.fst).Sublist (rows.filterMap env.rowScript) ∧
      (∀ target ∈ targets, target.1 ∉ desired ∧ target.2.Deletes (home.scripts target.1)) ∧
      ∀ name ∈ rows.filterMap env.rowScript, name ∉ desired → hasFile (home.scripts name) = true →
        name ∈ targets.map Prod.fst := by
  induction rows generalizing targets with
  | nil =>
    cases h
    exact ⟨List.Sublist.slnil, by simp, by simp⟩
  | cons row rest ih =>
    simp only [Env.planObsolete] at h
    split at h
    · rename_i hscript
      rw [filterMap_cons_none hscript]
      exact ih h
    rename_i name hscript
    rw [filterMap_cons_some hscript]
    split at h
    · rename_i hskip
      obtain ⟨hsub, hdeletes, hall⟩ := ih h
      refine ⟨hsub.cons _, hdeletes, fun other hother hnot hfile => ?_⟩
      rcases mem_cons.mp hother with rfl | hother
      · rcases hskip with hin | hno
        · exact absurd hin hnot
        · exact absurd hfile hno
      · exact hall other hother hnot hfile
    rename_i hgo
    rw [not_or, not_not] at hgo
    split at h
    · cases h
    rename_i target htarget
    cases hrest : env.planObsolete home desired rest with
    | error err =>
      rw [hrest] at h
      cases h
    | ok later =>
      rw [hrest] at h
      cases h
      obtain ⟨hsub, hdeletes, hall⟩ := ih hrest
      refine ⟨hsub.cons_cons _, fun entry hentry => ?_, fun other hother hnot hfile => ?_⟩
      · rcases mem_cons.mp hentry with rfl | hentry
        · exact ⟨hgo.1, planDeletion_deletes htarget hgo.2⟩
        · exact hdeletes entry hentry
      · rw [map_cons, mem_cons]
        rcases mem_cons.mp hother with rfl | hother
        · exact .inl rfl
        · exact .inr (hall other hother hnot hfile)

theorem applyScripts_ok {targets} (hnodup : (targets.map Prod.fst).Nodup)
    (hok : ∀ target ∈ targets, ∃ node, applyFile (home.scripts target.1) target.2 = .ok node) :
    ∃ scripts, applyScripts targets home = ({ home with scripts := scripts }, .ok ()) ∧
      (∀ target ∈ targets, applyFile (home.scripts target.1) target.2 = .ok (scripts target.1)) ∧
      ∀ name ∉ targets.map Prod.fst, scripts name = home.scripts name := by
  induction targets generalizing home with
  | nil => exact ⟨home.scripts, rfl, by simp, by simp⟩
  | cons first rest ih =>
    obtain ⟨name, target⟩ := first
    rw [map_cons, nodup_cons] at hnodup
    obtain ⟨node, hnode⟩ := hok _ mem_cons_self
    have hsame : ∀ entry ∈ rest,
        Function.update home.scripts name node entry.1 = home.scripts entry.1 := by
      intro entry hentry
      refine Function.update_of_ne (fun heq => ?_) _ _
      have hmem := mem_map_of_mem (f := Prod.fst) hentry
      rw [heq] at hmem
      exact hnodup.1 hmem
    obtain ⟨scripts, hscripts, htargets, hother⟩ :=
      @ih { home with scripts := Function.update home.scripts name node } hnodup.2
        (fun entry hentry => by
          simp only [hsame entry hentry]
          exact hok entry (.tail _ hentry))
    refine ⟨scripts, ?_, fun entry hentry => ?_, fun other hnot => ?_⟩
    · rw [applyScripts, hnode]
      exact hscripts
    · rcases mem_cons.mp hentry with rfl | hentry
      · have hname : scripts name = node := by simpa using hother name hnodup.1
        rw [hnode, hname]
      · have htarget := htargets entry hentry
        simp only [hsame entry hentry] at htarget
        exact htarget
    · rw [map_cons, mem_cons, not_or] at hnot
      exact (hother other hnot.2).trans (Function.update_of_ne hnot.1 _ _)

theorem innerHooks_claudeGroup (projection installed) :
    innerHooks (claudeGroup projection installed) = some [.object [("type", .string "command"),
      ("command", .string installed.command),
      ("timeout", .int projection.content.timeoutSeconds)]] := by
  cases hmatcher : projection.content.matcher <;>
    simp [innerHooks, claudeGroup, hmatcher, field_cons]

theorem runs_desiredGroups {hooks event command} (h : Runs (desiredGroups hooks event) command) :
    ∃ hook ∈ hooks, hook.claudeEvent = event ∧ hook.installed.command = command := by
  obtain ⟨group, hgroup, inner, hinner, item, hitem, hcommand⟩ := h
  obtain ⟨hook, hhook, rfl⟩ := mem_map.mp hgroup
  obtain ⟨hmem, hevent⟩ := mem_filter.mp hhook
  rw [innerHooks_claudeGroup] at hinner
  cases hinner
  rw [mem_singleton] at hitem
  subst hitem
  refine ⟨hook, mem_sortHooks.mp hmem, of_decide_eq_true hevent, ?_⟩
  simpa [commandOf, field_cons] using hcommand

theorem planClaudeSettings_ok {document hooks managed target}
    (h : env.planClaudeSettings document hooks managed = .ok target) :
    ∃ settings settings', readSettings document = .ok settings ∧
      readSettings (env.applySettings document target) = .ok settings' ∧
      ∀ event command, Settings.Runs settings' event command →
        (Settings.Runs settings event command ∨ Runs (desiredGroups hooks event) command) ∧
          (command ∈ managed → Runs (desiredGroups hooks event) command) := by
  simp only [Env.planClaudeSettings] at h
  split at h
  · cases h
  · cases h
  rename_i current settings hcurrent hsettings
  split at h
  · cases h
  rename_i merged hmerged
  refine ⟨settings, ?_⟩
  split at h
  · rename_i hsame
    cases h
    refine ⟨settings, hsettings, ?_, fun event command hruns => ⟨.inl hruns, fun hmem => ?_⟩⟩
    · cases current <;> simpa [Env.applySettings] using hsettings
    · exact (mergeClaudeHooks_runs hmerged (hruns.to_same hsame)).2 hmem
  · cases h
    refine ⟨merged, hsettings, ?_, fun event command hruns =>
      mergeClaudeHooks_runs hmerged hruns⟩
    cases current <;> simp [Env.applySettings, readSettings]

theorem planPlugin_ok {hash hooks target} (h : env.planPlugin node hash hooks = .ok target) :
    ∃ node', target.elim (.ok node) (applyFile node) = .ok node' ∧
      ((hooks ≠ [] ∧ Holds node' (env.renderOpencodePlugin hooks)) ∨ (hooks = [] ∧
          (hasFile node' = true → node' = node ∧ (hash.bind stringOf).isSome = false))) := by
  simp only [Env.planPlugin] at h
  split at h
  · rename_i hempty
    rw [List.isEmpty_iff] at hempty
    split at h
    · rename_i hgo
      cases hdelete : env.planDeletion node with
      | error err =>
        rw [hdelete] at h
        cases h
      | ok deletion =>
        rw [hdelete] at h
        cases h
        refine ⟨none, applyFile_deletes (planDeletion_deletes hdelete hgo.2), .inr ⟨hempty, ?_⟩⟩
        intro hfile
        cases hfile
    · rename_i hno
      cases h
      refine ⟨node, rfl, .inr ⟨hempty, fun hfile => ⟨rfl, ?_⟩⟩⟩
      by_contra hsome
      exact hno ⟨(Bool.not_eq_false _).mp hsome, hfile⟩
  · rename_i hhooks
    cases hplan : env.planFile node (env.renderOpencodePlugin hooks) (hash.bind stringOf) with
    | error err =>
      rw [hplan] at h
      cases h
    | ok file =>
      rw [hplan] at h
      cases h
      obtain ⟨node', happly, hholds⟩ := applyFile_writes (planFile_writes hplan)
      exact ⟨node', happly, .inl ⟨fun heq => hhooks (by simp [heq]), hholds⟩⟩

theorem planHookSync_cases {args plan} (h : env.planHookSync home args = .ok plan) :
    validateProjections (sortProjections args.projections) [] = .ok () ∧
      ∃ consents disabled manifest lists, loadJson home.consents = .ok consents ∧
        loadJson home.disabled = .ok disabled ∧ loadJson home.manifest = .ok manifest ∧
        env.giveConsents args.projections args.consent
          (loadConsents consents, loadDisabled disabled) = .ok lists ∧
        env.planFiles home args (disableKeys args.disable lists).1
          (disableKeys args.disable lists).2 (loadManifest manifest) = .ok plan := by
  simp only [Env.planHookSync] at h
  split at h
  · cases h
  rename_i hvalid
  split at h
  · cases h
  · cases h
  rename_i consents disabled hconsents hdisabled
  split at h
  · cases h
  rename_i lists hlists
  split at h
  · cases h
  · rename_i manifest hmanifest
    exact ⟨hvalid, consents, disabled, manifest, lists, hconsents, hdisabled, hmanifest, hlists, h⟩

/-- The hooks of the plan that go to the plugin. -/
def HookSyncPlan.opencode (plan : HookSyncPlan) : List InstalledHook :=
  plan.hooks.filter fun hook => hook.installed.opencodeEvent.isSome

/-- The text of the plugin after the run. -/
def Env.pluginText (env : Env) (plan : HookSyncPlan) : Option Text :=
  if plan.opencode.isEmpty then none else some (env.renderOpencodePlugin plan.opencode)

theorem planFiles_cases {args manifest plan}
    (h : env.planFiles home args consents disabled manifest = .ok plan) :
    plan.hooks = ((sortProjections args.projections).map
        (env.planEntry consents disabled args.os)).filterMap HookPlanEntry.toInstalled ∧
      (∃ scripts obsolete, env.planScripts home (rowsByKey manifest.1) plan.hooks = .ok scripts ∧
        env.planObsolete home (plan.hooks.map (·.installed.name)) (rowsByKey manifest.1) =
          .ok obsolete ∧ plan.scripts = scripts ++ obsolete) ∧
      env.planClaudeSettings home.settings plan.hooks
        ((rowsByKey manifest.1).filterMap rowCommand ++ plan.hooks.map (·.installed.command)) =
          .ok plan.settings ∧
      env.planPlugin home.plugin manifest.2 plan.opencode = .ok plan.plugin ∧
      plan.manifest = env.renderManifest plan.hooks (env.pluginText plan) ∧
      plan.consents = stateFile home.consents (.object consents) consents.isEmpty ∧
      plan.disabled = stateFile home.disabled (.array (disabled.map .string)) disabled.isEmpty := by
  simp only [Env.planFiles] at h
  split at h
  · cases h
  · cases h
  rename_i scripts obsolete hscripts hobsolete
  split at h
  · cases h
  rename_i settings hsettings
  split at h
  · cases h
  · rename_i plugin hplugin
    cases h
    exact ⟨rfl, ⟨scripts, obsolete, hscripts, hobsolete, rfl⟩, hsettings, hplugin, rfl, rfl, rfl⟩

end StudioOS.HookSync
