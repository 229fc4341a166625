import StudioOS.Library.JsonText

/-!
# Merge — the managed hooks in the settings

`merge_claude_hooks` takes the managed commands out of the `hooks` of a
settings object and puts the desired groups in. What is left of a managed
command is in a desired group, and no command comes from nowhere.
-/

namespace StudioOS.HookSync

open List JsonText

variable {a b : Json} {inner groups : List Json} {command event : String} {settings : Object}
  {managed : List String}

inductive MergeError where
  /-- `Claude settings hooks is not an object`. -/
  | hooksNotObject
  /-- `Claude settings hooks.<event> is not a list`. -/
  | eventNotList (event : String)
  /-- The `TypeError` of a command that is a list or an object. -/
  | unhashable (event : String)

/-- `group.get("hooks")` of a group that is an object, if it is a list. -/
def innerHooks : Json → Option (List Json)
  | .object group =>
    match field group "hooks" with
    | some (.array inner) => some inner
    | _ => none
  | _ => none

/-- `hook.get("command")` of a hook that is an object. -/
def commandOf : Json → Option Json
  | .object hook => field hook "command"
  | _ => none

def isManaged (managed : List String) (hook : Json) : Bool :=
  match commandOf hook with
  | some (.string command) => command ∈ managed
  | _ => false

def isUnhashable (hook : Json) : Bool :=
  match commandOf hook with
  | some (.array _) => true
  | some (.object _) => true
  | _ => false

/-- What becomes of a group. -/
inductive Split where
  | unmanaged (group : Json)
  | stripped (group : Json)
  | managed (group : Json)

def Split.isStripped : Split → Bool
  | .stripped _ => true
  | _ => false

/-- What goes to `unmanaged`. -/
def Split.kept : Split → Option Json
  | .unmanaged group => some group
  | .stripped group => some group
  | .managed _ => none

/-- What goes to `managed_present`. -/
def Split.present : Split → Option Json
  | .managed group => some group
  | _ => none

def splitGroup (managed : List String) : Json → Split
  | .object group =>
    match innerHooks (.object group) with
    | none => .unmanaged (.object group)
    | some inner =>
      let keep := inner.filter fun hook => !isManaged managed hook
      if keep.length = inner.length then .unmanaged (.object group)
      else if keep.isEmpty then .managed (.object group)
      else .stripped (.object (setField group "hooks" (.array keep)))
  | group => .unmanaged group

/-- The groups of an event after the merge; `none` leaves the event out. -/
def mergeGroups (managed : List String) (groups wanted : List Json) (listed : Bool) :
    Option (List Json) :=
  let splits := groups.map (splitGroup managed)
  if !splits.any Split.isStripped && sameItems (splits.filterMap Split.present) wanted then
    if !groups.isEmpty || listed then some groups else none
  else
    let combined := splits.filterMap Split.kept ++ wanted
    if combined.isEmpty then none else some combined

def mergeEvents (managed : List String) (hooks : Object) (desired : String → List Json) :
    List String → Except MergeError Object
  | [] => .ok []
  | event :: rest =>
    match (field hooks event).getD (.array []) with
    | .array groups =>
      if groups.any fun group => ((innerHooks group).getD []).any isUnhashable then
        .error (.unhashable event)
      else
        match mergeEvents managed hooks desired rest with
        | .error err => .error err
        | .ok result =>
          match mergeGroups managed groups (desired event) (field hooks event).isSome with
          | none => .ok result
          | some groups => .ok ((event, .array groups) :: result)
    | _ => .error (.eventNotList event)

/-- The `hooks` of the settings; none if they are no object. -/
def hooksObject (settings : Object) : Option Object :=
  match field settings "hooks" with
  | none => some []
  | some .null => some []
  | some (.object hooks) => some hooks
  | some _ => none

/-- `merge_claude_hooks`; the desired groups of the events in `names`. -/
def mergeClaudeHooks (settings : Object) (names : List String) (desired : String → List Json)
    (managed : List String) : Except MergeError Object :=
  match hooksObject settings with
  | none => .error .hooksNotObject
  | some hooks =>
    let added := names.filter fun name => !(hooks.map Prod.fst).contains name
    match mergeEvents managed hooks desired (hooks.map Prod.fst ++ added) with
    | .error err => .error err
    | .ok result =>
      .ok (if !result.isEmpty || (field settings "hooks").isSome then
        setField settings "hooks" (.object result)
      else settings)

def Runs (groups : List Json) (command : String) : Prop :=
  ∃ group ∈ groups, ∃ inner, innerHooks group = some inner ∧
    ∃ hook ∈ inner, commandOf hook = some (.string command)

def Settings.Runs (settings : Object) (event command : String) : Prop :=
  ∃ hooks groups, field settings "hooks" = some (.object hooks) ∧
    field hooks event = some (.array groups) ∧ HookSync.Runs groups command

theorem same_innerHooks (h : same a b = true) (hinner : innerHooks b = some inner) :
    ∃ inner', innerHooks a = some inner' ∧ sameItems inner' inner = true := by
  cases b with
  | object group =>
    obtain ⟨other, rfl⟩ := same_object h
    simp only [innerHooks] at hinner
    split at hinner
    · rename_i items hfield
      cases hinner
      obtain ⟨v, hv, hsame⟩ := field_same h hfield
      obtain ⟨inner', rfl, hitems⟩ := same_array hsame
      exact ⟨inner', by simp [innerHooks, hv], hitems⟩
    · cases hinner
  | _ => simp [innerHooks] at hinner

theorem innerHooks_same (h : same a b = true) (hinner : innerHooks a = some inner) :
    ∃ inner', innerHooks b = some inner' ∧ sameItems inner inner' = true := by
  cases a with
  | object group =>
    obtain ⟨other, rfl⟩ := object_same h
    simp only [innerHooks] at hinner
    split at hinner
    · rename_i items hfield
      cases hinner
      obtain ⟨w, hw, hsame⟩ := same_field h hfield
      obtain ⟨inner', rfl, hitems⟩ := array_same hsame
      exact ⟨inner', by simp [innerHooks, hw], hitems⟩
    · cases hinner
  | _ => simp [innerHooks] at hinner

theorem same_commandOf (h : same a b = true) (hcommand : commandOf b = some (.string command)) :
    commandOf a = some (.string command) := by
  cases b with
  | object hook =>
    obtain ⟨other, rfl⟩ := same_object h
    obtain ⟨v, hv, hsame⟩ := field_same h hcommand
    rw [same_string hsame] at hv
    exact hv
  | _ => cases hcommand

theorem commandOf_same (h : same a b = true) (hcommand : commandOf a = some (.string command)) :
    commandOf b = some (.string command) := by
  cases a with
  | object hook =>
    obtain ⟨other, rfl⟩ := object_same h
    obtain ⟨w, hw, hsame⟩ := same_field h hcommand
    rw [string_same hsame] at hw
    exact hw
  | _ => cases hcommand

variable {others : List Json} {merged : Object} {hook group : Json} {hooks : Object} {value : Json}

theorem Runs.of_same (h : sameItems groups others = true)
    (hruns : Runs groups command) : Runs others command := by
  obtain ⟨group, hgroup, inner, hinner, hook, hhook, hcommand⟩ := hruns
  obtain ⟨other, hother, hsame⟩ := sameItems_left h hgroup
  obtain ⟨inner', hinner', hitems⟩ := innerHooks_same hsame hinner
  obtain ⟨hook', hhook', hsame'⟩ := sameItems_left hitems hhook
  exact ⟨other, hother, inner', hinner', hook', hhook', commandOf_same hsame' hcommand⟩

theorem Runs.to_same (h : sameItems others groups = true)
    (hruns : Runs groups command) : Runs others command := by
  obtain ⟨group, hgroup, inner, hinner, hook, hhook, hcommand⟩ := hruns
  obtain ⟨other, hother, hsame⟩ := sameItems_right h hgroup
  obtain ⟨inner', hinner', hitems⟩ := same_innerHooks hsame hinner
  obtain ⟨hook', hhook', hsame'⟩ := sameItems_right hitems hhook
  exact ⟨other, hother, inner', hinner', hook', hhook', same_commandOf hsame' hcommand⟩

theorem Settings.Runs.to_same (h : same (.object merged) (.object settings) = true)
    (hruns : Settings.Runs settings event command) : Settings.Runs merged event command := by
  obtain ⟨hooks, groups, hhooks, hgroups, hruns⟩ := hruns
  obtain ⟨v, hv, hsame⟩ := field_same h hhooks
  obtain ⟨hooks', rfl⟩ := same_object hsame
  obtain ⟨w, hw, hsame'⟩ := field_same hsame hgroups
  obtain ⟨groups', rfl, hitems⟩ := same_array hsame'
  exact ⟨hooks', groups', hv, hw, hruns.to_same hitems⟩

/-! ## The merge -/

theorem isManaged_of_commandOf
    (hcommand : commandOf hook = some (.string command)) (hmem : command ∈ managed) :
    isManaged managed hook = true := by
  simp [isManaged, hcommand, hmem]

theorem splitGroup_kept {rest} (h : (splitGroup managed group).kept = some rest)
    (hinner : innerHooks rest = some inner) :
    ∃ whole, innerHooks group = some whole ∧ inner ⊆ whole ∧
      ∀ hook ∈ inner, isManaged managed hook = false := by
  cases group with
  | object fields =>
    simp only [splitGroup] at h
    split at h
    · rename_i hnone
      cases h
      rw [hnone] at hinner
      cases hinner
    rename_i whole hwhole
    refine ⟨whole, hwhole, ?_⟩
    split at h
    · rename_i hlength
      cases h
      rw [hwhole] at hinner
      cases hinner
      refine ⟨List.Subset.refl _, fun hook hhook => ?_⟩
      have hall := length_filter_eq_length_iff.mp hlength hook hhook
      simpa using hall
    · split at h
      · cases h
      · cases h
        simp only [innerHooks, field_setField] at hinner
        cases hinner
        refine ⟨filter_subset_self _, fun hook hhook => ?_⟩
        simpa using (mem_filter.mp hhook).2
  | _ =>
    simp only [splitGroup, Split.kept] at h
    cases h
    cases hinner

theorem splitGroup_managed (hinner : innerHooks group = some inner) (hhook : hook ∈ inner)
    (hmanaged : isManaged managed hook = true) : (splitGroup managed group).isStripped = true ∨
      (splitGroup managed group).present = some group := by
  cases group with
  | object fields =>
    simp only [splitGroup, hinner]
    split
    · rename_i hlength
      have hall := length_filter_eq_length_iff.mp hlength hook hhook
      simp [hmanaged] at hall
    · split
      · exact .inr rfl
      · exact .inl rfl
  | _ => cases hinner

theorem mergeGroups_runs {wanted out listed}
    (h : mergeGroups managed groups wanted listed = some out) (hruns : Runs out command) :
    (Runs groups command ∨ Runs wanted command) ∧ (command ∈ managed → Runs wanted command) := by
  simp only [mergeGroups] at h
  split at h
  · rename_i hsame
    rw [Bool.and_eq_true, Bool.not_eq_true', any_eq_false] at hsame
    split at h
    · cases h
      refine ⟨.inl hruns, fun hmem => ?_⟩
      obtain ⟨group, hgroup, inner, hinner, hook, hhook, hcommand⟩ := hruns
      have hmanaged := isManaged_of_commandOf hcommand hmem
      rcases splitGroup_managed hinner hhook hmanaged with hstripped | hpresent
      · exact absurd hstripped (hsame.1 _ (mem_map_of_mem hgroup))
      · have hin : group ∈ (groups.map (splitGroup managed)).filterMap Split.present :=
          mem_filterMap.mpr ⟨_, mem_map_of_mem hgroup, hpresent⟩
        exact Runs.of_same hsame.2 ⟨group, hin, inner, hinner, hook, hhook, hcommand⟩
    · cases h
  · split at h
    · cases h
    cases h
    obtain ⟨group, hgroup, inner, hinner, hook, hhook, hcommand⟩ := hruns
    rcases mem_append.mp hgroup with hkept | hwanted
    · obtain ⟨piece, hpiece, hrest⟩ := mem_filterMap.mp hkept
      obtain ⟨whole, hwhole, rfl⟩ := mem_map.mp hpiece
      obtain ⟨all, hall, hsub, hnone⟩ := splitGroup_kept hrest hinner
      refine ⟨.inl ⟨whole, hwhole, all, hall, hook, hsub hhook, hcommand⟩, fun hmem => ?_⟩
      have hmanaged := isManaged_of_commandOf hcommand hmem
      rw [hnone hook hhook] at hmanaged
      cases hmanaged
    · have hruns : Runs wanted command := ⟨group, hwanted, inner, hinner, hook, hhook, hcommand⟩
      exact ⟨.inr hruns, fun _ => hruns⟩

theorem mergeEvents_field {desired events result}
    (h : mergeEvents managed hooks desired events = .ok result)
    (hfield : field result event = some value) :
    ∃ groups out, (field hooks event).getD (.array []) = .array groups ∧ value = .array out ∧
      mergeGroups managed groups (desired event) (field hooks event).isSome = some out := by
  induction events generalizing result with
  | nil =>
    cases h
    cases hfield
  | cons first rest ih =>
    simp only [mergeEvents] at h
    split at h
    · rename_i groups hgroups
      split at h
      · cases h
      split at h
      · cases h
      rename_i later hlater
      split at h
      · cases h
        exact ih hlater hfield
      rename_i out hout
      cases h
      rw [field_cons] at hfield
      split at hfield
      · rename_i heq
        subst heq
        cases hfield
        exact ⟨groups, out, hgroups, rfl, hout⟩
      · exact ih hlater hfield
    · cases h

theorem hooksObject_field (h : hooksObject settings = some hooks)
    (hevent : field hooks event = some value) : field settings "hooks" = some (.object hooks) := by
  simp only [hooksObject] at h
  split at h
  · cases h
    cases hevent
  · cases h
    cases hevent
  · rename_i hfield
    cases h
    exact hfield
  · cases h

/-- What the merged settings run: of the managed commands only desired ones,
and beyond these nothing that the settings did not run. -/
theorem mergeClaudeHooks_runs {desired names}
    (h : mergeClaudeHooks settings names desired managed = .ok merged)
    (hruns : Settings.Runs merged event command) :
    (Settings.Runs settings event command ∨ Runs (desired event) command) ∧
      (command ∈ managed → Runs (desired event) command) := by
  simp only [mergeClaudeHooks] at h
  split at h
  · cases h
  rename_i hooks hhooks
  split at h
  · cases h
  rename_i result hresult
  cases h
  obtain ⟨hooks', groups, hfield, hgroups, hruns⟩ := hruns
  split at hfield
  · rw [field_setField] at hfield
    cases hfield
    obtain ⟨before, out, hbefore, heq, hout⟩ := mergeEvents_field hresult hgroups
    cases heq
    obtain ⟨hfrom, hmanaged⟩ := mergeGroups_runs hout hruns
    refine ⟨?_, hmanaged⟩
    rcases hfrom with hold | hnew
    · refine .inl ?_
      cases hevent : field hooks event with
      | none =>
        rw [hevent] at hbefore
        cases hbefore
        obtain ⟨group, hgroup, -⟩ := hold
        cases hgroup
      | some value =>
        rw [hevent, Option.getD_some] at hbefore
        subst hbefore
        exact ⟨hooks, before, hooksObject_field hhooks hevent, hevent, hold⟩
    · exact .inr hnew
  · rename_i hno
    rw [hfield] at hno
    simp at hno

end StudioOS.HookSync
