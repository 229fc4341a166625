import StudioOS.HookSync.Merge

/-!
# Exact — what the merge keeps, and what it leaves in its place

Whatever the settings hold, `merge_claude_hooks` takes the managed groups out,
puts the desired ones in and touches nothing else; done twice it is the same.
-/

namespace StudioOS.HookSync

open List Option JsonText

/-- What of a group is the user's: the hooks whose command is not managed,
each with the other keys of its group; what is no group of hooks, whole. -/
def foreignHooks (managed : List String) : Json → List (Object × Json)
  | .object group =>
    match innerHooks (.object group) with
    | none => [([], .object group)]
    | some inner =>
      (inner.filter fun hook => !isManaged managed hook).map fun hook =>
        (dropField group "hooks", hook)
  | group => [([], group)]

/-- What of the hooks is the user's, event by event. -/
def foreign (managed : List String) (hooks : Object) : List (String × Object × Json) :=
  hooks.flatMap fun entry =>
    match entry.2 with
    | .array groups => (groups.flatMap (foreignHooks managed)).map fun hook => (entry.1, hook)
    | _ => []

/-- The group has a hook whose command is managed. -/
def hasManaged (managed : List String) (group : Json) : Bool :=
  ((innerHooks group).getD []).any (isManaged managed)

/-- A group as `_claude_group` makes it: it has hooks, all of them managed. -/
def IsDesired (managed : List String) (group : Json) : Prop :=
  Distinct group ∧ ∃ inner, innerHooks group = some inner ∧ inner ≠ [] ∧
    ∀ hook ∈ inner, isManaged managed hook = true

/-- The desired groups of each event; `names` are the events that have an entry. -/
structure Desired (managed : List String) where
  names : List String
  groups : String → List Json
  nodup : names.Nodup
  absent : ∀ event, event ∉ names → groups event = []
  desired : ∀ event, ∀ group ∈ groups event, IsDesired managed group

def merge {managed : List String} (desired : Desired managed) (settings : Object) :
    Except MergeError Object :=
  mergeClaudeHooks settings desired.names desired.groups managed

/-- The settings are as they were, but for the desired groups in place of
the managed ones. -/
structure Exact {managed : List String} (desired : Desired managed) (settings merged : Object) :
    Prop where
  others : dropField merged "hooks" = dropField settings "hooks"
  user : foreign managed (objectField merged "hooks") =
    foreign managed (objectField settings "hooks")
  events : ((objectField merged "hooks").map Prod.fst).Nodup
  managed : ∀ event, sameItems
    ((listField (objectField merged "hooks") event).filter (hasManaged managed))
    (desired.groups event) = true
  again : merge desired merged = .ok merged

/-- The merge refuses with a `HookSyncError`, or its result is exact. -/
def Meets {managed : List String} (desired : Desired managed) (settings : Object) : Prop :=
  match merge desired settings with
  | .ok merged => Exact desired settings merged
  | .error .hooksNotObject => True
  | .error (.eventNotList _) => True
  | .error (.unhashable _) => False

/-- Whether a command is looked up that cannot be: it is a list or an
object, and no event before it is refused. -/
def tripsOn : Object → Bool
  | (_, .array groups) :: rest =>
    (groups.any fun group => ((innerHooks group).getD []).any isUnhashable) || tripsOn rest
  | _ => false

def trips (settings : Object) : Bool := ((hooksObject settings).map tripsOn).getD false

variable {managed : List String} {desired : Desired managed}

variable {group : Json} {groups wanted : List Json} {listed : Bool} {out : List Json}
  {hooks : Object} {event : String} {events : List String} {result o : Object} {key : String}
  {settings : Object}

theorem IsDesired.hasManaged (h : IsDesired managed group) : hasManaged managed group = true := by
  obtain ⟨-, inner, hinner, hne, hall⟩ := h
  obtain ⟨hook, hhook⟩ := exists_mem_of_ne_nil inner hne
  simp only [HookSync.hasManaged, hinner, getD_some, List.any_eq_true]
  exact ⟨hook, hhook, hall hook hhook⟩

theorem IsDesired.foreignHooks (h : IsDesired managed group) : foreignHooks managed group = [] := by
  obtain ⟨-, inner, hinner, -, hall⟩ := h
  cases group with
  | object fields =>
    have hnone : (inner.filter fun hook => !isManaged managed hook) = [] := by
      simpa [filter_eq_nil_iff] using hall
    simp [HookSync.foreignHooks, hinner, hnone]
  | _ => cases hinner

theorem IsDesired.split (h : IsDesired managed group) :
    splitGroup managed group = .managed group := by
  obtain ⟨-, inner, hinner, hne, hall⟩ := h
  cases group with
  | object fields =>
    have hnone : (inner.filter fun hook => !isManaged managed hook) = [] := by
      simpa [filter_eq_nil_iff] using hall
    have hlength : ¬ (0 = inner.length) := by
      intro hzero
      exact hne (length_eq_zero_iff.mp hzero.symm)
    simp [splitGroup, hinner, hnone, hlength]
  | _ => cases hinner

theorem IsDesired.hashable (h : IsDesired managed group) :
    ((innerHooks group).getD []).any isUnhashable = false := by
  obtain ⟨-, inner, hinner, -, hall⟩ := h
  rw [hinner, getD_some, List.any_eq_false]
  intro hook hhook
  have hmanaged := hall hook hhook
  simp only [isManaged] at hmanaged
  split at hmanaged
  · rename_i command hcommand
    simp [isUnhashable, hcommand]
  · cases hmanaged

/-- How a group splits: it is left alone, it loses its managed hooks, or it
is the managed hooks and nothing else. -/
theorem splitGroup_cases (managed) (group) :
    (splitGroup managed group = .unmanaged group ∧ hasManaged managed group = false) ∨
    (∃ fields inner keep, group = .object fields ∧ innerHooks group = some inner ∧
      keep = (inner.filter fun hook => !isManaged managed hook) ∧
      splitGroup managed group = .stripped (.object (setField fields "hooks" (.array keep))) ∧
      hasManaged managed group = true) ∨
    (splitGroup managed group = .managed group ∧ hasManaged managed group = true ∧
      foreignHooks managed group = []) := by
  cases group with
  | object fields =>
    cases hinner : innerHooks (.object fields) with
    | none => simp [splitGroup, hasManaged, hinner]
    | some inner =>
      by_cases hall : (inner.filter fun hook => !isManaged managed hook).length = inner.length
      · refine .inl ⟨by simp [splitGroup, hinner, hall], ?_⟩
        rw [length_filter_eq_length_iff] at hall
        simpa [hasManaged, hinner] using hall
      have hhas : hasManaged managed (.object fields) = true := by
        rw [length_filter_eq_length_iff] at hall
        simpa [hasManaged, hinner] using hall
      by_cases hnone : (inner.filter fun hook => !isManaged managed hook) = []
      · refine .inr (.inr ⟨?_, hhas, by simp [foreignHooks, hinner, hnone]⟩)
        have hlength : ¬ (0 = inner.length) := by simpa [hnone] using hall
        simp [splitGroup, hinner, hnone, hlength]
      · refine .inr (.inl ⟨fields, inner, _, rfl, rfl, rfl, ?_, hhas⟩)
        simp [splitGroup, hinner, hall, hnone]
  | _ => simp [splitGroup, hasManaged, innerHooks]

theorem stripped_kept {fields : Object} {inner keep : List Json}
    (hinner : innerHooks (.object fields) = some inner)
    (hkeep : keep = inner.filter fun hook => !isManaged managed hook) :
    hasManaged managed (.object (setField fields "hooks" (.array keep))) = false ∧
      foreignHooks managed (.object (setField fields "hooks" (.array keep))) =
        foreignHooks managed (.object fields) := by
  have hnew : innerHooks (.object (setField fields "hooks" (.array keep))) = some keep := by
    simp [innerHooks]
  subst hkeep
  constructor
  · simp [hasManaged, hnew]
  · simp [foreignHooks, hnew, hinner, dropField_setField]

theorem unmanaged_split (h : hasManaged managed group = false) :
    splitGroup managed group = .unmanaged group := by
  rcases splitGroup_cases managed group with hsplit | ⟨_, _, _, _, _, _, _, hhas⟩ | ⟨_, hhas, _⟩
  · exact hsplit.1
  · rw [h] at hhas
    cases hhas
  · rw [h] at hhas
    cases hhas

/-! ## The groups of one event -/

theorem kept_unmanaged (groups : List Json) :
    ∀ group ∈ (groups.map (splitGroup managed)).filterMap Split.kept,
      hasManaged managed group = false := by
  intro group hgroup
  obtain ⟨split, hsplit, hkept⟩ := mem_filterMap.mp hgroup
  obtain ⟨whole, -, rfl⟩ := List.mem_map.mp hsplit
  rcases splitGroup_cases managed whole with
    ⟨hsplit, hnone⟩ | ⟨fields, inner, keep, rfl, hinner, hkeep, hsplit, -⟩ | ⟨hsplit, -, -⟩
  · rw [hsplit] at hkept
    cases hkept
    exact hnone
  · rw [hsplit] at hkept
    cases hkept
    exact (stripped_kept hinner hkeep).1
  · rw [hsplit] at hkept
    cases hkept

theorem kept_foreign (groups : List Json) :
    ((groups.map (splitGroup managed)).filterMap Split.kept).flatMap (foreignHooks managed) =
      groups.flatMap (foreignHooks managed) := by
  induction groups with
  | nil => rfl
  | cons group rest ih =>
    rw [map_cons, flatMap_cons]
    rcases splitGroup_cases managed group with
      ⟨hsplit, -⟩ | ⟨fields, inner, keep, rfl, hinner, hkeep, hsplit, -⟩ | ⟨hsplit, -, hnone⟩
    · simp only [hsplit, filterMap_cons, Split.kept, flatMap_cons, ih]
    · simp only [hsplit, filterMap_cons, Split.kept, flatMap_cons, ih,
        (stripped_kept hinner hkeep).2]
    · simp only [hsplit, filterMap_cons, Split.kept, ih, hnone, nil_append]

theorem present_eq (h : (groups.map (splitGroup managed)).any Split.isStripped = false) :
    (groups.map (splitGroup managed)).filterMap Split.present =
      groups.filter (hasManaged managed) := by
  induction groups with
  | nil => rfl
  | cons group rest ih =>
    rw [map_cons, any_cons, Bool.or_eq_false_iff] at h
    rw [map_cons]
    rcases splitGroup_cases managed group with
      ⟨hsplit, hnone⟩ | ⟨_, _, _, _, _, _, hsplit, _⟩ | ⟨hsplit, hhas, -⟩
    · simp [hsplit, filterMap_cons, Split.present, ih h.2, hnone]
    · rw [hsplit] at h
      cases h.1
    · simp [hsplit, Split.present, ih h.2, hhas]

theorem filter_unmanaged (h : ∀ group ∈ groups, hasManaged managed group = false) :
    groups.filter (hasManaged managed) = [] := by
  simpa [filter_eq_nil_iff] using h

theorem filter_desired (h : ∀ group ∈ groups, IsDesired managed group) :
    groups.filter (hasManaged managed) = groups := by
  rw [filter_eq_self]
  intro group hgroup
  exact (h group hgroup).hasManaged

theorem desired_refl (h : ∀ group ∈ groups, IsDesired managed group) :
    sameItems groups groups = true := by
  induction groups with
  | nil => rfl
  | cons group rest ih =>
    rw [sameItems, same_refl group (h group mem_cons_self).1,
      ih fun other hother => h other (.tail _ hother)]
    rfl

theorem desired_foreign (h : ∀ group ∈ groups, IsDesired managed group) :
    groups.flatMap (foreignHooks managed) = [] := by
  rw [flatMap_eq_nil_iff]
  intro group hgroup
  exact (h group hgroup).foreignHooks

/-- What the merge leaves of the groups that it does not take out. -/
def kept (managed : List String) (groups : List Json) : List Json :=
  (groups.map (splitGroup managed)).filterMap Split.kept

/-- The groups of an event after the merge: as they were, with the desired
groups among them; none, where nothing is left and nothing desired; or the
user's and then the desired ones. -/
theorem mergeGroups_cases (managed groups wanted) (listed) :
    (mergeGroups managed groups wanted listed = some groups ∧
      (groups.map (splitGroup managed)).any Split.isStripped = false ∧
      sameItems (groups.filter (hasManaged managed)) wanted = true) ∨
    (mergeGroups managed groups wanted listed = none ∧ kept managed groups = [] ∧ wanted = []) ∨
    mergeGroups managed groups wanted listed = some (kept managed groups ++ wanted) := by
  by_cases hcurrent : (groups.map (splitGroup managed)).any Split.isStripped = false ∧
      sameItems ((groups.map (splitGroup managed)).filterMap Split.present) wanted = true
  · have hboth := hcurrent
    rw [← Bool.not_eq_true', ← Bool.and_eq_true] at hboth
    obtain ⟨hstripped, hsame⟩ := hcurrent
    by_cases hlisted : groups ≠ [] ∨ listed = true
    · refine .inl ⟨?_, hstripped, present_eq hstripped ▸ hsame⟩
      rw [mergeGroups, if_pos hboth, if_pos (by simpa using hlisted)]
    · simp only [not_or, ne_eq, not_not, Bool.not_eq_true] at hlisted
      obtain ⟨rfl, rfl⟩ := hlisted
      cases wanted with
      | nil => exact .inr (.inl ⟨rfl, rfl, rfl⟩)
      | cons first rest => simp [sameItems] at hsame
  · have heq : mergeGroups managed groups wanted listed =
        if (kept managed groups ++ wanted).isEmpty then none
        else some (kept managed groups ++ wanted) := by
      rw [← Bool.not_eq_true', ← Bool.and_eq_true] at hcurrent
      rw [mergeGroups, if_neg hcurrent]
      rfl
    by_cases hnone : kept managed groups ++ wanted = []
    · refine .inr (.inl ⟨?_, append_eq_nil_iff.mp hnone⟩)
      rw [heq, hnone]
      rfl
    · refine .inr (.inr ?_)
      rw [heq, if_neg (by simpa using hnone)]

theorem mergeGroups_foreign (h : ∀ group ∈ wanted, IsDesired managed group) :
    ((mergeGroups managed groups wanted listed).getD []).flatMap (foreignHooks managed) =
      groups.flatMap (foreignHooks managed) := by
  have hforeign := @kept_foreign managed groups
  rcases mergeGroups_cases managed groups wanted listed with
    ⟨heq, -⟩ | ⟨heq, hkept, -⟩ | heq
  · rw [heq, getD_some]
  · rw [heq, ← hforeign]
    exact congrArg (List.flatMap _) hkept.symm
  · rw [heq, getD_some, flatMap_append, desired_foreign h, append_nil]
    exact hforeign

theorem mergeGroups_managed (h : ∀ group ∈ wanted, IsDesired managed group) :
    sameItems (((mergeGroups managed groups wanted listed).getD []).filter (hasManaged managed))
      wanted = true := by
  rcases mergeGroups_cases managed groups wanted listed with
    ⟨heq, -, hsame⟩ | ⟨heq, -, hwanted⟩ | heq
  · rwa [heq, getD_some]
  · rw [heq, hwanted]
    rfl
  · have hkept : (kept managed groups).filter (hasManaged managed) = [] :=
      filter_unmanaged (kept_unmanaged groups)
    rw [heq, getD_some, filter_append, hkept, filter_desired h, nil_append]
    exact desired_refl h

theorem wanted_of_none (h : mergeGroups managed groups wanted listed = none) : wanted = [] := by
  rcases mergeGroups_cases managed groups wanted listed with ⟨heq, -⟩ | ⟨-, -, hwanted⟩ | heq
  · rw [heq] at h
    cases h
  · exact hwanted
  · rw [heq] at h
    cases h

theorem split_joined {before} (hbefore : ∀ group ∈ before, hasManaged managed group = false)
    (h : ∀ group ∈ wanted, IsDesired managed group) :
    ((before ++ wanted).map (splitGroup managed)).any Split.isStripped = false := by
  rw [List.any_eq_false]
  intro split hsplit
  obtain ⟨group, hgroup, rfl⟩ := List.mem_map.mp hsplit
  rcases mem_append.mp hgroup with hmem | hmem
  · simp [unmanaged_split (hbefore group hmem), Split.isStripped]
  · simp [(h group hmem).split, Split.isStripped]

theorem mergeGroups_again (h : ∀ group ∈ wanted, IsDesired managed group)
    (hout : mergeGroups managed groups wanted listed = some out) :
    mergeGroups managed out wanted true = some out := by
  have hsplit : (out.map (splitGroup managed)).any Split.isStripped = false := by
    rcases mergeGroups_cases managed groups wanted listed with
      ⟨heq, hstripped, -⟩ | ⟨heq, -⟩ | heq <;> rw [heq] at hout <;> cases hout
    · exact hstripped
    · exact split_joined (kept_unmanaged groups) h
  have hsame : sameItems (out.filter (hasManaged managed)) wanted = true := by
    have hmanaged := @mergeGroups_managed managed groups wanted listed h
    rwa [hout, getD_some] at hmanaged
  simp [mergeGroups, hsplit, present_eq hsplit, hsame]

theorem mergeGroups_none : mergeGroups managed [] [] false = none := by
  simp [mergeGroups, sameItems]

/-- No command of the groups is a list or an object. -/
def Hashable (groups : List Json) : Prop :=
  (groups.any fun group => ((innerHooks group).getD []).any isUnhashable) = false

theorem mergeGroups_hashable
    (h : ∀ group ∈ wanted, IsDesired managed group) (hgroups : Hashable groups)
    (hout : mergeGroups managed groups wanted listed = some out) : Hashable out := by
  have hkept : ∀ group ∈ kept managed groups,
      ¬ ((innerHooks group).getD []).any isUnhashable = true := by
    intro group hgroup
    obtain ⟨split, hsplit, hkept⟩ := mem_filterMap.mp hgroup
    obtain ⟨whole, hwhole, rfl⟩ := List.mem_map.mp hsplit
    rw [Bool.not_eq_true, List.any_eq_false]
    intro hook hhook
    cases hinner : innerHooks group with
    | none => simp [hinner] at hhook
    | some inner =>
      rw [hinner, getD_some] at hhook
      obtain ⟨all, hall, hsub, -⟩ := splitGroup_kept hkept hinner
      have hnone := List.any_eq_false.mp hgroups whole hwhole
      rw [hall, getD_some, Bool.not_eq_true, List.any_eq_false] at hnone
      exact hnone hook (hsub hhook)
  rcases mergeGroups_cases managed groups wanted listed with ⟨heq, -⟩ | ⟨heq, -⟩ | heq <;>
    rw [heq] at hout <;> cases hout
  · exact hgroups
  · refine List.any_eq_false.mpr fun group hgroup => ?_
    rcases mem_append.mp hgroup with hmem | hmem
    · exact hkept group hmem
    · rw [(h group hmem).hashable]
      exact Bool.false_ne_true

/-! ## The events -/

/-- The entry of an event after the merge. -/
def eventOut (desired : Desired managed) (hooks : Object) (event : String) :
    Option (String × Json) :=
  (mergeGroups managed (listField hooks event) (desired.groups event)
    (field hooks event).isSome).map fun out => (event, .array out)

theorem eventOut_fst {entry} (h : eventOut desired hooks event = some entry) : entry.1 = event := by
  obtain ⟨out, -, rfl⟩ := map_eq_some_iff.mp h
  rfl

/-- The groups that are there for an event, and none if it is not there. -/
def HasGroups (hooks : Object) (event : String) : Prop :=
  (field hooks event).getD (.array []) = .array (listField hooks event)

theorem hasGroups_of (h : (field hooks event).getD (.array []) = .array groups) :
    listField hooks event = groups := by
  cases hfield : field hooks event with
  | none =>
    rw [hfield] at h
    cases h
    simp [listField, hfield]
  | some value =>
    rw [hfield, getD_some] at h
    simp [listField, hfield, h]

theorem mergeEvents_iff : mergeEvents managed hooks desired.groups events = .ok result ↔
      (∀ event ∈ events, HasGroups hooks event ∧ Hashable (listField hooks event)) ∧
        result = events.filterMap (eventOut desired hooks) := by
  induction events generalizing result with
  | nil => simp [mergeEvents, eq_comm]
  | cons event rest ih =>
    rw [forall_mem_cons, filterMap_cons]
    cases hvalue : (field hooks event).getD (.array []) with
    | array groups =>
      have hlist := hasGroups_of hvalue
      have hgroups : HasGroups hooks event := by rw [HasGroups, hvalue, hlist]
      by_cases hhash : Hashable (listField hooks event)
      · have hno := hhash
        rw [Hashable, hlist] at hno
        cases hrest : mergeEvents managed hooks desired.groups rest with
        | error err =>
          have hnone := @ih (rest.filterMap (eventOut desired hooks))
          rw [hrest] at hnone
          simp only [mergeEvents, hvalue, hno, Bool.false_eq_true, if_false, hrest]
          simp only [reduceCtorEq, false_iff, not_and, and_true] at hnone ⊢
          exact fun hall => absurd hall.2 hnone
        | ok later =>
          obtain ⟨hall, rfl⟩ := ih.mp hrest
          rw [and_iff_right ⟨⟨hgroups, hhash⟩, hall⟩]
          simp only [mergeEvents, hvalue, hno, Bool.false_eq_true, if_false, hrest, eventOut, hlist]
          cases mergeGroups managed groups (desired.groups event)
              (field hooks event).isSome with
          | none | some => simp [eq_comm]
      · have hyes := hhash
        rw [Hashable, hlist, Bool.not_eq_false] at hyes
        simp only [mergeEvents, hvalue, hyes, if_true, hhash, and_false, false_and]
        simp
    | _ =>
      have hno : ¬ HasGroups hooks event := by simp [HasGroups, hvalue]
      simp only [mergeEvents, hvalue, hno, false_and]
      simp

theorem mergeEvents_trips :
    (∃ event, mergeEvents managed hooks desired.groups events = .error (.unhashable event)) ↔
      tripsOn (events.map fun event => (event, (field hooks event).getD (.array []))) = true := by
  induction events with
  | nil => simp [mergeEvents, tripsOn]
  | cons event rest ih =>
    rw [map_cons]
    cases hvalue : (field hooks event).getD (.array []) with
    | array groups =>
      simp only [mergeEvents, tripsOn, hvalue]
      by_cases htrip : (groups.any fun group =>
          ((innerHooks group).getD []).any isUnhashable) = true
      · simp [htrip]
      rw [Bool.not_eq_true] at htrip
      simp only [htrip, Bool.false_eq_true, if_false, Bool.false_or, ← ih]
      cases mergeEvents managed hooks desired.groups rest with
      | error err => simp
      | ok later =>
        simp only
        split <;> simp
    | _ => simp [mergeEvents, tripsOn, hvalue]

theorem valued_eq (h : (hooks.map Prod.fst).Nodup) {added}
    (hadded : ∀ event ∈ added, field hooks event = none) : (hooks.map Prod.fst ++ added).map
        (fun event => (event, (field hooks event).getD (.array []))) =
      hooks ++ added.map fun event => (event, .array []) := by
  rw [map_append, List.map_map]
  congr 1
  · calc _ = hooks.map id := map_congr_left fun entry hentry => by
          simp [field_of_mem h (show (entry.1, entry.2) ∈ hooks from hentry)]
      _ = hooks := List.map_id hooks
  · refine map_congr_left fun event hevent => ?_
    rw [hadded event hevent, getD_none]

theorem tripsOn_added (hooks : Object) (added : List String) :
    tripsOn (hooks ++ added.map fun event => (event, .array [])) = tripsOn hooks := by
  induction hooks with
  | nil =>
    induction added with
    | nil => rfl
    | cons event rest ih => simpa [tripsOn] using ih
  | cons entry rest ih =>
    obtain ⟨event, value⟩ := entry
    cases value with
    | array groups => simp [tripsOn, ih]
    | _ => simp [tripsOn]

/-- The events of the merge: those of the settings and the desired ones. -/
def eventsOf (desired : Desired managed) (hooks : Object) : List String :=
  hooks.map Prod.fst ++ desired.names.filter fun name => !(hooks.map Prod.fst).contains name

theorem field_of_not_mem (h : key ∉ o.map Prod.fst) : field o key = none := by
  cases hfield : field o key with
  | none => rfl
  | some value => exact absurd (List.mem_map.mpr ⟨_, field_mem hfield, rfl⟩) h

theorem not_mem_of_field (h : field o key = none) : key ∉ o.map Prod.fst := by
  induction o with
  | nil => exact not_mem_nil
  | cons entry rest ih =>
    obtain ⟨k, v⟩ := entry
    rw [field_cons] at h
    split at h
    · cases h
    · rename_i hne
      rw [map_cons, mem_cons, not_or]
      exact ⟨fun heq => hne heq.symm, ih h⟩

theorem eventsOf_added
    (h : event ∈ desired.names.filter fun name => !(hooks.map Prod.fst).contains name) :
    field hooks event = none := by
  have hnot := (mem_filter.mp h).2
  rw [Bool.not_eq_true', contains_eq_mem, decide_eq_false_iff_not] at hnot
  exact field_of_not_mem hnot

theorem eventsOf_nodup (h : (hooks.map Prod.fst).Nodup) : (eventsOf desired hooks).Nodup := by
  refine nodup_append.mpr ⟨h, desired.nodup.filter _, ?_⟩
  rintro event hmem other hadded rfl
  exact not_mem_of_field (eventsOf_added hadded) hmem

theorem mem_eventsOf (h : event ∈ desired.names) : event ∈ eventsOf desired hooks := by
  by_cases hmem : event ∈ hooks.map Prod.fst
  · exact mem_append_left _ hmem
  · refine mem_append_right _ (mem_filter.mpr ⟨h, ?_⟩)
    simpa using hmem

theorem field_result_none
    (h : event ∉ events) : field (events.filterMap (eventOut desired hooks)) event = none := by
  refine field_of_not_mem fun hin => ?_
  obtain ⟨entry, hentry, rfl⟩ := List.mem_map.mp hin
  obtain ⟨other, hother, hout⟩ := mem_filterMap.mp hentry
  exact h (eventOut_fst hout ▸ hother)

theorem field_result (h : events.Nodup) (hmem : event ∈ events) :
    field (events.filterMap (eventOut desired hooks)) event =
      (mergeGroups managed (listField hooks event) (desired.groups event)
        (field hooks event).isSome).map .array := by
  induction events with
  | nil => cases hmem
  | cons first rest ih =>
    rw [nodup_cons] at h
    rw [filterMap_cons]
    rcases mem_cons.mp hmem with rfl | hrest
    · simp only [eventOut]
      cases mergeGroups managed (listField hooks event) (desired.groups event)
          (field hooks event).isSome with
      | none => exact field_result_none h.1
      | some out => simp [field_cons]
    · have hne : first ≠ event := fun heq => h.1 (heq ▸ hrest)
      cases hout : eventOut desired hooks first with
      | none => exact ih h.2 hrest
      | some entry =>
        obtain ⟨key, value⟩ := entry
        obtain rfl : key = first := eventOut_fst hout
        simp only [field_cons, if_neg hne]
        exact ih h.2 hrest

theorem nodup_result (h : events.Nodup) :
    ((events.filterMap (eventOut desired hooks)).map Prod.fst).Nodup := by
  have hsub : ((events.filterMap (eventOut desired hooks)).map Prod.fst).Sublist events := by
    clear h
    induction events with
    | nil => exact .slnil
    | cons event rest ih =>
      rw [filterMap_cons]
      cases hout : eventOut desired hooks event with
      | none => exact ih.cons _
      | some entry =>
        rw [map_cons, eventOut_fst hout]
        exact ih.cons_cons _
  exact h.sublist hsub

theorem foreign_result (h : (hooks.map Prod.fst).Nodup)
    (hgroups : ∀ event ∈ eventsOf desired hooks, HasGroups hooks event) :
    foreign managed ((eventsOf desired hooks).filterMap (eventOut desired hooks)) =
      foreign managed hooks := by
  have hresult : ∀ events : List String,
      foreign managed (events.filterMap (eventOut desired hooks)) =
        events.flatMap fun event =>
          ((listField hooks event).flatMap (foreignHooks managed)).map fun hook =>
            (event, hook) := by
    intro events
    induction events with
    | nil => rfl
    | cons event rest ih =>
      have hforeign := @mergeGroups_foreign managed (listField hooks event) (desired.groups event)
        (field hooks event).isSome (desired.desired event)
      rw [flatMap_cons, ← ih, filterMap_cons, ← hforeign]
      simp only [eventOut]
      cases mergeGroups managed (listField hooks event) (desired.groups event)
          (field hooks event).isSome with
      | none | some => rfl
  rw [hresult, eventsOf, flatMap_append]
  have hadded : ((desired.names.filter fun name => !(hooks.map Prod.fst).contains name).flatMap
      fun event => ((listField hooks event).flatMap (foreignHooks managed)).map fun hook =>
        (event, hook)) = [] := by
    refine flatMap_eq_nil_iff.mpr fun event hevent => ?_
    simp [listField, eventsOf_added hevent]
  rw [hadded, append_nil, flatMap_map, foreign]
  refine flatMap_congr fun entry hentry => ?_
  have hmem : entry.1 ∈ eventsOf desired hooks := mem_append_left _ (List.mem_map_of_mem hentry)
  have hvalue := hgroups _ hmem
  rw [HasGroups, field_of_mem h (show (entry.1, entry.2) ∈ hooks from hentry), getD_some] at hvalue
  rw [hvalue]

theorem managed_result (h : (hooks.map Prod.fst).Nodup) (event) :
    sameItems ((listField ((eventsOf desired hooks).filterMap (eventOut desired hooks))
      event).filter (hasManaged managed)) (desired.groups event) = true := by
  by_cases hmem : event ∈ eventsOf desired hooks
  · have hlist : listField ((eventsOf desired hooks).filterMap (eventOut desired hooks)) event =
        (mergeGroups managed (listField hooks event) (desired.groups event)
          (field hooks event).isSome).getD [] := by
      rw [listField, field_result (eventsOf_nodup h) hmem]
      cases mergeGroups managed (listField hooks event) (desired.groups event)
          (field hooks event).isSome <;> rfl
    rw [hlist]
    exact mergeGroups_managed (desired.desired event)
  · rw [desired.absent event fun hname => hmem (mem_eventsOf hname)]
    simp [listField, field_result_none hmem, sameItems]

theorem result_again (h : (hooks.map Prod.fst).Nodup) (hall : ∀ event ∈ eventsOf desired hooks,
      HasGroups hooks event ∧ Hashable (listField hooks event))
    (hresult : result = (eventsOf desired hooks).filterMap (eventOut desired hooks)) :
    mergeEvents managed result desired.groups (eventsOf desired result) = .ok result := by
  have hnodup := @eventsOf_nodup managed desired hooks h
  have hkeys : (result.map Prod.fst).Nodup := hresult ▸ nodup_result hnodup
  have hstays : ∀ entry ∈ result, eventOut desired result entry.1 = some entry ∧
      HasGroups result entry.1 ∧ Hashable (listField result entry.1) := by
    intro entry hentry
    have hfield : field result entry.1 = some entry.2 :=
      field_of_mem hkeys (show (entry.1, entry.2) ∈ result from hentry)
    rw [hresult] at hentry
    obtain ⟨event, hevent, hout⟩ := mem_filterMap.mp hentry
    obtain ⟨out, hmerge, rfl⟩ := map_eq_some_iff.mp hout
    have hlist : listField result event = out := by simp [listField, hfield]
    have hagain := mergeGroups_again (desired.desired event) hmerge
    refine ⟨?_, ?_, ?_⟩
    · simp [eventOut, hlist, hfield, hagain]
    · rw [HasGroups, hfield, hlist, getD_some]
    · rw [hlist]
      exact mergeGroups_hashable (desired.desired event) (hall event hevent).2 hmerge
  have hleft : ∀ event ∈ desired.names.filter fun name => !(result.map Prod.fst).contains name,
      field result event = none ∧ desired.groups event = [] := by
    intro event hevent
    have hnone := eventsOf_added hevent
    refine ⟨hnone, ?_⟩
    rw [hresult, field_result hnodup (mem_eventsOf (mem_filter.mp hevent).1),
      map_eq_none_iff] at hnone
    exact wanted_of_none hnone
  refine mergeEvents_iff.mpr ⟨?_, ?_⟩
  · intro event hevent
    rcases mem_append.mp hevent with hmem | hadded
    · obtain ⟨entry, hentry, rfl⟩ := List.mem_map.mp hmem
      exact (hstays entry hentry).2
    · have hlist : listField result event = [] := by simp [listField, (hleft event hadded).1]
      rw [HasGroups, hlist, (hleft event hadded).1]
      exact ⟨rfl, rfl⟩
  · rw [eventsOf, filterMap_append, filterMap_map]
    have hnothing : (desired.names.filter fun name =>
        !(result.map Prod.fst).contains name).filterMap (eventOut desired result) = [] := by
      refine filterMap_eq_nil_iff.mpr fun event hevent => ?_
      obtain ⟨hnone, hwanted⟩ := hleft event hevent
      simp [eventOut, listField, hnone, hwanted, mergeGroups_none]
    rw [hnothing, append_nil]
    calc result = result.filterMap some := (filterMap_some).symm
      _ = _ := filterMap_congr fun entry hentry => (hstays entry hentry).1.symm

/-! ## The settings -/

theorem hooksObject_eq (h : hooksObject settings = some hooks) :
    objectField settings "hooks" = hooks := by
  simp only [hooksObject] at h
  split at h
  · rename_i hfield
    cases h
    simp [objectField, hfield]
  · rename_i hfield
    cases h
    simp [objectField, hfield]
  · rename_i hfield
    cases h
    simp [objectField, hfield]
  · cases h

theorem hooks_nodup (h : Distinct (.object settings)) :
    ((objectField settings "hooks").map Prod.fst).Nodup := by
  simp only [objectField]
  split
  · rename_i hooks hfield
    exact (DistinctFields.of_mem h.2 (field_mem hfield)).1
  · exact nodup_nil

theorem merge_eq (h : hooksObject settings = some hooks) : merge desired settings =
      match mergeEvents managed hooks desired.groups (eventsOf desired hooks) with
      | .error err => .error err
      | .ok result =>
        .ok (if !result.isEmpty || (field settings "hooks").isSome then
          setField settings "hooks" (.object result)
        else settings) := by
  rw [merge, mergeClaudeHooks, h]
  rfl

theorem merge_ok {merged} (h : Distinct (.object settings))
    (hmerge : merge desired settings = .ok merged) : Exact desired settings merged := by
  have hnodup := hooks_nodup h
  cases hhooks : hooksObject settings with
  | none =>
    rw [merge, mergeClaudeHooks, hhooks] at hmerge
    cases hmerge
  | some hooks =>
    rw [hooksObject_eq hhooks] at hnodup
    have hfirst := hmerge
    rw [merge_eq hhooks] at hmerge
    cases hevents : mergeEvents managed hooks desired.groups (eventsOf desired hooks) with
    | error err =>
      rw [hevents] at hmerge
      cases hmerge
    | ok result =>
      rw [hevents] at hmerge
      obtain ⟨hall, hresult⟩ := mergeEvents_iff.mp hevents
      have hkeys : (result.map Prod.fst).Nodup := hresult ▸ nodup_result (eventsOf_nodup hnodup)
      -- the hooks of the merged settings, also where they get none
      have hnew : objectField merged "hooks" = result ∧
          dropField merged "hooks" = dropField settings "hooks" ∧
          merge desired merged = .ok merged := by
        by_cases hset : (!result.isEmpty || (field settings "hooks").isSome) = true
        · simp only [hset, if_true, Except.ok.injEq] at hmerge
          subst hmerge
          have hobject : hooksObject (setField settings "hooks" (.object result)) =
              some result := by simp [hooksObject]
          refine ⟨by simp [objectField], dropField_setField .., ?_⟩
          rw [merge_eq hobject, result_again hnodup hall hresult]
          simp
        · simp only [hset, Bool.false_eq_true, if_false, Except.ok.injEq] at hmerge
          subst hmerge
          simp only [Bool.or_eq_true, not_or, Bool.not_eq_true, Bool.not_eq_false',
            isSome_eq_false_iff, isNone_iff_eq_none,
            List.isEmpty_iff] at hset
          exact ⟨by simp [objectField, hset.1, hset.2], rfl, hfirst⟩
      refine ⟨hnew.2.1, ?_, hnew.1 ▸ hkeys, ?_, hnew.2.2⟩
      · rw [hnew.1, hooksObject_eq hhooks, hresult]
        exact foreign_result hnodup fun event hevent => (hall event hevent).1
      · intro event
        rw [hnew.1, hresult]
        exact managed_result hnodup event

/-- **The merge is exact.** It refuses with a `HookSyncError` or does just
what it is for, for every settings object and all desired groups, unless a
command is a list or an object. -/
theorem merge_exact {managed : List String} (desired : Desired managed) {settings : Object}
    (h : Distinct (.object settings)) : Meets desired settings ↔ trips settings = false := by
  have hnodup := hooks_nodup h
  cases hhooks : hooksObject settings with
  | none => simp [Meets, merge, mergeClaudeHooks, trips, hhooks]
  | some hooks =>
    rw [hooksObject_eq hhooks] at hnodup
    have htrips : trips settings = false ↔
        ¬ ∃ event, merge desired settings = .error (.unhashable event) := by
      have herror : (∃ event, merge desired settings = .error (.unhashable event)) ↔
          ∃ event, mergeEvents managed hooks desired.groups (eventsOf desired hooks) =
            .error (.unhashable event) := by
        rw [merge_eq hhooks]
        cases mergeEvents managed hooks desired.groups (eventsOf desired hooks) <;> simp
      rw [herror, mergeEvents_trips, eventsOf, valued_eq hnodup fun _ => eventsOf_added,
        tripsOn_added, trips, hhooks, map_some, getD_some, Bool.not_eq_true]
    rw [htrips, Meets]
    cases hmerge : merge desired settings with
    | ok merged => simpa using merge_ok h hmerge
    | error err => cases err <;> simp

def groupOf (command : Json) : Json :=
  .object [("hooks", .array [.object [("type", .string "command"), ("command", command)]])]

theorem groupOf_distinct (command) : Distinct (groupOf (.string command)) := by
  simp [groupOf, Distinct, DistinctFields, DistinctItems]

/-- One group is desired, at the start of a session. -/
def noteDesired : Desired ["studio-note"] where
  names := ["SessionStart"]
  groups event := if event = "SessionStart" then [groupOf (.string "studio-note")] else []
  nodup := by simp
  absent event h := if_neg (by simpa using h)
  desired event group h := by
    split at h
    · obtain rfl := mem_singleton.mp h
      exact ⟨groupOf_distinct _, _, rfl, by simp, by simp [isManaged, commandOf, field]⟩
    · cases h

/-- Settings with a theme, a hook of the user and a managed one elsewhere. -/
def noteSettings : Object :=
  [("theme", .string "dark"),
    ("hooks", .object
      [("Stop", .array [groupOf (.string "beep"), groupOf (.string "studio-note")])])]

theorem merge_exact_note : trips noteSettings = false ∧ Meets noteDesired noteSettings := by
  have hdistinct : Distinct (.object noteSettings) := by
    simp [noteSettings, groupOf, Distinct, DistinctFields, DistinctItems]
  have htrips : trips noteSettings = false := by decide
  exact ⟨htrips, (merge_exact noteDesired hdistinct).mpr htrips⟩

/-- A hook of the user whose command is a list of words. -/
def listSettings : Object :=
  [("hooks", .object [("Stop", .array [groupOf (.array [.string "beep", .string "-n"])])])]

theorem merge_trips : ¬ ∀ managed (desired : Desired managed) settings,
    Distinct (.object settings) → Meets desired settings := by
  intro h
  have hdistinct : Distinct (.object listSettings) := by
    simp [listSettings, groupOf, Distinct, DistinctFields, DistinctItems]
  exact h _ noteDesired listSettings hdistinct

end StudioOS.HookSync
