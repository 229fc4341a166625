import Mathlib.Data.List.Nodup
import StudioOS.AiLibrary.Steps

/-!
# AI library — Rows

What holds of the stored rows in every run: ids and version numbers are
unique, a stored version belongs to a stored resource, and a stored link goes
to a version that stands no later than its own (`Tables.Sound`).
-/

namespace StudioOS.AiLibrary

open List Authz Resolution Runs

variable {id : Uuid} {kind : LibraryKind} {key : String}

/-! ## The tables -/

/-- A version as pins name it. -/
def LibraryVersion.pin (row : LibraryVersion) : Uuid × Int := (row.resourceId, row.version)

/-- The version a link pins. -/
def LibraryLink.target (link : LibraryLink) : Uuid × Int := (link.toResourceId, link.toVersion)

/-- A stored resource, by the columns that no service writes again. -/
def Tables.Has (tables : Tables) (id : Uuid) (kind : LibraryKind) (stableKey : String) : Prop :=
  ∃ r ∈ tables.resources, r.id = id ∧ r.kind = kind ∧ r.stableKey = stableKey

/-- `Tables.Has` of a row that a caller holds. -/
def Tables.Stored (tables : Tables) (resource : LibraryResource) : Prop :=
  tables.Has resource.id resource.kind resource.stableKey

/-- A link from a stored version to one that was committed no later, by
the relation of their kinds. -/
def Tables.LinkSound (tables : Tables) (link : LibraryLink) : Prop :=
  ∃ (i j : Nat) (source target : LibraryVersion),
    tables.versions[i]? = some source ∧ source.id = link.fromVersionId ∧
    tables.versions[j]? = some target ∧ target.pin = link.target ∧ j ≤ i ∧
    ∃ kind key kind' key', tables.Has source.resourceId kind key ∧
      tables.Has link.toResourceId kind' key' ∧
      bindingRelationFor kind kind' = some link.relation

structure Tables.Sound (tables : Tables) : Prop where
  resourceIds : (tables.resources.map (·.id)).Nodup
  versionIds : (tables.versions.map (·.id)).Nodup
  pins : (tables.versions.map (·.pin)).Nodup
  owned : ∀ row ∈ tables.versions, ∃ kind key, tables.Has row.resourceId kind key
  links : ∀ link ∈ tables.links, tables.LinkSound link

variable {tables tables' : Tables}

theorem Tables.Has.unique (hids : (tables.resources.map (·.id)).Nodup) {kind' key'}
    (h : tables.Has id kind key) (h' : tables.Has id kind' key') : kind = kind' ∧ key = key' := by
  obtain ⟨r, hr, hid, rfl, rfl⟩ := h
  obtain ⟨r', hr', hid', rfl, rfl⟩ := h'
  obtain rfl := inj_on_of_nodup_map hids hr hr' (hid.trans hid'.symm)
  exact ⟨rfl, rfl⟩

theorem updatedRow_identity (loaded assigned current) :
    (if current.id = loaded.id then flushRow loaded assigned current else current).id = current.id ∧
      (if current.id = loaded.id then flushRow loaded assigned current else current).kind =
        current.kind ∧
      (if current.id = loaded.id then flushRow loaded assigned current else current).stableKey =
        current.stableKey := by
  split <;> exact ⟨rfl, rfl, rfl⟩

theorem updateResource_ids (resources loaded assigned) :
    (updateResource resources loaded assigned).map (·.id) = resources.map (·.id) := by
  unfold updateResource
  rw [map_map]
  apply map_congr_left
  intro current _
  exact (updatedRow_identity loaded assigned current).1

theorem has_update_iff {loaded assigned}
    : (tables.update loaded assigned).Has id kind key ↔ tables.Has id kind key := by
  constructor
  · rintro ⟨r, hr, hid, hkind, hkey⟩
    obtain ⟨current, hcurrent, rfl⟩ := mem_map.mp hr
    obtain ⟨hid', hkind', hkey'⟩ := updatedRow_identity loaded assigned current
    exact ⟨current, hcurrent, hid'.symm.trans hid, hkind'.symm.trans hkind, hkey'.symm.trans hkey⟩
  · rintro ⟨current, hcurrent, hid, hkind, hkey⟩
    obtain ⟨hid', hkind', hkey'⟩ := updatedRow_identity loaded assigned current
    exact ⟨_, mem_map_of_mem hcurrent, hid'.trans hid, hkind'.trans hkind, hkey'.trans hkey⟩

theorem has_addResource_iff {resource}
    : (tables.addResource resource).Has id kind key ↔ tables.Has id kind key ∨
        (resource.id = id ∧ resource.kind = kind ∧ resource.stableKey = key) := by
  unfold Tables.Has Tables.addResource
  constructor
  · rintro ⟨r, hr, h⟩
    rcases mem_append.mp hr with hr | hr
    · exact .inl ⟨r, hr, h⟩
    · obtain rfl := mem_singleton.mp hr
      exact .inr h
  · rintro (⟨r, hr, h⟩ | h)
    · exact ⟨r, mem_append_left _ hr, h⟩
    · exact ⟨resource, by simp, h⟩

theorem getElem?_append_of_some {α : Type} {l : List α} {i : Nat} {a : α} (h : l[i]? = some a)
    (more : List α) : (l ++ more)[i]? = some a := by
  rw [List.getElem?_append_left (List.getElem?_eq_some_iff.mp h).1]
  exact h

theorem Tables.LinkSound.mono {link more} (h : tables.LinkSound link)
    (hversions : tables'.versions = tables.versions ++ more)
    (hhas : ∀ id kind key, tables.Has id kind key → tables'.Has id kind key) :
    tables'.LinkSound link := by
  obtain ⟨i, j, source, target, hi, hsource, hj, htarget, hle, kind, key, kind', key', hkind, hkind',
    hmatrix⟩ := h
  refine ⟨i, j, source, target, ?_, hsource, ?_, htarget, hle, kind, key, kind', key',
    hhas _ _ _ hkind, hhas _ _ _ hkind', hmatrix⟩
  · rw [hversions]
    exact getElem?_append_of_some hi more
  · rw [hversions]
    exact getElem?_append_of_some hj more

theorem Tables.Sound.update (h : tables.Sound) (loaded assigned) :
    (tables.update loaded assigned).Sound where
  resourceIds := by
    show ((updateResource tables.resources loaded assigned).map (·.id)).Nodup
    rw [updateResource_ids]
    exact h.resourceIds
  versionIds := h.versionIds
  pins := h.pins
  owned := by
    intro row hrow
    obtain ⟨kind, key, hhas⟩ := h.owned row hrow
    exact ⟨kind, key, has_update_iff.mpr hhas⟩
  links := by
    intro link hlink
    exact (h.links link hlink).mono (append_nil _).symm fun _ _ _ => has_update_iff.mpr

theorem Tables.Sound.addResource (h : tables.Sound) {resource}
    (hnew : resource.id ∉ tables.resources.map (·.id)) : (tables.addResource resource).Sound where
  resourceIds := by
    show ((tables.resources ++ [resource]).map (·.id)).Nodup
    rw [map_append]
    exact h.resourceIds.append (nodup_singleton _) (by simpa using hnew)
  versionIds := h.versionIds
  pins := h.pins
  owned := by
    intro row hrow
    obtain ⟨kind, key, hhas⟩ := h.owned row hrow
    exact ⟨kind, key, has_addResource_iff.mpr (.inl hhas)⟩
  links := by
    intro link hlink
    exact (h.links link hlink).mono (append_nil _).symm
      fun _ _ _ hhas => has_addResource_iff.mpr (.inl hhas)

theorem Tables.Sound.addVersion (h : tables.Sound) {draft}
    (hid : draft.row.id ∉ tables.versions.map (·.id))
    (hpin : draft.row.pin ∉ tables.versions.map (·.pin))
    (howned : ∃ kind key, tables.Has draft.row.resourceId kind key)
    (hlinks : ∀ link ∈ draft.links, (tables.addVersion draft).LinkSound link) :
    (tables.addVersion draft).Sound where
  resourceIds := h.resourceIds
  versionIds := by
    show ((tables.versions ++ [draft.row]).map (·.id)).Nodup
    rw [map_append]
    exact h.versionIds.append (nodup_singleton _) (by simpa using hid)
  pins := by
    show ((tables.versions ++ [draft.row]).map (·.pin)).Nodup
    rw [map_append]
    exact h.pins.append (nodup_singleton _) (by simpa using hpin)
  owned := by
    intro row hrow
    rcases mem_append.mp hrow with hrow | hrow
    · exact h.owned row hrow
    · obtain rfl := mem_singleton.mp hrow
      exact howned
  links := by
    intro link hlink
    rcases mem_append.mp hlink with hlink | hlink
    · exact (h.links link hlink).mono rfl fun _ _ _ hhas => hhas
    · exact hlinks link hlink

end StudioOS.AiLibrary
