import Mathlib.Data.List.Induction
import StudioOS.ServerMirror.Model

/-!
# Server mirror — Exact

What a synchronisation leaves (`sync_exact`): when it returns, exactly the notes that the tree lists
in scope and that were stored as listed or fetched; when it raises, the notes as before and a
freshness that says so.
-/

namespace StudioOS.ServerMirror

open List

variable {table : NoteTable} {id : Uuid}

theorem NoteTable.row_eq_some {note} :
    table.row id = some note ↔ note ∈ table.rows ∧ note.id = id := by
  constructor
  · intro h
    exact ⟨List.mem_of_find?_eq_some h, by simpa using List.find?_some h⟩
  · rintro ⟨hmem, rfl⟩
    exact Keyed.find?_of_mem (fun row : VaultNote => row.id) table.key hmem

theorem NoteTable.row_eq_none : table.row id = none ↔ id ∉ table.ids := by
  simp [NoteTable.row, NoteTable.ids]

theorem NoteTable.row_delete (table : NoteTable) (deleted id) :
    (table.delete deleted).row id = if id = deleted then none else table.row id := by
  rw [NoteTable.row, NoteTable.delete, NoteTable.filter, List.find?_filter]
  by_cases h : id = deleted
  · rw [if_pos h, List.find?_eq_none]
    intro row _
    simp [h]
  rw [if_neg h, NoteTable.row]
  congr 1
  funext row
  by_cases hid : row.id = id
  · simp [hid, h]
  · simp [hid]

theorem NoteTable.row_foldl_delete (table) (ids : List Uuid) (id) :
    (ids.foldl NoteTable.delete table).row id = if id ∈ ids then none else table.row id := by
  induction ids generalizing table with
  | nil => simp
  | cons deleted ids ih =>
    rw [foldl_cons, ih, NoteTable.row_delete]
    by_cases hmem : id ∈ ids
    · simp [hmem]
    · by_cases hid : id = deleted
      · simp [hid]
      · simp [hmem, hid]

theorem NoteTable.row_upsert (table : NoteTable) (note) (id) :
    (table.upsert note).row id = if id = note.id then some note else table.row id := by
  by_cases hid : id = note.id
  · subst hid
    rw [if_pos rfl, NoteTable.row_eq_some]
    refine ⟨?_, rfl⟩
    show note ∈ Keyed.upsert _ _ _ _ _
    by_cases hmem : note.id ∈ table.rows.map fun row => row.id
    · obtain ⟨row, hrow, hkey⟩ := mem_map.1 hmem
      rw [Keyed.upsert_of_mem hmem, mem_map]
      exact ⟨row, hrow, by simp [hkey]⟩
    · rw [Keyed.upsert_of_not_mem hmem]
      simp
  · rw [if_neg hid]
    have hupdate : ∀ row : VaultNote, (if row.id = note.id then note else row).id = row.id := by
      intro row
      by_cases h : row.id = note.id
      · rw [if_pos h, h]
      · rw [if_neg h]
    have hmem : ∀ row, row.id = id →
        (row ∈ (table.upsert note).rows ↔ row ∈ table.rows) := by
      rintro row rfl
      exact Keyed.mem_upsert_of_ne hupdate rfl hid
    ext row
    rw [NoteTable.row_eq_some, NoteTable.row_eq_some]
    constructor
    · rintro ⟨hrow, hkey⟩
      exact ⟨(hmem row hkey).1 hrow, hkey⟩
    · rintro ⟨hrow, hkey⟩
      exact ⟨(hmem row hkey).2 hrow, hkey⟩

def lastNote (notes : List VaultNote) (id : Uuid) : Option VaultNote :=
  notes.reverse.find? fun note => note.id = id

theorem lastNote_eq_none {notes} : lastNote notes id = none ↔ id ∉ notes.map (·.id) := by
  simp [lastNote]

theorem lastNote_concat (notes note) (id) :
    lastNote (notes ++ [note]) id = if id = note.id then some note else lastNote notes id := by
  rw [lastNote, reverse_append, reverse_singleton, singleton_append]
  by_cases hid : id = note.id
  · rw [if_pos hid, List.find?_cons_of_pos (by simp [hid])]
  · rw [if_neg hid, List.find?_cons_of_neg (by simpa using Ne.symm hid), lastNote]

theorem NoteTable.row_foldl_upsert (table notes) (id) :
    (notes.foldl NoteTable.upsert table).row id = (lastNote notes id).or (table.row id) := by
  induction notes using List.reverseRecOn with
  | nil => rfl
  | append_singleton notes note ih =>
    rw [foldl_append, foldl_cons, foldl_nil, NoteTable.row_upsert, ih, lastNote_concat]
    by_cases hid : id = note.id
    · rw [if_pos hid, if_pos hid]
      rfl
    · rw [if_neg hid, if_neg hid]

def listed : List TreeAnswer → List VaultNoteSummary
  | [] => []
  | .failure _ :: _ => []
  | .page items nextCursor :: rest => items ++ if nextCursor = none then [] else listed rest

theorem fetchTree_returned {items tree answers}
    (h : fetchTree items answers = .returned tree) : tree = items ++ listed answers := by
  induction answers generalizing items with
  | nil => cases h
  | cons answer rest ih =>
    cases answer with
    | failure error => cases h
    | page more nextCursor =>
      rw [fetchTree] at h
      by_cases hlast : nextCursor = none
      · rw [if_pos hlast] at h
        cases h
        rw [listed, if_pos hlast, append_nil]
      · rw [if_neg hlast] at h
        rw [ih h, listed, if_neg hlast, append_assoc]

def NoteAnswer.answeredNote : NoteAnswer → Option VaultNote
  | .note found => some found
  | _ => none

/-- The notes answered to as many requests. -/
def answered (wanted : List VaultNoteSummary) (answers : List NoteAnswer) : List VaultNote :=
  (answers.take wanted.length).filterMap NoteAnswer.answeredNote

theorem fetchNotes_returned {fetched notes wanted answers}
    (h : fetchNotes fetched wanted answers = .returned notes) :
    notes = fetched ++ answered wanted answers := by
  induction wanted generalizing fetched answers with
  | nil =>
    cases h
    simp [answered]
  | cons item wanted ih =>
    cases answers with
    | nil => cases h
    | cons answer rest =>
      cases answer with
      | failure error => cases h
      | unreadable =>
        rw [fetchNotes] at h
        rw [ih h]
        rfl
      | note note =>
        rw [fetchNotes] at h
        rw [ih h]
        simp [answered, NoteAnswer.answeredNote]

/-- The row that the mirror should have: none for a note that is not listed in
scope, else what was fetched, else what was stored as it is listed. -/
def Mirror.expectedRow (mirror : Mirror) (visible : List VaultNoteSummary)
    (fetched : List VaultNote) (id : Uuid) : Option VaultNote :=
  if id ∉ visible.map (·.id) then none
  else if (lastNote fetched id).isSome = true then lastNote fetched id
  else if ∀ item ∈ visible, item.id = id → (mirror.notes.row id).any (sameVersion · item) = true
    then mirror.notes.row id
  else none

/-- The freshness says that the last synchronisation failed, and how. -/
def Mirror.Reports (mirror : Mirror) (error : String) : Prop :=
  ∀ staleAfter moment, (mirror.freshness staleAfter moment).reason = .lastSyncFailed ∧
    (mirror.freshness staleAfter moment).lastError = some (String.ofList (error.toList.take 500))

def Scoped (policy : ScopePolicy) (notes : NoteTable) : Prop :=
  ∀ note ∈ notes.rows, isNoteInScope policy note.toVaultNoteSummary = true

/-- What a synchronisation should leave, by what it answers. -/
def SyncLaw (policy : ScopePolicy) (treeAnswers : List TreeAnswer)
    (noteAnswers : List NoteAnswer) (before after : Mirror) : Outcome MirrorSyncReport → Prop
  | .waiting => True
  | .raised error => after.notes = before.notes ∧ after.Reports error
  | .returned _ =>
    let visible := (listed treeAnswers).filter (isNoteInScope policy)
    let fetched := answered (before.toFetch visible) noteAnswers
    (∀ id, after.notes.row id = before.expectedRow visible fetched id) ∧
      Scoped policy after.notes

/-- The notes that the server answered are listed in scope and in scope
themselves, and so are the stored notes that the tree lists as they are. -/
structure StaysInScope (policy : ScopePolicy) (mirror : Mirror)
    (visible : List VaultNoteSummary) (fetched : List VaultNote) : Prop where
  answered : ∀ id note, lastNote fetched id = some note →
    id ∈ visible.map (·.id) ∧ isNoteInScope policy note.toVaultNoteSummary = true
  kept : ∀ note ∈ mirror.notes.rows, note.id ∈ visible.map (·.id) →
    (∀ item ∈ visible, item.id = note.id → sameVersion note item = true) →
    lastNote fetched note.id = none → isNoteInScope policy note.toVaultNoteSummary = true

/-- When the law holds: the scope is closed; or a failing request has a text;
or everything was read, the versions fit the column (or the mirror reports
that they did not before), and the notes stay in scope. -/
def Meets (policy : ScopePolicy) (mirror : Mirror) (treeAnswers : List TreeAnswer)
    (noteAnswers : List NoteAnswer) : Prop :=
  scopeIsClosed policy = true ∨
  match fetchTree [] treeAnswers with
  | .waiting => True
  | .raised error => error ≠ ""
  | .returned tree =>
    let visible := tree.filter (isNoteInScope policy)
    match fetchNotes [] (mirror.toFetch visible) noteAnswers with
    | .waiting => True
    | .raised error => error ≠ ""
    | .returned fetched =>
      if (fetched.all fun note => fitsInteger note.version) = true then
        StaysInScope policy mirror visible fetched
      else mirror.Reports overflowError

/-! ## What is stored -/

theorem mem_requested {mirror : Mirror} {visible : List VaultNoteSummary} :
    id ∈ (mirror.toFetch visible).map (·.id) ↔ ∃ item ∈ visible, item.id = id ∧
        ¬(mirror.notes.row id).any (sameVersion · item) = true := by
  constructor
  · intro h
    obtain ⟨item, hitem, rfl⟩ := mem_map.1 h
    obtain ⟨hmem, hneeds⟩ := mem_filter.1 hitem
    exact ⟨item, hmem, rfl, by simpa using hneeds⟩
  · rintro ⟨item, hmem, rfl, hneeds⟩
    exact mem_map.2 ⟨item, mem_filter.2 ⟨hmem, by simpa using hneeds⟩, rfl⟩

theorem row_storedNotes (mirror : Mirror) (visible fetched)
    (id) : (mirror.storedNotes visible fetched).row id =
      if (lastNote fetched id).isSome = true then lastNote fetched id
      else if id ∈ visible.map (·.id) ∧ id ∉ (mirror.toFetch visible).map (·.id)
        then mirror.notes.row id else none := by
  rw [Mirror.storedNotes, NoteTable.row_foldl_upsert, NoteTable.row_foldl_delete,
    NoteTable.row_foldl_delete]
  cases hlast : lastNote fetched id with
  | some note => rfl
  | none =>
    have hmissing : id ∈ ((mirror.toFetch visible).map (·.id)).filter
        (fun id => id ∉ fetched.map (·.id)) ↔ id ∈ (mirror.toFetch visible).map (·.id) := by
      rw [mem_filter, decide_eq_true_eq]
      exact and_iff_left (lastNote_eq_none.1 hlast)
    have hnone : ¬(none : Option VaultNote).isSome = true := by simp
    rw [Option.none_or, if_neg hnone]
    have hdeleted : (if id ∈ mirror.notes.ids.filter (fun id => id ∉ visible.map (·.id)) then none
        else mirror.notes.row id) =
          if id ∈ visible.map (·.id) then mirror.notes.row id else none := by
      by_cases hvisible : id ∈ visible.map (·.id)
      · rw [if_pos hvisible, if_neg]
        intro hmem
        exact of_decide_eq_true (mem_filter.1 hmem).2 hvisible
      · rw [if_neg hvisible]
        by_cases hlocal : id ∈ mirror.notes.ids
        · rw [if_pos (mem_filter.2 ⟨hlocal, decide_eq_true hvisible⟩)]
        · rw [NoteTable.row_eq_none.2 hlocal, ite_self]
    rw [hdeleted]
    by_cases hrequested : id ∈ (mirror.toFetch visible).map (·.id)
    · rw [if_pos (hmissing.2 hrequested), if_neg fun h => h.2 hrequested]
    · rw [if_neg fun h => hrequested (hmissing.1 h)]
      exact if_congr (and_iff_left hrequested).symm rfl rfl

theorem row_storedNotes_eq_iff (mirror : Mirror) (visible fetched) (id) :
    (mirror.storedNotes visible fetched).row id = mirror.expectedRow visible fetched id ↔
      ((lastNote fetched id).isSome = true → id ∈ visible.map (·.id)) := by
  rw [row_storedNotes, Mirror.expectedRow]
  by_cases hvisible : id ∈ visible.map (·.id)
  · have hkept : id ∉ (mirror.toFetch visible).map (·.id) ↔ ∀ item ∈ visible, item.id = id →
        (mirror.notes.row id).any (sameVersion · item) = true := by
      rw [mem_requested]
      constructor
      · intro h item hitem hid
        by_contra hneeds
        exact h ⟨item, hitem, hid, hneeds⟩
      · rintro h ⟨item, hitem, hid, hneeds⟩
        exact hneeds (h item hitem hid)
    rw [if_neg (not_not_intro hvisible)]
    simp only [hvisible, true_and, implies_true, iff_true]
    by_cases hlast : (lastNote fetched id).isSome = true
    · rw [if_pos hlast, if_pos hlast]
    · rw [if_neg hlast, if_neg hlast, if_congr hkept rfl rfl]
  · rw [if_pos hvisible]
    by_cases hlast : (lastNote fetched id).isSome = true
    · rw [if_pos hlast]
      constructor
      · intro h
        rw [h] at hlast
        cases hlast
      · intro h
        exact absurd (h hlast) hvisible
    · rw [if_neg hlast, if_neg fun h => hvisible h.1]
      simp [hlast]

theorem scoped_iff {policy} :
    Scoped policy table ↔ ∀ id note, table.row id = some note →
      isNoteInScope policy note.toVaultNoteSummary = true := by
  constructor
  · intro h id note hrow
    exact h note (NoteTable.row_eq_some.1 hrow).1
  · intro h note hmem
    exact h note.id note (NoteTable.row_eq_some.2 ⟨hmem, rfl⟩)

theorem stored_iff (policy) (mirror) (visible fetched) :
    ((∀ id, (mirror.storedNotes visible fetched).row id = mirror.expectedRow visible fetched id) ∧
        Scoped policy (mirror.storedNotes visible fetched)) ↔
      StaysInScope policy mirror visible fetched := by
  rw [scoped_iff]
  have hrow := row_storedNotes mirror visible fetched
  constructor
  · rintro ⟨hexpected, hscoped⟩
    constructor
    · intro id note hlast
      have hsome : (lastNote fetched id).isSome = true := by rw [hlast]; rfl
      refine ⟨(row_storedNotes_eq_iff mirror visible fetched id).1 (hexpected id) hsome, ?_⟩
      apply hscoped id note
      rw [hrow, if_pos hsome, hlast]
    · intro note hmem hvisible hsame hlast
      have hstored := NoteTable.row_eq_some.2 ⟨hmem, rfl⟩
      have hrequested : note.id ∉ (mirror.toFetch visible).map (·.id) := by
        intro h
        obtain ⟨item, hitem, hid, hneeds⟩ := mem_requested.1 h
        rw [hstored] at hneeds
        exact hneeds (hsame item hitem hid)
      apply hscoped note.id note
      rw [hrow, hlast, if_neg (by simp), if_pos ⟨hvisible, hrequested⟩, hstored]
  · intro h
    constructor
    · intro id
      rw [row_storedNotes_eq_iff]
      intro hsome
      obtain ⟨note, hlast⟩ := Option.isSome_iff_exists.1 hsome
      exact (h.answered id note hlast).1
    intro id note hstored
    rw [hrow] at hstored
    by_cases hsome : (lastNote fetched id).isSome = true
    · rw [if_pos hsome] at hstored
      exact (h.answered id note hstored).2
    rw [if_neg hsome] at hstored
    by_cases hkept : id ∈ visible.map (·.id) ∧ id ∉ (mirror.toFetch visible).map (·.id)
    · rw [if_pos hkept] at hstored
      obtain ⟨hmem, rfl⟩ := NoteTable.row_eq_some.1 hstored
      refine h.kept note hmem hkept.1 (fun item hitem hid => ?_) (by simpa using hsome)
      by_contra hneeds
      refine hkept.2 (mem_requested.2 ⟨item, hitem, hid, ?_⟩)
      rw [hstored]
      exact hneeds
    · rw [if_neg hkept] at hstored
      cases hstored

theorem reports_recordFailure_iff (mirror : Mirror) (error) (later) :
    (mirror.recordFailure error later).Reports error ↔ error ≠ "" := by
  have hempty : String.ofList (error.toList.take 500) = "" ↔ error = "" := by
    rw [← String.toList_inj, ← String.toList_inj, String.toList_ofList]
    cases htext : error.toList with
    | nil | cons => simp
  constructor
  · rintro h rfl
    have hreason := (h 0 0).1
    cases hsynced : mirror.lastSyncedAt with
    | none | some => simp [Mirror.freshness, Mirror.recordFailure, hsynced] at hreason
  · intro hne staleAfter moment
    have hfilter : (some (String.ofList (error.toList.take 500))).filter (· ≠ "") =
        some (String.ofList (error.toList.take 500)) := by
      rw [Option.filter_some, if_pos (decide_eq_true (mt hempty.1 hne))]
    simp only [Mirror.freshness, Mirror.recordFailure, hfilter, Option.isSome_some, if_true,
      and_self]

theorem not_inScope_of_closed {policy} (h : scopeIsClosed policy = true)
    (summary) : isNoteInScope policy summary = false := by
  have hactive : policy.allowedPrefixes.filter (· ≠ []) = [] := by
    rw [filter_eq_nil_iff]
    intro allowed hallowed
    have hnil := all_eq_true.1 h allowed hallowed
    simpa using hnil
  have hexposed : ∀ path, policy.isExposed path = false := by
    intro path
    rw [ScopePolicy.isExposed, hactive]
    rfl
  rw [isNoteInScope, any_eq_false]
  intro path _
  simp [hexposed path]

/-- A synchronisation obeys its law exactly when the server's answers and the
stored notes meet the condition. -/
theorem sync_exact (mirror : Mirror) (policy : ScopePolicy) (now later : Timestamp)
    (treeAnswers : List TreeAnswer) (noteAnswers : List NoteAnswer) :
    SyncLaw policy treeAnswers noteAnswers mirror
        (mirror.sync policy now later treeAnswers noteAnswers).1
        (mirror.sync policy now later treeAnswers noteAnswers).2 ↔
      Meets policy mirror treeAnswers noteAnswers := by
  rw [Mirror.sync, Meets]
  by_cases hclosed : scopeIsClosed policy = true
  · have hnone := not_inScope_of_closed hclosed
    have hpurged : (mirror.purgeOutOfScope policy).1.notes.rows = [] := by
      rw [Mirror.purgeOutOfScope]
      apply filter_eq_nil_iff.2
      intro note _
      simp [hnone]
    have hvisible : (listed treeAnswers).filter (isNoteInScope policy) = [] := by
      apply filter_eq_nil_iff.2
      intro item _
      simp [hnone]
    rw [if_pos hclosed]
    refine iff_of_true ⟨?_, ?_⟩ (.inl hclosed)
    · intro id
      rw [hvisible, Mirror.expectedRow, if_pos (by simp), NoteTable.row_eq_none, NoteTable.ids]
      exact hpurged ▸ not_mem_nil
    · intro note hmem
      exact absurd (hpurged ▸ hmem) not_mem_nil
  · rw [if_neg hclosed, or_iff_right hclosed]
    cases htree : fetchTree [] treeAnswers with
    | waiting => exact iff_of_true trivial trivial
    | raised error =>
      dsimp only
      rw [SyncLaw, reports_recordFailure_iff]
      exact and_iff_right rfl
    | returned tree =>
      have hlisted := fetchTree_returned htree
      rw [nil_append] at hlisted
      subst hlisted
      dsimp only
      cases hnotes : fetchNotes [] (mirror.toFetch ((listed treeAnswers).filter
          (isNoteInScope policy))) noteAnswers with
      | waiting => exact iff_of_true trivial trivial
      | raised error =>
        dsimp only
        rw [SyncLaw, reports_recordFailure_iff]
        exact and_iff_right rfl
      | returned fetched =>
        have hanswered := fetchNotes_returned hnotes
        rw [nil_append] at hanswered
        subst hanswered
        dsimp only
        rw [Mirror.storeSyncResult]
        by_cases hfits : ((answered (mirror.toFetch ((listed treeAnswers).filter
            (isNoteInScope policy))) noteAnswers).all fun note =>
              fitsInteger note.version) = true
        · rw [if_pos hfits, if_neg (by simp [hfits])]
          exact stored_iff policy mirror _ _
        · rw [if_neg hfits, if_pos (by simpa using hfits)]
          exact and_iff_right rfl

def emptyMirror : Mirror := ⟨⟨[], nodup_nil⟩, none, none, none⟩

def projectPolicy : ScopePolicy := ⟨["projects/p1/".toList]⟩

def projectNote (project : Text) : VaultNote where
  id := "n1".toList
  scope := .project
  projectId := some project
  slug := "notes".toList
  status := .draft
  contentHash := "h"
  version := 1
  rest := ""
  consistent := by simp
  body := ""

/-- A request that times out raises an exception without a text, and the
freshness reports no failure; a note that left the project when it is fetched
is stored. -/
theorem sync_breaks : (¬SyncLaw projectPolicy [.failure ""] [] emptyMirror
      (emptyMirror.sync projectPolicy 0 1 [.failure ""] []).1
      (emptyMirror.sync projectPolicy 0 1 [.failure ""] []).2) ∧
    ¬SyncLaw projectPolicy [.page [(projectNote "p1".toList).toVaultNoteSummary] none]
      [.note (projectNote "p2".toList)] emptyMirror (emptyMirror.sync projectPolicy 0 1
        [.page [(projectNote "p1".toList).toVaultNoteSummary] none]
        [.note (projectNote "p2".toList)]).1 (emptyMirror.sync projectPolicy 0 1
        [.page [(projectNote "p1".toList).toVaultNoteSummary] none]
        [.note (projectNote "p2".toList)]).2 := by
  constructor
  · rintro ⟨-, hreports⟩
    exact absurd (hreports 0 0).1 (by decide)
  · rintro ⟨-, hscoped⟩
    exact absurd (hscoped (projectNote "p2".toList) mem_cons_self) (by decide)

end StudioOS.ServerMirror
