import StudioOS.Vault.System

/-!
# History — a note and its versions

A session may hold an object older than the row it locked; its version check is then made on the old
version and passes, but the next version of that is in the history already, and the database refuses
the row.
-/

namespace StudioOS.Vault

open List Function Authz Runs

/-- The history of a note: its versions are 1 to its own, one row each, and the
last is the note as it is. -/
structure NoteHistory (env : Env) (tables : Tables) (note : NoteRow) : Prop where
  versions : (tables.versions.filter fun row => row.noteId = note.id).map (·.version) =
    List.range' 1 note.version
  last : ∃ row ∈ tables.versions, row.noteId = note.id ∧ row.version = note.version ∧
    row.fields = note.fields ∧ row.contentHash = note.contentHash ∧
      note.contentHash = env.contentHash note.fields row.links ∧
        row.links.Perm (tables.links note.id)

structure Tables.Sound (env : Env) (tables : Tables) : Prop where
  ids : (tables.notes.map (·.id)).Nodup
  owned : ∀ row ∈ tables.versions, ∃ note ∈ tables.notes, note.id = row.noteId
  history : ∀ note ∈ tables.notes, NoteHistory env tables note

/-- An object that a session loaded: the row, or an older state of it. -/
def Copy (tables : Tables) (note : NoteRow) : Prop :=
  ∃ row ∈ tables.notes, row.id = note.id ∧ note.version ≤ row.version ∧
    (note.version = row.version → note = row)

/-- From one state of the tables to a later one that wrote one note. -/
structure Advances (tables tables' : Tables) (id : Uuid) : Prop where
  rows : ∀ row ∈ tables.notes, ∃ row' ∈ tables'.notes, row'.id = row.id ∧
    row.version ≤ row'.version ∧ (row.version = row'.version → row = row')
  links : ∀ other, other ≠ id → tables'.links other = tables.links other

variable {tables tables' : Tables} {note : NoteRow} {id : Uuid} {noteIn : VaultNoteUpdate}
  {loaded assigned : NoteRow} {version : VersionRow} {links : Option (List VaultNoteLink)}
  {phase : Phase} {author : Author} {readableId : Option String} {notes : List NoteRow}
  {noteId : Uuid}

theorem Copy.mono (h : Copy tables note)
    (hadvances : Advances tables tables' id) : Copy tables' note := by
  obtain ⟨row, hrow, hid, hle, hsame⟩ := h
  obtain ⟨row', hrow', hid', hle', hsame'⟩ := hadvances.rows row hrow
  refine ⟨row', hrow', hid'.trans hid, Nat.le_trans hle hle', ?_⟩
  intro heq
  have hboth : note.version = row.version ∧ row.version = row'.version := by omega
  rw [hsame hboth.1, hsame' hboth.2]

theorem copy_of_mem (h : note ∈ tables.notes) : Copy tables note :=
  ⟨note, h, rfl, Nat.le_refl _, fun _ => rfl⟩

theorem State.note_mem {s : State} (h : s.note id = some note) :
    note ∈ s.tables.notes ∧ note.id = id := by
  refine ⟨List.mem_of_find?_eq_some h, ?_⟩
  have hfound := List.find?_some h
  exact of_decide_eq_true hfound

/-- An update on its way: what it assigns is the update of what it loaded, and
the links it will leave are those of its history row. -/
structure UpdateOk (env : Env) (tables : Tables) (noteIn : VaultNoteUpdate)
    (loaded assigned : NoteRow) (version : VersionRow) (links : Option (List VaultNoteLink)) :
    Prop where
  copy : Copy tables loaded
  expected : loaded.version = noteIn.expectedVersion
  built : ∃ author current, assigned = updatedNote env author loaded noteIn (links.getD current) ∧
    version = appendVersion assigned (links.getD current) noteIn.changeSummary ∧
      current.Perm (tables.links loaded.id)

/-- What a phase knows of the tables, and the note it has locked. -/
def Phase.Ok (env : Env) (tables : Tables) (locked : Uuid → Prop) : Phase → Prop
  | .idle | .creating .. | .available .. | .done _ => True
  | .opened _ noteId _ held => ∀ note ∈ held, note.id = noteId ∧ Copy tables note
  | .locked _ noteIn note => locked note.id ∧ Copy tables note ∧
    note.version = noteIn.expectedVersion
  | .loaded _ noteIn note current =>
    locked note.id ∧ Copy tables note ∧ note.version = noteIn.expectedVersion ∧
      current.Perm (tables.links note.id)
  | .writing noteIn (.insert note version links) =>
    noteIn = none ∧ ∃ author id readableId created,
      note = createdNote env author id readableId created ∧ links = created.links ∧
        version = appendVersion note links none
  | .writing noteIn (.update note assigned version links) =>
    locked note.id ∧ ∃ update, noteIn = some update ∧
      UpdateOk env tables update note assigned version links

structure Inv (env : Env) (s : State) : Prop where
  sound : s.tables.Sound env
  callers : ∀ i, (s.callers i).Ok env s.tables fun id => s.locks id = some i

theorem UpdateOk.mono {env} (h : UpdateOk env tables noteIn loaded assigned version links)
    (hadvances : Advances tables tables' id) (hne : loaded.id ≠ id) :
    UpdateOk env tables' noteIn loaded assigned version links := by
  obtain ⟨author, current, hassigned, hversion, hperm⟩ := h.built
  refine ⟨h.copy.mono hadvances, h.expected, author, current, hassigned, hversion, ?_⟩
  rw [hadvances.links _ hne]
  exact hperm

theorem Phase.Ok.mono {env locked locked'} (h : phase.Ok env tables locked)
    (hadvances : Advances tables tables' id)
    (hne : ∀ note, locked note.id → Copy tables note → note.id ≠ id)
    (hlocked : ∀ other, locked other → locked' other) : phase.Ok env tables' locked' := by
  cases phase with
  | idle | creating | available | done => trivial
  | opened author noteId noteIn held =>
    intro note hnote
    obtain ⟨hid, hcopy⟩ := h note hnote
    exact ⟨hid, hcopy.mono hadvances⟩
  | locked author noteIn note =>
    obtain ⟨hlock, hcopy, hversion⟩ := h
    exact ⟨hlocked _ hlock, hcopy.mono hadvances, hversion⟩
  | loaded author noteIn note current =>
    obtain ⟨hlock, hcopy, hversion, hperm⟩ := h
    refine ⟨hlocked _ hlock, hcopy.mono hadvances, hversion, ?_⟩
    rw [hadvances.links _ (hne note hlock hcopy)]
    exact hperm
  | writing noteIn write =>
    cases write with
    | insert note version links => exact h
    | update loaded assigned version links =>
      obtain ⟨hlock, update, hupdate, hok⟩ := h
      exact ⟨hlocked _ hlock, update, hupdate, hok.mono hadvances (hne loaded hlock hok.copy)⟩

/-! ## Commits -/

theorem not_slugFree_fresh
    (h : ¬ tables.notes.any (fun other => other.id = id)) : ∀ note ∈ tables.notes, note.id ≠ id := by
  intro note hnote hid
  exact h (any_eq_true.mpr ⟨note, hnote, decide_eq_true hid⟩)

theorem apply_insert {links} (h : (Write.insert note version links).apply tables = .ok tables') :
    (∀ other ∈ tables.notes, other.id ≠ note.id) ∧
      tables' =
        { notes := tables.notes ++ [note]
          versions := tables.versions ++ [version]
          links := Function.update tables.links note.id links } := by
  obtain ⟨hfresh, h⟩ := guard_ok h
  obtain ⟨_, h⟩ := guard_ok h
  obtain ⟨_, h⟩ := guard_ok h
  exact ⟨not_slugFree_fresh hfresh, (Except.ok.inj h).symm⟩

theorem apply_update (h : (Write.update loaded assigned version links).apply tables = .ok tables') :
    versionInsertable tables version ∧
      tables' =
        { notes := tables.notes.map fun current =>
            if current.id = assigned.id then flushNote loaded assigned current else current
          versions := tables.versions ++ [version]
          links := links.elim tables.links (Function.update tables.links assigned.id) } := by
  obtain ⟨_, h⟩ := guard_ok h
  obtain ⟨hinsertable, h⟩ := guard_ok h
  exact ⟨not_not.mp (not_or.mp hinsertable).1, (Except.ok.inj h).symm⟩

@[simp] theorem updatedNote_id (env) (author note) (noteIn links) :
    (updatedNote env author note noteIn links).id = note.id := rfl

theorem flushNote_loaded (env) (author loaded) (noteIn links) :
    flushNote loaded (updatedNote env author loaded noteIn links) loaded =
      updatedNote env author loaded noteIn links := by
  simp [flushNote, updatedNote]

theorem current_of_insertable {env} (hsound : tables.Sound env) (hcopy : Copy tables loaded)
    (hid : version.noteId = loaded.id) (hversion : version.version = loaded.version + 1)
    (hfree : versionInsertable tables version) :
    loaded ∈ tables.notes := by
  obtain ⟨row, hrow, hrowId, hle, hsame⟩ := hcopy
  by_cases hlt : loaded.version < row.version
  · -- the row is ahead of the object: its history has the version after the object's
    have hin : loaded.version + 1 ∈ List.range' 1 row.version := by
      rw [mem_range'_1]
      omega
    rw [← (hsound.history row hrow).versions] at hin
    obtain ⟨entry, hentry, hentryVersion⟩ := mem_map.mp hin
    obtain ⟨hentry, hentryId⟩ := mem_filter.mp hentry
    have hno := all_eq_true.mp hfree entry hentry
    rw [decide_eq_true_eq] at hno hentryId
    refine absurd ⟨?_, ?_⟩ hno
    · rw [hentryId, hrowId, hid]
    · rw [hentryVersion, hversion]
  · rw [hsame (by omega)]
    exact hrow

theorem NoteHistory.other {env} (h : NoteHistory env tables note)
    (hversions : tables'.versions = tables.versions ++ [version]) (hne : version.noteId ≠ note.id)
    (hlinks : tables'.links note.id = tables.links note.id) : NoteHistory env tables' note := by
  refine ⟨?_, ?_⟩
  · rw [hversions, filter_append, filter_cons_of_neg (by simpa using hne), filter_nil, append_nil]
    exact h.versions
  obtain ⟨row, hrow, hrest⟩ := h.last
  refine ⟨row, ?_, ?_⟩
  · rw [hversions]
    exact mem_append_left _ hrow
  · rw [hlinks]
    exact hrest

theorem NoteHistory.grow {env links changeSummary n}
    (hold : (tables.versions.filter fun row => row.noteId = note.id).map (·.version) =
      List.range' 1 n) (hversion : note.version = n + 1)
    (hhash : note.contentHash = env.contentHash note.fields links)
    (hversions : tables'.versions = tables.versions ++ [appendVersion note links changeSummary])
    (hlinks : links.Perm (tables'.links note.id)) : NoteHistory env tables' note := by
  refine ⟨?_, appendVersion note links changeSummary, ?_, rfl, rfl, rfl, rfl, hhash, hlinks⟩
  · have hone : ([appendVersion note links changeSummary].filter fun row => row.noteId = note.id) =
        [appendVersion note links changeSummary] :=
      filter_eq_self.mpr (by simp [appendVersion])
    rw [hversions, filter_append, map_append, hold, hone, hversion,
      List.range'_1_concat, Nat.add_comm 1 n, ← hversion]
    rfl
  · rw [hversions]
    exact mem_append_right _ (mem_singleton.mpr rfl)

theorem sound_insert {env noteIn} (hsound : tables.Sound env)
    (h : (Write.insert (createdNote env author id readableId noteIn)
      (appendVersion (createdNote env author id readableId noteIn) noteIn.links none)
      noteIn.links).apply tables = .ok tables') :
    tables'.Sound env ∧ Advances tables tables' id := by
  obtain ⟨hfresh, rfl⟩ := apply_insert h
  have hfresh : ∀ other ∈ tables.notes, other.id ≠ id := hfresh
  refine ⟨⟨?_, ?_, ?_⟩, ?_, ?_⟩
  · rw [map_append, nodup_append]
    refine ⟨hsound.ids, nodup_singleton _, ?_⟩
    intro a ha b hb heq
    obtain ⟨other, hother, rfl⟩ := mem_map.mp ha
    rw [mem_singleton.mp hb] at heq
    exact hfresh other hother heq
  · intro row hrow
    rcases mem_append.mp hrow with hrow | hrow
    · obtain ⟨note, hnote, hid⟩ := hsound.owned row hrow
      exact ⟨note, mem_append_left _ hnote, hid⟩
    · rw [mem_singleton.mp hrow]
      exact ⟨_, mem_append_right _ (mem_singleton.mpr rfl), rfl⟩
  · intro note hnote
    rcases mem_append.mp hnote with hnote | hnote
    · refine (hsound.history note hnote).other rfl ?_ ?_
      · exact fun heq => hfresh note hnote heq.symm
      · exact update_of_ne (hfresh note hnote) _ _
    rw [mem_singleton.mp hnote]
    refine NoteHistory.grow (n := 0) ?_ rfl rfl rfl ?_
    · rw [filter_eq_nil_iff.mpr]
      · rfl
      · intro row hrow hid
        obtain ⟨note, hnote, hsame⟩ := hsound.owned row hrow
        exact hfresh note hnote (hsame.trans (of_decide_eq_true hid))
    · show noteIn.links.Perm (Function.update tables.links id noteIn.links id)
      rw [update_self]
  · intro row hrow
    exact ⟨row, mem_append_left _ hrow, rfl, Nat.le_refl _, fun _ => rfl⟩
  · intro other hne
    exact update_of_ne hne _ _

theorem notes_update {env links} (hsound : tables.Sound env)
    (hmem : loaded ∈ tables.notes) : (tables.notes.map fun current =>
      if current.id = (updatedNote env author loaded noteIn links).id then
        flushNote loaded (updatedNote env author loaded noteIn links) current else current) =
    tables.notes.map fun current =>
      if current.id = loaded.id then updatedNote env author loaded noteIn links else current := by
  refine map_congr_left fun current hcurrent => ?_
  by_cases hid : current.id = loaded.id
  · have hsame : current = loaded := inj_on_of_nodup_map hsound.ids hcurrent hmem hid
    rw [updatedNote_id, if_pos hid, if_pos hid, hsame, flushNote_loaded]
  · rw [updatedNote_id, if_neg hid, if_neg hid]

theorem mem_replaced (hmem : note ∈ notes) (row) :
    (row ∈ notes.map fun current => if current.id = note.id then assigned else current) ↔
      row = assigned ∨ row ∈ notes ∧ row.id ≠ note.id := by
  rw [mem_map]
  constructor
  · rintro ⟨current, hcurrent, rfl⟩
    by_cases hid : current.id = note.id
    · exact .inl (if_pos hid)
    · rw [if_neg hid]
      exact .inr ⟨hcurrent, hid⟩
  · rintro (rfl | ⟨hrow, hid⟩)
    · exact ⟨note, hmem, if_pos rfl⟩
    · exact ⟨row, hrow, if_neg hid⟩

theorem ids_replaced (hid : assigned.id = note.id) :
    (notes.map fun current => if current.id = note.id then assigned else current).map (·.id) =
      notes.map (·.id) := by
  rw [map_map]
  refine map_congr_left fun current _ => ?_
  by_cases hsame : current.id = note.id
  · rw [comp_apply, if_pos hsame, hid, hsame]
  · rw [comp_apply, if_neg hsame]

theorem sound_update {env} (hsound : tables.Sound env)
    (hok : UpdateOk env tables noteIn loaded assigned version links)
    (h : (Write.update loaded assigned version links).apply tables = .ok tables') :
    tables'.Sound env ∧ Advances tables tables' loaded.id ∧ loaded ∈ tables.notes ∧
      tables'.notes = tables.notes.map fun current =>
        if current.id = loaded.id then assigned else current := by
  obtain ⟨hfree, rfl⟩ := apply_update h
  obtain ⟨author, stored, rfl, rfl, hperm⟩ := hok.built
  have hmem : loaded ∈ tables.notes := current_of_insertable hsound hok.copy rfl rfl hfree
  rw [notes_update hsound hmem]
  have hlinks : ∀ other, other ≠ loaded.id →
      links.elim tables.links (Function.update tables.links loaded.id) other =
        tables.links other := by
    intro other hne
    cases links with
    | none => rfl
    | some links => exact update_of_ne hne _ _
  refine ⟨⟨?_, ?_, ?_⟩, ⟨?_, hlinks⟩, hmem, rfl⟩
  · show (List.map NoteRow.id (List.map _ tables.notes)).Nodup
    rw [ids_replaced (updatedNote_id env author loaded noteIn (links.getD stored))]
    exact hsound.ids
  · intro row hrow
    rcases mem_append.mp hrow with hrow | hrow
    · obtain ⟨note, hnote, hid⟩ := hsound.owned row hrow
      have hin : note.id ∈ tables.notes.map (·.id) := mem_map_of_mem hnote
      rw [← ids_replaced (updatedNote_id env author loaded noteIn (links.getD stored))] at hin
      obtain ⟨note', hnote', hid'⟩ := mem_map.mp hin
      exact ⟨note', hnote', hid'.trans hid⟩
    · rw [mem_singleton.mp hrow]
      exact ⟨_, (mem_replaced hmem _).mpr (.inl rfl), rfl⟩
  · intro note hnote
    rcases (mem_replaced hmem _).mp hnote with rfl | ⟨hnote, hne⟩
    · refine NoteHistory.grow (hsound.history loaded hmem).versions rfl rfl rfl ?_
      -- the links of the history row are those the note is left with
      cases links with
      | none => exact hperm
      | some links =>
        show links.Perm (Function.update tables.links loaded.id links loaded.id)
        rw [update_self]
    · exact (hsound.history note hnote).other rfl (fun heq => hne heq.symm) (hlinks _ hne)
  · intro row hrow
    by_cases hid : row.id = loaded.id
    · have hsame : row = loaded := inj_on_of_nodup_map hsound.ids hrow hmem hid
      refine ⟨_, (mem_replaced hmem _).mpr (.inl rfl), hid.symm, ?_, ?_⟩
      · rw [hsame]
        exact Nat.le_succ _
      · intro heq
        rw [hsame] at heq
        exact absurd heq (Nat.ne_of_lt (Nat.lt_succ_self _))
    · exact ⟨row, (mem_replaced hmem _).mpr (.inr ⟨hrow, hid⟩), rfl, Nat.le_refl _, fun _ => rfl⟩

/-! ## The invariant over runs -/

theorem inv_initial (env) : Inv env State.initial := by
  refine ⟨⟨nodup_nil, ?_, ?_⟩, fun _ => trivial⟩
  · intro row hrow
    cases hrow
  · intro note hnote
    cases hnote

section
variable {env : Env} {s : State} {i : Nat}

@[simp] theorem State.finish_tables (error) : (s.finish i error).tables = s.tables := rfl

@[simp] theorem State.setPhase_tables (phase) : (s.setPhase i phase).tables = s.tables := rfl

theorem State.finish_locks {j} (hne : j ≠ i) (error)
    (h : s.locks id = some j) : (s.finish i error).locks id = some j := by
  have hother : s.locks id ≠ some i := by
    rw [h]
    exact fun heq => hne (Option.some.inj heq)
  exact (if_neg hother).trans h

theorem Phase.Ok.locks {locked locked'} (h : phase.Ok env tables locked)
    (hlocked : ∀ other, locked other → locked' other) :
    phase.Ok env tables locked' := by
  cases phase with
  | idle | creating | available | done => trivial
  | opened author noteId noteIn held => exact h
  | locked | loaded => exact ⟨hlocked _ h.1, h.2⟩
  | writing noteIn write =>
    cases write with
    | insert note version links => exact h
    | update note assigned version links => exact ⟨hlocked _ h.1, h.2⟩

theorem Inv.setPhase (h : Inv env s)
    (hphase : phase.Ok env s.tables fun id => s.locks id = some i) :
    Inv env (s.setPhase i phase) := by
  refine ⟨h.sound, ?_⟩
  intro j
  by_cases hj : j = i
  · subst hj
    show (Function.update s.callers j phase j).Ok env s.tables fun id => s.locks id = some j
    rw [update_self]
    exact hphase
  · show (Function.update s.callers i phase j).Ok env s.tables fun id => s.locks id = some j
    rw [update_of_ne hj]
    exact h.callers j

theorem Inv.finish (h : Inv env s) (error) : Inv env (s.finish i error) := by
  refine ⟨h.sound, ?_⟩
  intro j
  by_cases hj : j = i
  · subst hj
    show (Function.update s.callers j (.done error) j).Ok env s.tables _
    rw [update_self]
    trivial
  · show (Function.update s.callers i (.done error) j).Ok env s.tables _
    rw [update_of_ne hj]
    exact (h.callers j).locks fun _ hlock => State.finish_locks hj error hlock

theorem Inv.answer (h : Inv env s) {check} (hcheck : ∀ phase, check = .ok phase →
      phase.Ok env s.tables fun id => s.locks id = some i) : Inv env (s.answer i check) := by
  cases check with
  | ok phase => exact h.setPhase (hcheck phase rfl)
  | error error => exact h.finish (some error)

theorem openUpdate_ok {authorizes keeps}
    (h : openUpdate env s author noteId noteIn authorizes keeps = .ok phase) :
    phase.Ok env s.tables fun id => s.locks id = some i := by
  obtain ⟨_, _, h⟩ := bind_ok h
  cases authorizes with
  | false =>
    cases h
    intro note hnote
    cases hnote
  | true =>
    cases hnote : s.note noteId with
    | none =>
      simp only [hnote] at h
      cases h
    | some note =>
      simp only [hnote] at h
      obtain ⟨_, _, h⟩ := bind_ok h
      obtain ⟨hmem, hid⟩ := State.note_mem hnote
      cases keeps with
      | false =>
        cases h
        intro note hnote
        cases hnote
      | true =>
        cases h
        intro note' hnote'
        obtain rfl : note = note' := by simpa using hnote'
        exact ⟨hid, copy_of_mem hmem⟩

theorem lockNote_ok {held} (hheld : ∀ note ∈ held, note.id = noteId ∧ Copy s.tables note)
    (h : lockNote s author noteId noteIn held = .ok phase) (hlock : s.locks noteId = some i) :
    phase.Ok env s.tables fun id => s.locks id = some i := by
  rw [lockNote] at h
  cases hrow : s.note noteId with
  | none =>
    simp only [hrow] at h
    cases h
  | some row =>
    simp only [hrow] at h
    obtain ⟨_, _, h⟩ := bind_ok h
    obtain ⟨hversion, h⟩ := guard_ok h
    cases h
    obtain ⟨hmem, hid⟩ := State.note_mem hrow
    have hnote : (held.getD row).id = noteId ∧ Copy s.tables (held.getD row) := by
      cases held with
      | none => exact ⟨hid, copy_of_mem hmem⟩
      | some note => exact hheld note rfl
    refine ⟨?_, hnote.2, not_not.mp hversion⟩
    rw [hnote.1]
    exact hlock

theorem stageUpdate_ok {current : List VaultNoteLink}
    (h : stageUpdate env s author noteIn note current = .ok phase)
    (hok : (Phase.loaded author noteIn note current).Ok env s.tables fun id => s.locks id = some i) :
    phase.Ok env s.tables fun id => s.locks id = some i := by
  obtain ⟨hlock, hcopy, hversion, hperm⟩ := hok
  obtain ⟨_, _, h⟩ := bind_ok h
  cases h
  exact ⟨hlock, noteIn, rfl, hcopy, hversion, author, current, rfl, rfl, hperm⟩

theorem stageCreate_ok {noteIn} (h : stageCreate env s author noteIn id readableId = .ok phase) :
    phase.Ok env s.tables fun id => s.locks id = some i := by
  obtain ⟨_, _, h⟩ := bind_ok h
  cases h
  exact ⟨rfl, author, id, readableId, noteIn, rfl, rfl, rfl⟩

theorem Inv.lock (h : Inv env s) (hfree : s.locks noteId = none) :
    Inv env { s with locks := Function.update s.locks noteId (some i) } := by
  refine ⟨h.sound, ?_⟩
  intro j
  refine (h.callers j).locks ?_
  intro other hother
  have hne : other ≠ noteId := by
    rintro rfl
    rw [hfree] at hother
    cases hother
  show Function.update s.locks noteId (some i) other = some j
  rw [update_of_ne hne]
  exact hother

/-- What a commit does: it adds a note, in version 1, or it replaces the note
whose version its update expected. -/
inductive Effect (tables tables' : Tables) : Option VaultNoteUpdate → Prop where
  | create (note : NoteRow) (version : note.version = 1)
      (fresh : ∀ other ∈ tables.notes, other.id ≠ note.id)
      (notes : tables'.notes = tables.notes ++ [note]) : Effect tables tables' none
  | update (noteIn before after) (stored : before ∈ tables.notes)
      (expected : noteIn.expectedVersion = before.version)
      (version : after.version = before.version + 1) (id : after.id = before.id)
      (fields : after.fields = updatedFields before.fields noteIn)
      (notes : tables'.notes = tables.notes.map fun current =>
        if current.id = before.id then after else current) : Effect tables tables' (some noteIn)

theorem Inv.commit (h : Inv env s) {noteIn write} (hphase : s.callers i = .writing noteIn write)
    (happly : write.apply s.tables = .ok tables') :
    Inv env ({ s with tables := tables' }.finish i none) ∧ Effect s.tables tables' noteIn := by
  have hown := h.callers i
  rw [hphase] at hown
  -- the others know the same, as they neither hold the lock nor know the new note
  have hothers : ∀ id, Advances s.tables tables' id →
      (∀ j, j ≠ i → ∀ note, s.locks note.id = some j → Copy s.tables note → note.id ≠ id) →
        tables'.Sound env → Inv env ({ s with tables := tables' }.finish i none) := by
    intro id hadvances hne hsound
    refine ⟨hsound, ?_⟩
    intro j
    by_cases hj : j = i
    · subst hj
      show (Function.update s.callers j (.done none) j).Ok env tables' _
      rw [update_self]
      trivial
    · show (Function.update s.callers i (.done none) j).Ok env tables' _
      rw [update_of_ne hj]
      exact (h.callers j).mono hadvances (hne j hj) fun _ hlock =>
        State.finish_locks (s := s) hj none hlock
  cases write with
  | insert note version links =>
    obtain ⟨rfl, author, id, readableId, created, rfl, rfl, rfl⟩ := hown
    obtain ⟨hsound, hadvances⟩ := sound_insert h.sound happly
    obtain ⟨hfresh, hnotes⟩ := apply_insert happly
    refine ⟨hothers id hadvances ?_ hsound, ?_⟩
    · intro j _ note _ hcopy hid
      obtain ⟨row, hrow, hrowId, -⟩ := hcopy
      exact hfresh row hrow (hrowId.trans hid)
    · exact .create _ rfl hfresh (by rw [hnotes])
  | update note assigned version links =>
    obtain ⟨hlock, update, rfl, hok⟩ := hown
    obtain ⟨hsound, hadvances, hmem, hnotes⟩ := sound_update h.sound hok happly
    refine ⟨hothers note.id hadvances ?_ hsound, ?_⟩
    · intro j hj other hother _ hid
      rw [hid, hlock] at hother
      exact hj (Option.some.inj hother).symm
    · obtain ⟨author, current, rfl, -, -⟩ := hok.built
      exact .update update note (updatedNote env author note update (links.getD current)) hmem
        hok.expected.symm rfl rfl rfl hnotes

theorem inv_step (h : Inv env s) {action t} (hstep : step env s action = some t) :
    Inv env t ∧ (t.tables = s.tables ∨ ∃ i noteIn write, action = .commit i ∧
      s.callers i = .writing noteIn write ∧ Effect s.tables t.tables noteIn) := by
  have hanswer : ∀ {s' : State} {i : Nat} {check : Except HttpError Phase},
      (s'.answer i check).tables = s'.tables := by
    intro s' i check
    cases check <;> rfl
  cases action with
  | create i author noteIn =>
    simp only [step] at hstep
    split at hstep
    · cases hstep
      refine ⟨h.answer ?_, .inl hanswer⟩
      intro phase hphase
      obtain ⟨_, _, hphase⟩ := bind_ok hphase
      cases hphase
      trivial
    · cases hstep
  | update i author noteId noteIn authorizes keeps =>
    simp only [step] at hstep
    split at hstep
    · cases hstep
      exact ⟨h.answer fun phase hphase => openUpdate_ok hphase, .inl hanswer⟩
    · cases hstep
  | checkSlug i =>
    simp only [step] at hstep
    split at hstep
    · cases hstep
      refine ⟨h.answer ?_, .inl hanswer⟩
      intro phase hphase
      obtain ⟨_, _, hphase⟩ := bind_ok hphase
      cases hphase
      trivial
    · cases hstep
  | stageCreate i id readableId =>
    simp only [step] at hstep
    split at hstep
    · cases hstep
      exact ⟨h.answer fun phase hphase => stageCreate_ok hphase, .inl hanswer⟩
    · cases hstep
  | lock i =>
    simp only [step] at hstep
    split at hstep
    · rename_i author noteId noteIn held hphase
      split at hstep
      · rename_i hfree
        cases hstep
        have hown := h.callers i
        rw [hphase] at hown
        refine ⟨(h.lock hfree).answer ?_, .inl hanswer⟩
        intro phase hok
        exact lockNote_ok hown hok (update_self ..)
      · cases hstep
    · cases hstep
  | load i rows =>
    simp only [step] at hstep
    split at hstep
    · rename_i author noteIn note hphase
      split at hstep
      · rename_i hperm
        cases hstep
        have hown := h.callers i
        rw [hphase] at hown
        exact ⟨h.setPhase ⟨hown.1, hown.2.1, hown.2.2, hperm⟩, .inl rfl⟩
      · cases hstep
    · cases hstep
  | stageUpdate i =>
    simp only [step] at hstep
    split at hstep
    · rename_i author noteIn note current hphase
      cases hstep
      have hown := h.callers i
      rw [hphase] at hown
      exact ⟨h.answer fun phase hok => stageUpdate_ok hok hown, .inl hanswer⟩
    · cases hstep
  | commit i =>
    simp only [step] at hstep
    split at hstep
    · rename_i noteIn write hphase
      split at hstep
      · rename_i tables' happly
        cases hstep
        obtain ⟨hinv, heffect⟩ := h.commit hphase happly
        exact ⟨hinv, .inr ⟨i, noteIn, write, rfl, hphase, heffect⟩⟩
      · cases hstep
        exact ⟨h.finish _, .inl rfl⟩
    · cases hstep
  | abort i =>
    cases hstep
    exact ⟨h.finish none, .inl rfl⟩

end

/-- **Vault history**: after any run, every note has the versions 1 to its own, one row each, the
last of them the note as it is; and a step leaves the tables alone, adds a note in version 1, or
replaces the note at the version which the update expected. -/
theorem vault_history (env : Env) (actions : List Action) (s : State)
    (hrun : Run (step env) Free State.initial actions s) :
    (∀ note ∈ s.tables.notes, NoteHistory env s.tables note) ∧ (s.tables.notes.map (·.id)).Nodup ∧
      (∀ row ∈ s.tables.versions, ∃ note ∈ s.tables.notes, note.id = row.noteId) ∧
      ∀ action t, step env s action = some t → t.tables = s.tables ∨
        ∃ i noteIn write, action = .commit i ∧ s.callers i = .writing noteIn write ∧
          Effect s.tables t.tables noteIn := by
  have hinv : Inv env s :=
    hrun.invariant (I := Inv env) (fun h _ hstep => (inv_step h hstep).1) (inv_initial env)
  refine ⟨hinv.sound.history, hinv.sound.ids, hinv.sound.owned, ?_⟩
  intro action t hstep
  exact (inv_step hinv hstep).2

def sampleEnv : Env := { contentHash := fun _ _ => "hash", scan := fun _ => [] }

def sampleAuthor : Author :=
  { principal := { machine := ⟨⟨"m"⟩, ⟨"u"⟩⟩, role := .developer, projectScope := .allProjects }
    userId := ⟨"u"⟩
    authorType := .user }

def sampleFields : NoteFields := ⟨"title", "", "body", .draft, [], []⟩

def sampleUpdate (title : String) : VaultNoteUpdate :=
  { expectedVersion := 1
    title := some title
    summary := none
    body := none
    status := none
    tags := none
    links := none
    anchors := none
    changeSummary := none }

/-- Two callers read version 1; the second goes first, and the first still has
the note in its session when it gets the lock. -/
def staleRun : List Action :=
  [.create 0 sampleAuthor ⟨.studio, none, "slug", .note, sampleFields, []⟩, .checkSlug 0,
    .stageCreate 0 ⟨"n"⟩ none, .commit 0,
    .update 1 sampleAuthor ⟨"n"⟩ (sampleUpdate "first") true true,
    .update 2 sampleAuthor ⟨"n"⟩ (sampleUpdate "second") true false,
    .lock 2, .load 2 [], .stageUpdate 2, .commit 2,
    .lock 1, .load 1 [], .stageUpdate 1, .commit 1]

theorem vault_history_stale :
    ∃ s : State, (∀ note ∈ s.tables.notes, note.fields.title = "second" ∧ note.version = 2) ∧
      ∀ note ∈ s.tables.notes, NoteHistory sampleEnv s.tables note := by
  have h : (execWithin (step sampleEnv) Free State.initial staleRun).any (fun s =>
      s.tables.notes.all fun note => note.fields.title = "second" ∧ note.version = 2) = true := by
    decide +kernel
  obtain ⟨s, hs, hnotes⟩ := Run.of_any h
  refine ⟨s, ?_, (vault_history sampleEnv staleRun s hs).1⟩
  intro note hnote
  exact of_decide_eq_true (all_eq_true.mp hnotes note hnote)

end StudioOS.Vault
