import StudioOS.Knowledge.Model

/-!
# Knowledge — Rows

What the statements of a rebuild leave in the table: to index a file is to
keep the table, or to take the row of the path out and, if the file is
Markdown, to add its row at the end (`indexFile_rows`).
-/

namespace StudioOS.Knowledge

open List

variable {env : Env} {docs : Documents} {path : Path} {row : DocumentRow} {item : VaultFile}

@[ext] theorem Documents.ext {a b : Documents} (h : a.rows = b.rows) : a = b := by
  cases a
  cases b
  cases h
  rfl

theorem mem_paths : path ∈ docs.paths ↔ ∃ row ∈ docs.rows, row.relativePath = path := mem_map

theorem Documents.unique {a b} (ha : a ∈ docs.rows) (hb : b ∈ docs.rows)
    (h : a.relativePath = b.relativePath) : a = b :=
  inj_on_of_nodup_map docs.key ha hb h

/-! ## Statements -/

theorem executeAll_append (docs ss ts) :
    executeAll docs (ss ++ ts) = executeAll (executeAll docs ss) ts :=
  foldl_append

theorem delete_modify (docs : Documents) (path) (write) :
    (docs.modify path write).delete path = docs.delete path := by
  ext1
  simp only [Documents.delete, Documents.modify]
  induction docs.rows with
  | nil => rfl
  | cons row rows ih =>
    by_cases h : row.relativePath = path <;> simpa [h] using ih

theorem delete_of_not_mem (h : path ∉ docs.paths) : docs.delete path = docs := by
  ext1
  refine filter_eq_self.mpr ?_
  intro row hrow
  simpa using fun heq => h (mem_paths.mpr ⟨row, hrow, heq⟩)

theorem executeAll_deleteDocument (docs) (path) :
    executeAll docs (deleteDocument docs path) = docs.delete path := by
  unfold deleteDocument
  by_cases h : path ∈ docs.paths
  · simp [h, executeAll, Statement.execute, delete_modify]
  · rw [if_neg h, delete_of_not_mem h]
    rfl

theorem not_mem_paths_delete (docs : Documents) (path) : path ∉ (docs.delete path).paths := by
  rw [mem_paths]
  rintro ⟨row, hrow, heq⟩
  simpa [heq] using (mem_filter.mp hrow).2

theorem executeAll_last {β : Type} (statement : β → Statement)
    {write : β → DocumentRow → DocumentRow}
    (hexecute : ∀ docs b, (statement b).execute docs = docs.modify path (write b))
    (hpath : ∀ b row, (write b row).relativePath = row.relativePath) {front : List DocumentRow}
    (hfront : ∀ old ∈ front, old.relativePath ≠ path) (bs : List β)
    (hrows : docs.rows = front ++ [row]) (hrow : row.relativePath = path) :
    (executeAll docs (bs.map statement)).rows =
      front ++ [bs.foldl (fun row b => write b row) row] := by
  induction bs generalizing docs row with
  | nil => exact hrows
  | cons b bs ih =>
    show (executeAll ((statement b).execute docs) (bs.map statement)).rows = _
    refine ih ?_ ((hpath b row).trans hrow)
    have hkept : front.map (fun old =>
        if old.relativePath = path then { write b old with relativePath := old.relativePath }
        else old) = front :=
      (map_congr_left fun old hold => if_neg (hfront old hold)).trans (map_id front)
    rw [hexecute, Documents.modify]
    simp only [hrows, map_append, map_cons, map_nil]
    rw [hkept, if_pos hrow, ← hpath b row]

theorem foldl_headings (headings : List Heading) (row : DocumentRow) :
    headings.foldl (fun row heading => { row with headings := row.headings ++ [heading] }) row =
      { row with headings := row.headings ++ headings } := by
  induction headings generalizing row with
  | nil => simp
  | cons heading headings ih => simp [ih]

theorem foldl_links (links : List LinkRow) (row : DocumentRow) :
    links.foldl (fun row link => { row with links := row.links ++ [link] }) row =
      { row with links := row.links ++ links } := by
  induction links generalizing row with
  | nil => simp
  | cons link links ih => simp [ih]

theorem foldl_tags (tags : List TagRow) (row : DocumentRow) :
    tags.foldl (fun row tag => { row with tags := row.tags ++ [tag] }) row =
      { row with tags := row.tags ++ tags } := by
  induction tags generalizing row with
  | nil => simp
  | cons tag tags ih => simp [ih]

theorem insert_rows (h : row.relativePath ∉ docs.paths) :
    (docs.insert row).rows = docs.rows ++ [row] := by
  unfold Documents.insert
  exact congrArg Documents.rows (dif_neg h)

theorem executeAll_insertRow (h : row.relativePath ∉ docs.paths) :
    (executeAll docs (insertRow row)).rows = docs.rows ++ [row] := by
  have hfront : ∀ old ∈ docs.rows, old.relativePath ≠ row.relativePath :=
    fun old hold heq => h (mem_paths.mpr ⟨old, hold, heq⟩)
  show (executeAll (docs.insert _) _).rows = _
  rw [executeAll_append, executeAll_append]
  have hinsert : (docs.insert { row with headings := [], links := [], tags := [] }).rows =
      docs.rows ++ [{ row with headings := [], links := [], tags := [] }] :=
    insert_rows (by exact h)
  have hheadings := executeAll_last (Statement.insertHeading row.relativePath)
    (fun _ _ => rfl) (fun _ _ => rfl) hfront row.headings hinsert rfl
  rw [foldl_headings] at hheadings
  have hlinks := executeAll_last (Statement.insertLink row.relativePath)
    (fun _ _ => rfl) (fun _ _ => rfl) hfront row.links hheadings rfl
  rw [foldl_links] at hlinks
  have htags := executeAll_last (Statement.insertTag row.relativePath)
    (fun _ _ => rfl) (fun _ _ => rfl) hfront row.tags hlinks rfl
  rw [foldl_tags] at htags
  exact htags

/-- The row that a file has in the index, if it has one. -/
def Env.rowOf (env : Env) (item : VaultFile) (text : Option Text) : Option DocumentRow :=
  text.bind fun text => (env.parsed item.relativePath text).map (env.row item text)

theorem rowOf_path {text} (h : env.rowOf item text = some row) :
    row.relativePath = item.relativePath := by
  obtain ⟨text, -, hrow⟩ := Option.bind_eq_some_iff.mp h
  obtain ⟨parsed, -, rfl⟩ := Option.map_eq_some_iff.mp hrow
  rfl

theorem indexFile_some (env : Env) (docs item) (full t) :
    env.indexFile docs item full (some t) = if (!full && env.upToDate docs item t) = true then []
      else deleteDocument docs item.relativePath ++ match env.parsed item.relativePath t with
          | none => []
          | some parsed => insertRow (env.row item t parsed) := rfl

theorem indexFile_rows (env : Env) (docs item) (full) (text) :
    ((executeAll docs (env.indexFile docs item full text)) = docs ∧ full = false ∧
      ∃ t, text = some t ∧ env.upToDate docs item t = true) ∨
    (executeAll docs (env.indexFile docs item full text)).rows =
      (docs.delete item.relativePath).rows ++ (env.rowOf item text).toList := by
  cases text with
  | none =>
    right
    rw [Env.indexFile, executeAll_deleteDocument]
    exact (append_nil _).symm
  | some t =>
    rw [indexFile_some]
    by_cases hskip : (!full && env.upToDate docs item t) = true
    · left
      rw [if_pos hskip]
      rw [Bool.and_eq_true, Bool.not_eq_true'] at hskip
      exact ⟨rfl, hskip.1, t, rfl, hskip.2⟩
    right
    rw [if_neg hskip, executeAll_append, executeAll_deleteDocument]
    cases hparsed : env.parsed item.relativePath t with
    | none => simp [Env.rowOf, hparsed, executeAll]
    | some parsed =>
      have hnew : (env.row item t parsed).relativePath ∉
          (docs.delete item.relativePath).paths := not_mem_paths_delete docs _
      rw [executeAll_insertRow hnew]
      simp [Env.rowOf, hparsed]

theorem deleteStale_rows (docs paths) :
    (deleteStale docs paths).rows = docs.rows.filter fun row => row.relativePath ∉ paths := by
  induction paths generalizing docs with
  | nil => simp [deleteStale]
  | cons path paths ih =>
    show (deleteStale (executeAll docs (deleteDocument docs path)) paths).rows = _
    rw [ih, executeAll_deleteDocument, Documents.delete, filter_filter]
    refine filter_congr ?_
    intro row _
    simp [Bool.and_comm]

/-- A row without what its links lead to. -/
def DocumentRow.bare (row : DocumentRow) : DocumentRow :=
  { row with links := row.links.map fun link => { link with resolved := none } }

theorem mapM_eq_some {α β : Type} {f : α → Option β} {as : List α} {bs : List β} :
    as.mapM f = some bs ↔ List.Forall₂ (fun a b => f a = some b) as bs := by
  induction as generalizing bs with
  | nil => simp [eq_comm]
  | cons a as ih =>
    rw [mapM_cons]
    constructor
    · intro h
      obtain ⟨b, hb, hrest⟩ := Option.bind_eq_some_iff.mp h
      obtain ⟨cs, hcs, heq⟩ := Option.bind_eq_some_iff.mp hrest
      cases heq
      exact .cons hb (ih.mp hcs)
    · rintro (_ | ⟨hb, hrest⟩)
      rw [hb, ih.mpr hrest]
      rfl

variable {all rows rows' : List DocumentRow}

theorem resolveRow_bare {row'} (h : env.resolveRow all row = some row') : row'.bare = row.bare := by
  obtain ⟨links, hlinks, rfl⟩ := Option.map_eq_some_iff.mp h
  have hmap : links.map (fun link => { link with resolved := none }) =
      row.links.map fun link => { link with resolved := none } := by
    have hall := mapM_eq_some.mp hlinks
    clear hlinks h
    generalize row.links = old at hall
    induction hall with
    | nil => rfl
    | cons hlink _ ih =>
      obtain ⟨resolved, -, rfl⟩ := Option.map_eq_some_iff.mp hlink
      rw [map_cons, map_cons, ih]
  simp [DocumentRow.bare, hmap]

theorem resolveRows_bare (h : rows.mapM (env.resolveRow all) = some rows') :
    rows'.map DocumentRow.bare = rows.map DocumentRow.bare := by
  have hall := mapM_eq_some.mp h
  clear h
  induction hall with
  | nil => rfl
  | cons hb _ ih => rw [map_cons, map_cons, resolveRow_bare hb, ih]

theorem bare_path (row : DocumentRow) : row.bare.relativePath = row.relativePath := rfl

theorem map_of_bare {β : Type} {f : DocumentRow → β} (hf : ∀ row, f row.bare = f row)
    (h : rows'.map DocumentRow.bare = rows.map DocumentRow.bare) : rows'.map f = rows.map f := by
  have := congrArg (List.map f) h
  simpa [Function.comp_def, hf] using this

theorem withRows_rows (h : rows.map DocumentRow.bare = docs.rows.map DocumentRow.bare) :
    (docs.withRows rows).rows = rows := by
  unfold Documents.withRows
  exact congrArg Documents.rows (dif_pos (map_of_bare bare_path h))

end StudioOS.Knowledge
