import StudioOS.Knowledge.Graph
import StudioOS.Knowledge.Ready

/-!
# Knowledge — Incremental

An incremental rebuild against a full one into an empty index. Both leave one row for each Markdown
file of the listing (`Env.expected`); where no link has two documents to lead to, the links lead to
the same (`incremental_full`).
-/

namespace StudioOS.Knowledge

open List Option Runs

/-- The row is the one of some text. -/
def Whole (env : Env) (row : DocumentRow) : Prop :=
  ∃ item text, env.rowOf item (some text) = some row.bare

/-- The rows of the Markdown files of the listing. -/
def Env.expected (env : Env) (vault : Vault) : List DocumentRow :=
  (env.listing vault).filterMap fun item => env.rowOf item (vault.read item.relativePath)

/-- An exception that leaves every document whole: with all its rows or
without any. -/
def Clean (env : Env) (s : State) : Act → Prop
  | .failFile k => ∀ job ∈ s.job, ∀ index ∈ s.index, ∀ item ∈ job.todo.head?,
      let statements := env.indexFile index.docs item job.full (s.vault.read item.relativePath)
      let docs := executeAll index.docs (statements.take k)
      docs = index.docs ∨ docs = index.docs.delete item.relativePath ∨
        docs = executeAll index.docs statements
  | .failEnd k m _ => ∀ job ∈ s.job, ∀ index ∈ s.index, ∀ path ∈ job.stale[k]?,
      let before := deleteStale index.docs (job.stale.take k)
      let docs := executeAll before ((deleteDocument before path).take m)
      docs = before ∨ docs = before.delete path
  | _ => True

/-- A file with the text and the time of its row has the size of its row. -/
def Sized (env : Env) (vault : Vault) (docs : Documents) : Prop :=
  ∀ item ∈ env.listing vault, ∀ row ∈ docs.rows, row.relativePath = item.relativePath →
    row.mtimeNs = item.mtimeNs →
    (vault.read item.relativePath).map env.contentHash = some row.contentHash →
    row.sizeBytes = item.sizeBytes

/-- No name that a link is looked up by is the path of two documents up to
case. -/
def Unambiguous (env : Env) (rows : List DocumentRow) : Prop :=
  ∀ row ∈ rows, ∀ link ∈ row.links, link.pathPart ≠ [] → looksExternal link.pathPart = false →
    ∀ name ∈ env.names row.relativePath link.pathPart,
      (rows.filter fun target =>
        env.casefold target.relativePath = env.casefold name).length ≤ 1

instance (env : Env) (vault : Vault) (docs : Documents) : Decidable (Sized env vault docs) :=
  inferInstanceAs (Decidable (∀ item ∈ env.listing vault, ∀ row ∈ docs.rows,
    row.relativePath = item.relativePath → row.mtimeNs = item.mtimeNs →
      (vault.read item.relativePath).map env.contentHash = some row.contentHash →
        row.sizeBytes = item.sizeBytes))

instance (env : Env) (rows : List DocumentRow) : Decidable (Unambiguous env rows) :=
  inferInstanceAs (Decidable (∀ row ∈ rows, ∀ link ∈ row.links, link.pathPart ≠ [] →
    looksExternal link.pathPart = false → ∀ name ∈ env.names row.relativePath link.pathPart,
      (rows.filter fun target =>
        env.casefold target.relativePath = env.casefold name).length ≤ 1))

/-- The steps of a rebuild of `n` files that nothing interrupts. -/
def rebuild (full : Bool) (now : Timestamp) (n : Nat) : List Act :=
  .start full now :: (List.replicate n .file ++ [.finish])

section
variable {env : Env} {vault : Vault} {docs : Documents} {item : VaultFile} {row : DocumentRow}
  {text : Option Text} {rows rows' : List DocumentRow}

/-! ## Whole documents -/

theorem rowOf_bare (h : env.rowOf item text = some row) : row.bare = row := by
  obtain ⟨t, -, hrow⟩ := bind_eq_some_iff.mp h
  obtain ⟨parsed, -, rfl⟩ := map_eq_some_iff.mp hrow
  simp [DocumentRow.bare, Env.row]

theorem Whole.of_rowOf (h : env.rowOf item text = some row) : Whole env row := by
  obtain ⟨t, rfl, -⟩ := bind_eq_some_iff.mp h
  exact ⟨item, t, by rw [rowOf_bare h]; exact h⟩

def Documents.Whole (env : Env) (docs : Documents) : Prop :=
  ∀ row ∈ docs.rows, Knowledge.Whole env row

theorem Documents.Whole.delete (h : docs.Whole env) (path) : (docs.delete path).Whole env :=
  fun row hrow => h row (mem_filter.mp hrow).1

theorem Documents.Whole.indexFile (h : docs.Whole env) (item) (full)
    (text) : (executeAll docs (env.indexFile docs item full text)).Whole env := by
  intro row hrow
  rcases indexFile_rows env docs item full text with ⟨hsame, -⟩ | hrows
  · exact h row (hsame ▸ hrow)
  · rw [hrows, mem_append, mem_toList] at hrow
    rcases hrow with hold | hnew
    · exact h.delete item.relativePath row hold
    · exact Whole.of_rowOf hnew

theorem Documents.Whole.deleteStale (h : docs.Whole env) (paths) :
    (deleteStale docs paths).Whole env := by
  intro row hrow
  rw [deleteStale_rows] at hrow
  exact h row (mem_filter.mp hrow).1

theorem Documents.Whole.withRows (h : docs.Whole env)
    (hrows : rows.map DocumentRow.bare = docs.rows.map DocumentRow.bare) :
    (docs.withRows rows).Whole env := by
  intro row hrow
  rw [withRows_rows hrows] at hrow
  have hmem : row.bare ∈ docs.rows.map DocumentRow.bare := hrows ▸ List.mem_map_of_mem hrow
  obtain ⟨old, hold, heq⟩ := List.mem_map.mp hmem
  obtain ⟨item, text, hrow⟩ := h old hold
  exact ⟨item, text, heq ▸ hrow⟩

theorem resolveFirst_bare (env : Env) (all) (n) (rows) :
    (env.resolveFirst all n rows).map DocumentRow.bare = rows.map DocumentRow.bare := by
  induction rows generalizing n with
  | nil => rfl
  | cons row rows ih =>
    have hlink : ∀ link : LinkRow,
        { (env.resolveLink all row link).getD link with resolved := none } =
          { link with resolved := none } := by
      intro link
      cases hresolved : env.resolveLink all row link with
      | none => rfl
      | some link' =>
        obtain ⟨resolved, -, rfl⟩ := map_eq_some_iff.mp hresolved
        rfl
    rw [Env.resolveFirst, map_cons, map_cons, ih]
    congr 1
    simp only [DocumentRow.bare, map_append, List.map_map, Function.comp_def, hlink]
    rw [← map_append, take_append_drop]

/-- **Every committed document is whole**, if no exception left a part of one. -/
theorem whole_run {s acts} (hrun : Run (step env) (Clean env) (State.initial vault) acts s) :
    ∀ index ∈ s.index, index.docs.Whole env := by
  refine hrun.invariant (I := fun s => ∀ index ∈ s.index, index.docs.Whole env) ?_ ?_
  · intro s a t hinv hguard hstep
    cases a with
    | edit path file =>
      cases hstep
      exact hinv
    | start full now =>
      simp only [step] at hstep
      split at hstep
      · cases hstep
        rintro index ⟨⟩
        show (if full = true then Documents.empty else _).Whole env
        split
        · intro row hrow
          cases hrow
        · split
          · intro row hrow
            cases hrow
          · rename_i index hindex
            exact hinv index hindex
      · cases hstep
    | drop =>
      simp only [step] at hstep
      split at hstep
      · cases hstep
        rintro index ⟨⟩
      · cases hstep
    | file =>
      obtain ⟨job, hj, hstep⟩ := bind_eq_some_iff.mp hstep
      obtain ⟨index, hi, hstep⟩ := bind_eq_some_iff.mp hstep
      split at hstep
      · cases hstep
      · cases hstep
        rintro index' ⟨⟩
        exact (hinv index hi).indexFile _ _ _
    | finish =>
      obtain ⟨job, hj, hstep⟩ := bind_eq_some_iff.mp hstep
      obtain ⟨index, hi, hstep⟩ := bind_eq_some_iff.mp hstep
      split at hstep
      · obtain ⟨rows, hrows, rfl⟩ := map_eq_some_iff.mp hstep
        rintro index' ⟨⟩
        exact ((hinv index hi).deleteStale _).withRows (resolveRows_bare hrows)
      · cases hstep
    | failFile k =>
      obtain ⟨job, hj, hstep⟩ := bind_eq_some_iff.mp hstep
      obtain ⟨index, hi, hstep⟩ := bind_eq_some_iff.mp hstep
      split at hstep
      · cases hstep
      rename_i item rest htodo
      cases hstep
      rintro index' ⟨⟩
      have hclean := hguard job hj index hi item (by rw [htodo]; rfl)
      show (executeAll _ _).Whole env
      rcases hclean with heq | heq | heq
      · rw [heq]
        exact hinv index hi
      · rw [heq]
        exact (hinv index hi).delete _
      · rw [heq]
        exact (hinv index hi).indexFile _ _ _
    | failEnd k m n =>
      obtain ⟨job, hj, hstep⟩ := bind_eq_some_iff.mp hstep
      obtain ⟨index, hi, hstep⟩ := bind_eq_some_iff.mp hstep
      have hdeleted := (hinv index hi).deleteStale (job.stale.take k)
      split at hstep
      · simp only at hstep
        split at hstep
        · rename_i path hpath
          cases hstep
          rintro index' ⟨⟩
          have hclean := hguard job hj index hi path hpath
          show (executeAll _ _).Whole env
          rcases hclean with heq | heq
          · rw [heq]
            exact hdeleted
          · rw [heq]
            exact hdeleted.delete path
        · cases hstep
          rintro index' ⟨⟩
          exact hdeleted.withRows (resolveFirst_bare env _ _ _)
      · cases hstep
    | crash =>
      obtain ⟨job, -, rfl⟩ := map_eq_some_iff.mp hstep
      exact hinv
  · rintro index ⟨⟩

/-! ## The rows of a rebuild -/

theorem indexFile_path (hhash : Function.Injective env.contentHash) {full}
    (hwhole : full = false → ∀ old ∈ docs.rows, old.relativePath = item.relativePath →
      Whole env old)
    (hsized : full = false → ∀ old ∈ docs.rows, old.relativePath = item.relativePath →
      old.mtimeNs = item.mtimeNs → text.map env.contentHash = some old.contentHash →
      old.sizeBytes = item.sizeBytes) (row) :
    (∃ new ∈ (executeAll docs (env.indexFile docs item full text)).rows,
      new.relativePath = item.relativePath ∧ new.bare = row) ↔ env.rowOf item text = some row := by
  rcases indexFile_rows env docs item full text with ⟨hsame, hfull, t, rfl, huptodate⟩ | hrows
  · rw [hsame]
    obtain ⟨old, hold, hand⟩ := List.any_eq_true.mp huptodate
    simp only [Bool.and_eq_true, decide_eq_true_eq] at hand
    obtain ⟨⟨hpath, hashes⟩, htime⟩ := hand
    -- the row that is kept is the one of this file and this text
    have hrow : env.rowOf item (some t) = some old.bare := by
      obtain ⟨item', t', hrow'⟩ := hwhole hfull old hold hpath
      have hsize := hsized hfull old hold hpath htime (by rw [map_some, hashes])
      obtain ⟨parsed, hparsed, heq⟩ := map_eq_some_iff.mp hrow'
      have ht : t' = t := by
        refine hhash ?_
        rw [← hashes]
        exact congrArg DocumentRow.contentHash heq
      have hitem : item' = item := by
        cases item
        cases item'
        have h1 := congrArg DocumentRow.relativePath heq
        have h2 := congrArg DocumentRow.sizeBytes heq
        have h3 := congrArg DocumentRow.mtimeNs heq
        simp only [Env.row, DocumentRow.bare] at h1 h2 h3
        rw [VaultFile.mk.injEq]
        exact ⟨h1.trans hpath, h2.trans hsize, h3.trans htime⟩
      rw [← hitem, ← ht]
      exact hrow'
    rw [hrow]
    constructor
    · rintro ⟨new, hnew, hnewpath, rfl⟩
      rw [docs.unique hnew hold (hnewpath.trans hpath.symm)]
    · intro heq
      exact ⟨old, hold, hpath, some.inj heq⟩
  · simp only [hrows, mem_append, mem_toList]
    constructor
    · rintro ⟨new, hold | hnew, hpath, rfl⟩
      · simpa [hpath] using (mem_filter.mp hold).2
      · rw [rowOf_bare hnew]
        exact hnew
    · intro hrow
      exact ⟨row, .inr hrow, rowOf_path hrow, rowOf_bare hrow⟩

/-- What holds of a rebuild that nothing interrupts, over the documents
`before` that it started from. -/
structure Filling (env : Env) (vault : Vault) (before : Documents) (job : Job)
    (docs : Documents) : Prop where
  files : job.files = env.listing vault
  known : job.known = before.paths
  done : ∀ item ∈ job.done, ∀ row,
    (∃ new ∈ docs.rows, new.relativePath = item.relativePath ∧ new.bare = row) ↔
      env.rowOf item (vault.read item.relativePath) = some row
  kept : ∀ row, row.relativePath ∉ job.done.map VaultFile.relativePath →
    (row ∈ docs.rows ↔ row ∈ before.rows)

theorem listing_nodup (env : Env) (vault) :
    ((env.listing vault).map VaultFile.relativePath).Nodup := by
  have hfiles : (vault.files.map VaultFile.relativePath).Nodup := by
    have hkeys : vault.files.map VaultFile.relativePath = vault.keys := by
      simp [Vault.files, AList.keys, List.keys, Function.comp_def]
    rw [hkeys]
    exact vault.keys_nodup
  have hsorted := ((perm_insertionSort
    (fun a b : VaultFile => a.relativePath ≤ b.relativePath) vault.files).map
      VaultFile.relativePath).nodup_iff.mpr hfiles
  exact hsorted.sublist ((take_sublist _ _).map _)

theorem Filling.file (hhash : Function.Injective env.contentHash) {before job rest}
    (h : Filling env vault before job docs) (hwhole : job.full = false → before.Whole env)
    (hsized : job.full = false → Sized env vault before) (htodo : job.todo = item :: rest) :
    Filling env vault before { job with done := job.done ++ [item], todo := rest }
      (executeAll docs (env.indexFile docs item job.full (vault.read item.relativePath))) := by
  have hlisting : job.done ++ item :: rest = env.listing vault := htodo ▸ h.files
  have hnodup := listing_nodup env vault
  rw [← hlisting, map_append, map_cons] at hnodup
  have hfresh : item.relativePath ∉ job.done.map VaultFile.relativePath := by
    intro hmem
    exact (nodup_append.mp hnodup).2.2 _ hmem _ (.head _) rfl
  have hitem : item ∈ env.listing vault := by simp [← hlisting]
  refine ⟨?_, h.known, ?_, ?_⟩
  · simpa [Job.files] using hlisting
  · intro other hother row
    rcases mem_append.mp hother with hold | hnew
    · rw [← h.done other hold row]
      have hne : other.relativePath ≠ item.relativePath :=
        fun heq => hfresh (heq ▸ List.mem_map_of_mem hold)
      constructor
      · rintro ⟨new, hmem, hpath, hbare⟩
        exact ⟨new, (mem_indexFile_of_ne (hpath ▸ hne)).mp hmem, hpath, hbare⟩
      · rintro ⟨new, hmem, hpath, hbare⟩
        exact ⟨new, (mem_indexFile_of_ne (hpath ▸ hne)).mpr hmem, hpath, hbare⟩
    · rw [mem_singleton.mp hnew]
      have hbefore : ∀ old ∈ docs.rows, old.relativePath = item.relativePath →
          old ∈ before.rows := fun old hold hpath => (h.kept old (hpath ▸ hfresh)).mp hold
      refine indexFile_path hhash ?_ ?_ row
      · intro hfull old hold hpath
        exact hwhole hfull old (hbefore old hold hpath)
      · intro hfull old hold hpath htime hashes
        exact hsized hfull item hitem old (hbefore old hold hpath) hpath htime hashes
  · intro row hrow
    rw [map_append, mem_append, not_or] at hrow
    rw [mem_indexFile_of_ne (by simpa using hrow.2)]
    exact h.kept row hrow.1

theorem Filling.perm {before job} (h : Filling env vault before job docs) (htodo : job.todo = []) :
    ((deleteStale docs job.stale).rows.map DocumentRow.bare).Perm (env.expected vault) := by
  have hdone : job.done = env.listing vault := by
    rw [← h.files, Job.files, htodo, append_nil]
  have hlisted : job.listed = job.done.map VaultFile.relativePath := by
    simp [Job.listed, Job.files, htodo]
  have hstale : ∀ path, path ∈ job.stale ↔ path ∈ job.known ∧ path ∉ job.listed := by
    simp [Job.stale]
  have hleft : ((deleteStale docs job.stale).rows.map DocumentRow.bare).Nodup := by
    refine List.Nodup.of_map DocumentRow.relativePath ?_
    rw [List.map_map]
    exact (deleteStale docs job.stale).key
  have hright : (env.expected vault).Nodup := by
    refine List.Nodup.filterMap ?_ (listing_nodup env vault).of_map
    intro a b row ha hb
    obtain ⟨ta, -, hta⟩ := bind_eq_some_iff.mp ha
    obtain ⟨tb, -, htb⟩ := bind_eq_some_iff.mp hb
    obtain ⟨pa, -, rfl⟩ := map_eq_some_iff.mp hta
    obtain ⟨pb, -, heq⟩ := map_eq_some_iff.mp htb
    cases a
    cases b
    have h1 := congrArg DocumentRow.relativePath heq
    have h2 := congrArg DocumentRow.sizeBytes heq
    have h3 := congrArg DocumentRow.mtimeNs heq
    simp only [Env.row] at h1 h2 h3
    rw [h1, h2, h3]
  refine (perm_ext_iff_of_nodup hleft hright).mpr ?_
  intro row
  rw [Env.expected, mem_filterMap, List.mem_map, deleteStale_rows]
  constructor
  · rintro ⟨new, hnew, rfl⟩
    rw [mem_filter, decide_eq_true_eq] at hnew
    obtain ⟨hnew, hnot⟩ := hnew
    by_cases hin : new.relativePath ∈ job.done.map VaultFile.relativePath
    · obtain ⟨item, hitem, hpath⟩ := List.mem_map.mp hin
      exact ⟨item, hdone ▸ hitem, (h.done item hitem _).mp ⟨new, hnew, hpath.symm, rfl⟩⟩
    · have hold := (h.kept new hin).mp hnew
      refine absurd ((hstale _).mpr ⟨?_, hlisted ▸ hin⟩) hnot
      rw [h.known]
      exact mem_paths.mpr ⟨new, hold, rfl⟩
  · rintro ⟨item, hitem, hrow⟩
    have hitem' : item ∈ job.done := hdone ▸ hitem
    obtain ⟨new, hnew, hpath, hbare⟩ := (h.done item hitem' row).mpr hrow
    refine ⟨new, mem_filter.mpr ⟨hnew, ?_⟩, hbare⟩
    rw [decide_eq_true_eq, hstale, hlisted]
    exact fun hand => hand.2 (hpath ▸ List.mem_map_of_mem hitem')

/-! ## Links and the order of the rows -/

theorem mapM_congr_mem {α β : Type} {f g : α → Option β} {as : List α}
    (h : ∀ a ∈ as, f a = g a) : as.mapM f = as.mapM g := by
  induction as with
  | nil => rfl
  | cons a as ih =>
    rw [mapM_cons, mapM_cons, h a (.head _), ih fun b hb => h b (.tail _ hb)]

theorem mapM_perm {α β : Type} {f : α → Option β} {as as' : List α} {bs : List β}
    (hperm : as'.Perm as) (h : as.mapM f = some bs) :
    ∃ bs', as'.mapM f = some bs' ∧ bs'.Perm bs := by
  obtain ⟨bs', hall, hbs⟩ := List.perm_comp_forall₂ hperm (mapM_eq_some.mp h)
  exact ⟨bs', mapM_eq_some.mpr hall, hbs⟩

theorem byPath_bare (env : Env) (all) (key) :
    env.byPath (all.map DocumentRow.bare) key = (env.byPath all key).map DocumentRow.bare := by
  rw [Env.byPath, List.filter_map, List.getLast?_map]
  rfl

theorem resolvePath_bare (env : Env) (all) (path pathPart) :
    env.resolvePath (all.map DocumentRow.bare) path pathPart =
      (env.resolvePath all path pathPart).map DocumentRow.bare := by
  simp only [Env.resolvePath, byPath_bare]
  induction env.names path pathPart with
  | nil => rfl
  | cons name names ih =>
    cases h : env.byPath all (env.casefold name) with
    | none => simpa [h] using ih
    | some target => simp [h]

theorem resolveOne_bare (env : Env) (all source)
    (link) : env.resolveOne (all.map DocumentRow.bare) source.bare link =
      env.resolveOne all source link := by
  simp only [Env.resolveOne, bare_path, resolvePath_bare]
  cases env.resolvePath all source.relativePath link.pathPart <;> rfl

theorem resolveRow_of_bare (env : Env) (all row) :
    env.resolveRow (all.map DocumentRow.bare) row.bare = env.resolveRow all row := by
  have hlinks : row.bare.links.mapM (env.resolveLink (all.map DocumentRow.bare) row.bare) =
      row.links.mapM (env.resolveLink all row) := by
    simp only [DocumentRow.bare, List.mapM_map]
    refine mapM_congr_mem ?_
    intro link _
    exact congrArg (Option.map _) (resolveOne_bare env all row link.toRawLink)
  rw [Env.resolveRow, hlinks]
  rfl

theorem resolveLinks_of_bare (env : Env) (rows) : env.resolveLinks rows =
      (rows.map DocumentRow.bare).mapM (env.resolveRow (rows.map DocumentRow.bare)) := by
  rw [Env.resolveLinks, List.mapM_map]
  exact mapM_congr_mem fun row _ => (resolveRow_of_bare env rows row).symm

theorem eq_of_perm_of_length_le_one {α : Type} {as bs : List α} (h : as.Perm bs)
    (hlength : as.length ≤ 1) : as = bs := by
  match as with
  | [] => exact (List.Perm.nil_eq h)
  | [a] => exact (singleton_perm.mp h)
  | _ :: _ :: _ => simp at hlength

/-- Where no link has two documents to lead to, the order of the rows does not
matter. -/
theorem resolveRow_perm (h : rows.Perm rows') (hlinks : Unambiguous env rows) (hrow : row ∈ rows) :
    env.resolveRow rows row = env.resolveRow rows' row := by
  refine congrArg (Option.map _) (mapM_congr_mem ?_)
  intro link hlink
  refine congrArg (Option.map _) ?_
  unfold Env.resolveOne
  by_cases hpart : link.pathPart = []
  · rw [if_pos hpart, if_pos hpart]
  by_cases hexternal : looksExternal link.pathPart = true
  · rw [if_neg hpart, if_neg hpart, if_pos hexternal, if_pos hexternal]
  have hnames : ∀ name ∈ env.names row.relativePath link.pathPart,
      env.byPath rows (env.casefold name) = env.byPath rows' (env.casefold name) := by
    intro name hname
    have hone := hlinks row hrow link hlink hpart (by simpa using hexternal) name hname
    exact congrArg List.getLast? (eq_of_perm_of_length_le_one (h.filter _) hone)
  have hpath : env.resolvePath rows row.relativePath link.pathPart =
      env.resolvePath rows' row.relativePath link.pathPart := by
    unfold Env.resolvePath
    generalize env.names row.relativePath link.pathPart = names at hnames
    induction names with
    | nil => rfl
    | cons name names ih =>
      rw [List.findSome?_cons, List.findSome?_cons, hnames name (.head _),
        ih fun other hother => hnames other (.tail _ hother)]
  rw [hpath]

theorem resolveLinks_perm {resolved}
    (h : (rows'.map DocumentRow.bare).Perm (rows.map DocumentRow.bare))
    (hlinks : Unambiguous env (rows'.map DocumentRow.bare))
    (hresolved : env.resolveLinks rows = some resolved) :
    ∃ resolved', env.resolveLinks rows' = some resolved' ∧ resolved'.Perm resolved := by
  rw [resolveLinks_of_bare] at hresolved ⊢
  have hrows : (rows'.map DocumentRow.bare).mapM (env.resolveRow (rows'.map DocumentRow.bare)) =
      (rows'.map DocumentRow.bare).mapM (env.resolveRow (rows.map DocumentRow.bare)) :=
    mapM_congr_mem fun row hrow => resolveRow_perm h hlinks hrow
  rw [hrows]
  exact mapM_perm h hresolved

theorem Unambiguous.perm (hlinks : Unambiguous env rows)
    (h : rows'.Perm rows) : Unambiguous env rows' := by
  intro row hrow link hlink hpart hexternal name hname
  rw [(h.filter _).length_eq]
  exact hlinks row (h.mem_iff.mp hrow) link hlink hpart hexternal name hname

theorem filled_of_run (hhash : Function.Injective env.contentHash) {s t n job index before}
    (hrun : Run (step env) Free s (List.replicate n .file ++ [.finish]) t) (hjob : s.job = some job)
    (hindex : s.index = some index) (hfilling : Filling env s.vault before job index.docs)
    (hwhole : job.full = false → before.Whole env)
    (hsized : job.full = false → Sized env s.vault before) :
    ∃ rows resolved, (rows.map DocumentRow.bare).Perm (env.expected s.vault) ∧
      env.resolveLinks rows = some resolved ∧
      ∃ index', t.index = some index' ∧ index'.docs.rows = resolved := by
  induction n generalizing s job index with
  | zero =>
    obtain _ | ⟨_, fires, rest⟩ := hrun
    cases rest
    simp only [step, hjob, hindex, bind_some] at fires
    split at fires
    · rename_i htodo
      obtain ⟨resolved, hresolved, rfl⟩ := map_eq_some_iff.mp fires
      exact ⟨_, resolved, hfilling.perm htodo, hresolved, _, rfl,
        withRows_rows (resolveRows_bare hresolved)⟩
    · cases fires
  | succ n ih =>
    rw [replicate_succ, cons_append] at hrun
    obtain _ | ⟨_, fires, rest⟩ := hrun
    simp only [step, hjob, hindex, bind_some] at fires
    split at fires
    · cases fires
    · rename_i item rest' htodo
      cases fires
      have := ih rest rfl rfl (hfilling.file hhash hwhole hsized htodo) hwhole hsized
      exact this

theorem run_of_filling (hhash : Function.Injective env.contentHash)
    {s todo job index before rows resolved} (hjob : s.job = some job) (htodo : job.todo = todo)
    (hindex : s.index = some index) (hfilling : Filling env s.vault before job index.docs)
    (hwhole : job.full = false → before.Whole env)
    (hsized : job.full = false → Sized env s.vault before)
    (hrows : (rows.map DocumentRow.bare).Perm (env.expected s.vault))
    (hlinks : Unambiguous env (env.expected s.vault))
    (hresolved : env.resolveLinks rows = some resolved) :
    ∃ t, Run (step env) Free s (List.replicate todo.length .file ++ [.finish]) t := by
  induction todo generalizing s job index with
  | nil =>
    have hperm := hfilling.perm htodo
    obtain ⟨resolved', hresolved', -⟩ :=
      resolveLinks_perm (hperm.trans hrows.symm) (hlinks.perm hperm) hresolved
    refine ⟨s.finish env job (deleteStale index.docs job.stale) resolved',
      .cons trivial ?_ (.nil _)⟩
    simp [step, hjob, hindex, htodo, hresolved']
  | cons item rest ih =>
    have hnext := hfilling.file hhash hwhole hsized htodo
    have hrest := @ih (s.indexFile env job index item rest) _ _ rfl rfl rfl hnext hwhole hsized
      hrows hlinks
    obtain ⟨t, hrun⟩ := hrest
    refine ⟨t, ?_⟩
    rw [length_cons, replicate_succ, cons_append]
    refine .cons trivial ?_ hrun
    simp [step, hjob, hindex, htodo]

theorem Filling.start (env) (vault) (docs) (full) (now) : Filling env vault docs
      { full := full, stamp := now, known := docs.paths, done := [], todo := env.listing vault }
      docs where
  files := rfl
  known := rfl
  done item hitem := by cases hitem
  kept row _ := Iff.rfl

/-- **An incremental rebuild is a full one**, after every history of edits,
rebuilds and failures that left every document whole: the same documents with
the same links, and the same graph. -/
theorem incremental_full (env : Env) (hhash : Function.Injective env.contentHash)
    {first : Vault} {s t : State} {acts : List Act} {n : Nat} {now : Timestamp}
    (hrun : Run (step env) (Clean env) (State.initial first) acts s)
    (hlast : Run (step env) Free s (rebuild false now n) t)
    (hsized : ∀ index ∈ s.index, Sized env s.vault index.docs)
    (hlinks : Unambiguous env (env.expected s.vault)) (now' : Timestamp) :
    ∃ u index index', Run (step env) Free (State.initial s.vault)
        (rebuild true now' (env.listing s.vault).length) u ∧
      t.index = some index ∧ u.index = some index' ∧ index.docs.rows.Perm index'.docs.rows ∧
      env.graph index.docs.rows = env.graph index'.docs.rows := by
  obtain _ | ⟨_, fires, hrest⟩ := hlast
  simp only [step] at fires
  split at fires
  · cases fires
    -- the incremental rebuild
    have hbefore : ∀ index ∈ (s.start env false now).index,
        index.docs.Whole env ∧ Sized env s.vault index.docs := by
      intro index hindex
      cases hindex
      cases hold : s.index with
      | none => refine ⟨fun row hrow => ?_, fun item hitem row hrow => ?_⟩ <;> cases hrow
      | some index => exact ⟨whole_run hrun index hold, hsized index hold⟩
    obtain ⟨rows, resolved, hperm, hresolved, index, hindex, hrows⟩ :=
      filled_of_run hhash hrest rfl rfl (Filling.start env s.vault _ false now)
        (fun _ => (hbefore _ rfl).1) (fun _ => (hbefore _ rfl).2)
    -- the full one
    have hstart := Filling.start env s.vault Documents.empty true now'
    obtain ⟨u, hfull⟩ :=
      @run_of_filling env hhash ((State.initial s.vault).start env true now') _ _ _ _ _ _ rfl rfl
        rfl hstart (fun h => by cases h) (fun h => by cases h) hperm hlinks hresolved
    obtain ⟨rows', resolved', hperm', hresolved', index', hindex', hrows'⟩ :=
      @filled_of_run env hhash ((State.initial s.vault).start env true now') _ _ _ _ _ hfull rfl
        rfl hstart (fun h => by cases h) (fun h => by cases h)
    obtain ⟨again, hagain, hsame⟩ :=
      resolveLinks_perm (hperm'.trans hperm.symm) (hlinks.perm hperm') hresolved
    rw [hresolved', Option.some.injEq] at hagain
    subst hagain
    have hdocs : index.docs.rows.Perm index'.docs.rows := by
      rw [hrows, hrows']
      exact hsame.symm
    exact ⟨u, index, index', .cons trivial rfl hfull, hindex, hindex', hdocs,
      graph_perm hdocs index.docs.key⟩
  · cases fires

end

def note (text : String) : File :=
  { text := some text.toList, sizeBytes := text.length, mtimeNs := 1 }

def linkedNotes : Vault :=
  (AList.singleton "a.md".toList (note "x")).insert "l.md".toList (note "[[a.md]]")

/-- The notes are indexed, and another one is written. -/
def afterNewNote (path : String) : State :=
  (execWithin (step Env.sample) Free (State.initial linkedNotes)
    (rebuild true 0 2 ++ [.edit path.toList (some (note "y"))])).getD (State.initial linkedNotes)

def afterIncremental (path : String) : State :=
  (execWithin (step Env.sample) Free (afterNewNote path) (rebuild false 1 3)).getD
    (afterNewNote path)

/-- The new note has a path of its own. -/
theorem incremental_full_afterNewNote :
    ∃ u index index', Run (step Env.sample) Free (State.initial (afterNewNote "b.md").vault)
        (rebuild true 2 (Env.sample.listing (afterNewNote "b.md").vault).length) u ∧
      (afterIncremental "b.md").index = some index ∧ u.index = some index' ∧
      index.docs.rows.Perm index'.docs.rows ∧
      Env.sample.graph index.docs.rows = Env.sample.graph index'.docs.rows := by
  have hrun : Run (step Env.sample) Free (State.initial linkedNotes)
      (rebuild true 0 2 ++ [.edit "b.md".toList (some (note "y"))]) (afterNewNote "b.md") :=
    Run.of_isSome_execWithin (by decide +kernel)
  have hclean := hrun.of_forall (H := Clean Env.sample) (by
    intro a ha s
    simp only [rebuild, List.replicate, cons_append, nil_append, mem_cons,
      not_mem_nil, or_false] at ha
    rcases ha with rfl | rfl | rfl | rfl | rfl <;> trivial)
  exact incremental_full Env.sample Function.injective_id hclean
    (Run.of_isSome_execWithin (by decide +kernel)) (by decide +kernel) (by decide +kernel) 2

/-- The paths of the documents, with where their links lead to. -/
def targets (rows : List DocumentRow) : List (Path × List (Option Text)) :=
  rows.map fun row =>
    (row.relativePath, row.links.map fun link => link.resolved.map ResolvedLink.uri)

/-- **Where two paths differ by case only**, an incremental rebuild resolves a
link to the one that was written last, a full one to the last of the paths. -/
theorem incremental_differs :
    ¬ ∀ (env : Env), Function.Injective env.contentHash → ∀ (first : Vault) (s t : State)
      (acts : List Act) (n : Nat) (now now' : Timestamp),
      Run (step env) Free (State.initial first) acts s →
      Run (step env) Free s (rebuild false now n) t →
      ∃ u index index', Run (step env) Free (State.initial s.vault)
          (rebuild true now' (env.listing s.vault).length) u ∧
        t.index = some index ∧ u.index = some index' ∧ index.docs.rows.Perm index'.docs.rows ∧
        env.graph index.docs.rows = env.graph index'.docs.rows := by
  intro h
  have hrun : Run (step Env.sample) Free (State.initial linkedNotes) _ (afterNewNote "A.md") :=
    Run.of_isSome_execWithin (by decide +kernel)
  have hlast : Run (step Env.sample) Free (afterNewNote "A.md") (rebuild false 1 3)
      (afterIncremental "A.md") :=
    Run.of_isSome_execWithin (by decide +kernel)
  obtain ⟨u, index, index', hfull, hindex, hindex', hperm, -⟩ :=
    h Env.sample Function.injective_id linkedNotes _ _ _ _ _ 2 hrun hlast
  have hincremental :
      (afterIncremental "A.md").index.map (fun index => targets index.docs.rows) = some
        [("a.md".toList, []), ("l.md".toList, [some (Env.sample.uri "A.md".toList)]),
          ("A.md".toList, [])] := by decide +kernel
  have hrebuilt : (execWithin (step Env.sample) Free (State.initial (afterNewNote "A.md").vault)
      (rebuild true 2 (Env.sample.listing (afterNewNote "A.md").vault).length)).map
        (fun u => u.index.map fun index => targets index.docs.rows) = some (some
      [("A.md".toList, []), ("a.md".toList, []),
        ("l.md".toList, [some (Env.sample.uri "a.md".toList)])]) := by decide +kernel
  rw [hfull.execWithin_eq, map_some, hindex', map_some, Option.some.injEq,
    Option.some.injEq] at hrebuilt
  rw [hindex, map_some, Option.some.injEq] at hincremental
  have hsame : (targets index.docs.rows).Perm (targets index'.docs.rows) := hperm.map _
  rw [hincremental, hrebuilt] at hsame
  exact absurd hsame (by decide +kernel)

end StudioOS.Knowledge
