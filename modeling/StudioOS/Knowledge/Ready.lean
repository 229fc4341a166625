import Mathlib.Logic.Equiv.List
import StudioOS.Knowledge.Rows
import StudioOS.Library.Runs

/-!
# Knowledge — Ready

A READY index has the documents of the vault as it is (`ready_matches`), in
every run in which no file is edited between the moment a rebuild reads it and
the fingerprint at the end of that rebuild.
-/

namespace StudioOS.Knowledge

open List Option Runs

/-- Every document has the hash of its file, and every file of the listing
that is Markdown has a document. -/
structure Matches (env : Env) (vault : Vault) (docs : Documents) : Prop where
  hash : ∀ row ∈ docs.rows, ∃ text, vault.read row.relativePath = some text ∧
    row.contentHash = env.contentHash text
  indexed : ∀ item ∈ env.listing vault, ∀ text, vault.read item.relativePath = some text →
    (env.parsed item.relativePath text).isSome = true → item.relativePath ∈ docs.paths

/-- The same of one path. -/
structure MatchesAt (env : Env) (vault : Vault) (docs : Documents) (path : Path) : Prop where
  hash : ∀ row ∈ docs.rows, row.relativePath = path → ∃ text, vault.read path = some text ∧
    row.contentHash = env.contentHash text
  indexed : ∀ text, vault.read path = some text → (env.parsed path text).isSome = true →
    path ∈ docs.paths

/-- What a file has is a function of its path, its size and its time. -/
def Vault.Dated (content : VaultFile → Option Text) (vault : Vault) : Prop :=
  ∀ path file, vault.lookup path = some file →
    file.text = content
      { relativePath := path, sizeBytes := file.sizeBytes, mtimeNs := file.mtimeNs }

/-- An edit that keeps the files dated. -/
def Dates (content : VaultFile → Option Text) : Act → Prop
  | .edit path file => ∀ f ∈ file, f.text = content
      { relativePath := path, sizeBytes := f.sizeBytes, mtimeNs := f.mtimeNs }
  | _ => True

/-- An edit that, during a rebuild, leaves alone what the rebuild has read and
adds no file to the first `max_documents` that the rebuild has not listed. -/
def Unread (env : Env) (s : State) : Act → Prop
  | .edit path file => ∀ job ∈ s.job, path ∉ job.done.map VaultFile.relativePath ∧
      ∀ item ∈ env.listing (s.vault.edit path file), item.relativePath ∈ job.listed
  | _ => True

/-- The condition on the steps of a run. -/
def Timely (env : Env) (content : VaultFile → Option Text) (s : State) (a : Act) : Prop :=
  Dates content a ∧ Unread env s a

section
variable {env : Env} {content : VaultFile → Option Text} {vault other : Vault} {docs : Documents}
  {path : Path} {item : VaultFile}

/-! ## Walks -/

theorem lookup_edit (vault : Vault) (path) (file) : (vault.edit path file).lookup path = file := by
  cases file with
  | none => exact AList.lookup_erase path vault
  | some file => exact AList.lookup_insert vault

theorem lookup_edit_ne {q} (h : q ≠ path) (file) :
    (vault.edit path file).lookup q = vault.lookup q := by
  cases file with
  | none => exact AList.lookup_erase_ne h
  | some file => exact AList.lookup_insert_ne h

theorem read_edit_ne {q} (h : q ≠ path) (file) : (vault.edit path file).read q = vault.read q := by
  rw [Vault.read, lookup_edit_ne h]
  rfl

theorem Vault.Dated.edit (hvault : vault.Dated content) {file} (hfile : ∀ f ∈ file, f.text = content
      { relativePath := path, sizeBytes := f.sizeBytes, mtimeNs := f.mtimeNs }) :
    (vault.edit path file).Dated content := by
  intro q f hf
  by_cases hq : q = path
  · subst hq
    rw [lookup_edit] at hf
    exact hfile f hf
  · rw [lookup_edit_ne hq] at hf
    exact hvault q f hf

theorem mem_iterMarkdown : item ∈ vault.iterMarkdown ↔
    ∃ file, vault.lookup item.relativePath = some file ∧ item.sizeBytes = file.sizeBytes ∧
      item.mtimeNs = file.mtimeNs := by
  rw [Vault.iterMarkdown, mem_insertionSort, Vault.files, List.mem_map]
  constructor
  · rintro ⟨⟨path, file⟩, hmem, rfl⟩
    exact ⟨file, AList.mem_lookup_iff.mpr hmem, rfl, rfl⟩
  · rintro ⟨file, hfile, hsize, htime⟩
    refine ⟨⟨item.relativePath, file⟩, AList.mem_lookup_iff.mp hfile, ?_⟩
    rw [← hsize, ← htime]

theorem read_eq_of_iterMarkdown (hvault : vault.Dated content) (hother : other.Dated content)
    (h : vault.iterMarkdown = other.iterMarkdown) (path) :
    vault.read path = other.read path := by
  have half : ∀ a b : Vault, a.Dated content → b.Dated content →
      a.iterMarkdown = b.iterMarkdown → ∀ text, a.read path = some text →
        b.read path = some text := by
    intro a b ha hb heq text htext
    obtain ⟨file, hfile, hread⟩ := bind_eq_some_iff.mp htext
    have hmem : { relativePath := path, sizeBytes := file.sizeBytes, mtimeNs := file.mtimeNs } ∈
        b.iterMarkdown := heq ▸ mem_iterMarkdown.mpr ⟨file, hfile, rfl, rfl⟩
    obtain ⟨file', hfile', hsize, htime⟩ := mem_iterMarkdown.mp hmem
    have htext' : file'.text = some text := by
      rw [hb path file' hfile', ← hread, ha path file hfile]
      rw [← hsize, ← htime]
    exact bind_eq_some_iff.mpr ⟨file', hfile', htext'⟩
  refine Option.ext fun text => ⟨half vault other hvault hother h text, ?_⟩
  exact half other vault hother hvault h.symm text

theorem Matches.congr (h : Matches env vault docs) (hwalk : other.iterMarkdown = vault.iterMarkdown)
    (hread : ∀ path, other.read path = vault.read path) : Matches env other docs where
  hash row hrow := by
    obtain ⟨text, htext, heq⟩ := h.hash row hrow
    exact ⟨text, (hread _).trans htext, heq⟩
  indexed item hitem text htext := by
    rw [hread] at htext
    rw [Env.listing, hwalk] at hitem
    exact h.indexed item hitem text htext

theorem mem_indexFile_of_ne {full text row} (h : row.relativePath ≠ item.relativePath) :
    row ∈ (executeAll docs (env.indexFile docs item full text)).rows ↔ row ∈ docs.rows := by
  rcases indexFile_rows env docs item full text with ⟨hsame, -, -⟩ | hrows
  · rw [hsame]
  rw [hrows, mem_append, Documents.delete, mem_filter, mem_toList]
  constructor
  · rintro (⟨hmem, -⟩ | hnew)
    · exact hmem
    · exact absurd (rowOf_path hnew) h
  · intro hmem
    exact .inl ⟨hmem, by simpa using h⟩

theorem MatchesAt.congr {docs'} (h : MatchesAt env vault docs path)
    (hread : other.read path = vault.read path)
    (hrows : ∀ row, row.relativePath = path → (row ∈ docs'.rows ↔ row ∈ docs.rows)) :
    MatchesAt env other docs' path where
  hash row hrow hpath := by
    rw [hread]
    exact h.hash row ((hrows row hpath).mp hrow) hpath
  indexed text htext hparsed := by
    rw [hread] at htext
    obtain ⟨row, hrow, hpath⟩ := mem_paths.mp (h.indexed text htext hparsed)
    exact mem_paths.mpr ⟨row, (hrows row hpath).mpr hrow, hpath⟩

theorem matchesAt_indexFile (env) (vault) (docs item) (full) : MatchesAt env vault
      (executeAll docs (env.indexFile docs item full (vault.read item.relativePath)))
      item.relativePath := by
  rcases indexFile_rows env docs item full (vault.read item.relativePath) with
    ⟨hsame, -, text, htext, huptodate⟩ | hrows
  · obtain ⟨old, hold, hand⟩ := List.any_eq_true.mp huptodate
    simp only [Bool.and_eq_true, decide_eq_true_eq] at hand
    obtain ⟨⟨hpath, hhash⟩, -⟩ := hand
    rw [hsame]
    refine ⟨fun row hrow hrowpath => ⟨text, htext, ?_⟩, fun _ _ _ => ?_⟩
    · rw [docs.unique hrow hold (hrowpath.trans hpath.symm), hhash]
    · exact mem_paths.mpr ⟨old, hold, hpath⟩
  constructor
  · intro row hrow hpath
    rw [hrows, mem_append, Documents.delete, mem_filter, mem_toList] at hrow
    rcases hrow with ⟨-, hne⟩ | hnew
    · exact absurd hpath (by simpa using hne)
    · obtain ⟨text, htext, hrow⟩ := bind_eq_some_iff.mp hnew
      obtain ⟨parsed, -, rfl⟩ := map_eq_some_iff.mp hrow
      exact ⟨text, htext, rfl⟩
  · intro text htext hparsed
    obtain ⟨parsed, hparsed⟩ := isSome_iff_exists.mp hparsed
    have hrow : env.rowOf item (vault.read item.relativePath) =
        some (env.row item text parsed) := by
      rw [htext]
      show (env.parsed item.relativePath text).map _ = _
      rw [hparsed]
      rfl
    refine mem_paths.mpr ⟨env.row item text parsed, ?_, rfl⟩
    rw [hrows, hrow]
    simp

/-- What holds of a rebuild that is under way. -/
structure Scanning (env : Env) (vault : Vault) (job : Job) (docs : Documents) : Prop where
  listed : ∀ item ∈ env.listing vault, item.relativePath ∈ job.listed
  read : ∀ path ∈ job.done.map VaultFile.relativePath, MatchesAt env vault docs path
  known : ∀ path ∈ docs.paths, path ∈ job.known ∨ path ∈ job.listed

theorem Scanning.file {job rest} (h : Scanning env vault job docs)
    (htodo : job.todo = item :: rest) :
    Scanning env vault { job with done := job.done ++ [item], todo := rest }
      (executeAll docs
        (env.indexFile docs item job.full (vault.read item.relativePath))) := by
  have hlisted : ({ job with done := job.done ++ [item], todo := rest } : Job).listed =
      job.listed := by
    simp [Job.listed, Job.files, htodo]
  refine ⟨?_, ?_, ?_⟩
  · rw [hlisted]
    exact h.listed
  · intro path hpath
    by_cases hitem : path = item.relativePath
    · subst hitem
      exact matchesAt_indexFile env vault docs item job.full
    · have hdone : path ∈ job.done.map VaultFile.relativePath := by
        simpa [hitem] using hpath
      refine (h.read path hdone).congr rfl ?_
      intro row hrow
      exact mem_indexFile_of_ne (hrow ▸ hitem)
  · intro path hpath
    rw [hlisted]
    obtain ⟨row, hrow, hrowpath⟩ := mem_paths.mp hpath
    by_cases hitem : path = item.relativePath
    · right
      rw [hitem]
      exact List.mem_map_of_mem (by simp [Job.files, htodo])
    · rw [mem_indexFile_of_ne (hrowpath ▸ hitem)] at hrow
      exact h.known path (mem_paths.mpr ⟨row, hrow, hrowpath⟩)

theorem Scanning.finish {job rows} (h : Scanning env vault job docs) (htodo : job.todo = [])
    (hrows : env.resolveLinks (deleteStale docs job.stale).rows = some rows) :
    Matches env vault ((deleteStale docs job.stale).withRows rows) := by
  have hbare := resolveRows_bare hrows
  have hmem : ∀ path hash, (∃ row ∈ rows, row.relativePath = path ∧ row.contentHash = hash) ↔
      ∃ row ∈ docs.rows, path ∉ job.stale ∧ row.relativePath = path ∧ row.contentHash = hash := by
    intro path hash
    have hmap := @map_of_bare _ _ _ (fun row => (row.relativePath, row.contentHash))
      (fun _ => rfl) hbare
    have := congrArg ((path, hash) ∈ ·) hmap
    simp only [List.mem_map, Prod.mk.injEq, deleteStale_rows, mem_filter,
      decide_eq_true_eq, eq_iff_iff] at this
    rw [this]
    constructor
    · rintro ⟨row, ⟨hrow, hstale⟩, hpath, hhash⟩
      exact ⟨row, hrow, hpath ▸ hstale, hpath, hhash⟩
    · rintro ⟨row, hrow, hstale, hpath, hhash⟩
      exact ⟨row, ⟨hrow, hpath ▸ hstale⟩, hpath, hhash⟩
  have hdone : job.listed = job.done.map VaultFile.relativePath := by
    simp [Job.listed, Job.files, htodo]
  have hstale : ∀ path, path ∈ job.stale ↔ path ∈ job.known ∧ path ∉ job.listed := by
    simp [Job.stale]
  refine ⟨?_, ?_⟩
  · intro row hrow
    rw [withRows_rows hbare] at hrow
    obtain ⟨old, hold, hnot, hpath, hhash⟩ := (hmem _ _).mp ⟨row, hrow, rfl, rfl⟩
    have hlisted : row.relativePath ∈ job.listed := by
      rcases h.known _ (mem_paths.mpr ⟨old, hold, hpath⟩) with hknown | hlisted
      · by_contra hout
        exact hnot ((hstale _).mpr ⟨hknown, hout⟩)
      · exact hlisted
    rw [← hhash]
    exact (h.read _ (hdone ▸ hlisted)).hash old hold hpath
  · intro item hitem text htext hparsed
    have hlisted := h.listed item hitem
    obtain ⟨old, hold, hpath⟩ :=
      mem_paths.mp ((h.read _ (hdone ▸ hlisted)).indexed text htext hparsed)
    obtain ⟨row, hrow, hrowpath, -⟩ := (hmem item.relativePath old.contentHash).mpr
      ⟨old, hold, fun hin => ((hstale _).mp hin).2 hlisted, hpath, rfl⟩
    rw [mem_paths, withRows_rows hbare]
    exact ⟨row, hrow, hrowpath⟩

theorem Scanning.edit {job file} (h : Scanning env vault job docs)
    (hread : path ∉ job.done.map VaultFile.relativePath)
    (hlisted : ∀ item ∈ env.listing (vault.edit path file), item.relativePath ∈ job.listed) :
    Scanning env (vault.edit path file) job docs where
  listed := hlisted
  read q hq := by
    refine (h.read q hq).congr (read_edit_ne ?_ file) fun _ _ => Iff.rfl
    intro heq
    exact hread (heq ▸ hq)
  known := h.known

theorem Scanning.start {full now} : Scanning env vault
      { full := full, stamp := now, known := docs.paths, done := [], todo := env.listing vault }
      docs where
  listed item hitem := by
    simp only [Job.listed, Job.files, nil_append]
    exact List.mem_map_of_mem hitem
  read path hpath := by simp at hpath
  known path hpath := .inl hpath

/-! ## Runs -/

/-- What holds in every state. -/
structure State.Inv (env : Env) (content : VaultFile → Option Text) (s : State) : Prop where
  dated : s.vault.Dated content
  built : ∀ index, s.index = some index → index.info.builtAt ≠ none →
    ∃ vault : Vault, vault.Dated content ∧
      index.info.sourceFingerprint = some (env.fingerprint vault.iterMarkdown) ∧
      Matches env vault index.docs
  scanning : ∀ job, s.job = some job → ∀ index, s.index = some index →
    index.info.builtAt = none ∧ Scanning env s.vault job index.docs

theorem State.Inv.initial (hvault : vault.Dated content) :
    (State.initial vault).Inv env content where
  dated := hvault
  built index h := by cases h
  scanning job h := by cases h

theorem State.Inv.quiet {s t : State} (h : s.Inv env content) (hvault : t.vault = s.vault)
    (hindex : ∀ index, t.index = some index → s.index = some index ∨ index.info.builtAt = none)
    (hjob : t.job = none) : t.Inv env content where
  dated := hvault ▸ h.dated
  built index hi hbuilt := by
    rcases hindex index hi with hold | hnone
    · exact h.built index hold hbuilt
    · exact absurd hnone hbuilt
  scanning job hj := by rw [hjob] at hj; cases hj

theorem State.Inv.step {s t a} (h : s.Inv env content) (hguard : Timely env content s a)
    (hstep : step env s a = some t) : t.Inv env content := by
  cases a with
  | edit path file =>
    cases hstep
    refine ⟨h.dated.edit hguard.1, h.built, ?_⟩
    intro job hj index hi
    obtain ⟨hnone, hscan⟩ := h.scanning job hj index hi
    obtain ⟨hread, hlisted⟩ := hguard.2 job hj
    exact ⟨hnone, hscan.edit hread hlisted⟩
  | start full now =>
    simp only [Knowledge.step] at hstep
    split at hstep
    · cases hstep
      refine ⟨h.dated, ?_, ?_⟩
      · rintro index hi hbuilt
        cases hi
        exact absurd rfl hbuilt
      · rintro job hj index hi
        cases hj
        cases hi
        exact ⟨rfl, Scanning.start⟩
    · cases hstep
  | drop =>
    simp only [Knowledge.step] at hstep
    split at hstep
    · rename_i hjob
      cases hstep
      exact h.quiet rfl (fun index hi => by cases hi) (isNone_iff_eq_none.mp hjob)
    · cases hstep
  | file =>
    obtain ⟨job, hj, hstep⟩ := bind_eq_some_iff.mp hstep
    obtain ⟨index, hi, hstep⟩ := bind_eq_some_iff.mp hstep
    obtain ⟨hnone, hscan⟩ := h.scanning job hj index hi
    split at hstep
    · cases hstep
    rename_i item rest htodo
    cases hstep
    refine ⟨h.dated, ?_, ?_⟩
    · rintro index' hi' hbuilt
      cases hi'
      exact absurd hnone hbuilt
    · rintro job' hj' index' hi'
      cases hj'
      cases hi'
      exact ⟨hnone, hscan.file htodo⟩
  | finish =>
    obtain ⟨job, hj, hstep⟩ := bind_eq_some_iff.mp hstep
    obtain ⟨index, hi, hstep⟩ := bind_eq_some_iff.mp hstep
    obtain ⟨hnone, hscan⟩ := h.scanning job hj index hi
    split at hstep
    · rename_i htodo
      obtain ⟨rows, hrows, rfl⟩ := map_eq_some_iff.mp hstep
      refine ⟨h.dated, ?_, ?_⟩
      · rintro index' hi' hbuilt
        cases hi'
        exact ⟨s.vault, h.dated, rfl, hscan.finish htodo hrows⟩
      · rintro job' hj'
        cases hj'
    · cases hstep
  | failFile k =>
    obtain ⟨job, hj, hstep⟩ := bind_eq_some_iff.mp hstep
    obtain ⟨index, hi, hstep⟩ := bind_eq_some_iff.mp hstep
    have hnone := (h.scanning job hj index hi).1
    split at hstep
    · cases hstep
    · cases hstep
      exact h.quiet rfl (fun index' hi' => by cases hi'; exact .inr hnone) rfl
  | failEnd k m n =>
    obtain ⟨job, hj, hstep⟩ := bind_eq_some_iff.mp hstep
    obtain ⟨index, hi, hstep⟩ := bind_eq_some_iff.mp hstep
    have hnone := (h.scanning job hj index hi).1
    split at hstep
    · simp only at hstep
      split at hstep <;> cases hstep <;>
        exact h.quiet rfl (fun index' hi' => by cases hi'; exact .inr hnone) rfl
    · cases hstep
  | crash =>
    obtain ⟨job, -, rfl⟩ := map_eq_some_iff.mp hstep
    exact h.quiet rfl (fun index hi => .inl hi) rfl

/-- **A READY index matches the vault**, in every run whose edits leave alone
what the rebuild under way has read. -/
theorem ready_matches (env : Env) (hfingerprint : Function.Injective env.fingerprint)
    (content : VaultFile → Option Text) (vault : Vault) (hvault : vault.Dated content)
    {s : State} {acts : List Act}
    (hrun : Run (step env) (Timely env content) (State.initial vault) acts s) {index : Index}
    (hindex : s.index = some index) (hready : env.snapshot s.vault s.index = .ready) :
    Matches env s.vault index.docs := by
  have hinv : s.Inv env content :=
    hrun.invariant (fun h hguard hstep => h.step hguard hstep) (State.Inv.initial hvault)
  rw [hindex] at hready
  simp only [Env.snapshot] at hready
  split at hready
  · cases hready
  split at hready
  · cases hready
  rename_i hbuilt
  split at hready
  · rename_i hfresh
    obtain ⟨old, hold, hstored, hmatches⟩ := hinv.built index hindex hbuilt
    rw [hstored, Option.some.injEq] at hfresh
    have hwalk := hfingerprint hfresh
    exact hmatches.congr hwalk.symm (read_eq_of_iterMarkdown hinv.dated hold hwalk.symm)
  · cases hready

end

/-! ## A vault of one file -/

/-- Digests that never collide, and documents of one line: a wikilink, a
heading or neither. -/
def Env.sample : Env where
  workspaceId := "8c5b7a10-2f3d-4e6f-9a1b-0c2d4e6f8a1b".toList
  maxDocuments := 5000
  positive := by decide
  casefold := List.map Char.toLower
  lower := List.map Char.toLower
  isDigit text := text ≠ [] && text.all Char.isDigit
  int text := some (text.foldl (fun n c => n * 10 + (c.toNat - '0'.toNat)) 0)
  digest := id
  contentHash := id
  fingerprint files := Encodable.encode (files.map fun item =>
    (item.relativePath.map Char.toNat, item.sizeBytes, item.mtimeNs))
  parse path text := some
    { title := path
      body := text
      headings :=
        match text with
        | '#' :: ' ' :: rest => [{ level := 1, text := rest, line := 1, slug := rest }]
        | _ => []
      links :=
        match text with
        | '[' :: '[' :: rest =>
          [{ kind := .wikilink, target := rest.takeWhile (· ≠ ']'), embed := false }]
        | _ => []
      tags := [] }

theorem Env.sample_fingerprint : Function.Injective Env.sample.fingerprint := by
  intro a b h
  refine map_injective_iff.mpr ?_ (Encodable.encode_injective h)
  rintro ⟨path, size, time⟩ ⟨path', size', time'⟩ heq
  simp only [Prod.mk.injEq] at heq
  obtain ⟨hpath, rfl, rfl⟩ := heq
  have hchars : path = path' := map_injective_iff.mpr (fun c d hcd => Char.toNat_inj.mp hcd) hpath
  rw [hchars]

def oldNote : File := { text := some "old".toList, sizeBytes := 3, mtimeNs := 1 }

def newNote : File := { text := some "newer".toList, sizeBytes := 5, mtimeNs := 2 }

def oneNote : Vault := AList.singleton "a.md".toList oldNote

/-- What the note has, by its size. -/
def noteContent (item : VaultFile) : Option Text :=
  if item.sizeBytes = 3 then some "old".toList else some "newer".toList

theorem oneNote_dated : oneNote.Dated noteContent := by
  intro path file hfile
  have hmem := AList.mem_lookup_iff.mp hfile
  obtain ⟨rfl, hfile⟩ := Sigma.mk.inj (mem_singleton.mp hmem)
  cases hfile
  rfl

def noteRow (text : Text) (sizeBytes : Nat) : DocumentRow where
  relativePath := "a.md".toList
  title := "a.md".toList
  contentHash := text
  sizeBytes := sizeBytes
  mtimeNs := 1
  body := text
  headings := []
  links := []
  tags := []

/-- The note is edited and the index built, with the row. -/
def builtWith (row : DocumentRow) : State :=
  let vault := oneNote.edit "a.md".toList (some newNote)
  { vault := vault
    index := some
      { info :=
          { indexing := false
            progressPercent := none
            builtAt := some 0
            sourceFingerprint := some (Env.sample.fingerprint vault.iterMarkdown) }
        docs := { rows := [row], key := nodup_singleton _ } }
    job := none }

/-- The note is edited before the rebuild reads it. -/
theorem ready_matches_oneNote : ∃ index, (builtWith (noteRow "newer".toList 3)).index = some index ∧
      Matches Env.sample (builtWith (noteRow "newer".toList 3)).vault index.docs := by
  have hrun : Run (step Env.sample) (Timely Env.sample noteContent) (State.initial oneNote)
      [.start true 0, .edit "a.md".toList (some newNote), .file, .finish]
      (builtWith (noteRow "newer".toList 3)) := by
    refine .cons ⟨trivial, trivial⟩ rfl ?_
    refine .cons ⟨?_, ?_⟩ rfl ?_
    · rintro f ⟨⟩
      rfl
    · rintro job ⟨⟩
      decide
    · refine .cons ⟨trivial, trivial⟩ rfl ?_
      exact .cons ⟨trivial, trivial⟩ rfl (.nil _)
  exact ⟨_, rfl, ready_matches Env.sample Env.sample_fingerprint noteContent oneNote
    oneNote_dated hrun rfl (by simp [builtWith, Env.snapshot])⟩

/-- **An edit between the read and the fingerprint stays unseen**: the index is
READY with the text of before. -/
theorem rebuild_outdated :
    ¬ ∀ (env : Env), Function.Injective env.fingerprint → ∀ (content : VaultFile → Option Text)
      (vault : Vault), vault.Dated content → ∀ (s : State) (acts : List Act),
      Run (step env) (fun _ a => Dates content a) (State.initial vault) acts s →
      ∀ index, s.index = some index → env.snapshot s.vault s.index = .ready →
        Matches env s.vault index.docs := by
  intro h
  have hrun : Run (step Env.sample) (fun _ a => Dates noteContent a) (State.initial oneNote)
      [.start true 0, .file, .edit "a.md".toList (some newNote), .finish]
      (builtWith (noteRow "old".toList 3)) := by
    refine .cons trivial rfl (.cons trivial rfl (.cons ?_ rfl (.cons trivial rfl (.nil _))))
    rintro f ⟨⟩
    rfl
  have hmatches := h Env.sample Env.sample_fingerprint noteContent oneNote oneNote_dated _ _ hrun
    _ rfl (by simp [builtWith, Env.snapshot])
  obtain ⟨text, htext, hhash⟩ := hmatches.hash _ (mem_singleton_self _)
  have hnew : (some "newer".toList : Option Text) = some text := htext
  cases hnew
  exact absurd hhash (by decide)

end StudioOS.Knowledge
