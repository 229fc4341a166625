import Mathlib.Data.Char
import Mathlib.Data.List.Dedup
import Mathlib.Data.List.Lex
import StudioOS.Authz
import StudioOS.ServerMirror.Model

/-!
# Server mirror — Scope

`ScopePolicy` over a vault of files. What is exposed is decided on the text
of a path, trimmed and with its backslashes turned, so a name with a blank
at its end or a backslash is read as another one.
-/

namespace StudioOS.ServerMirror

open List

/-- The names of a path below `/`. -/
abbrev Names := List Text

/-- A name of a directory entry. -/
def IsName (name : Text) : Prop := name ≠ [] ∧ name ≠ ['.'] ∧ '/' ∉ name

instance decidableIsName (name : Text) : Decidable (IsName name) :=
  inferInstanceAs (Decidable (_ ∧ _ ∧ _))

/-- What `Path.resolve` raises. -/
inductive ResolveError where
  | osError
  | other

/-- The vault: links are what `resolve` follows. -/
structure VaultTree where
  vaultRoot : Names
  resolve : Names → Except ResolveError Names
  isDir : Names → Bool
  isFile : Names → Bool
  rglob : Names → Text → List Names
  canonical : ∀ path target, resolve path = .ok target → ∀ name ∈ target, IsName name

inductive ScopeError where
  | outOfScope
  | raised (error : ResolveError)

/-- `Path(requested).is_absolute()` -/
def isAbsolute (requested : Text) : Bool := requested.head? = some '/'

/-- The parts of a relative path. -/
def partsOf (requested : Text) : Names :=
  (requested.splitOn '/').filter fun part => part ≠ [] && part ≠ ['.']

def asPosix (names : Names) : Text := if names = [] then ['.'] else ['/'].intercalate names

def relativeTo (root path : Names) : Names := path.drop root.length

def ScopePolicy.active (policy : ScopePolicy) : List Text := policy.allowedPrefixes.filter (· ≠ [])

def ScopePolicy.resolve (policy : ScopePolicy) (vault : VaultTree) (requested : Text) :
    Except ScopeError Names :=
  if isAbsolute requested then .error .outOfScope
  else
    match vault.resolve vault.vaultRoot with
    | .error error => .error (.raised error)
    | .ok root =>
      match vault.resolve (root ++ partsOf requested) with
      | .error error => .error (.raised error)
      | .ok candidate =>
        if ¬ root <+: candidate then .error .outOfScope
        else
          let rel := asPosix (relativeTo root candidate)
          if rel ≠ ['.'] ∧ policy.isExposed rel = false then .error .outOfScope
          else .ok candidate

/-- One path that the glob gives. -/
def ScopePolicy.visit (policy : ScopePolicy) (vault : VaultTree) (root path : Names) :
    Except ResolveError (List Names) :=
  match vault.resolve path with
  | .error .osError => .ok []
  | .error error => .error error
  | .ok resolved =>
    if root <+: resolved ∧ policy.isExposed (asPosix (relativeTo root resolved)) ∧
        vault.isFile resolved then .ok [resolved]
    else .ok []

/-- The turn of one prefix. -/
def ScopePolicy.search (policy : ScopePolicy) (vault : VaultTree) (suffix : Text) (root : Names)
    (allowed : Text) : Except ResolveError (List Names) :=
  match vault.resolve (root ++ partsOf (rstripSlash allowed)) with
  | .error error => .error error
  | .ok base =>
    if root <+: base ∧ vault.isDir base then
      ((vault.rglob base suffix).mapM (policy.visit vault root)).map List.flatten
    else .ok []

def ScopePolicy.exposedFiles (policy : ScopePolicy) (vault : VaultTree) (suffix : Text) :
    Except ResolveError (List Names) :=
  match vault.resolve vault.vaultRoot with
  | .error error => .error error
  | .ok root =>
    (policy.active.mapM (policy.search vault suffix root)).map fun found =>
      found.flatten.dedup.insertionSort (· ≤ ·)

/-! ## What a policy allows -/

def components (text : Text) : Names := text.splitOn '/'

/-- The names start with the components of an allowed prefix. -/
def ScopePolicy.Allows (policy : ScopePolicy) (names : Names) : Prop :=
  ∃ allowed ∈ policy.active, components (rstripSlash allowed) <+: names

/-- The names that `is_exposed` reads off a path. -/
def readNames (names : Names) : Names :=
  components (lstripSlash (slashed (Text.strip (asPosix names))))

/-- The path is not below an allowed prefix, but what is read off it is. -/
def ScopePolicy.Misreads (policy : ScopePolicy) (names : Names) : Prop :=
  names ≠ [] ∧ policy.Allows (readNames names) ∧ ¬ policy.Allows names

/-- A path in the vault that is the root, or below an allowed prefix. -/
def ScopePolicy.Scoped (policy : ScopePolicy) (root path : Names) : Prop :=
  root <+: path ∧ (relativeTo root path = [] ∨ policy.Allows (relativeTo root path))

/-- A file of the vault that the glob below an allowed base leads to. -/
def ScopePolicy.Finds (policy : ScopePolicy) (vault : VaultTree) (suffix : Text)
    (root file : Names) : Prop :=
  ∃ allowed ∈ policy.active, ∃ base,
    vault.resolve (root ++ partsOf (rstripSlash allowed)) = .ok base ∧
    root <+: base ∧ vault.isDir base ∧ ∃ path ∈ vault.rglob base suffix,
      vault.resolve path = .ok file ∧ root <+: file ∧ vault.isFile file

variable {policy : ScopePolicy} {vault : VaultTree} {root path names : Names} {text suffix : Text}
  {file : Names}

theorem components_prefix_iff {front} :
    components front <+: components text ↔ text = front ∨ (front ++ ['/']) <+: text := by
  constructor
  · rintro ⟨more, hmore⟩
    have htext : text = ['/'].intercalate (components front ++ more) := by
      rw [hmore, components, intercalate_splitOn]
    cases more with
    | nil =>
      rw [append_nil, components, intercalate_splitOn] at htext
      exact .inl htext
    | cons name more =>
      refine .inr ⟨['/'].intercalate (name :: more), ?_⟩
      have hsplit : ∀ names : Names, names ≠ [] → ['/'].intercalate (names ++ name :: more) =
          ['/'].intercalate names ++ ['/'] ++ ['/'].intercalate (name :: more) := by
        intro names
        induction names with
        | nil => exact fun h => absurd rfl h
        | cons first rest ih =>
          intro _
          cases rest with
          | nil => simp [List.intercalate]
          | cons second rest => simpa [List.intercalate] using ih (by simp)
      have hjoined := hsplit (components front) (splitOn_ne_nil '/' front)
      rw [htext, hjoined, components, intercalate_splitOn]
  · rintro (rfl | ⟨rest, rfl⟩)
    · exact prefix_refl _
    · rw [components, components, append_assoc, singleton_append, splitOn_append_cons_self]
      exact prefix_append _ _

theorem rstripSlash_append (h : text ≠ []) (hlast : ∀ front, text ≠ front ++ ['/']) :
    rstripSlash (text ++ ['/']) = text := by
  obtain ⟨front, c, rfl⟩ := (eq_nil_or_concat text).resolve_left h
  have hc : c ≠ '/' := by
    rintro rfl
    exact hlast front concat_eq_append
  simp [rstripSlash, hc]

theorem active_eq {allowed} (h : allowed ∈ policy.active) :
    allowed = rstripSlash allowed ++ ['/'] := by
  rw [ScopePolicy.active, ScopePolicy.allowedPrefixes, mem_filter] at h
  obtain ⟨hmem, hne⟩ := h
  obtain ⟨raw, -, rfl⟩ := mem_map.mp hmem
  simp only [normalizePrefix] at hne ⊢
  split
  · simp_all
  rename_i hcleaned
  rw [rstripSlash_append hcleaned]
  intro front heq
  have hreverse := congrArg List.reverse heq
  rw [rstripSlash, reverse_reverse, reverse_append] at hreverse
  have hhead := List.head?_dropWhile_not (fun c : Char => decide (c = '/'))
    (lstripSlash (slashed (Text.strip raw))).reverse
  rw [hreverse] at hhead
  simp at hhead

theorem isExposed_iff : policy.isExposed (asPosix names) = true ↔
    policy.Allows (readNames names) := by
  rw [ScopePolicy.isExposed, any_eq_true]
  constructor
  · rintro ⟨allowed, hallowed, h⟩
    refine ⟨allowed, hallowed, components_prefix_iff.mpr ?_⟩
    rw [← active_eq hallowed]
    simpa using h
  · rintro ⟨allowed, hallowed, h⟩
    refine ⟨allowed, hallowed, ?_⟩
    have hprefix := components_prefix_iff.mp h
    rw [← active_eq hallowed] at hprefix
    simpa using hprefix

theorem asPosix_eq_dot_iff (h : ∀ name ∈ names, IsName name) : asPosix names = ['.'] ↔
    names = [] := by
  constructor
  · intro heq
    by_contra hne
    rw [asPosix, if_neg hne] at heq
    obtain ⟨name, rest, rfl⟩ := exists_cons_of_ne_nil hne
    cases rest with
    | nil => exact (h name (by simp)).2.1 (by simpa using heq)
    | cons second rest =>
      have hslash : '/' ∈ ['/'].intercalate (name :: second :: rest) := by simp [List.intercalate]
      rw [heq] at hslash
      simp at hslash
  · rintro rfl
    rfl

theorem scoped_iff_of_exposed (hinside : root <+: path)
    (h : policy.isExposed (asPosix (relativeTo root path)) = true) :
    policy.Scoped root path ↔ ¬ policy.Misreads (relativeTo root path) := by
  rw [isExposed_iff] at h
  simp only [ScopePolicy.Scoped, ScopePolicy.Misreads, hinside, h, true_and, ne_eq]
  by_cases hroot : relativeTo root path = [] <;> simp [hroot]

theorem not_misreads_of_not_exposed (h : policy.isExposed (asPosix names) = false) :
    ¬ policy.Misreads names := by
  rintro ⟨-, hread, -⟩
  rw [← isExposed_iff, h] at hread
  cases hread

/-- The outcome the contract of `resolve` promises. -/
def Confined (policy : ScopePolicy) (vault : VaultTree) (outcome : Except ScopeError Names) :
    Prop :=
  outcome = .error .outOfScope ∨ ∃ root path, vault.resolve vault.vaultRoot = .ok root ∧
    outcome = .ok path ∧ policy.Scoped root path

/-- The request is absolute, or resolves without an exception to a path outside the vault or to
  one that is not misread. -/
def Resolvable (policy : ScopePolicy) (vault : VaultTree) (requested : Text) : Prop :=
  isAbsolute requested = true ∨ ∃ root candidate, vault.resolve vault.vaultRoot = .ok root ∧
    vault.resolve (root ++ partsOf requested) = .ok candidate ∧
    (root <+: candidate → ¬ policy.Misreads (relativeTo root candidate))

theorem confined_iff {requested} :
    Confined policy vault (policy.resolve vault requested) ↔ Resolvable policy vault requested := by
  rw [ScopePolicy.resolve, Resolvable]
  by_cases habsolute : isAbsolute requested = true
  · simp [habsolute, Confined]
  cases hroot : vault.resolve vault.vaultRoot with
  | error error => simp [habsolute, hroot, Confined]
  | ok root =>
    cases hcandidate : vault.resolve (root ++ partsOf requested) with
    | error error => simp [habsolute, hroot, hcandidate, Confined]
    | ok candidate =>
      by_cases hinside : root <+: candidate
      swap
      · simp [habsolute, hroot, hcandidate, hinside, Confined]
      have hnames : ∀ name ∈ relativeTo root candidate, IsName name := fun name hname =>
        vault.canonical _ _ hcandidate name (mem_of_mem_drop hname)
      by_cases hrefused : asPosix (relativeTo root candidate) ≠ ['.'] ∧
          policy.isExposed (asPosix (relativeTo root candidate)) = false
      · have hread := not_misreads_of_not_exposed hrefused.2
        simp [habsolute, hroot, hcandidate, hinside, hrefused, Confined, hread]
      have hscoped : policy.Scoped root candidate ↔
          ¬ policy.Misreads (relativeTo root candidate) := by
        by_cases hdot : asPosix (relativeTo root candidate) = ['.']
        · have hnil := (asPosix_eq_dot_iff hnames).mp hdot
          simp [ScopePolicy.Scoped, ScopePolicy.Misreads, hinside, hnil]
        · exact scoped_iff_of_exposed hinside (by simpa [hdot] using hrefused)
      simp [habsolute, hroot, hcandidate, hinside, hrefused, Confined, hscoped]

theorem mem_of_visit {found} (h : policy.visit vault root path = .ok found) :
    file ∈ found ↔ vault.resolve path = .ok file ∧ root <+: file ∧
      policy.isExposed (asPosix (relativeTo root file)) = true ∧ vault.isFile file = true := by
  rw [ScopePolicy.visit] at h
  cases hresolve : vault.resolve path with
  | error error =>
    rw [hresolve] at h
    cases error <;> cases h
    simp
  | ok resolved =>
    simp only [hresolve] at h
    split at h
    · rename_i hkept
      cases h
      simp only [mem_singleton, Except.ok.injEq]
      constructor
      · rintro rfl
        exact ⟨rfl, hkept⟩
      · rintro ⟨rfl, -⟩
        rfl
    · rename_i hkept
      cases h
      simp only [not_mem_nil, Except.ok.injEq, false_iff]
      rintro ⟨rfl, hkept'⟩
      exact hkept hkept'

theorem mem_flatten_of_mapM {α β ε : Type} {f : α → Except ε (List β)} {as : List α}
    {found : List (List β)} (h : as.mapM f = .ok found) {b : β} :
    b ∈ found.flatten ↔ ∃ a ∈ as, ∃ bs, f a = .ok bs ∧ b ∈ bs := by
  obtain ⟨hresults, hsources⟩ := mapM_results h
  rw [mem_flatten]
  constructor
  · rintro ⟨bs, hbs, hb⟩
    obtain ⟨a, ha, hfa⟩ := hsources bs hbs
    exact ⟨a, ha, bs, hfa, hb⟩
  · rintro ⟨a, ha, bs, hfa, hb⟩
    obtain ⟨bs', hbs', hfa'⟩ := hresults a ha
    cases hfa.symm.trans hfa'
    exact ⟨bs, hbs', hb⟩

theorem mem_of_search {allowed found} (h : policy.search vault suffix root allowed = .ok found) :
    file ∈ found ↔ (∃ base, vault.resolve (root ++ partsOf (rstripSlash allowed)) = .ok base ∧
      root <+: base ∧ vault.isDir base ∧ ∃ path ∈ vault.rglob base suffix,
        vault.resolve path = .ok file ∧ root <+: file ∧ vault.isFile file) ∧
      policy.isExposed (asPosix (relativeTo root file)) = true := by
  rw [ScopePolicy.search] at h
  cases hbase : vault.resolve (root ++ partsOf (rstripSlash allowed)) with
  | error error =>
    rw [hbase] at h
    cases h
  | ok base =>
    simp only [hbase] at h
    split at h
    · rename_i hsearched
      cases hall : (vault.rglob base suffix).mapM (policy.visit vault root) with
      | error error =>
        rw [hall] at h
        cases h
      | ok results =>
        rw [hall] at h
        cases h
        rw [mem_flatten_of_mapM hall]
        constructor
        · rintro ⟨path, hpath, bs, hvisit, hfile⟩
          obtain ⟨hresolve, hinside, hexposed, hisFile⟩ := (mem_of_visit hvisit).mp hfile
          exact ⟨⟨base, rfl, hsearched.1, hsearched.2, path, hpath, hresolve, hinside, hisFile⟩,
            hexposed⟩
        · rintro ⟨⟨_, hsame, -, -, path, hpath, hresolve, hinside, hisFile⟩, hexposed⟩
          cases hsame
          obtain ⟨bs, -, hvisit⟩ := (mapM_results hall).1 path hpath
          exact ⟨path, hpath, bs, hvisit,
            (mem_of_visit hvisit).mpr ⟨hresolve, hinside, hexposed, hisFile⟩⟩
    · rename_i hskipped
      cases h
      simp only [not_mem_nil, Except.ok.injEq, false_iff]
      rintro ⟨⟨_, hsame, hinside, hdir, -⟩, -⟩
      cases hsame
      exact hskipped ⟨hinside, hdir⟩

theorem mem_exposedFiles {files} (hroot : vault.resolve vault.vaultRoot = .ok root)
    (h : policy.exposedFiles vault suffix = .ok files) :
    file ∈ files ↔ policy.Finds vault suffix root file ∧
      policy.isExposed (asPosix (relativeTo root file)) = true := by
  simp only [ScopePolicy.exposedFiles, hroot] at h
  cases hfound : policy.active.mapM (policy.search vault suffix root) with
  | error error =>
    rw [hfound] at h
    cases h
  | ok found =>
    rw [hfound] at h
    cases h
    rw [mem_insertionSort, mem_dedup, mem_flatten_of_mapM hfound]
    constructor
    · rintro ⟨allowed, hallowed, results, hsearch, hfile⟩
      obtain ⟨⟨base, hbase⟩, hexposed⟩ := (mem_of_search hsearch).mp hfile
      exact ⟨⟨allowed, hallowed, base, hbase⟩, hexposed⟩
    · rintro ⟨⟨allowed, hallowed, base, hbase⟩, hexposed⟩
      obtain ⟨results, -, hsearch⟩ := (mapM_results hfound).1 allowed hallowed
      exact ⟨allowed, hallowed, results, hsearch,
        (mem_of_search hsearch).mpr ⟨⟨base, hbase⟩, hexposed⟩⟩

/-- **The scope of a vault.** `resolve` keeps its contract exactly when the request resolves to
  nothing misread, and `exposed_files` returns files in scope exactly when no file that the globs
  lead to is misread. -/
theorem scope_exact (policy : ScopePolicy) (vault : VaultTree) (requested suffix : Text) :
    (Confined policy vault (policy.resolve vault requested) ↔ Resolvable policy vault requested) ∧
      ∀ root files, vault.resolve vault.vaultRoot = .ok root →
        policy.exposedFiles vault suffix = .ok files → ((∀ file ∈ files, policy.Scoped root file) ↔
          ∀ file, policy.Finds vault suffix root file →
            ¬ policy.Misreads (relativeTo root file)) := by
  refine ⟨confined_iff, fun root files hroot hfiles => ⟨?_, ?_⟩⟩
  · intro hscoped file hfinds
    cases hexposed : policy.isExposed (asPosix (relativeTo root file)) with
    | false => exact not_misreads_of_not_exposed hexposed
    | true =>
      have hfile := (mem_exposedFiles hroot hfiles).mpr ⟨hfinds, hexposed⟩
      obtain ⟨_, _, _, _, _, _, _, _, _, hinside, _⟩ := hfinds
      exact (scoped_iff_of_exposed hinside hexposed).mp (hscoped file hfile)
  · intro hnone file hfile
    obtain ⟨hfinds, hexposed⟩ := (mem_exposedFiles hroot hfiles).mp hfile
    have hread := hnone file hfinds
    obtain ⟨_, _, _, _, _, _, _, _, _, hinside, _⟩ := hfinds
    exact (scoped_iff_of_exposed hinside hexposed).mpr hread

/-- A vault at `/v` without links, with one note below it. -/
def plainVault (note : Names) : VaultTree where
  vaultRoot := ["v".toList]
  resolve path := .ok (path.filter fun name => IsName name)
  isDir _ := true
  isFile _ := true
  rglob _ _ := [note]
  canonical := by
    rintro path target ⟨⟩ name hname
    simpa using (mem_filter.mp hname).2

/-- A note under the directory ` p` is handed out where only `p` is allowed. -/
theorem scope_leaks : ¬ ∀ (policy : ScopePolicy) (vault : VaultTree) (requested : Text),
    Confined policy vault (policy.resolve vault requested) := by
  intro h
  rcases confined_iff.mp (h ⟨[['p']]⟩ (plainVault []) [' ', 'p', '/', 'a']) with
    habsolute | ⟨root, candidate, hroot, hcandidate, hread⟩
  · cases habsolute
  cases hroot
  cases hcandidate
  refine hread (by decide) ⟨by decide, ⟨['p', '/'], by decide, by decide⟩, ?_⟩
  rintro ⟨allowed, hallowed, hprefix⟩
  have hactive : ScopePolicy.active ⟨[['p']]⟩ = [['p', '/']] := by decide
  rw [hactive, mem_singleton] at hallowed
  subst hallowed
  revert hprefix
  decide

end StudioOS.ServerMirror
