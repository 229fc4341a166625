import StudioOS.Bootstrap.Writes

/-!
# Undo — taking a run back

A finished run is taken back to what each file held before its last write,
which is what it held before the run unless the run wrote it twice. A run that
failed has no journal and stays.
-/

namespace StudioOS.Bootstrap

open List TextFiles Writes

variable {δ : Type}

/-! ## The two loops of `rollback` -/

/-- The file is absent, or reads back with the label. -/
def Env.ReadsBack (env : Env δ) (files : Files) (path : Path) (label : δ) : Prop :=
  ∀ node, files path = some node → ∃ text, node.readText = some text ∧ env.label text = label

/-- What the entries of a finished run have. -/
structure Env.Entered (env : Env δ) (backup : Backup δ) (entry : BackupEntry δ) : Prop where
  confined : env.confined entry.path = true
  action : entry.action = .created ∨ (entry.action = .replaced ∧
    ∃ node, backup.files entry.path = some node ∧ backup.source entry = .ok node)

theorem entered_of_writable {env : Env δ} {ws : List Write} {files : Files}
    (h : ∀ w ∈ ws, env.Writable files w.path) : ∀ entry ∈ env.journalOf ws files,
      env.Entered (env.followAll ws (.start files)).finished.backup entry := by
  intro entry hentry
  obtain ⟨w, hw, hpath⟩ := mem_map.mp (mem_paths hentry)
  have hwritable := h w hw
  rw [hpath] at hwritable
  refine ⟨hwritable.confined, ?_⟩
  rcases journalOf_action hentry with hcreated | ⟨hreplaced, hbackup⟩
  · exact .inl hcreated
  refine .inr ⟨hreplaced, ?_⟩
  have hsome := before_of_replaced hentry (by simp [hreplaced])
  have hkept : (env.followAll ws (.start files)).finished.backup.files entry.path =
      before (stores ws) files entry.path :=
    followAll_kept (.start files) (fun w hw => (h w hw).noDirectory) (mem_paths hentry)
      hsome
  obtain ⟨node, hnode⟩ := Option.isSome_iff_exists.mp hsome
  have hfile : node ≠ .directory := by
    rintro rfl
    exact before_noDirectory hwritable.noDirectory hnode
  refine ⟨node, hkept.trans hnode, ?_⟩
  simp [Backup.source, hbackup, hwritable.named, hkept, hnode]

/-- What the second loop leaves if the write of the fault fails. -/
def halfway (kept : Files) (entries : List (BackupEntry δ)) (f : Fault) (files : Files) : Files :=
  writeAll ((entries.take f.number).map (restore kept) ++
    (entries[f.number]?.toList.map fun entry => (entry.path, f.left))) files

section Loops

variable {env : Env δ} {backup : Backup δ} {entries : List (BackupEntry δ)}

theorem Env.Entered.undone {entry} (h : env.Entered backup entry) (files) :
    ∃ counts, backup.undone files entry = .ok ((restore backup.files entry).2, counts) := by
  rw [Backup.undone]
  rcases h.action with haction | ⟨haction, node, hnode, hsource⟩
  · exact ⟨_, by rw [if_pos haction, restore, if_pos haction]⟩
  · refine ⟨true, ?_⟩
    simp [haction, hsource, restore, hnode]

theorem undoAll_ok (fault) (h : ∀ entry ∈ entries, env.Entered backup entry)
    (hfault : ∀ f ∈ fault, entries.length ≤ f.number) (files) :
    ∃ paths, backup.undoAll entries fault files =
      (writeAll (entries.map (restore backup.files)) files, .ok paths) := by
  induction entries generalizing fault files with
  | nil => exact ⟨[], rfl⟩
  | cons entry rest ih =>
    obtain ⟨counts, hundone⟩ := (h entry mem_cons_self).undone files
    have hlater : ∀ f ∈ fault.map (fun f => { f with number := f.number - 1 }),
        rest.length ≤ f.number := by
      intro f hf
      obtain ⟨g, hg, rfl⟩ := Option.map_eq_some_iff.mp hf
      have hle := hfault g hg
      rw [length_cons] at hle
      show rest.length ≤ g.number - 1
      omega
    obtain ⟨paths, hrest⟩ := ih _ (fun e he => h e (.tail _ he)) hlater
      (Function.update files entry.path (restore backup.files entry).2)
    refine ⟨if counts then entry.path :: paths else paths, ?_⟩
    rw [Backup.undoAll]
    · rw [hundone]
      simp only [hrest, Except.map]
      rfl
    · intro left torn heq
      have hle := hfault _ heq
      simp at hle

theorem undoAll_fault (f) (h : ∀ entry ∈ entries, env.Entered backup entry)
    (hf : f.number < entries.length) (files) :
    ∃ path, backup.undoAll entries (some f) files =
      (halfway backup.files entries f files, .error (.failed path)) := by
  induction entries generalizing f files with
  | nil => cases hf
  | cons entry rest ih =>
    obtain ⟨number, left, torn⟩ := f
    cases number with
    | zero => exact ⟨entry.path, rfl⟩
    | succ number =>
      obtain ⟨counts, hundone⟩ := (h entry mem_cons_self).undone files
      have hlt : number < rest.length := by simpa using hf
      obtain ⟨path, hrest⟩ := ih ⟨number, left, torn⟩
        (fun e he => h e (.tail _ he)) hlt
        (Function.update files entry.path (restore backup.files entry).2)
      refine ⟨path, ?_⟩
      rw [Backup.undoAll]
      · rw [hundone]
        simp only [Option.map_some, Nat.add_sub_cancel, hrest, Except.map]
        rfl
      · simp

theorem conclude_fault {files paths f}
    (hf : f.number = entries.length) : backup.conclude files entries paths (some f) =
      ⟨files, { backup with journal := if f.torn then none else backup.journal },
        .error (.failed journalName)⟩ := by
  simp [Backup.conclude, Option.filter, hf]

/-- The error is of a check, not of the file system. -/
def BootstrapError.Refusal (err : BootstrapError) : Prop := ∀ path, err ≠ .failed path

variable [DecidableEq δ]

theorem checkTarget_cases (env : Env δ) (files : Files) (entry) :
    (env.ReadsBack files entry.path entry.afterLabel ∧ env.checkTarget files false entry = .ok ()) ∨
    (¬env.ReadsBack files entry.path entry.afterLabel ∧
      ∃ err, env.checkTarget files false entry = .error err ∧ err.Refusal) := by
  unfold Env.checkTarget Env.ReadsBack
  cases hnode : files entry.path with
  | none => exact .inl ⟨by simp, rfl⟩
  | some node =>
    cases node with
    | directory => exact .inr ⟨by simp [Node.readText], _, rfl, by simp [BootstrapError.Refusal]⟩
    | binary bytes =>
      exact .inr ⟨by simp [Node.readText], _, rfl, by simp [BootstrapError.Refusal]⟩
    | text chars =>
      by_cases hlabel : env.label (universal chars) = entry.afterLabel
      · exact .inl ⟨by simp [Node.readText, hlabel], by simp [Node.readText, hlabel]⟩
      · refine .inr ⟨by simp [Node.readText, hlabel], .changed entry.path, ?_, ?_⟩
        · simp [Node.readText, hlabel]
        · simp [BootstrapError.Refusal]

theorem Env.Entered.check {entry} (h : env.Entered backup entry) (files) :
    env.checkRollbackEntry files backup false entry = env.checkTarget files false entry := by
  rw [Env.checkRollbackEntry, if_pos h.confined]
  rcases h.action with haction | ⟨haction, node, _, hsource⟩
  · rw [haction]
  · rw [haction, hsource]

theorem checkAll_cases (files) (h : ∀ entry ∈ entries, env.Entered backup entry) :
    ((∀ entry ∈ entries, env.ReadsBack files entry.path entry.afterLabel) ∧
      env.checkAll files backup false entries = .ok ()) ∨
    (¬(∀ entry ∈ entries, env.ReadsBack files entry.path entry.afterLabel) ∧
      ∃ err, env.checkAll files backup false entries = .error err ∧ err.Refusal) := by
  induction entries with
  | nil => exact .inl ⟨by simp, rfl⟩
  | cons entry rest ih =>
    rw [Env.checkAll, (h entry mem_cons_self).check, forall_mem_cons]
    rcases checkTarget_cases env files entry with ⟨hreads, hok⟩ | ⟨hreads, err, herr, hrefusal⟩
    · rw [hok]
      rcases ih fun e he => h e (.tail _ he) with ⟨hall, hrest⟩ | ⟨hnot, herr⟩
      · exact .inl ⟨⟨hreads, hall⟩, hrest⟩
      · exact .inr ⟨fun hand => hnot hand.2, herr⟩
    · rw [herr]
      exact .inr ⟨fun hand => hreads hand.1, err, rfl, hrefusal⟩

theorem rollback_refuses (files) (fault) (hjournal : backup.journal = some (.applied, entries))
    (h : ∀ entry ∈ entries, env.Entered backup entry)
    (hreads : ¬∀ entry ∈ entries, env.ReadsBack files entry.path entry.afterLabel) :
    ∃ err, err.Refusal ∧ env.rollback files backup false fault = ⟨files, backup, .error err⟩ := by
  rcases checkAll_cases files h with ⟨hall, -⟩ | ⟨-, err, herr, hrefusal⟩
  · exact absurd hall hreads
  · exact ⟨err, hrefusal, by simp [Env.rollback, hjournal, herr]⟩

theorem rollback_completes {files} (fault) (hjournal : backup.journal = some (.applied, entries))
    (h : ∀ entry ∈ entries, env.Entered backup entry)
    (hreads : ∀ entry ∈ entries, env.ReadsBack files entry.path entry.afterLabel)
    (hfault : ∀ f ∈ fault, entries.length < f.number) :
    ∃ paths, env.rollback files backup false fault =
      ⟨writeAll (entries.map (restore backup.files)) files,
        { backup with journal := some (.rolledBack, entries) }, .ok paths⟩ := by
  rcases checkAll_cases files h with ⟨-, hok⟩ | ⟨hnot, -⟩
  · obtain ⟨paths, hloop⟩ := undoAll_ok fault h (fun f hf => (hfault f hf).le) files
    have hnone : (fault.filter fun f => f.number = entries.length) = none := by
      rw [Option.filter_eq_none_iff]
      intro f hf
      have hlt := hfault f hf
      simp only [decide_eq_true_eq]
      omega
    exact ⟨paths, by simp [Env.rollback, hjournal, hok, hloop, Backup.conclude, hnone]⟩
  · exact absurd hreads hnot

theorem rollback_fails {files f} (hjournal : backup.journal = some (.applied, entries))
    (h : ∀ entry ∈ entries, env.Entered backup entry)
    (hreads : ∀ entry ∈ entries, env.ReadsBack files entry.path entry.afterLabel)
    (hf : f.number ≤ entries.length) : ∃ path, env.rollback files backup false (some f) =
      ⟨halfway backup.files entries f files,
        ⟨backup.files, if f.number = entries.length ∧ f.torn then none else backup.journal⟩,
        .error (.failed path)⟩ := by
  rcases checkAll_cases files h with ⟨-, hok⟩ | ⟨hnot, -⟩
  · by_cases hend : f.number = entries.length
    · obtain ⟨paths, hloop⟩ := undoAll_ok (some f) h
        (fun g hg => by cases hg; exact hend.ge) files
      have hhalf : halfway backup.files entries f files =
          writeAll (entries.map (restore backup.files)) files := by
        simp [halfway, hend]
      refine ⟨journalName, ?_⟩
      simp [Env.rollback, hjournal, hok, hloop, conclude_fault hend, hend, hhalf]
    · obtain ⟨path, hloop⟩ := undoAll_fault f h (Nat.lt_of_le_of_ne hf hend) files
      refine ⟨path, ?_⟩
      rw [if_neg fun hand => hend hand.1]
      simp only [Env.rollback, hjournal, hok, hloop]
      rw [← hjournal]
  · exact absurd hreads hnot

end Loops

/-- Each written file reads back with the label in the journal. -/
def Env.Sealed (env : Env δ) (files : Files) (ws : List Write) : Prop :=
  ∀ w ∈ ws, env.ReadsBack (writeAll (stores ws) files) w.path (env.label w.content)

section Finished

variable {env : Env δ} {ws : List Write} {files : Files}

theorem forall_labels {P : Path → δ → Prop} :
    (∀ entry ∈ env.journalOf ws files, P entry.path entry.afterLabel) ↔
      ∀ w ∈ ws, P w.path (env.label w.content) := by
  have hlabels := journalOf_labels env ws files
  have hentries : (∀ entry ∈ env.journalOf ws files, P entry.path entry.afterLabel) ↔
      ∀ p ∈ (env.journalOf ws files).map (fun entry => (entry.path, entry.afterLabel)),
        P p.1 p.2 := by
    simp
  rw [hentries, hlabels]
  simp

theorem finished_journal : (env.followAll ws (.start files)).finished.backup.journal =
      some (.applied, env.journalOf ws files) := by
  rw [Run.finished, followAll_entries]
  rfl

theorem finished_files :
    (env.followAll ws (.start files)).finished.files = writeAll (stores ws) files :=
  followAll_files env ws (.start files)

theorem finished_written :
    (env.followAll ws (.start files)).finished.written = ws.map (·.path) := by
  rw [Run.finished, followAll_entries, ← journalOf_paths env ws files]
  rfl

theorem finished_restores (h : ∀ w ∈ ws, env.Writable files w.path) (entries)
    (hsub : entries ⊆ env.journalOf ws files) :
    entries.map (restore (env.followAll ws (.start files)).finished.backup.files) =
      entries.map (restore (before (stores ws) files)) := by
  refine map_congr_left fun entry hentry => ?_
  exact restore_kept (.start files) (fun w hw => (h w hw).noDirectory) (hsub hentry)

theorem finished_undone (h : ∀ w ∈ ws, env.Writable files w.path) (tree : Files)
    (hother : ∀ path ∉ ws.map (·.path), tree path = files path) :
    writeAll ((env.journalOf ws files).map
      (restore (env.followAll ws (.start files)).finished.backup.files)) tree =
      before (stores ws) files := by
  rw [finished_restores h _ (List.Subset.refl _)]
  ext1 path
  rw [restoreAll]
  split
  · rfl
  · rename_i hpath
    have hkeys : path ∉ (stores ws).map Prod.fst := by rwa [map_fst_stores]
    rw [before_other hkeys, hother path hpath]

theorem halfway_other {kept tree f path} (h : path ∉ ws.map (·.path)) :
    halfway kept (env.journalOf ws files) f tree path = tree path := by
  refine writeAll_other ?_ tree
  rw [map_append, mem_append, not_or]
  constructor
  · intro hmem
    simp only [mem_map, map_map] at hmem
    obtain ⟨entry, hentry, rfl⟩ := hmem
    exact h (mem_paths (mem_of_mem_take hentry))
  · intro hmem
    simp only [mem_map, Option.mem_toList, map_map] at hmem
    obtain ⟨entry, hentry, rfl⟩ := hmem
    exact h (mem_paths (mem_of_getElem? hentry))

theorem halfway_finished (f) (h : ∀ w ∈ ws, env.Writable files w.path) (tree) :
    halfway (env.followAll ws (.start files)).finished.backup.files (env.journalOf ws files) f
        tree = halfway (before (stores ws) files) (env.journalOf ws files) f tree := by
  rw [halfway, halfway, finished_restores h _ (take_subset _ _)]

end Finished

/-! ## The run and its rollback -/

variable [DecidableEq δ]

/-- The rollback of the run leaves the tree as it was before the run. -/
def Env.Undone (env : Env δ) (files : Files) (applied : Applied δ) : Prop :=
  (env.rollback applied.files applied.backup false none).files = files

/-- A rollback that fails at a write can be run again: it completes, and
leaves what it would have left at once. -/
def Env.Resumes (env : Env δ) (applied : Applied δ) (f : Fault) : Prop :=
  let first := env.rollback applied.files applied.backup false (some f)
  let second := env.rollback first.files first.backup false none
  (∃ path, first.result = .error (.failed path)) →
    second.result.isOk ∧
      second.files = (env.rollback applied.files applied.backup false none).files

/-- Where a file of the run is not as it was written, the rollback is
refused and writes nothing. -/
def Env.RefusesEdited (env : Env δ) (applied : Applied δ) (edited : Files) : Prop :=
  (∃ path ∈ applied.written, edited path ≠ applied.files path) →
    ¬(env.rollback edited applied.backup false none).result.isOk ∧
      (env.rollback edited applied.backup false none).files = edited

theorem rollback_none {env : Env δ} {files} {backup : Backup δ} (h : backup.journal = none)
    (fault) :
    env.rollback files backup false fault = ⟨files, backup, .error .noJournal⟩ := by
  simp [Env.rollback, h]

theorem Plan.Finishes.passes {plan : Plan} {fault : Option Nat} (h : plan.Finishes fault) :
    plan.Passes fault := ⟨h.1, fun n hn => (h.2 n hn).le⟩

section Plans

variable {env : Env δ} {files : Files} {planned : List PlannedFile} {confirm : Bool} {plan : Plan}

/-- When a run is undone. A run with a journal is undone up to the last write of each
file; any other stays. -/
theorem undone_iff {report} (hplan : env.plan files planned report confirm = plan) (fault) :
    env.Undone files (env.applyFiles files planned report confirm fault) ↔
      (plan.Finishes fault ∧ env.Sealed files plan.writes ∧
          before (stores plan.writes) files = files) ∨
        (¬(plan.Finishes fault ∧ env.Sealed files plan.writes) ∧
          writeAll (stores (reached fault plan.writes)) files = files) := by
  have hwritable := plan_writable env files planned report confirm
  rw [hplan] at hwritable
  rcases applyFiles_cases hplan fault with ⟨hfinishes, heq⟩ | ⟨hstops, hjournal, hfiles⟩
  · rw [reached_of_passes hfinishes.passes, Env.Undone, heq, finished_files]
    have hentered := entered_of_writable hwritable
    by_cases hsealed : env.Sealed files plan.writes
    · obtain ⟨paths, hrollback⟩ := rollback_completes none finished_journal hentered
        (forall_labels.mpr hsealed) (by simp)
      rw [hrollback]
      have hundone := finished_undone hwritable (writeAll (stores plan.writes) files)
        (fun path hpath => writeAll_other (by rwa [map_fst_stores]) files)
      simp only [hundone]
      exact ⟨fun h => .inl ⟨hfinishes, hsealed, h⟩,
        fun h => h.elim (fun h => h.2.2) fun h => absurd ⟨hfinishes, hsealed⟩ h.1⟩
    · obtain ⟨err, -, hrollback⟩ := rollback_refuses _ none finished_journal hentered
        (fun hall => hsealed (forall_labels.mp hall))
      rw [hrollback]
      exact ⟨fun h => .inr ⟨fun hand => hsealed hand.2, h⟩,
        fun h => h.elim (fun h => absurd h.2.1 hsealed) fun h => h.2⟩
  · rw [Env.Undone, rollback_none hjournal, hfiles]
    exact ⟨fun h => .inr ⟨fun hand => hstops hand.1, h⟩,
      fun h => h.elim (fun h => absurd h.1 hstops) fun h => h.2⟩

/-- When a rollback that failed can be run again: each file that it left is
absent, or has the label of what the run wrote. -/
theorem resumes_iff {report} (hplan : env.plan files planned report confirm = plan) (fault)
    (f) : env.Resumes (env.applyFiles files planned report confirm fault) f ↔
      (plan.Finishes fault → env.Sealed files plan.writes → f.number ≤ plan.writes.length →
        ¬(f.number = plan.writes.length ∧ f.torn) ∧ ∀ w ∈ plan.writes, env.ReadsBack
              (halfway (before (stores plan.writes) files) (env.journalOf plan.writes files) f
                (writeAll (stores plan.writes) files)) w.path (env.label w.content)) := by
  have hwritable := plan_writable env files planned report confirm
  rw [hplan] at hwritable
  rcases applyFiles_cases hplan fault with ⟨hfinishes, heq⟩ | ⟨hstops, hjournal, hfiles⟩
  · rw [Env.Resumes, heq, finished_files]
    have hentered := entered_of_writable hwritable
    have hlength : (env.journalOf plan.writes files).length = plan.writes.length := by
      simpa using congrArg List.length (journalOf_paths env plan.writes files)
    by_cases hsealed : env.Sealed files plan.writes
    · by_cases hnumber : f.number ≤ plan.writes.length
      · obtain ⟨path, hfirst⟩ := rollback_fails finished_journal hentered
          (forall_labels.mpr hsealed) (hnumber.trans_eq hlength.symm)
        rw [hfirst, halfway_finished f hwritable, hlength]
        by_cases htorn : f.number = plan.writes.length ∧ f.torn = true
        · simp only [if_pos htorn, rollback_none]
          refine ⟨fun h => absurd (h ⟨path, rfl⟩).1 Bool.false_ne_true, fun h => ?_⟩
          exact absurd htorn (h hfinishes hsealed hnumber).1
        simp only [if_neg htorn]
        obtain ⟨paths, hplain⟩ := rollback_completes none finished_journal hentered
          (forall_labels.mpr hsealed) (by simp)
        rw [hplain]
        by_cases hreads : ∀ w ∈ plan.writes, env.ReadsBack
            (halfway (before (stores plan.writes) files) (env.journalOf plan.writes files) f
              (writeAll (stores plan.writes) files)) w.path (env.label w.content)
        · obtain ⟨paths', hsecond⟩ := rollback_completes none finished_journal hentered
            (forall_labels.mpr hreads) (by simp)
          refine ⟨fun _ _ _ _ => ⟨htorn, hreads⟩, fun _ _ => ?_⟩
          have hother : ∀ path ∉ plan.writes.map (·.path),
              writeAll (stores plan.writes) files path = files path := fun path hpath =>
            writeAll_other (by rwa [map_fst_stores]) files
          rw [hsecond]
          refine ⟨rfl, ?_⟩
          simp only
          rw [finished_undone hwritable _ hother, finished_undone hwritable]
          intro path hpath
          rw [halfway_other hpath, hother path hpath]
        · obtain ⟨err, -, hsecond⟩ := rollback_refuses _ none finished_journal hentered
            (fun hall => hreads (forall_labels.mp hall))
          rw [hsecond]
          refine ⟨fun h => absurd (h ⟨path, rfl⟩).1 Bool.false_ne_true, fun h => ?_⟩
          exact absurd (h hfinishes hsealed hnumber).2 hreads
      · obtain ⟨paths, hfirst⟩ := rollback_completes (some f) finished_journal hentered
          (forall_labels.mpr hsealed) (fun g hg => by
            cases hg
            omega)
        rw [hfirst]
        refine ⟨fun _ _ _ h => absurd h hnumber, fun _ h => ?_⟩
        obtain ⟨path, herr⟩ := h
        cases herr
    · obtain ⟨err, hrefusal, hfirst⟩ := rollback_refuses _ (some f) finished_journal
        hentered (fun hall => hsealed (forall_labels.mp hall))
      rw [hfirst]
      refine ⟨fun _ _ h => absurd h hsealed, fun _ h => ?_⟩
      obtain ⟨path, herr⟩ := h
      exact absurd (Except.error.inj herr) (hrefusal path)
  · rw [Env.Resumes, rollback_none hjournal]
    refine ⟨fun _ h => absurd h hstops, fun _ h => ?_⟩
    obtain ⟨path, herr⟩ := h
    cases herr

/-- When an edited file stops the rollback: it exists, and does not read back
with its label. -/
theorem refusesEdited_iff {report} (hplan : env.plan files planned report confirm = plan) (fault)
    (edited) :
    env.RefusesEdited (env.applyFiles files planned report confirm fault) edited ↔
      (plan.Finishes fault →
        (∃ w ∈ plan.writes, edited w.path ≠ writeAll (stores plan.writes) files w.path) →
        ∃ w ∈ plan.writes, ¬env.ReadsBack edited w.path (env.label w.content)) := by
  have hwritable := plan_writable env files planned report confirm
  rw [hplan] at hwritable
  rcases applyFiles_cases hplan fault with ⟨hfinishes, heq⟩ | ⟨hstops, hjournal, hfiles⟩
  · rw [Env.RefusesEdited, heq, finished_files, finished_written]
    have hentered := entered_of_writable hwritable
    have hpaths : (∃ path ∈ plan.writes.map (·.path),
        edited path ≠ writeAll (stores plan.writes) files path) ↔
        ∃ w ∈ plan.writes, edited w.path ≠ writeAll (stores plan.writes) files w.path := by
      simp
    rw [hpaths]
    refine ⟨fun h _ hedited => ?_, fun h hedited => ?_⟩
    · by_contra hnone
      have hall : ∀ w ∈ plan.writes, env.ReadsBack edited w.path (env.label w.content) := by
        intro w hw
        by_contra hreads
        exact hnone ⟨w, hw, hreads⟩
      obtain ⟨paths, hrollback⟩ := rollback_completes none finished_journal hentered
        (forall_labels.mpr hall) (by simp)
      have hno := (h hedited).1
      rw [hrollback] at hno
      exact hno rfl
    · obtain ⟨w, hw, hreads⟩ := h hfinishes hedited
      obtain ⟨err, -, hrollback⟩ := rollback_refuses edited none finished_journal
        hentered (fun hall => hreads (forall_labels.mp hall w hw))
      rw [hrollback]
      exact ⟨Bool.false_ne_true, rfl⟩
  · refine ⟨fun _ hfinishes => absurd hfinishes hstops, fun _ _ => ?_⟩
    rw [rollback_none hjournal]
    exact ⟨Bool.false_ne_true, rfl⟩

end Plans

def sampleEnv : Env Text :=
  { digest := id
    confined := fun _ => true
    mergeAgentsRules := fun _ text => some text }

def sampleTree : Files := fun path => if path = ['a'] then some (.text ['1']) else none

def samplePlanned : List PlannedFile :=
  [{ path := ['a'], content := ['2'], block := false },
    { path := ['b'], content := ['2'], block := false }]

def sampleReport : BootstrapDryRunReport :=
  { files :=
      [{ path := ⟨['a'], by decide, by decide, by decide, by decide⟩, state := .modified },
        { path := ⟨['b'], by decide, by decide, by decide, by decide⟩, state := .absent }]
    conflicts := []
    needsConfirmation := false }

end StudioOS.Bootstrap
