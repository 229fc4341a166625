import StudioOS.Bootstrap.Model

/-!
# Writes — what a run writes

The writes of a run, worked out from the tree and the plan alone: `plan` is
the writes a run comes to if nothing outside fails, `journalOf` the entries
they leave, `restores` what undoing these puts back.
-/

namespace StudioOS.Bootstrap

open List Function TextFiles Writes

variable {δ : Type}

variable {path : Path} {planned : List PlannedFile} {observed : BootstrapFileReport}
  {files : Files} {pending : List BootstrapFileReport} {fault : Option Nat}

structure Write where
  path : Path
  content : Text

variable {w : Write} {ws : List Write}

/-- The writes as they reach the tree. -/
def stores (ws : List Write) : List (Path × Option Node) :=
  ws.map fun w => (w.path, some (.text w.content))

/-- The writes before the one that fails. -/
def reached (fault : Option Nat) (ws : List Write) : List Write :=
  match fault with
  | none => ws
  | some n => ws.take n

/-- What one turn of the loop writes. -/
def Env.writeOf (env : Env δ) (planned : List PlannedFile) (files : Files)
    (observed : BootstrapFileReport) : Option Write :=
  (byPath planned observed.path.value).bind fun item =>
    if env.confined item.path ∧ files item.path ≠ some .directory then
      (env.content files item).toOption.map fun content => ⟨item.path, content⟩
    else none

/-- Writes, and whether they are all there is to write. -/
structure Plan where
  writes : List Write
  complete : Bool

def Env.planLoop (env : Env δ) (planned : List PlannedFile) :
    List BootstrapFileReport → Files → Plan
  | [], _ => ⟨[], true⟩
  | observed :: rest, files =>
    match env.writeOf planned files observed with
    | none => ⟨[], false⟩
    | some w =>
      let later := env.planLoop planned rest
        (Function.update files w.path (some (.text w.content)))
      ⟨w :: later.writes, later.complete⟩

/-- What `apply_files` writes. -/
def Env.plan (env : Env δ) (files : Files) (planned : List PlannedFile)
    (report : BootstrapDryRunReport) (confirm : Bool) : Plan :=
  if (report.gate confirm).isOk ∧ report.pending ≠ [] ∧ (env.preflight files planned).isOk then
    env.planLoop planned report.pending files
  else ⟨[], false⟩

/-- No write fails, the journal's included. -/
def Plan.Finishes (plan : Plan) (fault : Option Nat) : Prop :=
  plan.complete = true ∧ ∀ n ∈ fault, plan.writes.length < n

def Env.entryOf (env : Env δ) (files : Files) (w : Write) : BackupEntry δ :=
  { path := w.path
    action := if (files w.path).isSome then .replaced else .created
    backup := if (files w.path).isSome then some w.path else none
    afterLabel := env.label w.content }

def Env.journalOf (env : Env δ) : List Write → Files → List (BackupEntry δ)
  | [], _ => []
  | w :: ws, files =>
    env.entryOf files w ::
      env.journalOf ws (Function.update files w.path (some (.text w.content)))

/-- What undoing an entry puts at its path. -/
def restore (kept : Files) (entry : BackupEntry δ) : Path × Option Node :=
  (entry.path, if entry.action = .created then none else kept entry.path)

/-! ## The loop of `apply_files` -/

@[simp] theorem stores_nil : stores [] = [] := rfl

@[simp] theorem stores_cons (w) (ws) :
    stores (w :: ws) = (w.path, some (.text w.content)) :: stores ws := rfl

@[simp] theorem map_fst_stores (ws) : (stores ws).map Prod.fst = ws.map (·.path) := by
  simp [stores]

/-- One successful turn. -/
def Env.follow (env : Env δ) (run : Run δ) (w : Write) : Run δ :=
  ((run.backUp w.path).getD run).write env w.path w.content

variable {run : Run δ} {env : Env δ} {plan : Plan} {confirm : Bool} {entry : BackupEntry δ}

theorem backUp_files {run'} (h : run.backUp path = some run') :
    run'.files = run.files ∧ run'.entries = run.entries := by
  simp only [Run.backUp] at h
  split at h
  · cases h
    exact ⟨rfl, rfl⟩
  · cases h
  · cases h
    exact ⟨rfl, rfl⟩

theorem backUp_eq_none : run.backUp path = none ↔ run.files path = some .directory := by
  simp only [Run.backUp]
  split <;> simp_all

theorem writeFile_cases (env : Env δ) (planned observed) (fails) (run) :
    (∃ w, env.writeOf planned run.files observed = some w ∧ fails = false ∧
      env.writeFile planned observed fails run = (env.follow run w, .ok ())) ∨
    ((env.writeOf planned run.files observed = none ∨ fails = true) ∧
      ∃ run' err, env.writeFile planned observed fails run = (run', .error err) ∧
        run'.files = run.files) := by
  unfold Env.writeFile Env.writeOf
  cases hitem : byPath planned observed.path.value with
  | none => exact .inr ⟨.inl rfl, _, _, rfl, rfl⟩
  | some item =>
    simp only [Option.bind_some]
    by_cases hconfined : env.confined item.path = true
    · cases hkept : run.backUp item.path with
      | none =>
        have hdir := backUp_eq_none.mp hkept
        exact .inr ⟨.inl (by simp [hdir]), run, .failed item.path, by simp [hconfined], rfl⟩
      | some run₁ =>
        have hdir : run.files item.path ≠ some .directory := by
          intro heq
          rw [backUp_eq_none.mpr heq] at hkept
          cases hkept
        obtain ⟨hfiles, hentries⟩ := backUp_files hkept
        cases hcontent : env.content run.files item with
        | error err =>
          refine .inr ⟨.inl ?_, run₁, err, ?_, hfiles⟩
          · simp [Except.toOption]
          · simp [hconfined, hfiles, hcontent]
        | ok content =>
          cases fails with
          | true =>
            refine .inr ⟨.inr rfl, run₁, .failed item.path, ?_, hfiles⟩
            simp [hconfined, hfiles, hcontent]
          | false =>
            refine .inl ⟨⟨item.path, content⟩, ?_, rfl, ?_⟩
            · simp [hconfined, hdir, Except.toOption]
            · simp [hconfined, hfiles, hcontent, Env.follow, hkept]
    · exact .inr ⟨.inl (by simp [hconfined]), run, .outside item.path, by simp [hconfined], rfl⟩

@[simp] theorem follow_files (env : Env δ) (run w) :
    (env.follow run w).files = Function.update run.files w.path (some (.text w.content)) := by
  cases hkept : run.backUp w.path with
  | none => simp [Env.follow, hkept, Run.write]
  | some run' => simp [Env.follow, hkept, Run.write, (backUp_files hkept).1]

theorem follow_entries (env : Env δ) (run w) :
    (env.follow run w).entries = run.entries ++ [env.entryOf run.files w] := by
  cases hkept : run.backUp w.path with
  | none => simp [Env.follow, hkept, Run.write, Env.entryOf]
  | some run' =>
    simp [Env.follow, hkept, Run.write, Env.entryOf, (backUp_files hkept).1, (backUp_files hkept).2]

def Env.followAll (env : Env δ) (ws : List Write) (run : Run δ) : Run δ :=
  ws.foldl env.follow run

theorem followAll_files (env : Env δ) (ws) (run) :
    (env.followAll ws run).files = writeAll (stores ws) run.files := by
  induction ws generalizing run with
  | nil => rfl
  | cons w ws ih =>
    rw [stores_cons, writeAll, ← follow_files env]
    exact ih _

theorem followAll_entries (env : Env δ) (ws) (run) :
    (env.followAll ws run).entries = run.entries ++ env.journalOf ws run.files := by
  induction ws generalizing run with
  | nil => simp [Env.followAll, Env.journalOf]
  | cons w ws ih =>
    calc (env.followAll (w :: ws) run).entries
        = (env.followAll ws (env.follow run w)).entries := rfl
      _ = run.entries ++ [env.entryOf run.files w] ++
            env.journalOf ws (env.follow run w).files := by rw [ih, follow_entries]
      _ = run.entries ++ env.journalOf (w :: ws) run.files := by
            rw [follow_files, append_assoc]
            rfl

/-- The loop gets through: there is no fault before the end of the plan. -/
def Plan.Passes (plan : Plan) (fault : Option Nat) : Prop :=
  plan.complete = true ∧ ∀ n ∈ fault, plan.writes.length ≤ n

theorem planLoop_cons_none {rest} (h : env.writeOf planned files observed = none) :
    env.planLoop planned (observed :: rest) files = ⟨[], false⟩ := by
  simp [Env.planLoop, h]

theorem planLoop_cons_some {rest} (h : env.writeOf planned files observed = some w) :
    env.planLoop planned (observed :: rest) files = ⟨w :: (env.planLoop planned rest
          (Function.update files w.path (some (.text w.content)))).writes,
        (env.planLoop planned rest
          (Function.update files w.path (some (.text w.content)))).complete⟩ := by
  simp [Env.planLoop, h]

theorem planLoop_length

    (h : (env.planLoop planned pending files).complete = true) :
    (env.planLoop planned pending files).writes.length = pending.length := by
  induction pending generalizing files with
  | nil => rfl
  | cons observed rest ih =>
    cases hw : env.writeOf planned files observed with
    | none =>
      rw [planLoop_cons_none hw] at h
      cases h
    | some w =>
      rw [planLoop_cons_some hw] at h ⊢
      simp [ih h]

theorem passes_cons {complete} (h : fault ≠ some 0) :
    Plan.Passes ⟨w :: ws, complete⟩ fault ↔ Plan.Passes ⟨ws, complete⟩ (fault.map (· - 1)) := by
  cases fault with
  | none => simp [Plan.Passes]
  | some n =>
    have hpos : 0 < n := Nat.pos_of_ne_zero fun heq => h (by rw [heq])
    simp only [Plan.Passes, length_cons, Option.map_some, Option.mem_some_iff, forall_eq']
    exact and_congr_right fun _ => by omega

theorem reached_cons (h : fault ≠ some 0) :
    reached fault (w :: ws) = w :: reached (fault.map (· - 1)) ws := by
  cases fault with
  | none => rfl
  | some n =>
    have hpos : 0 < n := Nat.pos_of_ne_zero fun heq => h (by rw [heq])
    obtain ⟨m, rfl⟩ := Nat.exists_eq_succ_of_ne_zero hpos.ne'
    rfl

theorem reached_of_passes (h : plan.Passes fault) : reached fault plan.writes = plan.writes := by
  cases fault with
  | none => rfl
  | some n => exact take_of_length_le (h.2 n rfl)

theorem applyLoop_ok (run) (h : (env.planLoop planned pending run.files).Passes fault) :
    env.applyLoop planned pending fault run =
      (env.followAll (env.planLoop planned pending run.files).writes run, .ok ()) := by
  induction pending generalizing fault run with
  | nil => rfl
  | cons observed rest ih =>
    rw [Env.applyLoop]
    rcases writeFile_cases env planned observed (fault = some 0) run with
      ⟨w, hw, hfails, heq⟩ | ⟨hstop, run', err, heq, hfiles⟩
    · rw [planLoop_cons_some hw] at h ⊢
      rw [passes_cons (of_decide_eq_false hfails), ← follow_files env] at h
      rw [heq]
      simp only
      rw [ih _ h, follow_files]
      rfl
    · rcases hstop with hw | hfails
      · rw [planLoop_cons_none hw] at h
        cases h.1
      have hzero := h.2 0 (of_decide_eq_true hfails)
      cases hw : env.writeOf planned run.files observed with
      | none =>
        rw [planLoop_cons_none hw] at h
        cases h.1
      | some w =>
        rw [planLoop_cons_some hw] at hzero
        simp at hzero

theorem applyLoop_error (run) (h : ¬(env.planLoop planned pending run.files).Passes fault) :
    ∃ run' err, env.applyLoop planned pending fault run = (run', .error err) ∧ run'.files = writeAll
        (stores (reached fault (env.planLoop planned pending run.files).writes)) run.files := by
  induction pending generalizing fault run with
  | nil => exact absurd ⟨rfl, fun n _ => Nat.zero_le n⟩ h
  | cons observed rest ih =>
    rw [Env.applyLoop]
    rcases writeFile_cases env planned observed (fault = some 0) run with
      ⟨w, hw, hfails, heq⟩ | ⟨hstop, run', err, heq, hfiles⟩
    · have hfault := of_decide_eq_false hfails
      rw [planLoop_cons_some hw] at h ⊢
      rw [passes_cons hfault, ← follow_files env] at h
      rw [heq, reached_cons hfault, stores_cons, writeAll, ← follow_files env]
      exact ih _ h
    · rw [heq]
      refine ⟨run', err, rfl, ?_⟩
      rcases hstop with hw | hfails
      · rw [planLoop_cons_none hw, hfiles]
        cases fault <;> simp [reached]
      · rw [of_decide_eq_true hfails, hfiles]
        rfl

theorem plan_of_not_started {report}

    (h : ¬((report.gate confirm).isOk ∧ report.pending ≠ [] ∧ (env.preflight files planned).isOk)) :
    env.plan files planned report confirm = ⟨[], false⟩ := if_neg h

/-- What a run leaves is the plan up to the fault, with a journal if it
finishes and without one otherwise. -/
theorem applyFiles_cases {report} (hplan : env.plan files planned report confirm = plan) (fault) :
    (plan.Finishes fault ∧ env.applyFiles files planned report confirm fault =
        (env.followAll plan.writes (.start files)).finished) ∨
    (¬plan.Finishes fault ∧
      (env.applyFiles files planned report confirm fault).backup.journal = none ∧
      (env.applyFiles files planned report confirm fault).files =
        writeAll (stores (reached fault plan.writes)) files) := by
  have hnothing : ¬((report.gate confirm).isOk ∧ report.pending ≠ [] ∧
      (env.preflight files planned).isOk) →
      (env.applyFiles files planned report confirm fault).backup.journal = none →
      (env.applyFiles files planned report confirm fault).files = files →
      ¬plan.Finishes fault ∧
        (env.applyFiles files planned report confirm fault).backup.journal = none ∧
        (env.applyFiles files planned report confirm fault).files =
          writeAll (stores (reached fault plan.writes)) files := by
    intro hstart hjournal hfiles
    rw [plan_of_not_started hstart] at hplan
    subst hplan
    refine ⟨fun hfin => absurd hfin.1 Bool.false_ne_true, hjournal, ?_⟩
    rw [hfiles]
    cases fault <;> simp [reached]
  cases hgate : report.gate confirm with
  | error err =>
    refine .inr (hnothing (fun hand => ?_) ?_ ?_)
    · rw [hgate] at hand
      cases hand.1
    · simp [Env.applyFiles, hgate, Run.stopped]
    · simp [Env.applyFiles, hgate, Run.stopped, Run.start]
  | ok =>
    by_cases hpending : report.pending = []
    · refine .inr (hnothing (fun hand => hand.2.1 hpending) ?_ ?_)
      · simp [Env.applyFiles, hgate, hpending, Run.idle]
      · simp [Env.applyFiles, hgate, hpending, Run.idle, Run.start]
    cases hpre : env.preflight files planned with
    | error err =>
      refine .inr (hnothing (fun hand => ?_) ?_ ?_)
      · rw [hpre] at hand
        cases hand.2.2
      · simp [Env.applyFiles, hgate, hpending, hpre, Run.stopped]
      · simp [Env.applyFiles, hgate, hpending, hpre, Run.stopped, Run.start]
    | ok =>
      have hloop : env.plan files planned report confirm =
          env.planLoop planned report.pending files := by
        rw [Env.plan, hgate, hpre]
        exact if_pos ⟨rfl, hpending, rfl⟩
      rw [← hplan, hloop]
      simp only [Env.applyFiles, hgate, hpending, hpre, if_false]
      by_cases hpasses : (env.planLoop planned report.pending files).Passes fault
      · have hloop := applyLoop_ok (.start files) hpasses
        have hlen := planLoop_length hpasses.1
        rw [hloop]
        by_cases hjournal : fault = some report.pending.length
        · refine .inr ⟨fun hfin => ?_, ?_, ?_⟩
          · have hlt := hfin.2 _ hjournal
            omega
          · simp [hjournal, Run.stopped]
          · rw [reached_of_passes hpasses]
            simp only [hjournal, if_true, Run.stopped]
            exact followAll_files env _ (.start files)
        · refine .inl ⟨⟨hpasses.1, fun n hn => ?_⟩, ?_⟩
          · have hle := hpasses.2 n hn
            have hne : n ≠ report.pending.length := by
              rintro rfl
              exact hjournal hn
            omega
          · simp only [hjournal, if_false]
            rfl
      · obtain ⟨run', err, hloop, hfiles⟩ := applyLoop_error (.start files) hpasses
        rw [hloop]
        refine .inr ⟨fun hfin => hpasses ⟨hfin.1, fun n hn => (hfin.2 n hn).le⟩, rfl, hfiles⟩

/-! ## What the backups hold -/

/-- A path that the loop writes: its target is no directory and stays in the
repository, and its backup can be named in a journal. -/
structure Env.Writable (env : Env δ) (files : Files) (path : Path) : Prop where
  noDirectory : files path ≠ some .directory
  confined : env.confined path = true
  named : validBackupPath path = true

theorem validBackupPath_of_relative (path : RelativePath) : validBackupPath path.value = true := by
  have hne : path.value ≠ [] := by
    intro heq
    have hlen := path.bounds.1
    rw [heq] at hlen
    cases hlen
  have hroot : path.value.head? ≠ some '/' := by
    intro heq
    obtain ⟨rest, hrest⟩ := List.head?_eq_some_iff.mp heq
    have habs := path.relative
    rw [hrest] at habs
    cases habs
  have hsegments := path.segments
  simp only [validBackupPath, Bool.and_eq_true, decide_eq_true_eq, Bool.not_eq_true',
    decide_eq_false_iff_not, all_eq_true]
  exact ⟨⟨⟨hne, path.plain.2⟩, hroot⟩, hsegments⟩

theorem byPath_path {item} (h : byPath planned path = some item) : item.path = path := by
  have hfound := List.find?_some h
  exact of_decide_eq_true hfound

theorem writeOf_writable (h : env.writeOf planned files observed = some w) :
    env.Writable files w.path := by
  simp only [Env.writeOf, Option.bind_eq_some_iff] at h
  obtain ⟨item, hitem, h⟩ := h
  split at h
  · rename_i hand
    obtain ⟨content, _, rfl⟩ := Option.map_eq_some_iff.mp h
    refine ⟨hand.2, hand.1, ?_⟩
    rw [byPath_path hitem]
    exact validBackupPath_of_relative observed.path
  · cases h

theorem planLoop_writable :
    ∀ w ∈ (env.planLoop planned pending files).writes, env.Writable files w.path := by
  induction pending generalizing files with
  | nil => simp [Env.planLoop]
  | cons observed rest ih =>
    cases hw : env.writeOf planned files observed with
    | none => simp [planLoop_cons_none hw]
    | some w =>
      rw [planLoop_cons_some hw]
      intro v hv
      have hfirst := writeOf_writable hw
      rcases mem_cons.mp hv with rfl | hv
      · exact hfirst
      have hlater := ih v hv
      refine ⟨?_, hlater.confined, hlater.named⟩
      by_cases heq : v.path = w.path
      · rw [heq]
        exact hfirst.noDirectory
      · have hdir := hlater.noDirectory
        rwa [update_of_ne heq] at hdir

theorem plan_writable (env : Env δ) (files : Files) (planned report) (confirm : Bool) :
    ∀ w ∈ (env.plan files planned report confirm).writes, env.Writable files w.path := by
  rw [Env.plan]
  split
  · exact planLoop_writable
  · simp

theorem journalOf_paths (env : Env δ) (ws) (files) :
    (env.journalOf ws files).map (·.path) = ws.map (·.path) := by
  induction ws generalizing files with
  | nil => rfl
  | cons w ws ih => simp [Env.journalOf, Env.entryOf, ih]

theorem follow_kept (h : run.files w.path ≠ some .directory) : (env.follow run w).kept =
      if (run.files w.path).isSome then Function.update run.kept w.path (run.files w.path)
      else run.kept := by
  cases hnode : run.files w.path with
  | none => simp [Env.follow, Run.backUp, hnode, Run.write]
  | some node =>
    cases node with
    | directory => exact absurd hnode h
    | text | binary => simp [Env.follow, Run.backUp, hnode, Run.write]

theorem follow_noDirectory (env : Env δ)
    (hdir : ∀ v ∈ w :: ws, run.files v.path ≠ some .directory) :
    ∀ v ∈ ws, (env.follow run w).files v.path ≠ some .directory := by
  intro v hv
  rw [follow_files]
  by_cases heq : v.path = w.path
  · simp [heq]
  · rw [update_of_ne heq]
    exact hdir v (.tail _ hv)

theorem followAll_kept_other
    (hdir : ∀ w ∈ ws, run.files w.path ≠ some .directory) (h : path ∉ ws.map (·.path)) :
    (env.followAll ws run).kept path = run.kept path := by
  induction ws generalizing run with
  | nil => rfl
  | cons w ws ih =>
    rw [map_cons, mem_cons, not_or] at h
    have hlater := follow_noDirectory env hdir
    calc (env.followAll (w :: ws) run).kept path
        = (env.followAll ws (env.follow run w)).kept path := rfl
      _ = (env.follow run w).kept path := ih hlater h.2
      _ = run.kept path := by
            rw [follow_kept (hdir w mem_cons_self)]
            split
            · exact update_of_ne h.1 _ _
            · rfl

theorem journalOf_labels (env : Env δ) (ws) (files) :
    (env.journalOf ws files).map (fun entry => (entry.path, entry.afterLabel)) =
      ws.map fun w => (w.path, env.label w.content) := by
  induction ws generalizing files with
  | nil => rfl
  | cons w ws ih => simp [Env.journalOf, Env.entryOf, ih]

theorem before_isSome (h : (files path).isSome) : (before (stores ws) files path).isSome := by
  induction ws generalizing files with
  | nil => exact h
  | cons w ws ih =>
    rw [stores_cons, before]
    split
    · exact h
    · refine ih ?_
      by_cases hpath : path = w.path
      · simp [hpath]
      · rwa [update_of_ne hpath]

theorem before_cons_of_mem (h : path ∈ ws.map (·.path)) : before (stores (w :: ws)) files path =
      before (stores ws) (Function.update files w.path (some (.text w.content))) path := by
  rw [stores_cons, before, map_fst_stores, if_neg fun hand => hand.2 h]

theorem mem_paths (h : entry ∈ env.journalOf ws files) : entry.path ∈ ws.map (·.path) := by
  rw [← journalOf_paths env ws files]
  exact mem_map_of_mem h

theorem before_of_replaced (h : entry ∈ env.journalOf ws files)
    (haction : entry.action ≠ .created) : (before (stores ws) files entry.path).isSome := by
  induction ws generalizing files with
  | nil => cases h
  | cons w ws ih =>
    rw [Env.journalOf, mem_cons] at h
    rcases h with rfl | h
    · have hsome : (files w.path).isSome := by
        cases hnode : files w.path with
        | none => simp [Env.entryOf, hnode] at haction
        | some node => rfl
      exact before_isSome hsome
    · rw [before_cons_of_mem (mem_paths h)]
      exact ih h

/-- The backup directory ends with what each file held before its last write. -/
theorem followAll_kept (run) (hdir : ∀ w ∈ ws, run.files w.path ≠ some .directory)
    (hpath : path ∈ ws.map (·.path)) (hsome : (before (stores ws) run.files path).isSome) :
    (env.followAll ws run).kept path = before (stores ws) run.files path := by
  induction ws generalizing run with
  | nil => cases hpath
  | cons w ws ih =>
    by_cases hmem : path ∈ ws.map (·.path)
    · rw [before_cons_of_mem hmem, ← follow_files env] at hsome ⊢
      exact ih _ (follow_noDirectory env hdir) hmem hsome
    rw [map_cons, mem_cons] at hpath
    have hw := hpath.resolve_right hmem
    subst hw
    rw [stores_cons, before, map_fst_stores, if_pos ⟨rfl, hmem⟩] at hsome ⊢
    calc (env.followAll (w :: ws) run).kept w.path
        = (env.followAll ws (env.follow run w)).kept w.path := rfl
      _ = (env.follow run w).kept w.path := followAll_kept_other (follow_noDirectory env hdir) hmem
      _ = run.files w.path := by
            rw [follow_kept (hdir w mem_cons_self), if_pos hsome, update_self]

theorem restore_kept (run) (hdir : ∀ w ∈ ws, run.files w.path ≠ some .directory)
    (h : entry ∈ env.journalOf ws run.files) :
    restore (env.followAll ws run).kept entry = restore (before (stores ws) run.files) entry := by
  rw [restore, restore]
  by_cases haction : entry.action = .created
  · rw [if_pos haction, if_pos haction]
  · rw [if_neg haction, if_neg haction,
      followAll_kept run hdir (mem_paths h) (before_of_replaced h haction)]

theorem before_noDirectory
    (hdir : files path ≠ some .directory) : before (stores ws) files path ≠ some .directory := by
  induction ws generalizing files with
  | nil => exact hdir
  | cons w ws ih =>
    rw [stores_cons, before]
    split
    · exact hdir
    · refine ih ?_
      by_cases hpath : path = w.path
      · simp [hpath]
      · rwa [update_of_ne hpath]

theorem journalOf_action (h : entry ∈ env.journalOf ws files) :
    entry.action = .created ∨ (entry.action = .replaced ∧ entry.backup = some entry.path) := by
  induction ws generalizing files with
  | nil => cases h
  | cons w ws ih =>
    rw [Env.journalOf, mem_cons] at h
    rcases h with rfl | h
    · cases hsome : (files w.path).isSome with
      | false => exact .inl (by simp [Env.entryOf, hsome])
      | true => exact .inr ⟨by simp [Env.entryOf, hsome], by simp [Env.entryOf, hsome]⟩
    · exact ih h

theorem created_last {front back} (heq : env.journalOf ws files = front ++ entry :: back)
    (hlast : entry.path ∉ back.map (·.path)) (haction : entry.action = .created) :
    before (stores ws) files entry.path = none := by
  induction ws generalizing files front with
  | nil => simp [Env.journalOf] at heq
  | cons w ws ih =>
    rw [Env.journalOf] at heq
    cases front with
    | nil =>
      rw [nil_append, List.cons.injEq] at heq
      obtain ⟨rfl, rfl⟩ := heq
      rw [journalOf_paths] at hlast
      have hbefore : before (stores (w :: ws)) files w.path = files w.path := by
        rw [stores_cons, before, map_fst_stores, if_pos ⟨rfl, hlast⟩]
      show before (stores (w :: ws)) files w.path = none
      rw [hbefore]
      cases hnode : files w.path with
      | none => rfl
      | some node => simp [Env.entryOf, hnode] at haction
    | cons first front =>
      rw [cons_append, List.cons.injEq] at heq
      have hmem : entry ∈ env.journalOf ws
          (Function.update files w.path (some (.text w.content))) := by
        rw [heq.2]
        simp
      rw [before_cons_of_mem (mem_paths hmem)]
      exact ih heq.2

/-- Undoing the entries puts back what each file held before its last write. -/
theorem restoreAll (env : Env δ) (ws) (files other : Files) (path : Path) :
    writeAll ((env.journalOf ws files).map (restore (before (stores ws) files))) other path =
      if path ∈ ws.map (·.path) then before (stores ws) files path else other path := by
  have hkeys : ((env.journalOf ws files).map (restore (before (stores ws) files))).map Prod.fst =
      (stores ws).map Prod.fst := by
    rw [map_fst_stores, ← journalOf_paths env ws files, map_map]
    rfl
  have hlast : ∀ front back r,
      (env.journalOf ws files).map (restore (before (stores ws) files)) = front ++ r :: back →
      r.1 ∉ back.map Prod.fst → r.2 = before (stores ws) files r.1 := by
    intro front back r heq hlast
    obtain ⟨fronts, rest, hsplit, -, hrest⟩ := map_eq_append_iff.mp heq
    obtain ⟨entry, backs, rfl, rfl, rfl⟩ := map_eq_cons_iff.mp hrest
    rw [map_map] at hlast
    have hlast : entry.path ∉ backs.map (·.path) := hlast
    by_cases haction : entry.action = .created
    · rw [restore, if_pos haction]
      exact (created_last hsplit hlast haction).symm
    · rw [restore, if_neg haction]
  have hall := writeAll_before hkeys hlast other path
  rw [map_fst_stores] at hall
  by_cases hmem : path ∈ ws.map (·.path)
  · rw [if_pos hmem] at hall ⊢
    exact hall
  · rw [if_neg hmem] at hall ⊢
    exact hall

end StudioOS.Bootstrap
