import StudioOS.AiLibrary.System

/-!
# AI library — Steps

What one step can do, branch by branch (`step_moves`), with the facts
the branch was taken for. The invariants go by cases on `Moves` and do
not look at `step` again.
-/

namespace StudioOS.AiLibrary

open Option Authz Resolution Runs

variable {env : Surroundings} {s t : State} {act : Act} {c : Nat} {k : Caller}

variable {id : Uuid}

@[simp] theorem setPhase_tables (phase) : (s.setPhase c k phase).tables = s.tables := rfl

@[simp] theorem setPhase_locks (phase) : (s.setPhase c k phase).locks = s.locks := rfl

@[simp] theorem setPhase_staged (phase) : (s.setPhase c k phase).staged = s.staged := rfl

@[simp] theorem setPhase_issued (phase) : (s.setPhase c k phase).issued = s.issued := rfl

@[simp] theorem setPhase_writes (phase) : (s.setPhase c k phase).writes = s.writes := rfl

@[simp] theorem setPhase_callers (phase) : (s.setPhase c k phase).callers =
      Function.update s.callers c (some { k with phase := phase }) := rfl

@[simp] theorem finish_tables (result) : (s.finish c k result).tables = s.tables := rfl

@[simp] theorem finish_issued (result) : (s.finish c k result).issued = s.issued := rfl

@[simp] theorem finish_writes (result) : (s.finish c k result).writes = s.writes := rfl

@[simp] theorem finish_callers (result) : (s.finish c k result).callers =
      Function.update s.callers c (some { k with phase := .done result }) := rfl

theorem mem_finish_staged {result entry} :
    entry ∈ (s.finish c k result).staged ↔ entry ∈ s.staged ∧ entry.1 ≠ c := by
  simp [State.finish]

theorem finish_locks_iff {result d} :
    (s.finish c k result).locks id = some d ↔ s.locks id = some d ∧ d ≠ c := by
  show (if s.locks id = some c then none else s.locks id) = some d ↔ _
  split
  · rename_i h
    rw [h]
    constructor
    · intro hd
      cases hd
    · rintro ⟨hd, hne⟩
      exact absurd (some.inj hd).symm hne
  · rename_i h
    constructor
    · intro hd
      refine ⟨hd, ?_⟩
      rintro rfl
      exact h hd
    · exact And.left

/-! ## The branches -/

/-- The branches of `step`, each with what was decided on it. -/
inductive Moves (env : Surroundings) (s : State) : Act → State → Prop where
  | begins {c : Nat} (call) (free : s.callers c = none) :
      Moves env s (.call c call)
        { s with
          callers := Function.update s.callers c
            (some { call := call, phase := call.firstPhase env s.tables }) }
  | refused {act : Act} {k} (begun : s.callers act.caller = some k)
      (running : k.phase.result = none) (e) {issued} (more : s.issued ⊆ issued) :
      Moves env s act ({ s with issued := issued }.finish act.caller k (.error e))
  | insertsResource {c k principal data projectId id} (begun : s.callers c = some k)
      (create : k.call = .createResource principal data) (phase : k.phase = .checked projectId)
      (fresh : id ∉ s.issued) :
      Moves env s (.insertResource c id)
        (State.setPhase
          { s with
            staged := (c, newResource principal data projectId id) :: s.staged
            issued := id :: s.issued }
          c k (.inserted (newResource principal data projectId id)))
  | locks {c k principal resourceId data resource} (begun : s.callers c = some k)
      (create : k.call = .createResourceVersion principal resourceId data)
      (phase : k.phase = .loaded resource) (free : s.locks resource.id = none) :
      Moves env s (.lock c)
        (State.setPhase { s with locks := Function.update s.locks resource.id (some c) } c k
          (.locked resource))
  | insertsVersion {c k id resource version data} (begun : s.callers c = some k)
      (input : versionInput s.tables k = some (resource, version, data)) (fresh : id ∉ s.issued) :
      Moves env s (.insertVersion c id)
        (State.setPhase { s with issued := id :: s.issued } c k
          (.binding
            { resource := resource
              row := { id := id, resourceId := resource.id, version := version
                       title := data.title, content := data.content } }
            data.dependencies))
  | targets {c k draft pin pins target} (begun : s.callers c = some k)
      (phase : k.phase = .binding draft (pin :: pins))
      (found : AiLibrary.resolvePin k.call.principal (s.seenResources c) pin = .ok target) :
      Moves env s (.resolvePin c) (s.setPhase c k (.targeted draft pin target pins))
  | binds {c k draft next pin pins target row} (begun : s.callers c = some k)
      (phase : k.phase = .targeted draft pin target pins)
      (found : versionRow (s.tables.versions ++ [draft.row]) target.id pin.version = some row)
      (bound : draft.bind pin target = .ok next) :
      Moves env s (.findVersion c) (s.setPhase c k (.binding next pins))
  | commitsResource {c k principal data draft} (begun : s.callers c = some k)
      (create : k.call = .createResource principal data) (phase : k.phase = .binding draft []) :
      Moves env s (.commit c)
        (State.finish
          { s with tables := (s.tables.addResource draft.resource).addVersion draft }
          c k (.ok true))
  | commitsVersion {c k principal resourceId data draft} (begun : s.callers c = some k)
      (create : k.call = .createResourceVersion principal resourceId data)
      (phase : k.phase = .binding draft []) :
      Moves env s (.commit c)
        (State.finish
          { s with
            tables := (s.tables.update draft.resource draft.resource.bumped).addVersion draft
            writes := s.writes ++ [(draft.resource.id, draft.resource.bumped.version)] }
          c k (.ok true))
  | keeps {c k resource} (begun : s.callers c = some k) (phase : k.phase = .loaded resource)
      (decided : k.call.decision s.tables.versions resource = some (.ok none)) :
      Moves env s (.check c) (s.finish c k (.ok false))
  | assigns {c k resource assigned} (begun : s.callers c = some k)
      (phase : k.phase = .loaded resource)
      (decided : k.call.decision s.tables.versions resource = some (.ok (some assigned))) :
      Moves env s (.check c) (s.setPhase c k (.assigned resource assigned))
  | writes {c k loaded assigned} (begun : s.callers c = some k)
      (phase : k.phase = .assigned loaded assigned) (free : s.locks loaded.id = none) :
      Moves env s (.write c)
        (State.finish
          { s with
            tables := s.tables.update loaded assigned
            writes := s.writes ++ [(loaded.id, assigned.version)] }
          c k (.ok true))

theorem Moves.refusedAt (begun : s.callers act.caller = some k) {phase : Phase}
    (hphase : k.phase = phase) (running : phase.result = none) (e : HttpError) :
    Moves env s act (s.finish act.caller k (.error e)) :=
  .refused begun (hphase.symm ▸ running) e (List.Subset.refl _)

theorem versionInput_running {tables input}
    (h : versionInput tables k = some input) : k.phase.result = none := by
  unfold versionInput at h
  split at h
  · rename_i hphase
    rw [hphase]
    rfl
  · rename_i hphase
    rw [hphase]
    rfl
  · cases h

theorem insertResource_moves (begun : s.callers c = some k)
    (h : s.insertResource c k id = some t) : Moves env s (.insertResource c id) t := by
  unfold State.insertResource at h
  split at h
  · rename_i principal data projectId hcall hphase
    dsimp only at h
    split at h
    · cases h
    rename_i hfresh
    rw [not_or] at hfresh
    split at h
    · cases h
      exact .refused begun (by rw [hphase]; rfl) _ (List.subset_cons_self id s.issued)
    · cases h
      exact .insertsResource begun hcall hphase hfresh.1
  · cases h

theorem lock_moves (begun : s.callers c = some k) (h : s.lock c k = some t) :
    Moves env s (.lock c) t := by
  unfold State.lock at h
  split at h
  · rename_i hcall hphase
    split at h
    · cases h
      exact .refusedAt begun hphase rfl _
    · split at h
      · rename_i hfree
        cases h
        exact .locks begun hcall hphase hfree
      · cases h
  · cases h

theorem insertVersion_moves (begun : s.callers c = some k)
    (h : s.insertVersion env c k id = some t) : Moves env s (.insertVersion c id) t := by
  unfold State.insertVersion at h
  split at h
  · cases h
  rename_i hinput
  split at h
  · cases h
    exact .refusedAt begun rfl (versionInput_running hinput) _
  · split at h
    · cases h
    · rename_i hfresh
      cases h
      exact .insertsVersion begun hinput hfresh

theorem resolvePin_moves (begun : s.callers c = some k) (h : s.resolvePin c k = some t) :
    Moves env s (.resolvePin c) t := by
  unfold State.resolvePin at h
  split at h
  · rename_i hphase
    split at h
    · cases h
      exact .refusedAt begun hphase rfl _
    · rename_i hfound
      cases h
      exact .targets begun hphase hfound
  · cases h

theorem findVersion_moves (begun : s.callers c = some k) (h : s.findVersion c k = some t) :
    Moves env s (.findVersion c) t := by
  unfold State.findVersion at h
  split at h
  · rename_i hphase
    split at h
    · cases h
      exact .refusedAt begun hphase rfl _
    rename_i hfound
    split at h
    · cases h
      exact .refusedAt begun hphase rfl _
    · rename_i hbound
      cases h
      exact .binds begun hphase hfound hbound
  · cases h

theorem commit_moves (begun : s.callers c = some k) (h : s.commit c k = some t) :
    Moves env s (.commit c) t := by
  unfold State.commit at h
  split at h
  · rename_i hcall hphase
    cases h
    exact .commitsResource begun hcall hphase
  · rename_i hcall hphase
    cases h
    exact .commitsVersion begun hcall hphase
  · cases h

theorem check_moves (begun : s.callers c = some k) (h : s.check c k = some t) :
    Moves env s (.check c) t := by
  unfold State.check at h
  split at h
  · rename_i resource hphase
    obtain ⟨result, hdecided, rfl⟩ := map_eq_some_iff.mp h
    cases result with
    | error e => exact .refusedAt begun hphase rfl e
    | ok assigned =>
      cases assigned with
      | none => exact .keeps begun hphase hdecided
      | some assigned => exact .assigns begun hphase hdecided
  · cases h

theorem write_moves (begun : s.callers c = some k) (h : s.write c k = some t) :
    Moves env s (.write c) t := by
  unfold State.write at h
  split at h
  · rename_i hphase
    split at h
    · rename_i hfree
      cases h
      exact .writes begun hphase hfree
    · cases h
  · cases h

/-- **What a step can do.** -/
theorem step_moves (h : step env s act = some t) : Moves env s act t := by
  unfold step at h
  cases hcaller : s.callers act.caller with
  | none =>
    rw [hcaller] at h
    cases act with
    | call c call =>
      cases h
      exact .begins call hcaller
    | _ => cases h
  | some k =>
    rw [hcaller] at h
    cases act with
    | call c call => cases h
    | insertResource c id => exact insertResource_moves hcaller h
    | lock c => exact lock_moves hcaller h
    | insertVersion c id => exact insertVersion_moves hcaller h
    | resolvePin c => exact resolvePin_moves hcaller h
    | findVersion c => exact findVersion_moves hcaller h
    | commit c => exact commit_moves hcaller h
    | check c => exact check_moves hcaller h
    | write c => exact write_moves hcaller h

end StudioOS.AiLibrary
