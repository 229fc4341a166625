import Mathlib.Data.List.Induction
import StudioOS.Registry.Steps

/-!
# Registry — Bindings

What holds of the registry after any calls: no two workspaces share a folder, no confirmation is
consumed twice, and the roots of a workspace change only with a confirmation — but for a `create`
whose request calls the new roots the current ones.
-/

namespace StudioOS.Registry

open List

variable {Digest : Type} {env : Env Digest} {s : State Digest} {calls : List Call} {now : Int}

/-- The pending confirmations are those that were issued. -/
def Issued (env : Env Digest) (calls : List Call) (confirmations : Confirmations Digest) : Prop :=
  ∀ p ∈ confirmations.pending, ∃ target issued,
    .issue p.1 target issued ∈ calls ∧ p.2 = env.entry target issued

/-- The invariant of the registry after the calls. -/
structure State.Inv (env : Env Digest) (calls : List Call) (s : State Digest) : Prop where
  ids : (s.files.map (·.workspaceId)).Nodup
  keys : ∀ a ∈ s.files, ∀ b ∈ s.files, env.key a = env.key b → a = b
  issued : Issued env calls s.confirmations
  consumed : s.confirmations.consumed.Nodup

theorem State.Inv.mono {more} (h : s.Inv env calls) (hsub : calls ⊆ more) : s.Inv env more :=
  { h with
    issued := fun p hp => by
      obtain ⟨target, issued, hmem, hentry⟩ := h.issued p hp
      exact ⟨target, issued, hsub hmem, hentry⟩ }

theorem State.Inv.sublist (h : s.Inv env calls) {files} (hsub : files.Sublist s.files) :
    ({ s with files } : State Digest).Inv env calls where
  ids := h.ids.sublist (hsub.map _)
  keys a ha b hb := h.keys a (hsub.subset ha) b (hsub.subset hb)
  issued := h.issued
  consumed := h.consumed

theorem State.Inv.issue {calls : List Call} {s : State Digest} (h : s.Inv env calls)
    {id : String} {target : WorkspaceRoots} {now : Int} (hcall : .issue id target now ∈ calls) :
    ({ s with confirmations := env.issue s.confirmations id target now } : State Digest).Inv env
      calls where
  ids := h.ids
  keys := h.keys
  issued p hp := by
    rcases mem_cons.1 hp with rfl | hp
    · exact ⟨target, now, hcall, rfl⟩
    · exact h.issued p (mem_of_mem_filter hp)
  consumed := h.consumed

theorem State.Inv.take (h : s.Inv env calls) {id} (hid : id ∉ s.confirmations.consumed) :
    ({ s with confirmations := s.confirmations.take id } : State Digest).Inv env calls where
  ids := h.ids
  keys := h.keys
  issued p hp := h.issued p (mem_of_mem_filter hp)
  consumed := nodup_cons.2 ⟨hid, h.consumed⟩

theorem State.Inv.put (h : s.Inv env calls) {config}
    (hfree : ∀ other ∈ s.files, other.workspaceId ≠ config.workspaceId →
      env.key other ≠ env.key config) :
    ({ s with files := put s.files config } : State Digest).Inv env calls where
  ids := put_ids_nodup config h.ids
  keys a ha b hb hkey := by
    rcases mem_put.1 ha with rfl | ⟨hmem, hne⟩ <;> rcases mem_put.1 hb with rfl | ⟨hmem', hne'⟩
    · rfl
    · exact absurd hkey.symm (hfree b hmem' hne')
    · exact absurd hkey (hfree a hmem hne)
    · exact h.keys a hmem b hmem' hkey
  issued := h.issued
  consumed := h.consumed

theorem State.Inv.refused {calls s s'} (h : s.Inv env calls)
    (hrefused : Refused s s') : s'.Inv env calls := by
  obtain ⟨files', confirmations'⟩ := s'
  obtain ⟨hfiles, hsame | ⟨id, hid, htake⟩⟩ := hrefused
  · cases hfiles
    cases hsame
    exact h
  · cases hfiles
    cases htake
    exact h.take hid

theorem State.Inv.written {calls s s'} (h : s.Inv env calls) {request now}
    (hwritten : Written env s request now s')
    (hfree : ∀ other ∈ s.files, other.workspaceId ≠ request.config.workspaceId →
      env.key other ≠ env.key request.config) : s'.Inv env calls := by
  have hput := h.put hfree
  obtain ⟨files', confirmations'⟩ := s'
  obtain ⟨hfiles, ⟨-, hsame⟩ | ⟨-, id, entry, -, hconfirms, htake⟩⟩ := hwritten
  · cases hfiles
    cases hsame
    exact hput
  · cases hfiles
    cases htake
    exact hput.take hconfirms.fresh

/-- The search keeps the folders apart: a workspace that stays in its folder
meets no other one there. -/
theorem State.Inv.free_of_conflict_none (h : s.Inv env calls) {config rejectSameProject}
    (hconflict : env.sameFolderConflict s.files config rejectSameProject = none)
    (hstays : rejectSameProject = false → ∃ stored ∈ s.files,
      stored.workspaceId = config.workspaceId ∧ env.key stored = env.key config) :
    ∀ other ∈ s.files, other.workspaceId ≠ config.workspaceId → env.key other ≠ env.key config := by
  intro other hother hid hkey
  obtain ⟨hreject, -, -⟩ := conflict_none hconflict hother hid hkey
  obtain ⟨stored, hstored, hsame, hfolder⟩ := hstays hreject
  have heq := h.keys other hother stored hstored (hkey.trans hfolder.symm)
  exact hid (heq ▸ hsame)

theorem stored_of_refused {s'} (h : Refused s s') (workspaceId) :
    s'.stored workspaceId = s.stored workspaceId := by
  rw [State.stored, State.stored, h.1]

theorem stored_of_written {s' request} (h : Written env s request now s') (workspaceId) :
    s'.stored workspaceId = if workspaceId = request.config.workspaceId then some request.config
      else s.stored workspaceId := by
  have hfiles : s'.stored workspaceId =
      ({ s with files := put s.files request.config } : State Digest).stored workspaceId := by
    rw [State.stored, State.stored, h.files]
  rw [hfiles]
  by_cases hid : workspaceId = request.config.workspaceId
  · rw [if_pos hid, hid, stored_put_self]
  · rw [if_neg hid, stored_put_of_ne hid]

variable [DecidableEq Digest] {call : Call}

theorem State.Inv.step (h : s.Inv env calls) (call) :
    (env.step s call).Inv env (calls ++ [call]) := by
  have hmono := h.mono (subset_append_left calls [call])
  cases call with
  | issue id target now => exact hmono.issue (by simp)
  | create request profile now disk =>
    rcases create_cases s request profile now disk with hrefused | ⟨-, -, hadmitted, hwritten⟩
    · exact hmono.refused hrefused
    · exact hmono.written hwritten (h.free_of_conflict_none hadmitted.no_conflict (by simp))
  | save request profile now disk =>
    rcases save_cases s request profile now disk with
      hrefused | ⟨stored, hstored, -, hadmitted, hwritten⟩
    · exact hmono.refused hrefused
    · obtain ⟨hmem, hid⟩ := (stored_eq_some h.ids).1 hstored
      refine hmono.written hwritten (h.free_of_conflict_none hadmitted.no_conflict ?_)
      intro hstays
      have hkey := of_decide_eq_false hstays
      exact ⟨stored, hmem, hid, (not_not.1 hkey).symm⟩
  | dissociate workspaceId profile unlinks =>
    rw [Env.step]
    rcases dissociate_cases s workspaceId profile unlinks with hsame | hremoved
    · rwa [hsame]
    · rw [hremoved]
      exact hmono.sublist filter_sublist

theorem run_inv (calls) : (env.run calls).Inv env calls := by
  induction calls using List.reverseRecOn with
  | nil =>
    exact ⟨nodup_nil, fun a ha => absurd ha (by simp [Env.run]),
      fun p hp => absurd hp (by simp [Env.run]), nodup_nil⟩
  | append_singleton calls call ih =>
    rw [Env.run, foldl_append]
    exact ih.step call

/-! ## Roots -/

/-- The request of a call and its reading of the clock. -/
def Call.request : Call → Option (WorkspaceSaveConfigRequest × Int)
  | .create request _ now _ => some (request, now)
  | .save request _ now _ => some (request, now)
  | _ => none

/-- The call consumed a confirmation issued for roots with the same
fingerprint, and not expired. -/
def Confirmed (env : Env Digest) (calls : List Call) (s : State Digest) (call : Call)
    (roots : WorkspaceRoots) : Prop :=
  ∃ request now id target issued, call.request = some (request, now) ∧
    request.rootConfirmationId = some id ∧ .issue id target issued ∈ calls ∧
    env.rootsFingerprint target = env.rootsFingerprint roots ∧
    now ≤ issued + env.ttlSeconds ∧
    (env.step s call).confirmations.consumed = id :: s.confirmations.consumed

/-- The call gives a workspace other roots only with a confirmation of
them. -/
def RootsConfirmed (env : Env Digest) (calls : List Call) (s : State Digest) (call : Call) : Prop :=
  ∀ workspaceId config, (env.step s call).stored workspaceId = some config →
    (s.stored workspaceId).map (·.roots) ≠ some config.roots →
    Confirmed env calls s call config.roots

/-- A `create` that nothing refuses and whose request calls the roots of the
new config the current ones. -/
def UnconfirmedCreate (env : Env Digest) (s : State Digest) : Call → Prop
  | .create request profile _ disk =>
    request.currentRoots = some request.config.roots ∧ request.config.profile = profile ∧
    s.stored request.config.workspaceId = none ∧ Admitted env s.files request.config true disk
  | _ => False

theorem confirmed_of_written (hinv : s.Inv env calls) {request}
    (hcall : call.request = some (request, now)) (h : Written env s request now (env.step s call))
    (hnew : request.currentRoots ≠ some request.config.roots) :
    Confirmed env calls s call request.config.roots := by
  rcases h.roots with ⟨hsame, -⟩ | ⟨-, id, entry, hid, hconfirms, htake⟩
  · exact absurd hsame hnew
  · obtain ⟨target, issued, hissue, hentry⟩ := hinv.issued (id, entry) hconfirms.pending
    dsimp only at hentry
    subst hentry
    exact ⟨request, now, id, target, issued, hcall, hid, hissue, hconfirms.same_roots,
      hconfirms.not_expired, by rw [htake]; rfl⟩

theorem rootsConfirmed_of_refused
    (h : Refused s (env.step s call)) : RootsConfirmed env calls s call := by
  intro workspaceId config hstored hchanged
  rw [stored_of_refused h workspaceId] at hstored
  rw [hstored] at hchanged
  exact absurd rfl hchanged

/-- A written config whose roots the request does not call the current ones, or
whose roots are the stored ones. -/
theorem rootsConfirmed_of_written (hinv : s.Inv env calls) {request}
    (hcall : call.request = some (request, now)) (h : Written env s request now (env.step s call))
    (hsame : request.currentRoots = some request.config.roots →
      (s.stored request.config.workspaceId).map (·.roots) = some request.config.roots) :
    RootsConfirmed env calls s call := by
  intro workspaceId config hstored hchanged
  rw [stored_of_written h workspaceId] at hstored
  by_cases hid : workspaceId = request.config.workspaceId
  · rw [if_pos hid] at hstored
    cases hstored
    subst hid
    exact confirmed_of_written hinv hcall h fun hcurrent => hchanged (hsame hcurrent)
  · rw [if_neg hid] at hstored
    rw [hstored] at hchanged
    exact absurd rfl hchanged

/-- A `create` that calls its roots the current ones writes them without a
confirmation. -/
theorem not_rootsConfirmed
    (h : UnconfirmedCreate env s call) : ¬RootsConfirmed env calls s call := by
  cases call with
  | create request profile now disk =>
    obtain ⟨hcurrent, hprofile, hnone, hsecret, hconflict, rfl⟩ := h
    have hid : ¬request.rootConfirmationId.isSome = true := fun hsome =>
      request.confirmed.2 hsome hcurrent
    have hconsume : env.consume s.confirmations request.rootConfirmationId request.currentRoots
        request.config.roots now = (s.confirmations, .ok ()) := by
      unfold Env.consume
      rw [if_pos hcurrent, if_neg hid]
    have hchecks : s.createChecks request profile = .ok () := by
      rw [State.createChecks, if_neg (not_not_intro hprofile), hnone]
      rfl
    have hstep : env.step s (.create request profile now .done) =
        { s with files := put s.files request.config } := by
      rw [Env.step, Env.create, hchecks]
      dsimp only
      rw [Env.commit, hconsume]
      dsimp only
      rw [Env.finish, if_neg (not_not_intro hsecret), hconflict]
      rfl
    intro hconfirmed
    have hstored : (env.step s (.create request profile now .done)).stored
        request.config.workspaceId = some request.config := by
      rw [hstep, stored_put_self]
    obtain ⟨_, _, id, _, _, _, _, _, _, _, hconsumed⟩ :=
      hconfirmed request.config.workspaceId request.config hstored (by simp [hnone])
    -- The consumed ids are the same as before.
    rw [hstep] at hconsumed
    exact cons_ne_self id _ hconsumed.symm
  | issue | save | dissociate => exact h.elim

theorem rootsConfirmed_iff (hinv : s.Inv env calls)
    (call) : RootsConfirmed env calls s call ↔ ¬UnconfirmedCreate env s call := by
  constructor
  · intro h hcreate
    exact not_rootsConfirmed hcreate h
  intro h
  cases call with
  | issue id target now =>
    intro workspaceId config hstored hchanged
    have hsame : (env.step s (.issue id target now)).stored workspaceId =
        s.stored workspaceId := rfl
    rw [← hsame, hstored] at hchanged
    exact absurd rfl hchanged
  | create request profile now disk =>
    rcases create_cases s request profile now disk with 
      hrefused | ⟨hprofile, hnone, hadmitted, hwritten⟩
    · exact rootsConfirmed_of_refused hrefused
    · exact rootsConfirmed_of_written hinv rfl hwritten fun hcurrent =>
        absurd ⟨hcurrent, hprofile, hnone, hadmitted⟩ h
  | save request profile now disk =>
    rcases save_cases s request profile now disk with
      hrefused | ⟨stored, hstored, hcurrent, _, hwritten⟩
    · exact rootsConfirmed_of_refused hrefused
    · refine rootsConfirmed_of_written hinv rfl hwritten fun hsame => ?_
      rw [hstored, Option.map_some, ← hsame, hcurrent]
  | dissociate workspaceId profile unlinks =>
    intro other config hstored hchanged
    rw [Env.step] at hstored
    rcases dissociate_cases s workspaceId profile unlinks with hsame | hremoved
    · rw [hsame] at hstored
      rw [hstored] at hchanged
      exact absurd rfl hchanged
    rw [hremoved] at hstored
    have hsub := filter_sublist (p := fun other => decide (other.workspaceId ≠ workspaceId))
      (l := s.files)
    obtain ⟨hmem, hid⟩ := (stored_eq_some (hinv.sublist hsub).ids).1 hstored
    rw [(stored_eq_some hinv.ids).2 ⟨hsub.subset hmem, hid⟩] at hchanged
    exact absurd rfl hchanged

/-- After any calls no two workspaces have one folder and no confirmation was
consumed twice; and a call gives a workspace other roots with a confirmation
of them exactly when it is no `create` that calls its roots the current
ones. -/
theorem registry_bindings (env : Env Digest) (calls : List Call) (call : Call) :
    (∀ a ∈ (env.run calls).files, ∀ b ∈ (env.run calls).files, env.key a = env.key b → a = b) ∧
    (env.run calls).confirmations.consumed.Nodup ∧ (RootsConfirmed env calls (env.run calls) call ↔
      ¬UnconfirmedCreate env (env.run calls) call) := by
  have hinv := @run_inv _ env _ calls
  exact ⟨hinv.keys, hinv.consumed, rootsConfirmed_iff hinv call⟩

def demoEnv : Env Canonical where
  lower := List.map Char.toLower
  digest := id
  secretIssues _ := []
  ttlSeconds := 600

def demoProfile : ProfileRef := ⟨"local", "https://studio.example.com"⟩

def demoRoots (folder : String) : WorkspaceRoots := ⟨folder.toList, [], by decide, by decide⟩

def demoConfig (folder : String) : LocalWorkspaceConfig where
  workspaceId := 1
  profile := demoProfile
  projectId := 1
  roots := demoRoots folder
  secretReferences := []
  updatedAt := 0
  rest := ""
  references := by simp

/-- The folder `work` is confirmed, linked and unlinked. -/
def demoCalls : List Call :=
  [.issue "rc-1" (demoRoots "C:\\work") 0,
    .create ⟨demoConfig "C:\\work", none, none, some "rc-1", by decide⟩ demoProfile 1 .done,
    .dissociate 1 demoProfile true]

/-- The folder `private` is linked as if it were linked already. -/
def demoCreate : Call :=
  .create ⟨demoConfig "C:\\private", some (demoRoots "C:\\private"), none, none, by decide⟩
    demoProfile 2 .done

/-- The roots of the workspace change from `work` to `private`, which nothing
confirmed. -/
theorem roots_change_unconfirmed :
    ((demoEnv.run (demoCalls.take 2)).stored 1).map (·.roots) = some (demoRoots "C:\\work") ∧
    ((demoEnv.step (demoEnv.run demoCalls) demoCreate).stored 1).map (·.roots) =
      some (demoRoots "C:\\private") ∧
    ¬RootsConfirmed demoEnv demoCalls (demoEnv.run demoCalls) demoCreate := by
  refine ⟨by decide, by decide, not_rootsConfirmed ?_⟩
  exact ⟨rfl, rfl, by decide, rfl, by decide, rfl⟩

end StudioOS.Registry
