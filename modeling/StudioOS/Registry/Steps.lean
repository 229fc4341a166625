import StudioOS.Registry.Model

/-!
# Registry — Steps

What a call does to the files and to the confirmations: `consume_ok` is all
that a consumption lets through, `finish_cases` all that `create` and `save`
write, and `step_cases` all that a call can do.
-/

namespace StudioOS.Registry

variable {Digest : Type} {env : Env Digest}

variable {s : State Digest} {workspaceId : Nat} {config : LocalWorkspaceConfig}
  {files : List LocalWorkspaceConfig}

/-! ## Files -/

theorem stored_eq_some (hids : (s.files.map (·.workspaceId)).Nodup) :
    s.stored workspaceId = some config ↔ config ∈ s.files ∧ config.workspaceId = workspaceId := by
  constructor
  · intro h
    exact ⟨List.mem_of_find?_eq_some h, by simpa using List.find?_some h⟩
  rintro ⟨hmem, rfl⟩
  obtain ⟨found, hfound⟩ : ∃ found, s.stored config.workspaceId = some found := by
    apply Option.isSome_iff_exists.1
    rw [State.stored, List.find?_isSome]
    exact ⟨config, hmem, by simp⟩
  have hmem' := List.mem_of_find?_eq_some hfound
  have hid : found.workspaceId = config.workspaceId := by simpa using List.find?_some hfound
  rw [hfound, List.inj_on_of_nodup_map hids hmem' hmem hid]

theorem mem_put {other} : other ∈ put files config ↔
      other = config ∨ other ∈ files ∧ other.workspaceId ≠ config.workspaceId := by
  simp [put]

theorem put_ids_nodup (config) (h : (files.map (·.workspaceId)).Nodup) :
    ((put files config).map (·.workspaceId)).Nodup := by
  rw [put, List.map_cons, List.nodup_cons]
  constructor
  · intro hmem
    obtain ⟨other, hother, hid⟩ := List.mem_map.1 hmem
    have hne := (List.mem_filter.1 hother).2
    simp [hid] at hne
  · exact h.sublist ((List.filter_sublist).map _)

theorem stored_put_self :
    ({ s with files := put s.files config } : State Digest).stored config.workspaceId =
      some config := by
  rw [State.stored, put, List.find?_cons_of_pos (by simp)]

theorem stored_put_of_ne (h : workspaceId ≠ config.workspaceId) :
    ({ s with files := put s.files config } : State Digest).stored workspaceId =
      s.stored workspaceId := by
  rw [State.stored, put, List.find?_cons_of_neg (by simpa using h.symm), State.stored,
    List.find?_filter]
  congr 1
  funext other
  by_cases hid : other.workspaceId = workspaceId
  · simp [hid, h]
  · simp [hid]

theorem conflict_none {other rejectSameProject}
    (h : env.sameFolderConflict files config rejectSameProject = none) (hmem : other ∈ files)
    (hid : other.workspaceId ≠ config.workspaceId) (hkey : env.key other = env.key config) :
    rejectSameProject = false ∧ other.projectId = config.projectId ∧
      other.profile = config.profile := by
  have hnone := List.findSome?_eq_none_iff.1 h other ((List.mem_insertionSort _).2 hmem)
  rw [Env.conflictWith, if_neg hid, if_neg (not_not_intro hkey)] at hnone
  by_cases hforeign : other.projectId ≠ config.projectId ∨ other.profile ≠ config.profile
  · rw [if_pos hforeign] at hnone
    cases hnone
  rw [if_neg hforeign] at hnone
  by_cases hreject : rejectSameProject = true
  · rw [if_pos hreject] at hnone
    cases hnone
  · obtain ⟨hproject, hprofile⟩ := not_or.1 hforeign
    exact ⟨by simpa using hreject, not_not.1 hproject, not_not.1 hprofile⟩

/-- Nothing refuses the write of a config. -/
structure Admitted (env : Env Digest) (files : List LocalWorkspaceConfig)
    (config : LocalWorkspaceConfig) (rejectSameProject : Bool) (disk : Disk) : Prop where
  no_secrets : env.secretIssues config = []
  no_conflict : env.sameFolderConflict files config rejectSameProject = none
  done : disk = .done

theorem finish_cases (s config)
    (rejectSameProject disk) : (env.finish s config rejectSameProject disk).1 = s ∨
    (Admitted env s.files config rejectSameProject disk ∧
      (env.finish s config rejectSameProject disk).1 = { s with files := put s.files config }) := by
  rw [Env.finish]
  by_cases hsecret : env.secretIssues config ≠ []
  · rw [if_pos hsecret]
    exact .inl rfl
  rw [if_neg hsecret]
  cases hconflict : env.sameFolderConflict s.files config rejectSameProject with
  | some error => exact .inl rfl
  | none =>
    cases disk with
    | done => exact .inr ⟨⟨not_not.1 hsecret, hconflict, rfl⟩, rfl⟩
    | mkdirFails | writeFails => exact .inl rfl

theorem load_stored {profile} (h : s.load workspaceId profile = .ok config) :
    s.stored workspaceId = some config := by
  rw [State.load] at h
  cases hstored : s.stored workspaceId with
  | none =>
    rw [hstored] at h
    cases h
  | some found =>
    rw [hstored] at h
    cases hcheck : checkProfile found profile with
    | error error =>
      simp [hcheck, Except.map] at h
    | ok =>
      simp only [hcheck, Except.map, Except.ok.injEq] at h
      rw [h]

theorem dissociate_cases (s : State Digest) (workspaceId) (profile)
    (unlinks) : (s.dissociate workspaceId profile unlinks).1 = s ∨
    (s.dissociate workspaceId profile unlinks).1 =
      { s with files := s.files.filter fun other => other.workspaceId ≠ workspaceId } := by
  rw [State.dissociate]
  cases s.load workspaceId profile with
  | error error => exact .inl rfl
  | ok config =>
    cases unlinks with
    | true => exact .inr rfl
    | false => exact .inl rfl

variable [DecidableEq Digest]

/-- A pending confirmation for roots with the fingerprint, not expired. -/
structure Confirms (env : Env Digest) (confirmations : Confirmations Digest) (id : String)
    (new : WorkspaceRoots) (now : Int) (entry : Entry Digest) : Prop where
  pending : (id, entry) ∈ confirmations.pending
  fresh : id ∉ confirmations.consumed
  not_expired : now ≤ entry.expiresAt
  same_roots : entry.rootsHash = env.rootsFingerprint new

theorem checkEntry_ok {entry new now} (h : env.checkEntry entry new now = .ok ()) :
    now ≤ entry.expiresAt ∧ entry.rootsHash = env.rootsFingerprint new := by
  rw [Env.checkEntry] at h
  by_cases hexpired : entry.expiresAt < now
  · rw [if_pos hexpired] at h
    cases h
  rw [if_neg hexpired] at h
  by_cases hhash : entry.rootsHash ≠ env.rootsFingerprint new
  · rw [if_pos hhash] at h
    cases h
  · exact ⟨not_lt.1 hexpired, not_not.1 hhash⟩

theorem consume_cases (confirmations confirmationId current new) (now) :
    (env.consume confirmations confirmationId current new now).1 = confirmations ∨
    ∃ id ∉ confirmations.consumed,
      (env.consume confirmations confirmationId current new now).1 = confirmations.take id := by
  unfold Env.consume
  by_cases hsame : current = some new
  · rw [if_pos hsame]
    by_cases hid : confirmationId.isSome = true
    · rw [if_pos hid]
      exact .inl rfl
    · rw [if_neg hid]
      exact .inl rfl
  rw [if_neg hsame]
  cases confirmationId with
  | none => exact .inl rfl
  | some id =>
    dsimp only
    by_cases hused : id ∈ confirmations.consumed
    · rw [if_pos hused]
      exact .inl rfl
    rw [if_neg hused]
    cases confirmations.pending.find? fun p => p.1 = id with
    | none => exact .inl rfl
    | some p => exact .inr ⟨id, hused, rfl⟩

theorem consume_ok {confirmations after confirmationId current new now}
    (h : env.consume confirmations confirmationId current new now = (after, .ok ())) :
    (current = some new ∧ after = confirmations) ∨
    (current ≠ some new ∧ ∃ id entry, confirmationId = some id ∧
      Confirms env confirmations id new now entry ∧ after = confirmations.take id) := by
  unfold Env.consume at h
  by_cases hsame : current = some new
  · rw [if_pos hsame] at h
    by_cases hid : confirmationId.isSome = true
    · rw [if_pos hid] at h
      cases h
    · rw [if_neg hid] at h
      cases h
      exact .inl ⟨hsame, rfl⟩
  rw [if_neg hsame] at h
  cases confirmationId with
  | none => cases h
  | some id =>
    dsimp only at h
    by_cases hused : id ∈ confirmations.consumed
    · rw [if_pos hused] at h
      cases h
    rw [if_neg hused] at h
    cases hfind : confirmations.pending.find? fun p => p.1 = id with
    | none =>
      rw [hfind] at h
      cases h
    | some p =>
      rw [hfind] at h
      obtain ⟨hafter, hcheck⟩ := Prod.mk.inj h
      obtain ⟨hexpiry, hhash⟩ := checkEntry_ok hcheck
      have hmem := List.mem_of_find?_eq_some hfind
      have hp : p.1 = id := by simpa using List.find?_some hfind
      subst hp
      exact .inr ⟨hsame, p.1, p.2, rfl, ⟨hmem, hused, hexpiry, hhash⟩, hafter.symm⟩

/-- The files stay, and the confirmations lose at most one entry. -/
def Refused (s s' : State Digest) : Prop :=
  s'.files = s.files ∧
    (s'.confirmations = s.confirmations ∨
      ∃ id ∉ s.confirmations.consumed, s'.confirmations = s.confirmations.take id)

/-- The config of the request is written, its roots unchanged or confirmed. -/
structure Written (env : Env Digest) (s : State Digest) (request : WorkspaceSaveConfigRequest)
    (now : Int) (s' : State Digest) : Prop where
  files : s'.files = put s.files request.config
  roots : (request.currentRoots = some request.config.roots ∧ s'.confirmations = s.confirmations) ∨
    (request.currentRoots ≠ some request.config.roots ∧ ∃ id entry,
      request.rootConfirmationId = some id ∧
      Confirms env s.confirmations id request.config.roots now entry ∧
      s'.confirmations = s.confirmations.take id)

theorem commit_cases (s request) (rejectSameProject now disk) :
    Refused s (env.commit s request rejectSameProject now disk).1 ∨
    (Admitted env s.files request.config rejectSameProject disk ∧
      Written env s request now (env.commit s request rejectSameProject now disk).1) := by
  have hcases := @consume_cases _ env _ s.confirmations request.rootConfirmationId
    request.currentRoots request.config.roots now
  rw [Env.commit]
  cases hconsume : env.consume s.confirmations request.rootConfirmationId request.currentRoots
      request.config.roots now with
  | mk confirmations result =>
    rw [hconsume] at hcases
    cases result with
    | error error => exact .inl ⟨rfl, hcases⟩
    | ok =>
      dsimp only
      rcases finish_cases { s with confirmations } request.config rejectSameProject disk
        with hsame | ⟨hadmitted, hput⟩
      · rw [hsame]
        exact .inl ⟨rfl, hcases⟩
      · rw [hput]
        exact .inr ⟨hadmitted, rfl, consume_ok hconsume⟩

theorem create_cases (s request profile) (now disk) :
    Refused s (env.create s request profile now disk).1 ∨
    (request.config.profile = profile ∧ s.stored request.config.workspaceId = none ∧
      Admitted env s.files request.config true disk ∧
      Written env s request now (env.create s request profile now disk).1) := by
  rw [Env.create]
  cases hchecks : s.createChecks request profile with
  | error error => exact .inl ⟨rfl, .inl rfl⟩
  | ok =>
    dsimp only
    have hnone : request.config.profile = profile ∧
        s.stored request.config.workspaceId = none := by
      rw [State.createChecks] at hchecks
      by_cases hprofile : request.config.profile ≠ profile
      · rw [if_pos hprofile] at hchecks
        cases hchecks
      rw [if_neg hprofile] at hchecks
      by_cases hstored : (s.stored request.config.workspaceId).isSome = true
      · rw [if_pos hstored] at hchecks
        cases hchecks
      · exact ⟨not_not.1 hprofile, by simpa using hstored⟩
    rcases commit_cases s request true now disk with hrefused | hwritten
    · exact .inl hrefused
    · exact .inr ⟨hnone.1, hnone.2, hwritten⟩

theorem save_cases (s request profile) (now disk) :
    Refused s (env.save s request profile now disk).1 ∨
    ∃ stored, s.stored request.config.workspaceId = some stored ∧
      request.currentRoots = some stored.roots ∧
      Admitted env s.files request.config (decide (env.key request.config ≠ env.key stored)) disk ∧
      Written env s request now (env.save s request profile now disk).1 := by
  rw [Env.save]
  cases hchecks : s.saveChecks request profile with
  | error error => exact .inl ⟨rfl, .inl rfl⟩
  | ok stored =>
    dsimp only
    have hstored : s.stored request.config.workspaceId = some stored ∧
        request.currentRoots = some stored.roots := by
      rw [State.saveChecks] at hchecks
      by_cases hprofile : request.config.profile ≠ profile
      · rw [if_pos hprofile] at hchecks
        cases hchecks
      rw [if_neg hprofile] at hchecks
      cases hload : s.load request.config.workspaceId profile with
      | error error =>
        rw [hload] at hchecks
        cases hchecks
      | ok found =>
        rw [hload] at hchecks
        dsimp only at hchecks
        by_cases hcurrent : request.currentRoots ≠ some found.roots
        · rw [if_pos hcurrent] at hchecks
          cases hchecks
        rw [if_neg hcurrent] at hchecks
        split at hchecks
        · cases hchecks
        · cases hchecks
          exact ⟨load_stored hload, not_not.1 hcurrent⟩
    rcases commit_cases s request (decide (env.key request.config ≠ env.key stored))
      now disk with hrefused | hwritten
    · exact .inl hrefused
    · exact .inr ⟨stored, hstored.1, hstored.2, hwritten⟩

end StudioOS.Registry
