import StudioOS.AiLibrary.Rows

/-!
# AI library — Drafts

The rows that callers have not committed, and the invariant of all rows
over every run (`libraryInv_step`). A draft of a new resource is apart
from everything stored; a draft of a new version holds the row lock, and
its number is above every stored one.
-/

namespace StudioOS.AiLibrary

open List Option Function Authz Resolution Runs

variable {s t : State} {c d : Nat} {k k' : Caller}

def Call.creates : Call → Bool
  | .createResource .. => true
  | .createResourceVersion .. | .activateResourceVersion .. | .deprecateResource .. => false

def Phase.draft : Phase → Option Draft
  | .binding draft _ | .targeted draft .. => some draft
  | .checked _ | .inserted _ | .loaded _ | .locked _ | .assigned .. | .done _ => none

/-- The resource a phase of `create_resource` has inserted. -/
def Phase.resource : Phase → Option LibraryResource
  | .inserted resource => some resource
  | .binding draft _ | .targeted draft .. => some draft.resource
  | .checked _ | .loaded _ | .locked _ | .assigned .. | .done _ => none

def Caller.inserted (k : Caller) : Option LibraryResource :=
  if k.call.creates then k.phase.resource else none

/-- The ids of the rows a caller has inserted and not committed. -/
def Caller.pending (k : Caller) : List Uuid :=
  (k.inserted.map (·.id)).toList ++ (k.phase.draft.map (·.row.id)).toList

def Tables.ids (tables : Tables) : List Uuid :=
  tables.resources.map (·.id) ++ tables.versions.map (·.id)

/-- The ids of stored and inserted rows are all different. -/
structure Fresh (s : State) : Prop where
  tables : ∀ id ∈ s.tables.ids, id ∈ s.issued
  pending : ∀ c k, s.callers c = some k → ∀ id ∈ k.pending, id ∈ s.issued ∧ id ∉ s.tables.ids
  apart : ∀ c k d k', s.callers c = some k → s.callers d = some k' → c ≠ d →
    ∀ id ∈ k.pending, id ∉ k'.pending

/-- A draft: where it will go, and what its links go to. -/
structure DraftOk (s : State) (c : Nat) (k : Caller) (draft : Draft) : Prop where
  row : draft.row.resourceId = draft.resource.id
  home : k.call.creates = true ∨
    (s.tables.Stored draft.resource ∧ s.locks draft.resource.id = some c ∧
      ∀ row ∈ s.tables.versions, row.resourceId = draft.resource.id →
        row.version < draft.row.version)
  source : ∀ link ∈ draft.links, link.fromVersionId = draft.row.id
  target : ∀ link ∈ draft.links,
    (∃ row ∈ s.tables.versions, row.pin = link.target) ∨ link.target = draft.row.pin
  relation : ∀ link ∈ draft.links, ∃ kind,
    ((∃ key, s.tables.Has link.toResourceId kind key) ∨
      (link.toResourceId = draft.resource.id ∧ kind = draft.resource.kind)) ∧
    bindingRelationFor draft.resource.kind kind = some link.relation

/-- What holds of a caller, phase by phase. -/
def CallerOk (s : State) (c : Nat) (k : Caller) : Prop :=
  match k.phase with
  | .inserted _ => k.call.creates = true
  | .loaded resource => s.tables.Stored resource
  | .locked resource =>
    k.call.creates = false ∧ s.tables.Stored resource ∧ s.locks resource.id = some c
  | .binding draft _ => DraftOk s c k draft
  | .targeted draft pin target _ => DraftOk s c k draft ∧ pin.names target = true ∧
      (s.tables.Stored target ∨ (k.call.creates = true ∧ target = draft.resource))
  | .assigned loaded _ => s.tables.Stored loaded
  | .checked _ | .done _ => True

structure LibraryInv (s : State) : Prop where
  tables : s.tables.Sound
  fresh : Fresh s
  callers : ∀ c k, s.callers c = some k → CallerOk s c k
  staged : ∀ entry ∈ s.staged, ∃ k, s.callers entry.1 = some k ∧ k.inserted = some entry.2

theorem libraryInv_initial : LibraryInv State.initial where
  tables :=
    { resourceIds := nodup_nil
      versionIds := nodup_nil
      pins := nodup_nil
      owned := by intro row hrow; cases hrow
      links := by intro link hlink; cases hlink }
  fresh :=
    { tables := by intro id hid; cases hid
      pending := by intro c k hcaller; cases hcaller
      apart := by intro c k d k' hcaller; cases hcaller }
  callers := by intro c k hcaller; cases hcaller
  staged := by intro entry hentry; cases hentry

/-! ## Frames -/

/-- What a step of another caller leaves to the caller `d`. -/
structure Frame (s t : State) (d : Nat) : Prop where
  has : ∀ id kind key, s.tables.Has id kind key → t.tables.Has id kind key
  versions : ∀ row ∈ s.tables.versions, row ∈ t.tables.versions
  locks : ∀ id, s.locks id = some d → t.locks id = some d
  below : ∀ id kind key, s.tables.Has id kind key → s.locks id = some d →
    ∀ row ∈ t.tables.versions, row.resourceId = id → row ∈ s.tables.versions

theorem Frame.of_tables (htables : t.tables = s.tables)
    (hlocks : ∀ id, s.locks id = some d → t.locks id = some d) : Frame s t d where
  has := by
    rw [htables]
    exact fun _ _ _ hhas => hhas
  versions := by
    rw [htables]
    exact fun _ hrow => hrow
  locks := hlocks
  below := by
    rw [htables]
    exact fun _ _ _ _ _ _ hrow _ => hrow

variable {draft : Draft} {id : Uuid} {resource : LibraryResource} {tables : Tables}
  {principal : Principal} {version : Int}
  {target : LibraryResource}

theorem DraftOk.frame (h : DraftOk s d k draft) (hframe : Frame s t d) : DraftOk t d k draft where
  row := h.row
  home := by
    rcases h.home with hcreates | ⟨hstored, hlock, hbelow⟩
    · exact .inl hcreates
    · refine .inr ⟨hframe.has _ _ _ hstored, hframe.locks _ hlock, ?_⟩
      intro row hrow hid
      exact hbelow row (hframe.below _ _ _ hstored hlock row hrow hid) hid
  source := h.source
  target := by
    intro link hlink
    rcases h.target link hlink with ⟨row, hrow, hpin⟩ | hself
    · exact .inl ⟨row, hframe.versions row hrow, hpin⟩
    · exact .inr hself
  relation := by
    intro link hlink
    obtain ⟨kind, hkind, hmatrix⟩ := h.relation link hlink
    refine ⟨kind, ?_, hmatrix⟩
    rcases hkind with ⟨key, hhas⟩ | hself
    · exact .inl ⟨key, hframe.has _ _ _ hhas⟩
    · exact .inr hself

theorem CallerOk.frame (h : CallerOk s d k) (hframe : Frame s t d) : CallerOk t d k := by
  unfold CallerOk at h ⊢
  cases hphase : k.phase with
  | checked projectId => trivial
  | inserted resource => rw [hphase] at h; exact h
  | loaded resource => rw [hphase] at h; exact hframe.has _ _ _ h
  | locked resource =>
    rw [hphase] at h
    exact ⟨h.1, hframe.has _ _ _ h.2.1, hframe.locks _ h.2.2⟩
  | binding draft pins => rw [hphase] at h; exact DraftOk.frame h hframe
  | targeted draft pin target pins =>
    rw [hphase] at h
    obtain ⟨hdraft, hnames, htarget⟩ := h
    refine ⟨hdraft.frame hframe, hnames, ?_⟩
    rcases htarget with hstored | hself
    · exact .inl (hframe.has _ _ _ hstored)
    · exact .inr hself
  | assigned loaded assigned => rw [hphase] at h; exact hframe.has _ _ _ h
  | done result => trivial

theorem LibraryInv.silent (h : LibraryInv s) (c) (k') (htables : t.tables = s.tables)
    (hcallers : t.callers = Function.update s.callers c (some k')) (hissued : s.issued ⊆ t.issued)
    (hlocks : ∀ id d, d ≠ c → s.locks id = some d → t.locks id = some d)
    (hstaged : ∀ entry ∈ t.staged, entry.1 ≠ c → entry ∈ s.staged)
    (hown : ∀ entry ∈ t.staged, entry.1 = c → k'.inserted = some entry.2)
    (hpending : ∀ id ∈ k'.pending, (∃ k, s.callers c = some k ∧ id ∈ k.pending) ∨
      (id ∉ s.issued ∧ id ∈ t.issued)) (hok : CallerOk t c k') : LibraryInv t := by
  have hself : t.callers c = some k' := by
    rw [hcallers]
    exact update_self ..
  have hother : ∀ d, d ≠ c → t.callers d = s.callers d := by
    intro d hd
    rw [hcallers]
    exact update_of_ne hd _ _
  -- The rows of the caller are its old ones, or new to everyone.
  have hnew : ∀ d k, d ≠ c → s.callers d = some k → ∀ id ∈ k'.pending, id ∉ k.pending := by
    intro d k hd hcaller id hid hmem
    rcases hpending id hid with ⟨old, hold, hin⟩ | ⟨hnot, -⟩
    · exact h.fresh.apart c old d k hold hcaller (Ne.symm hd) id hin hmem
    · exact hnot (h.fresh.pending d k hcaller id hmem).1
  constructor
  · rw [htables]
    exact h.tables
  · constructor
    · intro id hid
      rw [htables] at hid
      exact hissued (h.fresh.tables id hid)
    · intro d k hcaller id hid
      rw [htables]
      by_cases hd : d = c
      · subst hd
        obtain rfl := some.inj (hself.symm.trans hcaller)
        rcases hpending id hid with ⟨old, hold, hin⟩ | ⟨hnot, hin⟩
        · obtain ⟨hissue, htable⟩ := h.fresh.pending d old hold id hin
          exact ⟨hissued hissue, htable⟩
        · exact ⟨hin, fun htable => hnot (h.fresh.tables id htable)⟩
      · rw [hother d hd] at hcaller
        obtain ⟨hissue, htable⟩ := h.fresh.pending d k hcaller id hid
        exact ⟨hissued hissue, htable⟩
    · intro d k e l hd he hne id hid hmem
      by_cases hdc : d = c
      · subst hdc
        obtain rfl := some.inj (hself.symm.trans hd)
        rw [hother e (Ne.symm hne)] at he
        exact hnew e l (Ne.symm hne) he id hid hmem
      rw [hother d hdc] at hd
      by_cases hec : e = c
      · subst hec
        obtain rfl := some.inj (hself.symm.trans he)
        exact hnew d k hdc hd id hmem hid
      · rw [hother e hec] at he
        exact h.fresh.apart d k e l hd he hne id hid hmem
  · intro d k hcaller
    by_cases hd : d = c
    · subst hd
      obtain rfl := some.inj (hself.symm.trans hcaller)
      exact hok
    · rw [hother d hd] at hcaller
      exact (h.callers d k hcaller).frame (.of_tables htables fun id => hlocks id d hd)
  · intro entry hentry
    by_cases hc : entry.1 = c
    · exact ⟨k', by rw [hc]; exact hself, hown entry hentry hc⟩
    · rw [hother entry.1 hc]
      exact h.staged entry (hstaged entry hentry hc)

theorem LibraryInv.finish (h : LibraryInv s) (hissued : s.issued ⊆ t.issued)
    (htables : t.tables = s.tables) (hlocks : t.locks = s.locks) (hstaged : t.staged = s.staged)
    (hcallers : t.callers = s.callers) (result) :
    LibraryInv (t.finish c k result) := by
  have hinserted : Caller.inserted { k with phase := .done result } = none := by
    unfold Caller.inserted
    split <;> rfl
  apply h.silent c { k with phase := .done result }
  · exact htables
  · rw [finish_callers, hcallers]
  · exact hissued
  · intro id d hd hlock
    rw [finish_locks_iff, hlocks]
    exact ⟨hlock, hd⟩
  · intro entry hentry _
    rw [← hstaged]
    exact (mem_finish_staged.mp hentry).1
  · intro entry hentry hc
    exact absurd hc (mem_finish_staged.mp hentry).2
  · intro id hid
    unfold Caller.pending at hid
    rw [hinserted] at hid
    cases hid
  · trivial

/-! ## The steps -/

theorem stored_of_resource
    (h : tables.resource id = some resource) : tables.Stored resource ∧ resource.id = id :=
  ⟨⟨resource, List.mem_of_find?_eq_some h, rfl, rfl, rfl⟩, by simpa using List.find?_some h⟩

theorem loadFor_ok (h : loadFor principal tables id = .ok resource) :
    tables.resource id = some resource := by
  obtain ⟨loaded, hget, h⟩ := StudioOS.bind_ok h
  obtain ⟨-, -, h⟩ := StudioOS.bind_ok h
  cases h
  unfold getResource at hget
  split at hget
  · cases hget
  rename_i row hrow
  obtain ⟨-, -, hget⟩ := StudioOS.bind_ok hget
  split at hget
  · cases hget
    exact hrow
  · cases hget

theorem loadedPhase_cases (principal) (tables) (id) :
    (∃ e, loadedPhase principal tables id = .done (.error e)) ∨
      ∃ resource, loadedPhase principal tables id = .loaded resource ∧
        tables.resource id = some resource := by
  unfold loadedPhase
  cases hok : loadFor principal tables id with
  | error e => exact .inl ⟨e, rfl⟩
  | ok resource => exact .inr ⟨resource, rfl, loadFor_ok hok⟩

theorem firstPhase_cases (env) (call : Call) (tables) :
    (∃ e, call.firstPhase env tables = .done (.error e)) ∨
      (∃ projectId, call.firstPhase env tables = .checked projectId) ∨
      ∃ id resource, call.resourceId = some id ∧ call.firstPhase env tables = .loaded resource ∧
        tables.resource id = some resource := by
  have hload : ∀ principal id, call.resourceId = some id →
      call.firstPhase env tables = loadedPhase principal tables id →
      (∃ e, call.firstPhase env tables = .done (.error e)) ∨
        ∃ id resource, call.resourceId = some id ∧ call.firstPhase env tables = .loaded resource ∧
          tables.resource id = some resource := by
    intro principal id hid hphase
    rw [hphase]
    rcases loadedPhase_cases principal tables id with h | ⟨resource, h⟩
    · exact .inl h
    · exact .inr ⟨id, resource, hid, h⟩
  cases call with
  | createResource principal data =>
    unfold Call.firstPhase
    dsimp only
    split
    · exact .inl ⟨_, rfl⟩
    · exact .inr (.inl ⟨_, rfl⟩)
  | createResourceVersion principal id data => exact (hload principal id rfl rfl).imp_right .inr
  | activateResourceVersion principal id version expected =>
    exact (hload principal id rfl rfl).imp_right .inr
  | deprecateResource principal id expected => exact (hload principal id rfl rfl).imp_right .inr

theorem LibraryInv.begins (h : LibraryInv s) (call) (free : s.callers c = none) :
    LibraryInv { s with
      callers := Function.update s.callers c
        (some { call := call, phase := call.firstPhase env s.tables }) } := by
  apply h.silent c { call := call, phase := call.firstPhase env s.tables }
  · rfl
  · rfl
  · exact List.Subset.refl _
  · exact fun _ _ _ hlock => hlock
  · exact fun _ hentry _ => hentry
  · intro entry hentry hc
    obtain ⟨k, hcaller, -⟩ := h.staged entry hentry
    rw [hc, free] at hcaller
    cases hcaller
  · intro id hid
    exfalso
    unfold Caller.pending Caller.inserted at hid
    rcases firstPhase_cases env call s.tables with ⟨e, hp⟩ | ⟨p, hp⟩ | ⟨i, r, -, hp, -⟩
    all_goals
      rw [hp] at hid
      dsimp only [Phase.resource, Phase.draft] at hid
      split at hid <;> cases hid
  · unfold CallerOk
    rcases firstPhase_cases env call s.tables with ⟨e, hp⟩ | ⟨p, hp⟩ | ⟨i, r, -, hp, hr⟩
    · rw [hp]
      trivial
    · rw [hp]
      trivial
    · rw [hp]
      exact (stored_of_resource hr).1

theorem LibraryInv.moves (h : LibraryInv s) (begun : s.callers c = some k) {phase}
    (hinserted : Caller.inserted { k with phase := phase } = k.inserted)
    (hpending : Caller.pending { k with phase := phase } = k.pending)
    (hok : CallerOk s c { k with phase := phase }) : LibraryInv (s.setPhase c k phase) := by
  apply h.silent c { k with phase := phase }
  · rfl
  · rfl
  · exact List.Subset.refl _
  · exact fun _ _ _ hlock => hlock
  · exact fun _ hentry _ => hentry
  · intro entry hentry hc
    obtain ⟨k₀, hcaller, hrow⟩ := h.staged entry hentry
    rw [hc, begun] at hcaller
    cases hcaller
    exact hinserted.trans hrow
  · intro id hid
    rw [hpending] at hid
    exact .inl ⟨k, begun, hid⟩
  · exact hok.frame (.of_tables rfl fun _ hlock => hlock)

theorem LibraryInv.insertsResource (h : LibraryInv s) (begun : s.callers c = some k)
    (hcreates : k.call.creates = true) {projectId} (hphase : k.phase = .checked projectId)
    (fresh : resource.id ∉ s.issued) : LibraryInv (State.setPhase
      { s with staged := (c, resource) :: s.staged, issued := resource.id :: s.issued } c k
      (.inserted resource)) := by
  have hinserted : Caller.inserted { k with phase := .inserted resource } = some resource := by
    simp [Caller.inserted, hcreates, Phase.resource]
  apply h.silent c { k with phase := .inserted resource }
  · rfl
  · rfl
  · exact subset_cons_self _ _
  · exact fun _ _ _ hlock => hlock
  · intro entry hentry hc
    rcases mem_cons.mp hentry with rfl | hentry
    · exact absurd rfl hc
    · exact hentry
  · intro entry hentry hc
    rcases mem_cons.mp hentry with rfl | hentry
    · exact hinserted
    -- Nothing was staged for a caller that is still at its checks.
    obtain ⟨k₀, hcaller, hrow⟩ := h.staged entry hentry
    rw [hc, begun] at hcaller
    cases hcaller
    unfold Caller.inserted at hrow
    rw [hphase] at hrow
    dsimp only [Phase.resource] at hrow
    split at hrow <;> cases hrow
  · intro id hid
    unfold Caller.pending at hid
    rw [hinserted] at hid
    obtain rfl : id = resource.id := by simpa [Phase.draft] using hid
    exact .inr ⟨fresh, .head _⟩
  · exact hcreates

theorem LibraryInv.locks (h : LibraryInv s)
    (begun : s.callers c = some k) (hcreates : k.call.creates = false)
    (hphase : k.phase = .loaded resource) (free : s.locks resource.id = none) :
    LibraryInv (State.setPhase
      { s with locks := Function.update s.locks resource.id (some c) } c k (.locked resource)) := by
  have hok := h.callers c k begun
  unfold CallerOk at hok
  rw [hphase] at hok
  have hinserted : ∀ phase, Caller.inserted { k with phase := phase } = none := by
    intro phase
    simp [Caller.inserted, hcreates]
  apply h.silent c { k with phase := .locked resource }
  · rfl
  · rfl
  · exact List.Subset.refl _
  · intro id d hd hlock
    show Function.update s.locks resource.id (some c) id = some d
    rw [update_of_ne]
    · exact hlock
    · rintro rfl
      rw [free] at hlock
      cases hlock
  · exact fun _ hentry _ => hentry
  · intro entry hentry hc
    obtain ⟨k₀, hcaller, hrow⟩ := h.staged entry hentry
    rw [hc, begun] at hcaller
    cases hcaller
    rw [show k = { k with phase := k.phase } from rfl, hinserted] at hrow
    cases hrow
  · intro id hid
    unfold Caller.pending at hid
    rw [hinserted] at hid
    cases hid
  · exact ⟨hcreates, hok, update_self ..⟩

theorem versionInput_cases {data} (h : versionInput s.tables k = some (resource, version, data)) :
    (k.call.creates = true ∧ k.phase = .inserted resource) ∨
      (k.call.creates = false ∧ k.phase = .locked resource ∧
        version = maxVersion s.tables.versions resource.id + 1) := by
  unfold versionInput at h
  split at h
  · rename_i hcall hphase
    injection h with h
    injection h with hresource h
    subst hresource
    exact .inl ⟨by rw [hcall]; rfl, hphase⟩
  · rename_i hcall hphase
    injection h with h
    injection h with hresource h
    injection h with hversion h
    subst hresource
    exact .inr ⟨by rw [hcall]; rfl, hphase, hversion.symm⟩
  · cases h

theorem le_foldl_max {l : List Int} {x start} (h : x ∈ l ∨ x ≤ start) : x ≤ l.foldl max start := by
  induction l generalizing start with
  | nil =>
    rcases h with h | h
    · cases h
    · exact h
  | cons y l ih =>
    apply ih
    rcases h with h | h
    · rcases mem_cons.mp h with rfl | h
      · exact .inr (Int.le_max_right ..)
      · exact .inl h
    · exact .inr (Int.le_trans h (Int.le_max_left ..))

theorem le_maxVersion {versions row}
    (h : row ∈ versions) : row.version ≤ maxVersion versions row.resourceId := by
  unfold maxVersion
  apply le_foldl_max
  left
  apply List.mem_map_of_mem
  simpa using h

theorem LibraryInv.insertsVersion {data} (h : LibraryInv s) (begun : s.callers c = some k)
    (input : versionInput s.tables k = some (resource, version, data)) (fresh : id ∉ s.issued) :
    LibraryInv (State.setPhase { s with issued := id :: s.issued } c k
      (.binding
        { resource := resource
          row := { id := id, resourceId := resource.id, version := version
                   title := data.title, content := data.content } }
        data.dependencies)) := by
  have hok := h.callers c k begun
  have hinserted : ∀ draft : Draft, draft.resource = resource →
      Caller.inserted { k with phase := .binding draft data.dependencies } = k.inserted := by
    intro draft hdraft
    rcases versionInput_cases input with ⟨hcreates, hphase⟩ | ⟨hcreates, hphase, -⟩
    · simp [Caller.inserted, hcreates, hphase, Phase.resource, hdraft]
    · simp [Caller.inserted, hcreates]
  apply h.silent c { k with phase := .binding _ data.dependencies }
  · rfl
  · rfl
  · exact subset_cons_self _ _
  · exact fun _ _ _ hlock => hlock
  · exact fun _ hentry _ => hentry
  · intro entry hentry hc
    obtain ⟨k₀, hcaller, hrow⟩ := h.staged entry hentry
    rw [hc, begun] at hcaller
    cases hcaller
    exact (hinserted _ rfl).trans hrow
  · intro i hi
    unfold Caller.pending at hi
    rw [hinserted _ rfl] at hi
    rcases mem_append.mp hi with hi | hi
    · exact .inl ⟨k, begun, mem_append_left _ hi⟩
    · obtain rfl : i = id := by simpa [Phase.draft] using hi
      exact .inr ⟨fresh, .head _⟩
  · refine { row := rfl, home := ?_, source := ?_, target := ?_, relation := ?_ }
    · rcases versionInput_cases input with ⟨hcreates, -⟩ | ⟨hcreates, hphase, rfl⟩
      · exact .inl hcreates
      unfold CallerOk at hok
      rw [hphase] at hok
      refine .inr ⟨hok.2.1, hok.2.2, ?_⟩
      rintro row hrow hid
      have := le_maxVersion hrow
      rw [hid] at this
      exact Int.lt_add_one_of_le this
    all_goals
      intro link hlink
      cases hlink

theorem mem_seenResources {r} (h : r ∈ s.seenResources c) :
    r ∈ s.tables.resources ∨ (c, r) ∈ s.staged := by
  rcases mem_append.mp h with h | h
  · exact .inl h
  · obtain ⟨entry, hentry, rfl⟩ := List.mem_map.mp h
    obtain ⟨hmem, hc⟩ := mem_filter.mp hentry
    obtain rfl : entry.1 = c := by simpa using hc
    exact .inr hmem

theorem resolvePin_ok {pin resources} (h : resolvePin principal resources pin = .ok target) :
    target ∈ resources ∧ pin.names target = true := by
  unfold AiLibrary.resolvePin at h
  split at h
  · cases h
  · rename_i only hfilter
    obtain rfl := Except.ok.inj h
    have hmem : only ∈ resources.filter fun r => pin.names r && canRead principal r := by
      rw [hfilter]
      exact mem_singleton_self only
    obtain ⟨hmem, hnames⟩ := mem_filter.mp hmem
    exact ⟨hmem, (Bool.and_eq_true_iff.mp hnames).1⟩
  · cases h

theorem LibraryInv.targets {pin pins} (h : LibraryInv s) (begun : s.callers c = some k)
    (phase : k.phase = .binding draft (pin :: pins))
    (found : AiLibrary.resolvePin k.call.principal (s.seenResources c) pin = .ok target) :
    LibraryInv (s.setPhase c k (.targeted draft pin target pins)) := by
  have hok := h.callers c k begun
  unfold CallerOk at hok
  rw [phase] at hok
  obtain ⟨hseen, hnames⟩ := resolvePin_ok found
  apply h.moves begun
  · simp [Caller.inserted, phase, Phase.resource]
  · simp [Caller.pending, Caller.inserted, phase, Phase.resource, Phase.draft]
  refine ⟨⟨hok.row, hok.home, hok.source, hok.target, hok.relation⟩, hnames, ?_⟩
  rcases mem_seenResources hseen with hstored | hstaged
  · exact .inl ⟨target, hstored, rfl, rfl, rfl⟩
  -- What the caller alone sees is the resource it is creating.
  right
  obtain ⟨k₀, hcaller, hrow⟩ := h.staged _ hstaged
  obtain rfl := some.inj (begun.symm.trans hcaller)
  unfold Caller.inserted at hrow
  split at hrow
  · rename_i hcreates
    rw [phase] at hrow
    exact ⟨hcreates, (some.inj hrow).symm⟩
  · cases hrow

theorem mem_of_versionRow {versions row} (h : versionRow versions id version = some row) :
    row ∈ versions ∧ row.pin = (id, version) := by
  have hfound := List.find?_some h
  simp only [decide_eq_true_eq] at hfound
  exact ⟨List.mem_of_find?_eq_some h, by rw [LibraryVersion.pin, hfound.1, hfound.2]⟩

theorem LibraryInv.binds {row pin pins} (h : LibraryInv s) {next} (begun : s.callers c = some k)
    (phase : k.phase = .targeted draft pin target pins)
    (found : versionRow (s.tables.versions ++ [draft.row]) target.id pin.version = some row)
    (bound : draft.bind pin target = .ok next) :
    LibraryInv (s.setPhase c k (.binding next pins)) := by
  have hok := h.callers c k begun
  unfold CallerOk at hok
  rw [phase] at hok
  obtain ⟨hdraft, -, htarget⟩ := hok
  obtain ⟨hresource, hrow, relation, hmatrix, hlinks⟩ := Draft.bind_ok bound
  have hkind : (∃ key, s.tables.Has target.id target.kind key) ∨
      (target.id = draft.resource.id ∧ target.kind = draft.resource.kind) := by
    rcases htarget with hstored | ⟨-, rfl⟩
    · exact .inl ⟨_, hstored⟩
    · exact .inr ⟨rfl, rfl⟩
  obtain ⟨hmem, hpin⟩ := mem_of_versionRow found
  apply h.moves begun
  · simp [Caller.inserted, phase, Phase.resource, hresource]
  · simp [Caller.pending, Caller.inserted, phase, Phase.resource, Phase.draft, hresource, hrow]
  have hlink : ∀ link ∈ next.links, link ∈ draft.links ∨
      link = { fromVersionId := draft.row.id, toResourceId := target.id
               toVersion := pin.version, relation := relation } := by
    intro link hlink
    rw [hlinks] at hlink
    simpa using hlink
  refine { row := ?_, home := ?_, source := ?_, target := ?_, relation := ?_ }
  · rw [hrow, hresource]
    exact hdraft.row
  · rw [hrow, hresource]
    exact hdraft.home
  · intro link h
    rw [hrow]
    rcases hlink link h with h | rfl
    · exact hdraft.source link h
    · rfl
  · intro link h
    rw [hrow]
    rcases hlink link h with h | rfl
    · exact hdraft.target link h
    · rcases mem_append.mp hmem with hmem | hmem
      · exact .inl ⟨row, hmem, hpin⟩
      · obtain rfl := mem_singleton.mp hmem
        exact .inr hpin.symm
  · intro link h
    rw [hresource]
    rcases hlink link h with h | rfl
    · exact hdraft.relation link h
    · exact ⟨target.kind, hkind, hmatrix⟩

/-! ## The commits -/

theorem DraftOk.linkSound (h : DraftOk s c k draft)
    (hversions : tables.versions = s.tables.versions ++ [draft.row])
    (hhas : ∀ id kind key, s.tables.Has id kind key → tables.Has id kind key)
    (hhome : tables.Stored draft.resource) : ∀ link ∈ draft.links, tables.LinkSound link := by
  intro link hlink
  have hself : tables.versions[s.tables.versions.length]? = some draft.row := by
    rw [hversions]
    simp
  have htarget : ∃ (j : Nat) (row : LibraryVersion), tables.versions[j]? = some row ∧
      row.pin = link.target ∧ j ≤ s.tables.versions.length := by
    rcases h.target link hlink with ⟨row, hrow, hpin⟩ | hpin
    · obtain ⟨j, hj⟩ := List.getElem?_of_mem hrow
      refine ⟨j, row, ?_, hpin, Nat.le_of_lt (List.getElem?_eq_some_iff.mp hj).1⟩
      rw [hversions]
      exact getElem?_append_of_some hj _
    · exact ⟨_, draft.row, hself, hpin.symm, Nat.le_refl _⟩
  obtain ⟨j, row, hj, hpin, hle⟩ := htarget
  obtain ⟨kind, hkind, hmatrix⟩ := h.relation link hlink
  have htargetKind : ∃ key, tables.Has link.toResourceId kind key := by
    rcases hkind with ⟨key, hstored⟩ | ⟨hid, rfl⟩
    · exact ⟨key, hhas _ _ _ hstored⟩
    · rw [hid]
      exact ⟨_, hhome⟩
  obtain ⟨key, hkey⟩ := htargetKind
  refine ⟨_, j, draft.row, row, hself, (h.source link hlink).symm, hj, hpin, hle,
    draft.resource.kind, draft.resource.stableKey, kind, key, ?_, hkey, hmatrix⟩
  rw [h.row]
  exact hhome

theorem LibraryInv.commits (h : LibraryInv s) (begun : s.callers c = some k) (writes)
    (hsound : tables.Sound) (hversions : tables.versions = s.tables.versions ++ [draft.row])
    (hhas : ∀ id kind key, s.tables.Has id kind key → tables.Has id kind key)
    (hids : ∀ id ∈ tables.ids, id ∈ s.tables.ids ∨ id ∈ k.pending)
    (hapart : ∀ d, d ≠ c → ∀ id kind key, s.tables.Has id kind key → s.locks id = some d →
      draft.row.resourceId ≠ id) :
    LibraryInv (State.finish { s with tables := tables, writes := writes } c k (.ok true)) := by
  have hinserted : Caller.inserted { k with phase := .done (.ok true) } = none := by
    unfold Caller.inserted
    split <;> rfl
  -- The caller has nothing pending any more; the others are as they were.
  have hcallers : ∀ d l, (State.finish { s with tables := tables, writes := writes } c k
      (.ok true)).callers d = some l →
      (d = c ∧ l = { k with phase := .done (.ok true) }) ∨ (d ≠ c ∧ s.callers d = some l) := by
    intro d l hd
    by_cases hdc : d = c
    · subst hdc
      rw [finish_callers, update_self] at hd
      exact .inl ⟨rfl, (some.inj hd).symm⟩
    · rw [finish_callers, update_of_ne hdc] at hd
      exact .inr ⟨hdc, hd⟩
  have hnone : ∀ id, id ∉ Caller.pending { k with phase := .done (.ok true) } := by
    intro id hid
    unfold Caller.pending at hid
    rw [hinserted] at hid
    cases hid
  constructor
  · exact hsound
  · constructor
    · intro id hid
      rcases hids id hid with hid | hid
      · exact h.fresh.tables id hid
      · exact (h.fresh.pending c k begun id hid).1
    · intro d l hd id hid
      rcases hcallers d l hd with ⟨-, rfl⟩ | ⟨hdc, hd⟩
      · exact absurd hid (hnone id)
      · refine ⟨(h.fresh.pending d l hd id hid).1, ?_⟩
        intro htable
        rcases hids id htable with htable | hpending
        · exact (h.fresh.pending d l hd id hid).2 htable
        · exact h.fresh.apart d l c k hd begun hdc id hid hpending
    · intro d l e m hd he hne id hid hmem
      rcases hcallers d l hd with ⟨-, rfl⟩ | ⟨-, hd⟩
      · exact hnone id hid
      · rcases hcallers e m he with ⟨-, rfl⟩ | ⟨-, he⟩
        · exact hnone id hmem
        · exact h.fresh.apart d l e m hd he hne id hid hmem
  · intro d l hd
    rcases hcallers d l hd with ⟨-, rfl⟩ | ⟨hdc, hd⟩
    · trivial
    apply (h.callers d l hd).frame
    constructor
    · exact hhas
    · intro row hrow
      show row ∈ tables.versions
      rw [hversions]
      exact mem_append_left _ hrow
    · intro id hlock
      exact finish_locks_iff.mpr ⟨hlock, hdc⟩
    intro id kind key hstored hlock row hrow hid
    have hrow : row ∈ tables.versions := hrow
    rw [hversions] at hrow
    rcases mem_append.mp hrow with hrow | hrow
    · exact hrow
    · obtain rfl := mem_singleton.mp hrow
      exact absurd hid (hapart d hdc id kind key hstored hlock)
  · intro entry hentry
    obtain ⟨hentry, hne⟩ := mem_finish_staged.mp hentry
    rw [finish_callers, update_of_ne hne]
    exact h.staged entry hentry

theorem LibraryInv.commitsResource (h : LibraryInv s)
    (begun : s.callers c = some k) (hcreates : k.call.creates = true)
    (phase : k.phase = .binding draft []) : LibraryInv (State.finish
      { s with tables := (s.tables.addResource draft.resource).addVersion draft } c k (.ok true)) := by
  have hdraft := h.callers c k begun
  unfold CallerOk at hdraft
  rw [phase] at hdraft
  have hpending : k.pending = [draft.resource.id, draft.row.id] := by
    simp [Caller.pending, Caller.inserted, hcreates, phase, Phase.resource, Phase.draft]
  have hresource := (h.fresh.pending c k begun draft.resource.id (by simp [hpending])).2
  have hrow := (h.fresh.pending c k begun draft.row.id (by simp [hpending])).2
  simp only [Tables.ids, mem_append, not_or] at hresource hrow
  -- No stored row has the id of the new resource.
  have hnotHas : ∀ kind key, ¬ s.tables.Has draft.resource.id kind key := by
    rintro kind key ⟨r, hr, hid, -⟩
    exact hresource.1 (List.mem_map.mpr ⟨r, hr, hid⟩)
  have hadded := h.tables.addResource hresource.1
  have hstored : (s.tables.addResource draft.resource).Stored draft.resource :=
    has_addResource_iff.mpr (.inr ⟨rfl, rfl, rfl⟩)
  have hhas : ∀ id kind key, s.tables.Has id kind key →
      ((s.tables.addResource draft.resource).addVersion draft).Has id kind key :=
    fun _ _ _ hold => has_addResource_iff.mpr (.inl hold)
  apply h.commits begun
  · apply hadded.addVersion hrow.2
    · intro hpin
      obtain ⟨row, hmem, hpin⟩ := List.mem_map.mp hpin
      obtain ⟨kind, key, howned⟩ := h.tables.owned row hmem
      rw [show row.resourceId = draft.resource.id from
        (Prod.mk.inj hpin).1.trans hdraft.row] at howned
      exact hnotHas kind key howned
    · rw [hdraft.row]
      exact ⟨_, _, hstored⟩
    · exact hdraft.linkSound rfl hhas hstored
  · rfl
  · exact hhas
  · intro id hid
    rcases mem_append.mp hid with hid | hid
    · obtain ⟨r, hr, rfl⟩ := List.mem_map.mp hid
      rcases mem_append.mp hr with hr | hr
      · exact .inl (mem_append_left _ (List.mem_map_of_mem hr))
      · obtain rfl := mem_singleton.mp hr
        exact .inr (by simp [hpending])
    · obtain ⟨row, hmem, rfl⟩ := List.mem_map.mp hid
      rcases mem_append.mp hmem with hmem | hmem
      · exact .inl (mem_append_right _ (List.mem_map_of_mem hmem))
      · obtain rfl := mem_singleton.mp hmem
        exact .inr (by simp [hpending])
  · rintro d - id kind key hhasId - rfl
    rw [hdraft.row] at hhasId
    exact hnotHas kind key hhasId

theorem LibraryInv.commitsVersion (h : LibraryInv s) (begun : s.callers c = some k)
    (hcreates : k.call.creates = false) (phase : k.phase = .binding draft [])
    (assigned writes) : LibraryInv (State.finish
      { s with
        tables := (s.tables.update draft.resource assigned).addVersion draft
        writes := writes } c k (.ok true)) := by
  have hdraft := h.callers c k begun
  unfold CallerOk at hdraft
  rw [phase] at hdraft
  have hpending : k.pending = [draft.row.id] := by
    simp [Caller.pending, Caller.inserted, hcreates, phase, Phase.draft]
  have hrow := (h.fresh.pending c k begun draft.row.id (by simp [hpending])).2
  simp only [Tables.ids, mem_append, not_or] at hrow
  obtain ⟨hstored, hlock, hbelow⟩ : s.tables.Stored draft.resource ∧
      s.locks draft.resource.id = some c ∧ ∀ row ∈ s.tables.versions,
        row.resourceId = draft.resource.id → row.version < draft.row.version := by
    rcases hdraft.home with hcreate | hhome
    · rw [hcreates] at hcreate
      cases hcreate
    · exact hhome
  have hupdated := h.tables.update draft.resource assigned
  have hhas : ∀ id kind key, s.tables.Has id kind key →
      ((s.tables.update draft.resource assigned).addVersion draft).Has id kind key :=
    fun _ _ _ hold => has_update_iff.mpr hold
  apply h.commits begun
  · apply hupdated.addVersion hrow.2
    · intro hpin
      obtain ⟨row, hmem, hpin⟩ := List.mem_map.mp hpin
      obtain ⟨hid, hversion⟩ := Prod.mk.inj hpin
      have hlt := hbelow row hmem (hid.trans hdraft.row)
      rw [hversion] at hlt
      exact Int.lt_irrefl _ hlt
    · rw [hdraft.row]
      exact ⟨_, _, has_update_iff.mpr hstored⟩
    · exact hdraft.linkSound rfl hhas (has_update_iff.mpr hstored)
  · rfl
  · exact hhas
  · intro id hid
    rcases mem_append.mp hid with hid | hid
    · refine .inl (mem_append_left _ ?_)
      rw [show ((s.tables.update draft.resource assigned).addVersion draft).resources.map (·.id) =
        s.tables.resources.map (·.id) from updateResource_ids ..] at hid
      exact hid
    · obtain ⟨row, hmem, rfl⟩ := List.mem_map.mp hid
      rcases mem_append.mp hmem with hmem | hmem
      · exact .inl (mem_append_right _ (List.mem_map_of_mem hmem))
      · obtain rfl := mem_singleton.mp hmem
        exact .inr (by simp [hpending])
  · -- Another caller holds another row.
    rintro d hd id kind key - hother rfl
    rw [hdraft.row, hlock] at hother
    exact hd (some.inj hother).symm

theorem ids_update (tables : Tables) (loaded assigned) :
    (tables.update loaded assigned).ids = tables.ids := by
  show (updateResource tables.resources loaded assigned).map (·.id) ++ _ = _
  rw [updateResource_ids]
  rfl

theorem LibraryInv.update (h : LibraryInv s) (loaded assigned writes) :
    LibraryInv { s with tables := s.tables.update loaded assigned, writes := writes } where
  tables := h.tables.update loaded assigned
  fresh :=
    { tables := by
        intro id hid
        rw [ids_update] at hid
        exact h.fresh.tables id hid
      pending := by
        intro d l hd id hid
        rw [ids_update]
        exact h.fresh.pending d l hd id hid
      apart := h.fresh.apart }
  callers := by
    intro d l hd
    apply (h.callers d l hd).frame
    exact
      { has := fun _ _ _ hhas => has_update_iff.mpr hhas
        versions := fun _ hrow => hrow
        locks := fun _ hlock => hlock
        below := fun _ _ _ _ _ _ hrow _ => hrow }
  staged := h.staged

theorem LibraryInv.assigns (h : LibraryInv s) (begun : s.callers c = some k)
    (phase : k.phase = .loaded resource)
    (assigned) : LibraryInv (s.setPhase c k (.assigned resource assigned)) := by
  have hok := h.callers c k begun
  unfold CallerOk at hok
  rw [phase] at hok
  apply h.moves begun
  · simp [Caller.inserted, phase, Phase.resource]
  · simp [Caller.pending, Caller.inserted, phase, Phase.resource, Phase.draft]
  · exact hok

/-- **The rows keep their invariant.** -/
theorem libraryInv_step {env act} (h : LibraryInv s)
    (hstep : step env s act = some t) : LibraryInv t := by
  cases step_moves hstep with
  | begins call free => exact h.begins call free
  | @refused _ k begun running e issued more =>
    exact LibraryInv.finish (t := { s with issued := issued }) h more rfl rfl rfl rfl _
  | insertsResource begun create phase fresh =>
    exact h.insertsResource begun (by rw [create]; rfl) phase fresh
  | locks begun create phase free => exact h.locks begun (by rw [create]; rfl) phase free
  | insertsVersion begun input fresh => exact h.insertsVersion begun input fresh
  | targets begun phase found => exact h.targets begun phase found
  | binds begun phase found bound => exact h.binds begun phase found bound
  | commitsResource begun create phase =>
    exact h.commitsResource begun (by rw [create]; rfl) phase
  | commitsVersion begun create phase =>
    exact h.commitsVersion begun (by rw [create]; rfl) phase _ _
  | keeps begun phase decided => exact h.finish (List.Subset.refl _) rfl rfl rfl rfl _
  | assigns begun phase decided => exact h.assigns begun phase _
  | writes begun phase free =>
    exact (h.update _ _ _).finish (List.Subset.refl _) rfl rfl rfl rfl _

end StudioOS.AiLibrary
