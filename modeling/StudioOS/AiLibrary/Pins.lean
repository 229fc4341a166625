import Mathlib.Logic.Relation
import StudioOS.AiLibrary.Drafts

/-!
# AI library — Pins

The pins of the stored versions as a graph. A pin goes to a version that was
committed earlier, or to the version that holds it: its row has been flushed
when the pins are looked up.
-/

namespace StudioOS.AiLibrary

open List Authz Resolution Runs

variable {s t : State} {act : Act} {c : Nat} {k : Caller}

variable {tables : Tables}

/-- A stored version pins another one. -/
def Tables.Pins (tables : Tables) (source target : LibraryVersion) : Prop :=
  source ∈ tables.versions ∧ target ∈ tables.versions ∧
    ∃ link ∈ tables.links, link.fromVersionId = source.id ∧ link.target = target.pin

/-- Every pin of a stored version goes to a version that was committed
before it. -/
def Tables.PinsEarlier (tables : Tables) : Prop :=
  ∀ link ∈ tables.links, ∃ (i j : Nat) (source target : LibraryVersion),
    tables.versions[i]? = some source ∧ source.id = link.fromVersionId ∧
    tables.versions[j]? = some target ∧ target.pin = link.target ∧ j < i

/-- No stored version pins itself. -/
def Tables.NoLoops (tables : Tables) : Prop :=
  ∀ link ∈ tables.links, ∀ row ∈ tables.versions, row.id = link.fromVersionId →
    row.pin ≠ link.target

theorem Tables.Sound.pinsEarlier (h : tables.Sound) (hloops : tables.NoLoops) :
    tables.PinsEarlier := by
  intro link hlink
  obtain ⟨i, j, source, target, hi, hsource, hj, htarget, hle, -⟩ := h.links link hlink
  refine ⟨i, j, source, target, hi, hsource, hj, htarget, ?_⟩
  apply Nat.lt_of_le_of_ne hle
  rintro rfl
  obtain rfl := Option.some.inj (hi.symm.trans hj)
  exact hloops link hlink source (mem_of_getElem? hi) hsource htarget

/-- Where a version stands in the order of the commits. -/
def Tables.rank (tables : Tables) (row : LibraryVersion) : Nat := tables.versions.idxOf row

theorem Tables.Sound.rank_eq (h : tables.Sound) {i row}
    (hi : tables.versions[i]? = some row) : tables.rank row = i := by
  obtain ⟨hlt, rfl⟩ := List.getElem?_eq_some_iff.mp hi
  exact (List.Nodup.of_map _ h.versionIds).idxOf_getElem i hlt

theorem Tables.Sound.rank_lt (h : tables.Sound) (hearlier : tables.PinsEarlier) {source target}
    (hpins : tables.Pins source target) : tables.rank target < tables.rank source := by
  obtain ⟨hsource, htarget, link, hlink, hfrom, hto⟩ := hpins
  obtain ⟨i, j, source', target', hi, hid, hj, hpin, hlt⟩ := hearlier link hlink
  obtain rfl : source' = source := inj_on_of_nodup_map h.versionIds
    (mem_of_getElem? hi) hsource (hid.trans hfrom)
  obtain rfl : target' = target := inj_on_of_nodup_map h.pins
    (mem_of_getElem? hj) htarget (hpin.trans hto)
  rw [h.rank_eq hi, h.rank_eq hj]
  exact hlt

theorem Tables.Sound.acyclic (h : tables.Sound) (hearlier : tables.PinsEarlier) (row) :
    ¬ Relation.TransGen tables.Pins row row := by
  have hdecreases : ∀ {a b}, Relation.TransGen tables.Pins a b → tables.rank b < tables.rank a := by
    intro a b hab
    induction hab with
    | single hpins => exact h.rank_lt hearlier hpins
    | tail _ hpins ih => exact Nat.lt_trans (h.rank_lt hearlier hpins) ih
  intro hcycle
  exact Nat.lt_irrefl _ (hdecreases hcycle)

/-! ## Calls that pin what they create -/

/-- Some dependency names the resource itself, at the version that is
being created. -/
def selfPins (resource : LibraryResource) (version : Int) (pins : List DependencyPin) : Bool :=
  pins.any fun pin => pin.names resource && pin.version = version

/-- The guard: no call pins the version it creates. -/
def NoSelfPin (s : State) : Act → Prop
  | .insertVersion c _ => ∀ input ∈ (s.callers c).bind (versionInput s.tables),
      selfPins input.1 input.2.1 input.2.2.dependencies = false
  | _ => True

instance (s : State) (act : Act) : Decidable (NoSelfPin s act) := by
  cases act <;> unfold NoSelfPin <;> infer_instance

/-- What the guard keeps of a draft and the pins it has still to bind. -/
def Draft.LoopFree (draft : Draft) (pins : List DependencyPin) : Prop :=
  (∀ link ∈ draft.links, draft.row.pin ≠ link.target) ∧
    selfPins draft.resource draft.row.version pins = false

/-- The drafts of a phase are free of loops. -/
def Phase.LoopFree : Phase → Prop
  | .binding draft pins => draft.LoopFree pins
  | .targeted draft pin _ pins => draft.LoopFree (pin :: pins)
  | _ => True

structure LoopInv (s : State) : Prop where
  rows : LibraryInv s
  loops : s.tables.NoLoops
  callers : ∀ c k, s.callers c = some k → k.phase.LoopFree

theorem loopInv_initial : LoopInv State.initial where
  rows := libraryInv_initial
  loops := by intro link hlink; cases hlink
  callers := by intro c k hcaller; cases hcaller

theorem callers_update {P : Phase → Prop} (h : ∀ d l, s.callers d = some l → P l.phase)
    {k' : Caller} (hcallers : t.callers = Function.update s.callers c (some k'))
    (hself : P k'.phase) : ∀ d l, t.callers d = some l → P l.phase := by
  intro d l hd
  rw [hcallers] at hd
  rcases update_some hd with ⟨rfl, rfl⟩ | ⟨hdc, hd⟩
  · exact hself
  · exact h d l hd

theorem LibraryInv.names_self (h : LibraryInv s) {draft pin target pins}
    (begun : s.callers c = some k) (phase : k.phase = .targeted draft pin target pins)
    (hid : target.id = draft.resource.id) :
    pin.names draft.resource = true := by
  have hok := h.callers c k begun
  unfold CallerOk at hok
  rw [phase] at hok
  obtain ⟨hdraft, hnames, htarget⟩ := hok
  have hsame : target.kind = draft.resource.kind ∧
      target.stableKey = draft.resource.stableKey := by
    rcases htarget with hstored | ⟨-, rfl⟩
    · unfold Tables.Stored at hstored
      rw [hid] at hstored
      rcases hdraft.home with hcreates | ⟨hhome, -⟩
      · -- A stored row does not have the id of a resource being created.
        have hpending : draft.resource.id ∈ k.pending := by
          simp [Caller.pending, Caller.inserted, hcreates, phase, Phase.resource]
        obtain ⟨r, hr, hrid, -⟩ := hstored
        have hmem : draft.resource.id ∈ s.tables.ids :=
          mem_append_left _ (mem_map.mpr ⟨r, hr, hrid⟩)
        exact absurd hmem (h.fresh.pending c k begun _ hpending).2
      · exact hstored.unique h.tables.resourceIds hhome
    · exact ⟨rfl, rfl⟩
  unfold DependencyPin.names at hnames ⊢
  rw [← hid, ← hsame.1, ← hsame.2]
  exact hnames

theorem LoopInv.addVersion (h : LoopInv s) {draft} (begun : s.callers c = some k)
    (phase : k.phase = .binding draft [])
    (hversions : tables.versions = s.tables.versions ++ [draft.row])
    (hlinks : tables.links = s.tables.links ++ draft.links) : tables.NoLoops := by
  have hok := h.rows.callers c k begun
  unfold CallerOk at hok
  rw [phase] at hok
  have hpending : draft.row.id ∈ k.pending := by
    simp [Caller.pending, phase, Phase.draft]
  have hfresh : draft.row.id ∉ s.tables.versions.map (·.id) := fun hmem =>
    (h.rows.fresh.pending c k begun _ hpending).2 (mem_append_right _ hmem)
  have hfree := h.callers c k begun
  rw [phase] at hfree
  intro link hlink row hrow hid
  rw [hlinks] at hlink
  rw [hversions] at hrow
  rcases mem_append.mp hlink with hlink | hlink
  · rcases mem_append.mp hrow with hrow | hrow
    · exact h.loops link hlink row hrow hid
    · -- A stored link does not start at the new version.
      obtain rfl := mem_singleton.mp hrow
      obtain ⟨i, j, source, target, hi, hsource, -⟩ := h.rows.tables.links link hlink
      refine absurd (mem_map.mpr ⟨source, mem_of_getElem? hi, ?_⟩) hfresh
      exact hsource.trans hid.symm
  · rcases mem_append.mp hrow with hrow | hrow
    · refine absurd (mem_map.mpr ⟨row, hrow, ?_⟩) hfresh
      exact hid.trans (hok.source link hlink)
    · obtain rfl := mem_singleton.mp hrow
      exact hfree.1 link hlink

theorem loopInv_step {env} (h : LoopInv s) (hguard : NoSelfPin s act)
    (hstep : step env s act = some t) : LoopInv t := by
  have hrows := libraryInv_step h.rows hstep
  cases step_moves hstep with
  | begins call free =>
    refine ⟨hrows, h.loops, callers_update h.callers rfl ?_⟩
    rcases firstPhase_cases env call s.tables with ⟨e, hp⟩ | ⟨p, hp⟩ | ⟨i, r, -, hp, -⟩
    all_goals
      show Phase.LoopFree (call.firstPhase env s.tables)
      rw [hp]
      trivial
  | refused begun running e more => exact ⟨hrows, h.loops, callers_update h.callers rfl trivial⟩
  | insertsResource | locks =>
    exact ⟨hrows, h.loops, callers_update h.callers rfl trivial⟩
  | insertsVersion begun input fresh =>
    refine ⟨hrows, h.loops, callers_update h.callers rfl ?_⟩
    refine ⟨forall_mem_nil _, ?_⟩
    exact hguard _ (Option.bind_eq_some_iff.mpr ⟨_, begun, input⟩)
  | @targets c k draft pin pins target begun phase found =>
    have hfree := h.callers c k begun
    rw [phase] at hfree
    exact ⟨hrows, h.loops, callers_update h.callers rfl hfree⟩
  | @binds c k draft next pin pins target row begun phase found bound =>
    have hfree := h.callers c k begun
    rw [phase] at hfree
    obtain ⟨hloop, hpins⟩ := hfree
    obtain ⟨hresource, hrow, relation, -, hlinks⟩ := Draft.bind_ok bound
    have hok := h.rows.callers c k begun
    unfold CallerOk at hok
    rw [phase] at hok
    obtain ⟨hpin, hrest⟩ : (pin.names draft.resource && pin.version = draft.row.version) = false ∧
        selfPins draft.resource draft.row.version pins = false :=
      Bool.or_eq_false_iff.mp hpins
    refine ⟨hrows, h.loops, callers_update h.callers rfl ?_⟩
    refine ⟨?_, by rw [hresource, hrow]; exact hrest⟩
    intro link hlink
    rw [hlinks] at hlink
    rw [hrow]
    rcases mem_append.mp hlink with hlink | hlink
    · exact hloop link hlink
    obtain rfl := mem_singleton.mp hlink
    -- The pin would have named the resource it belongs to.
    intro hself
    obtain ⟨hid, hversion⟩ := Prod.mk.inj hself
    have hnames := h.rows.names_self begun phase (hid.symm.trans hok.1.row)
    rw [hnames, hversion] at hpin
    simp at hpin
  | commitsResource begun create phase | commitsVersion begun create phase =>
    exact ⟨hrows, h.addVersion begun phase rfl rfl, callers_update h.callers rfl trivial⟩
  | keeps | assigns | writes => exact ⟨hrows, h.loops, callers_update h.callers rfl trivial⟩

/-- In every run, whatever the calls pin, a stored link goes to a
version committed no later than its own. -/
theorem links_go_back {env acts} (h : Run (step env) Free State.initial acts s) : s.tables.Sound :=
  (h.invariant (fun hinv _ hstep => libraryInv_step hinv hstep) libraryInv_initial).tables

/-- Where no call pins the version it creates, every pin goes to a
version that was committed before, and the pins form no cycle. -/
theorem pins_well_founded (env : Surroundings) {acts : List Act} {s : State}
    (h : Run (step env) NoSelfPin State.initial acts s) :
    s.tables.PinsEarlier ∧ ∀ row, ¬ Relation.TransGen s.tables.Pins row row := by
  have hinv : LoopInv s :=
    h.invariant (fun hinv hguard hstep => loopInv_step hinv hguard hstep) loopInv_initial
  have hearlier := hinv.rows.tables.pinsEarlier hinv.loops
  exact ⟨hearlier, fun row => hinv.rows.tables.acyclic hearlier row⟩

/-- An admin's machine. -/
def admin : Principal :=
  { machine := { id := ⟨"pc"⟩, ownerUserId := ⟨"ada"⟩ }, role := .admin, projectScope := .allProjects }

/-- No projects, and content that every validator accepts. -/
def plainStudio : Surroundings :=
  { projectExists := fun _ => false, validation := fun _ _ _ => none }

/-- The creation of a private agent definition. -/
def newAgent (key : String) (pins : List DependencyPin) : Call :=
  .createResource admin
    { kind := .agentDefinition, stableKey := key, scope := .user, projectId := none
      title := key, content := [], dependencies := pins }

/-- An agent definition, and a second one that composes its version 1. -/
def composingRun : List Act :=
  [.call 0 (newAgent "base" []), .insertResource 0 ⟨"r0"⟩, .insertVersion 0 ⟨"v0"⟩, .commit 0,
    .call 1 (newAgent "lead" [{ kind := .agentDefinition, stableKey := "base", version := 1 }]),
    .insertResource 1 ⟨"r1"⟩, .insertVersion 1 ⟨"v1"⟩, .resolvePin 1, .findVersion 1, .commit 1]

theorem pins_well_founded_composing : ∃ s,
    Run (step plainStudio) NoSelfPin State.initial composingRun s ∧ s.tables.links.length = 1 ∧
      s.tables.PinsEarlier ∧ ∀ row, ¬ Relation.TransGen s.tables.Pins row row := by
  have h : (execWithin (step plainStudio) NoSelfPin State.initial composingRun).any
      (fun s => decide (s.tables.links.length = 1)) = true := by decide
  obtain ⟨s, hs, hlinks⟩ := Run.of_any h
  have hrun := hs
  exact ⟨s, hrun, of_decide_eq_true hlinks, pins_well_founded plainStudio hrun⟩

/-- **The tables stay sound whatever the order**, with stale writes and versions that pin
themselves: no version is numbered twice, each belongs to a stored resource, and each link goes to
a version committed no later, by the relation of the two kinds. -/
theorem tables_sound (env : Surroundings) {acts : List Act} {s : State}
    (h : Run (step env) Free State.initial acts s) : (s.tables.versions.map (·.pin)).Nodup ∧
      (∀ row ∈ s.tables.versions, ∃ resource ∈ s.tables.resources, resource.id = row.resourceId) ∧
      ∀ link ∈ s.tables.links, s.tables.LinkSound link := by
  have hsound := links_go_back h
  refine ⟨hsound.pins, fun row hrow => ?_, hsound.links⟩
  obtain ⟨kind, key, resource, hresource, hid, -⟩ := hsound.owned row hrow
  exact ⟨resource, hresource, hid⟩

theorem tables_sound_composing : ∃ s, Run (step plainStudio) Free State.initial composingRun s ∧
    s.tables.links.length = 1 ∧ ∀ link ∈ s.tables.links, s.tables.LinkSound link := by
  have h : (execWithin (step plainStudio) Free State.initial composingRun).any
      (fun s => decide (s.tables.links.length = 1)) = true := by decide
  obtain ⟨s, hs, hlinks⟩ := Run.of_any h
  exact ⟨s, hs, of_decide_eq_true hlinks, (tables_sound plainStudio hs).2.2⟩

/-- An agent definition whose version 1 pins its own version 1. -/
def selfPinningRun : List Act :=
  [.call 0 (newAgent "lead" [{ kind := .agentDefinition, stableKey := "lead", version := 1 }]),
    .insertResource 0 ⟨"r0"⟩, .insertVersion 0 ⟨"v0"⟩, .resolvePin 0, .findVersion 0, .commit 0]

def selfPinned : LibraryVersion :=
  { id := ⟨"v0"⟩, resourceId := ⟨"r0"⟩, version := 1, title := "lead", content := [] }

def selfLink : LibraryLink :=
  { fromVersionId := ⟨"v0"⟩, toResourceId := ⟨"r0"⟩, toVersion := 1, relation := .composesAgent }

/-- The version under creation sees itself, and is stored with a pin to
itself. -/
theorem version_pins_itself : ∃ s, Run (step plainStudio) Free State.initial selfPinningRun s ∧
    s.tables.Pins selfPinned selfPinned ∧ ¬ s.tables.PinsEarlier := by
  have h : (execWithin (step plainStudio) Free State.initial selfPinningRun).any
      (fun s => decide (s.tables.versions = [selfPinned] ∧ s.tables.links = [selfLink])) =
      true := by decide
  obtain ⟨s, hs, hrows⟩ := Run.of_any h
  obtain ⟨hversions, hlinks⟩ := of_decide_eq_true hrows
  have hmem : selfPinned ∈ s.tables.versions := by
    rw [hversions]
    exact mem_singleton_self _
  have hlink : selfLink ∈ s.tables.links := by
    rw [hlinks]
    exact mem_singleton_self _
  refine ⟨s, hs, ⟨hmem, hmem, selfLink, hlink, rfl, rfl⟩, ?_⟩
  · intro hearlier
    obtain ⟨i, j, source, target, hi, -, -, -, hlt⟩ := hearlier selfLink hlink
    have hbound := (List.getElem?_eq_some_iff.mp hi).1
    rw [hversions, length_singleton] at hbound
    omega

end StudioOS.AiLibrary
