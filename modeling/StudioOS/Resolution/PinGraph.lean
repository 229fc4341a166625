import StudioOS.AiLibrary.Pins
import StudioOS.Resolution.Chains
import StudioOS.Resolution.Loader

/-!
# Resolution — PinGraph

The stored versions as one graph of nodes, and what the loader takes from it: nodes that the root
reaches over pins, and what `_resolve_node` will look up. It is refused only for a resource that the
caller may not read, and it always returns.
-/

namespace StudioOS.Resolution

open List Authz AiLibrary Relation

variable {principal : Principal} {tables : Tables} {node : ResolutionNode} {row : LibraryVersion}
  {fuel depth : Nat} {visited : List Uuid}

variable {binding : NodeBinding} {halt : LoadHalt} {target : LibraryVersion}

/-! ## The graph -/

/-- The stored versions as nodes that a pin chose. -/
def pinGraph (tables : Tables) : List ResolutionNode :=
  tables.versions.filterMap fun row =>
    (tables.resource row.resourceId).map fun resource => nodeOf tables resource row .pin

/-- A node as it is loaded for this version. -/
def IsNode (tables : Tables) (node : ResolutionNode) (row : LibraryVersion) : Prop :=
  row ∈ tables.versions ∧ ∃ resource origin, tables.resource row.resourceId = some resource ∧
    node = nodeOf tables resource row origin

theorem IsNode.pin (h : IsNode tables node row) : node.pin = row.pin := by
  obtain ⟨-, resource, origin, hresource, rfl⟩ := h
  exact Prod.ext (stored_of_resource hresource).2 rfl

theorem versionRow_of_mem (h : tables.Sound) (hrow : row ∈ tables.versions) :
    versionRow tables.versions row.resourceId row.version = some row := by
  cases hfound : versionRow tables.versions row.resourceId row.version with
  | none =>
    have hno := List.find?_eq_none.mp hfound row hrow
    simp at hno
  | some found =>
    obtain ⟨hmem, hpin⟩ := mem_of_versionRow hfound
    rw [inj_on_of_nodup_map h.pins hmem hrow hpin]

theorem nodeAt_pinGraph (h : tables.Sound) {resource} (hrow : row ∈ tables.versions)
    (hresource : tables.resource row.resourceId = some resource) :
    nodeAt (pinGraph tables) row.resourceId row.version =
      some (nodeOf tables resource row .pin) := by
  have hid : resource.id = row.resourceId := (stored_of_resource hresource).2
  have hmem : nodeOf tables resource row .pin ∈ pinGraph tables := by
    apply mem_filterMap.mpr
    exact ⟨row, hrow, by rw [hresource]; rfl⟩
  cases hfound : nodeAt (pinGraph tables) row.resourceId row.version with
  | none =>
    have hno := List.find?_eq_none.mp hfound _ hmem
    simp [nodeOf, hid] at hno
  | some found =>
    obtain ⟨hfoundMem, hpin⟩ := nodeAt_mem hfound
    obtain ⟨row', hrow', hnode⟩ := mem_filterMap.mp hfoundMem
    obtain ⟨resource', hresource', rfl⟩ := Option.map_eq_some_iff.mp hnode
    have hpin' : row'.pin = row.pin := by
      rw [← IsNode.pin ⟨hrow', resource', .pin, hresource', rfl⟩]
      exact hpin
    obtain rfl := inj_on_of_nodup_map h.pins hrow' hrow hpin'
    obtain rfl := Option.some.inj (hresource'.symm.trans hresource)
    rfl

variable {e : HttpError}

theorem pins_of_link {link} (h : tables.Sound) (hrow : row ∈ tables.versions)
    (hlink : link ∈ tables.linksOf row) :
    ∃ target, tables.Pins row target ∧ target.pin = link.target := by
  obtain ⟨hmem, hfrom⟩ := mem_filter.mp hlink
  rw [decide_eq_true_eq] at hfrom
  obtain ⟨i, j, source, target, -, -, hj, htarget, -⟩ := h.links link hmem
  exact ⟨target, ⟨hrow, mem_of_getElem? hj, link, hmem, hfrom, htarget.symm⟩, htarget⟩

theorem pins_of_binding (h : tables.Sound) (hnode : IsNode tables node row)
    (hbinding : binding ∈ node.bindings) : ∃ target, tables.Pins row target ∧
      target.pin = (binding.targetResourceId, binding.targetVersion) := by
  obtain ⟨hrow, resource, origin, -, rfl⟩ := hnode
  obtain ⟨link, hlink, rfl⟩ := mem_map.mp hbinding
  exact pins_of_link h hrow hlink

theorem pins_self_of_reaches_self (h : tables.Sound) (hcycle : TransGen tables.Pins row row) :
    tables.Pins row row := by
  have hrank : ∀ {a b}, tables.Pins a b → tables.rank b ≤ tables.rank a := by
    rintro a b ⟨ha, hb, link, hlink, hfrom, hto⟩
    obtain ⟨i, j, source, target, hi, hsource, hj, htarget, hle, -⟩ := h.links link hlink
    obtain rfl : source = a := inj_on_of_nodup_map h.versionIds
      (mem_of_getElem? hi) ha (hsource.trans hfrom)
    obtain rfl : target = b := inj_on_of_nodup_map h.pins
      (mem_of_getElem? hj) hb (htarget.trans hto)
    rw [h.rank_eq hi, h.rank_eq hj]
    exact hle
  have hreach : ∀ {a b}, TransGen tables.Pins a b → tables.rank b ≤ tables.rank a := by
    intro a b hab
    induction hab with
    | single hpins => exact hrank hpins
    | tail _ hpins ih => exact Nat.le_trans (hrank hpins) ih
  cases hcycle with
  | single hpins => exact hpins
  | @tail last _ hreaches hpins =>
    -- Between the two ends of the cycle the rank has nowhere to go.
    have hsame : tables.versions.idxOf last = tables.versions.idxOf row :=
      Nat.le_antisymm (hreach hreaches) (hrank hpins)
    obtain rfl : last = row := (idxOf_inj hpins.1).mp hsame
    exact hpins

theorem loadNode_ok {origin id version}
    (h : loadNode principal tables id version origin = .ok node) :
    ∃ row resource, row.pin = (id, version) ∧ row ∈ tables.versions ∧
      tables.resource row.resourceId = some resource ∧
      node = nodeOf tables resource row origin := by
  unfold loadNode at h
  split at h
  · cases h
  rename_i resource hresource
  obtain ⟨hstored, -⟩ := Option.filter_eq_some_iff.mp hresource
  have hid := (stored_of_resource hstored).2
  split at h
  · cases h
  rename_i row hrow
  obtain ⟨hmem, hpin⟩ := mem_of_versionRow hrow
  rw [hid] at hpin
  split at h
  · cases h
    refine ⟨row, resource, hpin, hmem, ?_, rfl⟩
    rw [(Prod.mk.inj hpin).1]
    exact hstored
  · cases h

theorem refusing_ok {α : Type} {result : Except HttpError α} {a : α}
    (h : refusing result = .ok a) : result = .ok a := by
  cases result with
  | error e => cases h
  | ok b =>
    obtain rfl : b = a := Except.ok.inj h
    rfl

theorem refusing_error {α : Type} {result : Except HttpError α}
    (h : refusing result = .error halt) : ∃ e, halt = .refused e ∧ result = .error e := by
  cases result with
  | error e => exact ⟨e, (Except.error.inj h).symm, rfl⟩
  | ok b => cases h

theorem loadPinned_ok (h : tables.Sound) (hload : loadPinned principal tables binding = .ok node) :
    ∃ target, target.pin = (binding.targetResourceId, binding.targetVersion) ∧
      IsNode tables node target ∧
      nodeAt (pinGraph tables) binding.targetResourceId binding.targetVersion = some node := by
  obtain ⟨target, resource, hpin, hmem, hresource, rfl⟩ := loadNode_ok (refusing_ok hload)
  obtain ⟨hid, hversion⟩ := Prod.mk.inj hpin
  refine ⟨target, hpin, ⟨hmem, resource, .pin, hresource, rfl⟩, ?_⟩
  rw [← hid, ← hversion]
  exact nodeAt_pinGraph h hmem hresource

/-- A stored version of a resource that the caller may not read. -/
def Hidden (principal : Principal) (tables : Tables) (row : LibraryVersion) : Prop :=
  row ∈ tables.versions ∧ ∃ resource, tables.resource row.resourceId = some resource ∧
    canRead principal resource = false

/-- Some version that this one reaches over pins is hidden. -/
def ReachesHidden (principal : Principal) (tables : Tables) (row : LibraryVersion) : Prop :=
  ∃ hidden, ReflTransGen tables.Pins row hidden ∧ Hidden principal tables hidden

theorem ReachesHidden.of_pins (hpins : tables.Pins row target)
    (h : ReachesHidden principal tables target) : ReachesHidden principal tables row := by
  obtain ⟨hidden, hreaches, hhidden⟩ := h
  exact ⟨hidden, .head hpins hreaches, hhidden⟩

theorem resource_of_version (h : tables.Sound) (hrow : row ∈ tables.versions) :
    ∃ resource, tables.resource row.resourceId = some resource := by
  obtain ⟨kind, key, r, hr, hid, -⟩ := h.owned row hrow
  cases hfound : tables.resource row.resourceId with
  | some resource => exact ⟨resource, rfl⟩
  | none =>
    have hno := List.find?_eq_none.mp hfound r hr
    rw [decide_eq_true_eq] at hno
    exact absurd hid hno

theorem hidden_of_unreadable (h : tables.Sound) (hrow : row ∈ tables.versions)
    (hunreadable : findReadableResource principal tables row.resourceId = none) :
    Hidden principal tables row := by
  obtain ⟨resource, hresource⟩ := resource_of_version h hrow
  refine ⟨hrow, resource, hresource, ?_⟩
  unfold findReadableResource at hunreadable
  rw [hresource] at hunreadable
  simpa using hunreadable

theorem hidden_of_link {link} (h : tables.Sound) (hrow : row ∈ tables.versions)
    (hlink : link ∈ tables.linksOf row) (hno : linkReadable principal tables link = false) :
    ReachesHidden principal tables row := by
  obtain ⟨target, hpins, hpin⟩ := pins_of_link h hrow hlink
  obtain ⟨hid, hversion⟩ := Prod.mk.inj hpin
  refine ReachesHidden.of_pins hpins ⟨target, .refl, hidden_of_unreadable h hpins.2.1 ?_⟩
  rw [hid]
  unfold linkReadable at hno
  split at hno
  · rename_i hnone
    exact hnone
  rename_i resource hfound
  have hresource := (stored_of_resource (Option.filter_eq_some_iff.mp hfound).1).2
  have hstored := versionRow_of_mem h hpins.2.1
  rw [hid, hversion] at hstored
  rw [hresource, hstored] at hno
  cases hno

theorem loadNode_error {origin} (h : tables.Sound) (hrow : row ∈ tables.versions)
    (hload : loadNode principal tables row.resourceId row.version origin = .error e) :
    e = definitionNotFound ∧ ReachesHidden principal tables row := by
  unfold loadNode at hload
  split at hload
  · rename_i hnone
    exact ⟨(Except.error.inj hload).symm, row, .refl, hidden_of_unreadable h hrow hnone⟩
  rename_i resource hfound
  have hresource := (stored_of_resource (Option.filter_eq_some_iff.mp hfound).1).2
  rw [hresource, versionRow_of_mem h hrow] at hload
  dsimp only at hload
  split at hload
  · cases hload
  · rename_i hno
    obtain ⟨link, hlink, hunreadable⟩ : ∃ link ∈ tables.linksOf row,
        linkReadable principal tables link = false := by
      simpa using hno
    exact ⟨(Except.error.inj hload).symm, hidden_of_link h hrow hlink hunreadable⟩

theorem loadPinned_error (h : tables.Sound) (htarget : target ∈ tables.versions)
    (hpin : target.pin = (binding.targetResourceId, binding.targetVersion))
    (hload : loadPinned principal tables binding = .error halt) :
    halt = .refused definitionNotFound ∧ ReachesHidden principal tables target := by
  obtain ⟨e, rfl, hnode⟩ := refusing_error hload
  obtain ⟨hid, hversion⟩ := Prod.mk.inj hpin
  rw [← hid, ← hversion] at hnode
  obtain ⟨rfl, hhidden⟩ := loadNode_error h htarget hnode
  exact ⟨rfl, hhidden⟩

/-! ## Loading what is below a node -/

/-- A node of the graph that this version reaches over at least one pin. -/
def Below (tables : Tables) (row : LibraryVersion) (node : ResolutionNode) : Prop :=
  ∃ target, TransGen tables.Pins row target ∧ target.pin = node.pin ∧
    nodeAt (pinGraph tables) node.resourceId node.version = some node

theorem Below.of_pins (hpins : tables.Pins row target)
    (h : Below tables target node) : Below tables row node := by
  obtain ⟨last, hreaches, hlast⟩ := h
  exact ⟨last, .head hpins hreaches, hlast⟩

theorem loadPinned_below (h : tables.Sound) (hnode : IsNode tables node row)
    (hbinding : binding ∈ node.bindings) {pinned}
    (hload : loadPinned principal tables binding = .ok pinned) :
    ∃ target, tables.Pins row target ∧ IsNode tables pinned target ∧ Below tables row pinned := by
  obtain ⟨target, hpin, hpinned, hgraph⟩ := loadPinned_ok h hload
  obtain ⟨target', hpins, hpin'⟩ := pins_of_binding h hnode hbinding
  obtain rfl := inj_on_of_nodup_map h.pins hpins.2.1 hpinned.1 (hpin'.trans hpin.symm)
  refine ⟨target', hpins, hpinned, target', .single hpins, hpinned.pin.symm, ?_⟩
  have hsame : (pinned.resourceId, pinned.version) =
      (binding.targetResourceId, binding.targetVersion) := hpinned.pin.trans hpin
  obtain ⟨hid, hversion⟩ := Prod.mk.inj hsame
  rw [hid, hversion]
  exact hgraph

theorem loadBinding_ok {nodes expand}

    (h : loadBinding principal tables expand binding = .ok nodes) :
    ∃ pinned below, nodes = pinned :: below ∧ loadPinned principal tables binding = .ok pinned ∧
      ((pinned.kind = .skill ∧ pinned.bindings.mapM (loadPinned principal tables) = .ok below) ∨
        (pinned.kind = .agentDefinition ∧ expand pinned = .ok below) ∨
        (pinned.kind ≠ .skill ∧ pinned.kind ≠ .agentDefinition ∧ below = [])) := by
  obtain ⟨pinned, hpinned, h⟩ := bind_ok h
  cases hkind : pinned.kind with
  | skill =>
    rw [hkind] at h
    obtain ⟨below, hbelow, h⟩ := bind_ok h
    exact ⟨pinned, below, (Except.ok.inj h).symm, hpinned, .inl ⟨hkind, hbelow⟩⟩
  | agentDefinition =>
    rw [hkind] at h
    obtain ⟨below, hbelow, h⟩ := bind_ok h
    exact ⟨pinned, below, (Except.ok.inj h).symm, hpinned, .inr (.inl ⟨hkind, hbelow⟩)⟩
  | rule | modelProfile | workflow | hook =>
    rw [hkind] at h
    exact ⟨pinned, [], (Except.ok.inj h).symm, hpinned,
      .inr (.inr ⟨by simp [hkind], by simp [hkind], rfl⟩)⟩

theorem loadBinding_error {expand}

    (h : loadBinding principal tables expand binding = .error halt) :
    loadPinned principal tables binding = .error halt ∨
      ∃ pinned, loadPinned principal tables binding = .ok pinned ∧
        ((∃ sub ∈ pinned.bindings, loadPinned principal tables sub = .error halt) ∨
          expand pinned = .error halt) := by
  rcases bind_error h with hpinned | ⟨pinned, hpinned, h⟩
  · exact .inl hpinned
  refine .inr ⟨pinned, hpinned, ?_⟩
  cases hkind : pinned.kind with
  | skill =>
    rw [hkind] at h
    rcases bind_error h with hskill | ⟨below, -, h⟩
    · exact .inl (mapM_error hskill)
    · cases h
  | agentDefinition =>
    rw [hkind] at h
    rcases bind_error h with hagent | ⟨below, -, h⟩
    · exact .inr hagent
    · cases h
  | rule | modelProfile | workflow | hook =>
    rw [hkind] at h
    cases h

theorem loadSubgraph_below {nodes} (h : tables.Sound) (hnode : IsNode tables node row)

    (hload : loadSubgraph principal tables fuel node visited depth = .ok nodes) :
    ∀ n ∈ nodes, Below tables row n := by
  induction fuel generalizing node row visited depth nodes with
  | zero => cases hload
  | succ fuel ih =>
    unfold loadSubgraph at hload
    split at hload
    · obtain rfl : [] = nodes := Except.ok.inj hload
      simp
    obtain ⟨parts, hparts, hload⟩ := bind_ok hload
    obtain rfl : parts.flatten = nodes := Except.ok.inj hload
    intro n hn
    obtain ⟨part, hpart, hn⟩ := mem_flatten.mp hn
    obtain ⟨binding, hbinding, hloadBinding⟩ := (mapM_results hparts).2 part hpart
    obtain ⟨pinned, below, rfl, hpinned, hrest⟩ := loadBinding_ok hloadBinding
    obtain ⟨target, hpins, htarget, hbelow⟩ := loadPinned_below h hnode hbinding hpinned
    rcases mem_cons.mp hn with rfl | hn
    · exact hbelow
    rcases hrest with ⟨-, hskill⟩ | ⟨-, hagent⟩ | ⟨-, -, rfl⟩
    · obtain ⟨sub, hsub, hrule⟩ := (mapM_results hskill).2 n hn
      obtain ⟨_, -, -, hrule⟩ := loadPinned_below h htarget hsub hrule
      exact hrule.of_pins hpins
    · exact (ih htarget hagent n hn).of_pins hpins
    · cases hn

theorem loadSubgraph_refused (h : tables.Sound) (hnode : IsNode tables node row)
    (hload : loadSubgraph principal tables fuel node visited depth = .error (.refused e)) :
    e = definitionNotFound ∧ ReachesHidden principal tables row := by
  induction fuel generalizing node row visited depth with
  | zero => cases hload
  | succ fuel ih =>
    unfold loadSubgraph at hload
    split at hload
    · cases hload
    rcases bind_error hload with hparts | ⟨parts, -, hload⟩
    swap
    · cases hload
    obtain ⟨binding, hbinding, hfails⟩ := mapM_error hparts
    rcases loadBinding_error hfails with hpinned | ⟨pinned, hpinned, hbelow⟩
    · obtain ⟨target, hpins, hpin⟩ := pins_of_binding h hnode hbinding
      obtain ⟨heq, hhidden⟩ := loadPinned_error h hpins.2.1 hpin hpinned
      exact ⟨LoadHalt.refused.inj heq, hhidden.of_pins hpins⟩
    obtain ⟨target, hpins, htarget, -⟩ := loadPinned_below h hnode hbinding hpinned
    rcases hbelow with ⟨sub, hsub, hrule⟩ | hagent
    · obtain ⟨rule, hpins', hpin'⟩ := pins_of_binding h htarget hsub
      obtain ⟨heq, hhidden⟩ := loadPinned_error h hpins'.2.1 hpin' hrule
      exact ⟨LoadHalt.refused.inj heq, (hhidden.of_pins hpins').of_pins hpins⟩
    · obtain ⟨heq, hhidden⟩ := ih htarget hagent
      exact ⟨heq, hhidden.of_pins hpins⟩

/-- The load stops: it goes one deeper with each composed agent, and not
below the bound. -/
theorem loadSubgraph_stops (hfuel : maxCompositionDepth + 1 < fuel + depth) (hpos : 0 < fuel) :
    loadSubgraph principal tables fuel node visited depth ≠ .error .running := by
  induction fuel generalizing node visited depth with
  | zero => exact absurd hpos (Nat.lt_irrefl 0)
  | succ fuel ih =>
    intro hload
    unfold loadSubgraph at hload
    split at hload
    · cases hload
    rename_i hgoes
    rw [not_or, Nat.not_lt] at hgoes
    rcases bind_error hload with hparts | ⟨parts, -, hload⟩
    swap
    · cases hload
    obtain ⟨binding, -, hfails⟩ := mapM_error hparts
    rcases loadBinding_error hfails with hpinned | ⟨pinned, -, ⟨sub, -, hrule⟩ | hagent⟩
    · obtain ⟨e, hno, -⟩ := refusing_error hpinned
      cases hno
    · obtain ⟨e, hno, -⟩ := refusing_error hrule
      cases hno
    · exact ih (by omega) (by omega) hagent

theorem loadSubgraph_covers {nodes}
    (hload : loadSubgraph principal tables fuel node visited depth = .ok nodes)
    (hfresh : node.resourceId ∉ visited) (hdepth : depth ≤ maxCompositionDepth)
    (hbinding : binding ∈ node.bindings) :
    ∃ pinned ∈ nodes, loadPinned principal tables binding = .ok pinned ∧
      (pinned.kind = .skill → ∀ sub ∈ pinned.bindings, ∃ rule ∈ nodes,
        loadPinned principal tables sub = .ok rule) ∧
      (pinned.kind = .agentDefinition → ∃ fuel' part, part ⊆ nodes ∧
        loadSubgraph principal tables fuel' pinned (node.resourceId :: visited) (depth + 1) =
          .ok part) := by
  cases fuel with
  | zero => cases hload
  | succ fuel =>
    unfold loadSubgraph at hload
    rw [if_neg (not_or.mpr ⟨hfresh, Nat.not_lt.mpr hdepth⟩)] at hload
    obtain ⟨parts, hparts, hload⟩ := bind_ok hload
    obtain rfl : parts.flatten = nodes := Except.ok.inj hload
    obtain ⟨part, hpart, hloadBinding⟩ := (mapM_results hparts).1 binding hbinding
    obtain ⟨pinned, below, rfl, hpinned, hrest⟩ := loadBinding_ok hloadBinding
    have hsub : pinned :: below ⊆ parts.flatten := fun n hn => mem_flatten.mpr ⟨_, hpart, hn⟩
    refine ⟨pinned, hsub (.head _), hpinned, ?_, ?_⟩
    · intro hkind sub hmem
      rcases hrest with ⟨-, hskill⟩ | ⟨hagent, -⟩ | ⟨hno, -⟩
      · obtain ⟨rule, hrule, hloaded⟩ := (mapM_results hskill).1 sub hmem
        exact ⟨rule, hsub (.tail _ hrule), hloaded⟩
      · rw [hkind] at hagent
        cases hagent
      · exact absurd hkind hno
    · intro hkind
      rcases hrest with ⟨hskill, -⟩ | ⟨-, hexpand⟩ | ⟨-, hno, -⟩
      · rw [hkind] at hskill
        cases hskill
      · exact ⟨fuel, below, fun n hn => hsub (.tail _ hn), hexpand⟩
      · exact absurd hkind hno

end StudioOS.Resolution
