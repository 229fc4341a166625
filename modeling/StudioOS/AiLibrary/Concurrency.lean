import StudioOS.AiLibrary.Pins
import StudioOS.Library.Versioned

/-!
# AI library — Concurrency

The row of one resource as a versioned value: `activate_resource_version`,
`deprecate_resource` and `create_resource_version` compare the version they
loaded, and write without asking for it again.
-/

namespace StudioOS.AiLibrary

open List Option Authz Resolution Runs

variable {s t : State} {act : Act} {c d : Nat} {k k' : Caller}

variable {versions : List LibraryVersion} {resource assigned : LibraryResource} {version : Int}
  {call : Call} {phase : Phase}

/-- The columns that the calls decide: `(active_version, status)`. -/
abbrev Outcome := Int × LibraryStatus

def LibraryResource.outcome (resource : LibraryResource) : Outcome :=
  (resource.activeVersion, resource.status)

/-- `expected_resource_version`. -/
def Call.expected : Call → Option Int
  | .activateResourceVersion _ _ _ expected | .deprecateResource _ _ expected => some expected
  | .createResource .. | .createResourceVersion .. => none

/-- A call by itself. -/
def Call.effect : Call → Outcome → Outcome
  | .activateResourceVersion _ _ version _, _ => (version, .active)
  | .deprecateResource .., outcome => (outcome.1, .deprecated)
  | .createResource .., outcome | .createResourceVersion .., outcome => outcome

/-- The row a caller has loaded and may write. -/
def Caller.copy (k : Caller) : Option LibraryResource :=
  match k.phase with
  | .loaded resource | .locked resource | .assigned resource _ => some resource
  | .binding draft _ | .targeted draft .. =>
    if k.call.creates then none else some draft.resource
  | .checked _ | .inserted _ | .done _ => none

/-- The call of `c` on the resource returned without an error. -/
def State.Succeeded (s : State) (resourceId : Uuid) (c : Nat) (call : Call) : Prop :=
  call.resourceId = some resourceId ∧
    ∃ wrote, s.callers c = some { call := call, phase := .done (.ok wrote) }

/-- The call of `c` expected this version of the resource, and wrote. -/
def State.TookEffect (s : State) (resourceId : Uuid) (version : Int) (c : Nat) : Prop :=
  ∃ k ∈ s.callers c, k.call.resourceId = some resourceId ∧ k.call.expected = some version ∧
    k.phase.result = some (.ok true)

def State.versionsWritten (s : State) (resourceId : Uuid) : List Int :=
  (s.writes.filter (·.1 = resourceId)).map (·.2)

/-- The guard: the row is written at the version its caller loaded. -/
def Current (s : State) : Act → Prop
  | .write c | .commit c => ∀ copy ∈ (s.callers c).bind Caller.copy,
      ∀ row ∈ s.tables.resource copy.id, row.version = copy.version
  | _ => True

instance (s : State) (resourceId : Uuid) (version : Int) (c : Nat) :
    Decidable (s.TookEffect resourceId version c) := by
  unfold State.TookEffect
  infer_instance

instance (s : State) : (act : Act) → Decidable (Current s act)
  | .write c | .commit c =>
    inferInstanceAs (Decidable (∀ copy ∈ (s.callers c).bind Caller.copy,
      ∀ row ∈ s.tables.resource copy.id, row.version = copy.version))
  | .call _ _ | .insertResource _ _ | .lock _ | .insertVersion _ _ | .resolvePin _
  | .findVersion _ | .check _ => .isTrue trivial

/-- `assigned` is the call's write of the row it loaded. -/
structure Writes (call : Call) (loaded assigned : LibraryResource) : Prop where
  target : call.resourceId = some loaded.id
  expected : ∀ version, call.expected = some version → version = loaded.version
  version : assigned.version = loaded.version + 1
  outcome : assigned.outcome = call.effect loaded.outcome

variable {principal : Principal} {expected : Int}
  {loaded copy : LibraryResource}

theorem checkActivate_ok {result}

    (h : checkActivate principal versions resource version expected = .ok result) :
    resource.version = expected ∧
      (result = none ∧ resource.outcome = (version, .active) ∨
        result = some (resource.activated version)) := by
  obtain ⟨-, -, h⟩ := StudioOS.bind_ok h
  dsimp only at h
  split at h
  · cases h
  rename_i hexpected
  split at h
  · cases h
  refine ⟨not_not.mp hexpected, ?_⟩
  split at h
  · cases h
    exact .inr rfl
  · rename_i hsame
    cases h
    rw [not_or, not_not, not_not] at hsame
    exact .inl ⟨rfl, Prod.ext hsame.1 hsame.2⟩

theorem checkDeprecate_ok {result} (h : checkDeprecate principal resource expected = .ok result) :
    resource.version = expected ∧
      (result = none ∧ resource.status = .deprecated ∨ result = some resource.deprecated) := by
  obtain ⟨-, -, h⟩ := StudioOS.bind_ok h
  dsimp only at h
  split at h
  · cases h
  rename_i hexpected
  refine ⟨not_not.mp hexpected, ?_⟩
  split at h
  · cases h
    exact .inr rfl
  · rename_i hsame
    cases h
    exact .inl ⟨rfl, not_not.mp hsame⟩

theorem effect_of_kept (h : call.decision versions resource = some (.ok none)) :
    call.effect resource.outcome = resource.outcome := by
  cases call with
  | createResource | createResourceVersion => cases h
  | activateResourceVersion principal id version expected =>
    rcases (checkActivate_ok (some.inj h)).2 with ⟨-, hsame⟩ | hwrites
    · exact hsame.symm
    · cases hwrites
  | deprecateResource principal id expected =>
    rcases (checkDeprecate_ok (some.inj h)).2 with ⟨-, hsame⟩ | hwrites
    · exact Prod.ext rfl hsame.symm
    · cases hwrites

theorem writes_of_assigned

    (h : call.decision versions resource = some (.ok (some assigned)))
    (htarget : call.resourceId = some resource.id) : Writes call resource assigned := by
  cases call with
  | createResource | createResourceVersion => cases h
  | activateResourceVersion principal id version expected =>
    obtain ⟨hexpected, ⟨hnone, -⟩ | hassigned⟩ := checkActivate_ok (some.inj h)
    · cases hnone
    · cases hassigned
      exact ⟨htarget, fun _ hv => (some.inj hv).symm.trans hexpected.symm, rfl, rfl⟩
  | deprecateResource principal id expected =>
    obtain ⟨hexpected, ⟨hnone, -⟩ | hassigned⟩ := checkDeprecate_ok (some.inj h)
    · cases hnone
    · cases hassigned
      exact ⟨htarget, fun _ hv => (some.inj hv).symm.trans hexpected.symm, rfl, rfl⟩

theorem flushRow_current {row} (h : Writes call loaded assigned)
    (hversion : row.version = loaded.version) (houtcome : row.outcome = loaded.outcome) :
    (flushRow loaded assigned row).version = row.version + 1 ∧
      (flushRow loaded assigned row).outcome = call.effect row.outcome := by
  obtain ⟨hactive, hstatus⟩ := Prod.mk.inj houtcome
  constructor
  · show flushed loaded.version assigned.version row.version = row.version + 1
    rw [hversion, flushed_fresh, h.version]
  · show (flushed loaded.activeVersion assigned.activeVersion row.activeVersion,
      flushed loaded.status assigned.status row.status) = call.effect row.outcome
    rw [hactive, hstatus, flushed_fresh, flushed_fresh, houtcome]
    exact h.outcome

/-! ## The row as a cell -/

/-- A step of one caller that had not returned. -/
structure Turn (s t : State) (c : Nat) (k' : Caller) : Prop where
  running : ∀ k, s.callers c = some k → k.phase.result = none
  callers : t.callers = Function.update s.callers c (some k')

/-- The row of a resource is the value of a cell, and the calls that
succeeded are the ones in its order. -/
structure Tracks (s : State) (resourceId : Uuid) (row : LibraryResource)
    (cell : Versioned.Cell Nat Call Outcome) : Prop where
  version : cell.version = row.version
  value : cell.value = row.outcome
  written : cell.written.map (·.2) = s.versionsWritten resourceId
  nodup : cell.order.Nodup
  order : ∀ c call, (c, call) ∈ cell.order ↔ s.Succeeded resourceId c call
  effects : ∀ version c, s.TookEffect resourceId version c → (c, version + 1) ∈ cell.written
  copies : ∀ c k copy, s.callers c = some k → k.copy = some copy → copy.id = resourceId →
    cell.copies c = some (copy.version, copy.outcome)

variable {resourceId : Uuid} {row : LibraryResource} {cell : Versioned.Cell Nat Call Outcome}

theorem Turn.caller_self (turn : Turn s t c k') : t.callers c = some k' := by
  rw [turn.callers]
  exact Function.update_self ..

theorem Turn.caller_ne (turn : Turn s t c k') (hdc : d ≠ c) : t.callers d = s.callers d := by
  rw [turn.callers]
  exact Function.update_of_ne hdc ..

theorem Turn.succeeded_iff (turn : Turn s t c k') :
    t.Succeeded resourceId d call ↔ s.Succeeded resourceId d call ∨
      (d = c ∧ call = k'.call ∧ call.resourceId = some resourceId ∧
        ∃ wrote, k'.phase = .done (.ok wrote)) := by
  unfold State.Succeeded
  by_cases hdc : d = c
  · subst hdc
    rw [turn.caller_self]
    constructor
    · rintro ⟨hid, wrote, hk⟩
      cases hk
      exact .inr ⟨rfl, rfl, hid, wrote, rfl⟩
    · rintro (⟨-, wrote, hk⟩ | ⟨-, rfl, hid, wrote, hphase⟩)
      · cases turn.running _ hk
      · refine ⟨hid, wrote, ?_⟩
        rw [← hphase]
  · rw [turn.caller_ne hdc]
    constructor
    · exact .inl
    · rintro (h | ⟨rfl, -⟩)
      · exact h
      · exact absurd rfl hdc

theorem Phase.eq_done {result} (h : phase.result = some result) : phase = .done result := by
  cases phase with
  | done answer =>
    cases h
    rfl
  | _ => cases h

theorem State.TookEffect.succeeded (h : s.TookEffect resourceId version c) :
    ∃ call, s.Succeeded resourceId c call := by
  obtain ⟨⟨call, phase⟩, hk, hid, -, hresult⟩ := h
  obtain rfl := Phase.eq_done hresult
  exact ⟨call, hid, true, hk⟩

theorem Turn.tookEffect (turn : Turn s t c k')
    (h : t.TookEffect resourceId version d) : s.TookEffect resourceId version d ∨
      (d = c ∧ k'.call.resourceId = some resourceId ∧ k'.call.expected = some version ∧
        k'.phase = .done (.ok true)) := by
  obtain ⟨l, hd, hid, hexpected, hresult⟩ := h
  by_cases hdc : d = c
  · subst hdc
    obtain rfl := some.inj (turn.caller_self.symm.trans hd)
    exact .inr ⟨rfl, hid, hexpected, Phase.eq_done hresult⟩
  · rw [mem_def, turn.caller_ne hdc] at hd
    exact .inl ⟨l, hd, hid, hexpected, hresult⟩

/-- The caller returns nothing to the order of this resource. -/
def Caller.Quiet (k' : Caller) (resourceId : Uuid) : Prop :=
  ∀ wrote, k'.phase = .done (.ok wrote) → k'.call.resourceId ≠ some resourceId

/-- A step that finishes no call on the resource may change the copy of
its caller. -/
theorem Tracks.quiet (h : Tracks s resourceId row cell) (turn : Turn s t c k')
    (hwrites : t.versionsWritten resourceId = s.versionsWritten resourceId)
    (hquiet : k'.Quiet resourceId) {copies} (hothers : ∀ d, d ≠ c → copies d = cell.copies d)
    (hself : ∀ copy, k'.copy = some copy → copy.id = resourceId →
      copies c = some (copy.version, copy.outcome)) :
    Tracks t resourceId row { cell with copies := copies } where
  version := h.version
  value := h.value
  written := h.written.trans hwrites.symm
  nodup := h.nodup
  order := by
    intro d call
    show (d, call) ∈ cell.order ↔ _
    rw [h.order, turn.succeeded_iff]
    constructor
    · exact .inl
    · rintro (hs | ⟨-, rfl, hid, wrote, hphase⟩)
      · exact hs
      · exact absurd hid (hquiet wrote hphase)
  effects := by
    intro version d hd
    rcases turn.tookEffect hd with hs | ⟨-, hid, -, hphase⟩
    · exact h.effects version d hs
    · exact absurd hid (hquiet true hphase)
  copies := by
    intro d l copy hd hl hid
    by_cases hdc : d = c
    · subst hdc
      obtain rfl := some.inj (turn.caller_self.symm.trans hd)
      exact hself copy hl hid
    · rw [turn.caller_ne hdc] at hd
      exact (hothers d hdc).trans (h.copies d l copy hd hl hid)

/-- A step that has nothing to do with the resource, or only drops or
carries on the copy of its caller. -/
theorem Tracks.frame (h : Tracks s resourceId row cell) (turn : Turn s t c k')
    (hwrites : t.versionsWritten resourceId = s.versionsWritten resourceId)
    (hquiet : k'.Quiet resourceId) (hcopy : ∀ copy, k'.copy = some copy → copy.id = resourceId →
      ∃ k, s.callers c = some k ∧ k.copy = some copy) : Tracks t resourceId row cell := by
  apply h.quiet turn hwrites hquiet
  · intro d _
    rfl
  · intro copy hk' hid
    obtain ⟨k, hk, hcopied⟩ := hcopy copy hk' hid
    exact h.copies c k copy hk hcopied hid

theorem Tracks.load (h : Tracks s resourceId row cell) (turn : Turn s t c k')
    (hwrites : t.versionsWritten resourceId = s.versionsWritten resourceId)
    (hquiet : k'.Quiet resourceId) (hcopy : k'.copy = some row) :
    Tracks t resourceId row (cell.load c) := by
  apply h.quiet turn hwrites hquiet
  · intro d hdc
    exact Function.update_of_ne hdc ..
  · intro copy hk' _
    obtain rfl := some.inj (hcopy.symm.trans hk')
    rw [Function.update_self, h.version, h.value]

theorem Tracks.succeeds (h : Tracks s resourceId row cell) (turn : Turn s t c k') {wrote}
    (hid : k'.call.resourceId = some resourceId) (hphase : k'.phase = .done (.ok wrote))
    {row' cell'} (hversion : cell'.version = row'.version) (hvalue : cell'.value = row'.outcome)
    (hcopies : cell'.copies = cell.copies) (horder : cell'.order.Perm ((c, k'.call) :: cell.order))
    (hwritten : cell'.written.map (·.2) = t.versionsWritten resourceId)
    (hmore : cell.written ⊆ cell'.written)
    (heffect : ∀ version, wrote = true → k'.call.expected = some version →
      (c, version + 1) ∈ cell'.written) : Tracks t resourceId row' cell' where
  version := hversion
  value := hvalue
  written := hwritten
  nodup := by
    rw [horder.nodup_iff, nodup_cons]
    refine ⟨?_, h.nodup⟩
    rw [h.order]
    rintro ⟨-, done, hk⟩
    cases turn.running _ hk
  order := by
    intro d call
    rw [horder.mem_iff, mem_cons, h.order, turn.succeeded_iff, or_comm]
    apply or_congr_right
    constructor
    · intro heq
      obtain ⟨rfl, rfl⟩ := Prod.mk.inj heq
      exact ⟨rfl, rfl, hid, wrote, hphase⟩
    · rintro ⟨rfl, rfl, -⟩
      rfl
  effects := by
    intro version d hd
    rcases turn.tookEffect hd with hs | ⟨rfl, -, hexpected, hdone⟩
    · exact hmore (h.effects version d hs)
    · rw [hphase] at hdone
      injection hdone with hdone
      injection hdone with hdone
      exact heffect version hdone hexpected
  copies := by
    intro d l copy hd hl hcopyid
    rw [hcopies]
    by_cases hdc : d = c
    · subst hdc
      obtain rfl := some.inj (turn.caller_self.symm.trans hd)
      unfold Caller.copy at hl
      rw [hphase] at hl
      cases hl
    · rw [turn.caller_ne hdc] at hd
      exact h.copies d l copy hd hl hcopyid

/-- Some cell explains the row of the resource. -/
def Explained (s : State) (resourceId : Uuid) (row : LibraryResource) : Prop :=
  ∃ cell : Versioned.Cell Nat Call Outcome,
    cell.Inv Call.effect 1 (0, .draft) ∧ Tracks s resourceId row cell

/-- What a caller holds is the row of the resource it calls for, or a
new row. -/
structure Caller.Consistent (k : Caller) : Prop where
  target : ∀ copy, k.copy = some copy → k.call.resourceId = some copy.id
  created : ∀ resource, k.inserted = some resource →
    resource.version = 1 ∧ resource.outcome = (0, .draft)
  writes : ∀ loaded assigned, k.phase = .assigned loaded assigned →
    Writes k.call loaded assigned

structure ConcurrencyInv (s : State) : Prop where
  rows : LibraryInv s
  consistent : ∀ c k, s.callers c = some k → k.Consistent
  stored : ∀ resourceId row, s.tables.resource resourceId = some row → Explained s resourceId row
  unstored : ∀ resourceId, s.tables.resource resourceId = none →
    (∀ c call, ¬ s.Succeeded resourceId c call) ∧ s.versionsWritten resourceId = []

theorem concurrencyInv_initial : ConcurrencyInv State.initial where
  rows := libraryInv_initial
  consistent := by intro c k hcaller; cases hcaller
  stored := by intro id row hrow; cases hrow
  unstored := by
    intro id _
    refine ⟨?_, rfl⟩
    rintro c call ⟨-, wrote, hcaller⟩
    cases hcaller

theorem Turn.consistent (turn : Turn s t c k') (h : ∀ d l, s.callers d = some l → l.Consistent)
    (hself : k'.Consistent) : ∀ d l, t.callers d = some l → l.Consistent := by
  intro d l hd
  by_cases hdc : d = c
  · subst hdc
    obtain rfl := some.inj (turn.caller_self.symm.trans hd)
    exact hself
  · rw [turn.caller_ne hdc] at hd
    exact h d l hd

theorem ConcurrencyInv.quiet (h : ConcurrencyInv s) (hrows : LibraryInv t) (turn : Turn s t c k')
    (htables : t.tables = s.tables) (hwrites : t.writes = s.writes)
    (hquiet : ∀ wrote, k'.phase ≠ .done (.ok wrote)) (hconsistent : k'.Consistent)
    (hcopy : ∀ copy, k'.copy = some copy → (∃ k, s.callers c = some k ∧ k.copy = some copy) ∨
      s.tables.resource copy.id = some copy) : ConcurrencyInv t where
  rows := hrows
  consistent := turn.consistent h.consistent hconsistent
  stored := by
    intro id row hrow
    rw [htables] at hrow
    obtain ⟨cell, hinv, htracks⟩ := h.stored id row hrow
    have hwritten : t.versionsWritten id = s.versionsWritten id := by
      unfold State.versionsWritten
      rw [hwrites]
    have hquiet' : k'.Quiet id := fun wrote hphase => absurd hphase (hquiet wrote)
    by_cases hload : k'.copy = some row
    · exact ⟨cell.load c, hinv.load c, htracks.load turn hwritten hquiet' hload⟩
    refine ⟨cell, hinv, htracks.frame turn hwritten hquiet' ?_⟩
    intro copy hk' hid
    rcases hcopy copy hk' with hheld | hloaded
    · exact hheld
    · rw [hid] at hloaded
      obtain rfl := some.inj (hrow.symm.trans hloaded)
      exact absurd hk' hload
  unstored := by
    intro id hnone
    rw [htables] at hnone
    obtain ⟨hcalls, hwritten⟩ := h.unstored id hnone
    constructor
    · intro d call hd
      rcases turn.succeeded_iff.mp hd with hs | ⟨-, -, -, wrote, hphase⟩
      · exact hcalls d call hs
      · exact hquiet wrote hphase
    · unfold State.versionsWritten
      rw [hwrites]
      exact hwritten

/-! ## The steps -/

theorem consistent_done (call) (result) :
    Caller.Consistent { call := call, phase := .done result } where
  target := by intro copy hcopy; cases hcopy
  created := by
    intro resource hinserted
    unfold Caller.inserted at hinserted
    split at hinserted <;> cases hinserted
  writes := by intro loaded assigned hphase; cases hphase

theorem Caller.Consistent.moves (h : k.Consistent)
    (hcopy : Caller.copy { k with phase := phase } = k.copy)
    (hinserted : Caller.inserted { k with phase := phase } = k.inserted)
    (hwrites : ∀ loaded assigned, phase = .assigned loaded assigned →
      Writes k.call loaded assigned) : Caller.Consistent { k with phase := phase } where
  target := by
    rw [hcopy]
    exact h.target
  created := by
    rw [hinserted]
    exact h.created
  writes := hwrites

theorem turn_of_running (begun : s.callers c = some k) (running : k.phase.result = none)
    (hcallers : t.callers = Function.update s.callers c (some k')) : Turn s t c k' where
  running := by
    intro l hl
    obtain rfl := some.inj (begun.symm.trans hl)
    exact running
  callers := hcallers

theorem LibraryInv.copy_stored (h : LibraryInv s)
    (hk : s.callers c = some k) (hcopy : k.copy = some copy) : s.tables.Stored copy := by
  have hok := h.callers c k hk
  unfold CallerOk at hok
  unfold Caller.copy at hcopy
  cases hphase : k.phase with
  | loaded resource =>
    rw [hphase] at hok hcopy
    cases hcopy
    exact hok
  | locked resource =>
    rw [hphase] at hok hcopy
    cases hcopy
    exact hok.2.1
  | assigned resource assigned =>
    rw [hphase] at hok hcopy
    cases hcopy
    exact hok
  | binding draft pins =>
    rw [hphase] at hok hcopy
    dsimp only at hok hcopy
    split at hcopy
    · cases hcopy
    · rename_i hcreates
      cases hcopy
      rcases hok.home with hyes | ⟨hstored, -⟩
      · exact absurd hyes hcreates
      · exact hstored
  | targeted draft pin target pins =>
    rw [hphase] at hok hcopy
    dsimp only at hok hcopy
    split at hcopy
    · cases hcopy
    · rename_i hcreates
      cases hcopy
      rcases hok.1.home with hyes | ⟨hstored, -⟩
      · exact absurd hyes hcreates
      · exact hstored
  | checked | inserted | done => rw [hphase] at hcopy; cases hcopy

theorem resource_ne_none {tables : Tables} (h : tables.Stored copy) :
    tables.resource copy.id ≠ none := by
  obtain ⟨r, hr, hid, -⟩ := h
  intro hnone
  have hno := List.find?_eq_none.mp hnone r hr
  rw [decide_eq_true_eq] at hno
  exact hno hid

theorem ConcurrencyInv.keeps (h : ConcurrencyInv s) (hrows : LibraryInv t)
    (begun : s.callers c = some k) (phase : k.phase = .loaded resource)
    (decided : k.call.decision s.tables.versions resource = some (.ok none))
    (htables : t.tables = s.tables) (hwrites : t.writes = s.writes)
    (turn : Turn s t c { k with phase := .done (.ok false) }) : ConcurrencyInv t where
  rows := hrows
  consistent := turn.consistent h.consistent (consistent_done _ _)
  stored := by
    intro id row hrow
    rw [htables] at hrow
    obtain ⟨cell, hinv, htracks⟩ := h.stored id row hrow
    have hwritten : t.versionsWritten id = s.versionsWritten id := by
      unfold State.versionsWritten
      rw [hwrites]
    have hcopy : k.copy = some resource := by
      unfold Caller.copy
      rw [phase]
    have htarget := (h.consistent c k begun).target resource hcopy
    by_cases hid : resource.id = id
    · have hheld := htracks.copies c k resource begun hcopy hid
      obtain ⟨-, -, before, ⟨after, horder⟩, hbefore⟩ := hinv.copies c _ _ hheld
      refine ⟨cell.keep before after c k.call, ?_, ?_⟩
      · apply hinv.keep horder.symm
        rw [hbefore]
        exact effect_of_kept decided
      apply htracks.succeeds turn (hid ▸ htarget) rfl
      · exact htracks.version
      · exact htracks.value
      · rfl
      · show (before ++ (c, k.call) :: after).Perm ((c, k.call) :: cell.order)
        rw [← horder]
        exact perm_middle
      · exact htracks.written.trans hwritten.symm
      · exact List.Subset.refl _
      · intro version hno
        cases hno
    · refine ⟨cell, hinv, htracks.frame turn hwritten ?_ ?_⟩
      · intro wrote _ hsame
        exact hid (some.inj (htarget.symm.trans hsame))
      · intro copy hk'
        cases hk'
  unstored := by
    intro id hnone
    rw [htables] at hnone
    obtain ⟨hcalls, hwritten⟩ := h.unstored id hnone
    constructor
    · intro d call hd
      rcases turn.succeeded_iff.mp hd with hs | ⟨-, rfl, hid, -⟩
      · exact hcalls d call hs
      have hcopy : k.copy = some resource := by
        unfold Caller.copy
        rw [phase]
      have htarget := (h.consistent c k begun).target resource hcopy
      obtain rfl := some.inj (htarget.symm.trans hid)
      exact resource_ne_none (h.rows.copy_stored begun hcopy) hnone
    · unfold State.versionsWritten
      rw [hwrites]
      exact hwritten

theorem resource_update (tables : Tables) (loaded assigned) (id) :
    (tables.update loaded assigned).resource id = (tables.resource id).map fun current =>
      if current.id = loaded.id then flushRow loaded assigned current else current := by
  unfold Tables.resource Tables.update updateResource
  rw [List.find?_map]
  congr 2
  funext current
  show decide ((if current.id = loaded.id then flushRow loaded assigned current else current).id =
    id) = decide (current.id = id)
  rw [(updatedRow_identity loaded assigned current).1]

theorem ConcurrencyInv.wrote (h : ConcurrencyInv s) (hrows : LibraryInv t)
    (begun : s.callers c = some k)
    (hcopy : k.copy = some loaded) (hassigned : Writes k.call loaded assigned)
    (hguard : ∀ row ∈ s.tables.resource loaded.id, row.version = loaded.version)
    (turn : Turn s t c { k with phase := .done (.ok true) })
    (htables : ∀ id, t.tables.resource id = (s.tables.update loaded assigned).resource id)
    (hwrites : t.writes = s.writes ++ [(loaded.id, assigned.version)]) : ConcurrencyInv t where
  rows := hrows
  consistent := turn.consistent h.consistent (consistent_done _ _)
  stored := by
    intro id row' hrow'
    rw [htables, resource_update] at hrow'
    obtain ⟨row, hrow, rfl⟩ := map_eq_some_iff.mp hrow'
    obtain ⟨cell, hinv, htracks⟩ := h.stored id row hrow
    have hrowid : row.id = id := (stored_of_resource hrow).2
    by_cases hid : loaded.id = id
    · subst hid
      rw [if_pos hrowid]
      have hversion : row.version = loaded.version := hguard row hrow
      have hheld := htracks.copies c k loaded begun hcopy rfl
      have hcurrent := (hinv.copies c _ _ hheld).current (hversion.symm.trans htracks.version.symm)
      obtain ⟨hnext, houtcome⟩ :=
        flushRow_current hassigned hversion (hcurrent.trans htracks.value).symm
      refine ⟨cell.write Call.effect c k.call, hinv.write c k.call, ?_⟩
      apply htracks.succeeds turn hassigned.target rfl
      · show cell.version + 1 = _
        rw [hnext, htracks.version]
      · show k.call.effect cell.value = _
        rw [houtcome, htracks.value]
      · rfl
      · exact perm_append_singleton _ _
      · show (cell.written ++ [(c, cell.version + 1)]).map (·.2) = t.versionsWritten loaded.id
        unfold State.versionsWritten
        rw [hwrites, filter_append, map_append, map_append, htracks.written,
          htracks.version, hversion, ← hassigned.version]
        simp [State.versionsWritten]
      · exact subset_append_left _ _
      · intro version _ hexpected
        rw [hassigned.expected version hexpected, ← hversion, ← htracks.version]
        exact mem_append_right _ (mem_singleton_self _)
    · rw [if_neg (fun hsame => hid (hsame.symm.trans hrowid))]
      refine ⟨cell, hinv, htracks.frame turn ?_ ?_ ?_⟩
      · unfold State.versionsWritten
        rw [hwrites, filter_append]
        simp [hid]
      · intro wrote _ hsame
        exact hid (some.inj (hassigned.target.symm.trans hsame))
      · intro copy hk'
        cases hk'
  unstored := by
    intro id hnone
    rw [htables, resource_update, map_eq_none_iff] at hnone
    have hid : loaded.id ≠ id := by
      rintro rfl
      exact resource_ne_none (h.rows.copy_stored begun hcopy) hnone
    obtain ⟨hcalls, hwritten⟩ := h.unstored id hnone
    constructor
    · intro d call hd
      rcases turn.succeeded_iff.mp hd with hs | ⟨-, rfl, htarget, -⟩
      · exact hcalls d call hs
      · exact hid (some.inj (hassigned.target.symm.trans htarget))
    · unfold State.versionsWritten at hwritten ⊢
      rw [hwrites, filter_append, map_append, hwritten]
      simp [hid]

theorem resource_addResource (tables : Tables) (resource) (id) :
    (tables.addResource resource).resource id =
      (tables.resource id).or (if resource.id = id then some resource else none) := by
  unfold Tables.resource Tables.addResource
  rw [List.find?_append, List.find?_singleton]
  simp

theorem ConcurrencyInv.creates (h : ConcurrencyInv s) (hrows : LibraryInv t) {draft}
    (begun : s.callers c = some k) (hcreates : k.call.creates = true)
    (phase : k.phase = .binding draft []) (turn : Turn s t c { k with phase := .done (.ok true) })
    (htables : ∀ id, t.tables.resource id = (s.tables.addResource draft.resource).resource id)
    (hwrites : t.writes = s.writes) : ConcurrencyInv t := by
  have hnotarget : k.call.resourceId = none := by
    cases hcall : k.call <;> rw [hcall] at hcreates <;> first | rfl | cases hcreates
  have hsucceeded : ∀ id d call, t.Succeeded id d call → s.Succeeded id d call := by
    intro id d call hd
    rcases turn.succeeded_iff.mp hd with hs | ⟨-, rfl, hid, -⟩
    · exact hs
    · cases hnotarget.symm.trans hid
  have hwritten : ∀ id, t.versionsWritten id = s.versionsWritten id := by
    intro id
    unfold State.versionsWritten
    rw [hwrites]
  refine ⟨hrows, turn.consistent h.consistent (consistent_done _ _), ?_, ?_⟩
  · intro id row hrow
    rw [htables, resource_addResource] at hrow
    cases hstored : s.tables.resource id with
    | some row' =>
      rw [hstored] at hrow
      obtain rfl := some.inj hrow
      obtain ⟨cell, hinv, htracks⟩ := h.stored id row' hstored
      refine ⟨cell, hinv, htracks.frame turn (hwritten id) ?_ ?_⟩
      · intro wrote _ hid
        cases hnotarget.symm.trans hid
      · intro copy hk'
        cases hk'
    | none =>
      rw [hstored, none_or] at hrow
      split at hrow
      · cases hrow
        obtain ⟨hcalls, hnone⟩ := h.unstored id hstored
        have hnew : draft.resource.version = 1 ∧ draft.resource.outcome = (0, .draft) := by
          apply (h.consistent c k begun).created
          unfold Caller.inserted
          rw [if_pos hcreates, phase]
          rfl
        refine ⟨Versioned.Cell.fresh 1 (0, .draft), Versioned.Cell.Inv.fresh _ _, ?_⟩
        exact
          { version := hnew.1.symm
            value := hnew.2.symm
            written := ((hwritten id).trans hnone).symm
            nodup := nodup_nil
            order := by
              intro d call
              constructor
              · intro hmem
                cases hmem
              · intro hd
                exact absurd (hsucceeded id d call hd) (hcalls d call)
            effects := by
              intro version d heffect
              obtain ⟨call, hd⟩ := heffect.succeeded
              exact absurd (hsucceeded id d call hd) (hcalls d call)
            copies := by
              intro d l copy hd hl hid
              by_cases hdc : d = c
              · subst hdc
                obtain rfl := some.inj (turn.caller_self.symm.trans hd)
                cases hl
              · rw [turn.caller_ne hdc] at hd
                subst hid
                exact absurd hstored (resource_ne_none (h.rows.copy_stored hd hl)) }
      · cases hrow
  · intro id hnone
    rw [htables, resource_addResource, or_eq_none_iff] at hnone
    obtain ⟨hcalls, hno⟩ := h.unstored id hnone.1
    exact ⟨fun d call hd => hcalls d call (hsucceeded id d call hd), (hwritten id).trans hno⟩

theorem ConcurrencyInv.begins (h : ConcurrencyInv s) (call) (free : s.callers c = none)
    (hrows : LibraryInv t) (htables : t.tables = s.tables) (hwrites : t.writes = s.writes)
    (hcallers : t.callers = Function.update s.callers c
      (some { call := call, phase := call.firstPhase env s.tables })) : ConcurrencyInv t := by
  have turn : Turn s t c { call := call, phase := call.firstPhase env s.tables } :=
    { running := by
        intro l hl
        cases free.symm.trans hl
      callers := hcallers }
  rcases firstPhase_cases env call s.tables with
    ⟨e, hp⟩ | ⟨p, hp⟩ | ⟨id, resource, htarget, hp, hresource⟩
  · rw [hp] at turn
    apply h.quiet hrows turn htables hwrites
    · intro wrote hphase
      cases hphase
    · exact consistent_done _ _
    · intro copy hcopy
      cases hcopy
  · rw [hp] at turn
    apply h.quiet hrows turn htables hwrites
    · intro wrote hphase
      cases hphase
    · constructor
      · intro copy hcopy
        cases hcopy
      · intro resource hinserted
        unfold Caller.inserted at hinserted
        split at hinserted <;> cases hinserted
      · intro loaded assigned hphase
        cases hphase
    · intro copy hcopy
      cases hcopy
  · obtain rfl := (stored_of_resource hresource).2
    rw [hp] at turn
    apply h.quiet hrows turn htables hwrites
    · intro wrote hphase
      cases hphase
    · constructor
      · intro copy hcopy
        cases hcopy
        exact htarget
      · intro resource hinserted
        unfold Caller.inserted at hinserted
        split at hinserted <;> cases hinserted
      · intro loaded assigned hphase
        cases hphase
    · intro copy hcopy
      cases hcopy
      exact .inr hresource

theorem ConcurrencyInv.moves (h : ConcurrencyInv s) (hrows : LibraryInv t)
    (turn : Turn s t c { k with phase := phase }) (begun : s.callers c = some k)
    (htables : t.tables = s.tables) (hwrites : t.writes = s.writes)
    (running : phase.result = none)
    (hcopy : Caller.copy { k with phase := phase } = k.copy)
    (hconsistent : Caller.Consistent { k with phase := phase }) : ConcurrencyInv t := by
  apply h.quiet hrows turn htables hwrites
  · intro wrote hphase
    have hdone : phase = .done (.ok wrote) := hphase
    rw [hdone] at running
    cases running
  · exact hconsistent
  · intro copy hheld
    rw [hcopy] at hheld
    exact .inl ⟨k, begun, hheld⟩

/-- **A guarded step keeps every row explained.** -/
theorem concurrencyInv_step {env} (h : ConcurrencyInv s) (hguard : Current s act)
    (hstep : step env s act = some t) : ConcurrencyInv t := by
  have hrows := libraryInv_step h.rows hstep
  cases step_moves hstep with
  | begins call free => exact h.begins call free hrows rfl rfl rfl
  | @refused act k begun running e issued more =>
    apply h.quiet hrows (turn_of_running begun running rfl) rfl rfl
    · intro wrote hphase
      cases hphase
    · exact consistent_done _ _
    · intro copy hcopy
      cases hcopy
  | @insertsResource c k principal data projectId id begun create phase fresh =>
    apply h.moves hrows (turn_of_running begun (by rw [phase]; rfl) rfl) begun rfl rfl rfl
    · unfold Caller.copy
      rw [phase]
    constructor
    · intro copy hcopy
      cases hcopy
    · intro resource hinserted
      unfold Caller.inserted at hinserted
      rw [create] at hinserted
      cases hinserted
      exact ⟨rfl, rfl⟩
    · intro loaded assigned hphase
      cases hphase
  | @locks c k principal id data resource begun create phase free =>
    have hcopy : Caller.copy { k with phase := .locked resource } = k.copy := by
      unfold Caller.copy
      rw [phase]
    apply h.moves hrows (turn_of_running begun (by rw [phase]; rfl) rfl) begun rfl rfl rfl hcopy
    apply (h.consistent c k begun).moves hcopy
    · unfold Caller.inserted
      rw [create]
      rfl
    · intro loaded assigned hphase
      cases hphase
  | @insertsVersion c k id resource version data begun input fresh =>
    rcases versionInput_cases input with ⟨hcreates, phase⟩ | ⟨hcreates, phase, -⟩
    · have hcopy : ∀ draft, Caller.copy { k with phase := .binding draft data.dependencies } =
          k.copy := by
        intro draft
        unfold Caller.copy
        rw [phase]
        exact if_pos hcreates
      apply h.moves hrows (turn_of_running begun (by rw [phase]; rfl) rfl) begun rfl rfl rfl
        (hcopy _)
      apply (h.consistent c k begun).moves (hcopy _)
      · unfold Caller.inserted
        rw [phase]
        rfl
      · intro loaded assigned hphase
        cases hphase
    · have hcopy : ∀ row pins, Caller.copy
          { k with phase := .binding { resource := resource, row := row } pins } = k.copy := by
        intro row pins
        unfold Caller.copy
        rw [phase, hcreates]
        rfl
      apply h.moves hrows (turn_of_running begun (by rw [phase]; rfl) rfl) begun rfl rfl rfl
        (hcopy _ _)
      apply (h.consistent c k begun).moves (hcopy _ _)
      · unfold Caller.inserted
        rw [hcreates]
        rfl
      · intro loaded assigned hphase
        cases hphase
  | @targets c k draft pin pins target begun phase found =>
    have hcopy : Caller.copy { k with phase := .targeted draft pin target pins } = k.copy := by
      unfold Caller.copy
      rw [phase]
    apply h.moves hrows (turn_of_running begun (by rw [phase]; rfl) rfl) begun rfl rfl rfl hcopy
    apply (h.consistent c k begun).moves hcopy
    · unfold Caller.inserted
      rw [phase]
      rfl
    · intro loaded assigned hphase
      cases hphase
  | @binds c k draft next pin pins target row begun phase found bound =>
    have hresource : next.resource = draft.resource := (Draft.bind_ok bound).1
    have hcopy : Caller.copy { k with phase := .binding next pins } = k.copy := by
      unfold Caller.copy
      rw [phase]
      dsimp only
      rw [hresource]
    apply h.moves hrows (turn_of_running begun (by rw [phase]; rfl) rfl) begun rfl rfl rfl hcopy
    apply (h.consistent c k begun).moves hcopy
    · unfold Caller.inserted
      rw [phase]
      dsimp only [Phase.resource]
      rw [hresource]
    · intro loaded assigned hphase
      cases hphase
  | @commitsResource c k principal data draft begun create phase =>
    apply h.creates hrows begun (by rw [create]; rfl) phase
    · exact turn_of_running begun (by rw [phase]; rfl) rfl
    · intro id
      rfl
    · rfl
  | @commitsVersion c k principal id data draft begun create phase =>
    have hcopy : k.copy = some draft.resource := by
      unfold Caller.copy
      rw [phase, create]
      rfl
    have hassigned : Writes k.call draft.resource draft.resource.bumped := by
      refine ⟨(h.consistent c k begun).target _ hcopy, ?_, rfl, ?_⟩
      · rw [create]
        intro version hexpected
        cases hexpected
      · rw [create]
        rfl
    apply h.wrote hrows begun hcopy hassigned
    · exact hguard _ (bind_eq_some_iff.mpr ⟨k, begun, hcopy⟩)
    · exact turn_of_running begun (by rw [phase]; rfl) rfl
    · intro id
      rfl
    · rfl
  | @keeps c k resource begun phase decided =>
    apply h.keeps hrows begun phase decided rfl rfl
    exact turn_of_running begun (by rw [phase]; rfl) rfl
  | @assigns c k resource assigned begun phase decided =>
    have hcopy : Caller.copy { k with phase := .assigned resource assigned } = k.copy := by
      unfold Caller.copy
      rw [phase]
    have htarget : k.call.resourceId = some resource.id := by
      apply (h.consistent c k begun).target
      unfold Caller.copy
      rw [phase]
    apply h.moves hrows (turn_of_running begun (by rw [phase]; rfl) rfl) begun rfl rfl rfl hcopy
    apply (h.consistent c k begun).moves hcopy
    · unfold Caller.inserted
      rw [phase]
      rfl
    · intro loaded assigned' hphase
      injection hphase with hloaded hassigned
      rw [← hloaded, ← hassigned]
      exact writes_of_assigned decided htarget
  | @writes c k loaded assigned begun phase free =>
    have hcopy : k.copy = some loaded := by
      unfold Caller.copy
      rw [phase]
    apply h.wrote hrows begun hcopy ((h.consistent c k begun).writes loaded assigned phase)
    · exact hguard _ (bind_eq_some_iff.mpr ⟨k, begun, hcopy⟩)
    · exact turn_of_running begun (by rw [phase]; rfl) rfl
    · intro id
      rfl
    · rfl

/-- `order` lists each call on the resource that succeeded, once. -/
structure SerialOrder (s : State) (resourceId : Uuid) (order : List (Nat × Call)) : Prop where
  nodup : order.Nodup
  calls : ∀ c call, (c, call) ∈ order ↔ s.Succeeded resourceId c call

/-- The calls of an order, one after another, on a new resource. -/
def serialOutcome (order : List (Nat × Call)) : Outcome :=
  Versioned.applied Call.effect (0, .draft) order

/-- Where every write finds the row at the version its caller loaded: one caller at most took effect
for each expected version, the versions written go up from the 1 of a new row, and the row is what
the calls that succeeded make of it in some order. -/
theorem optimistic_concurrency (env : Surroundings) {acts : List Act} {s : State}
    (h : Run (step env) Current State.initial acts s) (resourceId : Uuid) :
    (∀ version c d, s.TookEffect resourceId version c → s.TookEffect resourceId version d → c = d) ∧
    (1 :: s.versionsWritten resourceId).Pairwise (· < ·) ∧
    ∀ row, s.tables.resource resourceId = some row →
      ∃ order, SerialOrder s resourceId order ∧ serialOutcome order = row.outcome := by
  have hinv : ConcurrencyInv s :=
    h.invariant (fun hinv hguard hstep => concurrencyInv_step hinv hguard hstep)
      concurrencyInv_initial
  cases hrow : s.tables.resource resourceId with
  | none =>
    obtain ⟨hcalls, hwritten⟩ := hinv.unstored resourceId hrow
    refine ⟨?_, ?_, ?_⟩
    · intro version c d hc _
      obtain ⟨call, hsucceeded⟩ := hc.succeeded
      exact absurd hsucceeded (hcalls c call)
    · rw [hwritten]
      exact pairwise_singleton _ _
    · intro row hno
      cases hno
  | some row =>
    obtain ⟨cell, hcell, htracks⟩ := hinv.stored resourceId row hrow
    refine ⟨?_, ?_, ?_⟩
    · intro version c d hc hd
      exact hcell.writer_unique (htracks.effects version c hc) (htracks.effects version d hd)
    · rw [← htracks.written]
      exact hcell.increasing
    · intro row' hrow'
      cases hrow'
      exact ⟨cell.order, ⟨htracks.nodup, htracks.order⟩, hcell.serial.trans htracks.value⟩

/-- A new agent definition. -/
def creation : List Act :=
  [.call 0 (newAgent "base" []), .insertResource 0 ⟨"r0"⟩, .insertVersion 0 ⟨"v0"⟩, .commit 0]

def activation : Call := .activateResourceVersion admin ⟨"r0"⟩ 1 1

def deprecation (expected : Int) : Call := .deprecateResource admin ⟨"r0"⟩ expected

/-- An activation, and then a deprecation of what it has written. -/
def orderlyRun : List Act :=
  creation ++ [.call 1 activation, .check 1, .write 1, .call 2 (deprecation 2), .check 2, .write 2]

theorem optimistic_concurrency_orderly : ∃ s,
    Run (step plainStudio) Current State.initial orderlyRun s ∧ s.versionsWritten ⟨"r0"⟩ = [2, 3] ∧
      (∀ version c d, s.TookEffect ⟨"r0"⟩ version c → s.TookEffect ⟨"r0"⟩ version d → c = d) ∧
      (1 :: s.versionsWritten ⟨"r0"⟩).Pairwise (· < ·) ∧
      ∀ row, s.tables.resource ⟨"r0"⟩ = some row →
        ∃ order, SerialOrder s ⟨"r0"⟩ order ∧ serialOutcome order = row.outcome := by
  have h : (execWithin (step plainStudio) Current State.initial orderlyRun).any
      (fun s => decide (s.versionsWritten ⟨"r0"⟩ = [2, 3])) = true := by decide
  obtain ⟨s, hs, hwritten⟩ := Run.of_any h
  have hrun := hs
  exact ⟨s, hrun, of_decide_eq_true hwritten, optimistic_concurrency plainStudio hrun ⟨"r0"⟩⟩

/-- An activation and a deprecation of the same row, each checked before
the other has written. -/
def overlappingRun : List Act :=
  creation ++
    [.call 1 activation, .call 2 (deprecation 1), .check 1, .check 2, .write 1, .write 2]

/-- Both calls expected version 1, both take effect, and version 2 is
written twice. -/
theorem stale_write_takes_effect : ∃ s, Run (step plainStudio) Free State.initial overlappingRun s ∧
      s.TookEffect ⟨"r0"⟩ 1 1 ∧ s.TookEffect ⟨"r0"⟩ 1 2 ∧
      ¬ (1 :: s.versionsWritten ⟨"r0"⟩).Pairwise (· < ·) := by
  have h : (execWithin (step plainStudio) Free State.initial overlappingRun).any
      (fun s => decide (s.TookEffect ⟨"r0"⟩ 1 1 ∧ s.TookEffect ⟨"r0"⟩ 1 2 ∧
        s.versionsWritten ⟨"r0"⟩ = [2, 2])) = true := by decide
  obtain ⟨s, hs, hboth⟩ := Run.of_any h
  obtain ⟨hactivated, hdeprecated, hwritten⟩ := of_decide_eq_true hboth
  refine ⟨s, hs, hactivated, hdeprecated, ?_⟩
  rw [hwritten]
  decide

end StudioOS.AiLibrary
