import Mathlib.Algebra.Order.Ring.Nat
import StudioOS.ResponseBudget.Cursor

/-!
# ResponseBudget — StartWork

The loop of `fit_start_work`. Every step lowers the weight of the payload
(`startWorkSteps_lower`), so the loop ends.
-/

namespace StudioOS.ResponseBudget

open List JsonText Trimming Sync

/-- The keys of the context the steps read. -/
def contextKeys : List String :=
  ["skills", "rules", "notes", "ai_work", "related_tasks", "decisions", "active_work",
    "roadmap_overview", "roadmap", "task", "project"]

def itemCount : Option Json → Nat
  | some (.array items) => items.length
  | _ => 0

def textCount : Option Json → Nat
  | some (.string text) => text.length
  | _ => 0

def fieldsOf : Option Json → Object
  | some (.object fields) => fields
  | _ => []

/-- What can still be taken from the field of a context key. -/
def fieldWeight (key : String) (value : Option Json) : Nat :=
  if key = "active_work" then itemCount (field (fieldsOf value) "claims")
  else if key = "task" ∨ key = "project" then textCount (field (fieldsOf value) "description")
  else if key = "roadmap_overview" ∨ key = "roadmap" then
    match value with
    | none => 0
    | some .null => 0
    | some _ => 1
  else itemCount value

def contextWeight (context : Object) : Nat :=
  (contextKeys.map fun key => fieldWeight key (field context key)).sum

def StartWork.weight (payload : StartWork) : Nat :=
  contextWeight payload.context + payload.candidates.length +
    (payload.sync.map fun block => block.items.length).getD 0 +
    textCount (field (payload.task.getD []) "description")

variable {context context' : Object} {payload out : StartWork} {key part : String}

theorem contextWeight_lt (hkey : key ∈ contextKeys)
    (hlt : fieldWeight key (field context' key) < fieldWeight key (field context key))
    (hsame : ∀ other ∈ contextKeys, other ≠ key → field context' other = field context other) :
    contextWeight context' < contextWeight context := by
  refine sum_lt_sum _ _ ?_ ⟨key, hkey, hlt⟩
  intro other hother
  by_cases h : other = key
  · subst h
    exact hlt.le
  · exact (congrArg (fieldWeight other) (hsame other hother h)).le

theorem field_countOmitted (hkey : key ∈ contextKeys) :
    field (countOmitted context part) key = field context key := by
  refine field_setField_of_ne ?_
  rintro rfl
  simp [contextKeys] at hkey

theorem field_lowerReturned (hkey : key ∈ contextKeys) :
    field (lowerReturned context part) key = field context key := by
  refine field_setField_of_ne ?_
  rintro rfl
  simp [contextKeys] at hkey

/-! ## One step -/

/-- The sections that `_evict_context` is asked for. -/
def sections : List String :=
  ["skills", "rules", "notes", "ai_work", "related_tasks", "decisions", "claims"]

/-- The context key that holds the items of a section. -/
def sectionKey (part : String) : String := if part = "claims" then "active_work" else part

theorem sectionKey_mem (hpart : part ∈ sections) : sectionKey part ∈ contextKeys := by
  revert part
  decide

theorem sectionKey_ne (hpart : part ∈ sections) :
    sectionKey part ≠ "task" ∧ sectionKey part ≠ "project" := by
  revert part
  decide

theorem fieldWeight_section (hpart : part ∈ sections) :
    fieldWeight (sectionKey part) (field context (sectionKey part)) =
      (contextItems context part).length := by
  have hlist : ∀ (o : Object) k, itemCount (field o k) = (listField o k).length := by
    intro o k
    rw [listField]
    rcases field o k with - | v
    · rfl
    · cases v <;> rfl
  have hobject : ∀ k, fieldsOf (field context k) = objectField context k := by
    intro k
    rw [objectField]
    rcases field context k with - | v
    · rfl
    · cases v <;> rfl
  by_cases hclaims : part = "claims"
  · subst hclaims
    simp [fieldWeight, sectionKey, contextItems, hlist, hobject]
  · have hplain : part ∉ ["active_work", "task", "project", "roadmap_overview", "roadmap"] := by
      revert part
      decide
    simp only [mem_cons, not_mem_nil, or_false, not_or] at hplain
    simp [fieldWeight, sectionKey, contextItems, hclaims, hplain, hlist]

variable {items : List Json} {step : StartWork → Option StartWork} {maxChars : Int}
  {block : SyncResult}

theorem field_setContextItems (hne : key ≠ sectionKey part) :
    field (setContextItems context part items) key = field context key := by
  rw [setContextItems]
  rw [sectionKey] at hne
  by_cases hclaims : part = "claims"
  · rw [if_pos hclaims] at hne ⊢
    exact field_setField_of_ne (Ne.symm hne)
  · rw [if_neg hclaims] at hne ⊢
    exact field_setField_of_ne (Ne.symm hne)

theorem contextItems_set : contextItems (setContextItems context part items) part = items := by
  by_cases hclaims : part = "claims"
  · simp [contextItems, setContextItems, hclaims, listField, objectField]
  · simp [contextItems, setContextItems, hclaims, listField]

theorem evictContext_lower (hpart : part ∈ sections) (h : evictContext part payload = some out) :
    out.weight < payload.weight := by
  rw [evictContext] at h
  by_cases hitems : (contextItems payload.context part).isEmpty = true
  · simp [hitems] at h
  simp only [hitems, Bool.false_eq_true, if_false, Option.some.injEq] at h
  subst h
  have hpos : 0 < (contextItems payload.context part).length := by
    rw [length_pos_iff]
    simpa using hitems
  have hlt : contextWeight (countOmitted (lowerReturned (setContextItems payload.context part
      (contextItems payload.context part).dropLast) part) part) <
      contextWeight payload.context := by
    refine contextWeight_lt (sectionKey_mem hpart) ?_ ?_
    · rw [field_countOmitted (sectionKey_mem hpart), field_lowerReturned (sectionKey_mem hpart),
        fieldWeight_section hpart, fieldWeight_section hpart, contextItems_set,
        length_dropLast]
      omega
    · intro other hother hne
      rw [field_countOmitted hother, field_lowerReturned hother, field_setContextItems hne]
  simp only [StartWork.weight, StartWork.context, Option.getD_some] at hlt ⊢
  omega

theorem dropContextKey_lower (hkey : key = "roadmap_overview" ∨ key = "roadmap")
    (h : dropContextKey key payload = some out) : out.weight < payload.weight := by
  have hmem : key ∈ contextKeys := by
    rcases hkey with rfl | rfl <;> decide
  rw [dropContextKey] at h
  by_cases hnone : isNone payload.context key = true
  · simp [hnone] at h
  simp only [hnone, Bool.false_eq_true, if_false, Option.some.injEq] at h
  subst h
  have hreturned : ∀ (c : Object) v other, other ∈ contextKeys →
      field (setField c "returned" v) other = field c other := by
    intro c v other hother
    refine field_setField_of_ne ?_
    rintro rfl
    simp [contextKeys] at hother
  have hweight : ∀ v, fieldWeight key v = match v with
      | none => 0
      | some .null => 0
      | some _ => 1 := by
    intro v
    rcases hkey with rfl | rfl <;> simp [fieldWeight]
  have hlt : ∀ v, contextWeight (countOmitted (setField (dropField payload.context key)
      "returned" v) key) < contextWeight payload.context := by
    intro v
    refine contextWeight_lt hmem ?_ ?_
    · rw [field_countOmitted hmem, hreturned _ _ _ hmem, field_dropField, hweight, hweight]
      rw [isNone] at hnone
      rcases hfield : field payload.context key with - | w
      · simp [hfield] at hnone
      · cases w <;> simp_all
    · intro other hother hne
      rw [field_countOmitted hother, hreturned _ _ _ hother, field_dropField_of_ne (Ne.symm hne)]
  have := hlt (.object (dropField (objectField (dropField payload.context key) "returned") key))
  simp only [StartWork.weight, StartWork.context, Option.getD_some] at this ⊢
  omega

theorem evictCandidates_lower (h : evictCandidates payload = some out) :
    out.weight < payload.weight := by
  rw [evictCandidates] at h
  by_cases hnil : payload.candidates.isEmpty = true
  · simp [hnil] at h
  simp only [hnil, Bool.false_eq_true, if_false, Option.some.injEq] at h
  subst h
  have hpos : 0 < payload.candidates.length := by
    rw [length_pos_iff]
    simpa using hnil
  simp only [StartWork.weight, StartWork.context, length_dropLast]
  omega

theorem trimStartWorkSync_lower (h : trimStartWorkSync payload = some out) :
    out.weight < payload.weight := by
  rw [trimStartWorkSync] at h
  rcases hsync : payload.sync with - | block
  · simp [hsync] at h
  rw [hsync] at h
  obtain ⟨trimmed, htrim, rfl⟩ := Option.map_eq_some_iff.mp h
  obtain ⟨item, hitem, rfl⟩ := Option.map_eq_some_iff.mp htrim
  have hpos : 0 < block.items.length := by
    rw [length_pos_iff]
    rintro hnil
    simp [hnil] at hitem
  simp only [StartWork.weight, StartWork.context, hsync, Option.map_some, Option.getD_some,
    SyncPayload.evictLast, length_dropLast]
  omega

theorem shorten_lower {holder shortened flag} (hflag : flag ≠ some "description")
    (h : shorten holder "description" flag = some shortened) :
    textCount (field shortened "description") < textCount (field holder "description") := by
  rw [shorten] at h
  rcases hfield : field holder "description" with - | v
  · simp [hfield] at h
  cases v with
  | string text =>
    simp only [hfield] at h
    by_cases hzero : text.length = 0
    · simp [hzero] at h
    rw [if_neg hzero] at h
    have hcut : textCount (field (if text.length ≤ textFloor
        then dropField holder "description"
        else setField holder "description"
          (.string (String.ofList (text.toList.take (text.length / 2))))) "description") <
        text.length := by
      by_cases hshort : text.length ≤ textFloor
      · rw [if_pos hshort, field_dropField]
        exact Nat.pos_of_ne_zero hzero
      · rw [if_neg hshort, field_setField]
        simp only [textCount, String.length_ofList, length_take]
        omega
    cases flag with
    | none =>
      cases h
      exact hcut
    | some name =>
      cases h
      rw [field_setField_of_ne (by simpa using hflag)]
      exact hcut
  | _ => simp [hfield] at h

theorem shortenContext_lower (hpart : part = "task" ∨ part = "project")
    (h : shortenContext part payload = some out) : out.weight < payload.weight := by
  have hmem : part ∈ contextKeys := by
    rcases hpart with rfl | rfl <;> decide
  obtain ⟨holder, hshort, rfl⟩ := Option.map_eq_some_iff.mp h
  have hweight : ∀ c : Object, fieldWeight part (field c part) =
      textCount (field (objectField c part) "description") := by
    intro c
    have hne : part ≠ "active_work" := by
      rcases hpart with rfl | rfl <;> decide
    unfold fieldWeight
    rw [if_neg hne, if_pos hpart, objectField]
    rcases field c part with - | v
    · rfl
    · cases v <;> rfl
  have hlt : contextWeight (setField payload.context part (.object holder)) <
      contextWeight payload.context := by
    refine contextWeight_lt hmem ?_ ?_
    · rw [hweight, hweight]
      refine lt_of_eq_of_lt ?_ (shorten_lower (by decide) hshort)
      simp [objectField]
    · intro other _ hne
      exact field_setField_of_ne (Ne.symm hne)
  simp only [StartWork.weight, StartWork.context, Option.getD_some] at hlt ⊢
  omega

theorem shortenTask_lower (h : shortenTask payload = some out) : out.weight < payload.weight := by
  obtain ⟨holder, hshort, rfl⟩ := Option.map_eq_some_iff.mp h
  have := shorten_lower (by decide) hshort
  simp only [StartWork.weight, StartWork.context, Option.getD_some]
  omega

theorem mem_stepsBeforeSync : step ∈ stepsBeforeSync ↔
      (∃ part ∈ sections, step = evictContext part) ∨ step = evictCandidates ∨
        ∃ key, (key = "roadmap_overview" ∨ key = "roadmap") ∧ step = dropContextKey key := by
  simp only [stepsBeforeSync, sections, mem_cons, not_mem_nil, or_false,
    exists_eq_left, or_and_right, exists_or]
  tauto

theorem mem_stepsAfterSync : step ∈ stepsAfterSync ↔
      (∃ part, (part = "task" ∨ part = "project") ∧ step = shortenContext part) ∨
        step = shortenTask := by
  simp only [stepsAfterSync, mem_cons, not_mem_nil, or_false, or_and_right, exists_or,
    exists_eq_left, or_assoc]

theorem startWorkSteps_lower :
    ∀ step ∈ startWorkSteps, ∀ a b, step a = some b → b.weight < a.weight := by
  intro step hstep a b h
  rw [startWorkSteps, mem_append, mem_append, mem_stepsBeforeSync, mem_singleton,
    mem_stepsAfterSync] at hstep
  rcases hstep with (⟨part, hpart, rfl⟩ | rfl | ⟨key, hkey, rfl⟩) | rfl | ⟨part, hpart, rfl⟩ | rfl
  · exact evictContext_lower hpart h
  · exact evictCandidates_lower h
  · exact dropContextKey_lower hkey h
  · exact trimStartWorkSync_lower h
  · exact shortenContext_lower hpart h
  · exact shortenTask_lower h

theorem contextItems_congr
    (h : field context' (sectionKey part) = field context (sectionKey part)) :
    contextItems context' part = contextItems context part := by
  by_cases hclaims : part = "claims"
  · simp only [sectionKey, if_pos hclaims] at h
    simp [contextItems, hclaims, objectField, h]
  · simp only [sectionKey, if_neg hclaims] at h
    simp [contextItems, hclaims, listField, h]

/-- Whether a step before the sync block applies depends on the context
and the candidates. -/
theorem stepBefore_congr (hstep : step ∈ stepsBeforeSync)
    (hcandidates : out.candidates = payload.candidates)
    (hcontext : ∀ key, key ≠ "task" → key ≠ "project" →
      field out.context key = field payload.context key) (h : step payload = none) :
    step out = none := by
  rcases mem_stepsBeforeSync.mp hstep with ⟨part, hpart, rfl⟩ | rfl | ⟨key, hkey, rfl⟩
  · have hne := sectionKey_ne hpart
    have hitems := contextItems_congr (hcontext (sectionKey part) hne.1 hne.2)
    by_cases hnil : (contextItems payload.context part).isEmpty = true
    · simp [evictContext, hitems, hnil]
    · simp [evictContext, hnil] at h
  · by_cases hnil : payload.candidates.isEmpty = true
    · simp [evictCandidates, hcandidates, hnil]
    · simp [evictCandidates, hnil] at h
  · have hne : key ≠ "task" ∧ key ≠ "project" := by
      rcases hkey with rfl | rfl <;> decide
    have hsame : isNone out.context key = isNone payload.context key := by
      rw [isNone, isNone, hcontext key hne.1 hne.2]
    by_cases hnone : isNone payload.context key = true
    · simp [dropContextKey, hsame, hnone]
    · simp [dropContextKey, hnone] at h

theorem laterStep_keeps
    (hstep : step ∈ [trimStartWorkSync] ++ stepsAfterSync) (h : step payload = some out) :
    out.candidates = payload.candidates ∧ ∀ key, key ≠ "task" → key ≠ "project" →
        field out.context key = field payload.context key := by
  rw [mem_append, mem_singleton, mem_stepsAfterSync] at hstep
  rcases hstep with rfl | ⟨part, hpart, rfl⟩ | rfl
  · rw [trimStartWorkSync] at h
    rcases hsync : payload.sync with - | block
    · simp [hsync] at h
    · rw [hsync] at h
      obtain ⟨_, -, rfl⟩ := Option.map_eq_some_iff.mp h
      exact ⟨rfl, fun _ _ _ => rfl⟩
  · obtain ⟨_, -, rfl⟩ := Option.map_eq_some_iff.mp h
    refine ⟨rfl, ?_⟩
    intro key htask hproject
    refine field_setField_of_ne ?_
    rintro rfl
    rcases hpart with rfl | rfl
    · exact htask rfl
    · exact hproject rfl
  · obtain ⟨_, -, rfl⟩ := Option.map_eq_some_iff.mp h
    exact ⟨rfl, fun _ _ _ => rfl⟩

theorem before_spent : Spent stepsBeforeSync ([trimStartWorkSync] ++ stepsAfterSync) := by
  intro step hstep a b hfirst h
  obtain ⟨hcandidates, hcontext⟩ := laterStep_keeps hstep h
  rw [first_none] at hfirst ⊢
  intro front hfront
  exact stepBefore_congr hfront hcandidates hcontext (hfirst front hfront)

theorem stepBefore_sync (hstep : step ∈ stepsBeforeSync)
    (h : step payload = some out) : out.sync = payload.sync := by
  rcases mem_stepsBeforeSync.mp hstep with ⟨part, -, rfl⟩ | rfl | ⟨key, -, rfl⟩
  · rw [evictContext] at h
    by_cases hnil : (contextItems payload.context part).isEmpty = true
    · simp [hnil] at h
    · simp only [hnil, Bool.false_eq_true, if_false, Option.some.injEq] at h
      subst h
      rfl
  · rw [evictCandidates] at h
    by_cases hnil : payload.candidates.isEmpty = true
    · simp [hnil] at h
    · simp only [hnil, Bool.false_eq_true, if_false, Option.some.injEq] at h
      subst h
      rfl
  · rw [dropContextKey] at h
    by_cases hnone : isNone payload.context key = true
    · simp [hnone] at h
    · simp only [hnone, Bool.false_eq_true, if_false, Option.some.injEq] at h
      subst h
      rfl

theorem stepAfter_sync (hstep : step ∈ stepsAfterSync)
    (h : step payload = some out) : out.sync = payload.sync := by
  rcases mem_stepsAfterSync.mp hstep with ⟨part, -, rfl⟩ | rfl
  · obtain ⟨_, -, rfl⟩ := Option.map_eq_some_iff.mp h
    rfl
  · obtain ⟨_, -, rfl⟩ := Option.map_eq_some_iff.mp h
    rfl

theorem trimStartWorkSync_none :
    trimStartWorkSync payload = none ↔ ∀ block, payload.sync = some block → block.items = [] := by
  rw [trimStartWorkSync]
  cases payload.sync with
  | none => simp
  | some block => simp [trimSyncBlock_none]

theorem sync_spent : Spent [trimStartWorkSync] stepsAfterSync := by
  intro step hstep a b hfirst h
  rw [first_none, forall_mem_singleton, trimStartWorkSync_none] at hfirst ⊢
  rwa [stepAfter_sync hstep h]

/-- The payload with a sync block and the counters it left. -/
def StartWork.holding (payload : StartWork) (s : SyncPayload) : StartWork :=
  { payload with sync := some s.block, trimmed := s.trimmed }

/-- How many sync items the budget of a start-work answer takes: none
while the sections before it make room, then as in `evictions`. -/
def startWorkEvictions (maxChars : Int) (payload : StartWork) (block : SyncResult) : Nat :=
  match fit (StartWork.within maxChars) stepsBeforeSync (payload.weight + 1) payload with
  | some (false, spent) =>
    evictions (fun s => (spent.holding s).within maxChars) ⟨block, spent.trimmed⟩
  | _ => 0

theorem fit_holding {spent : StartWork} {s : SyncPayload} {fits fuel}
    (hfuel : s.block.items.length < fuel) :
    let out := spent.holding (s.evict (evictions (fun s => fits (spent.holding s)) s))
    fit fits [trimStartWorkSync] fuel (spent.holding s) = some (fits out, out) := by
  refine @fit_popping _ fits fuel trimStartWorkSync (fun k => spent.holding (s.evict k))
    s.block.items.length 0 (Nat.zero_le _) ?_ ?_ (fun _ hj => absurd hj (Nat.not_lt_zero _))
    (by omega)
  · intro k hk
    have hstep := evict_step hk
    simp [trimStartWorkSync, StartWork.holding, hstep]
  · have hlast := @evict_last s
    simp [trimStartWorkSync, StartWork.holding, hlast]

theorem startWorkEvictions_le : startWorkEvictions maxChars payload block ≤ block.items.length := by
  rw [startWorkEvictions]
  split
  · exact evictions_le
  · exact Nat.zero_le _

/-- **What `fit_start_work` returns**: an answer without a sync block, or
one that fits and holds the block after its evictions. -/
theorem fitStartWork_cases (hsync : payload.sync = some block) :
    ∃ out, (∀ fuel > payload.weight, fitStartWork fuel payload maxChars = some out) ∧
      (out.sync = none ∨ renderedChars out.fields ≤ maxChars ∧ ∃ s : SyncPayload, s.block = block ∧
            out.sync = some (s.evict (startWorkEvictions maxChars payload block)).block) := by
  obtain ⟨ok, last, hlast⟩ := @fit_ends _ (StartWork.within maxChars) startWorkSteps payload
    (payload.weight + 1) StartWork.weight startWorkSteps_lower (Nat.lt_succ_self _)
  refine ⟨if ok then last else minimalStartWork last, ?_, ?_⟩
  · intro fuel hfuel
    rw [fitStartWork, fit_mono hlast hfuel]
    rfl
  cases ok with
  | false => exact .inl rfl
  | true =>
    have hfits : renderedChars last.fields ≤ maxChars := by
      simpa [StartWork.within] using fit_stuck hlast
    refine .inr ⟨hfits, ?_⟩
    -- the sections before the block
    obtain ⟨ok₁, spent, hspent⟩ := @fit_ends _ (StartWork.within maxChars) stepsBeforeSync payload
      (payload.weight + 1) StartWork.weight
      (fun step hstep => startWorkSteps_lower step (mem_append_left _ hstep))
      (Nat.lt_succ_self _)
    have hspentSync : spent.sync = some block :=
      @fit_keeps _ _ _ _ _ _ _ (fun p : StartWork => p.sync = some block)
        (fun step hstep a b ha h => (stepBefore_sync hstep h).trans ha) hspent hsync
    cases ok₁ with
    | true =>
      have hsame : fit (StartWork.within maxChars) startWorkSteps _ payload =
          some (true, spent) := fit_append_of_fits hspent
      rw [hlast] at hsame
      cases hsame
      refine ⟨⟨block, none⟩, rfl, ?_⟩
      rw [startWorkEvictions, hspent]
      exact hspentSync
    | false =>
      -- the block
      refine ⟨⟨block, spent.trimmed⟩, rfl, ?_⟩
      rw [startWorkEvictions, hspent]
      have hholding : spent.holding ⟨block, spent.trimmed⟩ = spent := by
        rw [StartWork.holding, ← hspentSync]
      have hblock := @fit_holding spent ⟨block, spent.trimmed⟩ (StartWork.within maxChars) _
        (Nat.lt_succ_self _)
      rw [hholding] at hblock
      simp only at hblock ⊢
      generalize (SyncPayload.mk block spent.trimmed).evict _ = held at hblock ⊢
      cases hok : StartWork.within maxChars (spent.holding held) with
      | true =>
        rw [hok] at hblock
        have hsame := fit_append before_spent hspent
          (@fit_append_of_fits _ _ _ stepsAfterSync _ _ _ hblock)
        rw [← startWorkSteps] at hsame
        have := (fit_mono hlast (Nat.le_add_right _ _)).symm.trans hsame
        cases this
        rfl
      | false =>
        -- the texts
        rw [hok] at hblock
        obtain ⟨ok₂, after, hafter⟩ := @fit_ends _ (StartWork.within maxChars) stepsAfterSync
          (spent.holding held) _ StartWork.weight
          (fun step hstep => startWorkSteps_lower step
            (mem_append_right _ (mem_append_right _ hstep)))
          (Nat.lt_succ_self _)
        have hsame := fit_append before_spent hspent (fit_append sync_spent hblock hafter)
        rw [← startWorkSteps] at hsame
        have := (fit_mono hlast (Nat.le_add_right _ _)).symm.trans hsame
        cases this
        exact @fit_keeps _ _ _ _ _ _ _ (fun p : StartWork => p.sync = some held.block)
          (fun step hstep a b ha h => (stepAfter_sync hstep h).trans ha) hafter rfl

end StudioOS.ResponseBudget
