import Mathlib.Algebra.Order.BigOperators.Group.List
import Mathlib.Algebra.Order.Monoid.Prod
import StudioOS.LocalUsage.Once

/-!
# Buckets — what the flush can be asked to send

A bucket only holds what the accepted lines gave it: a model, a provider and a
version that were read, a period in order, and tokens that are part of the
total.
-/

namespace StudioOS.LocalUsage

open List Emitting

variable {σ : Type}

theorem BilledTokens.nonneg_iff (tokens : BilledTokens) : tokens.Nonneg ↔ 0 ≤ tokens.amounts := by
  simp [Nonneg, amounts, Prod.le_def]

theorem BilledTokens.Nonneg.add {tokens more : BilledTokens} (h : tokens.Nonneg)
    (hmore : more.Nonneg) : (tokens.add more).Nonneg := by
  rw [nonneg_iff] at h hmore ⊢
  rw [amounts_add]
  exact add_nonneg h hmore

theorem total_nonneg {events} (h : ∀ event ∈ events, event.tokens.Nonneg) : 0 ≤ total events := by
  refine sum_nonneg fun amount hamount => ?_
  obtain ⟨event, hevent, rfl⟩ := mem_map.mp hamount
  exact (BilledTokens.nonneg_iff _).mp (h event hevent)

theorem amounts_le_bucketsTotal {buckets bucket} (h : ∀ other ∈ buckets, other.tokens.Nonneg)
    (hbucket : bucket ∈ buckets) :
    bucket.tokens.amounts ≤ bucketsTotal buckets := by
  refine single_le_sum (fun amount hamount => ?_) _ (mem_map_of_mem hbucket)
  obtain ⟨other, hother, rfl⟩ := mem_map.mp hamount
  exact (BilledTokens.nonneg_iff _).mp (h other hother)

theorem nonneg_of_accepted (reader : LineReader σ) (kept) (texts) :
    ∀ event ∈ usages (feed reader.readLine kept texts).1, event.tokens.Nonneg := by
  intro event hevent
  obtain ⟨emission, hemission, husage⟩ := mem_filterMap.mp hevent
  have hnonneg := feed_forall reader.nonneg texts emission hemission
  cases emission with
  | claim claim => cases husage
  | usage other =>
    cases husage
    exact hnonneg

theorem accepted_append (reader : LineReader σ) (decode : Bytes → String) {first}
    (hfirst : Whole first) {kept}
    (hfed : (feed reader.readLine reader.initial (lines decode first)).2 = some kept)
    (second : Bytes) : accepted reader decode (first ++ second) = accepted reader decode first ++
        usages (feed reader.readLine kept (lines decode second)).1 := by
  have hfeed := feed_append (Prod.ext rfl hfed) (lines decode second)
  rw [← lines_append decode hfirst] at hfeed
  rw [accepted, hfeed, usages_append]
  rfl

theorem total_le_append (reader : LineReader σ) (decode : Bytes → String) {first}
    (hfirst : Whole first) {kept}
    (hfed : (feed reader.readLine reader.initial (lines decode first)).2 = some kept)
    (second : Bytes) :
    total (accepted reader decode first) ≤ total (accepted reader decode (first ++ second)) := by
  rw [accepted_append reader decode hfirst hfed, total_append]
  exact le_add_of_nonneg_right (total_nonneg (nonneg_of_accepted reader kept _))

/-! ## What a bucket holds -/

/-- A version that the reader kept behind the first of these lines. -/
def VersionRead (reader : LineReader σ) (texts : List String) (version : String) : Prop :=
  ∃ before, before <+: texts ∧ ∃ kept,
    (feed reader.readLine reader.initial before).2 = some kept ∧
      reader.harnessVersion kept = some version

/-- What the lines `taken` may have put into a bucket. -/
structure BucketOk (reader : LineReader σ) (env : ScanEnv) (decode : Bytes → String)
    (nativeId : String) (taken : Bytes) (bucket : Bucket) : Prop where
  named : ∃ projectId taskId event,
    bucket.id = bucketId env reader.toCollector nativeId projectId taskId event
  period : bucket.first ≤ bucket.last
  model : ∀ model ∈ bucket.model, ∃ event ∈ accepted reader decode taken, event.model = some model
  provider : ∀ provider ∈ bucket.provider,
    ∃ event ∈ accepted reader decode taken, event.provider = some provider
  version : ∀ version ∈ bucket.harnessVersion, VersionRead reader (lines decode taken) version
  nonneg : bucket.tokens.Nonneg

section BucketOk

variable {reader : LineReader σ} {env : ScanEnv} {decode : Bytes → String} {nativeId : String}
  {taken : Bytes} {bucket : Bucket} {event : UsageEvent} {version : Option String}

theorem BucketOk.mono (h : BucketOk reader env decode nativeId taken bucket) (hwhole : Whole taken)
    {kept} (hfed : (feed reader.readLine reader.initial (lines decode taken)).2 = some kept)
    (more) : BucketOk reader env decode nativeId (taken ++ more) bucket := by
  have hmem : ∀ event ∈ accepted reader decode taken,
      event ∈ accepted reader decode (taken ++ more) := by
    intro event hevent
    rw [accepted_append reader decode hwhole hfed]
    exact mem_append_left _ hevent
  constructor
  · exact h.named
  · exact h.period
  · intro model hmodel
    obtain ⟨event, hevent, heq⟩ := h.model model hmodel
    exact ⟨event, hmem event hevent, heq⟩
  · intro provider hprovider
    obtain ⟨event, hevent, heq⟩ := h.provider provider hprovider
    exact ⟨event, hmem event hevent, heq⟩
  · intro version hversion
    obtain ⟨before, hprefix, hkept⟩ := h.version version hversion
    rw [lines_append decode hwhole]
    exact ⟨before, hprefix.trans (prefix_append _ _), hkept⟩
  · exact h.nonneg

theorem mem_or {α : Type} {left right : Option α} {a} (h : a ∈ left.or right) :
    a ∈ left ∨ a ∈ right := by
  cases left with
  | none => exact .inr h
  | some b => exact .inl h

theorem BucketOk.count (h : BucketOk reader env decode nativeId taken bucket)
    (hevent : event ∈ accepted reader decode taken)
    (hversion : ∀ text ∈ version, VersionRead reader (lines decode taken) text) :
    BucketOk reader env decode nativeId taken (bucket.count version event) := by
  constructor
  · exact h.named
  · exact (min_le_right _ _).trans (h.period.trans (le_max_right _ _))
  · intro model hmodel
    rcases mem_or hmodel with hold | hnew
    · exact h.model model hold
    · exact ⟨event, hevent, hnew⟩
  · intro provider hprovider
    rcases mem_or hprovider with hold | hnew
    · exact h.provider provider hold
    · exact ⟨event, hevent, hnew⟩
  · intro text htext
    rcases mem_or htext with hnew | hold
    · exact hversion text hnew
    · exact h.version text hold
  · exact h.nonneg.add (nonneg_of_accepted reader reader.initial _ event hevent)

theorem BucketOk.fresh (hevent : event ∈ accepted reader decode taken)
    (hversion : ∀ text ∈ version, VersionRead reader (lines decode taken) text) (projectId)
    (taskId) : BucketOk reader env decode nativeId taken
      (Bucket.fresh (bucketId env reader.toCollector nativeId projectId taskId event) projectId
        taskId version event) where
  named := ⟨projectId, taskId, event, rfl⟩
  period := le_refl event.ts
  model := fun _ hmodel => ⟨event, hevent, hmodel⟩
  provider := fun _ hprovider => ⟨event, hevent, hprovider⟩
  version := hversion
  nonneg := by simp [Bucket.fresh, BilledTokens.Nonneg, BilledTokens.none]

theorem Walk.foldl_bucketOk (roots) {emissions}
    (hevents : ∀ event ∈ usages emissions, event ∈ accepted reader decode taken)
    (hversion : ∀ text ∈ version, VersionRead reader (lines decode taken) text) (walk)
    (hwalk : ∀ bucket ∈ walk.buckets, BucketOk reader env decode nativeId taken bucket) :
    ∀ bucket ∈ (emissions.foldl (Walk.take env reader.toCollector nativeId version roots)
      walk).buckets, BucketOk reader env decode nativeId taken bucket := by
  induction emissions generalizing walk with
  | nil => exact hwalk
  | cons emission emissions ih =>
    cases emission with
    | claim claim => exact ih hevents _ hwalk
    | usage event =>
      have hevent : event ∈ accepted reader decode taken :=
        hevents event (by simp [usages, Emission.usage?])
      refine ih (fun other hother => hevents other ?_) _ ?_
      · simp only [usages, filterMap_cons, Emission.usage?]
        exact .tail _ hother
      simp only [Walk.take, Walk.assign]
      cases projectOf env roots walk.current event with
      | none => exact hwalk
      | some projectId =>
        refine Keyed.forall_mem_upsert hwalk ?_ ?_
        · intro bucket hbucket
          exact (hwalk bucket hbucket).count hevent hversion
        · exact (BucketOk.fresh hevent hversion _ _).count hevent hversion

theorem Walk.foldl_unattributed (collector roots emissions) (walk) :
    ∀ event ∈ (emissions.foldl (Walk.take env collector nativeId version roots)
      walk).unattributed, event ∈ walk.unattributed ∨ event ∈ usages emissions := by
  induction emissions generalizing walk with
  | nil => exact fun event hevent => .inl hevent
  | cons emission emissions ih =>
    intro event hevent
    rcases ih _ event hevent with hbefore | hbehind
    · cases emission with
      | claim claim => exact .inl hbefore
      | usage other =>
        simp only [Walk.take, Walk.assign] at hbefore
        cases hproject : projectOf env roots walk.current other with
        | some projectId =>
          rw [hproject] at hbefore
          exact .inl hbefore
        | none =>
          rw [hproject] at hbefore
          rcases mem_append.mp hbefore with hold | hnew
          · exact .inl hold
          · obtain rfl := mem_singleton.mp hnew
            exact .inr (by simp [usages, Emission.usage?])
    · right
      obtain ⟨found, hfound, husage⟩ := mem_filterMap.mp hbehind
      exact mem_filterMap.mpr ⟨found, .tail _ hfound, husage⟩

end BucketOk

/-- The transcript of a session names nothing that the contract of the ledger refuses, and
its tokens can be hashed and priced. -/
structure Recordable (reader : LineReader σ) (env : ScanEnv) (decode : Bytes → String)
    (session : LocalSession) (file : Bytes) : Prop where
  named : ∀ projectId taskId event,
    validSourceEventId (bucketId env reader.toCollector session.nativeId projectId taskId event)
  models : ∀ event ∈ accepted reader decode (completed file), ∀ model ∈ event.model,
    endsClean model.val
  providers : ∀ event ∈ accepted reader decode (completed file), ∀ provider ∈ event.provider,
    endsClean provider.val
  versions : ∀ version, VersionRead reader (lines decode (completed file)) version →
    ∀ tag ∈ safeTag (.str version), endsClean tag.val
  amounts : ∀ tokens : BilledTokens, tokens.Nonneg →
    tokens.amounts ≤ total (accepted reader decode (completed file)) →
      (∀ first last, (env.totalsDigest { tokens, first, last }).isSome = true) ∧
        ∀ model, ∃ cost, env.priceTable.estimate model tokens = .ok cost

section Flush

variable {reader : LineReader σ} {env : ScanEnv} {decode : Bytes → String}
  {session : LocalSession} {file : Bytes} {bucket : Bucket}

theorem flushBucket_succeeds (hrecordable : Recordable reader env decode session file)
    (h : BucketOk reader env decode session.nativeId (completed file) bucket)
    (hle : bucket.tokens.amounts ≤ total (accepted reader decode (completed file))) :
    ∃ result, flushBucket env reader.toCollector bucket = .ok result := by
  obtain ⟨hdigest, hcost⟩ := hrecordable.amounts bucket.tokens h.nonneg hle
  obtain ⟨digest, hdigest⟩ := Option.isSome_iff_exists.mp (hdigest bucket.first bucket.last)
  obtain ⟨cost, hcost⟩ := hcost bucket.model
  have hprovenance : (bucket.provenance reader.toCollector).valid := by
    refine ⟨?_, ?_, ?_⟩
    · intro tag htag
      simp only [Bucket.provenance] at htag
      cases hversion : bucket.harnessVersion with
      | none =>
        rw [hversion] at htag
        cases htag
      | some version =>
        rw [hversion] at htag
        exact hrecordable.versions version (h.version version hversion) tag htag
    · intro provider hprovider
      obtain ⟨event, hevent, heq⟩ := h.provider provider hprovider
      exact hrecordable.providers event hevent provider heq
    · intro model hmodel
      obtain ⟨event, hevent, heq⟩ := h.model model hmodel
      exact hrecordable.models event hevent model heq
  have hvalid : (bucket.write env reader.toCollector digest cost).valid := by
    obtain ⟨hinput, houtput, hread, hwrite⟩ := h.nonneg
    obtain ⟨projectId, taskId, event, hid⟩ := h.named
    refine ⟨?_, ?_, houtput, hread, h.period⟩
    · rw [show (bucket.write env reader.toCollector digest cost).sourceEventId = bucket.id from rfl,
        hid]
      exact hrecordable.named projectId taskId event
    · show 0 ≤ (addOpt bucket.tokens.input bucket.tokens.cacheWrite).getD 0
      rw [addOpt_getD]
      omega
  unfold flushBucket
  rw [show bucket.totals = { tokens := bucket.tokens, first := bucket.first, last := bucket.last }
    from rfl, hdigest]
  dsimp only
  rw [if_neg (not_not_intro hprovenance)]
  split
  · exact ⟨_, rfl⟩
  split
  · exact ⟨_, rfl⟩
  · rw [hcost]
    dsimp only
    rw [if_neg (not_not_intro hvalid)]
    exact ⟨_, rfl⟩

theorem flush_succeeds {collector buckets}
    (h : ∀ bucket ∈ buckets, ∃ result, flushBucket env collector bucket = .ok result) :
    ∃ result, flush env collector buckets = .ok result := by
  cases hmap : buckets.mapM (flushBucket env collector) with
  | error raised =>
    obtain ⟨bucket, hbucket, hraised⟩ := mapM_error hmap
    obtain ⟨result, hresult⟩ := h bucket hbucket
    rw [hresult] at hraised
    cases hraised
  | ok flushed =>
    rw [flush, hmap]
    exact ⟨_, rfl⟩

end Flush

end StudioOS.LocalUsage
