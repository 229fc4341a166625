import Mathlib.Algebra.Group.Prod
import Mathlib.Algebra.Order.Ring.Int
import StudioOS.LocalUsage.Sessions

/-!
# Counting — every accepted usage line once

The tokens of a session are counted in four sums. `apply` moves them by the usage events that were
emitted, whatever buckets they fall into; the offset moves with them, by the lines that were read.
-/

namespace StudioOS.LocalUsage

open List Runs Emitting

variable {σ : Type}

/-- The counters of a record; an absent one adds nothing. -/
def BilledTokens.amounts (tokens : BilledTokens) : Int × Int × Int × Int :=
  (tokens.input.getD 0, tokens.output.getD 0, tokens.cacheRead.getD 0, tokens.cacheWrite.getD 0)

def total (events : List UsageEvent) : Int × Int × Int × Int :=
  (events.map fun event => event.tokens.amounts).sum

def bucketsTotal (buckets : List Bucket) : Int × Int × Int × Int :=
  (buckets.map fun bucket => bucket.tokens.amounts).sum

@[simp] theorem total_append (first second) :
    total (first ++ second) = total first + total second := by
  simp [total]

@[simp] theorem addOpt_getD (left right) :
    (addOpt left right).getD 0 = left.getD 0 + right.getD 0 := by
  cases left <;> cases right <;> simp [addOpt]

@[simp] theorem BilledTokens.amounts_add (tokens more : BilledTokens) :
    (tokens.add more).amounts = tokens.amounts + more.amounts := by
  simp [amounts, add]

variable {buckets : List Bucket}

theorem bucketsTotal_accumulate (hdistinct : (buckets.map Bucket.id).Nodup) (id) (projectId)
    (taskId version event) :
    bucketsTotal (accumulate buckets id projectId taskId version event) =
      bucketsTotal buckets + event.tokens.amounts := by
  refine Keyed.sum_upsert hdistinct (fun row => ?_) ?_
  · exact BilledTokens.amounts_add _ _
  · refine (BilledTokens.amounts_add _ _).trans ?_
    exact zero_add _

theorem distinct_accumulate (hdistinct : (buckets.map Bucket.id).Nodup) (id) (projectId)
    (taskId version event) :
    ((accumulate buckets id projectId taskId version event).map Bucket.id).Nodup :=
  Keyed.nodup_upsert (fun _ => rfl) rfl hdistinct

/-- What the walk has counted so far. -/
def Walk.total (walk : Walk) : Int × Int × Int × Int :=
  bucketsTotal walk.buckets + LocalUsage.total walk.unattributed

section Walk

variable (env : ScanEnv) (collector : Collector) (nativeId : String) (version : Option String)
  (roots : List WorkspaceRoot)

theorem Walk.take_counts (walk : Walk) (hdistinct : (walk.buckets.map Bucket.id).Nodup) (emission) :
    ((walk.take env collector nativeId version roots emission).buckets.map Bucket.id).Nodup ∧
      (walk.take env collector nativeId version roots emission).total =
        walk.total + LocalUsage.total (usages [emission]) := by
  cases emission with
  | claim claim => exact ⟨hdistinct, (add_zero _).symm⟩
  | usage event =>
    have hevent : LocalUsage.total (usages [.usage event]) = event.tokens.amounts := by
      simp [usages, Emission.usage?, LocalUsage.total]
    rw [hevent]
    simp only [take, assign]
    cases projectOf env roots walk.current event with
    | none =>
      refine ⟨hdistinct, ?_⟩
      rw [total, total, total_append, add_assoc]
      simp [LocalUsage.total]
    | some projectId =>
      refine ⟨distinct_accumulate hdistinct .., ?_⟩
      rw [total, total, bucketsTotal_accumulate hdistinct]
      exact add_right_comm _ _ _

theorem Walk.foldl_counts (emissions) (walk) (hdistinct : (walk.buckets.map Bucket.id).Nodup) :
    ((emissions.foldl (take env collector nativeId version roots) walk).buckets.map
        Bucket.id).Nodup ∧
      (emissions.foldl (take env collector nativeId version roots) walk).total =
        walk.total + LocalUsage.total (usages emissions) := by
  induction emissions generalizing walk with
  | nil => exact ⟨hdistinct, (add_zero _).symm⟩
  | cons emission emissions ih =>
    obtain ⟨hnext, htotal⟩ := walk.take_counts env collector nativeId version roots hdistinct
      emission
    obtain ⟨hlast, hrest⟩ := ih _ hnext
    have husages : LocalUsage.total (usages (emission :: emissions)) =
        LocalUsage.total (usages [emission]) + LocalUsage.total (usages emissions) := by
      rw [← total_append, ← usages_append]
      rfl
    refine ⟨hlast, ?_⟩
    rw [foldl_cons, hrest, htotal, husages, add_assoc]

theorem Walk.foldl_of_no_usage {emissions} (h : usages emissions = []) (walk) :
    (emissions.foldl (take env collector nativeId version roots) walk).buckets = walk.buckets ∧
      (emissions.foldl (take env collector nativeId version roots) walk).unattributed =
        walk.unattributed := by
  induction emissions generalizing walk with
  | nil => exact ⟨rfl, rfl⟩
  | cons emission emissions ih =>
    cases emission with
    | usage event => cases h
    | claim claim => exact ih h _

end Walk

/-- The ledger has been sent what the bucket holds. -/
def Sent (env : ScanEnv) (bucket : Bucket) : Prop :=
  ∃ digest, env.totalsDigest bucket.totals = some digest ∧ bucket.sentHash = some digest

section Flush

variable {env : ScanEnv} {collector : Collector} {bucket : Bucket}

theorem flushBucket_ok {result} (h : flushBucket env collector bucket = .ok result) : result.1 =
        { bucket with version := result.1.version, sentHash := result.1.sentHash } ∧
      Sent env result.1 := by
  unfold flushBucket at h
  cases hdigest : env.totalsDigest bucket.totals with
  | none =>
    rw [hdigest] at h
    cases h
  | some digest =>
    simp only [hdigest] at h
    split at h
    · rename_i hsent
      cases h
      exact ⟨rfl, digest, hdigest, hsent⟩
    obtain ⟨-, h⟩ := guard_ok h
    split at h
    · cases h
      exact ⟨rfl, digest, hdigest, rfl⟩
    cases hcost : env.priceTable.estimate bucket.model bucket.tokens with
    | error raised =>
      rw [hcost] at h
      cases h
    | ok cost =>
      rw [hcost] at h
      obtain ⟨-, h⟩ := guard_ok h
      cases h
      exact ⟨rfl, digest, hdigest, rfl⟩

theorem flushBucket_of_sent (h : Sent env bucket) :
    flushBucket env collector bucket = .ok (bucket, []) := by
  obtain ⟨digest, hdigest, hsent⟩ := h
  simp [flushBucket, hdigest, hsent]

theorem flush_ok {result} (h : flush env collector buckets = .ok result) :
    result.1.map Bucket.id = buckets.map Bucket.id ∧
      bucketsTotal result.1 = bucketsTotal buckets ∧ ∀ bucket ∈ result.1, Sent env bucket := by
  obtain ⟨flushed, hflushed, h⟩ := bind_ok h
  cases h
  refine ⟨?_, ?_, ?_⟩
  · rw [map_map]
    refine mapM_map (fun _ _ hb => ?_) hflushed
    exact (congrArg Bucket.id (flushBucket_ok hb).1).trans rfl
  · rw [bucketsTotal, bucketsTotal, map_map]
    refine congrArg List.sum (mapM_map (fun _ _ hb => ?_) hflushed)
    exact congrArg (fun bucket => bucket.tokens.amounts) (flushBucket_ok hb).1
  · intro bucket hbucket
    obtain ⟨result, hresult, rfl⟩ := mem_map.mp hbucket
    obtain ⟨old, -, hold⟩ := (mapM_results hflushed).2 result hresult
    exact (flushBucket_ok hold).2

theorem flush_of_sent (h : ∀ bucket ∈ buckets, Sent env bucket) :
    flush env collector buckets = .ok (buckets, []) := by
  have hflushed : buckets.mapM (flushBucket env collector) =
      .ok (buckets.map fun bucket => (bucket, [])) :=
    mapM_ok fun bucket hbucket => flushBucket_of_sent (h bucket hbucket)
  rw [flush, hflushed]
  show Except.ok (_, _) = _
  simp [flatMap_map, Function.comp_def]

end Flush

section Apply

variable [DecidableEq σ] {env : ScanEnv} {collector : Collector} {versionOf : σ → Option String}
  {roots : List WorkspaceRoot} {stored : Option (Row σ)} {item : Collected σ}
  {applied : Applied σ}

/-- What is known of a stored row. -/
structure RowOk (env : ScanEnv) (row : Row σ) : Prop where
  distinct : (row.buckets.map Bucket.id).Nodup
  sent : ∀ bucket ∈ row.buckets, Sent env bucket

omit [DecidableEq σ] in
theorem RowOk.empty : RowOk env (Row.empty : Row σ) :=
  { distinct := nodup_nil, sent := fun _ h => absurd h not_mem_nil }

omit [DecidableEq σ] in
theorem walkOf_counts {row} (hdistinct : (row.buckets.map Bucket.id).Nodup) :
    ((walkOf env collector versionOf roots row item).buckets.map Bucket.id).Nodup ∧
      (walkOf env collector versionOf roots row item).total =
        bucketsTotal row.buckets + total (usages item.emissions) := by
  obtain ⟨hnodup, htotal⟩ := Walk.foldl_counts env collector item.session.nativeId
    (item.readerState.bind versionOf) roots item.emissions
    { current := row.claim, buckets := row.buckets, unattributed := [] } hdistinct
  refine ⟨hnodup, htotal.trans ?_⟩
  simp [Walk.total, show total [] = 0 from rfl]

/-- What `_apply` stores: the state it was given, and the buckets of the walk, flushed. -/
theorem apply_cases (h : apply env collector versionOf roots stored item = .ok applied) :
    applied.row.reader = item.readerState ∧ applied.unattributed =
        (walkOf env collector versionOf roots (stored.getD Row.empty) item).unattributed ∧
      (stored = some applied.row ∧ applied.row.buckets =
            (walkOf env collector versionOf roots (stored.getD Row.empty) item).buckets ∨
        ∃ writes, flush env collector
          (walkOf env collector versionOf roots (stored.getD Row.empty) item).buckets =
            .ok (applied.row.buckets, writes)) := by
  simp only [apply] at h
  split at h
  · rename_i hsame
    cases h
    exact ⟨rfl, rfl, .inl ⟨hsame, rfl⟩⟩
  · obtain ⟨flushed, hflushed, h⟩ := bind_ok h
    cases h
    exact ⟨rfl, rfl, .inr ⟨flushed.2, hflushed⟩⟩

/-- **What an application stores**: the reader's state it was given, and the tokens of
the usage events, in the buckets or in the report. -/
theorem apply_ok (hrow : RowOk env (stored.getD Row.empty))
    (h : apply env collector versionOf roots stored item = .ok applied) :
    applied.row.reader = item.readerState ∧ RowOk env applied.row ∧
      bucketsTotal applied.row.buckets + total applied.unattributed =
        bucketsTotal (stored.getD Row.empty).buckets + total (usages item.emissions) := by
  have hwalk := @walkOf_counts _ env collector versionOf roots item _ hrow.distinct
  obtain ⟨hreader, hreported, hbuckets⟩ := apply_cases h
  rw [hreported]
  rcases hbuckets with ⟨hsame, hbuckets⟩ | ⟨writes, hflush⟩
  · refine ⟨hreader, ?_, ?_⟩
    · rw [hsame] at hrow
      exact hrow
    · rw [hbuckets]
      exact hwalk.2
  · obtain ⟨hids, hsum, hsent⟩ := flush_ok hflush
    dsimp only at hids hsum hsent
    refine ⟨hreader, { distinct := hids ▸ hwalk.1, sent := hsent }, ?_⟩
    rw [hsum]
    exact hwalk.2

theorem apply_of_no_usage (hrow : RowOk env (stored.getD Row.empty))
    (husages : usages item.emissions = [])
    (h : apply env collector versionOf roots stored item = .ok applied) :
    applied.row.reader = item.readerState ∧
      applied.row.buckets = (stored.getD Row.empty).buckets := by
  have hwalk : (walkOf env collector versionOf roots (stored.getD Row.empty) item).buckets =
      (stored.getD Row.empty).buckets :=
    (Walk.foldl_of_no_usage env collector item.session.nativeId
      (item.readerState.bind versionOf) roots husages _).1
  obtain ⟨hreader, -, hbuckets⟩ := apply_cases h
  refine ⟨hreader, ?_⟩
  rcases hbuckets with ⟨-, hbuckets⟩ | ⟨writes, hflush⟩
  · exact hbuckets.trans hwalk
  · rw [hwalk, flush_of_sent hrow.sent] at hflush
    exact (congrArg Prod.fst (Except.ok.inj hflush)).symm

end Apply

/-! ## What a read takes in -/

/-- The text of complete lines. -/
def lines (decode : Bytes → String) (data : Bytes) : List String := (textLines data).map decode

/-- The usage events a reader accepts from a transcript, read in one go. -/
def accepted (reader : LineReader σ) (decode : Bytes → String) (data : Bytes) : List UsageEvent :=
  usages (feed reader.readLine reader.initial (lines decode data)).1

def offsetOf (state : Option (ReaderState σ)) : Nat := state.elim 0 ReaderState.offset

def keptOf (reader : LineReader σ) (state : Option (ReaderState σ)) : σ :=
  state.elim reader.initial ReaderState.kept

/-- A read of a transcript took in `chunk`, whole lines, and emitted what they emit. -/
structure TookIn (reader : LineReader σ) (decode : Bytes → String) (file : Bytes)
    (state : Option (ReaderState σ)) (emissions : List Emission) (next : ReaderState σ)
    (chunk : Bytes) : Prop where
  le : next.offset ≤ file.length
  whole : Whole chunk
  short : ∀ frame ∈ frames chunk, frame.length < maxAppendBytes
  taken : file.take next.offset = file.take (offsetOf state) ++ chunk
  emitted : feed reader.readLine (keptOf reader state) (lines decode chunk) =
    (emissions, some next.kept)

theorem lines_append (decode) {first} (hfirst : Whole first) (second) :
    lines decode (first ++ second) = lines decode first ++ lines decode second := by
  rw [lines, textLines_append hfirst, map_append]
  rfl

section Read

variable {reader : LineReader σ} {decode : Bytes → String} {file : Bytes}

theorem frames_nil : frames [] = [] := congrArg Prod.fst (drain_of_not_mem not_mem_nil)

theorem TookIn.nothing {state}
    (hle : offsetOf state ≤ file.length) : TookIn reader decode file state []
      { offset := offsetOf state, kept := keptOf reader state } [] where
  le := hle
  whole := whole_nil
  short := by
    rw [frames_nil]
    simp
  taken := (append_nil _).symm
  emitted := rfl

/-- **A read that returns** took in the complete lines of its window. -/
theorem read_some {state next emissions} (hle : offsetOf state ≤ file.length)
    (h : reader.read decode (some file) state = (emissions, some next)) :
    next.offset = offsetOf state + (completed (window file (offsetOf state))).length ∧
      TookIn reader decode file state emissions next
        (completed (window file (offsetOf state))) := by
  simp only [LineReader.read] at h
  rw [show state.elim 0 ReaderState.offset = offsetOf state from rfl, readAppendedLines_some] at h
  rcases hfeed : feed reader.readLine (state.elim reader.initial ReaderState.kept)
    ((textLines (completed (window file (offsetOf state)))).map decode) with ⟨emitted, _ | kept⟩
  · rw [hfeed] at h
    cases h
  rw [hfeed] at h
  obtain ⟨rfl, hnext⟩ := Prod.mk.inj h
  cases hnext
  refine ⟨rfl, window_le hle, whole_completed _, ?_, take_window, hfeed⟩
  intro frame hframe
  rw [frames_completed] at hframe
  exact frame_lt_of_window hframe

theorem read_none {state next emissions} (h : reader.read decode none state =
    (emissions, some next)) :
    emissions = [] ∧ next = { offset := offsetOf state, kept := keptOf reader state } := by
  obtain ⟨hemissions, hnext⟩ := Prod.mk.inj h
  exact ⟨hemissions.symm, (Option.some.inj hnext).symm⟩

end Read

/-- The lines in front of the offset have been read, and nothing else. -/
structure ReadUp (reader : LineReader σ) (decode : Bytes → String) (file : Bytes)
    (state : Option (ReaderState σ)) : Prop where
  le : offsetOf state ≤ file.length
  whole : Whole (file.take (offsetOf state))
  short : ∀ frame ∈ frames (file.take (offsetOf state)), frame.length < maxAppendBytes
  fed : (feed reader.readLine reader.initial (lines decode (file.take (offsetOf state)))).2 =
    some (keptOf reader state)

section ReadUp

variable {reader : LineReader σ} {decode : Bytes → String} {file : Bytes}

theorem ReadUp.start : ReadUp reader decode file none where
  le := Nat.zero_le _
  whole := whole_nil
  short := by
    show ∀ frame ∈ frames [], _
    rw [frames_nil]
    simp
  fed := rfl

theorem ReadUp.take_grow {state} (h : ReadUp reader decode file state) (more) :
    (file ++ more).take (offsetOf state) = file.take (offsetOf state) :=
  take_append_of_le_length h.le

theorem ReadUp.grow {state} (h : ReadUp reader decode file state) (more) :
    ReadUp reader decode (file ++ more) state where
  le := by
    rw [length_append]
    exact Nat.le_add_right_of_le h.le
  whole := (h.take_grow more).symm ▸ h.whole
  short := (h.take_grow more).symm ▸ h.short
  fed := (h.take_grow more).symm ▸ h.fed

variable {chunk : Bytes}

theorem ReadUp.feed_took {state next emissions} (h : ReadUp reader decode file state)
    (took : TookIn reader decode file state emissions next chunk) :
    feed reader.readLine reader.initial (lines decode (file.take next.offset)) =
      ((feed reader.readLine reader.initial (lines decode (file.take (offsetOf state)))).1 ++
        emissions, some next.kept) := by
  have hfeed := feed_append (Prod.ext rfl h.fed) (lines decode chunk)
  rw [← lines_append decode h.whole, ← took.taken, took.emitted] at hfeed
  exact hfeed

/-- **What was taken in** is read up, and its usage events are accepted. -/
theorem ReadUp.took {state next emissions} (h : ReadUp reader decode file state)
    (took : TookIn reader decode file state emissions next chunk) :
    ReadUp reader decode file (some next) ∧ accepted reader decode (file.take next.offset) =
        accepted reader decode (file.take (offsetOf state)) ++ usages emissions := by
  have hfeed := h.feed_took took
  refine ⟨⟨took.le, ?_, ?_, ?_⟩, ?_⟩
  · show Whole (file.take next.offset)
    rw [took.taken]
    exact h.whole.append chunk took.whole
  · show ∀ frame ∈ frames (file.take next.offset), _
    rw [took.taken, frames_append h.whole]
    intro frame hframe
    rcases mem_append.mp hframe with hmem | hmem
    · exact h.short frame hmem
    · exact took.short frame hmem
  · exact congrArg Prod.snd hfeed
  · rw [accepted, hfeed, usages_append]
    rfl

end ReadUp

/-- What has been counted of a session, in its buckets or as unattributed. -/
def World.counted (w : World σ) (location : String) : Int × Int × Int × Int :=
  bucketsTotal (w.buckets location) + total (w.reported location)

/-- The lines in front of the offset were read, and their usage events were counted. -/
structure Counted (reader : LineReader σ) (env : ScanEnv) (decode : Bytes → String) (w : World σ)
    (location : String) : Prop where
  readUp : ReadUp reader decode (w.files location) (w.readerState location)
  counted : w.counted location =
    total (accepted reader decode ((w.files location).take (w.offset location)))
  rowOk : RowOk env ((w.rows location).getD Row.empty)

section Invariant

variable {reader : LineReader σ} {env : ScanEnv} {decode : Bytes → String}
  {location : String}

theorem Counted.initial : Counted reader env decode World.initial location where
  readUp := ReadUp.start
  counted := rfl
  rowOk := RowOk.empty

theorem Counted.congr {w w'} (h : Counted reader env decode w location)
    (hfiles : w'.files location = w.files location) (hrows : w'.rows location = w.rows location)
    (hreported : w'.reported location = w.reported location) :
    Counted reader env decode w' location := by
  have hstate : w'.readerState location = w.readerState location := by
    rw [World.readerState, hrows]
    rfl
  have hcounted : w'.counted location = w.counted location := by
    rw [World.counted, World.counted, World.buckets, World.buckets, hrows, hreported]
  constructor
  · rw [hstate, hfiles]
    exact h.readUp
  · rw [World.offset, hstate, hfiles, hcounted]
    exact h.counted
  · rw [hrows]
    exact h.rowOk

theorem Counted.grow {w} (h : Counted reader env decode w location) (more) :
    Counted reader env decode
      { w with files := Function.update w.files location (w.files location ++ more) } location := by
  have hfile : Function.update w.files location (w.files location ++ more) location =
      w.files location ++ more := Function.update_self ..
  constructor
  · show ReadUp reader decode (Function.update w.files location _ location) _
    rw [hfile]
    exact h.readUp.grow more
  · show w.counted location = total (accepted reader decode
      ((Function.update w.files location _ location).take (offsetOf (w.readerState location))))
    rw [hfile, h.readUp.take_grow more]
    exact h.counted
  · exact h.rowOk

end Invariant

end StudioOS.LocalUsage
