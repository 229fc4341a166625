import StudioOS.LocalUsage.Buckets

/-!
# Progress — a transcript is read to its end

A scan takes in the complete lines of one window. It stays where it is when
the next line does not fit into the window, when a line of the window raises,
and when the flush raises.
-/

namespace StudioOS.LocalUsage

open List Runs Emitting

variable {σ : Type} [DecidableEq σ]

/-- One scan of one session that nothing disturbs. -/
def scanAlone (reader : LineReader σ) (env : ScanEnv) (decode : Bytes → String)
    (session : LocalSession) (roots : List WorkspaceRoot) (w : World σ) : World σ :=
  applyAll reader env roots [parse reader decode w .undisturbed session] w

/-- So many scans, one after the other; `roots` are the workspaces at each of them. -/
def rescans (reader : LineReader σ) (env : ScanEnv) (decode : Bytes → String)
    (session : LocalSession) (roots : Nat → List WorkspaceRoot) (w : World σ) : Nat → World σ
  | 0 => w
  | n + 1 =>
    rescans reader env decode session (fun i => roots (i + 1))
      (scanAlone reader env decode session (roots 0) w) n

/-- Transcripts grow, and scans read this session; no read is ended from elsewhere. -/
def Alone (session : LocalSession) (_ : World σ) : Action → Prop
  | .grow _ _ => True
  | .scan found reads _ _ =>
    found.sessions = [session] ∧ reads.interrupted session.location = none

/-- Every complete line fits into a window, with its newline. -/
def LinesFit (file : Bytes) : Prop := ∀ frame ∈ frames file, frame.length < maxAppendBytes

def NoneRaises (reader : LineReader σ) (decode : Bytes → String) (file : Bytes) : Prop :=
  ∀ line ∈ lines decode (completed file), ¬ reader.raises line

section Lines

variable {reader : LineReader σ} {decode : Bytes → String} {file : Bytes}
  {state : Option (ReaderState σ)}

omit [DecidableEq σ] in
theorem NoneRaises.of_append {more} (h : NoneRaises reader decode (file ++ more)) :
    NoneRaises reader decode file := by
  intro line hline
  have hsplit : file ++ more = completed file ++ (pending file ++ more) := by
    rw [← append_assoc, completed_append_pending]
  refine h line ?_
  rw [hsplit, completed_append (whole_completed file), lines_append decode (whole_completed file)]
  exact mem_append_left _ hline

omit [DecidableEq σ] in
theorem lines_window_subset (hwhole : Whole (file.take (offsetOf state))) {line}
    (hline : line ∈ lines decode (completed (window file (offsetOf state)))) :
    line ∈ lines decode (completed file) := by
  obtain ⟨rest, hrest⟩ : completed (window file (offsetOf state)) <+: file.drop (offsetOf state) :=
    (completed_front _).trans ( take_prefix _ _)
  rw [← take_append_drop (offsetOf state) file, completed_append hwhole,
    lines_append decode hwhole, ← hrest, completed_append (whole_completed _),
    lines_append decode (whole_completed _)]
  exact mem_append_right _ (mem_append_left _ hline)

omit [DecidableEq σ] in
theorem read_returns (h : NoneRaises reader decode file)
    (hwhole : Whole (file.take (offsetOf state))) :
    ∃ emissions next, reader.read decode (some file) state = (emissions, some next) := by
  simp only [LineReader.read]
  rw [show state.elim 0 ReaderState.offset = offsetOf state from rfl, readAppendedLines_some]
  rcases hfeed : feed reader.readLine (state.elim reader.initial ReaderState.kept)
    ((textLines (completed (window file (offsetOf state)))).map decode) with ⟨emitted, _ | kept⟩
  · obtain ⟨line, hline, hraises⟩ := (feed_eq_none_iff reader.raises_iff _).mp
      (congrArg Prod.snd hfeed)
    exact absurd hraises (h line (lines_window_subset hwhole hline))
  · exact ⟨_, _, rfl⟩

omit [DecidableEq σ] in
theorem ReadUp.fits (h : ReadUp reader decode file state)
    (hend : offsetOf state = (completed file).length) :
    LinesFit file ∧ NoneRaises reader decode file := by
  have htake : file.take (offsetOf state) = completed file := by
    rw [hend]
    exact (prefix_iff_eq_take.mp (completed_front file)).symm
  constructor
  · intro frame hframe
    refine h.short frame ?_
    rw [htake, frames_completed]
    exact hframe
  intro line hline hraises
  have hfed := h.fed
  rw [htake] at hfed
  have hnone := (@feed_eq_none_iff _ _ _ _ reader.initial _ reader.raises_iff
    (lines decode (completed file))).mpr ⟨line, hline, hraises⟩
  rw [hnone] at hfed
  cases hfed

omit [DecidableEq σ] in
theorem ReadUp.offset_le (h : ReadUp reader decode file state) :
    offsetOf state ≤ (completed file).length := by
  have hsplit := completed_append h.whole (file.drop (offsetOf state))
  rw [take_append_drop] at hsplit
  have hlength := congrArg List.length hsplit
  rw [length_append, length_take, Nat.min_eq_left h.le] at hlength
  omega

end Lines

/-! ## The session under its own scans -/

/-- What has been counted of a session, and that its buckets can be flushed. -/
structure Sound (reader : LineReader σ) (env : ScanEnv) (decode : Bytes → String)
    (session : LocalSession) (w : World σ) : Prop where
  counted : Counted reader env decode w session.location
  buckets : ∀ bucket ∈ w.buckets session.location,
    BucketOk reader env decode session.nativeId
      ((w.files session.location).take (w.offset session.location)) bucket
  reported : ∀ event ∈ w.reported session.location, event.tokens.Nonneg

section Scan

variable {reader : LineReader σ} {env : ScanEnv} {decode : Bytes → String}
  {session : LocalSession} {w : World σ} {roots : List WorkspaceRoot} {reads : Circumstances}

theorem applyAll_one (item) : applyAll reader env roots [item] w = w ∨
      ∃ applied, apply env reader.toCollector (fun state => reader.harnessVersion state.kept) roots
          (w.rows item.session.location) item = .ok applied ∧
        applyAll reader env roots [item] w = w.store item.session.location applied := by
  simp only [applyAll]
  split
  · exact .inl rfl
  · split
    · exact .inl rfl
    · rename_i applied happly
      exact .inr ⟨applied, happly, rfl⟩

omit [DecidableEq σ] in
theorem files_store (w : World σ) (location) (applied) :
    (w.store location applied).files = w.files := rfl

theorem readUp_applyAll
    (h : ReadUp reader decode (w.files session.location) (w.readerState session.location)) :
    ReadUp reader decode
      ((applyAll reader env roots [parse reader decode w reads session] w).files session.location)
      ((applyAll reader env roots [parse reader decode w reads session] w).readerState
        session.location) := by
  rcases applyAll_one (parse reader decode w reads session) with hsame | ⟨applied, happly, hstore⟩
  · rw [hsame]
    exact h
  have hstate := (@store_self _ w session.location applied).1
  rw [(apply_cases happly).1] at hstate
  rw [hstore, files_store]
  show ReadUp reader decode _ ((w.store session.location applied).readerState session.location)
  rw [hstate]
  rcases parse_cases reads h.le with ⟨-, hkept⟩ | ⟨next, chunk, hnext, htook⟩
  · rw [hkept]
    exact h
  · rw [hnext]
    exact (h.took htook).1

omit [DecidableEq σ] in
theorem BucketOk.of_flushed {nativeId taken bucket result}
    (h : BucketOk reader env decode nativeId taken bucket) (hresult : result =
      { bucket with version := result.version, sentHash := result.sentHash }) :
    BucketOk reader env decode nativeId taken result := by
  rw [hresult]
  exact ⟨h.named, h.period, h.model, h.provider, h.version, h.nonneg⟩

theorem bucketOk_apply {item : Collected (ReaderState σ)} {applied : Applied (ReaderState σ)}
    {collector : Collector} {versionOf : ReaderState σ → Option String}
    {stored : Option (Row (ReaderState σ))} {nativeId : String} {taken : Bytes}
    (h : apply env collector versionOf roots stored item = .ok applied)
    (hwalk : ∀ bucket ∈ (walkOf env collector versionOf roots (stored.getD Row.empty)
      item).buckets, BucketOk reader env decode nativeId taken bucket) :
    ∀ bucket ∈ applied.row.buckets, BucketOk reader env decode nativeId taken bucket := by
  obtain ⟨-, -, hbuckets⟩ := apply_cases h
  rcases hbuckets with ⟨-, hbuckets⟩ | ⟨writes, hflush⟩
  · rw [hbuckets]
    exact hwalk
  obtain ⟨flushed, hflushed, hflush⟩ := bind_ok hflush
  intro bucket hbucket
  have hfirst : flushed.map Prod.fst = applied.row.buckets :=
    congrArg Prod.fst (Except.ok.inj hflush)
  rw [← hfirst] at hbucket
  obtain ⟨result, hresult, rfl⟩ := mem_map.mp hbucket
  obtain ⟨old, hold, hok⟩ := (mapM_results hflushed).2 result hresult
  exact (hwalk old hold).of_flushed (flushBucket_ok hok).1

omit [DecidableEq σ] in
theorem parse_returns (hreadUp : ReadUp reader decode (w.files session.location)
      (w.readerState session.location))
    (hnone : NoneRaises reader decode (w.files session.location))
    (hreads : reads.interrupted session.location = none) :
    ∃ next chunk, (parse reader decode w reads session).readerState = some next ∧
      TookIn reader decode (w.files session.location) (w.readerState session.location)
        (parse reader decode w reads session).emissions next chunk := by
  rcases parse_cases reads hreadUp.le with ⟨hraised, -⟩ | hreturned
  · exfalso
    simp only [readSession, hreads] at hraised
    by_cases hreadable : reads.readable session.location = true
    · obtain ⟨emissions, next, hread⟩ := read_returns hnone hreadUp.whole
      rw [if_pos hreadable, hread] at hraised
      cases hraised
    · rw [if_neg hreadable] at hraised
      cases hraised
  · exact hreturned

section Took

variable {next : ReaderState σ} {chunk : Bytes} (hw : Sound reader env decode session w)
  (hstate : (parse reader decode w reads session).readerState = some next)
  (htook : TookIn reader decode (w.files session.location) (w.readerState session.location)
    (parse reader decode w reads session).emissions next chunk)

include hw hstate htook

omit [DecidableEq σ] in
theorem walkOf_bucketOk :
    ∀ bucket ∈ (walkOf env reader.toCollector (fun state => reader.harnessVersion state.kept) roots
        ((w.rows session.location).getD Row.empty) (parse reader decode w reads session)).buckets,
      BucketOk reader env decode session.nativeId
        ((w.files session.location).take next.offset) bucket := by
  obtain ⟨hreadUp, haccepted⟩ := hw.counted.readUp.took htook
  refine Walk.foldl_bucketOk roots ?_ ?_ _ ?_
  · intro event hevent
    rw [haccepted]
    exact mem_append_right _ hevent
  · intro version hversion
    rw [hstate] at hversion
    exact ⟨_, prefix_refl _, next.kept, hreadUp.fed, hversion⟩
  · intro bucket hbucket
    rw [htook.taken]
    rw [← buckets_eq] at hbucket
    exact (hw.buckets bucket hbucket).mono hw.counted.readUp.whole hw.counted.readUp.fed chunk

theorem Sound.store {applied}
    (happly : apply env reader.toCollector (fun state => reader.harnessVersion state.kept) roots
      (w.rows session.location) (parse reader decode w reads session) = .ok applied) :
    Sound reader env decode session (w.store session.location applied) where
  counted :=
    have hparsed : Parsed reader decode w (parse reader decode w reads session) :=
      .returned next chunk hstate htook
    hw.counted.store hparsed happly
  buckets := by
    obtain ⟨hnext, hbuckets, -⟩ := @store_self _ w session.location applied
    rw [hbuckets, World.offset, hnext, (apply_cases happly).1, hstate]
    exact bucketOk_apply happly (walkOf_bucketOk hw hstate htook)
  reported := by
    obtain ⟨-, -, -, hreported⟩ := @store_self _ w session.location applied
    rw [hreported, (apply_cases happly).2.1]
    intro event hevent
    rcases mem_append.mp hevent with hold | hnew
    · exact hw.reported event hold
    rcases Walk.foldl_unattributed _ _ _ _ event hnew with hnil | husage
    · cases hnil
    · refine nonneg_of_accepted reader (keptOf reader (w.readerState session.location))
        (lines decode chunk) event ?_
      rw [htook.emitted]
      exact husage

/-- The application of a read goes through when the ledger takes what the transcript has. -/
theorem apply_succeeds
    (hrecordable : Recordable reader env decode session (w.files session.location)) :
    ∃ applied, apply env reader.toCollector (fun state => reader.harnessVersion state.kept) roots
      (w.rows session.location) (parse reader decode w reads session) = .ok applied := by
  obtain ⟨hreadUp, haccepted⟩ := hw.counted.readUp.took htook
  have hok := @walkOf_bucketOk _ reader env decode session w roots reads _ _ hw hstate htook
  obtain ⟨-, hwalk⟩ := @walkOf_counts _ env reader.toCollector
    (fun state : ReaderState σ => reader.harnessVersion state.kept) roots
    (parse reader decode w reads session) _ hw.counted.rowOk.distinct
  -- what the transcript completes begins with what has been read
  have hfile : completed (w.files session.location) =
      (w.files session.location).take next.offset ++
        completed ((w.files session.location).drop next.offset) := by
    have hsplit := completed_append hreadUp.whole ((w.files session.location).drop next.offset)
    rw [show offsetOf (some next) = next.offset from rfl, take_append_drop] at hsplit
    exact hsplit
  have htotal : total (accepted reader decode ((w.files session.location).take next.offset)) ≤
      total (accepted reader decode (completed (w.files session.location))) := by
    rw [hfile]
    exact total_le_append reader decode hreadUp.whole hreadUp.fed _
  have hunattributed : 0 ≤ total (walkOf env reader.toCollector
      (fun state => reader.harnessVersion state.kept) roots
      ((w.rows session.location).getD Row.empty)
      (parse reader decode w reads session)).unattributed := by
    refine total_nonneg fun event hevent => ?_
    rcases Walk.foldl_unattributed _ _ _ _ event hevent with hnil | husage
    · cases hnil
    · refine nonneg_of_accepted reader (keptOf reader (w.readerState session.location))
        (lines decode chunk) event ?_
      rw [htook.emitted]
      exact husage
  have hbound : bucketsTotal (walkOf env reader.toCollector
      (fun state => reader.harnessVersion state.kept) roots
      ((w.rows session.location).getD Row.empty)
      (parse reader decode w reads session)).buckets ≤
      total (accepted reader decode ((w.files session.location).take next.offset)) := by
    have hcounted := hw.counted.counted
    rw [World.counted, buckets_eq] at hcounted
    rw [haccepted, total_append, show offsetOf (w.readerState session.location) =
      w.offset session.location from rfl, ← hcounted]
    calc _ ≤ _ + _ := le_add_of_nonneg_right hunattributed
      _ = bucketsTotal ((w.rows session.location).getD Row.empty).buckets +
          total (usages (parse reader decode w reads session).emissions) := hwalk
      _ ≤ _ := add_le_add_left (le_add_of_nonneg_right (total_nonneg hw.reported)) _
  obtain ⟨flushed, hflush⟩ := @flush_succeeds env reader.toCollector (walkOf env
      reader.toCollector (fun state => reader.harnessVersion state.kept) roots
      ((w.rows session.location).getD Row.empty)
      (parse reader decode w reads session)).buckets <| by
    intro bucket hbucket
    refine flushBucket_succeeds hrecordable ?_ ?_
    · rw [hfile]
      exact (hok bucket hbucket).mono hreadUp.whole hreadUp.fed _
    · exact ((amounts_le_bucketsTotal (fun other hother => (hok other hother).nonneg)
        hbucket).trans hbound).trans htotal
  simp only [apply, hflush]
  split <;> exact ⟨_, rfl⟩

end Took

end Scan

/-! ## Runs -/

section Runs

variable {reader : LineReader σ} {env : ScanEnv} {decode : Bytes → String}
  {session : LocalSession} {w : World σ}

omit [DecidableEq σ] in
theorem Sound.grow (h : Sound reader env decode session w) {files more}
    (hfiles : files session.location = w.files session.location ++ more) :
    Sound reader env decode session { w with files } := by
  have htake : (files session.location).take (w.offset session.location) =
      (w.files session.location).take (w.offset session.location) := by
    rw [hfiles]
    exact h.counted.readUp.take_grow more
  refine ⟨⟨?_, ?_, h.counted.rowOk⟩, ?_, h.reported⟩
  · show ReadUp reader decode (files session.location) _
    rw [hfiles]
    exact h.counted.readUp.grow more
  · show w.counted session.location = total (accepted reader decode
      ((files session.location).take (w.offset session.location)))
    rw [htake]
    exact h.counted.counted
  · intro bucket hbucket
    show BucketOk reader env decode session.nativeId
      ((files session.location).take (w.offset session.location)) bucket
    rw [htake]
    exact h.buckets bucket hbucket

/-- What is known of a session in every run of its own scans. -/
def Known (reader : LineReader σ) (env : ScanEnv) (decode : Bytes → String)
    (session : LocalSession) (w : World σ) : Prop :=
  ReadUp reader decode (w.files session.location) (w.readerState session.location) ∧
    (NoneRaises reader decode (w.files session.location) → Sound reader env decode session w)

theorem files_applyAll (roots items) : (applyAll reader env roots items w).files = w.files := by
  induction items generalizing w with
  | nil => rfl
  | cons item items ih =>
    rw [applyAll]
    split
    · exact ih
    · split
      · rfl
      · exact ih

theorem Known.scan (h : Known reader env decode session w) (roots) {reads}
    (hreads : reads.interrupted session.location = none) :
    Known reader env decode session
      (applyAll reader env roots [parse reader decode w reads session] w) := by
  refine ⟨readUp_applyAll h.1, fun hnone => ?_⟩
  rw [files_applyAll] at hnone
  have hw := h.2 hnone
  obtain ⟨next, chunk, hstate, htook⟩ := parse_returns h.1 hnone hreads
  rcases applyAll_one (parse reader decode w reads session) with hsame | ⟨applied, happly, hstore⟩
  · rw [hsame]
    exact hw
  · rw [hstore]
    exact hw.store hstate htook happly

theorem known_step {w' action} (hw : Known reader env decode session w)
    (hguard : Alone session w action) (h : step reader env decode w action = some w') :
    Known reader env decode session w' := by
  cases action with
  | grow place more =>
    cases h
    -- a transcript that another session writes grows by nothing here
    obtain ⟨added, hadded⟩ : ∃ added, Function.update w.files place (w.files place ++ more)
        session.location = w.files session.location ++ added := by
      by_cases hplace : session.location = place
      · exact ⟨more, by rw [hplace, Function.update_self]⟩
      · exact ⟨[], by rw [Function.update_of_ne hplace, append_nil]⟩
    refine ⟨?_, fun hnone => ?_⟩
    · show ReadUp reader decode (Function.update w.files place _ session.location) _
      rw [hadded]
      exact hw.1.grow added
    · have hgrown : NoneRaises reader decode (w.files session.location ++ added) := by
        rw [← hadded]
        exact hnone
      exact (hw.2 hgrown.of_append).grow hadded
  | scan found reads roots applied =>
    cases h
    obtain ⟨hfound, hreads⟩ := hguard
    rw [hfound, map_singleton]
    cases applied with
    | zero => exact hw
    | succ n =>
      rw [take_of_length_le (by simp)]
      exact hw.scan roots hreads

theorem known_run {actions}
    (h : Run (step reader env decode) (Alone session) World.initial actions w) :
    Known reader env decode session w :=
  h.invariant (I := Known reader env decode session) (fun hw hguard hstep =>
    known_step hw hguard hstep)
    ⟨ReadUp.start, fun _ => ⟨Counted.initial, fun _ h => absurd h not_mem_nil,
      fun _ h => absurd h not_mem_nil⟩⟩

/-- **A scan moves on** while the transcript has complete lines behind the offset. -/
theorem scanAlone_advances (hw : Sound reader env decode session w)
    (hfit : LinesFit (w.files session.location))
    (hnone : NoneRaises reader decode (w.files session.location))
    (hrecordable : Recordable reader env decode session (w.files session.location))
    (hlt : w.offset session.location < (completed (w.files session.location)).length)
    (roots : List WorkspaceRoot) : w.offset session.location <
      (scanAlone reader env decode session roots w).offset session.location := by
  obtain ⟨emissions, next, hread⟩ := read_returns hnone hw.counted.readUp.whole
  obtain ⟨hnext, htook⟩ := read_some hw.counted.readUp.le hread
  have hparse : parse reader decode w .undisturbed session =
      { session, readerState := some next, emissions } := by
    simp [parse, readSession, Circumstances.undisturbed, hread]
  have hitem : (parse reader decode w .undisturbed session).emissions = emissions := by
    rw [hparse]
  have hstate : (parse reader decode w .undisturbed session).readerState = some next := by
    rw [hparse]
  have hsession : (parse reader decode w .undisturbed session).session = session := by
    rw [hparse]
  rw [← hitem] at htook
  obtain ⟨applied, happly⟩ := @apply_succeeds _ _ reader env decode session w roots _ next _ hw
    hstate htook hrecordable
  have hstore : scanAlone reader env decode session roots w =
      w.store session.location applied := by
    simp only [scanAlone, applyAll]
    rw [if_neg (by simp [hstate])]
    simp [hsession, happly]
  have hoffset : (scanAlone reader env decode session roots w).offset session.location =
      next.offset := by
    rw [hstore, World.offset, (@store_self _ w session.location applied).1,
      (apply_cases happly).1, hstate]
    rfl
  have hne := completed_window_ne_nil hw.counted.readUp.whole hlt hfit
  have hpos := length_pos_iff.mpr hne
  rw [hoffset, hnext]
  exact Nat.lt_add_of_pos_right hpos

theorem files_rescans (roots) (n) :
    (rescans reader env decode session roots w n).files = w.files := by
  induction n generalizing w roots with
  | zero => rfl
  | succ n ih => exact (ih _).trans (files_applyAll _ _)

theorem Known.rescans (h : Known reader env decode session w) (roots)
    (n) : Known reader env decode session
      (LocalUsage.rescans reader env decode session roots w n) := by
  induction n generalizing w roots with
  | zero => exact h
  | succ n ih => exact ih (h.scan (roots 0) rfl) _

theorem rescans_end (hw : Known reader env decode session w)
    (hfit : LinesFit (w.files session.location))
    (hnone : NoneRaises reader decode (w.files session.location))
    (hrecordable : Recordable reader env decode session (w.files session.location)) (roots) :
    ∃ n, (rescans reader env decode session roots w n).offset session.location =
      (completed (w.files session.location)).length := by
  -- on what is left in front of the last newline
  induction hleft : (completed (w.files session.location)).length - w.offset session.location
    using Nat.strongRecOn generalizing w roots with
  | ind left ih =>
    have hle : w.offset session.location ≤ (completed (w.files session.location)).length :=
      hw.1.offset_le
    by_cases hlt : w.offset session.location < (completed (w.files session.location)).length
    · have hmoves := scanAlone_advances (hw.2 hnone) hfit hnone hrecordable hlt (roots 0)
      have hfiles : (scanAlone reader env decode session (roots 0) w).files = w.files :=
        files_applyAll _ _
      have hknown : Known reader env decode session
          (scanAlone reader env decode session (roots 0) w) := hw.scan (roots 0) rfl
      have hnext := hknown.1.offset_le
      rw [hfiles] at hnext
      obtain ⟨n, hn⟩ := ih _ (by rw [hfiles]; exact hleft ▸ Nat.sub_lt_sub_left hlt hmoves)
        hknown (hfiles.symm ▸ hfit) (hfiles.symm ▸ hnone) (hfiles.symm ▸ hrecordable)
        (fun i => roots (i + 1)) rfl
      rw [hfiles] at hn
      exact ⟨n + 1, hn⟩
    · exact ⟨0, Nat.le_antisymm hle (Nat.not_lt.mp hlt)⟩

end Runs

namespace Sample

/-- The transcript of `usageLine`. -/
def usageFile : Bytes := bytes usageLine ++ [newline]

theorem completed_usageFile : completed usageFile = usageFile :=
  (whole_append_newline _).completed_eq

theorem lines_usageFile : lines env.decode usageFile = [usageLine] := by
  decide +kernel

theorem recordable : Recordable (claudeCode env) scanEnv env.decode session usageFile where
  named := by
    intro projectId taskId event
    show validSourceEventId "session.studio-local-claude-code.s1.48b60a78b6f1.19700101"
    decide +kernel
  models := by
    rw [completed_usageFile]
    decide +kernel
  providers := by
    rw [completed_usageFile]
    decide +kernel
  versions := by
    intro version hread
    rw [completed_usageFile, lines_usageFile] at hread
    obtain ⟨before, hprefix, kept, hfed, hversion⟩ := hread
    -- nothing, or the one line, has been read: no version either way
    have hnone : kept.harnessVersion = none := by
      rcases prefix_cons_iff.mp hprefix with rfl | ⟨rest, rfl, hrest⟩
      · rw [← Option.some.inj hfed]
        rfl
      · rw [prefix_nil.mp hrest] at hfed
        have hkept : (feed (claudeCode env).readLine (claudeCode env).initial [usageLine]).2 =
            some { recent := [], harnessVersion := none } := by decide +kernel
        rw [← Option.some.inj (hkept.symm.trans hfed)]
    rw [show (claudeCode env).harnessVersion kept = kept.harnessVersion.map Subtype.val from rfl,
      hnone] at hversion
    cases hversion
  amounts := by
    intro tokens _ _
    refine ⟨fun first last => ?_, fun model => ⟨none, rfl⟩⟩
    simp only [scanEnv]
    split <;> rfl

/-- A transcript whose first line raises. -/
def stuckFile : Bytes := bytes (brokenLine ++ "\n" ++ usageLine) ++ [newline]

/-- The world in which the session has written so much. -/
def written (file : Bytes) : World ClaudeKept :=
  let start : World ClaudeKept := World.initial
  { start with
    files := Function.update start.files session.location
      (start.files session.location ++ file) }

theorem written_run (file) :
    Run claudeStep (Alone session) World.initial [.grow session.location file] (written file) :=
  .cons trivial rfl (.nil _)

theorem files_written (file) : (written file).files session.location = file := by
  simp [written, World.initial]

end Sample

end StudioOS.LocalUsage
