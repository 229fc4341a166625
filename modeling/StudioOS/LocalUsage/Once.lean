import StudioOS.LocalUsage.Counting

/-!
# Once — local usage is counted exactly once

Every step keeps the invariant of `Counting` for every session, as long as no
read raises behind a usage event it emitted.
-/

namespace StudioOS.LocalUsage

open List Option Runs Emitting

variable {σ : Type} [DecidableEq σ]

/-- The reads of an action that raise have emitted no usage event. -/
def NoneLost (reader : LineReader σ) (decode : Bytes → String) (w : World σ) : Action → Prop
  | .grow _ _ => True
  | .scan found reads _ _ =>
    ∀ session ∈ found.sessions,
      (readSession reader decode w reads session.location).2 = none →
        usages (readSession reader decode w reads session.location).1 = []

instance (reader : LineReader σ) (decode : Bytes → String) (w : World σ) (action : Action) :
    Decidable (NoneLost reader decode w action) :=
  match action with
  | .grow _ _ => inferInstanceAs (Decidable True)
  | .scan _ _ _ _ => inferInstanceAs (Decidable (∀ _ ∈ _, _ → _))

/-! ## One session -/

/-- What the parse of a session hands to `_apply`. -/
inductive Parsed (reader : LineReader σ) (decode : Bytes → String) (w : World σ)
    (item : Collected (ReaderState σ)) : Prop where
  | raised (state : item.readerState = w.readerState item.session.location)
      (none : usages item.emissions = [])
  | returned (next) (chunk : Bytes) (state : item.readerState = some next)
      (took : TookIn reader decode (w.files item.session.location)
        (w.readerState item.session.location) item.emissions next chunk)

section Session

variable {reader : LineReader σ} {decode : Bytes → String} {w : World σ}
  {location : String}

omit [DecidableEq σ] in
theorem Parsed.congr {w' item} (h : Parsed reader decode w item)
    (hfiles : w'.files item.session.location = w.files item.session.location)
    (hstate : w'.readerState item.session.location = w.readerState item.session.location) :
    Parsed reader decode w' item := by
  cases h with
  | raised state none => exact .raised (state.trans hstate.symm) none
  | returned next chunk state took =>
    refine .returned next chunk state ?_
    rw [hfiles, hstate]
    exact took

omit [DecidableEq σ] in
theorem parse_cases (reads) {session}
    (hle : offsetOf (w.readerState session.location) ≤ (w.files session.location).length) :
    (readSession reader decode w reads session.location).2 = none ∧
        (parse reader decode w reads session).readerState = w.readerState session.location ∨
      ∃ next chunk, (parse reader decode w reads session).readerState = some next ∧
        TookIn reader decode (w.files session.location) (w.readerState session.location)
          (parse reader decode w reads session).emissions next chunk := by
  rcases hread : readSession reader decode w reads session.location with ⟨emissions, _ | next⟩
  · left
    simp [parse, hread]
  right
  have hemissions : (parse reader decode w reads session).emissions = emissions := by
    simp [parse, hread]
  simp only [readSession] at hread
  cases hinterrupted : reads.interrupted session.location with
  | some n =>
    rw [hinterrupted] at hread
    cases hread
  | none =>
    rw [hinterrupted] at hread
    rw [hemissions]
    have hstate : (parse reader decode w reads session).readerState = some next := by
      simp [parse, readSession, hinterrupted, hread]
    by_cases hreadable : reads.readable session.location = true
    · rw [if_pos hreadable] at hread
      obtain ⟨-, htook⟩ := read_some hle hread
      exact ⟨next, _, hstate, htook⟩
    · rw [if_neg hreadable] at hread
      obtain ⟨rfl, rfl⟩ := read_none hread
      exact ⟨_, [], hstate, TookIn.nothing hle⟩

omit [DecidableEq σ] in
theorem parsed_parse {env} {reads : Circumstances} {session : LocalSession}
    (hw : Counted reader env decode w session.location)
    (hguard : (readSession reader decode w reads session.location).2 = none →
      usages (readSession reader decode w reads session.location).1 = []) :
    Parsed reader decode w (parse reader decode w reads session) := by
  rcases parse_cases reads hw.readUp.le with ⟨hraised, hstate⟩ | ⟨next, chunk, hstate, htook⟩
  · exact .raised hstate (hguard hraised)
  · exact .returned next chunk hstate htook

omit [DecidableEq σ] in
theorem buckets_eq (w : World σ) (location) :
    w.buckets location = ((w.rows location).getD Row.empty).buckets := by
  rw [World.buckets]
  cases w.rows location <;> rfl

omit [DecidableEq σ] in
theorem store_self {applied} :
    (w.store location applied).readerState location = applied.row.reader ∧
      (w.store location applied).buckets location = applied.row.buckets ∧
      (w.store location applied).rows location = some applied.row ∧
      (w.store location applied).reported location =
        w.reported location ++ applied.unattributed := by
  simp [World.store, World.readerState, World.buckets]

omit [DecidableEq σ] in
theorem store_of_ne {applied other} (h : other ≠ location) :
    (w.store location applied).rows other = w.rows other ∧
      (w.store location applied).reported other = w.reported other := by
  simp [World.store, Function.update_of_ne h]

/-- **The application of a parse** counts what the parse took in. -/
theorem Counted.store {env item roots applied}
    (hw : Counted reader env decode w item.session.location)
    (hparsed : Parsed reader decode w item)
    (happly : apply env reader.toCollector (fun state => reader.harnessVersion state.kept) roots
      (w.rows item.session.location) item = .ok applied) :
    Counted reader env decode (w.store item.session.location applied) item.session.location := by
  obtain ⟨hreader, hrow, hsum⟩ := apply_ok hw.rowOk happly
  obtain ⟨hstate, hbuckets, hrows, hreported⟩ := @store_self _ w item.session.location applied
  have hcounted : (w.store item.session.location applied).counted item.session.location =
      w.counted item.session.location + total (usages item.emissions) := by
    rw [World.counted, hbuckets, hreported, total_append, World.counted, buckets_eq,
      add_right_comm, ← hsum]
    exact add_left_comm _ _ _ |>.trans (add_comm _ _)
  have hrowOk : RowOk env
      (((w.store item.session.location applied).rows item.session.location).getD Row.empty) := by
    rw [hrows]
    exact hrow
  rw [hreader] at hstate
  cases hparsed with
  | raised state none =>
    rw [state] at hstate
    constructor
    · rw [hstate]
      exact hw.readUp
    · rw [World.offset, hstate, hcounted, none]
      exact (add_zero _).trans hw.counted
    · exact hrowOk
  | returned next chunk state took =>
    rw [state] at hstate
    obtain ⟨hreadUp, haccepted⟩ := hw.readUp.took took
    constructor
    · rw [hstate]
      exact hreadUp
    · rw [World.offset, hstate, hcounted, hw.counted]
      show _ = total (accepted reader decode ((w.files item.session.location).take next.offset))
      rw [haccepted, total_append]
      rfl
    · exact hrowOk

end Session

section Scan

variable {reader : LineReader σ}

theorem counted_applyAll {env decode w roots items} (hdistinct :
    (items.map fun item => item.session.location).Nodup)
    (hparsed : ∀ item ∈ items, Parsed reader decode w item)
    (hw : ∀ location, Counted reader env decode w location) (location : String) :
    Counted reader env decode (applyAll reader env roots items w) location := by
  induction items generalizing w with
  | nil => exact hw location
  | cons item items ih =>
    rw [map_cons, nodup_cons] at hdistinct
    have hothers : ∀ other ∈ items, Parsed reader decode w other := fun other hother =>
      hparsed other (.tail _ hother)
    rw [applyAll]
    split
    · exact ih hdistinct.2 hothers hw
    split
    · exact hw location
    rename_i applied happly
    refine ih hdistinct.2 ?_ ?_
    · intro other hother
      have hne : other.session.location ≠ item.session.location := fun heq =>
        hdistinct.1 (heq ▸ List.mem_map_of_mem hother)
      refine (hothers other hother).congr rfl ?_
      rw [World.readerState, (store_of_ne hne).1]
      rfl
    · intro place
      by_cases hplace : place = item.session.location
      · rw [hplace]
        exact (hw _).store (hparsed item mem_cons_self) happly
      · obtain ⟨hrows, hreported⟩ := @store_of_ne _ w _ applied _ hplace
        exact (hw place).congr rfl hrows hreported

theorem applyAll_frame {env w roots items location} (hdistinct :
    (items.map fun item => item.session.location).Nodup)
    (hrow : RowOk env ((w.rows location).getD Row.empty))
    (hitem : ∀ item ∈ items, item.session.location = location →
      item.readerState = w.readerState location ∧ usages item.emissions = []) :
    (applyAll reader env roots items w).readerState location = w.readerState location ∧
      (applyAll reader env roots items w).buckets location = w.buckets location := by
  induction items generalizing w with
  | nil => exact ⟨rfl, rfl⟩
  | cons item items ih =>
    rw [map_cons, nodup_cons] at hdistinct
    have hothers : ∀ other ∈ items, other.session.location = location →
        other.readerState = w.readerState location ∧ usages other.emissions = [] :=
      fun other hother => hitem other (.tail _ hother)
    rw [applyAll]
    split
    · exact ih hdistinct.2 hrow hothers
    split
    · exact ⟨rfl, rfl⟩
    rename_i applied happly
    by_cases hplace : location = item.session.location
    · subst hplace
      obtain ⟨hstate, husages⟩ := hitem item mem_cons_self rfl
      obtain ⟨hreader, hbuckets⟩ := apply_of_no_usage hrow husages happly
      obtain ⟨hstate', hbuckets', hrows', -⟩ := @store_self _ w item.session.location applied
      obtain ⟨-, hok, -⟩ := apply_ok hrow happly
      have hkept := ih (w := w.store item.session.location applied) hdistinct.2
        (by rw [hrows']; exact hok) ?_
      · rw [hkept.1, hkept.2, hstate', hbuckets', hreader, hbuckets, hstate, buckets_eq]
        exact ⟨rfl, rfl⟩
      · intro other hother heq
        exact absurd (heq ▸ List.mem_map_of_mem hother) hdistinct.1
    · obtain ⟨hrows, -⟩ := @store_of_ne _ w _ applied _ hplace
      have hstate : (w.store item.session.location applied).readerState location =
          w.readerState location := by
        rw [World.readerState, hrows]
        rfl
      have hbuckets : (w.store item.session.location applied).buckets location =
          w.buckets location := by
        rw [World.buckets, hrows]
        rfl
      rw [← hstate, ← hbuckets]
      refine ih hdistinct.2 (by rw [hrows]; exact hrow) ?_
      rw [hstate]
      exact hothers

omit [DecidableEq σ] in
theorem locations_parse {decode w} (reads) (found : Discovery) (applied) :
    ((((found.sessions.map (parse reader decode w reads)).take applied).map
      fun item => item.session.location)).Nodup := by
  rw [map_take, List.map_map]
  exact found.distinct.sublist (take_sublist _ _)

end Scan

section Runs

variable {reader : LineReader σ} {env : ScanEnv} {decode : Bytes → String}

theorem counted_step {w w' action} (hw : ∀ location, Counted reader env decode w location)
    (hguard : NoneLost reader decode w action) (h : step reader env decode w action = some w')
    (location) :
    Counted reader env decode w' location := by
  cases action with
  | grow place more =>
    cases h
    by_cases hplace : location = place
    · subst hplace
      exact (hw location).grow more
    · exact (hw location).congr (Function.update_of_ne hplace _ _) rfl rfl
  | scan found reads roots applied =>
    cases h
    refine counted_applyAll (locations_parse reads found applied) ?_ hw location
    intro item hitem
    obtain ⟨session, hsession, rfl⟩ := List.mem_map.mp (mem_of_mem_take hitem)
    exact parsed_parse (hw _) (hguard session hsession)

theorem counted_run {actions w}
    (h : Run (step reader env decode) (NoneLost reader decode) World.initial actions w)
    (location) : Counted reader env decode w location :=
  h.invariant (I := fun w => ∀ location, Counted reader env decode w location)
    (fun hw hguard hstep => counted_step hw hguard hstep) (fun _ => Counted.initial) location

end Runs

/-! ## A transcript, and reads of it that fail -/

namespace Sample

/-- A response of seven tokens. -/
def usageLine : String :=
  "\x7b\"type\":\"assistant\",\"timestamp\":1,\"cwd\":\"/w\",\"message\":" ++
    "\x7b\"usage\":\x7b\"input_tokens\":7\x7d\x7d\x7d"

/-- A response whose time lies in front of the year 1 in UTC. -/
def brokenLine : String :=
  "\x7b\"type\":\"assistant\",\"timestamp\":\"0001-01-01T00:00:00+23:59\"\x7d"

def env : Env where
  decode bytes := String.ofList (bytes.map fun byte => Char.ofNat byte.toNat)
  loads text :=
    if text = usageLine then
      .ok (.obj [("type", .str "assistant"), ("timestamp", .int 1), ("cwd", .str "/w"),
        ("message", .obj [("usage", .obj [("input_tokens", .int 7)])])])
    else if text = brokenLine then
      .ok (.obj [("type", .str "assistant"), ("timestamp", .str "0001-01-01T00:00:00+23:59")])
    else .error .valueError
  uuid _ := none
  fromisoformat text :=
    if text = "0001-01-01T00:00:00+23:59" then some { clock := 0, offset := some 86340000000 }
    else none
  millis _ := none
  fromtimestamp _ := none
  fromtimestampInt n := if n = 1 then some 62135596801000000 else none

def scanEnv : ScanEnv where
  machineId := ⟨"9d3c1a52-7b0e-4f66-8a55-2f4f0c0e6d11"⟩
  priceTable := { priceListId := "public-eur-2026-11", estimate := fun _ _ => .ok none }
  normalize := some
  sep := "/"
  scopeDigest _ := "48b60a78b6f1"
  totalsDigest totals :=
    if totals.tokens.input = some 7 then some "3af6615bf735cd35" else some "f54d73143ffe0053"
  day _ := "19700101"
  isalnum c := c.isAlphanum

def bytes (text : String) : Bytes := text.toByteArray.data.toList

def session : LocalSession := { nativeId := "s1", location := "/p/s1.jsonl" }

def found : Discovery where
  sessions := [session]
  distinct := by decide

def roots : List WorkspaceRoot := [{ path := "/w", projectId := ⟨"5c5a4b8e-1f7d-4c53-9f0e-3a6f2b1d7e90"⟩ }]

/-- An exception from elsewhere ends the read behind the first line. -/
def disturbed : Circumstances := { readable := fun _ => true, interrupted := fun _ => some 1 }

def scan (reads : Circumstances) : Action := .scan found reads roots 1

/-- The steps of Claude Code sessions. -/
def claudeStep : World ClaudeKept → Action → Option (World ClaudeKept) :=
  step (claudeCode env) scanEnv env.decode

end Sample

end StudioOS.LocalUsage
