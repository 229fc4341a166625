import StudioOS.LocalUsage.Claims
import StudioOS.LocalUsage.Counting

/-!
# Attribution — whose claim a record of the store is counted under

The scanner keeps one current claim for the store, so a usage record falls
under the last claim of ANY session in front of it in the merged stream.
-/

namespace StudioOS.LocalUsage.OpenCode

open List Option Runs

/-- The latest claim of the item's own session, at or before the item. -/
def ownClaim (env : StoreEnv) (db : Database) (item : Item) : Option Claimed :=
  latest ((storeClaims env db).filter fun claim => claim.1 = item.sessionId) item.ts

/-- The latest claim of the store at or before the item names the task that the latest claim of
its own session names, or neither has claimed. -/
def Undivided (env : StoreEnv) (db : Database) (item : Item) : Prop :=
  latest (storeClaims env db) item.ts = ownClaim env db item

/-- Every usage event under the claim that `own` gives its item. -/
def walkBy (env : ScanEnv) (version : Option String) (roots : List WorkspaceRoot)
    (own : Item → Option Claimed) (items : List Item) (walk : Walk) : Walk :=
  items.foldl (fun walk item =>
    match item.emission with
    | .claim _ => walk
    | .usage event =>
      walk.assign env collector "opencode-database" version roots event (own item)) walk

section Walk

variable {env : ScanEnv} {version : Option String} {roots : List WorkspaceRoot}

/-- The claim that the loop of `_apply` holds behind these items. -/
def currentAt (env : ScanEnv) (version : Option String) (roots : List WorkspaceRoot)
    (row : Row ReaderState) (front : List Item) : Option Claimed :=
  ((front.map Item.emission).foldl (Walk.take env collector "opencode-database" version roots)
    { current := row.claim, buckets := row.buckets, unattributed := [] }).current

theorem currentAt_eq (row front) :
    currentAt env version roots row front = inForce row.claim front := by
  induction front using List.reverseRecOn with
  | nil => rfl
  | append_singleton front item ih =>
    simp only [currentAt, map_append, map_singleton, foldl_append, foldl_cons, foldl_nil] at ih ⊢
    cases hitem : item.emission with
    | claim claim =>
      rw [inForce_append_claim hitem]
      rfl
    | usage event =>
      rw [inForce_append_usage hitem, ← ih, Walk.take, Walk.assign]
      split <;> rfl

theorem walk_eq_walkBy {own} (current before items)
    (hown : ∀ front item back, items = front ++ item :: back → ∀ event,
      item.emission = .usage event → inForce current (before ++ front) = own item) (walk other)
    (hcurrent : walk.current = inForce current before) (hbuckets : walk.buckets = other.buckets)
    (hunattributed : walk.unattributed = other.unattributed) :
    let walked := (items.map Item.emission).foldl
      (Walk.take env collector "opencode-database" version roots) walk
    walked.buckets = (walkBy env version roots own items other).buckets ∧
      walked.unattributed = (walkBy env version roots own items other).unattributed ∧
      walked.current = inForce current (before ++ items) := by
  induction items generalizing before walk other with
  | nil => simpa using ⟨hbuckets, hunattributed, hcurrent⟩
  | cons item items ih =>
    have hrest : ∀ front next back, items = front ++ next :: back → ∀ event,
        next.emission = .usage event →
        inForce current (before ++ [item] ++ front) = own next := by
      intro front next back heq event hevent
      rw [append_assoc]
      exact hown (item :: front) next back (by rw [heq]; rfl) event hevent
    have happend : before ++ item :: items = before ++ [item] ++ items := by simp
    rw [happend]
    cases hitem : item.emission with
    | claim claim =>
      have h := ih (before ++ [item]) hrest { walk with current := some claim.claimed } other
        (inForce_append_claim hitem).symm hbuckets hunattributed
      simpa only [map_cons, hitem, foldl_cons, Walk.take, walkBy] using h
    | usage event =>
      have hforce : walk.current = own item := by
        rw [hcurrent]
        simpa using hown [] item items rfl event hitem
      have h := ih (before ++ [item]) hrest
        (walk.assign env collector "opencode-database" version roots event walk.current)
        (other.assign env collector "opencode-database" version roots event (own item)) ?_ ?_ ?_
      · simpa only [map_cons, hitem, foldl_cons, Walk.take, walkBy] using h
      · rw [inForce_append_usage hitem, ← hcurrent, Walk.assign]
        split <;> rfl
      · rw [hforce, Walk.assign, Walk.assign, hbuckets]
        split <;> rfl
      · rw [hforce, Walk.assign, Walk.assign, hunattributed]
        split <;> rfl

end Walk

/-! ## Scans in time order -/

/-- A read that takes the store in time order: nothing raises, no usage record is older than a
claim that was read before, and the window leaves out no claim that was not read. -/
structure InOrder (env : StoreEnv) (w : World) (floor : Int) : Prop where
  usage : ∃ found, collect env w.db (sinceMillis floor w.readerState)
    (w.readerState.elim [] ReaderState.messages) = .ok found ∧
      ∀ item ∈ found.1, ∀ claim ∈ (storeClaims env w.db).take w.read, claim.2.ts ≤ item.ts
  parts : ∀ row ∈ partRows env w.db (sinceMillis floor w.readerState),
    ∃ claim, partClaim env row = .ok claim
  window : ∃ k ≤ w.read,
    windowClaims env w.db (sinceMillis floor w.readerState) = (storeClaims env w.db).drop k ∧
      Settled (((storeClaims env w.db).take w.read).drop k)

/-- The harness adds claims behind those of the store, and scans read it in time order. -/
def Timely (env : StoreEnv) (w : World) : Action → Prop
  | .write db =>
    storeClaims env w.db <+: storeClaims env db ∧
      (storeClaims env db).Pairwise fun a b => a.2.ts < b.2.ts
  | .scan _ floor reachable _ => reachable = true → InOrder env w floor

/-- What the stored row holds of the claims that were read. -/
structure Kept (env : StoreEnv) (w : World) : Prop where
  strict : (storeClaims env w.db).Pairwise fun a b => a.2.ts < b.2.ts
  read_le : w.read ≤ (storeClaims env w.db).length
  known : ∀ sessionId, lookup (w.readerState.elim [] ReaderState.claims) sessionId =
    lastOf ((storeClaims env w.db).take w.read) sessionId
  current : w.row.bind Row.claim =
    ((storeClaims env w.db).take w.read).getLast?.map fun claim => claim.2.claimed

section Scan

variable {env : StoreEnv} {scanEnv : ScanEnv} {w : World} {floor : Int} {item : Item} {w' : World}

theorem collectRow_claim? {messages row session}
    (h : collectRow env messages row session = .ok (some item)) : item.claim? = none := by
  simp only [collectRow] at h
  obtain ⟨data, -, h⟩ := bind_ok h
  cases data with
  | none => cases h
  | some data =>
    cases htokens : assistantTokens data with
    | none =>
      simp only [htokens] at h
      cases h
    | some tokens =>
      simp only [htokens] at h
      obtain ⟨ts, -, h⟩ := bind_ok h
      cases ts with
      | none => cases h
      | some ts =>
        simp only at h
        split at h
        · cases h
        · obtain rfl := some.inj (Except.ok.inj h)
          rfl

theorem collect_claim? {since messages db found} (h : collect env db since messages = .ok found) :
    ∀ item ∈ found.1, item.claim? = none := by
  obtain ⟨results, hresults, h⟩ := bind_ok h
  cases h
  intro item hitem
  obtain ⟨result, hresult, heq⟩ := mem_filterMap.mp hitem
  obtain ⟨row, -, hrow⟩ := (mapM_results hresults).2 result hresult
  obtain rfl : result = some item := heq
  exact collectRow_claim? hrow

theorem readClaims_not_raised {claims rows}
    (h : ∀ row ∈ rows, ∃ claim, partClaim env row = .ok claim) :
    (readClaims env claims rows).raised = false := by
  induction rows generalizing claims with
  | nil => rfl
  | cons row rest ih =>
    obtain ⟨claim, hclaim⟩ := h row (by simp)
    have hrest : ∀ row ∈ rest, ∃ claim, partClaim env row = .ok claim :=
      fun other hother => h other (.tail _ hother)
    cases claim with
    | none | some =>
      simp only [readClaims, hclaim]
      exact ih hrest

theorem readScan_inOrder (horder : InOrder env w floor) :
    let taken := takeClaims (w.readerState.elim [] ReaderState.claims)
      (windowClaims env w.db (sinceMillis floor w.readerState))
    ∃ found, (∀ item ∈ found, item.claim? = none) ∧
      (∀ item ∈ found, ∀ claim ∈ (storeClaims env w.db).take w.read, claim.2.ts ≤ item.ts) ∧
      (readScan env w floor true).items = (found ++ taken.2).mergeSort Item.before ∧
      (readScan env w floor true).state.map ReaderState.claims = some taken.1 ∧
      (readScan env w floor true).raised = false := by
  obtain ⟨⟨found, version⟩, hcollect, hbehind⟩ := horder.usage
  have hraised := @readClaims_not_raised env (w.readerState.elim [] ReaderState.claims) _
    horder.parts
  obtain ⟨hclaims, hitems⟩ := readClaims_returns hraised
  refine ⟨found, collect_claim? hcollect, hbehind, ?_, ?_, ?_⟩
  · simp only [readScan, read, if_true, hcollect, hraised, Bool.false_eq_true, if_false, hitems]
    rfl
  · simp only [readScan, read, if_true, hcollect, hraised, Bool.false_eq_true, if_false,
      map_some, hclaims]
    rfl
  · simp [readScan, read, hcollect, hraised]

/-- What a read in order emits: some claims that were read before, of which the last is the last
of them all, every claim that is new, and usage behind all that was read. -/
structure Emits (env : StoreEnv) (w : World) (items : List Item) (again : List TaskClaim) :
    Prop where
  sorted : items.Pairwise fun a b => a.before b = true
  timed : Timed items
  claims : claimsOf items = again ++ ((storeClaims env w.db).drop w.read).map Prod.snd
  sublist : again.Sublist (((storeClaims env w.db).take w.read).map Prod.snd)
  last : again = [] ∨
    again.getLast? = ((storeClaims env w.db).take w.read).getLast?.map Prod.snd
  behind : ∀ item ∈ items, item.claim? = none →
    ∀ claim ∈ (storeClaims env w.db).take w.read, claim.2.ts ≤ item.ts

theorem takeClaims_usage {claims taken} (h : item ∈ (takeClaims claims taken).2) :
    item.claim? ≠ none := by
  induction taken generalizing claims with
  | nil => simp [takeClaims] at h
  | cons claim taken ih =>
    rcases mem_append.mp h with h | h
    · by_cases hknown : lookup claims claim.1 = some (fingerprint claim.2)
      · simp [takeClaim, hknown] at h
      · simp only [takeClaim, hknown, if_false, mem_singleton] at h
        simp [h, Item.claim?]
    · exact ih h

theorem Kept.emits (hkept : Kept env w) (horder : InOrder env w floor) :
    (∃ again, Emits env w (readScan env w floor true).items again) ∧
      ∃ state, (readScan env w floor true).state = some state ∧
        ∀ sessionId, lookup state.claims sessionId = lastOf (storeClaims env w.db) sessionId := by
  obtain ⟨found, hfound, hbehind, hitems, hstate, -⟩ := readScan_inOrder horder
  obtain ⟨k, hk, hwindow, hsettled⟩ := horder.window
  obtain ⟨again, hclaims, hsublist, hlast, hknown⟩ :=
    takeClaims_window hkept.strict hk hkept.read_le hkept.known hsettled
  rw [hwindow] at hitems hstate
  constructor
  · have hnone : claimsOf found = [] := filterMap_eq_nil_iff.mpr hfound
    have hunsorted : claimsOf (found ++ (takeClaims (w.readerState.elim [] ReaderState.claims)
        ((storeClaims env w.db).drop k)).2) =
          again ++ ((storeClaims env w.db).drop w.read).map Prod.snd := by
      rw [claimsOf_append, hnone, hclaims, nil_append]
    have htimed : Timed (found ++ (takeClaims (w.readerState.elim [] ReaderState.claims)
        ((storeClaims env w.db).drop k)).2) := by
      intro item hitem claim hemission
      rcases mem_append.mp hitem with hitem | hitem
      · have hnot := hfound item hitem
        simp [Item.claim?, hemission] at hnot
      · exact timed_takeClaims _ item hitem claim hemission
    have hstrict : (again ++ ((storeClaims env w.db).drop w.read).map Prod.snd).Pairwise
        fun a b => a.ts < b.ts := by
      have hall : ((storeClaims env w.db).map Prod.snd).Pairwise fun a b => a.ts < b.ts :=
        pairwise_map.mpr hkept.strict
      refine hall.sublist ?_
      conv_rhs => rw [← take_append_drop w.read (storeClaims env w.db), map_append]
      exact hsublist.append_right _
    have hperm := mergeSort_perm (found ++ (takeClaims
      (w.readerState.elim [] ReaderState.claims) ((storeClaims env w.db).drop k)).2) Item.before
    refine ⟨again, ?_⟩
    rw [hitems]
    exact
      { sorted := pairwise_mergeSort before_trans before_total _
        timed := fun item hitem => htimed item (hperm.mem_iff.mp hitem)
        claims := claimsOf_mergeSort hunsorted htimed hstrict
        sublist := hsublist
        last := hlast
        behind := by
          intro item hitem hnot
          rcases mem_append.mp (hperm.mem_iff.mp hitem) with hitem | hitem
          · exact hbehind item hitem
          · exact absurd hnot (takeClaims_usage hitem) }
  · obtain ⟨state, hsome, hclaimsOf⟩ := map_eq_some_iff.mp hstate
    exact ⟨state, hsome, by rw [hclaimsOf]; exact hknown⟩

/-- **The claim a record is counted under**, in a scan in order: the latest of the store. -/
theorem Kept.inForce_eq (hkept : Kept env w) (horder : InOrder env w floor) {front back event}
    (hitems : (readScan env w floor true).items = front ++ item :: back)
    (hitem : item.emission = .usage event) :
    inForce (w.row.bind Row.claim) front = latest (storeClaims env w.db) item.ts := by
  obtain ⟨⟨again, hemits⟩, -⟩ := hkept.emits horder
  rw [hitems] at hemits
  have hfront := claimsOf_front hemits.sorted hemits.timed hitem
  rw [hemits.claims] at hfront
  exact inForce_eq_latest hfront hemits.sublist hemits.last hkept.current
    (hemits.behind item (by simp) (by simp [Item.claim?, hitem]))

/-- The walk of a scan in order, over a row that holds the claims that were read. -/
theorem Kept.walk (hkept : Kept env w) (horder : InOrder env w floor) (location) (roots own)
    (hown : ∀ item ∈ (readScan env w floor true).items, item.claim? = none →
      own item = latest (storeClaims env w.db) item.ts) : let outcome := readScan env w floor true
    let walked := walkOf scanEnv collector ReaderState.harnessVersion roots
      (w.row.getD Row.empty) (collected location outcome)
    let direct := walkBy scanEnv (outcome.state.bind ReaderState.harnessVersion) roots own
      outcome.items { current := none, buckets := (w.row.getD Row.empty).buckets, unattributed := [] }
    walked.buckets = direct.buckets ∧ walked.unattributed = direct.unattributed ∧
      walked.current = (storeClaims env w.db).getLast?.map fun claim => claim.2.claimed := by
  have hcurrent : (w.row.getD Row.empty).claim = w.row.bind Row.claim := by
    cases w.row <;> rfl
  have hwalk := @walk_eq_walkBy scanEnv
    ((readScan env w floor true).state.bind ReaderState.harnessVersion) roots own
    (w.row.bind Row.claim) [] (readScan env w floor true).items ?_
    { current := (w.row.getD Row.empty).claim, buckets := (w.row.getD Row.empty).buckets
      unattributed := [] }
    { current := none, buckets := (w.row.getD Row.empty).buckets, unattributed := [] }
    (by simpa [inForce, claimsOf] using hcurrent) rfl rfl
  · obtain ⟨hbuckets, hunattributed, hlast⟩ := hwalk
    refine ⟨hbuckets, hunattributed, hlast.trans ?_⟩
    obtain ⟨⟨again, hemits⟩, -⟩ := hkept.emits horder
    rw [nil_append, inForce_of_claims hemits.claims hemits.last hkept.current, take_append_drop]
  · intro front item back hitems event hitem
    rw [nil_append, hkept.inForce_eq horder hitems hitem]
    exact (hown item (by rw [hitems]; simp) (by simp [Item.claim?, hitem])).symm

theorem apply_claim {roots stored item applied}
    (h : apply scanEnv collector ReaderState.harnessVersion roots stored item = .ok applied) :
    applied.row.claim = (walkOf scanEnv collector ReaderState.harnessVersion roots
      (stored.getD Row.empty) item).current := by
  simp only [apply] at h
  split at h
  · rw [← Except.ok.inj h]
  · obtain ⟨flushed, -, h⟩ := bind_ok h
    rw [← Except.ok.inj h]

theorem kept_initial : Kept env World.initial := by
  have hclaims : storeClaims env World.initial.db = [] := by
    simp [storeClaims, World.initial]
  constructor
  · rw [hclaims]
    exact List.Pairwise.nil
  · simp [World.initial]
  · intro sessionId
    rw [hclaims]
    rfl
  · rw [hclaims]
    rfl

theorem step_unreachable {location roots}
    (h : step env scanEnv w (.scan location floor false roots) = some w') : w' = w := by
  have hread :
    readScan env w floor false = { state := w.readerState, items := [], raised := false } :=
    rfl
  simp only [step, hread, collected] at h
  split at h
  · exact (some.inj h).symm
  rename_i hsome
  cases hrow : w.row with
  | none => simp [World.readerState, hrow] at hsome
  | some row =>
    have happly : apply scanEnv collector ReaderState.harnessVersion roots w.row
        { session := { nativeId := "opencode-database", location }
          readerState := w.readerState, emissions := [] } =
        .ok { row, writes := [], unattributed := [] } := by
      simp [apply, walkOf, hrow, World.readerState]
    simp only [map_nil] at h
    rw [happly] at h
    simp only [Bool.false_eq_true, false_and, if_false] at h
    rw [← some.inj h, ← hrow]

theorem kept_write (hkept : Kept env w) {db} (hfront : storeClaims env w.db <+: storeClaims env db)
    (hstrict : (storeClaims env db).Pairwise fun a b => a.2.ts < b.2.ts) :
    Kept env { w with db } := by
  have htake : (storeClaims env db).take w.read = (storeClaims env w.db).take w.read := by
    obtain ⟨rest, hrest⟩ := hfront
    rw [← hrest, take_append_of_le_length hkept.read_le]
  constructor
  · exact hstrict
  · exact hkept.read_le.trans hfront.length_le
  · intro sessionId
    show _ = lastOf ((storeClaims env db).take w.read) sessionId
    rw [htake]
    exact hkept.known sessionId
  · show _ = ((storeClaims env db).take w.read).getLast?.map _
    rw [htake]
    exact hkept.current

theorem kept_scan (hkept : Kept env w) (horder : InOrder env w floor) {location roots}
    (h : step env scanEnv w (.scan location floor true roots) = some w') : Kept env w' := by
  obtain ⟨-, state, hstate, hknown⟩ := hkept.emits horder
  obtain ⟨-, -, -, -, -, hraised⟩ := readScan_inOrder horder
  simp only [step, collected, hstate, hraised, isNone_some, Bool.false_eq_true, false_and,
    if_false, not_false_eq_true, and_self, if_true] at h
  split at h
  · rw [← some.inj h]
    exact hkept
  rename_i applied happly
  cases h
  have hclaim := apply_claim happly
  have hwalk := (@Kept.walk _ scanEnv _ _ hkept horder location roots
    (fun item => latest (storeClaims env w.db) item.ts) fun _ _ _ => rfl).2.2
  simp only [collected, hstate] at hwalk
  constructor
  · exact hkept.strict
  · exact Nat.le_refl _
  · intro sessionId
    show lookup (applied.row.reader.elim [] ReaderState.claims) sessionId = _
    rw [(apply_cases happly).1, take_length]
    exact hknown sessionId
  · show applied.row.claim = ((storeClaims env w.db).take
      (storeClaims env w.db).length).getLast?.map _
    rw [take_length, hclaim]
    exact hwalk

theorem kept_step (hkept : Kept env w) {action} (htimely : Timely env w action)
    (h : step env scanEnv w action = some w') : Kept env w' := by
  cases action with
  | write db =>
    cases h
    exact kept_write hkept htimely.1 htimely.2
  | scan location floor reachable roots =>
    cases reachable with
    | false => rwa [step_unreachable h]
    | true => exact kept_scan hkept (htimely rfl) h

theorem kept_run {actions}
    (hrun : Run (step env scanEnv) (Timely env) World.initial actions w) : Kept env w :=
  hrun.invariant (fun hkept htimely hstep => kept_step hkept htimely hstep)
    kept_initial

/-- **Usage follows the session that spent it**, in runs that read the store in time order,
exactly where the latest claim of the store names the task of the session's own latest claim. -/
theorem usage_follows_session {actions : List Action}
    (hrun : Run (step env scanEnv) (Timely env) World.initial actions w)
    (horder : InOrder env w floor) (location : String) (roots : List WorkspaceRoot) :
    let outcome := readScan env w floor true
    let version := outcome.state.bind ReaderState.harnessVersion
    let row := w.row.getD Row.empty
    (∀ front item back, outcome.items = front ++ item :: back → item.claim? = none →
      (currentAt scanEnv version roots row front = ownClaim env w.db item ↔
        Undivided env w.db item)) ∧
      ((∀ item ∈ outcome.items, item.claim? = none → Undivided env w.db item) →
        let walked := walkOf scanEnv collector ReaderState.harnessVersion roots row
          (collected location outcome)
        let direct := walkBy scanEnv version roots (ownClaim env w.db) outcome.items
          { current := none, buckets := row.buckets, unattributed := [] }
        walked.buckets = direct.buckets ∧ walked.unattributed = direct.unattributed) := by
  have hkept := kept_run hrun
  constructor
  · intro front item back hitems hnone
    have hcurrent : (w.row.getD Row.empty).claim = w.row.bind Row.claim := by
      cases w.row <;> rfl
    cases hitem : item.emission with
    | claim claim => simp [Item.claim?, hitem] at hnone
    | usage event =>
      rw [currentAt_eq, hcurrent, hkept.inForce_eq horder hitems hitem, Undivided]
  · intro hundivided
    obtain ⟨hbuckets, hunattributed, -⟩ := @Kept.walk _ scanEnv _ _ hkept horder location roots
      (ownClaim env w.db) fun item hitem hnone => (hundivided item hitem hnone).symm
    exact ⟨hbuckets, hunattributed⟩

end Scan

namespace Sample

def projectId : String := "5c5a4b8e-1f7d-4c53-9f0e-3a6f2b1d7e90"

def taskId : String := "0b7f9d1e-6f4a-4b0d-8f0a-61f0a2f0c7d4"

/-- The claim of a task, as OpenCode stores the call of a tool. -/
def claimData : String :=
  "\x7b\"type\":\"tool\",\"tool\":\"studio_claim_task\",\"state\":\x7b\"input\":\x7b" ++
    "\"project_id\":\"" ++ projectId ++ "\",\"task_id\":\"" ++ taskId ++ "\"\x7d\x7d\x7d"

/-- A response of seven tokens. -/
def usageData : String :=
  "\x7b\"role\":\"assistant\",\"time\":\x7b\"completed\":2\x7d,\"tokens\":\x7b\"input\":7\x7d\x7d"

def env : StoreEnv where
  decode _ := ""
  loads text :=
    if text = claimData then
      .ok (.obj [("type", .str "tool"), ("tool", .str "studio_claim_task"),
        ("state", .obj [("input",
          .obj [("project_id", .str projectId), ("task_id", .str taskId)])])])
    else if text = usageData then
      .ok (.obj [("role", .str "assistant"), ("time", .obj [("completed", .int 2)]),
        ("tokens", .obj [("input", .int 7)])])
    else .error .valueError
  uuid text := if text = projectId ∨ text = taskId then some ⟨text⟩ else none
  fromisoformat _ := none
  millis _ := none
  fromtimestamp _ := none
  fromtimestampInt n :=
    if n = 1 then some 62135596801000000 else if n = 2 then some 62135596802000000 else none
  isAssistant data := data = usageData
  isStudioPart data := data = claimData
  toMillis ts := (ts : Int) / 1000 - 62135596800000

def scanEnv : ScanEnv where
  machineId := ⟨"9d3c1a52-7b0e-4f66-8a55-2f4f0c0e6d11"⟩
  priceTable := { priceListId := "public-eur-2026-11", estimate := fun _ _ => .ok none }
  normalize := some
  sep := "/"
  scopeDigest _ := "48b60a78b6f1"
  totalsDigest _ := some "3af6615bf735cd35"
  day _ := "19700101"
  isalnum c := c.isAlphanum

/-- Session `a` claims the task, and the session that is given uses seven tokens. -/
def db (sessionId : String) : Database where
  sessions := [{ id := "a", directory := some "/w", version := none },
    { id := "b", directory := some "/v", version := none }]
  messages := [{ id := "m", sessionId, timeUpdated := 2, data := usageData }]
  parts := [{ sessionId := "a", timeCreated := 1, data := claimData }]

def roots : List WorkspaceRoot := [{ path := "/w", projectId := ⟨projectId⟩ }]

/-- The world once the harness has written. -/
def world (sessionId : String) : World := { World.initial with db := db sessionId }

def scan : Action := .scan "/d/opencode.db" 0 true roots

theorem storeClaims_db (sessionId) : storeClaims env (db sessionId) =
      [("a", { ts := 62135596801000000, projectId := ⟨projectId⟩, taskId := ⟨taskId⟩ })] := by
  have hclaims : storeClaims env (db "a") =
      [("a", { ts := 62135596801000000, projectId := ⟨projectId⟩, taskId := ⟨taskId⟩ })] := by
    decide +kernel
  exact hclaims

theorem timely_write : Timely env World.initial (.write (db "a")) := by
  have hempty : storeClaims env World.initial.db = [] := by
    simp [storeClaims, World.initial]
  rw [Timely, hempty, storeClaims_db]
  exact ⟨ nil_prefix, pairwise_singleton _ _⟩

theorem inOrder_world : InOrder env (world "a") 0 := by
  have hread : (storeClaims env (world "a").db).take (world "a").read = [] := rfl
  constructor
  · have hok : (collect env (world "a").db (sinceMillis 0 (world "a").readerState)
        ((world "a").readerState.elim [] ReaderState.messages)).toOption.isSome = true := by
      decide +kernel
    cases hfound : collect env (world "a").db (sinceMillis 0 (world "a").readerState)
        ((world "a").readerState.elim [] ReaderState.messages) with
    | error raised =>
      rw [hfound] at hok
      cases hok
    | ok found => exact ⟨found, rfl, by simp [hread]⟩
  · have hok : ((partRows env (world "a").db (sinceMillis 0 (world "a").readerState)).all
        fun row => (partClaim env row).toOption.isSome) = true := by
      decide +kernel
    intro row hrow
    have hrow := List.all_eq_true.mp hok row hrow
    cases hclaim : partClaim env row with
    | error raised =>
      rw [hclaim] at hrow
      cases hrow
    | ok claim => exact ⟨claim, rfl⟩
  · refine ⟨0, Nat.zero_le _, ?_, .inl ?_⟩
    · decide +kernel
    · rw [hread]
      exact nodup_nil

end Sample

open Sample in
theorem usage_follows_session_sample : let outcome := readScan env (world "a") 0 true
    let version := outcome.state.bind ReaderState.harnessVersion
    ∀ front item back, outcome.items = front ++ item :: back → item.claim? = none →
      (currentAt scanEnv version roots Row.empty front = ownClaim env (db "a") item ↔
        Undivided env (db "a") item) :=
  (usage_follows_session (.cons timely_write rfl (.nil (world "a"))) inOrder_world
    "/d/opencode.db" roots).1

open Sample in
/-- What session `b` uses is counted under the task that session `a` has claimed. -/
theorem usage_under_other_claim : ∃ w w' : World, Run (step env scanEnv) Free World.initial
        [.write { db "b" with messages := [] }, scan, .write (db "b")] w ∧
      step env scanEnv w scan = some w' ∧
      ((readScan env w 0 true).items.filterMap fun item =>
        item.usage?.map fun _ => (item.sessionId, ownClaim env w.db item)) = [("b", none)] ∧
      (w'.row.map fun row => row.buckets.map Bucket.taskId) = some [some ⟨taskId⟩] := by
  have hrun : ((execWithin (step env scanEnv) Free World.initial
      [.write { db "b" with messages := [] }, scan, .write (db "b")]).any fun w =>
        ((readScan env w 0 true).items.filterMap fun item =>
          item.usage?.map fun _ => (item.sessionId, ownClaim env w.db item)) = [("b", none)] ∧
        (step env scanEnv w scan).any fun w' =>
          (w'.row.map fun row => row.buckets.map Bucket.taskId) = some [some ⟨taskId⟩]) = true := by
    decide +kernel
  obtain ⟨w, hw, hscan⟩ := Run.of_any hrun
  obtain ⟨hitems, hany⟩ := of_decide_eq_true hscan
  obtain ⟨w', hstep, hbuckets⟩ := (Option.any_eq_true _ _).mp hany
  exact ⟨w, w', hw, hstep, hitems, of_decide_eq_true hbuckets⟩

end StudioOS.LocalUsage.OpenCode
