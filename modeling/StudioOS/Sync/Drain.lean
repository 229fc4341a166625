import Mathlib.Data.Set.Finite.Lemmas
import StudioOS.Sync.Calls

/-!
# Sync — Drain

A client that calls `sync` again and again, each time acknowledging the
`next_cursor` of the answer before (`Drain`).
-/

namespace StudioOS.Sync

open List Authz

variable {py : Pydantic} {principal : Principal} {q : SyncQuery}

/-! ## Repeated calls -/

/-- A client that repeats the call `q`, acknowledging each `next_cursor`
it received. Between two calls the live claims may change. -/
structure Drain (py : Pydantic) (principal : Principal) (q : SyncQuery) where
  store : Nat → Store
  after : Nat → Store
  now : Nat → Timestamp
  ack : Nat → Option Int
  result : Nat → SyncResult
  ack_zero : ack 0 = q.ack
  ack_succ : ∀ k, ack (k + 1) = some ((result k).nextCursor : Int)
  answered : ∀ k, sync py (store k) (now k) principal { q with ack := ack k } =
    .ok (result k, after k)
  between : ∀ k, ∃ claims, store (k + 1) = { after k with claims := claims }
  task : Task
  task_eq : (store 0).taskOf q = some task

namespace Drain

/-- The effective cursor of the call `k`. -/
def cursor (d : Drain py principal q) (k : Nat) : Nat :=
  (d.store k).effective { q with ack := d.ack k }

def log (d : Drain py principal q) : List Event := (d.store 0).events d.task.projectId

def scope (d : Drain py principal q) : SyncScope :=
  (d.store 0).scope principal d.task q.sessionId

/-- The scan of the call `k`. -/
def scanned (d : Drain py principal q) (k : Nat) : List Event :=
  Paging.page Event.seq (some (d.cursor k)) syncScanCap d.log

variable (d : Drain py principal q) {k : Nat} {e : Event}

theorem after_eq (k) : d.after k = (d.store k).acknowledge
    ((d.store k).sessionOf q.sessionId) (d.cursor k) (d.now k) := by
  obtain ⟨-, -, -, -, hafter, -⟩ := sync_ok (d.answered k)
  exact hafter

theorem kept_after (k) : Kept q.sessionId (d.store k) (d.after k) := by
  rw [d.after_eq k]
  exact kept_acknowledge (d.store k) q.sessionId (d.cursor k) (d.now k)

theorem kept_store (k) : Kept q.sessionId (d.store 0) (d.store k) := by
  induction k with
  | zero => exact .refl _ _
  | succ k ih =>
    obtain ⟨claims, hclaims⟩ := d.between k
    rw [hclaims]
    exact (ih.trans (d.kept_after k)).trans (.claims _ _ claims)

theorem taskOf_eq (k) : (d.store k).taskOf q = some d.task := by
  have hown := (d.kept_store k).own
  rw [← d.task_eq]
  unfold Store.taskOf
  rw [(d.kept_store k).tasks]
  cases h₀ : (d.store 0).sessionOf q.sessionId with
  | none =>
    rw [h₀, Option.map_none, Option.map_eq_none_iff] at hown
    rw [hown]
  | some row =>
    rw [h₀] at hown
    obtain ⟨row', hrow', htask⟩ := Option.map_eq_some_iff.mp hown
    rw [hrow']
    simp [htask]

/-- **Every call answers from one log and one scope.** -/
theorem result_eq (k : Nat) : ∃ live files, d.result k =
    answer py d.scope (d.cursor k) (d.scanned k) live files q.limit.toNat q.maxChars.toNat := by
  obtain ⟨task, files, htask, -, hafter, hresult⟩ := sync_ok (d.answered k)
  have hsame : task = d.task := by
    have : (d.store k).taskOf q = some task := htask
    rw [d.taskOf_eq k] at this
    exact (Option.some.inj this).symm
  subst hsame
  have hkept : Kept q.sessionId (d.store 0) (d.after k) := (d.kept_store k).trans (d.kept_after k)
  refine ⟨(d.after k).claims d.task.projectId, files, ?_⟩
  rw [hresult, (hkept.sameScope d.task).answer_eq]
  simp only [scanned, listEventsAfter, log, hkept.events]
  rfl

theorem isScan (hlog : (d.log.map Event.seq).Nodup) (k) : Scan (d.cursor k) (d.scanned k) :=
  scan_page hlog

theorem cursor_succ (hlog : (d.log.map Event.seq).Nodup) (k) :
    d.cursor (k + 1) = (d.result k).nextCursor := by
  obtain ⟨live, files, hresult⟩ := d.result_eq k
  have hmono : d.cursor k ≤ (d.result k).nextCursor := by
    rw [hresult]
    exact effective_le_nextCursor (d.isScan hlog k)
  obtain ⟨claims, hclaims⟩ := d.between k
  have hstored : (((d.store (k + 1)).sessionOf q.sessionId).bind
      WorkSession.syncCursorSeq).getD 0 ≤ d.cursor k := by
    have := stored_acknowledge_le (d.store k) { q with ack := d.ack k } (d.now k)
    rw [hclaims]
    change (((d.after k).sessionOf q.sessionId).bind WorkSession.syncCursorSeq).getD 0 ≤ _
    rw [d.after_eq k]
    exact this
  unfold cursor Store.effective
  rw [d.ack_succ k]
  simp only [effectiveCursor, Int.toNat_natCast]
  omega

theorem cursor_mono (hlog : (d.log.map Event.seq).Nodup) (k) : d.cursor k ≤ d.cursor (k + 1) := by
  obtain ⟨live, files, hresult⟩ := d.result_eq k
  rw [d.cursor_succ hlog, hresult]
  exact effective_le_nextCursor (d.isScan hlog k)

theorem cursor_succ_le (hlog : (d.log.map Event.seq).Nodup) (k) :
    d.cursor (k + 1) = d.cursor k ∨ ∃ e ∈ d.scanned k, d.cursor (k + 1) ≤ e.seq := by
  obtain ⟨live, files, hresult⟩ := d.result_eq k
  rw [d.cursor_succ hlog, hresult]
  exact nextCursor_within (d.isScan hlog k)

/-- Delivered by call `k`, by itself or through a later event of its work
entry. -/
def DeliveredAt (d : Drain py principal q) (k : Nat) (e : Event) : Prop :=
  Delivered py d.scope (d.result k) e ∨
    ∃ e' ∈ d.log, e.seq < e'.seq ∧ SameWork e e' ∧ Delivered py d.scope (d.result k) e'

theorem mem_log (he : e ∈ d.scanned k) : e ∈ d.log := mem_log_of_mem_scan he

theorem delivered_of_passed (hlog : (d.log.map Event.seq).Nodup)
    (he : e ∈ d.log) (hm : d.scope.Matches py e) (hlow : d.cursor k < e.seq)
    (hhigh : e.seq ≤ d.cursor (k + 1)) : d.DeliveredAt k e := by
  obtain ⟨live, files, hresult⟩ := d.result_eq k
  rw [d.cursor_succ hlog, hresult] at hhigh
  unfold DeliveredAt
  rw [hresult]
  exact covered_of_passed hlog he hm hlow hhigh

theorem delivered_of_complete (hlog : (d.log.map Event.seq).Nodup)
    (hleft : leftFloors py d.scope (d.scanned k) q.limit.toNat q.maxChars.toNat = [])
    (hshort : (d.scanned k).length ≠ syncScanCap) (he : e ∈ d.log)
    (hm : d.scope.Matches py e) (hlow : d.cursor k < e.seq) : d.DeliveredAt k e := by
  obtain ⟨live, files, hresult⟩ := d.result_eq k
  unfold DeliveredAt
  rw [hresult]
  exact covered_of_complete hlog hleft hshort he hm hlow

/-- The call `k` has room for the oldest matched event of its scan. -/
def HasRoomAt (d : Drain py principal q) (k : Nat) : Prop :=
  HasRoom py d.scope (d.cursor k) (d.scanned k) q.limit.toNat q.maxChars.toNat

theorem nothingPending (hpending : NothingPending d.scope d.log) (k) :
    NothingPending d.scope (d.scanned k) :=
  fun e he => hpending e (d.mem_log he)

theorem advances_iff (hlog : (d.log.map Event.seq).Nodup)
    (hpending : NothingPending d.scope d.log) (hcounts : (d.result k).CountsEvent) :
    d.cursor k < d.cursor (k + 1) ↔ d.HasRoomAt k := by
  obtain ⟨live, files, hresult⟩ := d.result_eq k
  rw [hresult] at hcounts
  rw [d.cursor_succ hlog, hresult]
  exact advances_iff_hasRoom (d.isScan hlog k) (d.nothingPending hpending k) hcounts

theorem complete_of_stable (hlog : (d.log.map Event.seq).Nodup)
    (hpending : NothingPending d.scope d.log)
    (hroom : ∀ k, (d.result k).CountsEvent → d.HasRoomAt k)
    (hstable : d.cursor (k + 1) = d.cursor k) :
    leftFloors py d.scope (d.scanned k) q.limit.toNat q.maxChars.toNat = [] ∧
      (d.scanned k).length ≠ syncScanCap := by
  obtain ⟨live, files, hresult⟩ := d.result_eq k
  have hstuck : (d.result k).nextCursor = d.cursor k := by rw [← d.cursor_succ hlog, hstable]
  have hroom' := hroom k
  rw [hresult] at hstuck hroom'
  exact complete_of_stuck (d.isScan hlog k) (d.nothingPending hpending k) hroom' hstuck

theorem cursor_le (hlog : (d.log.map Event.seq).Nodup) (k) :
    d.cursor k ≤ (d.log.map Event.seq).foldl max (d.cursor 0) := by
  induction k with
  | zero => exact le_foldl_max_start
  | succ k ih =>
    rcases d.cursor_succ_le hlog k with heq | ⟨e, he, hle⟩
    · rw [heq]
      exact ih
    · exact hle.trans (le_foldl_max (mem_map_of_mem (d.mem_log he)))

theorem exists_stable (hlog : (d.log.map Event.seq).Nodup) :
    ∃ k, d.cursor (k + 1) = d.cursor k := by
  by_contra hmoves
  push Not at hmoves
  have hgrows : ∀ k, k ≤ d.cursor k := by
    intro k
    induction k with
    | zero => exact Nat.zero_le _
    | succ k ih =>
      have hmono := d.cursor_mono hlog k
      have hne := hmoves k
      omega
  have hbound := d.cursor_le hlog ((d.log.map Event.seq).foldl max (d.cursor 0) + 1)
  have := hgrows ((d.log.map Event.seq).foldl max (d.cursor 0) + 1)
  omega

theorem exists_deliveredAt (hlog : (d.log.map Event.seq).Nodup)
    (hpending : NothingPending d.scope d.log)
    (hroom : ∀ k, (d.result k).CountsEvent → d.HasRoomAt k) :
    ∃ n, ∀ e ∈ d.log, d.cursor 0 < e.seq → d.scope.Matches py e → ∃ k < n, d.DeliveredAt k e := by
  obtain ⟨n, hstable⟩ := d.exists_stable hlog
  obtain ⟨hleft, hshort⟩ := d.complete_of_stable hlog hpending hroom hstable
  refine ⟨n + 1, fun e he hlow hm => ?_⟩
  by_cases hpassed : e.seq ≤ d.cursor n
  · -- some call before `n` moved the cursor over `e`
    have hcross : ∀ j, e.seq ≤ d.cursor j →
        ∃ k < j, d.cursor k < e.seq ∧ e.seq ≤ d.cursor (k + 1) := by
      intro j
      induction j with
      | zero => intro h; omega
      | succ j ih =>
        intro h
        by_cases hj : e.seq ≤ d.cursor j
        · obtain ⟨k, hk, hcross⟩ := ih hj
          exact ⟨k, by omega, hcross⟩
        · exact ⟨j, by omega, by omega, h⟩
    obtain ⟨k, hk, hbelow, habove⟩ := hcross n hpassed
    exact ⟨k, by omega, d.delivered_of_passed hlog he hm hbelow habove⟩
  · exact ⟨n, by omega, d.delivered_of_complete hlog hleft hshort he hm (by omega)⟩

end Drain

theorem SameWork.trans {e e' e''} (h : SameWork e e') (h' : SameWork e' e'') : SameWork e e'' := by
  obtain ⟨w, hw, hw'⟩ := h
  obtain ⟨v, hv, hv'⟩ := h'
  rw [hw'] at hv
  cases hv
  exact ⟨w, hw, hv'⟩

/-- `last` is the latest matched event of the work entry of `e`. -/
def LatestOfWork (py : Pydantic) (scope : SyncScope) (log : List Event) (e last : Event) : Prop :=
  SameWork e last ∧ ∀ e' ∈ log, scope.Matches py e' → SameWork e e' → e'.seq ≤ last.seq

/-- **Sync drains**: with no signal pending for another live session, a call whose overflow counts
an event moves the cursor exactly when it has room; if each of them has room, after finitely many
calls every matched event past the first cursor, or the latest of its work entry, was delivered. -/
theorem sync_drains (d : Drain py principal q) (hlog : (d.log.map Event.seq).Nodup)
    (hpending : NothingPending d.scope d.log) :
    (∀ k, (d.result k).CountsEvent → (d.cursor k < d.cursor (k + 1) ↔ d.HasRoomAt k)) ∧
    ((∀ k, (d.result k).CountsEvent → d.HasRoomAt k) →
      ∃ n, ∀ e ∈ d.log, d.cursor 0 < e.seq → d.scope.Matches py e →
        ∃ k < n, Delivered py d.scope (d.result k) e ∨
          ∃ last ∈ d.log, LatestOfWork py d.scope d.log e last ∧
            Delivered py d.scope (d.result k) last) := by
  refine ⟨fun k hcounts => d.advances_iff hlog hpending hcounts, fun hroom => ?_⟩
  obtain ⟨n, hn⟩ := d.exists_deliveredAt hlog hpending hroom
  refine ⟨n, fun e he hlow hm => ?_⟩
  obtain ⟨k, hk, hdel | ⟨e', he', hlt, hwork, hdel⟩⟩ := hn e he hlow hm
  · exact ⟨k, hk, .inl hdel⟩
  obtain ⟨c', hc', -⟩ := hdel
  -- the latest event of the entry cannot be absorbed
  obtain ⟨last, ⟨hlast, hlm, hlw⟩, hmax⟩ := Set.exists_max_image
    {x | x ∈ d.log ∧ d.scope.Matches py x ∧ SameWork e x} Event.seq
    ((finite_toSet d.log).subset fun x hx => hx.1)
    ⟨e', he', matches_of_classify hc', hwork⟩
  have hlate : e'.seq ≤ last.seq := hmax e' ⟨he', matches_of_classify hc', hwork⟩
  have hlatest : LatestOfWork py d.scope d.log e last :=
    ⟨hlw, fun x hx hxm hxw => hmax x ⟨hx, hxm, hxw⟩⟩
  obtain ⟨j, hj, hdel | ⟨e'', he'', hlt', hwork', hdel⟩⟩ := hn last hlast (by omega) hlm
  · exact ⟨j, hj, .inr ⟨last, hlast, hlatest, hdel⟩⟩
  · obtain ⟨c'', hc'', -⟩ := hdel
    have := hmax e'' ⟨he'', matches_of_classify hc'', hlw.trans hwork'⟩
    omega

/-! ## Two clients -/

instance (d : Drain py principal q) (k : Nat) : Decidable (d.HasRoomAt k) :=
  inferInstanceAs (Decidable (HasRoom ..))

def samplePrincipal : Principal :=
  { machine := ⟨⟨"5e4d3c2b-1a09-4f8e-9d7c-6b5a49382705"⟩, ⟨"77777777-0000-4000-8000-000000000007"⟩⟩
    role := .agent
    projectScope := .allProjects }

/-- One project with the sample task and this log. -/
def sampleStore (log : List Event) : Store :=
  { sessions := []
    tasks := fun id => some ⟨id, ⟨"88888888-0000-4000-8000-000000000008"⟩⟩
    agents := fun _ => some ⟨none, some samplePrincipal.machine.id⟩
    events := fun _ => log
    related := fun _ _ => []
    claims := fun _ => [] }

/-- A call without a session, for an agent of the machine. -/
def sampleQuery (limit maxChars : Int) : SyncQuery :=
  { agentId := some ⟨"99999999-0000-4000-8000-000000000009"⟩
    taskId := some sampleTask
    limit := limit
    maxChars := maxChars }

/-- What the call answers at a cursor. -/
def sampleAnswer (py : Pydantic) (log : List Event) (limit maxChars cursor : Nat) : SyncResult :=
  let st := sampleStore log
  let task : Task := ⟨sampleTask, ⟨"88888888-0000-4000-8000-000000000008"⟩⟩
  answer py (st.scope samplePrincipal task none) cursor
    (listEventsAfter st task.projectId (some cursor) syncScanCap) [] [] limit maxChars

def sampleLog : List Event :=
  [sampleEvent 1 "task.updated" [], sampleEvent 2 "task.claimed" [],
    sampleEvent 3 "task.released" []]

def sampleCursor : Nat → Nat
  | 0 => 0
  | 1 => 1
  | 2 => 2
  | _ + 3 => 3

def sampleAck : Nat → Option Int
  | 0 => none
  | k + 1 => some (sampleCursor (k + 1))

/-- Three events, delivered one at a time. -/
def sampleDrain : Drain plain samplePrincipal (sampleQuery 1 12000) where
  store := fun _ => sampleStore sampleLog
  after := fun _ => sampleStore sampleLog
  now := fun _ => 0
  ack := sampleAck
  result := fun k => sampleAnswer plain sampleLog 1 12000 (sampleCursor k)
  ack_zero := rfl
  ack_succ := fun k => by
    match k with
    | 0 | 1 | 2 | _ + 3 => rfl
  answered := fun k => by
    match k with
    | 0 | 1 | 2 | _ + 3 => rfl
  between := fun _ => ⟨_, rfl⟩
  task := ⟨sampleTask, ⟨"88888888-0000-4000-8000-000000000008"⟩⟩
  task_eq := rfl

theorem sync_drains_sample :
    ∃ n, ∀ e ∈ sampleDrain.log, sampleDrain.cursor 0 < e.seq → sampleDrain.scope.Matches plain e →
      ∃ k < n, Delivered plain sampleDrain.scope (sampleDrain.result k) e ∨
        ∃ last ∈ sampleDrain.log, LatestOfWork plain sampleDrain.scope sampleDrain.log e last ∧
            Delivered plain sampleDrain.scope (sampleDrain.result k) last := by
  refine (sync_drains sampleDrain (by decide +kernel) (by decide +kernel)).2 ?_
  intro k hcounts
  match k with
  | 0 | 1 | 2 => decide +kernel
  | k + 3 =>
    -- the log is exhausted
    obtain ⟨why, -, hpos⟩ := hcounts
    change 0 < (sampleAnswer plain sampleLog 1 12000 3).overflow why at hpos
    cases why <;> exact absurd hpos (by decide +kernel)

/-- A reference of 260 characters, the longest one that is accepted. -/
def widePath : String := String.ofList (List.replicate 260 'a')

/-- The signal that refers to five such paths. -/
def wide : Pydantic :=
  { validateSignal := fun input =>
      match input.text, input.fromSessionId with
      | .string text, .string sender =>
        some ⟨input.eventId, input.intent, text, ⟨[], [], List.replicate 5 widePath⟩, none,
          some ⟨sender⟩⟩
      | _, _ => none
    dumpLength := plainLength }

def wideEvent : Event :=
  sampleEvent 1 "coordination.heads_up"
    [("task_id", .string sampleTask.str), ("text", .string "moved"),
      ("refs", .container (toString [("paths", List.replicate 5 widePath)])),
      ("from_session_id", .string sampleOther.id.str)]

theorem length_widePath : widePath.length = 260 := by
  unfold widePath
  rw [String.length_ofList]
  exact length_replicate

theorem listLength_widePath : listLength (List.replicate 5 widePath) = 1316 := by
  have hne : List.replicate 5 widePath ≠ [] := cons_ne_nil _ _
  rw [listLength, if_neg hne, map_replicate, textLength, length_widePath]
  rfl

theorem listLength_paths_le (seq) (item : SyncItem) (s) :
    listLength s.refs.paths ≤ plainLength { item with seq := seq, coordination := some s } := by
  simp only [plainLength, objectLength, optionLength, map_cons, map_nil, sum_cons, sum_nil]
  omega

theorem wide_item (scope : SyncScope) {c}
    (hc : scope.classify wide wideEvent = some c) : 1000 < wide.dumpLength c.item := by
  obtain ⟨s, hs, rfl⟩ := classify_coordination (by decide +kernel) hc
  have hrefs : s.refs.paths = List.replicate 5 widePath := by
    simp only [signal, wide] at hs
    split at hs
    · cases hs
      rfl
    · cases hs
  have hle := listLength_paths_le (some 1) (eventCandidate wideEvent .coordination (some s)).item s
  rw [hrefs, listLength_widePath] at hle
  exact lt_of_lt_of_le (by omega) hle

theorem wideAnswer_eq : let r := sampleAnswer wide [wideEvent] 50 1000 0
    r.CountsEvent ∧ r.nextCursor = 0 ∧
      ∀ e, ¬ Delivered wide ((sampleStore [wideEvent]).scope samplePrincipal
        ⟨sampleTask, ⟨"88888888-0000-4000-8000-000000000008"⟩⟩ none) r e := by
  obtain ⟨hcounts, hcursor, hnever⟩ := @oversized_refused wide
    ((sampleStore [wideEvent]).scope samplePrincipal
      ⟨sampleTask, ⟨"88888888-0000-4000-8000-000000000008"⟩⟩ none) 50 1000 0 [wideEvent] [] [] wideEvent
    ⟨pairwise_singleton _ _, by decide⟩ (by decide +kernel)
    (by
      intro e he c hc
      rw [mem_singleton.mp he] at hc
      exact wide_item _ hc)
    (mem_singleton_self _) (by unfold SyncScope.Matches; decide +kernel)
  exact ⟨hcounts, Nat.lt_one_iff.mp hcursor, hnever⟩

/-- A client whose budget is smaller than one signal. -/
def wideDrain : Drain wide samplePrincipal (sampleQuery 50 1000) where
  store := fun _ => sampleStore [wideEvent]
  after := fun _ => sampleStore [wideEvent]
  now := fun _ => 0
  ack := fun k => if k = 0 then none else some 0
  result := fun _ => sampleAnswer wide [wideEvent] 50 1000 0
  ack_zero := rfl
  ack_succ := fun k => by
    rw [if_neg (Nat.succ_ne_zero k), wideAnswer_eq.2.1]
    rfl
  answered := fun k => by
    match k with
    | 0 | _ + 1 => rfl
  between := fun _ => ⟨_, rfl⟩
  task := ⟨sampleTask, ⟨"88888888-0000-4000-8000-000000000008"⟩⟩
  task_eq := rfl

/-- A signal of more than 1000 characters under the smallest budget: the
overflow counts it at every call, the cursor never moves and the signal
is never delivered. -/
theorem oversized_signal_stalls :
    wideDrain.log = [wideEvent] ∧ NothingPending wideDrain.scope wideDrain.log ∧
    wideDrain.cursor 0 < wideEvent.seq ∧ wideDrain.scope.Matches wide wideEvent ∧
    ∀ k, (wideDrain.result k).CountsEvent ∧ wideDrain.cursor (k + 1) = wideDrain.cursor k ∧
      ∀ e, ¬ Delivered wide wideDrain.scope (wideDrain.result k) e := by
  have hcursor : ∀ k, wideDrain.cursor k = 0 := by
    intro k
    match k with
    | 0 | _ + 1 => rfl
  obtain ⟨hcounts, -, hnever⟩ := wideAnswer_eq
  refine ⟨rfl, by decide +kernel, by decide +kernel, ?_, fun k => ⟨hcounts, ?_, hnever⟩⟩
  · unfold SyncScope.Matches
    decide +kernel
  · rw [hcursor, hcursor]

end StudioOS.Sync
