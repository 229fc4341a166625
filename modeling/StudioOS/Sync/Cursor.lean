import Mathlib.Algebra.Ring.Nat
import StudioOS.Sync.Bounding

/-!
# Sync — Cursor

The cursor of an answer acknowledges nothing the caller did not receive.
-/

namespace StudioOS.Sync

open List

variable {py : Pydantic} {scope : SyncScope} {limit maxChars effective : Nat}
  {scanned : List Event} {live : List Claim} {files : List String}

/-- A page of the log past the effective cursor, as `sync` scans it. -/
structure Scan (effective : Nat) (scanned : List Event) : Prop where
  sorted : scanned.Pairwise fun a b => a.seq < b.seq
  past : ∀ e ∈ scanned, effective < e.seq

theorem claim_floor {c} (h : c ∈ overlappingClaims scope.myTaskId files live) :
    c.floorSeq = none ∧ c.item.seq = none ∧ c.why = .claimOverlap := by
  obtain ⟨claim, -, rfl⟩ := mem_map.mp h
  exact ⟨rfl, rfl, rfl⟩

theorem survivor_of_floor (hscan : Scan effective scanned) {d n}
    (hd : d ∈ candidates py scope scanned live files) (hn : d.floorSeq = some n) :
    ∃ first last, Survivor py scope scanned d first last := by
  rcases mem_append.mp hd with hmem | hmem
  · exact survivor_of_mem hscan.sorted hmem
  · rw [(claim_floor hmem).1] at hn
    cases hn

theorem effective_lt_floor (hscan : Scan effective scanned) {n}
    (hn : n ∈ floors py scope scanned live files limit maxChars) : effective < n := by
  rcases mem_append.mp hn with hmem | hmem
  · obtain ⟨e, he, rfl⟩ := mem_map.mp hmem
    exact hscan.past e (mem_of_mem_filter he)
  · obtain ⟨d, hd, hfloor⟩ := mem_filterMap.mp hmem
    obtain ⟨first, last, hs⟩ := survivor_of_floor hscan (Budget.mem_of_left hd) hfloor
    rw [hs.floor] at hfloor
    cases hfloor
    exact hscan.past first hs.first_mem

theorem effective_le_scanEnd : effective ≤ scanEnd effective scanned := by
  unfold scanEnd
  split
  · split
    · exact le_max_left _ _
    · exact le_rfl
  · exact le_rfl

theorem nextCursor_lt_floor (hscan : Scan effective scanned) {n}
    (hn : n ∈ floors py scope scanned live files limit maxChars) :
    (answer py scope effective scanned live files limit maxChars).nextCursor < n := by
  obtain ⟨hcursor, -⟩ := @answer_eq py scope limit maxChars effective scanned live files
  obtain ⟨f, hfn, hf⟩ := @foldl_lower_le _ none n hn
  have hlow : effective < f := by
    rcases foldl_lower_mem hf with h | h
    · cases h
    · exact effective_lt_floor hscan h
  rw [hf] at hcursor
  simp only at hcursor
  rw [hcursor]
  omega

theorem effective_le_nextCursor (hscan : Scan effective scanned) :
    effective ≤ (answer py scope effective scanned live files limit maxChars).nextCursor := by
  obtain ⟨hcursor, -⟩ := @answer_eq py scope limit maxChars effective scanned live files
  have hreach : effective ≤ (returned py scope scanned live files limit maxChars).foldl max
      (scanEnd effective scanned) :=
    (@effective_le_scanEnd effective scanned).trans le_foldl_max_start
  rw [hcursor]
  cases hf : (floors py scope scanned live files limit maxChars).foldl lower none with
  | none => exact hreach
  | some f =>
    have hlow : effective < f := by
      rcases foldl_lower_mem hf with h | h
      · cases h
      · exact effective_lt_floor hscan h
    simp only
    omega

/-- The item of the event `e` is in the answer. -/
def Delivered (py : Pydantic) (scope : SyncScope) (r : SyncResult) (e : Event) : Prop :=
  ∃ c, scope.classify py e = some c ∧ c.item ∈ r.items

/-- **Cursor safety**: for every scan past the effective cursor, the next cursor is not below it, it
is below every signal that waits for another live session of the task, and a matched event at or
below it is in the items, or a later event of the same work entry is. -/
theorem sync_cursor_safe (hsorted : scanned.Pairwise fun a b => a.seq < b.seq)
    (hpast : ∀ e ∈ scanned, effective < e.seq) :
    let r := answer py scope effective scanned live files limit maxChars
    effective ≤ r.nextCursor ∧
    (∀ e ∈ scanned, scope.pendingElsewhere e = true → r.nextCursor < e.seq) ∧
    ∀ e ∈ scanned, scope.Matches py e → e.seq ≤ r.nextCursor →
      Delivered py scope r e ∨
        ∃ e' ∈ scanned, e.seq < e'.seq ∧ SameWork e e' ∧ Delivered py scope r e' := by
  have hscan : Scan effective scanned := ⟨hsorted, hpast⟩
  refine ⟨effective_le_nextCursor hscan, ?_, ?_⟩
  · intro e he hpending
    refine nextCursor_lt_floor hscan (mem_append_left _ ?_)
    exact mem_map.mpr ⟨e, mem_filter.mpr ⟨he, hpending⟩, rfl⟩
  intro e he hm hle
  obtain ⟨d, hd, first, last, hs, hfirst, hlast⟩ := exists_survivor hsorted he hm
  have hcand : d ∈ candidates py scope scanned live files := mem_append_left _ hd
  rcases Budget.mem_iff.mp hcand with htaken | hleft
  · obtain ⟨-, hitems, -⟩ := @answer_eq py scope limit maxChars effective scanned live files
    obtain ⟨c, hc, hitem, -⟩ := hs.item
    have hdel : Delivered py scope
        (answer py scope effective scanned live files limit maxChars) last := by
      refine ⟨c, hc, ?_⟩
      rw [hitems, ← hitem]
      exact mem_map_of_mem htaken
    rcases hlast with rfl | ⟨hlt, hwork⟩
    · exact .inl hdel
    · exact .inr ⟨last, hs.last_mem, hlt, hwork, hdel⟩
  · -- a survivor left out keeps the cursor below its first event
    have hfloor : first.seq ∈ floors py scope scanned live files limit maxChars :=
      mem_append_right _ (mem_filterMap.mpr ⟨d, hleft, hs.floor⟩)
    have := @nextCursor_lt_floor py scope limit maxChars effective scanned live files hscan _
      hfloor
    omega

/-- The length of a compact JSON object, from its keys and the lengths of
their values. -/
def objectLength (fields : List (String × Nat)) : Nat :=
  1 + (fields.map fun field => field.1.length + 4 + field.2).sum

/-- The length of a JSON string none of whose characters is escaped. -/
def textLength (s : String) : Nat := s.length + 2

def optionLength {α : Type*} (length : α → Nat) : Option α → Nat
  | none => 4
  | some a => length a

def listLength (texts : List String) : Nat :=
  if texts = [] then 2 else 1 + (texts.map fun s => textLength s + 1).sum

def SyncWhy.text : SyncWhy → String
  | .ownTask => "own_task"
  | .decision => "decision"
  | .claimOverlap => "claim_overlap"
  | .roadmapDependency => "roadmap_dependency"
  | .coordination => "coordination"

/-- `len(item.model_dump_json())` of an item without escaped characters. -/
def plainLength (item : SyncItem) : Nat :=
  let uuid := optionLength fun u : Uuid => textLength u.str
  objectLength
    [("kind", textLength (match item.kind with | .event => "event" | .claim => "claim")),
      ("why", textLength item.why.text),
      ("seq", optionLength (fun n => (Nat.toDigits 10 n).length) item.seq),
      ("event_type", optionLength textLength item.eventType), ("task_id", uuid item.taskId),
      ("claim_id", uuid item.claimId), ("resource_path", optionLength textLength item.resourcePath),
      ("coordination", optionLength (fun s => objectLength
        [("event_id", textLength s.eventId.str), ("intent", textLength s.intent),
          ("text", textLength s.text),
          ("refs", objectLength
            [("task_ids", listLength (s.refs.taskIds.map Uuid.str)),
              ("decision_ids", listLength (s.refs.decisionIds.map Uuid.str)),
              ("paths", listLength s.refs.paths)]),
          ("in_reply_to", uuid s.inReplyTo), ("from_session_id", uuid s.fromSessionId)])
        item.coordination)]

/-- A signal without references whose ids are canonical. -/
def plainSignal (input : SignalInput) : Option CoordinationSignal :=
  match input.text, input.refs, input.inReplyTo, input.fromSessionId with
  | .string text, .container "\x7b\x7d", .null, .string sender =>
    some ⟨input.eventId, input.intent, text, ⟨[], [], []⟩, none, some ⟨sender⟩⟩
  | _, _, _, _ => none

def plain : Pydantic := { validateSignal := plainSignal, dumpLength := plainLength }

def sampleTask : Uuid := ⟨"6f1f6d0e-3d0c-4a55-9a53-0d6a2a1c7b01"⟩

def sampleSession : Uuid := ⟨"1b0e7a55-93b4-4f0e-8a53-5a1f6d2c9e02"⟩

/-- A session of the task on another machine; it acknowledged nothing. -/
def sampleOther : WorkSession :=
  { id := ⟨"c2a7f6b1-5e0d-4d8a-b1f7-7e9d3c4b5a03"⟩
    taskId := sampleTask
    machineId := ⟨"0d9c8b7a-6f5e-4d3c-8b2a-190817263504"⟩
    endedAt := none
    lastActivityAt := none
    syncCursorSeq := none }

def sampleScope : SyncScope :=
  { myTaskId := sampleTask
    mySessionId := some sampleSession
    myMachineId := ⟨"5e4d3c2b-1a09-4f8e-9d7c-6b5a49382705"⟩
    related := []
    targets := [sampleOther] }

def sampleEvent (seq : Nat) (eventType : String) (payload : Payload) : Event :=
  { id := ⟨"e0000000-0000-4000-8000-000000000006"⟩
    seq := seq
    eventType := eventType
    taskId := some sampleTask
    machineId := none
    payload := payload }

/-- A work entry that starts and completes around another event of the
task, and a question to the other session. -/
def sampleScan : List Event :=
  [sampleEvent 11 "ai_work.started" [("ai_work_id", .string "w")],
    sampleEvent 12 "task.updated" [],
    sampleEvent 13 "ai_work.completed" [("ai_work_id", .string "w")],
    sampleEvent 14 "coordination.question"
      [("task_id", .string sampleTask.str), ("session_id", .string sampleOther.id.str),
        ("text", .string "done?"), ("from_session_id", .string sampleSession.str)]]

/-- The question holds the cursor at 13, and the start of the work entry
is absorbed by its completion. -/
theorem sync_cursor_safe_sample : let r := answer plain sampleScope 10 sampleScan [] [] 50 12000
    (r.nextCursor = 13 ∧ r.items.map SyncItem.seq = [some 12, some 13]) ∧
    10 ≤ r.nextCursor ∧
    (∀ e ∈ sampleScan, sampleScope.pendingElsewhere e = true → r.nextCursor < e.seq) ∧
    ∀ e ∈ sampleScan, sampleScope.Matches plain e → e.seq ≤ r.nextCursor →
      Delivered plain sampleScope r e ∨
        ∃ e' ∈ sampleScan, e.seq < e'.seq ∧ SameWork e e' ∧ Delivered plain sampleScope r e' :=
  ⟨by decide +kernel, sync_cursor_safe (by decide) (by decide)⟩

end StudioOS.Sync
