import StudioOS.Authz
import StudioOS.Library.Paging
import StudioOS.Library.Runs

/-!
# Events — Log

The table `events` under concurrent transactions, and a reader that follows it with a `seq` cursor.
`stage_event` draws the next `seq` when it inserts in the caller's transaction, and the row becomes
visible when that commits; `create_event` has a commit of its own. So a row can become visible below
rows that were read before it.
-/

namespace StudioOS.Events

open Runs

/-- `EventModel`. -/
structure Event where
  id : Uuid
  projectId : Uuid
  seq : Nat
deriving DecidableEq

/-- `list_events_after`, past its access check: the visible events of the
project past `after_seq`, in the order of `seq`, one page of them. -/
def listEventsAfter (committed : List Event) (projectId : Uuid) (afterSeq : Option Nat)
    (limit : Nat) : List Event :=
  Paging.page Event.seq afterSeq limit (committed.filter fun e => e.projectId = projectId)

/-- The default `limit` of `list_events_after`. -/
def defaultLimit : Nat := 500

structure Reader where
  projectId : Uuid
  afterSeq : Option Nat
  limit : Nat
  limit_pos : 0 < limit

/-- The table, with the rows of open transactions, and what the reader
received. -/
structure State (τ : Type*) where
  nextSeq : Nat
  committed : List Event
  staged : List (τ × Event)
  received : List Event

/-- An empty table. The identity column starts at 1. -/
def State.initial (τ : Type*) : State τ :=
  { nextSeq := 1, committed := [], staged := [], received := [] }

/-- The largest `seq` the reader has seen. -/
def largestSeen (afterSeq : Option Nat) (received : List Event) : Option Nat :=
  received.foldl (fun cursor e => some (max (cursor.getD 0) e.seq)) afterSeq

variable {τ : Type*}

def Reader.cursor (R : Reader) (s : State τ) : Option Nat := largestSeen R.afterSeq s.received

def Reader.page (R : Reader) (s : State τ) : List Event :=
  listEventsAfter s.committed R.projectId (R.cursor s) R.limit

inductive Act (τ : Type*) where
  | stage (tx : τ) (eventId projectId : Uuid)
  | commit (tx : τ)
  | abort (tx : τ)
  | read

def Act.isRead : Act τ → Bool
  | .read => true
  | _ => false

variable [DecidableEq τ]

/-- The rows a transaction has inserted. -/
def State.rowsOf (s : State τ) (tx : τ) : List Event :=
  (s.staged.filter fun row => row.1 = tx).map Prod.snd

/-- `stage_event`: the stored event when the transaction sees one with
this `event_id`, a new row otherwise. -/
def State.stageEvent (s : State τ) (tx : τ) (eventId projectId : Uuid) : State τ :=
  if (s.committed ++ s.rowsOf tx).any fun e => e.id = eventId then s
  else
    { s with
      nextSeq := s.nextSeq + 1
      staged := s.staged ++ [(tx, { id := eventId, projectId := projectId, seq := s.nextSeq })] }

/-- The inserts of the transaction succeeded: none of its ids is stored
already or held by an insert that came before. -/
def State.mayCommit (s : State τ) (tx : τ) : Prop :=
  ∀ e ∈ s.rowsOf tx, (∀ f ∈ s.committed, f.id ≠ e.id) ∧
    ∀ row ∈ s.staged, row.2.id = e.id → row.1 ≠ tx → e.seq < row.2.seq

instance (s : State τ) (tx : τ) : Decidable (s.mayCommit tx) :=
  inferInstanceAs (Decidable (∀ e ∈ s.rowsOf tx, _ ∧ _))

def State.endTransaction (s : State τ) (tx : τ) : State τ :=
  { s with staged := s.staged.filter fun row => row.1 ≠ tx }

def step (R : Reader) (s : State τ) : Act τ → Option (State τ)
  | .stage tx eventId projectId => some (s.stageEvent tx eventId projectId)
  | .commit tx =>
    if s.mayCommit tx then
      some { s.endTransaction tx with committed := s.committed ++ s.rowsOf tx }
    else none
  | .abort tx => some (s.endTransaction tx)
  | .read => some { s with received := s.received ++ R.page s }

/-- The reader has not started past the event. -/
def Reader.follows (R : Reader) (e : Event) : Prop :=
  e.projectId = R.projectId ∧ ∀ c ∈ R.afterSeq, c < e.seq

instance (R : Reader) (e : Event) : Decidable (R.follows e) :=
  inferInstanceAs (Decidable (_ ∧ _))

/-- The visible events of the project past the reader's cursor. -/
def Reader.unread (R : Reader) (s : State τ) : List Event :=
  Paging.past Event.seq (R.cursor s) (s.committed.filter fun e => e.projectId = R.projectId)

/-- A read is settled when no open transaction holds a row of the project
below one of the next `limit` visible events: below an unread event with
fewer than `limit` unread events before it. -/
def Settled (R : Reader) (s : State τ) : Act τ → Prop
  | .read => ∀ row ∈ s.staged, R.follows row.2 → ∀ e ∈ R.unread s,
      ((R.unread s).filter fun f => f.seq < e.seq).length < R.limit → e.seq < row.2.seq
  | _ => True

instance (R : Reader) (s : State τ) : (a : Act τ) → Decidable (Settled R s a)
  | .read => inferInstanceAs (Decidable (∀ row ∈ s.staged, R.follows row.2 → ∀ e ∈ R.unread s,
      ((R.unread s).filter fun f => f.seq < e.seq).length < R.limit → e.seq < row.2.seq))
  | .stage .. | .commit _ | .abort _ => .isTrue trivial

theorem le_largestSeen {received afterSeq n}
    (h : (∀ c ∈ afterSeq, c < n) ∧ ∀ r ∈ received, r.seq < n) :
    ∀ c ∈ largestSeen afterSeq received, c < n := by
  induction received generalizing afterSeq with
  | nil => exact h.1
  | cons r received ih =>
    refine ih ⟨?_, fun r' hr' => h.2 r' (List.mem_cons_of_mem r hr')⟩
    intro c hc
    cases hc
    have hr := h.2 r (.head _)
    cases afterSeq with
    | none => simpa using hr
    | some a => exact max_lt (h.1 a rfl) hr

theorem lt_of_largestSeen {received afterSeq n} (h : ∀ c ∈ largestSeen afterSeq received, c < n) :
    (∀ c ∈ afterSeq, c < n) ∧ ∀ r ∈ received, r.seq < n := by
  induction received generalizing afterSeq with
  | nil => exact ⟨h, nofun⟩
  | cons r received ih =>
    obtain ⟨hstart, hrest⟩ := ih h
    have hmax : max (afterSeq.getD 0) r.seq < n := hstart _ rfl
    refine ⟨?_, ?_⟩
    · rintro c hc
      cases hc
      exact lt_of_le_of_lt (le_max_left _ _) hmax
    · intro r' hr'
      rcases List.mem_cons.mp hr' with rfl | hmem
      · exact lt_of_le_of_lt (le_max_right _ _) hmax
      · exact hrest r' hmem

omit [DecidableEq τ] in
theorem mem_unread {R : Reader} {s : State τ} {e : Event} :
    e ∈ R.unread s ↔ e ∈ s.committed ∧ R.follows e ∧ ∀ r ∈ s.received, r.seq < e.seq := by
  rw [Reader.unread, Paging.mem_past, List.mem_filter, decide_eq_true_eq]
  constructor
  · rintro ⟨⟨hmem, hproject⟩, hpast⟩
    obtain ⟨hstart, hreceived⟩ := lt_of_largestSeen hpast
    exact ⟨hmem, ⟨hproject, hstart⟩, hreceived⟩
  · rintro ⟨hmem, ⟨hproject, hstart⟩, hreceived⟩
    exact ⟨⟨hmem, hproject⟩, le_largestSeen ⟨hstart, hreceived⟩⟩

end StudioOS.Events
