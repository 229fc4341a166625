import StudioOS.Events.Log

/-!
# Events — Stream

One `GET /events/stream` connection and the in-process hub it listens to. `publish` drops an event
whose seq it remembers, and puts the others in the queue of every subscriber; a full queue
disconnects its subscriber. The handler (`generate`) subscribes, sends one page of backlog past the
cursor, then forwards the queue and drops events at or below the last seq sent.
-/

namespace StudioOS.EventStream

open Runs Events

def queueMaxsize : Nat := 256

def recentSeqsMax : Nat := 4096

inductive StreamSignal where
  | streamEvent (event : Event)
  | accessRevoked (userId projectId : Uuid)
  | userRevalidation (userId : Uuid)

/-- What stands in a subscriber's queue. -/
inductive Item where
  | signal (signal : StreamSignal)
  | closed

/-- The caller of the stream. `cursor` is the `Last-Event-ID`, or
`since_seq`; seqs start at 1, so a negative one reads as 0 does. -/
structure Client where
  userId : Uuid
  projectId : Uuid
  cursor : Option Nat

inductive Phase where
  /-- The response has not started. -/
  | opening
  /-- Subscribed, before the backlog query. -/
  | subscribed
  /-- Sending the backlog: the rows left. -/
  | sending (rows : List Event)
  | live
  | ended
deriving DecidableEq

/-- The log, the hub as far as this subscriber sees it, and the handler.
`known` is a history: the events past the cursor that were visible when
the backlog was queried, and those published to the subscriber since. -/
structure State where
  committed : List Event
  recentSeqs : List Nat
  subscribed : Bool
  queue : List Item
  phase : Phase
  lastSeq : Option Nat
  frames : List Event
  known : List Event

def State.initial : State :=
  { committed := [], recentSeqs := [], subscribed := false, queue := [], phase := .opening
    lastSeq := none, frames := [], known := [] }

/-- The event is of the stream's project and past its cursor. -/
def Client.visible (C : Client) (e : Event) : Prop :=
  e.projectId = C.projectId ∧ ∀ c ∈ C.cursor, c < e.seq

instance (C : Client) (e : Event) : Decidable (C.visible e) :=
  inferInstanceAs (Decidable (_ ∧ _))

/-- The backlog query has been made, and the response is open. -/
def Phase.connected : Phase → Bool
  | .sending _ | .live => true
  | _ => false

/-- The rows of the backlog that are not sent yet. -/
def Phase.rows : Phase → List Event
  | .sending rows => rows
  | _ => []

def alreadyPublished (recentSeqs : List Nat) (seq : Nat) : Bool := seq ∈ recentSeqs

/-- `_remember`: the oldest seq goes when there are too many. -/
def remember (recentSeqs : List Nat) (seq : Nat) : List Nat :=
  let recentSeqs := recentSeqs ++ [seq]
  if recentSeqs.length > recentSeqsMax then recentSeqs.tail else recentSeqs

theorem mem_remember {recentSeqs n seq} (hn : n ∈ remember recentSeqs seq) :
    n ∈ recentSeqs ∨ n = seq := by
  have hmem : n ∈ recentSeqs ++ [seq] := by
    unfold remember at hn
    dsimp only at hn
    split at hn
    · exact List.mem_of_mem_tail hn
    · exact hn
  rcases List.mem_append.mp hmem with hmem | hmem
  · exact .inl hmem
  · exact .inr (List.mem_singleton.mp hmem)

/-- The fan-out of `publish` to this subscriber: a full queue is emptied
and closed. -/
def State.fanOut (s : State) (signal : StreamSignal) : State :=
  if s.subscribed then
    if s.queue.length < queueMaxsize then { s with queue := s.queue ++ [.signal signal] }
    else { s with subscribed := false, queue := [.closed] }
  else s

/-- What a publication adds to the history. -/
def State.newlyKnown (C : Client) (s : State) (e : Event) : List Event :=
  if s.subscribed = true ∧ s.phase.connected = true ∧ C.visible e ∧ e ∉ s.known then [e] else []

def State.record (C : Client) (s : State) (e : Event) : State :=
  { s with known := s.known ++ s.newlyKnown C e }

def State.publish (C : Client) (s : State) (signal : StreamSignal) : State :=
  match signal with
  | .streamEvent e =>
    let s' := s.record C e
    if alreadyPublished s'.recentSeqs e.seq then s'
    else { s' with recentSeqs := remember s'.recentSeqs e.seq }.fanOut signal
  | _ => s.fanOut signal

/-- `unsubscribe`, and the end of the response. -/
def State.close (s : State) : State := { s with subscribed := false, phase := .ended }

def State.subscribe (s : State) : Option State :=
  match s.phase with
  | .opening => some { s with subscribed := true, phase := .subscribed }
  | _ => none

/-- Every event past the cursor that is visible now, in the order of
seqs. -/
def State.visibleNow (C : Client) (s : State) : List Event :=
  (Paging.past Event.seq C.cursor
    (s.committed.filter fun e => e.projectId = C.projectId)).insertionSort fun a b => a.seq ≤ b.seq

/-- The backlog query, which is made only with a cursor. -/
def State.query (C : Client) (s : State) : Option State :=
  match s.phase with
  | .subscribed =>
    match C.cursor with
    | none => some { s with phase := .live, lastSeq := none }
    | some cursor =>
      some { s with
        phase := .sending (listEventsAfter s.committed C.projectId (some cursor) defaultLimit)
        lastSeq := some cursor
        known := s.visibleNow C }
  | _ => none

/-- One row of the backlog, or the end of it. -/
def State.sendRow (s : State) : Option State :=
  match s.phase with
  | .sending [] => some { s with phase := .live }
  | .sending (row :: rows) =>
    some { s with
      phase := .sending rows, lastSeq := some row.seq, frames := s.frames ++ [row] }
  | _ => none

/-- A `StreamEvent` taken from the queue: the project filter and the
`last_seq` filter. -/
def State.forward (C : Client) (s : State) (e : Event) : State :=
  if e.projectId ≠ C.projectId then s
  else if s.lastSeq.any fun last => e.seq ≤ last then s
  else { s with lastSeq := some e.seq, frames := s.frames ++ [e] }

/-- One turn of the live loop. `due` says that the periodic check is due,
`stillValid` what `stream_access_still_valid` would answer. An empty
queue is a keep-alive. -/
def State.receive (C : Client) (s : State) (due stillValid : Bool) : Option State :=
  match s.phase, s.queue with
  | .live, [] => if due && !stillValid then some s.close else some s
  | .live, item :: rest =>
    let s' := { s with queue := rest }
    match item with
    | .closed => some s'.close
    | .signal (.accessRevoked userId projectId) =>
      if userId = C.userId ∧ projectId = C.projectId then some s'.close else some s'
    | .signal (.userRevalidation userId) =>
      if userId = C.userId ∧ stillValid = false then some s'.close else some s'
    | .signal (.streamEvent e) =>
      if due && !stillValid then some s'.close else some (s'.forward C e)
  | _, _ => none

inductive Act where
  | commit (e : Event)
  | publish (signal : StreamSignal)
  | subscribe
  | query
  | sendRow
  | receive (due stillValid : Bool)
  /-- The client goes away. -/
  | disconnect

def step (C : Client) (s : State) : Act → Option State
  | .commit e =>
    if e.seq ∉ s.committed.map Event.seq then some { s with committed := s.committed ++ [e] }
    else none
  | .publish (.streamEvent e) =>
    if e ∈ s.committed then some (s.publish C (.streamEvent e)) else none
  | .publish signal => some (s.publish C signal)
  | .subscribe => s.subscribe
  | .query => s.query C
  | .sendRow => s.sendRow
  | .receive due stillValid => s.receive C due stillValid
  | .disconnect => some s.close

/-- The backlog fits one page, and an event published to the connected
subscriber is known already or above every known event. -/
def InOrder (C : Client) (s : State) : Act → Prop
  | .query => (s.visibleNow C).length ≤ defaultLimit
  | .publish (.streamEvent e) => s.subscribed = true → s.phase.connected = true →
      C.visible e → e ∈ s.known ∨ ∀ k ∈ s.known, k.seq < e.seq
  | _ => True

instance (C : Client) (s : State) : (a : Act) → Decidable (InOrder C s a)
  | .query => inferInstanceAs (Decidable ((s.visibleNow C).length ≤ defaultLimit))
  | .publish (.streamEvent e) => inferInstanceAs (Decidable (s.subscribed = true →
      s.phase.connected = true → C.visible e → e ∈ s.known ∨ ∀ k ∈ s.known, k.seq < e.seq))
  | .publish (.accessRevoked ..) | .publish (.userRevalidation _) | .commit _ | .subscribe
  | .sendRow | .receive .. | .disconnect => .isTrue trivial

end StudioOS.EventStream
