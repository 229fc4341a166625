import Mathlib.Data.List.Dedup
import StudioOS.Events.Stream

/-!
# Events — Listener

`EventListener`: one dedicated LISTEN connection that reads each notified seq back from the table
and publishes it into the hub. PostgreSQL notifies the connections that listen when the inserting
transaction commits; what a dropped connection had in flight is gone. After a reconnection the
listener reads once through the rows above `_last_seq`.
-/

namespace StudioOS.EventListener

open Runs Events EventStream

def catchUpBatch : Nat := 500

inductive Phase where
  | disconnected
  /-- LISTEN is in effect and `_catch_up` runs. -/
  | catchingUp
  /-- Waiting in `_next_seqs`. -/
  | idle
  /-- `_publish` reads the rows with these seqs. -/
  | reading (wanted : List Int)

/-- The table, the hub and the listener. `notified` holds what was sent to
the connection and not taken yet. `published` and `owed` are histories:
every event published into the hub, and every event committed since
LISTEN first took effect. -/
structure State where
  committed : List Event
  recentSeqs : List Nat
  published : List Event
  owed : List Event
  started : Bool
  listening : Bool
  notified : List Int
  lastSeq : Option Int
  phase : Phase

def State.initial : State :=
  { committed := [], recentSeqs := [], published := [], owed := [], started := false
    listening := false, notified := [], lastSeq := none, phase := .disconnected }

/-- A transaction commits a row, and its notification with it. -/
def State.commit (s : State) (e : Event) : State :=
  { s with
    committed := s.committed ++ [e]
    owed := if s.started then s.owed ++ [e] else s.owed
    notified := if s.listening then s.notified ++ [(e.seq : Int)] else s.notified }

/-- A NOTIFY from elsewhere: what `int` makes of its payload, or `none`
for a `ValueError`. -/
def State.notify (s : State) (payload : Option Int) : State :=
  if s.listening then { s with notified := s.notified ++ payload.toList } else s

def State.publishEvent (s : State) (e : Event) : State :=
  if alreadyPublished s.recentSeqs e.seq then s
  else { s with recentSeqs := remember s.recentSeqs e.seq, published := s.published ++ [e] }

/-- A new connection, and LISTEN on it. -/
def State.connect (s : State) : Option State :=
  match s.phase with
  | .disconnected =>
    some { s with started := true, listening := true, notified := [], phase := .catchingUp }
  | _ => none

/-- One row of a batch of `_catch_up`. -/
def State.catchUpRow (s : State) (row : Event) : State :=
  { s.publishEvent row with lastSeq := some (row.seq : Int) }

/-- The next batch of `_catch_up`. -/
def State.batch (s : State) (last : Int) : List Event :=
  Paging.page (fun e => (e.seq : Int)) (some last) catchUpBatch s.committed

/-- One turn of `_catch_up`: the largest seq when there is no last one, a
batch otherwise. A short batch is the last. -/
def State.catchUp (s : State) : Option State :=
  match s.phase with
  | .catchingUp =>
    match s.lastSeq with
    | none =>
      some { s with
        lastSeq := some ((s.committed.map fun e => (e.seq : Int)).foldl max 0), phase := .idle }
    | some last =>
      let s' := (s.batch last).foldl State.catchUpRow s
      if (s.batch last).length < catchUpBatch then some { s' with phase := .idle } else some s'
  | _ => none

/-- The seqs of a batch of notifications that are to be read. -/
def wanted (recentSeqs : List Nat) (seqs : List Int) : List Int :=
  (seqs.filter fun seq => ∀ n ∈ recentSeqs, (n : Int) ≠ seq).dedup

/-- `_next_seqs`, which takes the first `count` notifications, and
`_publish` up to its read. -/
def State.take (s : State) (count : Nat) : Option State :=
  match s.phase with
  | .idle =>
    let seqs := s.notified.take count
    if seqs = [] then none
    else
      let wanted := wanted s.recentSeqs seqs
      some { s with
        notified := s.notified.drop count
        lastSeq := some (seqs.foldl max (s.lastSeq.getD 0))
        phase := if wanted = [] then .idle else .reading wanted }
  | _ => none

/-- The rows `_publish` reads. -/
def State.rows (s : State) (wanted : List Int) : List Event :=
  (s.committed.filter fun e => (e.seq : Int) ∈ wanted).insertionSort fun a b => a.seq ≤ b.seq

/-- The read of `_publish`, and the publication of its rows. -/
def State.read (s : State) : Option State :=
  match s.phase with
  | .reading wanted => some { (s.rows wanted).foldl State.publishEvent s with phase := .idle }
  | _ => none

/-- The connection breaks before the listener knows: what was received
stays, the rest of what was sent is gone. -/
def State.lose (s : State) (received : Nat) : State :=
  { s with listening := false, notified := s.notified.take received }

/-- An exception leaves `_listen_once`: a failed read of `_catch_up` or
`_publish`, a lost connection or a failed health check. -/
def State.fail (s : State) : State :=
  { s with listening := false, notified := [], phase := .disconnected }

inductive Act where
  | commit (e : Event)
  | notify (payload : Option Int)
  /-- This process publishes an event it committed. -/
  | publishOwn (e : Event)
  | connect
  | catchUp
  | take (count : Nat)
  | read
  | lose (received : Nat)
  | fail

def step (s : State) : Act → Option State
  | .commit e => if e.seq ∉ s.committed.map Event.seq then some (s.commit e) else none
  | .notify payload => some (s.notify payload)
  | .publishOwn e => if e ∈ s.committed then some (s.publishEvent e) else none
  | .connect => s.connect
  | .catchUp => s.catchUp
  | .take count => s.take count
  | .read => s.read
  | .lose received => some (s.lose received)
  | .fail => some s.fail

/-- Every event that is owed and was not published has a seq above the
last one. -/
def State.aboveLast (s : State) : Prop :=
  ∀ e ∈ s.owed, e ∉ s.published → ∃ last ∈ s.lastSeq, last < e.seq

instance (s : State) : Decidable s.aboveLast :=
  inferInstanceAs (Decidable (∀ e ∈ s.owed, e ∉ s.published → ∃ last ∈ s.lastSeq, last < e.seq))

/-- A connection is made only when the catch-up lies ahead of nothing that
is still owed. -/
def CatchUpSuffices (s : State) : Act → Prop
  | .connect => s.aboveLast
  | _ => True

instance (s : State) : (a : Act) → Decidable (CatchUpSuffices s a)
  | .connect => inferInstanceAs (Decidable s.aboveLast)
  | .commit _ | .notify _ | .publishOwn _ | .catchUp | .take _ | .read | .lose _ | .fail =>
    .isTrue trivial

/-- The listener is connected and has caught up. -/
def State.connected (s : State) : Prop :=
  s.listening = true ∧ s.phase ≠ .catchingUp

end StudioOS.EventListener
