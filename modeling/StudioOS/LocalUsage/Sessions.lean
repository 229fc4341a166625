import StudioOS.Library.Runs
import StudioOS.LocalUsage.Readers

/-!
# Sessions — scans over transcripts that grow

The transcripts of one harness, the row stored for each of them, and the two
things that happen: a transcript grows, and a scan reads the sessions it
discovers and applies what they emitted, one after the other.
-/

namespace StudioOS.LocalUsage

open Runs Emitting

variable {σ : Type} [DecidableEq σ]

structure World (σ : Type) where
  files : String → Bytes
  /-- The stored rows, by the location of the session. -/
  rows : String → Option (Row (ReaderState σ))
  queued : List UsageWrite
  /-- The events that the scans of a session reported as unattributed. -/
  reported : String → List UsageEvent

def World.initial : World σ :=
  { files := fun _ => [], rows := fun _ => none, queued := [], reported := fun _ => [] }

/-- What `sessions` of the reader found: every location once. -/
structure Discovery where
  sessions : List LocalSession
  distinct : (sessions.map LocalSession.location).Nodup

/-- What happens to the reads of a scan. -/
structure Circumstances where
  /-- The transcripts that can be opened. -/
  readable : String → Bool
  /-- The lines behind which an exception from elsewhere ends the read. -/
  interrupted : String → Option Nat

/-- Every transcript can be opened and no read is ended from elsewhere. -/
def Circumstances.undisturbed : Circumstances :=
  { readable := fun _ => true, interrupted := fun _ => none }

inductive Action where
  | grow (location : String) (more : Bytes)
  /-- `applied` is the number of sessions the loop behind the reads gets to. -/
  | scan (found : Discovery) (reads : Circumstances) (roots : List WorkspaceRoot) (applied : Nat)

/-- The stored state of the reader of a session. -/
def World.readerState (w : World σ) (location : String) : Option (ReaderState σ) :=
  (w.rows location).bind Row.reader

def World.buckets (w : World σ) (location : String) : List Bucket :=
  (w.rows location).elim [] Row.buckets

def World.offset (w : World σ) (location : String) : Nat :=
  (w.readerState location).elim 0 ReaderState.offset

/-- `read` of one session in this scan. -/
def readSession (reader : LineReader σ) (decode : Bytes → String) (w : World σ)
    (reads : Circumstances) (location : String) : List Emission × Option (ReaderState σ) :=
  let state := w.readerState location
  let content := if reads.readable location then some (w.files location) else none
  match reads.interrupted location with
  | none => reader.read decode content state
  | some lines =>
    let appended := readAppendedLines decode content (state.elim 0 ReaderState.offset)
    ((feed reader.readLine (state.elim reader.initial ReaderState.kept)
      (appended.2.take lines)).1, none)

/-- `_parse`: when `read` raises, the state stays and what was emitted stays too. -/
def parse (reader : LineReader σ) (decode : Bytes → String) (w : World σ) (reads : Circumstances)
    (session : LocalSession) : Collected (ReaderState σ) :=
  let result := readSession reader decode w reads session.location
  { session, readerState := result.2.or (w.readerState session.location)
    emissions := result.1 }

/-- What one turn of the loop of `scan` leaves when `_apply` returned. -/
def World.store (w : World σ) (location : String) (applied : Applied (ReaderState σ)) : World σ :=
  { w with
    rows := Function.update w.rows location (some applied.row)
    queued := w.queued ++ applied.writes
    reported := Function.update w.reported location (w.reported location ++ applied.unattributed) }

/-- The loop of `scan` behind the reads; an exception of `_apply` ends it. -/
def applyAll (reader : LineReader σ) (env : ScanEnv) (roots : List WorkspaceRoot) :
    List (Collected (ReaderState σ)) → World σ → World σ
  | [], w => w
  | item :: rest, w =>
    if item.readerState.isNone ∧ item.emissions.isEmpty then applyAll reader env roots rest w
    else
      match apply env reader.toCollector (fun state => reader.harnessVersion state.kept) roots
          (w.rows item.session.location) item with
      | .error _ => w
      | .ok applied => applyAll reader env roots rest (w.store item.session.location applied)

def step (reader : LineReader σ) (env : ScanEnv) (decode : Bytes → String) (w : World σ) :
    Action → Option (World σ)
  | .grow location more =>
    some { w with files := Function.update w.files location (w.files location ++ more) }
  | .scan found reads roots applied =>
    some (applyAll reader env roots
      ((found.sessions.map (parse reader decode w reads)).take applied) w)

end StudioOS.LocalUsage
