import Mathlib.Algebra.Order.Ring.Nat
import StudioOS.Library.Framing

/-!
# Model — the event stream on the wire

`_format_sse` of `routers/events.py` and the keep-alive of its stream, and
`SseParser` of `dashboard/src/sse.ts`. A text is the list of its UTF-16
code units, as JavaScript holds it; chunks may end anywhere in it. An
event carries its JSON as the text `model_dump_json` gives.
-/

namespace StudioOS.Sse

open Framing

abbrev Text := List UInt16

/-- An ASCII literal. -/
def ascii (chars : List Char) : Text := chars.map fun char => UInt16.ofNat char.toNat

def lf : UInt16 := 10
def cr : UInt16 := 13
def space : UInt16 := 32
def colon : UInt16 := 58

structure StreamEvent where
  seq : Int
  json : Text

/-- `str(seq)`. -/
def decimal (seq : Int) : Text :=
  if seq < 0 then ascii ('-' :: Nat.toDigits 10 seq.natAbs)
  else ascii (Nat.toDigits 10 seq.natAbs)

def formatSse (event : StreamEvent) : Text :=
  ascii ['i', 'd', ':', ' '] ++ decimal event.seq ++ [lf] ++
    ascii ['d', 'a', 't', 'a', ':', ' '] ++ event.json ++ [lf, lf]

def keepAlive : Text :=
  ascii [':', ' ', 'k', 'e', 'e', 'p', '-', 'a', 'l', 'i', 'v', 'e'] ++ [lf, lf]

/-- What the stream yields. -/
inductive StreamItem where
  | event (event : StreamEvent)
  | keepAlive

def StreamItem.text : StreamItem → Text
  | .event sent => formatSse sent
  | .keepAlive => Sse.keepAlive

/-- An integer value of the type `number`. -/
inductive JsInteger where
  | finite (value : Int)
  | infinite (negative : Bool)
deriving DecidableEq, Repr

/-- The nearest double of a natural number, ties to even. -/
def nearestDouble (n : Nat) : Nat :=
  if n < 2 ^ 53 then n
  else
    let unit := 2 ^ (n.log2 - 52)
    let quotient := n / unit
    let rest := 2 * (n % unit)
    if unit < rest ∨ (rest = unit ∧ quotient % 2 = 1) then (quotient + 1) * unit
    else quotient * unit

def toNumber (negative : Bool) (n : Nat) : JsInteger :=
  let double := nearestDouble n
  if 2 ^ 1024 ≤ double then .infinite negative
  else .finite (if negative then -double else double)

def isDigit (unit : UInt16) : Bool := 48 ≤ unit.toNat && unit.toNat ≤ 57

/-- `WhiteSpace` and `LineTerminator`. -/
def isWhiteSpace (unit : UInt16) : Bool :=
  unit.toNat ∈ [9, 10, 11, 12, 13, 32, 0xA0, 0x1680, 0x2028, 0x2029, 0x202F, 0x205F, 0x3000,
    0xFEFF] || (0x2000 ≤ unit.toNat && unit.toNat ≤ 0x200A)

/-- The digits a text starts with, as a number. -/
def leadingNumber (negative : Bool) (value : Text) : Option JsInteger :=
  match value.takeWhile isDigit with
  | [] => none
  | digits => some (toNumber negative
      (digits.foldl (fun number unit => 10 * number + (unit.toNat - 48)) 0))

/-- `Number.parseInt(value, 10)`, `none` for `NaN`. -/
def parseInt (value : Text) : Option JsInteger :=
  match value.dropWhile isWhiteSpace with
  | [] => none
  | unit :: rest =>
    if unit = 45 then leadingNumber true rest
    else if unit = 43 then leadingNumber false rest
    else leadingNumber false (unit :: rest)

structure SseMessage where
  seq : Option JsInteger
  data : Text
deriving DecidableEq, Repr

structure SseParser where
  buffer : Text
  lastSeq : Option JsInteger
deriving DecidableEq, Repr

def SseParser.new : SseParser := { buffer := [], lastSeq := none }

/-- What the lines of a frame have given so far. -/
structure FrameFields where
  seq : Option JsInteger
  dataLines : List Text

/-- One line of `parseFrame`. -/
def parseLine (fields : FrameFields) (rawLine : Text) : FrameFields :=
  let line := if rawLine.getLast? = some cr then rawLine.dropLast else rawLine
  if line = [] ∨ line.head? = some colon then fields
  else
    match line.idxOf? colon with
    | none => fields
    | some index =>
      let field := line.take index
      let after := line.drop (index + 1)
      let value := if after.head? = some space then line.drop (index + 2) else after
      if field = ascii ['i', 'd'] then
        match parseInt value with
        | some parsed => { fields with seq := some parsed }
        | none => fields
      else if field = ascii ['d', 'a', 't', 'a'] then
        { fields with dataLines := fields.dataLines ++ [value] }
      else fields

def parseFrame (frame : Text) : Option SseMessage :=
  let fields := (frame.splitOn lf).foldl parseLine ⟨none, []⟩
  if fields.dataLines = [] then none
  else some { seq := fields.seq, data := [lf].intercalate fields.dataLines }

/-- The loop of `feed`. -/
def SseParser.loop (parser : SseParser) (out : List SseMessage) : SseParser × List SseMessage :=
  match h : cutAt [lf, lf] parser.buffer with
  | none => (parser, out)
  | some (frame, rest) =>
    have := length_lt_of_cutAt (List.cons_ne_nil lf [lf]) h
    match parseFrame frame with
    | none => SseParser.loop { parser with buffer := rest } out
    | some parsed =>
      SseParser.loop
        { buffer := rest
          lastSeq := if parsed.seq.isSome then parsed.seq else parser.lastSeq }
        (out ++ [parsed])
termination_by parser.buffer.length

def SseParser.feed (parser : SseParser) (chunk : Text) : SseParser × List SseMessage :=
  SseParser.loop { parser with buffer := parser.buffer ++ chunk } []

/-- Every chunk in turn, with the messages of all of them. -/
def SseParser.feedAll (parser : SseParser) : List Text → SseParser × List SseMessage
  | [] => (parser, [])
  | chunk :: chunks =>
    let fed := parser.feed chunk
    let next := fed.1.feedAll chunks
    (next.1, fed.2 ++ next.2)

end StudioOS.Sse
