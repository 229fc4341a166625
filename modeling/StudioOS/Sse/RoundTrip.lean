import Mathlib.Data.List.TakeWhile
import StudioOS.Sse.Model

/-!
# RoundTrip — what is streamed is what is parsed

The parser is a drain of its buffer with every frame parsed, so chunks do
not matter; a formatted event is one frame and parses to its id and its
JSON, a keep-alive is one frame and parses to nothing.
-/

namespace StudioOS.Sse

open List Framing

variable {unit : UInt16} {seq : Int}

/-! ## Digits -/

theorem toNat_of_digit {char : Char} (h : char.isDigit) :
    (UInt16.ofNat char.toNat).toNat = char.toNat ∧ 48 ≤ char.toNat ∧ char.toNat ≤ 57 := by
  have hrange : 48 ≤ char.toNat ∧ char.toNat ≤ 57 := by
    simp only [Char.isDigit, Bool.and_eq_true, decide_eq_true_eq, UInt32.le_iff_toNat_le] at h
    exact h
  have hsmall : char.toNat < 2 ^ 16 := by omega
  exact ⟨Nat.mod_eq_of_lt hsmall, hrange⟩

theorem isDigit_of_mem {chars} (h : ∀ char ∈ chars, char.isDigit)
    (hunit : unit ∈ ascii chars) : isDigit unit := by
  obtain ⟨char, hchar, rfl⟩ := mem_map.mp hunit
  obtain ⟨heq, hlow, hhigh⟩ := toNat_of_digit (h char hchar)
  simp [isDigit, heq, hlow, hhigh]

theorem foldl_digits {chars} (h : ∀ char ∈ chars, char.isDigit) (number) :
    (ascii chars).foldl (fun number unit => 10 * number + (unit.toNat - 48)) number =
      Nat.ofDigitChars 10 chars number := by
  induction chars generalizing number with
  | nil => exact Nat.ofDigitChars_nil.symm
  | cons char chars ih =>
    show (ascii chars).foldl _ (10 * number + ((UInt16.ofNat char.toNat).toNat - 48)) = _
    rw [ih fun other hother => h other (.tail _ hother), Nat.ofDigitChars_cons,
      (toNat_of_digit (h char mem_cons_self)).1]
    rfl

theorem digits_isDigit (n) : ∀ char ∈ Nat.toDigits 10 n, char.isDigit :=
  fun _ hchar => Nat.isDigit_of_mem_toDigits (by decide) (by decide) hchar

theorem leadingNumber_digits (negative n) :
    leadingNumber negative (ascii (Nat.toDigits 10 n)) = some (toNumber negative n) := by
  have hall : (ascii (Nat.toDigits 10 n)).takeWhile isDigit = ascii (Nat.toDigits 10 n) :=
    takeWhile_eq_self_iff.mpr fun unit hunit => isDigit_of_mem (digits_isDigit n) hunit
  have hfold := foldl_digits (digits_isDigit n) 0
  rw [Nat.ofDigitChars_ten_toDigits] at hfold
  unfold leadingNumber
  rw [hall]
  split
  · rename_i hnil
    exact absurd (map_eq_nil_iff.mp hnil) Nat.toDigits_ne_nil
  · rw [hfold]

theorem not_whiteSpace_of_digit (h : isDigit unit) : isWhiteSpace unit = false := by
  obtain ⟨hlow, hhigh⟩ : 48 ≤ unit.toNat ∧ unit.toNat ≤ 57 := by simpa [isDigit] using h
  simp only [isWhiteSpace, mem_cons, not_mem_nil, or_false, Bool.or_eq_false_iff,
    decide_eq_false_iff_not, Bool.and_eq_false_iff]
  omega

theorem parseInt_decimal (seq) : parseInt (decimal seq) = some (toNumber (seq < 0) seq.natAbs) := by
  unfold decimal
  split
  · rename_i hneg
    have hminus : ascii ('-' :: Nat.toDigits 10 seq.natAbs) =
        45 :: ascii (Nat.toDigits 10 seq.natAbs) := rfl
    rw [hminus, parseInt, dropWhile_cons_of_neg (by decide)]
    show (if (45 : UInt16) = 45 then leadingNumber true _ else _) = _
    rw [if_pos rfl, leadingNumber_digits, decide_eq_true hneg]
  rename_i hpos
  have hdigits := leadingNumber_digits (seq < 0) seq.natAbs
  cases hcons : ascii (Nat.toDigits 10 seq.natAbs) with
  | nil => exact absurd (map_eq_nil_iff.mp hcons) Nat.toDigits_ne_nil
  | cons unit rest =>
    have hunit : isDigit unit := isDigit_of_mem (digits_isDigit seq.natAbs) (hcons ▸ mem_cons_self)
    have hrange : 48 ≤ unit.toNat := by
      have : 48 ≤ unit.toNat ∧ unit.toNat ≤ 57 := by simpa [isDigit] using hunit
      exact this.1
    have hminus : unit ≠ 45 := by
      rintro rfl
      exact absurd hrange (by decide)
    have hplus : unit ≠ 43 := by
      rintro rfl
      exact absurd hrange (by decide)
    rw [parseInt, dropWhile_cons_of_neg (by simp [not_whiteSpace_of_digit hunit])]
    show (if unit = 45 then _ else if unit = 43 then _ else leadingNumber false (unit :: rest)) = _
    rw [if_neg hminus, if_neg hplus, ← hcons, ← decide_eq_false hpos]
    exact hdigits

theorem toNumber_of_le (h : seq.natAbs ≤ 2 ^ 53) : toNumber (seq < 0) seq.natAbs = .finite seq := by
  have hdouble : nearestDouble seq.natAbs = seq.natAbs := by
    rcases Nat.lt_or_eq_of_le h with hlt | heq
    · exact if_pos hlt
    · rw [heq]
      decide
  unfold toNumber
  simp only [hdouble]
  rw [if_neg]
  · by_cases hneg : seq < 0
    · simp only [hneg, decide_true, if_true]
      congr 1
      omega
    · simp only [hneg, decide_false]
      congr 1
      have : ((seq.natAbs : Nat) : Int) = seq := by omega
      simpa using this
  · have hpow := Nat.pow_lt_pow_right (a := 2) (by decide) (show 53 < 1024 by decide)
    exact (h.trans_lt hpow).not_ge

theorem idxOf?_append {name rest : Text} (h : colon ∉ name) :
    (name ++ colon :: rest).idxOf? colon = some name.length := by
  induction name with
  | nil => simp [List.idxOf?_cons]
  | cons unit name ih =>
    rw [mem_cons, not_or] at h
    simp [List.idxOf?_cons, Ne.symm h.1, ih h.2]

theorem parseLine_field {name value : Text} (hname : name ≠ []) (hcolon : colon ∉ name)
    (hreturn : value.getLast? ≠ some cr) (fields : FrameFields) :
    parseLine fields (name ++ [colon, space] ++ value) = if name = ascii ['i', 'd'] then
        match parseInt value with
        | some parsed => { fields with seq := some parsed }
        | none => fields
      else if name = ascii ['d', 'a', 't', 'a'] then
        { fields with dataLines := fields.dataLines ++ [value] }
      else fields := by
  have hlast : (name ++ [colon, space] ++ value).getLast? ≠ some cr := by
    cases value with
    | nil =>
      rw [append_nil, List.getLast?_append]
      show (some space).or _ ≠ some cr
      simp [space, cr]
    | cons unit value =>
      rw [List.getLast?_append, Option.or_of_isSome (by simp)]
      exact hreturn
  have hhead : ¬ (name ++ [colon, space] ++ value = [] ∨
      (name ++ [colon, space] ++ value).head? = some colon) := by
    cases name with
    | nil => exact absurd rfl hname
    | cons unit name =>
      rw [mem_cons, not_or] at hcolon
      simp [Ne.symm hcolon.1]
  have hindex : (name ++ [colon, space] ++ value).idxOf? colon = some name.length := by
    rw [append_assoc]
    exact idxOf?_append hcolon
  have htake : (name ++ [colon, space] ++ value).take name.length = name := by
    rw [append_assoc, take_left]
  have hdrop : ∀ extra, (name ++ [colon, space] ++ value).drop (name.length + extra) =
      ([colon, space] ++ value).drop extra := by
    intro extra
    rw [append_assoc, drop_append]
    simp
  unfold parseLine
  simp only [if_neg hlast, if_neg hhead, hindex, htake, hdrop]
  rfl

/-! ## Frames -/

/-- The two lines of an event. -/
def idLine (seq : Int) : Text := ascii ['i', 'd'] ++ [colon, space] ++ decimal seq

def dataLine (json : Text) : Text := ascii ['d', 'a', 't', 'a'] ++ [colon, space] ++ json

/-- The frame of an item, without its delimiter. -/
def StreamItem.frame : StreamItem → Text
  | .event sent => idLine sent.seq ++ [lf] ++ dataLine sent.json
  | .keepAlive => ascii [':', ' ', 'k', 'e', 'e', 'p', '-', 'a', 'l', 'i', 'v', 'e']

theorem StreamItem.text_eq (item : StreamItem) : item.text = item.frame ++ [lf, lf] := by
  cases item with
  | event sent => simp [StreamItem.text, StreamItem.frame, formatSse, idLine, dataLine, ascii, colon, space]
  | keepAlive => rfl

theorem decimal_units (h : unit ∈ decimal seq) : unit = 45 ∨ isDigit unit := by
  unfold decimal at h
  split at h
  · rcases mem_cons.mp h with rfl | h
    · exact .inl rfl
    · exact .inr (isDigit_of_mem (digits_isDigit _) h)
  · exact .inr (isDigit_of_mem (digits_isDigit _) h)

theorem not_mem_decimal (hminus : unit ≠ 45)
    (hdigit : isDigit unit = false) : unit ∉ decimal seq := by
  intro h
  rcases decimal_units h with h | h
  · exact hminus h
  · rw [hdigit] at h
    cases h

theorem lf_not_mem_idLine (seq) : lf ∉ idLine seq := by
  rw [idLine, mem_append, not_or]
  exact ⟨by decide, not_mem_decimal (by decide) (by decide)⟩

/-- JSON without a raw line end: no line feed, and no return as the last unit. -/
structure OneLine (json : Text) : Prop where
  feed : lf ∉ json
  last : json.getLast? ≠ some cr

theorem lf_not_mem_dataLine {json} (h : OneLine json) : lf ∉ dataLine json := by
  rw [dataLine, mem_append, not_or]
  exact ⟨by decide, h.feed⟩

theorem cutAt_delimiter : cutAt [lf, lf] [lf, lf] = some ([], []) := by decide

/-- **An item is one frame.** -/
theorem cutAt_frame {item : StreamItem} (h : ∀ sent, item = .event sent → OneLine sent.json) :
    cutAt [lf, lf] (item.frame ++ [lf, lf]) = some (item.frame, []) := by
  cases item with
  | keepAlive =>
    rw [StreamItem.frame, cutAt_line (by decide), cutAt_delimiter]
    simp
  | event sent =>
    -- the line feed between the two lines is no delimiter
    have hone : ¬ [lf, lf] <+: lf :: (dataLine sent.json ++ [lf, lf]) := by
      intro hfront
      have hsecond := (cons_prefix_cons.mp (cons_prefix_cons.mp hfront).2).1
      exact absurd hsecond (by decide)
    show cutAt [lf, lf] (idLine sent.seq ++ [lf] ++ dataLine sent.json ++ [lf, lf]) = _
    rw [append_assoc, append_assoc, cutAt_line (lf_not_mem_idLine sent.seq),
      singleton_append, cutAt_cons_of_not hone,
      cutAt_line (lf_not_mem_dataLine (h sent rfl)), cutAt_delimiter]
    simp [StreamItem.frame]

/-- The message of an event: its number as a `number`, its JSON. -/
def StreamEvent.message (sent : StreamEvent) : SseMessage :=
  { seq := some (toNumber (sent.seq < 0) sent.seq.natAbs), data := sent.json }

def StreamItem.message : StreamItem → Option SseMessage
  | .event sent => some sent.message
  | .keepAlive => none

theorem parseLine_id (fields) (seq) : parseLine fields (idLine seq) =
      { fields with seq := some (toNumber (seq < 0) seq.natAbs) } := by
  have hlast : (decimal seq).getLast? ≠ some cr := fun hlast =>
    not_mem_decimal (by decide) (by decide) (List.mem_of_getLast? hlast)
  rw [idLine, parseLine_field (by decide) (by decide) hlast, if_pos rfl, parseInt_decimal]

theorem parseLine_data (fields) {json} (h : OneLine json) :
    parseLine fields (dataLine json) = { fields with dataLines := fields.dataLines ++ [json] } := by
  rw [dataLine, parseLine_field (by decide) (by decide) h.last, if_neg (by decide), if_pos rfl]

/-- **A frame parses to its event.** -/
theorem parseFrame_frame {item : StreamItem} (h : ∀ sent, item = .event sent → OneLine sent.json) :
    parseFrame item.frame = item.message := by
  cases item with
  | keepAlive => decide
  | event sent =>
    have hsplit : ([lf].intercalate [idLine sent.seq, dataLine sent.json]).splitOn lf =
        [idLine sent.seq, dataLine sent.json] := by
      refine splitOn_intercalate lf ?_ (cons_ne_nil _ _)
      intro line hline
      rcases mem_cons.mp hline with rfl | hline
      · exact lf_not_mem_idLine sent.seq
      · rw [mem_singleton.mp hline]
        exact lf_not_mem_dataLine (h sent rfl)
    have hlines : (StreamItem.event sent).frame = [lf].intercalate [idLine sent.seq,
        dataLine sent.json] := by
      simp [StreamItem.frame, List.intercalate]
    rw [parseFrame, hlines, hsplit, foldl_cons, foldl_cons, foldl_nil, parseLine_id,
      parseLine_data _ (h sent rfl)]
    show some (SseMessage.mk _ ([lf].intercalate [sent.json])) = some sent.message
    simp [List.intercalate, StreamEvent.message]

theorem SseParser.loop_eq (parser : SseParser) (out) :
    (parser.loop out).2 = out ++
        (drain [lf, lf] (cons_ne_nil lf [lf]) parser.buffer).1.filterMap parseFrame ∧
      (parser.loop out).1.buffer = (drain [lf, lf] (cons_ne_nil lf [lf]) parser.buffer).2 := by
  induction hn : parser.buffer.length using Nat.strongRecOn generalizing parser out with
  | ind n ih =>
    rw [SseParser.loop]
    split
    · rename_i hcut
      rw [drain_of_none hcut]
      simp
    rename_i frame rest hcut
    have hlt := length_lt_of_cutAt (cons_ne_nil lf [lf]) hcut
    rw [drain_of_some hcut]
    split
    · rename_i hparse
      obtain ⟨hout, hbuffer⟩ := ih rest.length (hn ▸ hlt) { parser with buffer := rest } out rfl
      rw [hout, hbuffer, filterMap_cons, hparse]
      exact ⟨rfl, rfl⟩
    · rename_i parsed hparse
      obtain ⟨hout, hbuffer⟩ := ih rest.length (hn ▸ hlt)
        ⟨rest, if parsed.seq.isSome then parsed.seq else parser.lastSeq⟩ (out ++ [parsed]) rfl
      rw [hout, hbuffer, filterMap_cons, hparse, append_assoc]
      exact ⟨rfl, rfl⟩

theorem SseParser.feed_eq (parser : SseParser) (chunk) :
    (parser.feed chunk).2 = (drain [lf, lf] (cons_ne_nil lf [lf])
        (parser.buffer ++ chunk)).1.filterMap parseFrame ∧ (parser.feed chunk).1.buffer =
        (drain [lf, lf] (cons_ne_nil lf [lf]) (parser.buffer ++ chunk)).2 := by
  obtain ⟨hout, hbuffer⟩ := SseParser.loop_eq { parser with buffer := parser.buffer ++ chunk } []
  rw [nil_append] at hout
  exact ⟨hout, hbuffer⟩

/-- **Chunks do not matter**: the messages are those of the whole text. -/
theorem SseParser.feedAll_eq (parser : SseParser) (chunks : List Text)
    (h : cutAt [lf, lf] parser.buffer = none) :
    (parser.feedAll chunks).2 = (drain [lf, lf] (cons_ne_nil lf [lf])
        (parser.buffer ++ chunks.flatten)).1.filterMap parseFrame ∧
      (parser.feedAll chunks).1.buffer =
        (drain [lf, lf] (cons_ne_nil lf [lf]) (parser.buffer ++ chunks.flatten)).2 := by
  induction chunks generalizing parser with
  | nil =>
    rw [flatten_nil, append_nil, drain_of_none h]
    exact ⟨rfl, rfl⟩
  | cons chunk chunks ih =>
    obtain ⟨hfed, hbuffer⟩ := parser.feed_eq chunk
    obtain ⟨hnext, hlast⟩ := ih (parser.feed chunk).1 (by
      rw [hbuffer]
      exact cutAt_drain _)
    rw [hbuffer] at hnext hlast
    rw [flatten_cons, ← append_assoc, drain_append, filterMap_append, ← hfed, ← hnext, ← hlast]
    exact ⟨rfl, rfl⟩

theorem feedAll_items {items : List StreamItem} {chunks : List Text}
    (hitems : ∀ sent, .event sent ∈ items → OneLine sent.json)
    (hchunks : chunks.flatten = items.flatMap (·.text)) :
    (SseParser.new.feedAll chunks).2 = items.filterMap (·.message) ∧
      (SseParser.new.feedAll chunks).1.buffer = [] := by
  have hitem : ∀ item ∈ items, ∀ sent, item = .event sent → OneLine sent.json := by
    rintro item hmem sent rfl
    exact hitems sent hmem
  have htext : items.flatMap (·.text) = (items.map (·.frame)).flatMap (· ++ [lf, lf]) := by
    rw [flatMap_map]
    exact flatMap_congr fun item _ => item.text_eq
  have hdrain : drain [lf, lf] (cons_ne_nil lf [lf])
      ((items.map (·.frame)).flatMap (· ++ [lf, lf])) = (items.map (·.frame), []) := by
    refine drain_frames fun frame hframe => ?_
    obtain ⟨item, hmem, rfl⟩ := mem_map.mp hframe
    exact cutAt_frame (hitem item hmem)
  obtain ⟨hout, hbuffer⟩ := SseParser.new.feedAll_eq chunks (by decide)
  have hempty : SseParser.new.buffer = [] := rfl
  rw [hempty, nil_append, hchunks, htext, hdrain] at hout hbuffer
  refine ⟨hout.trans ?_, hbuffer⟩
  rw [filterMap_map]
  exact filterMap_congr fun item hmem => parseFrame_frame (hitem item hmem)

/-- **What is streamed is what is parsed**, in any chunks: every event with
its JSON and its number, which is the nearest `number` to its id. -/
theorem parse_stream {items : List StreamItem} {chunks : List Text}
    (hitems : ∀ sent, .event sent ∈ items → OneLine sent.json)
    (hchunks : chunks.flatten = items.flatMap (·.text)) :
    (SseParser.new.feedAll chunks).2 = items.filterMap (·.message) ∧
      (SseParser.new.feedAll chunks).1.buffer = [] ∧
      ∀ sent, .event sent ∈ items → sent.seq.natAbs ≤ 2 ^ 53 →
        sent.message = { seq := some (.finite sent.seq), data := sent.json } := by
  obtain ⟨hout, hbuffer⟩ := feedAll_items hitems hchunks
  refine ⟨hout, hbuffer, fun sent _ hseq => ?_⟩
  rw [StreamEvent.message, toNumber_of_le hseq]

/-- Two events and a comment. -/
def shortStream : List StreamItem :=
  [.event ⟨42, ascii ['{', '}']⟩, .keepAlive, .event ⟨43, ascii ['[', ']']⟩]

/-- Their text, cut inside numbers, names and delimiters. -/
def shortChunks : List Text :=
  [ascii ['i', 'd', ':', ' ', '4'], ascii ['2', '\n', 'd', 'a'],
    ascii ['t', 'a', ':', ' ', '{', '}', '\n'], ascii ['\n', ':'],
    ascii [' ', 'k', 'e', 'e', 'p', '-', 'a', 'l', 'i', 'v', 'e', '\n', '\n', 'i'],
    ascii ['d', ':', ' ', '4', '3', '\n', 'd', 'a', 't', 'a', ':', ' ', '[', ']', '\n', '\n']]

theorem parse_stream_shortChunks : (SseParser.new.feedAll shortChunks).2 =
    [⟨some (.finite 42), ascii ['{', '}']⟩, ⟨some (.finite 43), ascii ['[', ']']⟩] := by
  have hitems : ∀ sent, .event sent ∈ shortStream → OneLine sent.json := by
    intro sent hsent
    simp only [shortStream, mem_cons, StreamItem.event.injEq, reduceCtorEq, not_mem_nil,
      or_false, false_or] at hsent
    rcases hsent with rfl | rfl <;> exact ⟨by decide, by decide⟩
  have hchunks : shortChunks.flatten = shortStream.flatMap (·.text) := by decide +kernel
  rw [(parse_stream hitems hchunks).1]
  decide +kernel

/-- An id that no `number` holds comes out as another id. -/
theorem parse_stream_rounds : (SseParser.new.feedAll [formatSse ⟨2 ^ 53 + 1, ascii ['{', '}']⟩]).2 =
      [⟨some (.finite (2 ^ 53)), ascii ['{', '}']⟩] := by
  decide +kernel

/-! ## Where a client resumes -/

/-- The number after the messages. -/
def resumesFrom (messages : List SseMessage) (lastSeq : Option JsInteger) : Option JsInteger :=
  messages.foldl (fun lastSeq message => message.seq.or lastSeq) lastSeq

theorem SseParser.loop_lastSeq (parser : SseParser) (out) : ∃ messages,
    (parser.loop out).2 = out ++ messages ∧
      (parser.loop out).1.lastSeq = resumesFrom messages parser.lastSeq := by
  induction parser, out using SseParser.loop.induct with
  | case1 =>
    rw [loop]
    split
    · exact ⟨[], (append_nil _).symm, rfl⟩
    · simp_all
  | case2 =>
    rw [loop]
    split <;> simp_all
  | case3 parser out frame rest hcut hlt parsed hparse ih =>
    obtain ⟨messages, hout, hlast⟩ := ih
    refine ⟨parsed :: messages, ?_⟩
    rw [loop]
    split
    · simp_all
    rw [append_assoc] at hout
    cases hseq : parsed.seq <;> simp_all [resumesFrom]

theorem SseParser.feedAll_lastSeq (parser : SseParser) (chunks) :
    (parser.feedAll chunks).1.lastSeq = resumesFrom (parser.feedAll chunks).2 parser.lastSeq := by
  induction chunks generalizing parser with
  | nil => rfl
  | cons chunk chunks ih =>
    obtain ⟨messages, hout, hlast⟩ :=
      SseParser.loop_lastSeq { parser with buffer := parser.buffer ++ chunk } []
    rw [nil_append] at hout
    show ((parser.feed chunk).1.feedAll chunks).1.lastSeq = resumesFrom (_ ++ _) _
    rw [resumesFrom, foldl_append, ih, feed, hlast, hout]
    rfl

/-- **Any text in any chunks** gives the messages and the parser of the whole text, which resumes
from the last number in the messages. -/
theorem chunks_do_not_matter (chunks : List Text) :
    SseParser.new.feedAll chunks = SseParser.new.feedAll [chunks.flatten] ∧
      (SseParser.new.feedAll chunks).1.lastSeq =
        resumesFrom (SseParser.new.feedAll chunks).2 none := by
  obtain ⟨hout, hbuffer⟩ := SseParser.new.feedAll_eq chunks (by decide)
  obtain ⟨hwhole, hrest⟩ := SseParser.new.feedAll_eq [chunks.flatten] (by decide)
  rw [flatten_singleton] at hwhole hrest
  have hlast := SseParser.new.feedAll_lastSeq chunks
  refine ⟨Prod.ext ?_ (hout.trans hwhole.symm), hlast⟩
  have hseq := SseParser.new.feedAll_lastSeq [chunks.flatten]
  rw [hwhole, ← hout, ← hlast] at hseq
  exact SseParser.mk.injEq .. ▸ ⟨hbuffer.trans hrest.symm, hseq.symm⟩

end StudioOS.Sse
