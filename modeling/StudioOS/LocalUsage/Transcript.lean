import StudioOS.Library.Framing

/-!
# Transcript — the lines of a file that is still being written

A session transcript grows at its end. `read_appended_lines` reads a bounded
window behind the stored offset and takes of it what ends in a newline; the
rest waits for the next scan.
-/

namespace StudioOS.LocalUsage

open List Framing

abbrev Bytes := List UInt8

def newline : UInt8 := 10

def carriageReturn : UInt8 := 13

def maxAppendBytes : Nat := 8 * 1024 * 1024

/-- The bytes `bytes.strip` strips. -/
def spaceBytes : Bytes := [9, 10, 11, 12, 13, 32]

/-- `data.rfind(byte)`, `none` for `-1`. -/
def rfind (byte : UInt8) (data : Bytes) : Option Nat :=
  if byte ∈ data then some (data.length - 1 - data.reverse.idxOf byte) else none

/-- `data.splitlines()`: a line ends at `\n`, `\r` or `\r\n`. `line` is what the
current line has so far; behind a `\r` a `\n` belongs to the same line break. -/
def splitlines (line : Bytes) (afterReturn : Bool) : Bytes → List Bytes
  | [] => if line = [] then [] else [line]
  | byte :: rest =>
    if byte = newline then
      if afterReturn then splitlines [] false rest else line :: splitlines [] false rest
    else if byte = carriageReturn then line :: splitlines [] true rest
    else splitlines (line ++ [byte]) false rest

/-- The lines that are not blank. -/
def textLines (data : Bytes) : List Bytes :=
  (splitlines [] false data).filter fun line => line.any fun byte => byte ∉ spaceBytes

/-- `read_appended_lines`; `content` is `none` when the file cannot be read. -/
def readAppendedLines (decode : Bytes → String) (content : Option Bytes) (offset : Nat) :
    Nat × List String :=
  match content with
  | none => (offset, [])
  | some file =>
    let data := (file.drop offset).take maxAppendBytes
    match rfind newline data with
    | none => (offset, [])
    | some last =>
      let consumed := data.take (last + 1)
      (offset + consumed.length, (textLines consumed).map decode)

/-! ## Complete lines -/

private theorem newline_ne_nil : [newline] ≠ [] := cons_ne_nil _ _

/-- The complete lines, each without its newline. -/
def frames (data : Bytes) : List Bytes := (drain [newline] newline_ne_nil data).1

/-- What stands behind the last newline. -/
def pending (data : Bytes) : Bytes := (drain [newline] newline_ne_nil data).2

/-- Everything up to the last newline. -/
def completed (data : Bytes) : Bytes := (frames data).flatMap (· ++ [newline])

/-- The data ends where a line ends. -/
def Whole (data : Bytes) : Prop := pending data = []

theorem completed_append_pending (data) : completed data ++ pending data = data := eq_of_drain data

theorem newline_not_mem_pending (data) : newline ∉ pending data :=
  cutAt_eq_none_iff.mp (cutAt_drain data)

variable {data frame : Bytes} {byte : UInt8}

theorem drain_of_not_mem (h : newline ∉ data) : drain [newline] newline_ne_nil data = ([], data) :=
  drain_of_none (cutAt_eq_none_iff.mpr h)

theorem completed_front (data) : completed data <+: data :=
  ⟨pending data, completed_append_pending data⟩

theorem completed_length_le (data) : (completed data).length ≤ data.length :=
  (completed_front data).length_le

theorem whole_nil : Whole [] := congrArg Prod.snd (drain_of_not_mem not_mem_nil)

theorem Whole.completed_eq (h : Whole data) : completed data = data := by
  have hsplit := completed_append_pending data
  rw [show pending data = [] from h] at hsplit
  simpa using hsplit

section Append

variable {first : Bytes} (hfirst : Whole first) (second : Bytes)

include hfirst

theorem drain_append_whole : drain [newline] newline_ne_nil (first ++ second) =
      (frames first ++ frames second, pending second) := by
  have h := @drain_append _ _ [newline] newline_ne_nil first second
  rw [show (drain [newline] newline_ne_nil first).2 = [] from hfirst] at h
  exact h

/-- **Complete lines piece by piece.** -/
theorem frames_append : frames (first ++ second) = frames first ++ frames second := by
  rw [frames, drain_append_whole hfirst second]

theorem pending_append : pending (first ++ second) = pending second := by
  rw [pending, drain_append_whole hfirst second]

theorem completed_append : completed (first ++ second) = first ++ completed second := by
  rw [completed, frames_append hfirst second, flatMap_append]
  exact congrArg (· ++ completed second) hfirst.completed_eq

theorem Whole.append (hsecond : Whole second) : Whole (first ++ second) :=
  (pending_append hfirst second).trans hsecond

end Append

theorem whole_completed (data) : Whole (completed data) := by
  -- no newline stands in what the two pieces leave pending
  have h := @drain_append _ _ [newline] newline_ne_nil (completed data) (pending data)
  have hnot : newline ∉ pending (completed data) ++ pending data := by
    simp [newline_not_mem_pending]
  rw [completed_append_pending] at h
  have hpending := congrArg Prod.snd h
  dsimp only at hpending
  rw [show (drain [newline] newline_ne_nil (completed data)).2 = pending (completed data) from rfl,
    drain_of_not_mem hnot] at hpending
  have hlength := congrArg List.length hpending
  rw [show (drain [newline] newline_ne_nil data).2 = pending data from rfl,
    length_append] at hlength
  exact length_eq_zero_iff.mp (by omega)

theorem whole_append_newline (line) : Whole (line ++ [newline]) := by
  have hsplit := completed_append_pending (line ++ [newline])
  rcases eq_nil_or_concat (pending (line ++ [newline])) with hnil | ⟨before, last, hlast⟩
  · exact hnil
  -- the last byte of what is pending would be the newline
  rw [hlast, concat_eq_append, ← append_assoc] at hsplit
  have hnewline := append_inj_right' hsplit rfl
  have hmem := newline_not_mem_pending (line ++ [newline])
  rw [hlast, concat_eq_append, hnewline] at hmem
  simp at hmem

theorem frames_completed (data) : frames (completed data) = frames data := by
  have h := frames_append (whole_completed data) (pending data)
  rw [completed_append_pending] at h
  rw [h, frames, frames, drain_of_not_mem (newline_not_mem_pending data)]
  simp

theorem mem_completed_of_mem (h : newline ∈ data) : completed data ≠ [] := by
  intro hnil
  have hsplit := completed_append_pending data
  rw [hnil, nil_append] at hsplit
  exact newline_not_mem_pending data (hsplit.symm ▸ h)

theorem frame_length_lt (h : frame ∈ frames data) : frame.length < data.length := by
  obtain ⟨before, behind, heq⟩ := append_of_mem h
  have hle := completed_length_le data
  rw [completed, heq] at hle
  simp only [flatMap_append, flatMap_cons, length_append, length_cons, length_nil] at hle
  omega

theorem Whole.eq_nil_or_newline (h : Whole data) :
    data = [] ∨ ∃ line, data = line ++ [newline] := by
  rw [← h.completed_eq, completed]
  rcases eq_nil_or_concat (frames data) with hnil | ⟨before, last, hlast⟩
  · simp [hnil]
  · right
    exact ⟨before.flatMap (· ++ [newline]) ++ last, by simp [hlast]⟩

theorem splitlines_append (line : Bytes) (afterReturn : Bool) (first second : Bytes) :
    splitlines line afterReturn (first ++ newline :: second) =
      splitlines line afterReturn (first ++ [newline]) ++ splitlines [] false second := by
  induction first generalizing line afterReturn with
  | nil => cases afterReturn <;> simp [splitlines]
  | cons byte first ih =>
    simp only [cons_append, splitlines, ih]
    split_ifs <;> rfl

/-- **Text lines piece by piece.** -/
theorem textLines_append {first} (hfirst : Whole first) (second : Bytes) :
    textLines (first ++ second) = textLines first ++ textLines second := by
  rcases hfirst.eq_nil_or_newline with rfl | ⟨line, rfl⟩
  · rfl
  · rw [textLines, append_assoc, singleton_append, splitlines_append, filter_append]
    rfl

/-- The bytes one scan reads. -/
def window (file : Bytes) (offset : Nat) : Bytes := (file.drop offset).take maxAppendBytes

theorem rfind_eq_none (h : byte ∉ data) : rfind byte data = none := if_neg h

theorem rfind_append {behind} (h : byte ∉ behind) (line) :
    rfind byte (line ++ [byte] ++ behind) = some line.length := by
  have hidx : (line ++ [byte] ++ behind).reverse.idxOf byte = behind.length := by
    rw [reverse_append, reverse_append, idxOf_append, if_neg (by simpa using h)]
    simp
  rw [rfind, if_pos (by simp), hidx]
  simp only [length_append, length_cons, length_nil, Option.some.injEq]
  omega

theorem readAppendedLines_some (decode) (file) (offset) :
    readAppendedLines decode (some file) offset = (offset + (completed (window file offset)).length,
        (textLines (completed (window file offset))).map decode) := by
  have hsplit := completed_append_pending (window file offset)
  have hpending := newline_not_mem_pending (window file offset)
  simp only [readAppendedLines]
  rw [show (file.drop offset).take maxAppendBytes = window file offset from rfl]
  rcases (whole_completed (window file offset)).eq_nil_or_newline with hnil | ⟨line, hline⟩
  · rw [hnil, nil_append] at hsplit
    rw [rfind_eq_none (hsplit ▸ hpending), hnil]
    rfl
  have hfind : rfind newline (window file offset) = some line.length := by
    rw [← hsplit, hline]
    exact rfind_append hpending line
  have htake : (window file offset).take (line.length + 1) = completed (window file offset) := by
    conv_lhs => rw [← hsplit, hline]
    rw [hline]
    exact take_left' (by simp)
  rw [hfind]
  simp [htake]

section Window

variable {file : Bytes} {offset : Nat}

theorem take_window : file.take (offset + (completed (window file offset)).length) =
      file.take offset ++ completed (window file offset) := by
  have hprefix : completed (window file offset) <+: file.drop offset :=
    (completed_front _).trans ( take_prefix _ _)
  rw [take_add, prefix_iff_eq_take.mp hprefix]
  simp

theorem window_le (h : offset ≤ file.length) :
    offset + (completed (window file offset)).length ≤ file.length := by
  have hle := completed_length_le (window file offset)
  have hwindow : (window file offset).length ≤ (file.drop offset).length := length_take_le' _ _
  rw [length_drop] at hwindow
  omega

theorem frame_lt_of_window (h : frame ∈ frames (window file offset)) :
    frame.length < maxAppendBytes :=
  Nat.lt_of_lt_of_le (frame_length_lt h) (length_take_le _ _)

/-- **A read takes something** while complete lines stand behind the offset and the
next one fits into the window. -/
theorem completed_window_ne_nil (hwhole : Whole (file.take offset))
    (hlt : offset < (completed file).length)
    (hfits : ∀ frame ∈ frames file, frame.length < maxAppendBytes) :
    completed (window file offset) ≠ [] := by
  have hfile := completed_append hwhole (file.drop offset)
  have hframes := frames_append hwhole (file.drop offset)
  rw [take_append_drop] at hfile hframes
  cases hdrop : frames (file.drop offset) with
  | nil =>
    have hrest : completed (file.drop offset) = [] := by rw [completed, hdrop]; rfl
    have hlength := congrArg List.length hfile
    rw [hrest, append_nil] at hlength
    have htake := length_take_le offset file
    omega
  | cons frame rest =>
    have hframe : frame.length < maxAppendBytes := by
      apply hfits
      rw [hframes, hdrop]
      simp
    have hstart : frame ++ [newline] <+: file.drop offset := by
      refine List.IsPrefix.trans ?_ (completed_front _)
      rw [completed, hdrop, flatMap_cons]
      exact prefix_append _ _
    have hwindow : frame ++ [newline] <+: window file offset := by
      rw [window, prefix_take_iff]
      refine ⟨hstart, ?_⟩
      rw [length_append]
      exact hframe
    exact mem_completed_of_mem (hwindow.subset (by simp))

end Window

end StudioOS.LocalUsage
