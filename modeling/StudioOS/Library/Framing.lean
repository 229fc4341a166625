import Mathlib.Data.List.Infix

/-!
# Framing — a stream cut into frames

A stream is read in chunks of any size and cut into frames at a DELIMITER.
`cutAt` takes the first frame off a buffer, `drain` all of them, and what is
left waits for the next chunk.
-/

namespace Framing

open List Option

variable {α : Type*} [DecidableEq α] {delimiter : List α}

/-- The first frame of a buffer and what follows its delimiter. -/
def cutAt (delimiter : List α) : List α → Option (List α × List α)
  | [] => if delimiter <+: [] then some ([], []) else none
  | a :: rest =>
    if delimiter <+: a :: rest then some ([], (a :: rest).drop delimiter.length)
    else (cutAt delimiter rest).map fun cut => (a :: cut.1, cut.2)

variable {a : α} {rest frame : List α} {mark : α} {marks : List α}

theorem cutAt_cons_of_not (h : ¬ delimiter <+: a :: rest) : cutAt delimiter (a :: rest) =
      (cutAt delimiter rest).map fun cut => (a :: cut.1, cut.2) :=
  if_neg h

theorem eq_of_cutAt {buffer} (h : cutAt delimiter buffer = some (frame, rest)) :
    buffer = frame ++ delimiter ++ rest := by
  induction buffer generalizing frame with
  | nil =>
    simp only [cutAt] at h
    split at h
    · rename_i hfront
      obtain ⟨rfl, rfl⟩ := Prod.mk.inj (some.inj h)
      simpa using hfront
    · cases h
  | cons a buffer ih =>
    simp only [cutAt] at h
    split at h
    · rename_i hfront
      obtain ⟨rfl, rfl⟩ := Prod.mk.inj (some.inj h)
      exact (prefix_append_drop hfront)
    · obtain ⟨⟨frame', rest'⟩, hcut, heq⟩ := map_eq_some_iff.mp h
      obtain ⟨rfl, rfl⟩ := Prod.mk.inj heq
      rw [ih hcut]
      rfl

theorem length_lt_of_cutAt (hdelimiter : delimiter ≠ []) {buffer}
    (h : cutAt delimiter buffer = some (frame, rest)) : rest.length < buffer.length := by
  have hpos := length_pos_iff.mpr hdelimiter
  rw [eq_of_cutAt h]
  simp only [length_append]
  omega

/-- **A complete frame stays what it is**, whatever arrives behind it. -/
theorem cutAt_append {buffer} (h : cutAt delimiter buffer = some (frame, rest))
    (more : List α) : cutAt delimiter (buffer ++ more) = some (frame, rest ++ more) := by
  induction buffer generalizing frame with
  | nil =>
    simp only [cutAt] at h
    split at h
    · rename_i hfront
      obtain ⟨rfl, rfl⟩ := Prod.mk.inj (some.inj h)
      obtain rfl := prefix_nil.mp hfront
      cases more <;> simp [cutAt]
    · cases h
  | cons a buffer ih =>
    by_cases hfront : delimiter <+: a :: buffer
    · simp only [cutAt, if_pos hfront] at h
      obtain ⟨rfl, rfl⟩ := Prod.mk.inj (some.inj h)
      have hmore : delimiter <+: a :: (buffer ++ more) :=
        hfront.trans (prefix_append (a :: buffer) more)
      show cutAt delimiter (a :: (buffer ++ more)) = _
      rw [cutAt, if_pos hmore, ← cons_append, drop_append_of_le_length hfront.length_le]
    have hcut := h
    rw [cutAt_cons_of_not hfront] at h
    obtain ⟨⟨frame', rest'⟩, hrest, heq⟩ := map_eq_some_iff.mp h
    obtain ⟨rfl, rfl⟩ := Prod.mk.inj heq
    -- the buffer is long enough to tell that no delimiter starts here
    have hlength : delimiter.length ≤ (a :: buffer).length := by
      have := congrArg List.length (eq_of_cutAt hcut)
      simp only [length_append] at this
      omega
    have hmore : ¬ delimiter <+: a :: (buffer ++ more) := fun hstarts =>
      hfront (prefix_of_prefix_length_le hstarts (prefix_append (a :: buffer) more) hlength)
    show cutAt delimiter (a :: (buffer ++ more)) = _
    rw [cutAt_cons_of_not hmore, ih hrest]
    rfl

/-- Every complete frame of a buffer, and what is left. -/
def drain (delimiter : List α) (hdelimiter : delimiter ≠ []) (buffer : List α) :
    List (List α) × List α :=
  match h : cutAt delimiter buffer with
  | none => ([], buffer)
  | some (frame, rest) =>
    have := length_lt_of_cutAt hdelimiter h
    let drained := drain delimiter hdelimiter rest
    (frame :: drained.1, drained.2)
termination_by buffer.length

section Drain

variable {hdelimiter : delimiter ≠ []} {buffer : List α}

theorem drain_of_none (h : cutAt delimiter buffer = none) :
    drain delimiter hdelimiter buffer = ([], buffer) := by
  rw [drain]
  split
  · rfl
  · rename_i hcut
    rw [h] at hcut
    cases hcut

theorem drain_of_some (h : cutAt delimiter buffer = some (frame, rest)) :
    drain delimiter hdelimiter buffer =
      (frame :: (drain delimiter hdelimiter rest).1, (drain delimiter hdelimiter rest).2) := by
  rw [drain]
  split
  · rename_i hcut
    rw [h] at hcut
    cases hcut
  · rename_i hcut
    obtain ⟨rfl, rfl⟩ := Prod.mk.inj (some.inj (h.symm.trans hcut))
    rfl

theorem cutAt_drain (buffer) : cutAt delimiter (drain delimiter hdelimiter buffer).2 = none := by
  induction hn : buffer.length using Nat.strongRecOn generalizing buffer with
  | ind n ih =>
    cases hcut : cutAt delimiter buffer with
    | none =>
      rw [drain_of_none hcut]
      exact hcut
    | some cut =>
      rw [drain_of_some hcut]
      exact ih _ (hn ▸ length_lt_of_cutAt hdelimiter hcut) cut.2 rfl

theorem eq_of_drain (buffer) :
    (drain delimiter hdelimiter buffer).1.flatMap (· ++ delimiter) ++
      (drain delimiter hdelimiter buffer).2 = buffer := by
  induction hn : buffer.length using Nat.strongRecOn generalizing buffer with
  | ind n ih =>
    cases hcut : cutAt delimiter buffer with
    | none =>
      rw [drain_of_none hcut]
      rfl
    | some cut =>
      have hrest := ih _ (hn ▸ length_lt_of_cutAt hdelimiter hcut) cut.2 rfl
      rw [drain_of_some hcut, flatMap_cons, append_assoc, hrest, ← eq_of_cutAt hcut]

/-- **Draining a buffer and then what arrives behind it.** -/
theorem drain_append (buffer more : List α) : drain delimiter hdelimiter (buffer ++ more) =
      ((drain delimiter hdelimiter buffer).1 ++
          (drain delimiter hdelimiter ((drain delimiter hdelimiter buffer).2 ++ more)).1,
        (drain delimiter hdelimiter ((drain delimiter hdelimiter buffer).2 ++ more)).2) := by
  induction hn : buffer.length using Nat.strongRecOn generalizing buffer with
  | ind n ih =>
    cases hcut : cutAt delimiter buffer with
    | none =>
      rw [drain_of_none hcut]
      rfl
    | some cut =>
      have hrest := ih _ (hn ▸ length_lt_of_cutAt hdelimiter hcut) cut.2 rfl
      rw [drain_of_some hcut, drain_of_some (cutAt_append hcut more), hrest]
      rfl

theorem drain_frames {frames}
    (h : ∀ frame ∈ frames, cutAt delimiter (frame ++ delimiter) = some (frame, [])) :
    drain delimiter hdelimiter (frames.flatMap (· ++ delimiter)) = (frames, []) := by
  induction frames with
  | nil =>
    refine drain_of_none ?_
    exact if_neg fun hfront => hdelimiter (prefix_nil.mp hfront)
  | cons frame frames ih =>
    have hcut := cutAt_append (h frame mem_cons_self) (frames.flatMap (· ++ delimiter))
    rw [flatMap_cons, drain_of_some hcut, nil_append,
      ih fun other hother => h other (.tail _ hother)]

end Drain

theorem cutAt_cons_of_ne (h : a ≠ mark) : cutAt (mark :: marks) (a :: rest) =
      (cutAt (mark :: marks) rest).map fun cut => (a :: cut.1, cut.2) := by
  refine cutAt_cons_of_not fun hfront => h ?_
  exact (cons_prefix_cons.mp hfront).1.symm

theorem cutAt_line {line} (h : mark ∉ line) : cutAt (mark :: marks) (line ++ rest) =
      (cutAt (mark :: marks) rest).map fun cut => (line ++ cut.1, cut.2) := by
  induction line with
  | nil => simp
  | cons a line ih =>
    rw [mem_cons, not_or] at h
    obtain ⟨hne, hline⟩ := h
    rw [cons_append, cutAt_cons_of_ne (Ne.symm hne), ih hline, Option.map_map]
    rfl

theorem cutAt_eq_none_iff {buffer} : cutAt [mark] buffer = none ↔ mark ∉ buffer := by
  induction buffer with
  | nil => simp [cutAt]
  | cons a buffer ih =>
    by_cases ha : a = mark
    · subst ha
      simp [cutAt]
    · rw [cutAt_cons_of_ne ha, map_eq_none_iff, ih, mem_cons, not_or]
      exact ⟨fun h => ⟨Ne.symm ha, h⟩, And.right⟩

end Framing
