import Mathlib.Data.List.DropRight

/-!
# Words — a text between its blanks

The words of a text are the runs of characters that are not blank. Blanks at
its ends do not change them (`words_trim`), and a blank between two texts
parts their words (`words_append_cons`).
-/

namespace Words

open List

variable {α : Type*} (blank : α → Bool)

def words (text : List α) : List (List α) :=
  (text.splitOnP blank).filter fun word => !word.isEmpty

/-- The text without blanks at its ends. -/
def trim (text : List α) : List α := (text.dropWhile blank).rdropWhile blank

variable {blank}

theorem trim_subset (text) : trim blank text ⊆ text :=
  (( rdropWhile_prefix _ _).sublist.trans (dropWhile_sublist _)).subset

variable {sep : α} {text piece : List α} {c : α} {word : List α}

theorem not_mem_of_mem_splitOn [DecidableEq α] (h : piece ∈ text.splitOn sep) : sep ∉ piece := by
  induction text generalizing piece with
  | nil =>
    rw [splitOn_nil, mem_singleton] at h
    simp [h]
  | cons c rest ih =>
    rw [splitOn_cons_eq_if_modifyHead] at h
    by_cases hc : (c == sep) = true
    · rw [if_pos hc] at h
      rcases mem_cons.1 h with rfl | h
      · simp
      · exact ih h
    obtain ⟨first, others, hsplit⟩ := exists_cons_of_ne_nil (splitOn_ne_nil sep rest)
    rw [hsplit] at ih
    rw [if_neg hc, hsplit, modifyHead_cons] at h
    rcases mem_cons.1 h with rfl | h
    · have hfirst := ih mem_cons_self
      have hne : sep ≠ c := by
        rintro rfl
        simp at hc
      simp [hne, hfirst]
    · exact ih (.tail _ h)

theorem mem_of_mem_splitOn [DecidableEq α]
    (h : piece ∈ text.splitOn sep) (hc : c ∈ piece) : c ∈ text := by
  induction text generalizing piece with
  | nil =>
    rw [splitOn_nil, mem_singleton] at h
    rwa [h] at hc
  | cons d rest ih =>
    rw [splitOn_cons_eq_if_modifyHead] at h
    by_cases hd : (d == sep) = true
    · rw [if_pos hd] at h
      rcases mem_cons.1 h with rfl | h
      · cases hc
      · exact .tail _ (ih h hc)
    obtain ⟨first, others, hsplit⟩ := exists_cons_of_ne_nil (splitOn_ne_nil sep rest)
    rw [hsplit] at ih
    rw [if_neg hd, hsplit, modifyHead_cons] at h
    rcases mem_cons.1 h with rfl | h
    · rcases mem_cons.1 hc with rfl | hc
      · exact mem_cons_self
      · exact .tail _ (ih mem_cons_self hc)
    · exact .tail _ (ih (.tail _ h) hc)

theorem words_congr {other} (h : ∀ c ∈ text, blank c = other c) :
    words blank text = words other text := by
  have hsplit : text.splitOnP blank = text.splitOnP other := by
    induction text with
    | nil => rfl
    | cons c rest ih =>
      rw [splitOnP_cons_eq_if_modifyHead, splitOnP_cons_eq_if_modifyHead,
        ih fun d hd => h d (.tail _ hd), h c mem_cons_self]
  rw [words, words, hsplit]

@[simp] theorem words_nil : words blank ([] : List α) = [] := by simp [words]

theorem words_append_cons (front back) (hsep : blank sep = true) :
    words blank (front ++ sep :: back) = words blank front ++ words blank back := by
  rw [words, splitOnP_append_cons front back hsep, filter_append]
  rfl

theorem words_cons_blank (hsep : blank sep = true) (back) :
    words blank (sep :: back) = words blank back := by
  have happend := words_append_cons [] back hsep
  rwa [words_nil, nil_append, nil_append] at happend

theorem words_of_forall (h : ∀ c ∈ word, blank c = false) (hne : word ≠ []) :
    words blank word = [word] := by
  rw [words, splitOnP_eq_singleton h]
  simp [hne]

theorem words_cons_ne_nil (hc : blank c = false) (rest) : words blank (c :: rest) ≠ [] := by
  obtain ⟨first, others, hsplit⟩ := exists_cons_of_ne_nil (splitOnP_ne_nil blank rest)
  simp [words, splitOnP_cons_eq_if_modifyHead, hc, hsplit]

theorem words_dropWhile (text) : words blank (text.dropWhile blank) = words blank text := by
  induction text with
  | nil => rfl
  | cons c rest ih =>
    by_cases hc : blank c = true
    · rw [dropWhile_cons_of_pos hc, ih, words_cons_blank hc]
    · rw [dropWhile_cons_of_neg hc]

theorem words_rdropWhile (text) : words blank (text.rdropWhile blank) = words blank text := by
  induction text using List.reverseRecOn with
  | nil => rfl
  | append_singleton front c ih =>
    by_cases hc : blank c = true
    · rw [rdropWhile_concat_pos _ _ _ hc, ih, words_append_cons front [] hc, words_nil, append_nil]
    · rw [rdropWhile_concat_neg _ _ _ hc]

@[simp] theorem words_trim (text) : words blank (trim blank text) = words blank text := by
  rw [trim, words_rdropWhile, words_dropWhile]

theorem trim_eq_nil_iff : trim blank text = [] ↔ words blank text = [] := by
  constructor
  · intro h
    rw [← words_trim, h, words_nil]
  intro h
  rw [trim, rdropWhile_eq_nil_iff]
  cases hrest : text.dropWhile blank with
  | nil => simp
  | cons c rest =>
    have hc : ¬blank c = true := by
      have hhead := head_dropWhile_not blank (l := text) (by simp [hrest])
      simpa [hrest] using hhead
    rw [← words_dropWhile, hrest] at h
    exact absurd h (words_cons_ne_nil (by simpa using hc) rest)

def Trimmed (blank : α → Bool) (text : List α) : Prop :=
  (∀ c ∈ text.head?, blank c = false) ∧ ∀ c ∈ text.getLast?, blank c = false

theorem Trimmed.trim_eq (h : Trimmed blank text) : trim blank text = text := by
  have hfront : text.dropWhile blank = text := by
    cases text with
    | nil => rfl
    | cons c rest => rw [dropWhile_cons_of_neg (by simp [h.1 c rfl])]
  rw [trim, hfront, rdropWhile_eq_self_iff]
  intro hne
  rw [h.2 _ (List.getLast?_eq_some_getLast hne)]
  exact Bool.false_ne_true

theorem trimmed_trim (text) : Trimmed blank (trim blank text) := by
  constructor
  · intro c hc
    -- The first character is that of the text without its leading blanks.
    obtain ⟨back, hback⟩ := rdropWhile_prefix blank (text.dropWhile blank)
    have hhead : (text.dropWhile blank).head? = some c := by
      rw [← hback, List.head?_append]
      rw [trim] at hc
      rw [hc]
      rfl
    have hnot := List.head?_dropWhile_not blank text
    rw [hhead] at hnot
    exact hnot
  · intro c hc
    have hne : trim blank text ≠ [] := by
      intro hnil
      rw [hnil] at hc
      cases hc
    rw [List.getLast?_eq_some_getLast hne, Option.mem_def, Option.some.injEq] at hc
    rw [← hc]
    have hlast := rdropWhile_last_not blank (text.dropWhile blank) hne
    rw [Bool.not_eq_true] at hlast
    exact hlast

theorem Trimmed.append_cons {front back} (hfront : Trimmed blank front) (hback : Trimmed blank back)
    (hne : front ≠ []) (hne' : back ≠ []) (sep) :
    Trimmed blank (front ++ sep :: back) := by
  obtain ⟨c, rest, rfl⟩ := exists_cons_of_ne_nil hne
  constructor
  · intro d hd
    exact hfront.1 d hd
  · intro d hd
    rw [List.getLast?_append_of_ne_nil _ (by simp), List.getLast?_cons_of_ne_nil hne'] at hd
    exact hback.2 d hd

theorem trimmed_of_forall (h : ∀ c ∈ word, blank c = false) : Trimmed blank word :=
  ⟨fun c hc => h c (List.mem_of_mem_head? hc), fun c hc => h c (List.mem_of_mem_getLast? hc)⟩

end Words
