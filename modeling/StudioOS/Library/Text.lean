import Mathlib.Data.List.Basic

/-!
# Text — blanks and lines of a text

The operations of Python's `str` that look at white space.
-/

namespace Text

open List

variable {text : List Char}

instance lawfulText : LawfulBEq (List Char) := List.instLawfulBEq

/-- `str.isspace` of one character: what `strip` takes and `\s` matches. -/
def isSpace (c : Char) : Bool :=
  let n := c.toNat
  (9 ≤ n && n ≤ 13) || (28 ≤ n && n ≤ 32) || n == 0x85 || n == 0xa0 || n == 0x1680 ||
    (0x2000 ≤ n && n ≤ 0x200a) || n == 0x2028 || n == 0x2029 || n == 0x202f || n == 0x205f ||
    n == 0x3000

def strip (text : List Char) : List Char :=
  ((text.dropWhile isSpace).reverse.dropWhile isSpace).reverse

/-- What ends a line for `str.splitlines`. -/
def isLineBoundary (c : Char) : Bool :=
  let n := c.toNat
  (10 ≤ n && n ≤ 13) || (28 ≤ n && n ≤ 30) || n == 0x85 || n == 0x2028 || n == 0x2029

/-- `text.splitlines()`, behind `line`, what the current line has so far. -/
def splitlinesFrom (line : List Char) : List Char → List (List Char)
  | [] => if line.isEmpty then [] else [line]
  | '\r' :: '\n' :: rest => line :: splitlinesFrom [] rest
  | c :: rest =>
    if isLineBoundary c then line :: splitlinesFrom [] rest
    else splitlinesFrom (line ++ [c]) rest

def splitlines (text : List Char) : List (List Char) := splitlinesFrom [] text

/-- `old in text`. -/
def contains (old text : List Char) : Bool :=
  old.isPrefixOf text ||
    match text with
    | [] => false
    | _ :: rest => contains old rest

/-- A text without a break. -/
def Unbroken (text : List Char) : Prop := ∀ c ∈ text, isLineBoundary c = false

/-- A text without blanks at its ends. -/
def Trimmed (text : List Char) : Prop := strip text = text

instance (text : List Char) : Decidable (Unbroken text) :=
  decidable_of_iff ((text.all fun c => !isLineBoundary c) = true) (by simp [Unbroken])

instance (text : List Char) : Decidable (Trimmed text) :=
  inferInstanceAs (Decidable (strip text = text))

theorem Unbroken.append {first second} (hfirst : Unbroken first)
    (hsecond : Unbroken second) : Unbroken (first ++ second) := by
  intro c hc
  rcases mem_append.mp hc with hc | hc
  · exact hfirst c hc
  · exact hsecond c hc

theorem isSpace_of_isLineBoundary {c} (h : isLineBoundary c = true) : isSpace c = true := by
  simp only [isLineBoundary, isSpace, Bool.or_eq_true, Bool.and_eq_true, decide_eq_true_eq,
    beq_iff_eq] at h ⊢
  omega

theorem unbroken_of_forall (h : ∀ c ∈ text, isSpace c = false) : Unbroken text := by
  intro c hc
  cases hbreak : isLineBoundary c with
  | false => rfl
  | true => exact absurd (isSpace_of_isLineBoundary hbreak) (by simp [h c hc])

theorem dropWhile_of_forall (h : ∀ c ∈ text, isSpace c = false) :
    text.dropWhile isSpace = text := by
  cases text with
  | nil => rfl
  | cons c text => rw [dropWhile_cons_of_neg (by simp [h c (by simp)])]

theorem trimmed_of_forall (h : ∀ c ∈ text, isSpace c = false) : Trimmed text := by
  rw [Trimmed, strip, dropWhile_of_forall h, dropWhile_of_forall (by simpa using h),
    reverse_reverse]

theorem strip_newline (h : ∀ c ∈ text, isSpace c = false) : strip (text ++ ['\n']) = text := by
  cases text with
  | nil => rfl
  | cons c text =>
    have hfront : (c :: text ++ ['\n']).dropWhile isSpace = c :: text ++ ['\n'] := by
      rw [cons_append, dropWhile_cons_of_neg (by simp [h c (by simp)])]
    have hback : ('\n' :: (c :: text).reverse).dropWhile isSpace = (c :: text).reverse := by
      rw [dropWhile_cons_of_pos rfl]
      exact dropWhile_of_forall fun other hother => h other (mem_reverse.mp hother)
    rw [strip, hfront, reverse_append]
    show (('\n' :: (c :: text).reverse).dropWhile isSpace).reverse = c :: text
    rw [hback, reverse_reverse]

theorem splitlinesFrom_newline {line} (hline : Unbroken line) (before rest) :
    splitlinesFrom before (line ++ '\n' :: rest) = (before ++ line) :: splitlinesFrom [] rest := by
  induction line generalizing before with
  | nil => simp [splitlinesFrom, isLineBoundary]
  | cons c line ih =>
    have hc := hline c (by simp)
    have hreturn : c ≠ '\r' := by
      intro heq
      rw [heq] at hc
      cases hc
    have hrest := ih (fun other hother => hline other (.tail _ hother))
      (before ++ [c])
    rw [cons_append, splitlinesFrom, if_neg (by simp [hc]), hrest]
    · simp
    · intro tail heq _
      exact hreturn heq

theorem splitlines_flatMap {texts} (h : ∀ text ∈ texts, Unbroken text) :
    splitlines (texts.flatMap fun text => text ++ ['\n']) = texts := by
  induction texts with
  | nil => rfl
  | cons text texts ih =>
    have hrest := ih fun other hother => h other (.tail _ hother)
    rw [splitlines] at hrest
    rw [flatMap_cons, append_assoc, singleton_append, splitlines,
      splitlinesFrom_newline (h text (by simp)), hrest]
    rfl

end Text
