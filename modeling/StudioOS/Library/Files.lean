import Mathlib.Data.List.Basic

/-!
# Files — texts, and lists of writes

A file whose bytes are UTF-8 is the text they spell, so two such files have
the same bytes exactly if they have the same characters. A list of writes is
carried out from the left: the last write of a key decides.
-/

namespace TextFiles

abbrev Text := List Char

/-- What is at a path. -/
inductive Node where
  /-- A file of UTF-8 bytes. -/
  | text (chars : Text)
  /-- A file of other bytes. -/
  | binary (bytes : List UInt8)
  | directory
deriving DecidableEq

def Node.isFile : Node → Bool
  | .directory => false
  | _ => true

/-- The ends of lines, as text mode reads them. -/
def universal : Text → Text
  | [] => []
  | '\r' :: '\n' :: rest => '\n' :: universal rest
  | c :: rest => (if c = '\r' then '\n' else c) :: universal rest

/-- `text.replace("\r\n", "\n")`. -/
def normalize : Text → Text
  | [] => []
  | '\r' :: '\n' :: rest => '\n' :: normalize rest
  | c :: rest => c :: normalize rest

/-- `Path.read_text(encoding="utf-8")` of what is there. -/
def Node.readText : Node → Option Text
  | .text chars => some (universal chars)
  | _ => none

end TextFiles

namespace Writes

variable {κ ν : Type*} [DecidableEq κ] {ws : List (κ × ν)}

def writeAll : List (κ × ν) → (κ → ν) → κ → ν
  | [], f => f
  | (k, v) :: ws, f => writeAll ws (Function.update f k v)

/-- What the key held before its last write. -/
def before : List (κ × ν) → (κ → ν) → κ → ν
  | [], f, key => f key
  | (k, v) :: ws, f, key =>
    if k = key ∧ key ∉ ws.map Prod.fst then f key else before ws (Function.update f k v) key

@[simp] theorem writeAll_nil (f : κ → ν) : writeAll [] f = f := rfl

theorem writeAll_other {key} (h : key ∉ ws.map Prod.fst) (f) : writeAll ws f key = f key := by
  induction ws generalizing f with
  | nil => rfl
  | cons w ws ih =>
    obtain ⟨k, v⟩ := w
    rw [List.map_cons, List.mem_cons, not_or] at h
    rw [writeAll, ih h.2, Function.update_of_ne h.1]

theorem before_other {key} (h : key ∉ ws.map Prod.fst) (f) : before ws f key = f key := by
  induction ws generalizing f with
  | nil => rfl
  | cons w ws ih =>
    obtain ⟨k, v⟩ := w
    rw [List.map_cons, List.mem_cons, not_or] at h
    rw [before, ih h.2, Function.update_of_ne h.1]
    simp

/-- To restore the value of each write, in order, is to restore what the
keys held before their last write. -/
theorem writeAll_before {rs : List (κ × ν)} {f : κ → ν} (hkeys : rs.map Prod.fst = ws.map Prod.fst)
    (hlast : ∀ front back r, rs = front ++ r :: back → r.1 ∉ back.map Prod.fst →
      r.2 = before ws f r.1) (g : κ → ν) (key : κ) :
    writeAll rs g key = if key ∈ ws.map Prod.fst then before ws f key else g key := by
  split
  · rename_i hmem
    rw [← hkeys] at hmem
    clear hkeys
    induction rs generalizing g with
    | nil => cases hmem
    | cons r rs ih =>
      by_cases hrest : key ∈ rs.map Prod.fst
      · exact ih (fun front back r' heq => hlast (r :: front) back r' (by rw [heq]; rfl)) _ hrest
      rw [List.map_cons, List.mem_cons] at hmem
      have hkey : key = r.1 := hmem.resolve_right hrest
      subst hkey
      obtain ⟨k, v⟩ := r
      rw [writeAll, writeAll_other hrest, Function.update_self]
      exact hlast [] rs (k, v) rfl hrest
  · rename_i hmem
    exact writeAll_other (hkeys ▸ hmem) g

end Writes
