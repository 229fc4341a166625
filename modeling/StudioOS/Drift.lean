import StudioOS.Library.Files

/-!
# Drift — the state of a managed copy

What the synchronizations of skills and hooks share: how a file is compared
with the text it should have and with the hash of the text last written,
and which stable keys may name a file.
-/

namespace StudioOS.Drift

open TextFiles

inductive SyncState where
  | current
  | missing
  | outdated
  | locallyModified
deriving DecidableEq

def classifyState (hashText : Text → String) (current : Option Text) (desired : Text)
    (managedHash : Option String) : SyncState :=
  match current with
  | none => .missing
  | some current =>
    if current = desired then .current
    else if managedHash = some (hashText current) then .outdated
    else .locallyModified

/-- The characters of `_STABLE_KEY_RE` behind the first. -/
def isKeyChar (c : Char) : Bool :=
  c.isLower || c.isDigit || c = '.' || c = '_' || c = '-'

/-- `_STABLE_KEY_RE`. -/
def matchesStableKey : List Char → Bool
  | [] => false
  | c :: rest => (c.isLower || c.isDigit) && rest.all isKeyChar && rest.length ≤ 199

def windowsReservedNames : List String :=
  ["AUX", "CON", "NUL", "PRN"] ++
    (List.range' 1 9).map (fun n => "COM" ++ toString n) ++
    (List.range' 1 9).map (fun n => "LPT" ++ toString n)

/-- `".." in key`. -/
def hasDots : List Char → Bool
  | '.' :: '.' :: _ => true
  | _ :: rest => hasDots rest
  | [] => false

/-- The keys that `_validate_projection` lets pass. -/
def safeStableKey (key : String) : Bool :=
  matchesStableKey key.toList && !hasDots key.toList && !(key.toList.getLast? = some '.') &&
    !(String.ofList ((key.toList.takeWhile (· ≠ '.')).map Char.toUpper) ∈ windowsReservedNames)

theorem safeStableKey_chars {key} (h : safeStableKey key = true) :
    ∃ c rest, key.toList = c :: rest ∧ (c.isLower || c.isDigit) = true ∧
      ∀ d ∈ rest, isKeyChar d = true := by
  simp only [safeStableKey, Bool.and_eq_true] at h
  have hkey := h.1.1.1
  cases hchars : key.toList with
  | nil => simp [hchars, matchesStableKey] at hkey
  | cons c rest =>
    rw [hchars, matchesStableKey, Bool.and_eq_true, Bool.and_eq_true, List.all_eq_true] at hkey
    exact ⟨c, rest, rfl, hkey.1.1, hkey.1.2⟩

end StudioOS.Drift
