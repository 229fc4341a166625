import Mathlib.Logic.Function.Basic

/-!
# Base — clock readings and column writes

Vocabulary shared by the services. A wall-clock reading (`datetime.now(UTC)`)
is a count of microseconds, the resolution of Python's `datetime`.
-/

namespace StudioOS

instance lawfulOptionString : LawfulBEq (Option String) := Option.instLawfulBEq String

/-- A `datetime` in UTC, in microseconds. -/
abbrev Timestamp := Nat

/-- `timedelta(seconds=n)`. -/
def seconds (n : Nat) : Timestamp := n * 1000000

/-- What the flush leaves in one column: the assigned value when it
differs from the loaded one, the column's current value otherwise. -/
def flushed {β : Type*} [DecidableEq β] (loaded assigned current : β) : β :=
  if assigned = loaded then current else assigned

@[simp] theorem flushed_self {β : Type*} [DecidableEq β] (loaded current : β) :
    flushed loaded loaded current = current := if_pos rfl

@[simp] theorem flushed_fresh {β : Type*} [DecidableEq β] (loaded assigned : β) :
    flushed loaded assigned loaded = assigned := by
  unfold flushed
  split
  · rename_i h
    exact h.symm
  · rfl

theorem flushed_of_ne {β : Type*} [DecidableEq β] {loaded assigned} (h : assigned ≠ loaded)
    (current : β) : flushed loaded assigned current = assigned :=
  if_neg h

theorem update_some {α β : Type*} [DecidableEq α] {f : α → Option β} {a a' : α} {b b' : β}
    (h : Function.update f a (some b) a' = some b') :
    (a' = a ∧ b' = b) ∨ a' ≠ a ∧ f a' = some b' := by
  by_cases ha : a' = a
  · subst ha
    rw [Function.update_self] at h
    exact .inl ⟨rfl, (Option.some.inj h).symm⟩
  · rw [Function.update_of_ne ha] at h
    exact .inr ⟨ha, h⟩

end StudioOS
