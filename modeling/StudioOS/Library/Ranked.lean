import Mathlib.Data.List.Basic

/-!
# Ranked — a register that takes nothing lower

A register is given values one after the other and takes each one unless its
own value has a higher rank. After any list of values it holds the last of
the highest ones (`Holds.accept`).
-/

namespace Ranked

variable {β : Type*} (rank : β → Nat)

/-- The register after one more value. -/
def accept (stored : Option β) (value : β) : β :=
  match stored with
  | none => value
  | some old => if rank old ≤ rank value then value else old

/-- The last one of the highest values. -/
def Latest (values : List β) (value : β) : Prop :=
  ∃ front back, values = front ++ value :: back ∧ (∀ other ∈ front, rank other ≤ rank value) ∧
    ∀ other ∈ back, rank other < rank value

/-- What the register holds after the values. -/
def Holds (stored : Option β) (values : List β) : Prop :=
  match stored with
  | none => values = []
  | some value => Latest rank values value

variable {rank} {values : List β}

theorem rank_mono (old value) : rank old ≤ rank (accept rank (some old) value) := by
  by_cases h : rank old ≤ rank value <;> simp [accept, h]

theorem Latest.mem {value} (h : Latest rank values value) : value ∈ values := by
  obtain ⟨front, back, rfl, _, _⟩ := h
  simp

theorem Latest.rank_le {value} (h : Latest rank values value) {other}
    (hother : other ∈ values) : rank other ≤ rank value := by
  obtain ⟨front, back, rfl, hfront, hback⟩ := h
  rcases List.mem_append.mp hother with hmem | hmem
  · exact hfront other hmem
  · rcases List.mem_cons.mp hmem with rfl | hmem
    · exact Nat.le_refl _
    · exact Nat.le_of_lt (hback other hmem)

theorem Holds.accept {stored} (h : Holds rank stored values)
    (value) : Holds rank (some (accept rank stored value)) (values ++ [value]) := by
  cases stored with
  | none =>
    have hnone : values = [] := h
    subst hnone
    exact ⟨[], [], rfl, by simp, by simp⟩
  | some old =>
    by_cases hle : rank old ≤ rank value
    · rw [Ranked.accept, if_pos hle]
      exact ⟨values, [], rfl, fun other hother => Nat.le_trans (Latest.rank_le h hother) hle,
        by simp⟩
    rw [Ranked.accept, if_neg hle]
    obtain ⟨front, back, rfl, hfront, hback⟩ := h
    refine ⟨front, back ++ [value], by simp, hfront, fun other hother => ?_⟩
    rcases List.mem_append.mp hother with hmem | hmem
    · exact hback other hmem
    · rw [List.mem_singleton] at hmem
      rw [hmem]
      omega

end Ranked
