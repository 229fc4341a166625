import Mathlib.Data.List.Basic

/-!
# Offsets — pages by offset

Pages of a list of `total` rows, `size` rows a page: a request with an offset
answers with a page or fails, and a page names the offset of the next one
while rows are left behind it.
-/

namespace Offsets

open List

variable {π : Type*} {request : Nat → Option π} {next : π → Option Nat} {size total : Nat}

variable {offset : Nat} {pages : List π}

/-- The pages that following `next` from an offset gives. -/
inductive Followed (request : Nat → Option π) (next : π → Option Nat) : Nat → List π → Prop where
  | last {offset page} (answer : request offset = some page)
      (done : next page = none) : Followed request next offset [page]
  | more {offset offset' page pages} (answer : request offset = some page)
      (cursor : next page = some offset') (rest : Followed request next offset' pages) :
      Followed request next offset (page :: pages)

/-- A page names the next offset while rows are left. -/
def Advances (request : Nat → Option π) (next : π → Option Nat) (size total : Nat) : Prop :=
  ∀ offset page, request offset = some page →
    next page = if offset + size < total then some (offset + size) else none

/-- A page on the way: the first, or one that has rows. -/
def OnWay (size total : Nat) (offset i : Nat) : Prop := i = 0 ∨ offset + i * size < total

theorem onWay_succ {i} (h : offset + size < total) :
    OnWay size total offset (i + 1) ↔ OnWay size total (offset + size) i := by
  have hsum : offset + (i + 1) * size = offset + size + i * size := by
    rw [Nat.add_mul]
    omega
  unfold OnWay
  rw [hsum]
  constructor
  · rintro (h0 | hlt)
    · omega
    · exact .inr hlt
  · rintro (rfl | hlt)
    · rw [Nat.zero_mul]
      exact .inr h
    · exact .inr hlt

theorem mem_pages_iff (hnext : Advances request next size total)
    (h : Followed request next offset pages) (page : π) :
    page ∈ pages ↔ ∃ i, OnWay size total offset i ∧ request (offset + i * size) = some page := by
  induction h with
  | @last offset first answer done =>
    have hend : ¬ offset + size < total := by
      intro hlt
      rw [hnext offset first answer, if_pos hlt] at done
      cases done
    constructor
    · intro hmem
      rw [mem_singleton.mp hmem]
      exact ⟨0, .inl rfl, by simpa using answer⟩
    rintro ⟨i, rfl | hlt, hpage⟩
    · rw [Nat.zero_mul, Nat.add_zero, answer] at hpage
      exact mem_singleton.mpr (Option.some.inj hpage).symm
    cases i with
    | zero =>
      rw [Nat.zero_mul, Nat.add_zero, answer] at hpage
      exact mem_singleton.mpr (Option.some.inj hpage).symm
    | succ i =>
      rw [Nat.add_mul] at hlt
      omega
  | @more offset offset' first pages answer cursor rest ih =>
    rw [hnext offset first answer] at cursor
    split at cursor
    · rename_i hlt
      cases cursor
      rw [mem_cons, ih]
      constructor
      · rintro (rfl | ⟨i, hi, hpage⟩)
        · exact ⟨0, .inl rfl, by simpa using answer⟩
        · refine ⟨i + 1, (onWay_succ hlt).mpr hi, ?_⟩
          rw [← hpage, Nat.add_mul]
          congr 1
          omega
      · rintro ⟨i, hi, hpage⟩
        cases i with
        | zero =>
          rw [Nat.zero_mul, Nat.add_zero, answer] at hpage
          exact .inl (Option.some.inj hpage).symm
        | succ i =>
          refine .inr ⟨i, (onWay_succ hlt).mp hi, ?_⟩
          rw [← hpage, Nat.add_mul]
          congr 1
          omega
    · cases cursor

theorem exists_followed_iff (hnext : Advances request next size total) (hsize : 0 < size)
    (offset : Nat) : (∃ pages, Followed request next offset pages) ↔
      ∀ i, OnWay size total offset i → (request (offset + i * size)).isSome = true := by
  constructor
  · rintro ⟨pages, h⟩
    induction h with
    | @last offset first answer done =>
      rintro i (rfl | hlt)
      · simp [answer]
      cases i with
      | zero => simp [answer]
      | succ i =>
        rw [hnext offset first answer, Nat.add_mul] at *
        split at done
        · cases done
        · omega
    | @more offset offset' first pages answer cursor rest ih =>
      rw [hnext offset first answer] at cursor
      split at cursor
      · rename_i hlt
        cases cursor
        intro i hi
        cases i with
        | zero => simp [answer]
        | succ i =>
          have := ih i ((onWay_succ hlt).mp hi)
          rwa [Nat.add_assoc, Nat.add_comm size, ← Nat.succ_mul] at this
      · cases cursor
  · intro hall
    -- by the rows that are left
    induction hleft : total - offset using Nat.strongRecOn generalizing offset with
    | ind left ih =>
      obtain ⟨page, hpage⟩ := Option.isSome_iff_exists.mp (hall 0 (.inl rfl))
      rw [Nat.zero_mul, Nat.add_zero] at hpage
      have hcursor := hnext offset page hpage
      by_cases hlt : offset + size < total
      · rw [if_pos hlt] at hcursor
        obtain ⟨pages, hpages⟩ := ih (total - (offset + size)) (by omega) (offset + size)
          (fun i hi => by
            have := hall (i + 1) ((onWay_succ hlt).mpr hi)
            rwa [Nat.succ_mul, Nat.add_comm (i * size), ← Nat.add_assoc] at this) rfl
        exact ⟨page :: pages, .more hpage hcursor hpages⟩
      · rw [if_neg hlt] at hcursor
        exact ⟨[page], .last hpage hcursor⟩

theorem flatMap_pages {β : Type*} (hnext : Advances request next size total) {rows : List β}
    (hrows : rows.length = total) {content : π → List β}
    (hcontent : ∀ offset page, request offset = some page →
      content page = (rows.drop offset).take size)
    (h : Followed request next offset pages) : pages.flatMap content = rows.drop offset := by
  induction h with
  | @last offset first answer done =>
    rw [hnext offset first answer] at done
    split at done
    · cases done
    · rw [flatMap_singleton, hcontent offset first answer]
      refine take_of_length_le ?_
      rw [length_drop]
      omega
  | @more offset offset' first pages answer cursor rest ih =>
    rw [hnext offset first answer] at cursor
    split at cursor
    · cases cursor
      rw [flatMap_cons, hcontent offset first answer, ih, ← drop_drop]
      exact take_append_drop size _
    · cases cursor

theorem not_followed_of_size_zero (hnext : Advances request next 0 total)
    (h : Followed request next offset pages) : total ≤ offset := by
  induction h with
  | @last offset first answer done =>
    rw [hnext offset first answer] at done
    split at done
    · cases done
    · omega
  | @more offset offset' first pages answer cursor rest ih =>
    rw [hnext offset first answer] at cursor
    split at cursor
    · cases cursor
      omega
    · cases cursor

end Offsets
