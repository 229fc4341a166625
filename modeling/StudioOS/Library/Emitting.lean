import Mathlib.Data.List.Basic

/-!
# Emitting — a reader that emits as it goes and may fail

A reader takes items one by one. Each item moves the reader's state and EMITS;
an item may also fail, after it emitted. `feed` reads a list of items: it
stops at the first failure and keeps what was emitted so far.
-/

namespace Emitting

variable {σ ι ω : Type*} {read : σ → ι → List ω × Option σ} {s t : σ} {emitted : List ω}

/-- What reading the items emits, and the state after the last one. -/
def feed (read : σ → ι → List ω × Option σ) : σ → List ι → List ω × Option σ
  | s, [] => ([], some s)
  | s, item :: rest =>
    match read s item with
    | (emitted, none) => (emitted, none)
    | (emitted, some t) => (emitted ++ (feed read t rest).1, (feed read t rest).2)

@[simp] theorem feed_nil : feed read s [] = ([], some s) := rfl

theorem feed_cons (item) (rest) : feed read s (item :: rest) = match read s item with
      | (emitted, none) => (emitted, none)
      | (emitted, some t) => (emitted ++ (feed read t rest).1, (feed read t rest).2) := rfl

theorem feed_cons_of_some {item rest} (h : read s item = (emitted, some t)) :
    feed read s (item :: rest) = (emitted ++ (feed read t rest).1, (feed read t rest).2) := by
  rw [feed_cons, h]

theorem feed_cons_of_none {item rest}
    (h : read s item = (emitted, none)) : feed read s (item :: rest) = (emitted, none) := by
  rw [feed_cons, h]

/-- **Reading piece by piece**: the second piece starts where the first ended. -/
theorem feed_append {first} (h : feed read s first = (emitted, some t))
    (second : List ι) : feed read s (first ++ second) =
      (emitted ++ (feed read t second).1, (feed read t second).2) := by
  induction first generalizing s emitted with
  | nil =>
    cases h
    rfl
  | cons item first ih =>
    rcases hread : read s item with ⟨out, next⟩
    cases next with
    | none =>
      rw [feed_cons_of_none hread] at h
      cases h
    | some u =>
      rw [feed_cons_of_some hread] at h
      obtain ⟨rfl, hrest⟩ := Prod.mk.inj h
      rw [List.cons_append, feed_cons_of_some hread, ih (Prod.ext rfl hrest)]
      simp [List.append_assoc]

theorem feed_append_of_none {first} (h : feed read s first = (emitted, none)) (second) :
    feed read s (first ++ second) = (emitted, none) := by
  induction first generalizing s emitted with
  | nil => cases h
  | cons item first ih =>
    rcases hread : read s item with ⟨out, _ | u⟩
    · rw [feed_cons_of_none hread] at h
      rw [List.cons_append, feed_cons_of_none hread, h]
    · rw [feed_cons_of_some hread] at h
      obtain ⟨rfl, hrest⟩ := Prod.mk.inj h
      rw [List.cons_append, feed_cons_of_some hread, ih (Prod.ext rfl hrest)]

theorem feed_feed (pieces) : feed (feed read) s pieces = feed read s pieces.flatten := by
  induction pieces generalizing s with
  | nil => rfl
  | cons piece pieces ih =>
    rcases hread : feed read s piece with ⟨out, _ | u⟩
    · rw [feed_cons_of_none hread, List.flatten_cons, feed_append_of_none hread]
    · rw [feed_cons_of_some hread, List.flatten_cons, feed_append hread, ih]

theorem feed_eq_none_iff {fails : ι → Prop} (hfails : ∀ s item, (read s item).2 = none ↔ fails item)
    (items) : (feed read s items).2 = none ↔ ∃ item ∈ items, fails item := by
  induction items generalizing s with
  | nil => simp
  | cons item rest ih =>
    rcases hread : read s item with ⟨out, next⟩
    have hitem := hfails s item
    rw [hread] at hitem
    cases next with
    | none =>
      rw [feed_cons_of_none hread]
      simp [hitem.mp rfl]
    | some u =>
      have hpasses : ¬ fails item := fun h => nomatch hitem.mpr h
      rw [feed_cons_of_some hread]
      simp [ih, hpasses]

/-- What holds of everything an item emits holds of everything a list emits. -/
theorem feed_forall {P : ω → Prop} (hread : ∀ s item, ∀ emitted ∈ (read s item).1, P emitted)
    (items : List ι) : ∀ emitted ∈ (feed read s items).1, P emitted := by
  induction items generalizing s with
  | nil => simp
  | cons item rest ih =>
    have hitem := hread s item
    rcases hout : read s item with ⟨out, _ | u⟩ <;> rw [hout] at hitem
    · rw [feed_cons_of_none hout]
      exact hitem
    · rw [feed_cons_of_some hout]
      intro emitted hemitted
      rcases List.mem_append.mp hemitted with hmem | hmem
      · exact hitem emitted hmem
      · exact ih emitted hmem

end Emitting
