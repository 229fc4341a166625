import Mathlib.Data.List.Basic

/-!
# Budget — greedy selection under two bounds, and trimming

A list is walked once, in its order. An element is TAKEN while fewer than
`limit` elements were taken and its cost still fits under `maxCost`; otherwise
it is LEFT, and the walk goes on.

A value is TRIMMED by the first step of a list that applies, until it fits or no
step is left. With a measure that every step lowers the loop ends (`fit_ends`).
-/

namespace Budget

variable {α : Type*} (limit maxCost : Nat) (cost : α → Nat)

variable {count used : Nat}

/-- The elements the walk takes, after `count` elements of total cost
`used`. -/
def takenFrom : Nat → Nat → List α → List α
  | _, _, [] => []
  | count, used, a :: as =>
    if count < limit ∧ used + cost a ≤ maxCost then
      a :: takenFrom (count + 1) (used + cost a) as
    else takenFrom count used as

/-- The elements the walk leaves. -/
def leftFrom : Nat → Nat → List α → List α
  | _, _, [] => []
  | count, used, a :: as =>
    if count < limit ∧ used + cost a ≤ maxCost then leftFrom (count + 1) (used + cost a) as
    else a :: leftFrom count used as

def taken (as : List α) : List α := takenFrom limit maxCost cost 0 0 as

def left (as : List α) : List α := leftFrom limit maxCost cost 0 0 as

variable {limit maxCost : Nat} {cost : α → Nat}

variable {as : List α} {a : α}

theorem mem_from_iff : a ∈ as ↔ a ∈ takenFrom limit maxCost cost count used as ∨
      a ∈ leftFrom limit maxCost cost count used as := by
  induction as generalizing count used with
  | nil => simp [takenFrom, leftFrom]
  | cons b as ih =>
    by_cases h : count < limit ∧ used + cost b ≤ maxCost
    · rw [takenFrom, leftFrom, if_pos h, if_pos h, List.mem_cons, List.mem_cons,
        @ih (count + 1) (used + cost b), or_assoc]
    · rw [takenFrom, leftFrom, if_neg h, if_neg h, List.mem_cons, List.mem_cons,
        @ih count used, or_left_comm]

theorem mem_iff : a ∈ as ↔ a ∈ taken limit maxCost cost as ∨ a ∈ left limit maxCost cost as :=
  mem_from_iff

theorem mem_of_taken (h : a ∈ taken limit maxCost cost as) : a ∈ as := mem_iff.mpr (.inl h)

theorem mem_of_left (h : a ∈ left limit maxCost cost as) : a ∈ as := mem_iff.mpr (.inr h)

theorem takenFrom_eq_nil (h : ∀ a ∈ as, maxCost < cost a) :
    takenFrom limit maxCost cost count used as = [] ∧
      leftFrom limit maxCost cost count used as = as := by
  induction as with
  | nil => exact ⟨rfl, rfl⟩
  | cons b as ih =>
    have hb := h b (.head _)
    have hno : ¬ (count < limit ∧ used + cost b ≤ maxCost) := by omega
    obtain ⟨ht, hl⟩ := ih fun a ha => h a (List.mem_cons_of_mem b ha)
    rw [takenFrom, leftFrom, if_neg hno, if_neg hno, ht, hl]
    exact ⟨rfl, rfl⟩

theorem takenFrom_append (as bs) :
    ∃ count' used', takenFrom limit maxCost cost count used (as ++ bs) =
        takenFrom limit maxCost cost count used as ++ takenFrom limit maxCost cost count' used' bs ∧
      leftFrom limit maxCost cost count used (as ++ bs) =
        leftFrom limit maxCost cost count used as ++ leftFrom limit maxCost cost count' used' bs := by
  induction as generalizing count used with
  | nil => exact ⟨count, used, rfl, rfl⟩
  | cons a as ih =>
    rw [List.cons_append]
    by_cases h : count < limit ∧ used + cost a ≤ maxCost
    · obtain ⟨count', used', ht, hl⟩ := @ih (count + 1) (used + cost a)
      refine ⟨count', used', ?_, ?_⟩
      · rw [takenFrom, if_pos h, ht, takenFrom, if_pos h, List.cons_append]
      · rw [leftFrom, if_pos h, hl, leftFrom, if_pos h]
    · obtain ⟨count', used', ht, hl⟩ := @ih count used
      refine ⟨count', used', ?_, ?_⟩
      · rw [takenFrom, if_neg h, ht, takenFrom, if_neg h]
      · rw [leftFrom, if_neg h, hl, leftFrom, if_neg h, List.cons_append]

end Budget

namespace Trimming

variable {α : Type*} (fits : α → Bool)

def first (steps : List (α → Option α)) (a : α) : Option α := steps.findSome? fun step => step a

/-- The loop: whether the value fits at the end, and the value; no answer
is out of fuel. -/
def fit (steps : List (α → Option α)) : Nat → α → Option (Bool × α)
  | 0, _ => none
  | fuel + 1, a =>
    if fits a then some (true, a)
    else
      match first steps a with
      | some b => fit steps fuel b
      | none => some (false, a)

variable {fits : α → Bool} {steps front back : List (α → Option α)} {a b : α} {ok : Bool}
  {fuel : Nat}

theorem fit_succ : fit fits steps (fuel + 1) a = if fits a then some (true, a) else
      match first steps a with
      | some b => fit fits steps fuel b
      | none => some (false, a) := rfl

theorem exists_step (h : first steps a = some b) : ∃ step ∈ steps, step a = some b :=
  List.exists_of_findSome?_eq_some h

theorem first_none : first steps a = none ↔ ∀ step ∈ steps, step a = none :=
  List.findSome?_eq_none_iff

theorem first_append_of_none (h : first front a = none) :
    first (front ++ back) a = first back a := by
  have hfront : front.findSome? (fun step => step a) = none := h
  show (front ++ back).findSome? (fun step => step a) = _
  rw [List.findSome?_append, hfront, Option.none_or]
  rfl

theorem first_append_of_some (h : first front a = some b) : first (front ++ back) a = some b := by
  have hfront : front.findSome? (fun step => step a) = some b := h
  show (front ++ back).findSome? (fun step => step a) = _
  rw [List.findSome?_append, hfront, Option.some_or]

theorem fit_stuck (h : fit fits steps fuel a = some (ok, b)) :
    if ok then fits b = true else first steps b = none := by
  induction fuel generalizing a with
  | zero => cases h
  | succ fuel ih =>
    rw [fit_succ] at h
    by_cases hfits : fits a = true
    · rw [if_pos hfits] at h
      cases h
      simpa using hfits
    rw [if_neg hfits] at h
    cases hfirst : first steps a with
    | none =>
      rw [hfirst] at h
      cases h
      simpa using hfirst
    | some c =>
      rw [hfirst] at h
      exact ih h

theorem fit_keeps {P : α → Prop} (hstep : ∀ step ∈ steps, ∀ a b, P a → step a = some b → P b)
    (h : fit fits steps fuel a = some (ok, b)) (ha : P a) : P b := by
  induction fuel generalizing a with
  | zero => cases h
  | succ fuel ih =>
    rw [fit_succ] at h
    by_cases hfits : fits a = true
    · rw [if_pos hfits] at h
      cases h
      exact ha
    rw [if_neg hfits] at h
    cases hfirst : first steps a with
    | none =>
      rw [hfirst] at h
      cases h
      exact ha
    | some c =>
      rw [hfirst] at h
      obtain ⟨step, hmem, hc⟩ := exists_step hfirst
      exact ih h (hstep step hmem a c ha hc)

theorem fit_ends {measure : α → Nat}
    (hlower : ∀ step ∈ steps, ∀ a b, step a = some b → measure b < measure a)
    (h : measure a < fuel) : ∃ ok b, fit fits steps fuel a = some (ok, b) := by
  induction fuel generalizing a with
  | zero => omega
  | succ fuel ih =>
    rw [fit_succ]
    by_cases hfits : fits a = true
    · exact ⟨true, a, if_pos hfits⟩
    rw [if_neg hfits]
    cases hfirst : first steps a with
    | none => exact ⟨false, a, rfl⟩
    | some c =>
      obtain ⟨step, hmem, hc⟩ := exists_step hfirst
      have := hlower step hmem a c hc
      exact ih (by omega)

theorem fit_mono {more} (h : fit fits steps fuel a = some (ok, b)) (hle : fuel ≤ more) :
    fit fits steps more a = some (ok, b) := by
  induction fuel generalizing a more with
  | zero => cases h
  | succ fuel ih =>
    obtain ⟨more, rfl⟩ : ∃ n, more = n + 1 := ⟨more - 1, by omega⟩
    rw [fit_succ] at h ⊢
    by_cases hfits : fits a = true
    · rwa [if_pos hfits] at h ⊢
    rw [if_neg hfits] at h ⊢
    cases hfirst : first steps a with
    | none => rwa [hfirst] at h
    | some c =>
      rw [hfirst] at h
      exact ih h (by omega)

/-- The steps of `back` do not revive those of `front`. -/
def Spent (front back : List (α → Option α)) : Prop :=
  ∀ step ∈ back, ∀ a b, first front a = none → step a = some b → first front b = none

theorem fit_append_of_spent (hspent : Spent front back) (ha : first front a = none) :
    fit fits (front ++ back) fuel a = fit fits back fuel a := by
  induction fuel generalizing a with
  | zero => rfl
  | succ fuel ih =>
    rw [fit_succ, fit_succ, first_append_of_none ha]
    cases hfirst : first back a with
    | none => rfl
    | some c =>
      obtain ⟨step, hmem, hc⟩ := exists_step hfirst
      simp [ih (hspent step hmem a c ha hc)]

theorem fit_append_of_fits (h : fit fits front fuel a = some (true, b)) :
    fit fits (front ++ back) fuel a = some (true, b) := by
  induction fuel generalizing a with
  | zero => cases h
  | succ fuel ih =>
    rw [fit_succ] at h ⊢
    by_cases hfits : fits a = true
    · rwa [if_pos hfits] at h ⊢
    rw [if_neg hfits] at h ⊢
    cases hfirst : first front a with
    | none =>
      rw [hfirst] at h
      cases h
    | some c =>
      rw [hfirst] at h
      rw [first_append_of_some hfirst]
      exact ih h

/-- **Two lists of steps run one after the other.** -/
theorem fit_append (hspent : Spent front back) {fuel' c}
    (hfront : fit fits front fuel a = some (false, b))
    (hback : fit fits back fuel' b = some (ok, c)) :
    fit fits (front ++ back) (fuel + fuel') a = some (ok, c) := by
  induction fuel generalizing a with
  | zero => cases hfront
  | succ fuel ih =>
    rw [fit_succ] at hfront
    by_cases hfits : fits a = true
    · rw [if_pos hfits] at hfront
      cases hfront
    rw [if_neg hfits] at hfront
    cases hfirst : first front a with
    | none =>
      rw [hfirst] at hfront
      cases hfront
      rw [fit_append_of_spent hspent hfirst]
      exact fit_mono hback (by omega)
    | some d =>
      rw [hfirst] at hfront
      rw [Nat.succ_add, fit, if_neg hfits, first_append_of_some hfirst]
      exact ih hfront

/-- The least number below `n` that fits, or `n`. -/
def least (fits : Nat → Bool) (n : Nat) : Nat := ((List.range n).find? fits).getD n

theorem least_le {fits n} : least fits n ≤ n := by
  rw [least]
  cases h : (List.range n).find? fits with
  | none => simp
  | some k =>
    have := List.mem_range.mp (List.mem_of_find?_eq_some h)
    simp only [Option.getD_some]
    omega

theorem least_eq {fits n k} (hk : k ≤ n) (hbelow : ∀ j < k, fits j = false)
    (hfits : k < n → fits k = true) : least fits n = k := by
  rw [least]
  rcases Nat.lt_or_eq_of_le hk with hlt | rfl
  · have hfind : (List.range n).find? fits = some k := by
      rw [List.find?_range_eq_some]
      refine ⟨hfits hlt, List.mem_range.mpr hlt, ?_⟩
      intro j hj
      simp [hbelow j hj]
    rw [hfind, Option.getD_some]
  · have hfind : (List.range k).find? fits = none := by
      rw [List.find?_eq_none]
      intro j hj
      simp [hbelow j (List.mem_range.mp hj)]
    rw [hfind, Option.getD_none]

/-- **A step that applies `n` times is taken as often as it takes.**
`popped k` is the value after `k` steps. -/
theorem fit_popping {step : α → Option α} {popped : Nat → α} {n k : Nat} (hk : k ≤ n)
    (hstep : ∀ k < n, step (popped k) = some (popped (k + 1))) (hlast : step (popped n) = none)
    (hbelow : ∀ j < k, fits (popped j) = false) (hfuel : n - k < fuel) :
    let least := least (fun j => fits (popped j)) n
    fit fits [step] fuel (popped k) = some (fits (popped least), popped least) := by
  induction fuel generalizing k with
  | zero => omega
  | succ fuel ih =>
    rw [fit_succ]
    by_cases hfits : fits (popped k) = true
    · have hleast : least (fun j => fits (popped j)) n = k :=
        least_eq hk hbelow fun _ => hfits
      simp [hleast, hfits]
    rw [if_neg hfits]
    have hfirst : first [step] (popped k) = step (popped k) := by
      rw [first, List.findSome?_cons, List.findSome?_nil]
      cases step (popped k) <;> rfl
    rcases Nat.lt_or_eq_of_le hk with hlt | rfl
    · rw [hfirst, hstep k hlt]
      refine ih (by omega) ?_ (by omega)
      intro j hj
      by_cases hjk : j = k
      · subst hjk
        simpa using hfits
      · exact hbelow j (by omega)
    · have hleast : least (fun j => fits (popped j)) k = k :=
        least_eq (Nat.le_refl k) hbelow fun h => absurd h (Nat.lt_irrefl k)
      rw [hfirst, hlast]
      simp only [hleast]
      rw [Bool.not_eq_true] at hfits
      rw [hfits]

end Trimming
