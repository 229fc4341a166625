import Mathlib.Data.List.Nodup
import Mathlib.Data.List.Lex

/-!
# Expansion — depth-first expansion of a graph, guarded along the chain

A node is expanded by expanding its children in order, again and again even
when they are shared. Three things stop the expansion: the node's KEY is
already on the chain that leads to it, the chain is longer than the bound, or
the node itself is BAD.
-/

namespace Expansion

open List Option

variable {left : Nat}

/-- What stops an expansion at a node. -/
inductive Fault where
  | repeated
  | tooDeep
  | bad
deriving DecidableEq

variable {ν κ : Type*} [DecidableEq κ] (children : ν → List ν) (key : ν → κ) (bad : ν → Bool)

/-- The first fault met by a walk that may still cross `left` nodes on a
chain, below the keys in `visited`. -/
def firstFault : Nat → List κ → ν → Option Fault
  | 0, visited, n => if key n ∈ visited then some .repeated else some .tooDeep
  | left + 1, visited, n =>
    if key n ∈ visited then some .repeated
    else if bad n then some .bad
    else (children n).findSome? (firstFault left (key n :: visited))

/-- The nodes met below `n` on the chain that follows these positions. -/
def follow : ν → List Nat → Option (List ν)
  | _, [] => some []
  | n, i :: p => ((children n)[i]?).bind fun c => (follow c p).map (c :: ·)

/-- The last node of the chain `n :: ns`. -/
def lastOf (n : ν) (ns : List ν) : ν := (n :: ns).getLast (cons_ne_nil _ _)

/-- The chain `n :: ns` repeats no key, meets none of `visited` and
crosses at most `left` nodes. -/
structure Legal (left : Nat) (visited : List κ) (n : ν) (ns : List ν) : Prop where
  nodup : ((n :: ns).map key).Nodup
  fresh : ∀ k ∈ (n :: ns).map key, k ∉ visited
  short : ns.length < left

variable {children key bad}

theorem firstFault_zero (visited) (n) : firstFault children key bad 0 visited n =
      if key n ∈ visited then some .repeated else some .tooDeep := rfl

theorem firstFault_succ (left) (visited) (n) :
    firstFault children key bad (left + 1) visited n = if key n ∈ visited then some .repeated
      else if bad n then some .bad
      else (children n).findSome? (firstFault children key bad left (key n :: visited)) := rfl

@[simp] theorem follow_nil (n) : follow children n [] = some [] := rfl

variable {n : ν} {i : Nat} {p : List Nat} {ns : List ν} {visited : List κ} {q : List Nat}

theorem follow_cons_iff : follow children n (i :: p) = some ns ↔
      ∃ c cs, (children n)[i]? = some c ∧ follow children c p = some cs ∧ ns = c :: cs := by
  constructor
  · intro h
    obtain ⟨c, hc, h⟩ := bind_eq_some_iff.mp h
    obtain ⟨cs, hcs, rfl⟩ := map_eq_some_iff.mp h
    exact ⟨c, cs, hc, hcs, rfl⟩
  · rintro ⟨c, cs, hc, hcs, rfl⟩
    simp [follow, hc, hcs]

@[simp] theorem lastOf_nil (n : ν) : lastOf n [] = n := rfl

@[simp] theorem lastOf_cons (n c : ν) (cs) : lastOf n (c :: cs) = lastOf c cs := by
  simp [lastOf]

theorem isChain_iff_follow : List.IsChain (fun a b => b ∈ children a) (n :: ns) ↔
      ∃ p, follow children n p = some ns := by
  induction ns generalizing n with
  | nil => exact ⟨fun _ => ⟨[], rfl⟩, fun _ => .singleton _⟩
  | cons c cs ih =>
    rw [isChain_cons_cons, ih]
    constructor
    · rintro ⟨hc, p, hp⟩
      obtain ⟨i, hi⟩ := List.getElem?_of_mem hc
      exact ⟨i :: p, follow_cons_iff.mpr ⟨c, cs, hi, hp, rfl⟩⟩
    rintro ⟨p, hp⟩
    cases p with
    | nil => cases hp
    | cons i p =>
      obtain ⟨c', cs', hi, hp, heq⟩ := follow_cons_iff.mp hp
      obtain ⟨rfl, rfl⟩ := List.cons.inj heq
      exact ⟨mem_of_getElem? hi, p, hp⟩

omit [DecidableEq κ] in
theorem legal_nil_iff : Legal key left visited n [] ↔ 0 < left ∧ key n ∉ visited := by
  constructor
  · intro h
    exact ⟨h.short, h.fresh _ (by simp)⟩
  · rintro ⟨hleft, hn⟩
    exact ⟨by simp, by simpa using hn, hleft⟩

omit [DecidableEq κ] in
/-- A longer chain is legal when its first node is fresh and the rest is
legal below it. -/
theorem legal_cons_iff {c cs} : Legal key (left + 1) visited n (c :: cs) ↔
      key n ∉ visited ∧ Legal key left (key n :: visited) c cs := by
  constructor
  · intro h
    have hnodup : key n ∉ (c :: cs).map key ∧ ((c :: cs).map key).Nodup := nodup_cons.mp h.nodup
    refine ⟨h.fresh _ (by simp), hnodup.2, ?_, by simpa using h.short⟩
    intro k hk
    rw [mem_cons, not_or]
    constructor
    · rintro rfl
      exact hnodup.1 hk
    · exact h.fresh k (.tail _ hk)
  · rintro ⟨hn, h⟩
    have hnot : key n ∉ (c :: cs).map key := fun hk => h.fresh _ hk (.head _)
    refine ⟨nodup_cons.mpr ⟨hnot, h.nodup⟩, ?_, by simpa using h.short⟩
    intro k hk
    rcases mem_cons.mp hk with rfl | hk
    · exact hn
    · exact fun hv => h.fresh k hk (.tail _ hv)

/-! ## What the walk reports -/

/-- The walk meets no fault exactly when every chain is legal and ends
in a node that is not bad. -/
theorem firstFault_eq_none_iff : firstFault children key bad left visited n = none ↔
      ∀ p ns, follow children n p = some ns →
        Legal key left visited n ns ∧ bad (lastOf n ns) = false := by
  induction left generalizing visited n with
  | zero =>
    constructor
    · intro h
      rw [firstFault_zero] at h
      split at h <;> cases h
    · intro h
      exact absurd (h [] [] rfl).1.short (Nat.not_lt_zero _)
  | succ left ih =>
    constructor
    · intro h p ns hns
      rw [firstFault_succ] at h
      split at h
      · cases h
      rename_i hfresh
      split at h
      · cases h
      rename_i hbad
      have hchildren := List.findSome?_eq_none_iff.mp h
      cases p with
      | nil =>
        obtain rfl : [] = ns := some.inj hns
        exact ⟨legal_nil_iff.mpr ⟨Nat.succ_pos _, hfresh⟩, by simpa using hbad⟩
      | cons i p =>
        obtain ⟨c, cs, hc, hcs, rfl⟩ := follow_cons_iff.mp hns
        have hstep := ih.mp (hchildren c (mem_of_getElem? hc)) p cs hcs
        exact ⟨legal_cons_iff.mpr ⟨hfresh, hstep.1⟩, by simpa using hstep.2⟩
    · intro h
      have hroot := h [] [] rfl
      have hfresh := (legal_nil_iff.mp hroot.1).2
      have hbad : bad n = false := hroot.2
      rw [firstFault_succ]
      rw [if_neg hfresh, hbad, if_neg Bool.false_ne_true, List.findSome?_eq_none_iff]
      intro c hc
      obtain ⟨i, hi⟩ := List.getElem?_of_mem hc
      apply ih.mpr
      intro p cs hcs
      have hstep := h (i :: p) (c :: cs) (follow_cons_iff.mpr ⟨c, cs, hi, hcs, rfl⟩)
      exact ⟨(legal_cons_iff.mp hstep.1).2, by simpa using hstep.2⟩

theorem exists_long_of_tooDeep (h : firstFault children key bad left visited n = some .tooDeep) :
    ∃ p ns, follow children n p = some ns ∧ Legal key (left + 1) visited n ns ∧
      ns.length = left := by
  induction left generalizing visited n with
  | zero =>
    rw [firstFault_zero] at h
    split at h
    · cases h
    · rename_i hfresh
      exact ⟨[], [], rfl, legal_nil_iff.mpr ⟨Nat.succ_pos _, hfresh⟩, rfl⟩
  | succ left ih =>
    rw [firstFault_succ] at h
    split at h
    · cases h
    rename_i hfresh
    split at h
    · cases h
    obtain ⟨c, hc, hdeep⟩ := List.exists_of_findSome?_eq_some h
    obtain ⟨i, hi⟩ := List.getElem?_of_mem hc
    obtain ⟨p, cs, hcs, hlegal, hlength⟩ := ih hdeep
    refine ⟨i :: p, c :: cs, follow_cons_iff.mpr ⟨c, cs, hi, hcs, rfl⟩,
      legal_cons_iff.mpr ⟨hfresh, hlegal⟩, ?_⟩
    rw [length_cons, hlength]

theorem firstFault_of_legal
    (hlegal : ∀ p ns, follow children n p = some ns → Legal key left visited n ns) {fault}
    (h : firstFault children key bad left visited n = some fault) :
    fault = .bad := by
  induction left generalizing visited n with
  | zero => exact absurd (hlegal [] [] rfl).short (Nat.not_lt_zero _)
  | succ left ih =>
    have hfresh := (legal_nil_iff.mp (hlegal [] [] rfl)).2
    rw [firstFault_succ] at h
    rw [if_neg hfresh] at h
    split at h
    · exact (some.inj h).symm
    obtain ⟨c, hc, hfault⟩ := List.exists_of_findSome?_eq_some h
    obtain ⟨i, hi⟩ := List.getElem?_of_mem hc
    apply ih _ hfault
    intro p cs hcs
    exact (legal_cons_iff.mp
      (hlegal (i :: p) (c :: cs) (follow_cons_iff.mpr ⟨c, cs, hi, hcs, rfl⟩))).2

/-- A search through a list stops at a position before which it found
nothing. -/
theorem findSome?_eq_some_iff_getElem? {α β : Type*} {f : α → Option β} {l : List α} {b : β} :
    l.findSome? f = some b ↔ ∃ (i : Nat) (a : α), l[i]? = some a ∧ f a = some b ∧
        ∀ (j : Nat) (a' : α), j < i → l[j]? = some a' → f a' = none := by
  induction l with
  | nil => simp
  | cons x l ih =>
    rw [List.findSome?_cons]
    constructor
    · intro h
      cases hx : f x with
      | some b' =>
        rw [hx] at h
        exact ⟨0, x, rfl, hx.trans h, fun j _ hj => absurd hj (Nat.not_lt_zero _)⟩
      | none =>
        rw [hx] at h
        obtain ⟨i, a, hi, ha, hbefore⟩ := ih.mp h
        refine ⟨i + 1, a, by simpa using hi, ha, ?_⟩
        intro j a' hj hja
        cases j with
        | zero =>
          obtain rfl : x = a' := by simpa using hja
          exact hx
        | succ j => exact hbefore j a' (Nat.lt_of_succ_lt_succ hj) (by simpa using hja)
    · rintro ⟨i, a, hi, ha, hbefore⟩
      cases i with
      | zero =>
        obtain rfl : x = a := by simpa using hi
        simp [ha]
      | succ i =>
        have hx : f x = none := hbefore 0 x (Nat.succ_pos _) rfl
        rw [hx]
        exact ih.mpr ⟨i, a, by simpa using hi, ha, fun j a' hj hja =>
          hbefore (j + 1) a' (Nat.succ_lt_succ hj) (by simpa using hja)⟩

/-! Chains are met in the lexicographic order of their paths. -/

theorem path_nil_le (p : List Nat) : [] ≤ p := by
  apply le_iff_lt_or_eq.mpr
  cases p with
  | nil => exact .inr rfl
  | cons i p => exact .inl List.Lex.nil

theorem path_cons_le_iff {j} : i :: q ≤ j :: p ↔ i < j ∨ i = j ∧ q ≤ p := by
  rw [le_iff_lt_or_eq, le_iff_lt_or_eq, cons_lt_cons_iff, List.cons.injEq]
  tauto

theorem path_le_nil (h : q ≤ []) : q = [] := by
  rcases le_iff_lt_or_eq.mp h with hlt | heq
  · cases hlt
  · exact heq

/-- The walk is stopped by a bad node exactly when some legal chain ends
in one and every chain met before it is legal. -/
theorem firstFault_eq_bad_iff : firstFault children key bad left visited n = some .bad ↔
      ∃ p ns, follow children n p = some ns ∧ bad (lastOf n ns) = true ∧
        ∀ q ms, q ≤ p → follow children n q = some ms → Legal key left visited n ms := by
  induction left generalizing visited n with
  | zero =>
    constructor
    · intro h
      rw [firstFault_zero] at h
      split at h <;> cases h
    · rintro ⟨p, ns, -, -, hlegal⟩
      exact absurd (hlegal [] [] (path_nil_le p) rfl).short (Nat.not_lt_zero _)
  | succ left ih =>
    constructor
    · intro h
      rw [firstFault_succ] at h
      split at h
      · cases h
      rename_i hfresh
      have hroot : Legal key (left + 1) visited n [] := legal_nil_iff.mpr ⟨Nat.succ_pos _, hfresh⟩
      split at h
      · rename_i hbad
        refine ⟨[], [], rfl, hbad, ?_⟩
        intro q ms hq hms
        obtain rfl : q = [] := path_le_nil hq
        obtain rfl : [] = ms := some.inj hms
        exact hroot
      obtain ⟨i, c, hi, hc, hbefore⟩ := findSome?_eq_some_iff_getElem?.mp h
      obtain ⟨p, cs, hcs, hbad, hlegal⟩ := ih.mp hc
      refine ⟨i :: p, c :: cs, follow_cons_iff.mpr ⟨c, cs, hi, hcs, rfl⟩, by simpa using hbad, ?_⟩
      intro q ms hq hms
      cases q with
      | nil =>
        obtain rfl : [] = ms := some.inj hms
        exact hroot
      | cons j q =>
        obtain ⟨d, ds, hd, hds, rfl⟩ := follow_cons_iff.mp hms
        apply legal_cons_iff.mpr
        refine ⟨hfresh, ?_⟩
        rcases path_cons_le_iff.mp hq with hj | ⟨hji, hrest⟩
        · exact (firstFault_eq_none_iff.mp (hbefore j d hj hd) q ds hds).1
        · subst hji
          obtain rfl : c = d := some.inj (hi.symm.trans hd)
          exact hlegal q ds hrest hds
    · rintro ⟨p, ns, hns, hbad, hlegal⟩
      have hfresh := (legal_nil_iff.mp (hlegal [] [] (path_nil_le p) rfl)).2
      rw [firstFault_succ]
      rw [if_neg hfresh]
      split
      · rfl
      rename_i hn
      cases p with
      | nil =>
        obtain rfl : [] = ns := some.inj hns
        exact absurd hbad hn
      | cons i p =>
        obtain ⟨c, cs, hi, hcs, rfl⟩ := follow_cons_iff.mp hns
        have hc : firstFault children key bad left (key n :: visited) c = some .bad := by
          apply ih.mpr
          refine ⟨p, cs, hcs, by simpa using hbad, ?_⟩
          intro q ds hq hds
          have hle : (i :: q) ≤ (i :: p) := path_cons_le_iff.mpr (.inr ⟨rfl, hq⟩)
          exact (legal_cons_iff.mp (hlegal _ _ hle (follow_cons_iff.mpr ⟨c, ds, hi, hds, rfl⟩))).2
        -- The siblings before the bad one are legal: if one of them
        -- stops the walk, it is at a bad node too.
        cases hfirst : (children n).findSome? (firstFault children key bad left
            (key n :: visited)) with
        | none =>
          have := List.findSome?_eq_none_iff.mp hfirst c (mem_of_getElem? hi)
          rw [hc] at this
          cases this
        | some fault =>
          obtain ⟨j, d, hj, hd, hbefore⟩ := findSome?_eq_some_iff_getElem?.mp hfirst
          rcases Nat.lt_trichotomy j i with hlt | rfl | hgt
          · congr 1
            apply firstFault_of_legal _ hd
            intro q ds hds
            have hle : (j :: q) ≤ (i :: p) := path_cons_le_iff.mpr (.inl hlt)
            exact (legal_cons_iff.mp (hlegal _ _ hle (follow_cons_iff.mpr ⟨d, ds, hj, hds, rfl⟩))).2
          · obtain rfl : c = d := some.inj (hi.symm.trans hj)
            exact hd.symm.trans hc
          · have := hbefore i c hgt hi
            rw [hc] at this
            cases this

end Expansion
