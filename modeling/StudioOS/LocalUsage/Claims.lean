import Mathlib.Data.List.Induction
import StudioOS.LocalUsage.OpenCode

/-!
# Claims — what a read of the store emits of them

A read remembers of every session the claim it made last, and emits the claims
of its window that are not that one.
-/

namespace StudioOS.LocalUsage.OpenCode

open List

def Item.claim? (item : Item) : Option TaskClaim :=
  match item.emission with
  | .claim claim => some claim
  | .usage _ => none

def Item.usage? (item : Item) : Option UsageEvent := item.emission.usage?

def claimsOf (items : List Item) : List TaskClaim := items.filterMap Item.claim?

/-- The claim in force behind these items. -/
def inForce (current : Option Claimed) (items : List Item) : Option Claimed :=
  ((claimsOf items).getLast?.map TaskClaim.claimed).or current

/-- The latest of the claims at or before a time. -/
def latest (claims : List (String × TaskClaim)) (ts : Timestamp) : Option Claimed :=
  (claims.filter fun claim => claim.2.ts ≤ ts).getLast?.map fun claim => claim.2.claimed

variable {current : Option Claimed} {item : Item} {claim : TaskClaim}
  {front : List Item} {taken : List (String × TaskClaim)} {sessionId : String}
  {again : List TaskClaim}

theorem inForce_append_claim {before} (h : item.emission = .claim claim) :
    inForce current (before ++ [item]) = some claim.claimed := by
  simp [inForce, claimsOf, Item.claim?, h]

theorem inForce_append_usage {event before} (h : item.emission = .usage event) :
    inForce current (before ++ [item]) = inForce current before := by
  simp [inForce, claimsOf, Item.claim?, h]

section Stream

variable {items : List Item}

theorem before_trans (a b c : Item) (hab : a.before b = true) (hbc : b.before c = true) :
    a.before c = true := by
  simp only [Item.before, decide_eq_true_eq, Timestamp] at hab hbc ⊢
  omega

theorem before_total (a b : Item) : (a.before b || b.before a) = true := by
  simp only [Item.before, Bool.or_eq_true, decide_eq_true_eq, Timestamp]
  omega

theorem mem_claimsOf : claim ∈ claimsOf items ↔ ∃ item ∈ items, item.emission = .claim claim := by
  simp only [claimsOf, mem_filterMap]
  constructor
  · intro h
    obtain ⟨item, hitem, hclaim⟩ := h
    refine ⟨item, hitem, ?_⟩
    cases hemission : item.emission with
    | claim other =>
      simp only [Item.claim?, hemission] at hclaim
      rw [Option.some.inj hclaim]
    | usage event => simp [Item.claim?, hemission] at hclaim
  · intro h
    obtain ⟨item, hitem, hclaim⟩ := h
    exact ⟨item, hitem, by simp [Item.claim?, hclaim]⟩

/-- The time of an item is the time of what it emits. -/
def Timed (items : List Item) : Prop :=
  ∀ item ∈ items, ∀ claim, item.emission = .claim claim → item.ts = claim.ts

theorem claimsOf_front {event back}
    (hsorted : (front ++ item :: back).Pairwise fun a b => a.before b = true)
    (htimed : Timed (front ++ item :: back)) (hitem : item.emission = .usage event) :
    claimsOf front = (claimsOf (front ++ item :: back)).filter fun claim => claim.ts ≤ item.ts := by
  have husage : item.kind = 1 := by simp [Item.kind, hitem]
  obtain ⟨-, hback, hcross⟩ := pairwise_append.mp hsorted
  have hfront : ∀ claim ∈ claimsOf front, claim.ts ≤ item.ts := by
    intro claim hclaim
    obtain ⟨other, hother, hemission⟩ := mem_claimsOf.mp hclaim
    have hbefore := hcross other hother item (by simp)
    rw [← htimed other (mem_append_left _ hother) claim hemission]
    simp only [Item.before, decide_eq_true_eq, Timestamp] at hbefore ⊢
    omega
  have hbehind : ∀ claim ∈ claimsOf back, ¬ claim.ts ≤ item.ts := by
    intro claim hclaim
    obtain ⟨other, hother, hemission⟩ := mem_claimsOf.mp hclaim
    have hbefore := (pairwise_cons.mp hback).1 other hother
    have hkind : other.kind = 0 := by simp [Item.kind, hemission]
    rw [← htimed other (by simp [hother]) claim hemission]
    simp only [Item.before, decide_eq_true_eq, Timestamp] at hbefore ⊢
    omega
  have hnone : item.claim? = none := by simp [Item.claim?, hitem]
  have hsplit : claimsOf (front ++ item :: back) = claimsOf front ++ claimsOf back := by
    simp [claimsOf, hnone]
  rw [hsplit, filter_append, filter_eq_self.mpr (by simpa using hfront),
    filter_eq_nil_iff.mpr (by simpa using hbehind), append_nil]

theorem claimsOf_perm {other} (h : items.Perm other) : (claimsOf items).Perm (claimsOf other) :=
  h.filterMap _

theorem claimsOf_sorted (hsorted : items.Pairwise fun a b => a.before b = true)
    (htimed : Timed items) : (claimsOf items).Pairwise fun a b => a.ts ≤ b.ts := by
  induction items with
  | nil => exact List.Pairwise.nil
  | cons item items ih =>
    obtain ⟨hitem, hrest⟩ := pairwise_cons.mp hsorted
    have hih := ih hrest fun other hother => htimed other (.tail _ hother)
    cases hemission : item.emission with
    | usage event => simpa [claimsOf, Item.claim?, hemission] using hih
    | claim claim =>
      have hclaims : claimsOf (item :: items) = claim :: claimsOf items := by
        simp [claimsOf, Item.claim?, hemission]
      rw [hclaims]
      refine List.Pairwise.cons ?_ hih
      intro other hother
      obtain ⟨next, hnext, hnextClaim⟩ := mem_claimsOf.mp hother
      have hbefore := hitem next hnext
      simp only [Item.before, decide_eq_true_eq] at hbefore
      rw [← htimed item (by simp) claim hemission, ← htimed next (by simp [hnext]) other hnextClaim]
      rcases hbefore with hlt | ⟨heq, -⟩
      · exact hlt.le
      · exact heq.le

theorem claimsOf_mergeSort {claims} (hclaims : claimsOf items = claims) (htimed : Timed items)
    (hstrict : claims.Pairwise fun a b => a.ts < b.ts) :
    claimsOf (items.mergeSort Item.before) = claims := by
  have hperm := mergeSort_perm items Item.before
  have htimed' : Timed (items.mergeSort Item.before) :=
    fun item hitem => htimed item (hperm.mem_iff.mp hitem)
  have hsorted := claimsOf_sorted
    (pairwise_mergeSort before_trans before_total items) htimed'
  refine Keyed.eq_of_sorted ((claimsOf_perm hperm).trans (.of_eq hclaims)) hsorted hstrict ?_
  intro a _ b _ hlt
  exact ⟨hlt.le, hlt.not_ge⟩

end Stream

/-! ## The claims a read takes -/

section Dictionary

variable {α : Type}

theorem lookup_cons (entry : String × α) (entries : List (String × α)) (k : String) :
    lookup (entry :: entries) k = if entry.1 = k then some entry.2 else lookup entries k := by
  by_cases h : entry.1 = k <;> simp [lookup, h]

theorem lookup_overwrite (entries) (key k) (value : α) :
    lookup (entries.map fun entry => if entry.1 = key then (key, value) else entry) k =
      if k = key then (lookup entries k).map fun _ => value else lookup entries k := by
  induction entries with
  | nil => simp [lookup]
  | cons entry entries ih =>
    rw [map_cons, lookup_cons, lookup_cons, ih]
    by_cases hentry : entry.1 = key
    · by_cases hk : k = key
      · simp [hentry, hk]
      · have hne : ¬ key = k := fun h => hk h.symm
        simp [hentry, hk, hne]
    · by_cases hk : k = key <;> simp [hentry, hk]

theorem lookup_snoc (entries) (key k) (value : α) :
    lookup (entries ++ [(key, value)]) k =
      (lookup entries k).or (if key = k then some value else none) := by
  induction entries with
  | nil => simp [lookup]
  | cons entry entries ih =>
    rw [cons_append, lookup_cons, lookup_cons, ih]
    split <;> simp

theorem lookup_eq_none {entries : List (String × α)} {key : String} :
    lookup entries key = none ↔ ¬ entries.any fun entry => entry.1 = key := by
  rw [lookup, Option.map_eq_none_iff, List.find?_eq_none, any_eq_true, not_exists]
  simp [not_and]

theorem lookup_assign (entries) (key k) (value : α) :
    lookup (assign entries key value) k = if k = key then some value else lookup entries k := by
  by_cases hmem : entries.any fun entry => entry.1 = key
  · obtain ⟨old, hold⟩ := Option.ne_none_iff_exists'.mp fun h => lookup_eq_none.mp h hmem
    rw [assign, if_pos hmem, lookup_overwrite]
    by_cases hk : k = key
    · simp [hk, hold]
    · simp [hk]
  · have hnone := lookup_eq_none.mpr hmem
    rw [assign, if_neg hmem, lookup_snoc]
    by_cases hk : k = key
    · simp [hk, hnone]
    · have hne : ¬ key = k := fun h => hk h.symm
      simp [hk, hne]

end Dictionary

/-- `_claims` over the claims of its rows. -/
def takeClaims (claims : List (String × Fingerprint)) :
    List (String × TaskClaim) → List (String × Fingerprint) × List Item
  | [] => (claims, [])
  | claim :: rest =>
    let taken := takeClaim claims claim.1 claim.2
    let later := takeClaims taken.1 rest
    (later.1, taken.2 ++ later.2)

def lastOf (claims : List (String × TaskClaim)) (sessionId : String) : Option Fingerprint :=
  (claims.filter fun claim => claim.1 = sessionId).getLast?.map fun claim => fingerprint claim.2

section Taking

variable {claims : List (String × Fingerprint)}

theorem readClaims_returns {env rows} (h : (readClaims env claims rows).raised = false) :
    (readClaims env claims rows).claims = (takeClaims claims (rows.filterMap (claimOf env))).1 ∧
      (readClaims env claims rows).items =
        (takeClaims claims (rows.filterMap (claimOf env))).2 := by
  induction rows generalizing claims with
  | nil => exact ⟨rfl, rfl⟩
  | cons row rest ih =>
    cases hrow : partClaim env row with
    | error raised => simp [readClaims, hrow] at h
    | ok found =>
      cases found with
      | none =>
        have hskip : claimOf env row = none := by simp [claimOf, hrow]
        simp only [readClaims, hrow] at h ⊢
        rw [filterMap_cons_none hskip]
        exact ih h
      | some claim =>
        have htake : claimOf env row = some (row.sessionId, claim) := by
          simp [claimOf, hrow]
        simp only [readClaims, hrow] at h ⊢
        rw [filterMap_cons_some htake]
        obtain ⟨hclaims, hitems⟩ := ih h
        exact ⟨hclaims, by simp only [takeClaims, hitems]⟩

theorem takeClaims_append (first second) :
    takeClaims claims (first ++ second) = ((takeClaims (takeClaims claims first).1 second).1,
        (takeClaims claims first).2 ++ (takeClaims (takeClaims claims first).1 second).2) := by
  induction first generalizing claims with
  | nil => simp [takeClaims]
  | cons claim first ih => simp [takeClaims, ih]

theorem lookup_takeClaim (sessionId k) (claim) :
    lookup (takeClaim claims sessionId claim).1 k =
      if k = sessionId then some (fingerprint claim) else lookup claims k := by
  by_cases h : lookup claims sessionId = some (fingerprint claim)
  · by_cases hk : k = sessionId <;> simp [takeClaim, h, hk]
  · simp [takeClaim, h, lookup_assign]

theorem lookup_takeClaims (taken) (k) :
    lookup (takeClaims claims taken).1 k = (lastOf taken k).or (lookup claims k) := by
  induction taken using List.reverseRecOn with
  | nil => simp [takeClaims, lastOf]
  | append_singleton taken claim ih =>
    rw [takeClaims_append]
    simp only [takeClaims, lookup_takeClaim, ih]
    by_cases hk : k = claim.1
    · simp [lastOf, hk]
    · have hne : ¬ claim.1 = k := fun h => hk h.symm
      simp [lastOf, hk, hne]

theorem takeClaims_seen (h : ∀ claim ∈ taken, lookup claims claim.1 = some (fingerprint claim.2)) :
    takeClaims claims taken = (claims, []) := by
  induction taken with
  | nil => rfl
  | cons claim taken ih =>
    have hclaim := h claim (by simp)
    have hrest := ih fun other hother => h other (.tail _ hother)
    simp [takeClaims, takeClaim, hclaim, hrest]

theorem claimsOf_append (first second) :
    claimsOf (first ++ second) = claimsOf first ++ claimsOf second :=
  filterMap_append

theorem claimsOf_takeClaim_of_ne (h : lookup claims sessionId ≠ some (fingerprint claim)) :
    claimsOf (takeClaim claims sessionId claim).2 = [claim] := by
  simp [takeClaim, h, claimsOf, Item.claim?]

theorem takeClaims_new (hnew : ∀ sessionId known, lookup claims sessionId = some known →
      ∀ claim ∈ taken, known.ts < claim.2.ts)
    (hstrict : taken.Pairwise fun a b => a.2.ts < b.2.ts) :
    claimsOf (takeClaims claims taken).2 = taken.map Prod.snd := by
  induction taken generalizing claims with
  | nil => rfl
  | cons claim taken ih =>
    obtain ⟨hclaim, hrest⟩ := pairwise_cons.mp hstrict
    have hne : lookup claims claim.1 ≠ some (fingerprint claim.2) := by
      intro heq
      exact absurd (hnew claim.1 _ heq claim (by simp)) (Nat.lt_irrefl _)
    have hlater := @ih (takeClaim claims claim.1 claim.2).1 ?_ hrest
    · rw [takeClaims, claimsOf_append, claimsOf_takeClaim_of_ne hne, hlater, map_cons]
      rfl
    intro sessionId known hknown other hother
    rw [lookup_takeClaim] at hknown
    split at hknown
    · rw [← Option.some.inj hknown]
      exact hclaim other hother
    · exact hnew sessionId known hknown other (.tail _ hother)

theorem claimsOf_takeClaims_sublist (taken) :
    (claimsOf (takeClaims claims taken).2).Sublist (taken.map Prod.snd) := by
  induction taken generalizing claims with
  | nil => exact List.Sublist.slnil
  | cons claim taken ih =>
    rw [takeClaims, claimsOf_append, map_cons]
    by_cases h : lookup claims claim.1 = some (fingerprint claim.2)
    · have hnone : claimsOf (takeClaim claims claim.1 claim.2).2 = [] := by
        simp [takeClaim, h, claimsOf]
      rw [hnone, nil_append]
      exact ih.cons claim.2
    · rw [claimsOf_takeClaim_of_ne h]
      exact ih.cons_cons claim.2

theorem timed_takeClaims (taken) : Timed (takeClaims claims taken).2 := by
  induction taken generalizing claims with
  | nil => simp [takeClaims, Timed]
  | cons claim taken ih =>
    intro item hitem other hother
    rcases mem_append.mp hitem with hitem | hitem
    · by_cases h : lookup claims claim.1 = some (fingerprint claim.2)
      · simp [takeClaim, h] at hitem
      · simp only [takeClaim, h, if_false, mem_singleton] at hitem
        subst hitem
        cases hother
        rfl
    · exact ih item hitem other hother

theorem lastOf_mem {known} (h : lastOf taken sessionId = some known) :
    ∃ claim ∈ taken, claim.1 = sessionId ∧ fingerprint claim.2 = known := by
  obtain ⟨claim, hlast, rfl⟩ := Option.map_eq_some_iff.mp h
  obtain ⟨hmem, hsession⟩ := mem_filter.mp (List.mem_of_getLast? hlast)
  exact ⟨claim, hmem, by simpa using hsession, rfl⟩

end Taking

/-- No session has made two of the claims, or the one that made the last has. -/
def Settled (claims : List (String × TaskClaim)) : Prop :=
  (claims.map Prod.fst).Nodup ∨
    ∃ front last, claims = front ++ [last] ∧ last.1 ∈ front.map Prod.fst

theorem exists_lastOf {claims}
    (h : sessionId ∈ claims.map Prod.fst) : ∃ known, lastOf claims sessionId = some known := by
  obtain ⟨claim, hclaim, hsession⟩ := mem_map.mp h
  have hmem : claim ∈ claims.filter fun claim => claim.1 = sessionId := by
    simp [mem_filter, hclaim, hsession]
  cases hlast : (claims.filter fun claim => claim.1 = sessionId).getLast? with
  | none =>
    rw [List.getLast?_eq_none_iff] at hlast
    rw [hlast] at hmem
    cases hmem
  | some last => exact ⟨fingerprint last.2, by simp [lastOf, hlast]⟩

theorem lastOf_append (first second) (sessionId) :
    lastOf (first ++ second) sessionId = (lastOf second sessionId).or (lastOf first sessionId) := by
  simp only [lastOf, filter_append, List.getLast?_append]
  cases (second.filter fun claim => claim.1 = sessionId).getLast? <;> rfl

theorem lastOf_of_nodup {claims} (h : (claims.map Prod.fst).Nodup) {claim}
    (hclaim : claim ∈ claims) :
    lastOf claims claim.1 = some (fingerprint claim.2) := by
  obtain ⟨known, hknown⟩ := exists_lastOf (mem_map_of_mem hclaim)
  obtain ⟨last, hlast, hsession, rfl⟩ := lastOf_mem hknown
  rw [hknown, Keyed.eq_of_key h hlast hclaim hsession]

section Window

variable {read : Nat}

/-- What a read emits of the claims it has already read: nothing, or also the last. -/
theorem takeClaims_again {claims before again} (hstrict : again.Pairwise fun a b => a.2.ts < b.2.ts)
    (hknown : ∀ sessionId, lookup claims sessionId = lastOf (before ++ again) sessionId)
    (hsettled : Settled again) : claimsOf (takeClaims claims again).2 = [] ∨
      (claimsOf (takeClaims claims again).2).getLast? =
        (before ++ again).getLast?.map Prod.snd := by
  rcases hsettled with hnodup | ⟨front, last, rfl, hlast⟩
  · left
    rw [takeClaims_seen]
    · rfl
    · intro claim hclaim
      rw [hknown, lastOf_append, lastOf_of_nodup hnodup hclaim]
      rfl
  · right
    have hne : lookup (takeClaims claims front).1 last.1 ≠ some (fingerprint last.2) := by
      obtain ⟨known, hfound⟩ := exists_lastOf hlast
      obtain ⟨claim, hclaim, -, rfl⟩ := lastOf_mem hfound
      rw [lookup_takeClaims, hfound]
      intro heq
      have hts : claim.2.ts = last.2.ts := congrArg Fingerprint.ts (Option.some.inj heq)
      have hlt := (pairwise_append.mp hstrict).2.2 claim hclaim last (by simp)
      exact absurd hts hlt.ne
    rw [takeClaims_append, claimsOf_append]
    simp [takeClaims, claimsOf_takeClaim_of_ne hne]

/-- **The claims of a read**: some that were read before, of which the last is the last of
them all, and everything that is new. -/
theorem takeClaims_window {claims all k} (hstrict : all.Pairwise fun a b => a.2.ts < b.2.ts)
    (hk : k ≤ read)
    (hread : read ≤ all.length)
    (hknown : ∀ sessionId, lookup claims sessionId = lastOf (all.take read) sessionId)
    (hsettled : Settled ((all.take read).drop k)) :
    ∃ again, claimsOf (takeClaims claims (all.drop k)).2 = again ++ (all.drop read).map Prod.snd ∧
      again.Sublist ((all.take read).map Prod.snd) ∧
      (again = [] ∨ again.getLast? = (all.take read).getLast?.map Prod.snd) ∧
      ∀ sessionId, lookup (takeClaims claims (all.drop k)).1 sessionId = lastOf all sessionId := by
  have hsplit : all.drop k = (all.take read).drop k ++ all.drop read := by
    conv_lhs => rw [← take_append_drop read all]
    refine drop_append_of_le_length ?_
    rw [length_take]
    omega
  have hall : all.Pairwise fun a b => a.2.ts < b.2.ts := hstrict
  rw [← take_append_drop read all] at hall
  obtain ⟨hold, hfresh, hcross⟩ := pairwise_append.mp hall
  have hdict : ∀ sessionId, lookup (takeClaims claims ((all.take read).drop k)).1 sessionId =
      lastOf (all.take read) sessionId := by
    intro sessionId
    rw [lookup_takeClaims, hknown]
    have hlast := lastOf_append ((all.take read).take k) ((all.take read).drop k) sessionId
    rw [take_append_drop] at hlast
    rw [hlast]
    cases lastOf ((all.take read).drop k) sessionId <;> simp
  refine ⟨claimsOf (takeClaims claims ((all.take read).drop k)).2, ?_, ?_, ?_, ?_⟩
  · rw [hsplit, takeClaims_append, claimsOf_append, takeClaims_new ?_ hfresh]
    intro sessionId known hlookup claim hclaim
    rw [hdict] at hlookup
    obtain ⟨other, hother, -, rfl⟩ := lastOf_mem hlookup
    exact hcross other hother claim hclaim
  · exact (claimsOf_takeClaims_sublist _).trans ((drop_sublist _ _).map _)
  · have hagain := @takeClaims_again claims ((all.take read).take k) ((all.take read).drop k)
      (hold.sublist (drop_sublist _ _)) ?_ hsettled
    · rwa [take_append_drop] at hagain
    · intro sessionId
      rw [take_append_drop]
      exact hknown sessionId
  · intro sessionId
    rw [hsplit, takeClaims_append]
    show lookup (takeClaims _ (all.drop read)).1 sessionId = _
    rw [lookup_takeClaims, hdict, ← lastOf_append, take_append_drop]

/-- Behind what a read emits, the claim in force is the last that the store had for it. -/
theorem inForce_of_claims {old new : List (String × TaskClaim)}
    (hfront : claimsOf front = again ++ new.map Prod.snd)
    (hlast : again = [] ∨ again.getLast? = old.getLast?.map Prod.snd)
    (hcurrent : current = old.getLast?.map fun claim => claim.2.claimed) :
    inForce current front = (old ++ new).getLast?.map fun claim => claim.2.claimed := by
  rw [inForce, hfront, List.getLast?_append, List.getLast?_append, List.getLast?_map]
  cases new.getLast? with
  | some claim => rfl
  | none =>
    rcases hlast with rfl | hlast
    · simp [hcurrent]
    · cases hold : old.getLast? with
      | none => simp [hlast, hcurrent, hold]
      | some claim => simp [hlast, hold]

/-- Behind everything that was read, the claim in force is the latest of the store. -/
theorem inForce_eq_latest {all ts} (hfront : claimsOf front =
      (again ++ (all.drop read).map Prod.snd).filter fun claim => claim.ts ≤ ts)
    (hagain : again.Sublist ((all.take read).map Prod.snd))
    (hlast : again = [] ∨ again.getLast? = (all.take read).getLast?.map Prod.snd)
    (hcurrent : current = (all.take read).getLast?.map fun claim => claim.2.claimed)
    (hold : ∀ claim ∈ all.take read, claim.2.ts ≤ ts) : inForce current front = latest all ts := by
  have hkept : again.filter (fun claim => claim.ts ≤ ts) = again := by
    refine filter_eq_self.mpr fun claim hclaim => ?_
    obtain ⟨other, hother, rfl⟩ := mem_map.mp (hagain.subset hclaim)
    simpa using hold other hother
  have htaken : (all.take read).filter (fun claim => claim.2.ts ≤ ts) = all.take read :=
    filter_eq_self.mpr fun claim hclaim => by simpa using hold claim hclaim
  have hall : all.filter (fun claim => claim.2.ts ≤ ts) =
      all.take read ++ (all.drop read).filter fun claim => claim.2.ts ≤ ts := by
    conv_lhs => rw [← take_append_drop read all]
    rw [filter_append, htaken]
  have hnew : ((all.drop read).map Prod.snd).filter (fun claim => claim.ts ≤ ts) =
      ((all.drop read).filter fun claim => claim.2.ts ≤ ts).map Prod.snd := by
    rw [filter_map]
    rfl
  rw [latest, hall]
  refine inForce_of_claims ?_ hlast hcurrent
  rw [hfront, filter_append, hkept, hnew]

end Window

end StudioOS.LocalUsage.OpenCode
