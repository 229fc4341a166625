import Mathlib.Algebra.Order.BigOperators.Group.List
import Mathlib.Algebra.Ring.Nat

/-!
# JsonText — JSON values and the length of their text

A JSON value, the fields of an object by key, and how many characters a
printer with an indentation of two blanks writes for a value. An object
with fewer fields has a shorter text (`chars_object_of_sublist`). Last, the
`==` of what `json.loads` returns: lists item by item, objects by key in
any order, numbers by value with `True` as 1.
-/

namespace JsonText

inductive Json where
  | null
  | bool (b : Bool)
  | int (n : Int)
  | float (repr : String)
  | string (s : String)
  | array (items : List Json)
  | object (fields : List (String × Json))

/-- The fields of an object, in their order. -/
abbrev Object := List (String × Json)

/-- `o.get(key)`. -/
def field (o : Object) (key : String) : Option Json :=
  (o.find? fun entry => entry.1 = key).map Prod.snd

/-- `o[key] = value`: in its place, or at the end. -/
def setField (o : Object) (key : String) (value : Json) : Object :=
  match o with
  | [] => [(key, value)]
  | (k, v) :: rest => if k = key then (k, value) :: rest else (k, v) :: setField rest key value

/-- `o.pop(key, None)`. -/
def dropField (o : Object) (key : String) : Object := o.filter fun entry => entry.1 ≠ key

def listField (o : Object) (key : String) : List Json :=
  match field o key with
  | some (.array items) => items
  | _ => []

def objectField (o : Object) (key : String) : Object :=
  match field o key with
  | some (.object fields) => fields
  | _ => []

/-- `o.get(key, 0)` of a counter. -/
def intField (o : Object) (key : String) : Int :=
  match field o key with
  | some (.int n) => n
  | _ => 0

@[simp] theorem field_nil (key) : field [] key = none := rfl

theorem field_cons (k : String) (v : Json) (o : Object) (key : String) :
    field ((k, v) :: o) key = if k = key then some v else field o key := by
  by_cases h : k = key <;> simp [field, h]

@[simp] theorem field_setField (o key) (value) : field (setField o key value) key = some value := by
  induction o with
  | nil => simp [setField, field_cons]
  | cons entry rest ih =>
    obtain ⟨k, v⟩ := entry
    by_cases h : k = key
    · simp [setField, field_cons, h]
    · simp [setField, field_cons, h, ih]

variable {o : Object} {key other : String} {depth : Nat} {fewer fields : Object}

theorem field_setField_of_ne {value}
    (hne : key ≠ other) : field (setField o key value) other = field o other := by
  induction o with
  | nil => simp [setField, field_cons, hne]
  | cons entry rest ih =>
    obtain ⟨k, v⟩ := entry
    by_cases h : k = key
    · subst h
      simp [setField, field_cons, hne]
    · simp [setField, field_cons, h, ih]

@[simp] theorem field_dropField (o key) : field (dropField o key) key = none := by
  simp [field, dropField, List.find?_eq_none]

theorem field_dropField_of_ne (hne : key ≠ other) :
    field (dropField o key) other = field o other := by
  induction o with
  | nil => rfl
  | cons entry rest ih =>
    obtain ⟨k, v⟩ := entry
    by_cases h : k = key
    · subst h
      simpa [dropField, field_cons, hne] using ih
    · have hkeep : dropField ((k, v) :: rest) key = (k, v) :: dropField rest key := by
        simp [dropField, h]
      rw [hkeep, field_cons, field_cons, ih]

theorem dropField_setField (o key) (value) :
    dropField (setField o key value) key = dropField o key := by
  induction o with
  | nil => simp [setField, dropField]
  | cons entry rest ih =>
    obtain ⟨k, v⟩ := entry
    by_cases h : k = key
    · simp [setField, dropField, h]
    · simpa [setField, dropField, h] using ih

@[simp] theorem setField_setField (o key) (old value) :
    setField (setField o key old) key value = setField o key value := by
  induction o with
  | nil => simp [setField]
  | cons entry rest ih =>
    obtain ⟨k, v⟩ := entry
    by_cases h : k = key
    · simp [setField, h]
    · simp [setField, h, ih]

/-- The escaped length of a character in a JSON string. -/
def charChars (c : Char) : Nat :=
  if c = '"' ∨ c = '\\' ∨ c.toNat = 8 ∨ c.toNat = 9 ∨ c.toNat = 10 ∨ c.toNat = 12 ∨ c.toNat = 13
  then 2
  else if c.toNat < 32 then 6 else 1

def stringChars (s : String) : Nat := 2 + (s.toList.map charChars).sum

def intChars (n : Int) : Nat :=
  (if n < 0 then 1 else 0) + (Nat.toDigits 10 n.natAbs).length

mutual
/-- The length of the text of a value that starts at the indentation
`2 * depth`. -/
def Json.chars (depth : Nat) : Json → Nat
  | .null => 4
  | .bool true => 4
  | .bool false => 5
  | .int n => intChars n
  | .float repr => repr.length
  | .string s => stringChars s
  | .array [] => 2
  | .array (item :: items) => 2 + 2 * depth + itemsChars depth (item :: items)
  | .object [] => 2
  | .object (entry :: fields) => 2 + 2 * depth + fieldsChars depth (entry :: fields)

/-- The lines of the items: a line break and the indentation before each,
a comma or the closing line break after it. -/
def itemsChars (depth : Nat) : List Json → Nat
  | [] => 0
  | item :: items => 2 + 2 * (depth + 1) + item.chars (depth + 1) + itemsChars depth items

/-- The lines of the fields. -/
def fieldsChars (depth : Nat) : List (String × Json) → Nat
  | [] => 0
  | entry :: fields => fieldChars depth entry + fieldsChars depth fields

/-- The line of a field: as that of an item, with the key and `": "`. -/
def fieldChars (depth : Nat) : String × Json → Nat
  | (key, value) => 2 + 2 * (depth + 1) + stringChars key + 2 + value.chars (depth + 1)
end

theorem fieldsChars_of_sublist
    (h : fewer.Sublist fields) : fieldsChars depth fewer ≤ fieldsChars depth fields := by
  induction h with
  | slnil => exact le_rfl
  | cons entry _ ih | cons_cons entry _ ih =>
    simp only [fieldsChars]
    omega

theorem chars_object_of_sublist (h : fewer.Sublist fields) :
    (Json.object fewer).chars depth ≤ (Json.object fields).chars depth := by
  have hlines := @fieldsChars_of_sublist depth _ _ h
  cases fewer with
  | nil =>
    cases fields with
    | nil => exact le_rfl
    | cons entry fields =>
      simp only [Json.chars]
      omega
  | cons entry fewer =>
    cases fields with
    | nil => cases h
    | cons other fields =>
      simp only [Json.chars]
      omega

example : (Json.object [("a", .array [.int 1, .null])]).chars 0 =
    "\x7b\n  \"a\": [\n    1,\n    null\n  ]\n\x7d".length := by decide

/-! ## Equal values -/

open List

/-- The integer that the `repr` of a float stands for, below `10 ** 16`. -/
def integral (repr : String) : Option Int :=
  if repr.endsWith ".0" then (repr.dropEnd 2).toInt? else none

/-- A number by its value: an integer, or the `repr` of a float that is none. -/
@[simp] def number : Json → Option (Int ⊕ String)
  | .bool b => some (.inl (if b then 1 else 0))
  | .int n => some (.inl n)
  | .float repr =>
    some (match integral repr with
      | some n => .inl n
      | none => .inr repr)
  | _ => none

mutual

/-- `a == b`. -/
@[simp] def same : Json → Json → Bool
  | .null, .null => true
  | .string s, .string t => s = t
  | .array xs, .array ys => sameItems xs ys
  | .object fs, .object gs => sameFields fs gs && gs.all fun g => (field fs g.1).isSome
  | .bool b, other => number (.bool b) = number other
  | .int n, other => number (.int n) = number other
  | .float repr, other => number (.float repr) = number other
  | _, _ => false

@[simp] def sameItems : List Json → List Json → Bool
  | [], [] => true
  | x :: xs, y :: ys => same x y && sameItems xs ys
  | _, _ => false

/-- Each of the fields is equal in the other object. -/
@[simp] def sameFields : List (String × Json) → List (String × Json) → Bool
  | [], _ => true
  | (k, v) :: rest, gs =>
    (match field gs k with
      | some w => same v w
      | none => false) && sameFields rest gs

end

variable {a : Json} {b : Json} {ys xs : List Json} {gs fs : Object} {k : String}
  {v : Json}

theorem same_string {s} (h : same a (.string s) = true) : a = .string s := by
  cases a <;> simp_all [same, number]

theorem string_same {s} (h : same (.string s) b = true) : b = .string s := by
  cases b <;> simp_all [same]

theorem same_array (h : same a (.array ys) = true) :
    ∃ xs, a = .array xs ∧ sameItems xs ys = true := by
  cases a <;> simp_all [same, number]

theorem array_same (h : same (.array xs) b = true) :
    ∃ ys, b = .array ys ∧ sameItems xs ys = true := by
  cases b <;> simp_all [same]

theorem same_object (h : same a (.object gs) = true) : ∃ fs, a = .object fs := by
  cases a <;> simp_all [same, number]

theorem object_same (h : same (.object fs) b = true) : ∃ gs, b = .object gs := by
  cases b <;> simp_all [same]

theorem sameItems_left (h : sameItems xs ys = true) {x} (hx : x ∈ xs) :
    ∃ y ∈ ys, same x y = true := by
  induction xs generalizing ys with
  | nil => cases hx
  | cons first rest ih =>
    cases ys with
    | nil => simp [sameItems] at h
    | cons other others =>
      rw [sameItems, Bool.and_eq_true] at h
      rcases mem_cons.mp hx with rfl | hx
      · exact ⟨other, mem_cons_self, h.1⟩
      · obtain ⟨y, hy, hsame⟩ := ih h.2 hx
        exact ⟨y, .tail _ hy, hsame⟩

theorem sameItems_right (h : sameItems xs ys = true) {y}
    (hy : y ∈ ys) : ∃ x ∈ xs, same x y = true := by
  induction xs generalizing ys with
  | nil =>
    cases ys with
    | nil => cases hy
    | cons other others => simp [sameItems] at h
  | cons first rest ih =>
    cases ys with
    | nil => cases hy
    | cons other others =>
      rw [sameItems, Bool.and_eq_true] at h
      rcases mem_cons.mp hy with rfl | hy
      · exact ⟨first, mem_cons_self, h.1⟩
      · obtain ⟨x, hx, hsame⟩ := ih h.2 hy
        exact ⟨x, .tail _ hx, hsame⟩

theorem sameFields_field (h : sameFields fs gs = true)
    (hv : field fs k = some v) : ∃ w, field gs k = some w ∧ same v w = true := by
  induction fs with
  | nil => cases hv
  | cons entry rest ih =>
    obtain ⟨key, value⟩ := entry
    rw [sameFields, Bool.and_eq_true] at h
    rw [field_cons] at hv
    split at hv
    · rename_i hkey
      subst hkey
      cases hv
      cases hw : field gs key with
      | none => simp [hw] at h
      | some w => exact ⟨w, rfl, by simpa [hw] using h.1⟩
    · exact ih h.2 hv

theorem same_field (h : same (.object fs) (.object gs) = true)
    (hv : field fs k = some v) : ∃ w, field gs k = some w ∧ same v w = true := by
  rw [same, Bool.and_eq_true] at h
  exact sameFields_field h.1 hv

theorem field_mem {o} (h : field o k = some v) : (k, v) ∈ o := by
  induction o with
  | nil => cases h
  | cons entry rest ih =>
    obtain ⟨key, value⟩ := entry
    rw [field_cons] at h
    split at h
    · rename_i hkey
      subst hkey
      cases h
      exact mem_cons_self
    · exact .tail _ (ih h)

theorem field_same (h : same (.object fs) (.object gs) = true) {w}
    (hw : field gs k = some w) : ∃ v, field fs k = some v ∧ same v w = true := by
  rw [same, Bool.and_eq_true, all_eq_true] at h
  obtain ⟨v, hv⟩ := Option.isSome_iff_exists.mp (h.2 _ (field_mem hw))
  obtain ⟨w', hw', hsame⟩ := sameFields_field h.1 hv
  cases hw'.symm.trans hw
  exact ⟨v, hv, hsame⟩

mutual

/-- No object in the value has a key twice. -/
@[simp] def Distinct : Json → Prop
  | .array items => DistinctItems items
  | .object fields => (fields.map Prod.fst).Nodup ∧ DistinctFields fields
  | _ => True

@[simp] def DistinctItems : List Json → Prop
  | [] => True
  | item :: rest => Distinct item ∧ DistinctItems rest

@[simp] def DistinctFields : List (String × Json) → Prop
  | [] => True
  | (_, value) :: rest => Distinct value ∧ DistinctFields rest

end

theorem field_of_mem {o} (h : (o.map Prod.fst).Nodup) (hmem : (k, v) ∈ o) : field o k = some v := by
  induction o with
  | nil => cases hmem
  | cons entry rest ih =>
    obtain ⟨key, value⟩ := entry
    rw [map_cons, nodup_cons] at h
    rcases mem_cons.mp hmem with heq | hrest
    · cases heq
      simp [field_cons]
    · have hne : key ≠ k := by
        rintro rfl
        exact h.1 (mem_map.mpr ⟨(key, v), hrest, rfl⟩)
      rw [field_cons, if_neg hne]
      exact ih h.2 hrest

theorem DistinctFields.of_mem {fields : Object} (h : DistinctFields fields)
    (hmem : (k, v) ∈ fields) : Distinct v := by
  induction fields with
  | nil => cases hmem
  | cons entry rest ih =>
    obtain ⟨key, value⟩ := entry
    rcases mem_cons.mp hmem with heq | hrest
    · cases heq
      exact h.1
    · exact ih h.2 hrest

mutual

theorem same_refl : (value : Json) → Distinct value → same value value = true
  | .null, _ => rfl
  | .bool _, _ => by simp [same]
  | .int _, _ => by simp [same]
  | .float _, _ => by simp [same]
  | .string _, _ => by simp [same]
  | .array items, h => sameItems_refl items h
  | .object fields, h => by
    rw [same, Bool.and_eq_true]
    refine ⟨sameFields_of_field fields fields h.2 fun k v hmem => field_of_mem h.1 hmem, ?_⟩
    rw [all_eq_true]
    intro entry hentry
    rw [field_of_mem h.1 (show (entry.1, entry.2) ∈ fields from hentry)]
    rfl

theorem sameItems_refl : (items : List Json) → DistinctItems items → sameItems items items = true
  | [], _ => rfl
  | item :: rest, h => by
    rw [sameItems, same_refl item h.1, sameItems_refl rest h.2]
    rfl

theorem sameFields_of_field : (fields others : Object) → DistinctFields fields →
    (∀ k v, (k, v) ∈ fields → field others k = some v) → sameFields fields others = true
  | [], _, _, _ => rfl
  | (k, v) :: rest, others, h, hfields => by
    have hrest : sameFields rest others = true :=
      sameFields_of_field rest others h.2 fun k v hmem =>
        hfields k v (.tail _ hmem)
    rw [sameFields, hfields k v mem_cons_self, hrest]
    simpa using same_refl v h.1

end

end JsonText
