import StudioOS.Library.JsonText
import StudioOS.Library.Text

/-!
# Redaction — the credentials of a harness entry

`redact` masks the literal values of the objects under `headers` and `env`.
Two entries that are alike, up to the literal characters of these values,
have one redacted form exactly when what sets them apart is masked.
-/

namespace StudioOS.Harness

open JsonText

def tokenMark : String := "<token>"

def secretMark : String := "<secret>"

def secretContainers : List String := ["headers", "env"]

def bearer : String := "Bearer "

/-- `value.startswith(_BEARER)` -/
def hasBearer (value : String) : Bool := bearer.toList.isPrefixOf value.toList

/-- A value that names a secret instead of holding one. -/
def isReference (value : String) : Bool :=
  Text.contains "$\x7b".toList value.toList || Text.contains "\x7benv:".toList value.toList

def redactValue : Json → Json
  | .string value =>
    if isReference value then .string value
    else if hasBearer value then .string (bearer ++ tokenMark)
    else .string secretMark
  | value => value

/-- `isinstance(value, dict)` -/
def isObject : Json → Bool
  | .object _ => true
  | _ => false

/-- `{name: _redact_value(item) for name, item in value.items()}` -/
def maskObject : Json → Json
  | .object fields => .object (fields.map fun entry => (entry.1, redactValue entry.2))
  | value => value

mutual

/-- `entry` with every literal header or environment value masked. -/
def redact : Json → Json
  | .object fields => .object (redactFields fields)
  | .array items => .array (redactItems items)
  | entry => entry

def redactItems : List Json → List Json
  | [] => []
  | item :: rest => redact item :: redactItems rest

def redactFields : List (String × Json) → List (String × Json)
  | [] => []
  | (key, value) :: rest =>
    (key, if secretContainers.contains key && isObject value then maskObject value
      else redact value) :: redactFields rest

end

/-- A reference begins here: `${` or `{env:`. -/
def opens (text : List Char) : Bool :=
  "$\x7b".toList.isPrefixOf text || "\x7benv:".toList.isPrefixOf text

/-- The closed references of a text, behind `open?`, what the current one has so far. -/
def references (open? : Option (List Char)) : List Char → List (List Char)
  | [] => []
  | c :: rest =>
    match open? with
    | none =>
      if opens (c :: rest) && rest.contains '}' then references (some [c]) rest
      else references none rest
    | some name =>
      if c = '}' then (name ++ [c]) :: references none rest
      else references (some (name ++ [c])) rest

/-- Two texts that are equal but for their literal characters. -/
def AlikeText (x y : String) : Prop :=
  references none x.toList = references none y.toList ∧ hasBearer x = hasBearer y

instance decidableAlikeText (x y : String) : Decidable (AlikeText x y) :=
  inferInstanceAs (Decidable (_ ∧ _))

/-- Two values that are equal but for the literal characters of what `headers` and `env` hold,
  `inside` one of them or not. -/
inductive Alike : Bool → Json → Json → Prop
  | same (inside : Bool) (a : Json) : Alike inside a a
  | string {x y : String} (h : AlikeText x y) : Alike true (.string x) (.string y)
  | array {inside : Bool} {xs ys : List Json} (hlength : xs.length = ys.length)
      (h : ∀ (i : Nat) (v w : Json), xs[i]? = some v → ys[i]? = some w → Alike inside v w) :
      Alike inside (.array xs) (.array ys)
  | object {inside : Bool} {fs gs : List (String × Json)}
      (hkeys : fs.map Prod.fst = gs.map Prod.fst)
      (h : ∀ (i : Nat) (key : String) (v w : Json), fs[i]? = some (key, v) →
        gs[i]? = some (key, w) → Alike (inside || secretContainers.contains key) v w) :
      Alike inside (.object fs) (.object gs)

/-- The way to a value: the keys, and `none` for an item of a list. -/
abbrev Place := List (Option String)

/-- `x` and `y` stand at one place of the two values, and are not equal. -/
inductive Differing : Place → String → String → Json → Json → Prop
  | here {x y : String} (h : x ≠ y) : Differing [] x y (.string x) (.string y)
  | item {place : Place} {x y : String} {xs ys : List Json} {i : Nat} {v w : Json}
      (hv : xs[i]? = some v) (hw : ys[i]? = some w) (h : Differing place x y v w) :
      Differing (none :: place) x y (.array xs) (.array ys)
  | field {place : Place} {x y : String} {fs gs : List (String × Json)} {i : Nat} {key : String}
      {v w : Json} (hv : fs[i]? = some (key, v)) (hw : gs[i]? = some (key, w))
      (h : Differing place x y v w) :
      Differing (some key :: place) x y (.object fs) (.object gs)

/-- The first object under `headers` or `env` on the way holds the value itself. -/
def masked : Place → Bool
  | [] => false
  | step :: rest =>
    if step.any secretContainers.contains && rest.head?.join.isSome then rest.length = 1
    else masked rest

variable {a b v w : Json} {x y key : String} {place : Place} {inside : Bool}
  {fs gs : List (String × Json)}

theorem isReference_mark : isReference (bearer ++ tokenMark) = false ∧
    isReference secretMark = false := by
  constructor <;> simp [isReference, bearer, tokenMark, secretMark, Text.contains, List.isPrefixOf]

theorem hasBearer_mark : hasBearer (bearer ++ tokenMark) = true ∧ hasBearer secretMark = false := by
  constructor <;> simp [hasBearer, bearer, tokenMark, secretMark, List.isPrefixOf]

theorem redactValue_redactValue : redactValue (redactValue v) = redactValue v := by
  cases v with
  | string value =>
    simp only [redactValue]
    by_cases href : isReference value = true
    · simp [href]
    · by_cases hbearer : hasBearer value = true
      · simp [href, hbearer, isReference_mark.1, hasBearer_mark.1]
      · simp [href, hbearer, isReference_mark.2, hasBearer_mark.2]
  | _ => rfl

@[simp] theorem isObject_maskObject : isObject (maskObject v) = isObject v := by
  cases v <;> rfl

@[simp] theorem isObject_redact : isObject (redact v) = isObject v := by
  cases v <;> simp only [redact, isObject]

theorem maskObject_maskObject : maskObject (maskObject v) = maskObject v := by
  cases v with
  | object fields => simp [maskObject, redactValue_redactValue]
  | _ => rfl

mutual

theorem redact_redact : ∀ a : Json, redact (redact a) = redact a
  | .object fields => by rw [redact, redact, redactFields_redactFields fields]
  | .array items => by rw [redact, redact, redactItems_redactItems items]
  | .null => rfl
  | .bool _ => rfl
  | .int _ => rfl
  | .float _ => rfl
  | .string _ => rfl

theorem redactItems_redactItems :
    ∀ items : List Json, redactItems (redactItems items) = redactItems items
  | [] => rfl
  | item :: rest => by
    rw [redactItems, redactItems, redact_redact item, redactItems_redactItems rest]

theorem redactFields_redactFields :
    ∀ fields : List (String × Json), redactFields (redactFields fields) = redactFields fields
  | [] => rfl
  | (key, value) :: rest => by
    rw [redactFields, redactFields, redactFields_redactFields rest]
    by_cases h : (secretContainers.contains key && isObject value) = true
    · simp only [h, if_true, isObject_maskObject, maskObject_maskObject]
    · simp only [h, Bool.false_eq_true, if_false, isObject_redact, redact_redact value]

end

theorem redactItems_eq (items) : redactItems items = items.map redact := by
  induction items with
  | nil => rfl
  | cons item rest ih => rw [redactItems, ih, List.map_cons]

/-- What a field is turned to. -/
def redactField (entry : String × Json) : String × Json :=
  (entry.1, if secretContainers.contains entry.1 && isObject entry.2 then maskObject entry.2
    else redact entry.2)

theorem redactFields_eq (fields) : redactFields fields = fields.map redactField := by
  induction fields with
  | nil => rfl
  | cons entry rest ih => rw [redactFields, ih, List.map_cons, redactField]

theorem map_eq_map_iff {α β : Type} {f : α → β} {xs ys : List α} (h : xs.length = ys.length) :
    xs.map f = ys.map f ↔ ∀ (i : Nat) (v w : α), xs[i]? = some v → ys[i]? = some w → f v = f w := by
  induction xs generalizing ys with
  | nil => cases ys <;> simp_all
  | cons x xs ih =>
    cases ys with
    | nil => simp at h
    | cons y ys =>
      rw [List.map_cons, List.map_cons, List.cons.injEq, ih (by simpa using h)]
      constructor
      · rintro ⟨hhead, htail⟩ i v w hv hw
        cases i with
        | zero => simp_all
        | succ i => exact htail i v w (by simpa using hv) (by simpa using hw)
      · intro hall
        exact ⟨hall 0 x y rfl rfl, fun i v w hv hw => hall (i + 1) v w (by simpa) (by simpa)⟩

theorem key_eq_of_map_fst {i : Nat} {k : String} (hkeys : fs.map Prod.fst = gs.map Prod.fst)
    (hv : fs[i]? = some (key, v)) (hw : gs[i]? = some (k, w)) : k = key := by
  have h := congrArg (fun keys => keys[i]?) hkeys
  simpa [hv, hw, eq_comm] using h

theorem map_fields_iff {f : String × Json → String × Json}
    (hkeys : fs.map Prod.fst = gs.map Prod.fst) :
    fs.map f = gs.map f ↔ ∀ (i : Nat) (key : String) (v w : Json), fs[i]? = some (key, v) →
      gs[i]? = some (key, w) → f (key, v) = f (key, w) := by
  rw [map_eq_map_iff (by simpa using congrArg List.length hkeys)]
  constructor
  · intro h i key v w hv hw
    exact h i _ _ hv hw
  · rintro h i ⟨key, v⟩ ⟨k, w⟩ hv hw
    obtain rfl := key_eq_of_map_fst hkeys hv hw
    exact h i k v w hv hw

theorem Differing.ne (h : Differing place x y a b) : a ≠ b := by
  induction h with
  | here h => simpa using h
  | item hv hw _ ih =>
    rintro heq
    obtain rfl := Json.array.inj heq
    exact ih (Option.some.inj (hv.symm.trans hw))
  | field hv hw _ ih =>
    rintro heq
    obtain rfl := Json.object.inj heq
    exact ih (congrArg Prod.snd (Option.some.inj (hv.symm.trans hw)))

theorem Alike.eq_of_not_differing (h : Alike inside a b)
    (hnone : ∀ place x y, ¬ Differing place x y a b) : a = b := by
  induction h with
  | same => rfl
  | @string x y _ =>
    by_contra hne
    exact hnone [] x y (.here fun h => hne (congrArg Json.string h))
  | @array _ xs ys hlength _ ih =>
    have hall := (map_eq_map_iff (f := id) hlength).mpr fun i v w hv hw =>
      ih i v w hv hw fun place x y h => hnone _ x y (.item hv hw h)
    simpa using hall
  | @object _ fs gs hkeys _ ih =>
    have hall := (map_fields_iff (f := id) hkeys).mpr fun i key v w hv hw =>
      congrArg (Prod.mk key) (ih i key v w hv hw fun place x y h => hnone _ x y (.field hv hw h))
    simpa using hall

theorem Alike.eq_iff (h : Alike inside a b) : a = b ↔ ∀ place x y, ¬ Differing place x y a b :=
  ⟨fun heq _ _ _ hdiff => hdiff.ne heq, h.eq_of_not_differing⟩

theorem Alike.isObject_eq (h : Alike inside a b) : isObject a = isObject b := by
  cases h <;> rfl

/-! ## What is masked -/

@[simp] theorem masked_item : masked (none :: place) = masked place := rfl

theorem masked_field (h : secretContainers.contains key = false) :
    masked (some key :: place) = masked place := by
  simp only [masked, Option.any_some, h, Bool.false_and, Bool.false_eq_true, if_false]

/-- Below a container the entries of the object are masked, and nothing further in. -/
theorem masked_entry {name} (h : secretContainers.contains key = true) :
    masked (some key :: some name :: place) = true ↔ place = [] := by
  simp only [masked, Option.any_some, h, List.head?_cons, Option.join_some, Option.isSome_some,
    Bool.and_self, if_true, List.length_cons, decide_eq_true_eq, Nat.add_eq_right,
    List.length_eq_zero_iff]

theorem Differing.masked_of_not_object (h : Differing place x y v w)
    (hobject : isObject v = false) : masked (some key :: place) = masked place := by
  cases h with
  | here | item => simp [masked]
  | field => cases hobject

theorem isReference_of_redactValue {value} (h : redactValue (.string x) = .string value)
    (hvalue : isReference value = true) :
    isReference x = true := by
  by_contra hx
  simp only [redactValue, hx, if_false] at h
  by_cases hbearer : hasBearer x = true
  · rw [if_pos hbearer, Json.string.injEq] at h
    rw [← h, isReference_mark.1] at hvalue
    cases hvalue
  · rw [if_neg hbearer, Json.string.injEq] at h
    rw [← h, isReference_mark.2] at hvalue
    cases hvalue

/-- Two alike values of an entry have one mask exactly when they are equal, or two texts without
  a reference. -/
theorem Alike.redactValue_eq_iff (h : Alike true v w) :
    redactValue v = redactValue w ↔ ∀ place x y, Differing place x y v w →
      place = [] ∧ isReference x = false ∧ isReference y = false := by
  constructor
  · intro heq place x y hdiff
    cases hdiff with
    | @here x y hne =>
      have hleft : isReference x = false := by
        by_contra hx
        rw [Bool.not_eq_false] at hx
        have hkept : redactValue (.string y) = .string x := by
          rw [← heq, redactValue, if_pos hx]
        have hy := isReference_of_redactValue hkept hx
        rw [redactValue, if_pos hy] at hkept
        exact hne (Json.string.inj hkept).symm
      have hright : isReference y = false := by
        by_contra hy
        rw [Bool.not_eq_false] at hy
        have hkept : redactValue (.string x) = .string y := by
          rw [heq, redactValue, if_pos hy]
        rw [isReference_of_redactValue hkept hy] at hleft
        cases hleft
      exact ⟨rfl, hleft, hright⟩
    | item hv hw hinner => exact absurd heq (Differing.item hv hw hinner).ne
    | field hv hw hinner => exact absurd heq (Differing.field hv hw hinner).ne
  · intro hall
    by_cases heq : v = w
    · rw [heq]
    cases h with
    | same => exact absurd rfl heq
    | @string x y halike =>
      obtain ⟨-, hx, hy⟩ := hall [] x y (.here fun h => heq (congrArg Json.string h))
      simp [redactValue, hx, hy, halike.2]
    | array hlength hitems =>
      refine absurd ((Alike.array hlength hitems).eq_of_not_differing ?_) heq
      intro place x y hdiff
      cases hdiff with
      | item hv hw hinner => cases (hall _ _ _ (.item hv hw hinner)).1
    | object hkeys hfields =>
      refine absurd ((Alike.object hkeys hfields).eq_of_not_differing ?_) heq
      intro place x y hdiff
      cases hdiff with
      | field hv hw hinner => cases (hall _ _ _ (.field hv hw hinner)).1

/-- The two texts of a difference are masked. -/
def Hidden (place : Place) (x y : String) : Prop :=
  masked place = true ∧ isReference x = false ∧ isReference y = false

theorem Alike.maskObject_eq_iff (h : Alike true (.object fs) (.object gs))
    (hkey : secretContainers.contains key = true) :
    maskObject (.object fs) = maskObject (.object gs) ↔ ∀ place x y,
      Differing place x y (.object fs) (.object gs) → Hidden (some key :: place) x y := by
  have hfields : fs.map Prod.fst = gs.map Prod.fst ∧ ∀ (i : Nat) (name : String) (v w : Json),
      fs[i]? = some (name, v) → gs[i]? = some (name, w) → Alike true v w := by
    cases h with
    | same => exact ⟨rfl, fun i name v w hv hw => by
        rw [hv] at hw
        cases hw
        exact .same true v⟩
    | object hkeys hall => exact ⟨hkeys, by simpa using hall⟩
  obtain ⟨hkeys, hall⟩ := hfields
  rw [maskObject, maskObject, Json.object.injEq, map_fields_iff hkeys]
  constructor
  · intro heq place x y hdiff
    cases hdiff with
    | @field place x y fs gs i name v w hv hw hinner =>
      have hvalue := congrArg Prod.snd (heq i name v w hv hw)
      obtain ⟨rfl, hx, hy⟩ := (hall i name v w hv hw).redactValue_eq_iff.mp hvalue _ x y hinner
      exact ⟨(masked_entry hkey).mpr rfl, hx, hy⟩
  · intro hhidden i name v w hv hw
    refine congrArg (Prod.mk name) ((hall i name v w hv hw).redactValue_eq_iff.mpr ?_)
    intro place x y hinner
    obtain ⟨hmasked, hx, hy⟩ := hhidden _ x y (.field hv hw hinner)
    exact ⟨(masked_entry hkey).mp hmasked, hx, hy⟩

theorem redactField_eq_iff (h : Alike (inside || secretContainers.contains key) v w)
    (ih : redact v = redact w ↔ ∀ place x y, Differing place x y v w → Hidden place x y) :
    redactField (key, v) = redactField (key, w) ↔ ∀ place x y, Differing place x y v w →
      Hidden (some key :: place) x y := by
  simp only [redactField, Prod.mk.injEq, true_and, ← h.isObject_eq]
  by_cases hkey : secretContainers.contains key = true
  · cases hobject : isObject v with
    | true =>
      rw [hkey, Bool.or_true] at h
      rw [hkey, Bool.and_self, if_pos rfl, if_pos rfl]
      cases v <;> cases hobject
      cases w <;> cases h.isObject_eq
      exact h.maskObject_eq_iff hkey
    | false =>
      rw [Bool.and_false, if_neg Bool.false_ne_true, if_neg Bool.false_ne_true, ih]
      constructor
      · intro hall place x y hdiff
        rw [Hidden, hdiff.masked_of_not_object hobject]
        exact hall place x y hdiff
      · intro hall place x y hdiff
        rw [Hidden, ← hdiff.masked_of_not_object hobject]
        exact hall place x y hdiff
  · rw [Bool.not_eq_true] at hkey
    rw [hkey, Bool.false_and, if_neg Bool.false_ne_true, if_neg Bool.false_ne_true, ih]
    simp [Hidden, masked_field hkey]

/-- Alike entries have one redacted form exactly when all that sets them apart is masked. -/
theorem Alike.redact_eq_iff (h : Alike inside a b) :
    redact a = redact b ↔ ∀ place x y, Differing place x y a b → Hidden place x y := by
  induction h with
  | same => exact ⟨fun _ _ _ _ hdiff => absurd rfl hdiff.ne, fun _ => rfl⟩
  | @string x y _ =>
    rw [redact, redact]
    · constructor
      · intro heq place x y hdiff
        exact absurd heq hdiff.ne
      · intro hall
        by_contra hne
        obtain ⟨hmasked, -⟩ := hall [] x y (.here fun h => hne (congrArg Json.string h))
        cases hmasked
    all_goals simp
  | @array _ xs ys hlength _ ih =>
    rw [redact, redact, redactItems_eq, redactItems_eq, Json.array.injEq, map_eq_map_iff hlength]
    constructor
    · intro heq place x y hdiff
      cases hdiff with
      | item hv hw hinner =>
        rw [Hidden, masked_item]
        exact (ih _ _ _ hv hw).mp (heq _ _ _ hv hw) _ _ _ hinner
    · intro hall i v w hv hw
      refine (ih i v w hv hw).mpr fun place x y hinner => ?_
      simpa [Hidden] using hall _ x y (.item hv hw hinner)
  | @object inside fs gs hkeys halike ih =>
    rw [redact, redact, redactFields_eq, redactFields_eq, Json.object.injEq, map_fields_iff hkeys]
    constructor
    · intro heq place x y hdiff
      cases hdiff with
      | @field _ _ _ _ _ i key v w hv hw hinner =>
        exact (redactField_eq_iff (halike i key v w hv hw) (ih i key v w hv hw)).mp
          (heq i key v w hv hw) _ x y hinner
    · intro hall i key v w hv hw
      refine (redactField_eq_iff (halike i key v w hv hw) (ih i key v w hv hw)).mpr ?_
      intro place x y hinner
      exact hall _ x y (.field hv hw hinner)

/-- Redaction hides what sets two alike entries apart exactly when each difference is between two
texts directly under `headers` or `env` that hold no reference mark; it does no more the second
time. -/
theorem redact_hides {a b : Json} (h : Alike false a b) :
    (redact a = redact b ↔ ∀ place x y, Differing place x y a b → Hidden place x y) ∧
      redact (redact a) = redact a :=
  ⟨h.redact_eq_iff, redact_redact a⟩

/-- `{"headers": {"Authorization": value}}` -/
def entryOf (value : String) : Json :=
  .object [("headers", .object [("Authorization", .string value)])]

theorem alike_entryOf (h : AlikeText x y) : Alike false (entryOf x) (entryOf y) := by
  refine .object rfl fun i key v w hv hw => ?_
  cases i with
  | succ i => simp at hv
  | zero =>
    cases hv
    cases hw
    refine .object rfl fun i name v w hv hw => ?_
    cases i with
    | succ i => simp at hv
    | zero =>
      cases hv
      cases hw
      exact .string h

theorem redact_hides_bearer :
    (redact (entryOf "Bearer sk-1") = redact (entryOf "Bearer sk-22") ↔ ∀ place x y,
      Differing place x y (entryOf "Bearer sk-1") (entryOf "Bearer sk-22") → Hidden place x y) ∧
      redact (redact (entryOf "Bearer sk-1")) = redact (entryOf "Bearer sk-1") :=
  redact_hides
    (alike_entryOf (by simp [AlikeText, references, opens, hasBearer, bearer, List.isPrefixOf]))

/-- Beside a reference the literal part of a credential stays in the redacted form. -/
theorem redact_shows :
    ¬ ∀ a b : Json, Alike false a b → redact a = redact b ∧ redact (redact a) = redact a := by
  intro h
  have halike : AlikeText "Bearer sk-1${TEAM}" "Bearer sk-2${TEAM}" := by
    simp [AlikeText, references, opens, hasBearer, bearer, List.isPrefixOf]
  have hsame := (h _ _ (alike_entryOf halike)).1
  have hx : isReference "Bearer sk-1${TEAM}" = true := by
    simp [isReference, Text.contains, List.isPrefixOf]
  have hy : isReference "Bearer sk-2${TEAM}" = true := by
    simp [isReference, Text.contains, List.isPrefixOf]
  simp [entryOf, redact, redactFields, maskObject, redactValue, isObject, hx, hy,
    secretContainers] at hsame

end StudioOS.Harness
