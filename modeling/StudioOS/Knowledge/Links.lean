import Mathlib.Data.Char
import Mathlib.Data.List.Lex
import StudioOS.Library.Framing
import StudioOS.Library.Text

/-!
# Knowledge — Links

The rows of the knowledge index and what its links lead to. A row of
`documents` is kept with its rows of `headings`, `links` and `tags`, in the
order of their ordinals; the URI of a document is made from its path.
-/

namespace StudioOS.Knowledge

open List

abbrev Text := List Char

/-- A `relative_path`. -/
abbrev Path := Text

structure Heading where
  level : Nat
  text : Text
  line : Nat
  slug : Text

inductive LinkKind where
  | markdown
  | wikilink
deriving DecidableEq

/-- `RawLink`, as the table `links` keeps it. -/
structure RawLink where
  kind : LinkKind
  target : Text
  embed : Bool

structure ParsedMarkdown where
  title : Text
  body : Text
  headings : List Heading
  links : List RawLink
  tags : List Text

inductive NodeKind where
  | document
  | heading
  | tag
deriving DecidableEq

/-- `_ResolvedLink`, of a link that leads somewhere. -/
structure ResolvedLink where
  kind : NodeKind
  nodeId : Text
  uri : Text

structure LinkRow extends RawLink where
  resolved : Option ResolvedLink

structure TagRow where
  tag : Text
  slug : Text
deriving DecidableEq

structure DocumentRow where
  relativePath : Path
  title : Text
  contentHash : Text
  sizeBytes : Nat
  mtimeNs : Int
  body : Text
  headings : List Heading
  links : List LinkRow
  tags : List TagRow

/-- `relative_path`, `size_bytes` and `mtime_ns` of a `VaultFile`. -/
structure VaultFile where
  relativePath : Path
  sizeBytes : Nat
  mtimeNs : Int

/-- What the index is built with, and the functions of the text that it
takes from elsewhere. -/
structure Env where
  workspaceId : Text
  maxDocuments : Nat
  positive : 0 < maxDocuments
  casefold : Text → Text
  lower : Text → Text
  isDigit : Text → Bool
  /-- `int`, of a text. -/
  int : Text → Option Nat
  /-- `_digest`. -/
  digest : Text → Text
  contentHash : Text → Text
  /-- `vault_fingerprint` of what the walk yields, as a number. -/
  fingerprint : List VaultFile → Nat
  /-- `parse_markdown` of the file at the path, if it raises nothing. -/
  parse : Path → Text → Option ParsedMarkdown

def slashParts (text : Text) : List Text := text.splitOn '/'

def windowsReservedNames : List Text :=
  ["con", "prn", "aux", "nul", "com1", "com2", "com3", "com4", "com5", "com6", "com7", "com8",
    "com9", "lpt1", "lpt2", "lpt3", "lpt4", "lpt5", "lpt6", "lpt7", "lpt8", "lpt9"].map
    String.toList

/-- `_has_invisible_control`, of one character. -/
def isInvisibleControl (c : Char) : Bool :=
  let n := c.toNat
  (0x200b ≤ n && n ≤ 0x200f) || (0x202a ≤ n && n ≤ 0x202e) || (0x2066 ≤ n && n ≤ 0x2069) ||
    (0x7f ≤ n && n ≤ 0x9f)

def checkPathSegment (part : Text) : Bool :=
  decide (Text.strip part = part) && part.getLast? ≠ some '.' &&
    !(((part.takeWhile (· ≠ '.')).map Char.toLower) ∈ windowsReservedNames)

def checkRelativePath (value : Path) : Bool :=
  value ≠ [] && value.length ≤ 512 && !('\\' ∈ value) && value.head? ≠ some '/' &&
    !(value.head?.any Char.isAlpha && (value.drop 1).head? = some ':') &&
    (value.all fun c =>
      32 ≤ c.toNat && !isInvisibleControl c &&
        !(c ∈ ['?', '#', '%', ':', '*', '"', '<', '>', '|'])) &&
    (slashParts value).all fun part =>
      part ≠ [] && part ≠ ['.'] && part ≠ ['.', '.'] && checkPathSegment part

def Env.uri (env : Env) (path : Path) : Text :=
  "studio-local://knowledge/".toList ++ env.workspaceId ++ '/' :: path

/-- `build_local_uri`, with a fragment `L<line>` or without; a path that ends
in `.md` has no fragment of its own. -/
def Env.buildLocalUri (env : Env) (path : Path) (line : Option Nat) : Option Text :=
  let uri := env.uri path ++
    match line with
    | none => []
    | some n => "#L".toList ++ (Nat.repr n).toList
  if checkRelativePath path && line.all (· < 10000000) && uri.length ≤ 700 then some uri
  else none

theorem Env.uri_injective (env : Env) {p q} (h : env.uri p = env.uri q) : p = q := by
  exact (List.cons.inj (append_cancel_left h)).2

def Env.docNodeId (env : Env) (path : Path) : Text := "doc:".toList ++ env.digest (env.uri path)

def Env.headingNodeId (env : Env) (path : Path) (line : Nat) : Text :=
  "heading:".toList ++ env.digest (env.uri path ++ "#L".toList ++ (Nat.repr line).toList)

/-- The runs of `text` between the characters that are not `keep`, joined by a
dash. -/
def dashed (keep : Char → Bool) (text : Text) : Text :=
  List.intercalate ['-'] ((text.splitOnP fun c => !keep c).filter (· ≠ []))

def Env.slugify (env : Env) (text : Text) : Text :=
  dashed (fun c => c.isLower || c.isDigit) (env.lower (Text.strip text))

def Env.tagSlug (env : Env) (tag : Text) : Text :=
  let cleaned := dashed (fun c => c ≠ '-' && c ≠ '/') (env.lower (Text.strip tag))
  if cleaned = [] then "untitled".toList else cleaned

def tagNodeId (slug : Text) : Text :=
  "tag:".toList ++ if slug = [] then "untitled".toList else slug

def RawLink.pathPart (link : RawLink) : Text := Text.strip (link.target.takeWhile (· ≠ '#'))

def RawLink.fragment (link : RawLink) : Option Text :=
  let fragment := Text.strip ((link.target.dropWhile (· ≠ '#')).drop 1)
  if fragment = [] then none else some fragment

def looksExternal (pathPart : Text) : Bool :=
  pathPart.head? = some '/' || pathPart.head? = some '\\' ||
    (pathPart.take 2).getLast? = some ':' || Text.contains "://".toList pathPart ||
    pathPart.head? = some '#'

/-- The loop of `_normalize`, behind the parts it keeps, the last one first. -/
def normalizeFrom (kept : List Text) : List Text → Option (List Text)
  | [] => if kept = [] then none else some kept.reverse
  | part :: rest =>
    if part = [] || part = ['.'] then normalizeFrom kept rest
    else if part = ['.', '.'] then
      match kept with
      | [] => none
      | _ :: kept => normalizeFrom kept rest
    else normalizeFrom (part :: kept) rest

/-- `_normalize(base / path_part)`, where `base` is the folder of `path`. -/
def normalize (path : Path) (pathPart : Text) : Option Text :=
  let slashed := pathPart.map fun c => if c = '\\' then '/' else c
  (normalizeFrom [] ((slashParts path).dropLast ++ slashParts slashed)).map
    (List.intercalate ['/'])

/-- The paths `_resolve_path` tries, in order. -/
def Env.names (env : Env) (path : Path) (pathPart : Text) : List Text :=
  match normalize path pathPart with
  | none => []
  | some candidate =>
    if ".md".toList.isSuffixOf (env.lower candidate) then [candidate]
    else [candidate ++ ".md".toList, candidate ++ "/index.md".toList]

/-- `by_path`: the last row with the key. -/
def Env.byPath (env : Env) (rows : List DocumentRow) (key : Text) : Option DocumentRow :=
  (rows.filter fun row => env.casefold row.relativePath = key).getLast?

def Env.resolvePath (env : Env) (rows : List DocumentRow) (path : Path) (pathPart : Text) :
    Option DocumentRow :=
  (env.names path pathPart).findSome? fun name => env.byPath rows (env.casefold name)

/-- `_line_fragment`; a `ValueError` is `none`. -/
def Env.lineFragment (env : Env) : Text → Option (Option Nat)
  | 'L' :: rest =>
    let digits := rest.takeWhile (· ≠ '-')
    if env.isDigit digits then (env.int digits).map some else some none
  | _ => some none

/-- The result that leads to the document. -/
def Env.toDocument (env : Env) (path : Path) : ResolvedLink :=
  { kind := .document, nodeId := env.docNodeId path, uri := env.uri path }

/-- The result that leads to a heading; a `ValueError` is `none`. -/
def Env.toHeading (env : Env) (path : Path) (line : Nat) : Option ResolvedLink :=
  (env.buildLocalUri path (some line)).map fun uri =>
    { kind := .heading, nodeId := env.headingNodeId path line, uri := uri }

/-- `_resolve_anchor`, in the document of the row; a `ValueError` is `none`. -/
def Env.resolveAnchor (env : Env) (row : DocumentRow) (fragment : Option Text) :
    Option ResolvedLink :=
  match fragment with
  | none => some (env.toDocument row.relativePath)
  | some fragment =>
    (env.lineFragment fragment).bind fun line =>
      match line.filter fun n => row.headings.any fun heading => heading.line = n with
      | some n => env.toHeading row.relativePath n
      | none =>
        let slug := env.slugify fragment
        match (row.headings.filter fun heading => heading.slug = slug).getLast? with
        | some heading =>
          if slug = [] then some (env.toDocument row.relativePath)
          else env.toHeading row.relativePath heading.line
        | none => some (env.toDocument row.relativePath)

/-- `_resolve_one`, for a link of the document `source`: where it leads, if
anywhere. A `ValueError` is `none`. -/
def Env.resolveOne (env : Env) (rows : List DocumentRow) (source : DocumentRow) (link : RawLink) :
    Option (Option ResolvedLink) :=
  if link.pathPart = [] then (env.resolveAnchor source link.fragment).map some
  else if looksExternal link.pathPart then some none
  else
    match env.resolvePath rows source.relativePath link.pathPart with
    | none => some none
    | some target =>
      if link.embed then some (some (env.toDocument target.relativePath))
      else (env.resolveAnchor target link.fragment).map some

/-- A link with its `resolved_*` columns written. -/
def Env.resolveLink (env : Env) (rows : List DocumentRow) (source : DocumentRow)
    (link : LinkRow) : Option LinkRow :=
  (env.resolveOne rows source link.toRawLink).map fun resolved =>
    { link with resolved := resolved }

def Env.resolveRow (env : Env) (rows : List DocumentRow) (row : DocumentRow) : Option DocumentRow :=
  (row.links.mapM (env.resolveLink rows row)).map fun links => { row with links := links }

/-- `_resolve_links`, of the whole table; a `ValueError` is `none`. -/
def Env.resolveLinks (env : Env) (rows : List DocumentRow) : Option (List DocumentRow) :=
  rows.mapM (env.resolveRow rows)

inductive LocalResourceKind where
  | knowledge
  | code
  | harness
deriving DecidableEq

def LocalResourceKind.value : LocalResourceKind → Text
  | .knowledge => "knowledge".toList
  | .code => "code".toList
  | .harness => "harness".toList

/-- `LocalResourceKind(value)` -/
def LocalResourceKind.of (value : Text) : Option LocalResourceKind :=
  [.knowledge, .code, .harness].find? fun kind => kind.value = value

def isHex (c : Char) : Bool := c.isDigit || ('a' ≤ c && c ≤ 'f')

/-- The text of a `UUID`. -/
def isUuid (text : Text) : Bool :=
  text.length = 36 && text.zipIdx.all fun entry =>
    if entry.2 ∈ [8, 13, 18, 23] then entry.1 = '-' else isHex entry.1

/-- `str(workspace_id)` -/
abbrev WorkspaceId := { text : Text // isUuid text = true }

/-- The zeros of the decimal digits of Unicode, each with its nine followers. -/
def digitZeros : List Nat :=
  [0x30, 0x660, 0x6f0, 0x7c0, 0x966, 0x9e6, 0xa66, 0xae6, 0xb66, 0xbe6, 0xc66, 0xce6, 0xd66, 0xde6,
    0xe50, 0xed0, 0xf20, 0x1040, 0x1090, 0x17e0, 0x1810, 0x1946, 0x19d0, 0x1a80, 0x1a90, 0x1b50,
    0x1bb0, 0x1c40, 0x1c50, 0xa620, 0xa8d0, 0xa900, 0xa9d0, 0xa9f0, 0xaa50, 0xabf0, 0xff10, 0x104a0,
    0x10d30, 0x11066, 0x110f0, 0x11136, 0x111d0, 0x112f0, 0x11450, 0x114d0, 0x11650, 0x116c0,
    0x11730, 0x118e0, 0x11950, 0x11c50, 0x11d50, 0x11da0, 0x11f50, 0x16a60, 0x16ac0, 0x16b50,
    0x1d7ce, 0x1d7d8, 0x1d7e2, 0x1d7ec, 0x1d7f6, 0x1e140, 0x1e2f0, 0x1e4f0, 0x1e950, 0x1fbf0]

/-- `\d` -/
def isDecimal (c : Char) : Bool := digitZeros.any fun n => n ≤ c.toNat && c.toNat < n + 10

/-- `L\d{1,7}` -/
def isLineMark (text : Text) : Bool :=
  text.head? = some 'L' && 2 ≤ text.length && text.length ≤ 8 && (text.drop 1).all isDecimal

/-- `L\d{1,7}(?:-L\d{1,7})?` -/
def isFragment (text : Text) : Bool :=
  (text.splitOn '-').length ≤ 2 && (text.splitOn '-').all isLineMark

/-- The fragment behind `#`; `$` matches in front of a final line break too. -/
def fragmentOf (text : Text) : Option Text :=
  if isFragment text then some text
  else if text.getLast? = some '\n' && isFragment text.dropLast then some text.dropLast
  else none

/-- What `parse_local_uri` returns. -/
structure LocalUri where
  kind : LocalResourceKind
  workspaceId : WorkspaceId
  path : Path
  fragment : Option Text
deriving DecidableEq

def uriScheme : Text := "studio-local://".toList

/-- The path of a URI and its fragment. -/
def pathOf (text : Text) : Option (Path × Option Text) :=
  match Framing.cutAt ['#'] text with
  | none => some (text, none)
  | some (path, fragment) => (fragmentOf fragment).map fun found => (path, some found)

/-- `parse_local_uri`; `none` is a `ValueError`. -/
def parseLocalUri (value : Text) : Option LocalUri :=
  if 700 < value.length ∨ ¬ uriScheme <+: value then none
  else
    match Framing.cutAt ['/'] (value.drop uriScheme.length) with
    | none => none
    | some (kindText, rest) =>
      match LocalResourceKind.of kindText, Framing.cutAt ['/'] rest with
      | some kind, some (workspace, rest) =>
        match pathOf rest with
        | none => none
        | some (path, fragment) =>
          if h : isUuid workspace = true then
            if path = [] ∨ checkRelativePath path = true then
              some { kind, workspaceId := ⟨workspace, h⟩, path, fragment }
            else none
          else none
      | _, _ => none

/-- `#` and the fragment, if there is one. -/
def markOf : Option Text → Text
  | some (c :: rest) => '#' :: c :: rest
  | _ => []

/-- The text that `build_local_uri` puts together. -/
def LocalUri.text (uri : LocalUri) : Text :=
  uriScheme ++ (uri.kind.value ++ '/' ::
    (uri.workspaceId.val ++ '/' :: (uri.path ++ markOf uri.fragment)))

def buildLocalUri (uri : LocalUri) : Option Text :=
  (parseLocalUri uri.text).map fun _ => uri.text

variable {text value path fragment : Text} {uri : LocalUri}

/-- The parts that a URI may have. -/
def LocalUri.Accepted (uri : LocalUri) : Prop :=
  (uri.path = [] ∨ checkRelativePath uri.path = true) ∧ ∀ f ∈ uri.fragment, isFragment f = true

theorem LocalResourceKind.of_value (kind) : of kind.value = some kind := by
  cases kind <;> decide

theorem LocalResourceKind.value_of {kind} (h : of value = some kind) : kind.value = value := by
  simpa using List.find?_some h

theorem LocalResourceKind.value_plain (kind : LocalResourceKind) :
    '/' ∉ kind.value ∧ kind.value.length ≤ 9 := by
  cases kind <;> decide

theorem isUuid_plain (h : isUuid text = true) : '/' ∉ text ∧ text.length = 36 := by
  rw [isUuid, Bool.and_eq_true, decide_eq_true_eq, all_eq_true] at h
  refine ⟨fun hslash => ?_, h.1⟩
  obtain ⟨i, hi, hat⟩ := getElem_of_mem hslash
  have hentry := h.2 ('/', i)
    (List.mem_zipIdx_iff_getElem?.mpr (List.getElem?_eq_some_iff.mpr ⟨hi, hat⟩))
  split at hentry
  · cases hentry
  · exact absurd (show isHex '/' = true from hentry) (by decide)

theorem isLineMark_plain (h : isLineMark text = true) :
    text ≠ [] ∧ text.length ≤ 8 ∧ '\n' ∉ text := by
  simp only [isLineMark, Bool.and_eq_true, decide_eq_true_eq, all_eq_true] at h
  obtain ⟨⟨⟨hhead, htwo⟩, height⟩, hdigits⟩ := h
  cases text with
  | nil => cases hhead
  | cons c rest =>
    refine ⟨by simp, height, fun hmem => ?_⟩
    cases Option.some.inj hhead
    exact absurd (hdigits '\n' (by simpa using hmem)) (by decide)

theorem isFragment_plain (h : isFragment text = true) :
    text ≠ [] ∧ text.length ≤ 17 ∧ '\n' ∉ text := by
  rw [isFragment, Bool.and_eq_true, decide_eq_true_eq, all_eq_true] at h
  obtain ⟨htwo, hmarks⟩ := h
  have htext := @intercalate_splitOn _ text _ _ '-'
  have hne := splitOn_ne_nil '-' text
  generalize text.splitOn '-' = parts at htwo hmarks htext hne
  match parts, htwo, hne with
  | [a], _, _ =>
    obtain ⟨hnil, hlength, hbreak⟩ := isLineMark_plain (hmarks a (by simp))
    rw [← htext]
    simp only [intercalate_singleton]
    exact ⟨hnil, by omega, hbreak⟩
  | [a, b], _, _ =>
    obtain ⟨hnil, hlength, hbreak⟩ := isLineMark_plain (hmarks a (by simp))
    obtain ⟨-, hlength', hbreak'⟩ := isLineMark_plain (hmarks b (by simp))
    rw [← htext]
    simp [List.intercalate, hnil, hbreak, hbreak']
    omega

theorem checkRelativePath_plain (h : checkRelativePath path = true) :
    path ≠ [] ∧ path.length ≤ 512 ∧ '#' ∉ path ∧ '\n' ∉ path := by
  simp only [checkRelativePath, Bool.and_eq_true, decide_eq_true_eq, all_eq_true] at h
  obtain ⟨⟨⟨⟨⟨⟨hne, hlength⟩, -⟩, -⟩, -⟩, hchars⟩, -⟩ := h
  refine ⟨by simpa using hne, hlength, fun hmem => ?_, fun hmem => ?_⟩
  · exact absurd (hchars '#' hmem) (by decide)
  · exact absurd (hchars '\n' hmem) (by decide)

theorem cutAt_slash {mark : Char} {line rest : Text} (h : mark ∉ line) :
    Framing.cutAt [mark] (line ++ mark :: rest) = some (line, rest) := by
  rw [Framing.cutAt_line h]
  simp [Framing.cutAt]

theorem fragmentOf_some (h : fragmentOf text = some fragment) :
    isFragment fragment = true ∧ (text = fragment ∨ text = fragment ++ ['\n']) := by
  rw [fragmentOf] at h
  split at h
  · cases h
    exact ⟨‹_›, .inl rfl⟩
  split at h
  · rename_i hbreak
    cases h
    rw [Bool.and_eq_true, decide_eq_true_eq] at hbreak
    exact ⟨hbreak.2, .inr (dropLast_append_getLast? _ hbreak.1).symm⟩
  · cases h

theorem pathOf_append (hpath : '#' ∉ path) {fragment}
    (hfragment : ∀ f ∈ fragment, isFragment f = true) :
    pathOf (path ++ markOf fragment) = some (path, fragment) := by
  cases fragment with
  | none => simp [pathOf, markOf, Framing.cutAt_eq_none_iff.mpr hpath]
  | some f =>
    have hf := hfragment f rfl
    obtain ⟨c, rest, rfl⟩ := exists_cons_of_ne_nil (isFragment_plain hf).1
    simp [pathOf, markOf, cutAt_slash hpath, fragmentOf, hf]

theorem pathOf_some {fragment} (h : pathOf text = some (path, fragment)) :
    (∀ f ∈ fragment, isFragment f = true) ∧ (text = path ++ markOf fragment ∨
      fragment.isSome ∧ text = path ++ markOf fragment ++ ['\n']) := by
  rw [pathOf] at h
  split at h
  · cases h
    simp [markOf]
  rename_i front behind hcut
  obtain ⟨f, hf, hpair⟩ := Option.map_eq_some_iff.mp h
  cases hpair
  obtain ⟨hfragment, htext⟩ := fragmentOf_some hf
  obtain ⟨c, rest, rfl⟩ := exists_cons_of_ne_nil (isFragment_plain hfragment).1
  rw [Framing.eq_of_cutAt hcut]
  rcases htext with rfl | rfl <;> simp [markOf, hfragment]

theorem markOf_length {fragment} (h : ∀ f ∈ fragment, isFragment f = true) :
    (markOf fragment).length ≤ 18 := by
  match fragment with
  | none => simp [markOf]
  | some [] => simp [markOf]
  | some (c :: rest) =>
    have hlength := (isFragment_plain (h _ rfl)).2.1
    rw [length_cons] at hlength
    simp only [markOf, length_cons]
    omega

/-! ## There and back -/

/-- **The parts of a URI are read back.** -/
theorem parse_text (h : uri.Accepted) : parseLocalUri uri.text = some uri := by
  obtain ⟨hpath, hfragment⟩ := h
  obtain ⟨hslash, hkind⟩ := uri.kind.value_plain
  obtain ⟨hslash', hworkspace⟩ := isUuid_plain uri.workspaceId.property
  have hplain : '#' ∉ uri.path ∧ uri.path.length ≤ 512 := by
    rcases hpath with hnil | hchecked
    · simp [hnil]
    · exact ⟨(checkRelativePath_plain hchecked).2.2.1, (checkRelativePath_plain hchecked).2.1⟩
  have hlength : uri.text.length ≤ 700 := by
    have hmark := markOf_length hfragment
    have hscheme : uriScheme.length = 15 := by decide
    simp only [LocalUri.text, length_append, length_cons]
    omega
  have hscheme : uriScheme <+: uri.text := prefix_append _ _
  rw [parseLocalUri, if_neg (by simp [hscheme, Nat.not_lt.mpr hlength]), LocalUri.text,
    drop_left, cutAt_slash hslash]
  simp [LocalResourceKind.of_value, cutAt_slash hslash', pathOf_append hplain.1 hfragment,
    uri.workspaceId.property, hpath]

theorem text_of_parse (h : parseLocalUri value = some uri) :
    uri.Accepted ∧ (value = uri.text ∨ uri.fragment.isSome ∧ value = uri.text ++ ['\n']) := by
  rw [parseLocalUri] at h
  split at h
  · cases h
  rename_i hguard
  rw [not_or, not_not] at hguard
  split at h
  · cases h
  rename_i kindText rest hkindCut
  split at h
  swap
  · cases h
  rename_i kind workspace rest' hkind hcut
  split at h
  · cases h
  rename_i path fragment hpathOf
  split at h
  swap
  · cases h
  split at h
  swap
  · cases h
  rename_i haccepted
  cases h
  obtain ⟨hfragment, htext⟩ := pathOf_some hpathOf
  refine ⟨⟨haccepted, hfragment⟩, ?_⟩
  have hvalue := prefix_append_drop hguard.2
  rw [Framing.eq_of_cutAt hkindCut, Framing.eq_of_cutAt hcut,
    ← LocalResourceKind.value_of hkind] at hvalue
  rcases htext with rfl | ⟨hsome, rfl⟩
  · left
    rw [hvalue, LocalUri.text]
    simp
  · refine .inr ⟨hsome, ?_⟩
    rw [hvalue, LocalUri.text]
    simp

theorem text_last (h : uri.Accepted) : uri.text.getLast? ≠ some '\n' := by
  have hend : '\n' ∉ uri.path ++ markOf uri.fragment := by
    rw [mem_append, not_or]
    constructor
    · rcases h.1 with hnil | hchecked
      · simp [hnil]
      · exact (checkRelativePath_plain hchecked).2.2.2
    · have hfragment := h.2
      match uri.fragment, hfragment with
      | none, _ => simp [markOf]
      | some [], _ => simp [markOf]
      | some (c :: rest), hfragment => simpa [markOf] using (isFragment_plain (hfragment _ rfl)).2.2
  have htext : uri.text = (uriScheme ++ (uri.kind.value ++ '/' :: uri.workspaceId.val)) ++
      '/' :: (uri.path ++ markOf uri.fragment) := by
    simp [LocalUri.text]
  rw [htext, List.getLast?_append_of_ne_nil _ (by simp)]
  intro hlast
  have hmem := List.mem_of_getLast? hlast
  simp only [mem_cons] at hmem
  rcases hmem with hslash | hmem
  · cases hslash
  · exact hend hmem

/-- **Local URIs.** The parts of a URI are read back, and the text that names them is the one they
  build, exactly unless it ends in a line break; so no two other texts name the same parts. -/
theorem local_uris (uri : LocalUri) :
    (uri.Accepted → buildLocalUri uri = some uri.text ∧ parseLocalUri uri.text = some uri) ∧
    ∀ value, parseLocalUri value = some uri →
      ((buildLocalUri uri = some value ↔ value.getLast? ≠ some '\n') ∧
        ∀ other, parseLocalUri other = some uri → value.getLast? ≠ some '\n' →
          other.getLast? ≠ some '\n' → other = value) := by
  have hbuild (h : uri.Accepted) : buildLocalUri uri = some uri.text := by
    rw [buildLocalUri, parse_text h]
    rfl
  have htext : ∀ value, parseLocalUri value = some uri →
      (value = uri.text ↔ value.getLast? ≠ some '\n') := by
    intro value h
    obtain ⟨haccepted, rfl | ⟨-, rfl⟩⟩ := text_of_parse h
    · simp [text_last haccepted]
    · simp
  refine ⟨fun h => ⟨hbuild h, parse_text h⟩, fun value h => ⟨?_, ?_⟩⟩
  · rw [hbuild (text_of_parse h).1, Option.some.injEq, eq_comm]
    exact htext value h
  · intro other hother hvalue hlast
    rw [(htext value h).mpr hvalue, (htext other hother).mpr hlast]

/-- `…/a#L1` -/
def firstLine : LocalUri where
  kind := .code
  workspaceId := ⟨"00000000-0000-0000-0000-000000000000".toList, by decide⟩
  path := ['a']
  fragment := some ['L', '1']

/-- With a line break behind it a text names the same resource. -/
theorem local_uri_twice : ¬ ∀ value uri, parseLocalUri value = some uri →
    buildLocalUri uri = some value := by
  intro h
  have hbuild := h (firstLine.text ++ ['\n']) firstLine (by decide)
  revert hbuild
  decide

end StudioOS.Knowledge
