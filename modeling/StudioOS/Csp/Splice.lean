import StudioOS.Csp.Model

/-!
# Csp — Splice

A validated origin is one visible word (`validate_visible`), so the text the
code joins splits into the very directives it joined, and adding the origin
again changes nothing (`cspWithConnectOrigin_idem`).
-/

namespace StudioOS.Csp

open List Words

/-! ## The characters of an origin -/

/-- Visible ASCII characters only. -/
def Visible (text : Text) : Prop := ∀ c ∈ text, 0x21 ≤ c.toNat ∧ c.toNat ≤ 0x7e

theorem Visible.append {front back} (hfront : Visible front) (hback : Visible back) :
    Visible (front ++ back) := by
  intro c hc
  rcases mem_append.1 hc with hc | hc
  · exact hfront c hc
  · exact hback c hc

theorem Visible.cons {c rest} (hc : 0x21 ≤ c.toNat ∧ c.toNat ≤ 0x7e)
    (hrest : Visible rest) : Visible (c :: rest) := by
  intro d hd
  rcases mem_cons.1 hd with rfl | hd
  · exact hc
  · exact hrest d hd

theorem Domain.visible (domain : Domain) : Visible domain.text := by
  intro c hc
  have hascii := (domain.ascii c hc).1
  have hallowed := domain.allowed c hc
  simp only [isForbidden, Bool.or_eq_false_iff, decide_eq_false_iff_not, beq_eq_false_iff_ne,
    not_le] at hallowed
  omega

theorem decimal_visible (n) : Visible (decimal n) := by
  intro c hc
  have hdigit := Nat.isDigit_of_mem_toDigits (by omega) (by omega) hc
  simp only [Char.isDigit, Bool.and_eq_true, decide_eq_true_eq] at hdigit
  have hlow : ('0' : Char).toNat ≤ c.toNat := hdigit.1
  have hhigh : c.toNat ≤ ('9' : Char).toNat := hdigit.2
  have h0 : ('0' : Char).toNat = 48 := rfl
  have h9 : ('9' : Char).toNat = 57 := rfl
  omega

theorem Ipv6Addr.visible (address : Ipv6Addr) : Visible address.text := by
  intro c hc
  have hc := address.digits c hc
  rw [Bool.or_eq_true] at hc
  rcases hc with hdigit | hletter
  · simp only [Char.isDigit, Bool.and_eq_true, decide_eq_true_eq] at hdigit
    have hlow : ('0' : Char).toNat ≤ c.toNat := hdigit.1
    have hhigh : c.toNat ≤ ('9' : Char).toNat := hdigit.2
    have h0 : ('0' : Char).toNat = 48 := rfl
    have h9 : ('9' : Char).toNat = 57 := rfl
    omega
  · simp only [decide_eq_true_eq, mem_cons, not_mem_nil, or_false] at hletter
    rcases hletter with rfl | rfl | rfl | rfl | rfl | rfl | rfl <;> decide

theorem Host.visible (host : Host) : Visible host.serialization := by
  cases host with
  | domain name => exact name.visible
  | ipv4 octets =>
    obtain ⟨a, b, c, d⟩ := octets
    have hdot : 0x21 ≤ ('.' : Char).toNat ∧ ('.' : Char).toNat ≤ 0x7e := by decide
    have hlast := Visible.cons hdot (decimal_visible d)
    have hthird := Visible.cons hdot ((decimal_visible c).append hlast)
    have hsecond := Visible.cons hdot ((decimal_visible b).append hthird)
    have hall := (decimal_visible a).append hsecond
    simpa [Host.serialization, List.intercalate, List.intersperse] using hall
  | ipv6 address =>
    have hclose : Visible [']'] := by unfold Visible; decide
    exact Visible.cons (by decide) (address.visible.append hclose)

theorem originSerialization_visible {scheme} (hscheme : Visible scheme) (host : Host)
    (port) : Visible (originSerialization scheme host port) := by
  have hsep : Visible "://".toList := by unfold Visible; decide
  refine ((hscheme.append hsep).append host.visible).append ?_
  cases port with
  | none => exact fun c hc => absurd hc (by simp)
  | some port => exact Visible.cons (by decide) (decimal_visible port)

/-- What the policy needs of an origin. -/
structure Origin (origin : Text) : Prop where
  visible : Visible origin
  mem_colon : ':' ∈ origin

theorem validate_origin {env : Env} {raw origin : Text}
    (h : env.validate raw = .ok origin) : Origin origin := by
  have hserial : ∃ scheme host port, origin = originSerialization scheme host port ∧
      (scheme = "http".toList ∨ scheme = "https".toList) := by
    simp only [Env.validate, Env.validateWithPolicy] at h
    split at h
    · cases h
    split at h
    · cases h
    split at h
    · cases h
    split at h
    · cases h
    rename_i url _
    split at h
    · cases h
    rename_i hscheme
    split at h
    · cases h
    split at h
    · cases h
    rename_i host _
    split at h
    · cases h
    split at h
    · cases h
    split at h
    · cases h
    injection h with h
    refine ⟨url.scheme, host, url.port, h.symm, ?_⟩
    by_contra hneither
    exact hscheme (not_or.1 hneither)
  obtain ⟨scheme, host, port, rfl, hscheme⟩ := hserial
  constructor
  · apply originSerialization_visible
    rcases hscheme with rfl | rfl <;> (unfold Visible; decide)
  · simp [originSerialization]

section Origin

variable {origin : Text}

theorem Origin.not_blank (h : Origin origin) : ∀ c ∈ origin, isWhitespace c = false := by
  intro c hc
  obtain ⟨hlow, hhigh⟩ := h.visible c hc
  simp only [isWhitespace, Bool.or_eq_false_iff, Bool.and_eq_false_iff, decide_eq_false_iff_not,
    beq_eq_false_iff_ne]
  omega

theorem Origin.ne_nil (h : Origin origin) : origin ≠ [] := ne_nil_of_mem h.mem_colon

theorem Origin.ne_connectSrc (h : Origin origin) : origin ≠ connectSrc := by
  rintro rfl
  exact absurd h.mem_colon (by decide)

theorem Origin.words_eq (h : Origin origin) : words isWhitespace origin = [origin] :=
  words_of_forall h.not_blank h.ne_nil

end Origin

/-- A directive as the code keeps it: no blank at its ends, not empty and
without `;`. -/
structure Segment (d : Text) : Prop where
  trimmed : Trimmed isWhitespace d
  ne_nil : d ≠ []
  no_sep : ';' ∉ d

theorem segments_blank (rest : Text) : segments (' ' :: rest) = segments rest := by
  obtain ⟨first, others, hsplit⟩ := exists_cons_of_ne_nil (splitOn_ne_nil ';' rest)
  have htrim : trim isWhitespace (' ' :: first) = trim isWhitespace first := by
    rw [trim, dropWhile_cons_of_pos (by decide)]
    rfl
  rw [segments, segments, splitOn_cons_eq_if_modifyHead, if_neg (by decide), hsplit,
    modifyHead_cons, map_cons, map_cons, htrim]

variable {d : Text}

theorem segments_append_cons (h : Segment d) (rest : Text) :
    segments (d ++ ';' :: rest) = d :: segments rest := by
  rw [segments, splitOn_append_cons_self_of_not_mem h.no_sep, map_cons,
    h.trimmed.trim_eq, filter_cons_of_pos (by simp [h.ne_nil])]
  rfl

theorem segments_self (h : Segment d) : segments d = [d] := by
  rw [segments, splitOn_eq_singleton h.no_sep, map_singleton, h.trimmed.trim_eq,
    filter_cons_of_pos (by simp [h.ne_nil]), filter_nil]

theorem segments_intercalate {ds : List Text} (h : ∀ d ∈ ds, Segment d) :
    segments ("; ".toList.intercalate ds) = ds := by
  induction ds with
  | nil => rfl
  | cons d rest ih =>
    cases rest with
    | nil =>
      rw [intercalate_singleton]
      exact segments_self (h d mem_cons_self)
    | cons d' rest =>
      rw [intercalate_cons_cons]
      rw [append_assoc, show "; ".toList = [';', ' '] from rfl, cons_append,
        cons_append, nil_append, segments_append_cons (h d mem_cons_self),
        segments_blank]
      congr 1
      exact ih fun x hx => h x (.tail _ hx)

theorem segment_of_mem {csp} (hd : d ∈ segments csp) : Segment d := by
  obtain ⟨hd, hne⟩ := mem_filter.1 hd
  obtain ⟨raw, hraw, rfl⟩ := mem_map.1 hd
  refine ⟨trimmed_trim raw, ?_, ?_⟩
  · simpa using hne
  · intro hmem
    exact not_mem_of_mem_splitOn hraw (trim_subset raw hmem)

/-! ## Adding the origin -/

section WithOrigin

variable {origin : Text}

theorem isConnectSrc_append (d) (hd : isConnectSrc d = true) :
    isConnectSrc (d ++ ' ' :: origin) = true := by
  rw [isConnectSrc, words_append_cons d origin (by decide), List.head?_append]
  rw [isConnectSrc, decide_eq_true_eq] at hd
  simp [hd]

theorem isConnectSrc_withOrigin (d) : isConnectSrc (withOrigin origin d) = isConnectSrc d := by
  rw [withOrigin]
  by_cases hd : isConnectSrc d = true
  · rw [if_pos hd]
    by_cases hmem : origin ∈ words isWhitespace d
    · rw [if_pos hmem]
    · rw [if_neg hmem, hd]
      exact isConnectSrc_append d hd
  · rw [if_neg hd]

theorem mem_words_withOrigin (h : Origin origin) {d} (hd : isConnectSrc d = true) :
    origin ∈ words isWhitespace (withOrigin origin d) := by
  rw [withOrigin, if_pos hd]
  by_cases hmem : origin ∈ words isWhitespace d
  · rwa [if_pos hmem]
  · rw [if_neg hmem, words_append_cons d origin (by decide), h.words_eq]
    exact mem_append_right _ mem_cons_self

theorem withOrigin_withOrigin (h : Origin origin) (d) :
    withOrigin origin (withOrigin origin d) = withOrigin origin d := by
  by_cases hd : isConnectSrc d = true
  · have hmem := mem_words_withOrigin h hd
    rw [withOrigin, isConnectSrc_withOrigin, if_pos hd, if_pos hmem]
  · have hself : withOrigin origin d = d := by rw [withOrigin, if_neg hd]
    rw [hself, hself]

/-- The directive the code adds when there is none. -/
def newDirective (origin : Text) : Text := connectSrc ++ ' ' :: (selfSource ++ ' ' :: origin)

theorem words_newDirective (h : Origin origin) :
    words isWhitespace (newDirective origin) = [connectSrc, selfSource, origin] := by
  rw [newDirective, words_append_cons _ _ (by decide), words_append_cons _ _ (by decide),
    h.words_eq]
  rfl

theorem isConnectSrc_newDirective (h : Origin origin) :
    isConnectSrc (newDirective origin) = true := by
  rw [isConnectSrc, words_newDirective h]
  rfl

theorem withOrigin_newDirective (h : Origin origin) :
    withOrigin origin (newDirective origin) = newDirective origin := by
  rw [withOrigin, if_pos (isConnectSrc_newDirective h), words_newDirective h, if_pos (by simp)]

theorem Origin.trimmed (h : Origin origin) : Trimmed isWhitespace origin :=
  trimmed_of_forall h.not_blank

theorem segment_withOrigin (h : Origin origin) (hsep : ';' ∉ origin) {d}
    (hd : Segment d) : Segment (withOrigin origin d) := by
  rw [withOrigin]
  by_cases hconnect : isConnectSrc d = true
  · rw [if_pos hconnect]
    by_cases hmem : origin ∈ words isWhitespace d
    · rwa [if_pos hmem]
    · rw [if_neg hmem]
      refine ⟨hd.trimmed.append_cons h.trimmed hd.ne_nil h.ne_nil ' ', by simp, ?_⟩
      simp [hd.no_sep, hsep]
  · rwa [if_neg hconnect]

theorem segment_newDirective (h : Origin origin) (hsep : ';' ∉ origin) :
    Segment (newDirective origin) := by
  have hself : Trimmed isWhitespace selfSource := trimmed_of_forall (by decide)
  have hconnect : Trimmed isWhitespace connectSrc := trimmed_of_forall (by decide)
  have hsources := hself.append_cons h.trimmed (by decide) h.ne_nil ' '
  refine ⟨hconnect.append_cons hsources (by decide) (by simp) ' ', by simp [newDirective], ?_⟩
  simp only [newDirective, mem_append, mem_cons, hsep, or_false, not_or]
  decide

def outDirectives (csp origin : Text) : List Text :=
  if (segments csp).any isConnectSrc = true then (segments csp).map (withOrigin origin)
  else (segments csp).map (withOrigin origin) ++ [newDirective origin]

theorem cspWithConnectOrigin_eq (csp origin) :
    cspWithConnectOrigin csp origin = "; ".toList.intercalate (outDirectives csp origin) := rfl

theorem segments_cspWithConnectOrigin (h : Origin origin) (hsep : ';' ∉ origin) (csp) :
    segments (cspWithConnectOrigin csp origin) = outDirectives csp origin := by
  rw [cspWithConnectOrigin_eq]
  apply segments_intercalate
  intro d hd
  have hmapped : ∀ d ∈ (segments csp).map (withOrigin origin), Segment d := by
    intro d hd
    obtain ⟨d₀, hd₀, rfl⟩ := mem_map.1 hd
    exact segment_withOrigin h hsep (segment_of_mem hd₀)
  rw [outDirectives] at hd
  by_cases hfound : (segments csp).any isConnectSrc = true
  · rw [if_pos hfound] at hd
    exact hmapped d hd
  · rw [if_neg hfound] at hd
    rcases mem_append.1 hd with hd | hd
    · exact hmapped d hd
    · rw [mem_singleton.1 hd]
      exact segment_newDirective h hsep

theorem any_outDirectives (h : Origin origin) (csp) :
    (outDirectives csp origin).any isConnectSrc = true := by
  have hmapped : ((segments csp).map (withOrigin origin)).any isConnectSrc =
      (segments csp).any isConnectSrc := by
    rw [any_map]
    congr 1
    funext d
    exact isConnectSrc_withOrigin d
  rw [outDirectives]
  by_cases hfound : (segments csp).any isConnectSrc = true
  · rw [if_pos hfound, hmapped, hfound]
  · rw [if_neg hfound, any_append]
    simp [isConnectSrc_newDirective h]

theorem map_withOrigin_outDirectives (h : Origin origin) (csp) :
    (outDirectives csp origin).map (withOrigin origin) = outDirectives csp origin := by
  have hmapped : ((segments csp).map (withOrigin origin)).map (withOrigin origin) =
      (segments csp).map (withOrigin origin) := by
    rw [map_map]
    congr 1
    funext d
    exact withOrigin_withOrigin h d
  rw [outDirectives]
  by_cases hfound : (segments csp).any isConnectSrc = true
  · rw [if_pos hfound, hmapped]
  · rw [if_neg hfound, map_append, hmapped, map_singleton, withOrigin_newDirective h]

theorem cspWithConnectOrigin_idem (h : Origin origin) (hsep : ';' ∉ origin) (csp) :
    cspWithConnectOrigin (cspWithConnectOrigin csp origin) origin =
      cspWithConnectOrigin csp origin := by
  have hsegments := segments_cspWithConnectOrigin h hsep csp
  rw [cspWithConnectOrigin_eq (cspWithConnectOrigin csp origin), outDirectives, hsegments,
    if_pos (any_outDirectives h csp), map_withOrigin_outDirectives h]
  rfl

end WithOrigin

end StudioOS.Csp
