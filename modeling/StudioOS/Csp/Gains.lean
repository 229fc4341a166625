import StudioOS.Csp.Splice

/-!
# Csp — Gains

What a browser reads in the result of `csp_with_connect_origin`: the
directives of the policy, with the origin among the sources of `connect-src`
(`csp_gains_origin`).
-/

namespace StudioOS.Csp

open List Words

theorem isWhitespace_eq_isCspSpace {c} (h : isCspChar c = true) :
    isWhitespace c = isCspSpace c := by
  rw [isCspChar, Bool.or_eq_true] at h
  rcases h with hspace | hvisible
  · rw [hspace]
    simp only [isCspSpace, decide_eq_true_eq, mem_cons, not_mem_nil, or_false] at hspace
    rcases hspace with rfl | rfl | rfl | rfl | rfl <;> decide
  simp only [Bool.and_eq_true, decide_eq_true_eq] at hvisible
  have hnot : isCspSpace c = false := by
    rw [isCspSpace, decide_eq_false_iff_not]
    intro hmem
    simp only [mem_cons, not_mem_nil, or_false] at hmem
    rcases hmem with rfl | rfl | rfl | rfl | rfl <;> exact absurd hvisible (by decide)
  rw [hnot]
  simp only [isWhitespace, Bool.or_eq_false_iff, Bool.and_eq_false_iff, decide_eq_false_iff_not,
    beq_eq_false_iff_ne]
  omega

/-- A text of a policy. -/
def CspText (text : Text) : Prop := ∀ c ∈ text, isCspChar c = true

variable {text csp : Text} {d : List Text}

theorem Visible.cspText (h : Visible text) : CspText text := by
  intro c hc
  simp [isCspChar, h c hc]

theorem readDirectives_eq (h : CspText csp) :
    readDirectives csp = (segments csp).map (words isWhitespace) := by
  have hwords : ∀ d ∈ csp.splitOn ';',
      words isCspSpace d = words isWhitespace (trim isWhitespace d) := by
    intro d hd
    rw [words_trim]
    apply words_congr
    intro c hc
    exact (isWhitespace_eq_isCspSpace (h c (mem_of_mem_splitOn hd hc))).symm
  have hnonempty : ∀ d ∈ csp.splitOn ';',
      (!(words isWhitespace (trim isWhitespace d)).isEmpty) = !(trim isWhitespace d).isEmpty := by
    intro d _
    rw [words_trim]
    by_cases hnil : words isWhitespace d = []
    · rw [hnil, trim_eq_nil_iff.2 hnil]
      rfl
    · have htrim : trim isWhitespace d ≠ [] := fun h => hnil (trim_eq_nil_iff.1 h)
      rw [isEmpty_eq_false_iff.2 hnil, isEmpty_eq_false_iff.2 htrim]
  rw [readDirectives, segments, map_congr_left hwords, filter_map, filter_map, map_map]
  congr 1
  exact filter_congr hnonempty

theorem nameKey_of_head {directive} (h : directive.head? = some connectSrc) :
    nameKey directive = connectSrc := by
  cases directive with
  | nil => cases h
  | cons name sources =>
    injection h with h
    rw [nameKey, headD_cons, h]
    decide

theorem firsts_map {f} (hf : ∀ d, nameKey (f d) = nameKey d)
    (ds) : firsts (ds.map f) = (firsts ds).map f := by
  induction ds with
  | nil => rfl
  | cons d rest ih =>
    have hfilter : ((fun other => decide (nameKey other ≠ nameKey (f d))) ∘ f) =
        fun other => decide (nameKey other ≠ nameKey d) := by
      funext other
      simp [hf]
    rw [map_cons, firsts, firsts, ih, filter_map, hfilter, map_cons]

theorem firsts_subset (ds) : ∀ d ∈ firsts ds, d ∈ ds := by
  induction ds with
  | nil => simp [firsts]
  | cons d rest ih =>
    intro x hx
    rcases mem_cons.1 hx with rfl | hx
    · exact mem_cons_self
    · exact .tail _ (ih x (mem_of_mem_filter hx))

theorem exists_mem_firsts {ds} (hd : d ∈ ds) : ∃ first ∈ firsts ds, nameKey first = nameKey d := by
  induction ds with
  | nil => cases hd
  | cons x rest ih =>
    by_cases hkey : nameKey d = nameKey x
    · exact ⟨x, mem_cons_self, hkey.symm⟩
    rcases mem_cons.1 hd with rfl | hd
    · exact absurd rfl hkey
    · obtain ⟨first, hfirst, hname⟩ := ih hd
      refine ⟨first, .tail _ (mem_filter.2 ⟨hfirst, ?_⟩), hname⟩
      rw [hname, decide_eq_true_eq]
      exact hkey

theorem firsts_concat {ds}
    (h : ∀ x ∈ ds, nameKey x ≠ nameKey d) : firsts (ds ++ [d]) = firsts ds ++ [d] := by
  induction ds with
  | nil => rfl
  | cons x rest ih =>
    have hx := h x mem_cons_self
    rw [cons_append, firsts, ih fun y hy => h y (.tail _ hy), firsts, filter_append, cons_append]
    simp [hx.symm]

def addSource (origin : Text) (sources : List Text) : List Text :=
  if origin ∈ sources then sources else sources ++ [origin]

/-- The policy with the origin among the sources of `connect-src`; a policy
without this directive gets one that has `'self'` as well. -/
def gained (policy : List (Text × List Text)) (origin : Text) : List (Text × List Text) :=
  if ∃ directive ∈ policy, directive.1 = connectSrc then
    policy.map fun directive =>
      if directive.1 = connectSrc then (directive.1, addSource origin directive.2) else directive
  else policy ++ [(connectSrc, [selfSource, origin])]

/-- The words of `withOrigin`. -/
def wordsWithOrigin (origin : Text) (directive : List Text) : List Text :=
  if directive.head? = some connectSrc then addSource origin directive else directive

section Gains

variable {origin : Text}

theorem words_withOrigin (h : Origin origin) (d) :
    words isWhitespace (withOrigin origin d) = wordsWithOrigin origin (words isWhitespace d) := by
  rw [withOrigin, wordsWithOrigin, addSource, isConnectSrc]
  by_cases hd : (words isWhitespace d).head? = some connectSrc
  · rw [if_pos (decide_eq_true hd), if_pos hd]
    by_cases hmem : origin ∈ words isWhitespace d
    · rw [if_pos hmem, if_pos hmem]
    · rw [if_neg hmem, if_neg hmem, words_append_cons d origin (by decide), h.words_eq]
  · rw [if_neg (by simpa using hd), if_neg hd]

theorem nameKey_wordsWithOrigin (d) : nameKey (wordsWithOrigin origin d) = nameKey d := by
  rw [wordsWithOrigin]
  by_cases hd : d.head? = some connectSrc
  · rw [if_pos hd, nameKey_of_head hd]
    apply nameKey_of_head
    rw [addSource]
    by_cases hmem : origin ∈ d
    · rw [if_pos hmem, hd]
    · rw [if_neg hmem, List.head?_append, hd]
      rfl
  · rw [if_neg hd]

theorem tail_wordsWithOrigin (h : Origin origin) (hd : d.head? = some connectSrc) :
    (wordsWithOrigin origin d).tail = addSource origin d.tail := by
  cases d with
  | nil => cases hd
  | cons name sources =>
    have hname : name = connectSrc := by
      injection hd
    have hne := h.ne_connectSrc
    rw [wordsWithOrigin, if_pos hd, addSource, addSource, hname, tail_cons]
    by_cases hmem : origin ∈ sources
    · rw [if_pos (.tail _ hmem), if_pos hmem, tail_cons]
    · rw [if_neg (by simp [hne, hmem]), if_neg hmem, cons_append, tail_cons]

theorem CspText.append {front back} (hfront : CspText front) (hback : CspText back) :
    CspText (front ++ back) := by
  intro c hc
  rcases mem_append.1 hc with hc | hc
  · exact hfront c hc
  · exact hback c hc

theorem cspText_blank_cons (h : CspText text) : CspText (' ' :: text) := by
  intro c hc
  rcases mem_cons.1 hc with rfl | hc
  · decide
  · exact h c hc

theorem cspText_of_mem_segments {d} (h : CspText csp) (hd : d ∈ segments csp) : CspText d := by
  obtain ⟨raw, hraw, rfl⟩ := mem_map.1 (mem_of_mem_filter hd)
  intro c hc
  exact h c (mem_of_mem_splitOn hraw (trim_subset raw hc))

theorem cspText_withOrigin (h : Origin origin) {d} (hd : CspText d) :
    CspText (withOrigin origin d) := by
  rw [withOrigin]
  by_cases hconnect : isConnectSrc d = true
  · rw [if_pos hconnect]
    by_cases hmem : origin ∈ words isWhitespace d
    · rwa [if_pos hmem]
    · rw [if_neg hmem]
      exact hd.append (cspText_blank_cons h.visible.cspText)
  · rwa [if_neg hconnect]

theorem cspText_newDirective (h : Origin origin) : CspText (newDirective origin) := by
  have hconnect : CspText connectSrc := by unfold CspText; decide
  have hself : CspText selfSource := by unfold CspText; decide
  exact hconnect.append (cspText_blank_cons (hself.append (cspText_blank_cons h.visible.cspText)))

theorem cspText_intercalate {ds : List Text} (h : ∀ d ∈ ds, CspText d) :
    CspText ("; ".toList.intercalate ds) := by
  induction ds with
  | nil => exact fun c hc => absurd hc (by simp)
  | cons d rest ih =>
    have hd := h d mem_cons_self
    cases rest with
    | nil => rwa [intercalate_singleton]
    | cons d' rest =>
      have hsep : CspText "; ".toList := by unfold CspText; decide
      rw [intercalate_cons_cons]
      exact (hd.append hsep).append (ih fun x hx => h x (.tail _ hx))

theorem cspText_cspWithConnectOrigin (h : Origin origin) (hcsp : CspText csp) :
    CspText (cspWithConnectOrigin csp origin) := by
  have hmapped : ∀ d ∈ (segments csp).map (withOrigin origin), CspText d := by
    intro d hd
    obtain ⟨d₀, hd₀, rfl⟩ := mem_map.1 hd
    exact cspText_withOrigin h (cspText_of_mem_segments hcsp hd₀)
  rw [cspWithConnectOrigin_eq]
  apply cspText_intercalate
  intro d hd
  rw [outDirectives] at hd
  by_cases hfound : (segments csp).any isConnectSrc = true
  · rw [if_pos hfound] at hd
    exact hmapped d hd
  · rw [if_neg hfound] at hd
    rcases mem_append.1 hd with hd | hd
    · exact hmapped d hd
    · rw [mem_singleton.1 hd]
      exact cspText_newDirective h

/-! ## The result -/

/-- The directive a browser takes for `connect-src` is written in lower case. -/
def LowerConnectSrc (csp : Text) : Prop :=
  ∀ d ∈ firsts (readDirectives csp), nameKey d = connectSrc → d.head? = some connectSrc

theorem readDirectives_cspWithConnectOrigin (h : Origin origin) (hsep : ';' ∉ origin)
    (hcsp : CspText csp) : readDirectives (cspWithConnectOrigin csp origin) =
      if (segments csp).any isConnectSrc = true then
        (readDirectives csp).map (wordsWithOrigin origin)
      else (readDirectives csp).map (wordsWithOrigin origin) ++
        [[connectSrc, selfSource, origin]] := by
  have hmapped : ((segments csp).map (withOrigin origin)).map (words isWhitespace) =
      (readDirectives csp).map (wordsWithOrigin origin) := by
    rw [readDirectives_eq hcsp, map_map, map_map]
    congr 1
    funext d
    exact words_withOrigin h d
  rw [readDirectives_eq (cspText_cspWithConnectOrigin h hcsp),
    segments_cspWithConnectOrigin h hsep, outDirectives]
  by_cases hfound : (segments csp).any isConnectSrc = true
  · rw [if_pos hfound, if_pos hfound, hmapped]
  · rw [if_neg hfound, if_neg hfound, map_append, hmapped, map_singleton, words_newDirective h]

theorem any_isConnectSrc_iff (hcsp : CspText csp) (hlower : LowerConnectSrc csp) :
    (segments csp).any isConnectSrc = true ↔
      ∃ d ∈ firsts (readDirectives csp), nameKey d = connectSrc := by
  constructor
  · intro hfound
    obtain ⟨d, hd, hconnect⟩ := any_eq_true.1 hfound
    have hread : words isWhitespace d ∈ readDirectives csp := by
      rw [readDirectives_eq hcsp]
      exact mem_map_of_mem hd
    obtain ⟨first, hfirst, hname⟩ := exists_mem_firsts hread
    refine ⟨first, hfirst, ?_⟩
    rw [hname]
    exact nameKey_of_head (of_decide_eq_true hconnect)
  · rintro ⟨first, hfirst, hname⟩
    have hread := firsts_subset _ first hfirst
    rw [readDirectives_eq hcsp] at hread
    obtain ⟨d, hd, hwords⟩ := mem_map.1 hread
    refine any_eq_true.2 ⟨d, hd, ?_⟩
    rw [isConnectSrc, hwords, hlower first hfirst hname, decide_eq_true_eq]

theorem gained_directive (h : Origin origin)
    (hlower : nameKey d = connectSrc → d.head? = some connectSrc) :
    (nameKey (wordsWithOrigin origin d), (wordsWithOrigin origin d).tail) =
      if nameKey d = connectSrc then (nameKey d, addSource origin d.tail)
      else (nameKey d, d.tail) := by
  rw [nameKey_wordsWithOrigin]
  by_cases hname : nameKey d = connectSrc
  · rw [if_pos hname, tail_wordsWithOrigin h (hlower hname)]
  · have hhead : ¬d.head? = some connectSrc := fun hd => hname (nameKey_of_head hd)
    rw [if_neg hname, wordsWithOrigin, if_neg hhead]

theorem readPolicy_cspWithConnectOrigin (h : Origin origin) (hsep : ';' ∉ origin)
    (hcsp : CspText csp) (hlower : LowerConnectSrc csp) :
    readPolicy (cspWithConnectOrigin csp origin) = gained (readPolicy csp) origin := by
  have hfirsts := firsts_map (f := wordsWithOrigin origin) nameKey_wordsWithOrigin
    (readDirectives csp)
  have hiff := any_isConnectSrc_iff hcsp hlower
  have hpolicy : (∃ directive ∈ readPolicy csp, directive.1 = connectSrc) ↔
      ∃ d ∈ firsts (readDirectives csp), nameKey d = connectSrc := by
    simp [readPolicy]
  rw [gained, readPolicy, readDirectives_cspWithConnectOrigin h hsep hcsp]
  by_cases hfound : (segments csp).any isConnectSrc = true
  · rw [if_pos hfound, if_pos (hpolicy.2 (hiff.1 hfound)), hfirsts, readPolicy, map_map, map_map]
    apply map_congr_left
    intro d hd
    exact gained_directive h (hlower d hd)
  · have hnone : ∀ d ∈ readDirectives csp, nameKey d ≠ connectSrc := by
      intro d hd hname
      obtain ⟨first, hfirst, hkey⟩ := exists_mem_firsts hd
      exact hfound (hiff.2 ⟨first, hfirst, hkey.trans hname⟩)
    have hself : (readDirectives csp).map (wordsWithOrigin origin) = readDirectives csp := by
      conv_rhs => rw [← map_id (readDirectives csp)]
      apply map_congr_left
      intro d hd
      rw [wordsWithOrigin, if_neg fun hhead => hnone d hd (nameKey_of_head hhead)]
      rfl
    have hkey : nameKey [connectSrc, selfSource, origin] = connectSrc := nameKey_of_head rfl
    rw [if_neg hfound, if_neg fun hex => hfound (hiff.2 (hpolicy.1 hex)), hself,
      firsts_concat (by rwa [hkey]), map_append, map_singleton, hkey]
    rfl

end Gains

/-- The policy gains the origin, nothing else and only once: a browser reads the directives of the
policy with the origin among the sources of `connect-src`, which a policy without it gets with
`'self'`. -/
theorem csp_gains_origin {env : Env} {raw origin : Text} (hok : env.validate raw = .ok origin)
    (hsep : ';' ∉ origin) : (∀ csp, cspWithConnectOrigin (cspWithConnectOrigin csp origin) origin =
      cspWithConnectOrigin csp origin) ∧ ∀ csp, CspText csp → LowerConnectSrc csp →
      readPolicy (cspWithConnectOrigin csp origin) = gained (readPolicy csp) origin := by
  have horigin := validate_origin hok
  constructor
  · intro csp
    exact cspWithConnectOrigin_idem horigin hsep csp
  · intro csp hcsp hlower
    exact readPolicy_cspWithConnectOrigin horigin hsep hcsp hlower

def studioAddress : Text := "https://studio.example.com".toList

def studioUrl : Url where
  scheme := "https".toList
  username := []
  password := none
  host := some (.domain ⟨"studio.example.com".toList, by decide, by decide, by decide⟩)
  port := none
  path := ['/']
  query := none
  fragment := none

/-- The address is the only text that parses. -/
def studioEnv : Env where
  parse text := if text = studioAddress then some studioUrl else none

theorem csp_gains_studio : readPolicy (cspWithConnectOrigin
      "default-src 'self'; connect-src 'self' ipc:; CONNECT-SRC *".toList studioAddress) =
      gained [("default-src".toList, [selfSource]), (connectSrc, [selfSource, "ipc:".toList])]
        studioAddress :=
  (@csp_gains_origin studioEnv (' ' :: studioAddress) studioAddress rfl (by decide)).2
    "default-src 'self'; connect-src 'self' ipc:; CONNECT-SRC *".toList
    (by unfold CspText; decide) (by unfold LowerConnectSrc; decide)

/-- A policy without `connect-src` gains `'self'` besides the origin. -/
theorem gains_self : studioEnv.validate studioAddress = .ok studioAddress ∧
    ¬∀ d ∈ readPolicy (cspWithConnectOrigin "default-src 'none'".toList studioAddress),
      d.1 = connectSrc → ∀ source ∈ d.2, source = studioAddress ∨
        ∃ d' ∈ readPolicy "default-src 'none'".toList, d'.1 = connectSrc ∧ source ∈ d'.2 := by
  refine ⟨rfl, ?_⟩
  decide

end StudioOS.Csp
