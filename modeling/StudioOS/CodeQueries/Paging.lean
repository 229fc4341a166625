import StudioOS.CodeQueries.Contract

/-!
# Code queries — Paging

The cursors of `page` lead through the pool of an index, page by page, each
with its edges. Only a last page that is cramped ends the way with an
exception.
-/

namespace StudioOS.CodeQueries

open List

variable {texts : Texts} {index : CodeGraphIndex} {source : GraphSource} {limit offset : Nat}
  {kinds : List NodeKind} {node : GraphNode} {cursor : Option Text}
  {first : GraphNode}

/-- The pages of a client that follows `next_cursor` to its end. -/
inductive Follows (ask : Option Text → Outcome GraphPage) : Option Text → List GraphPage → Prop
  | last {cursor : Option Text} {page : GraphPage} (answered : ask cursor = .answered page)
      (done : page.nextCursor = none) : Follows ask cursor [page]
  | more {cursor : Option Text} {page : GraphPage} {next : Text} {pages : List GraphPage}
      (answered : ask cursor = .answered page) (again : page.nextCursor = some next)
      (rest : Follows ask (some next) pages) : Follows ask cursor (page :: pages)

/-- What a page owes to its nodes and edges. -/
structure GraphPage.Whole (index : CodeGraphIndex) (page : GraphPage) : Prop where
  edges_le : page.edges.length ≤ maxPageEdges
  edgeIds : page.edgeIds.Nodup
  frontier_le : page.frontier.length ≤ maxPageLimit
  ends : ∀ edge ∈ page.edges, page.reaches edge.source = true ∧ page.reaches edge.target = true
  /-- All edges of a node, unless the node alone exceeds the bounds. -/
  edges : ∀ node ∈ page.nodes, index.fits Taken.none node = true →
    ∀ edge ∈ index.incident node.nodeId, edge ∈ page.edges

/-- What `page` takes from an offset on. -/
def CodeGraphIndex.takenAt (index : CodeGraphIndex) (limit : Nat) (kinds : List NodeKind)
    (offset : Nat) : Taken :=
  takeFrom index limit ((index.pool kinds).drop offset) Taken.none

/-- The offsets at which pages start. -/
inductive Starts (index : CodeGraphIndex) (limit : Nat) (kinds : List NodeKind) : Nat → Prop
  | first : Starts index limit kinds 0
  | next {offset : Nat} (h : Starts index limit kinds offset)
      (more : offset + (index.takenAt limit kinds offset).nodes.length <
        (index.pool kinds).length) :
      Starts index limit kinds (offset + (index.takenAt limit kinds offset).nodes.length)

theorem Follows.valid {pages}
    (h : Follows (fun cursor => index.page texts source limit cursor kinds) cursor pages) :
    ∀ page ∈ pages, page.valid = true ∧ page.source = source := by
  have hmade : ∀ cursor page, index.page texts source limit cursor kinds = .answered page →
      page.valid = true ∧ page.source = source := by
    intro cursor page hpage
    unfold CodeGraphIndex.page at hpage
    split at hpage
    · cases hpage
    dsimp only at hpage
    split at hpage
    · cases hpage
    · unfold GraphPage.make at hpage
      split at hpage
      · cases hpage
        exact ⟨‹_›, rfl⟩
      · cases hpage
  induction h with
  | last answered =>
    intro page hpage
    rw [mem_singleton.mp hpage]
    exact hmade _ _ answered
  | more answered again rest ih =>
    intro page hpage
    rcases mem_cons.mp hpage with rfl | hpage
    · exact hmade _ _ answered
    · exact ih page hpage

theorem intOf_toDigits (n) : intOf (Nat.toDigits 10 n) = n := by
  have h := Nat.ofDigitChars_ten_toDigits (n := n)
  rw [Nat.ofDigitChars] at h
  exact h

theorem decode_encode {stamp} (h : '.' ∉ stamp) (offset) :
    decode (some (encode stamp offset)) stamp = some offset := by
  have hne : ∀ c ∈ stamp, decide (c ≠ '.') = true := by
    intro c hc
    simp only [ne_eq, decide_not, Bool.not_eq_true', decide_eq_false_iff_not]
    rintro rfl
    exact h hc
  have hhead : (encode stamp offset).takeWhile (· ≠ '.') = stamp := by
    rw [encode, takeWhile_append_of_pos hne]
    simp
  have htail : (encode stamp offset).dropWhile (· ≠ '.') = '.' :: Nat.toDigits 10 offset := by
    rw [encode, dropWhile_append_of_pos hne]
    simp
  have hdigits : (Nat.toDigits 10 offset).all Char.isDigit = true :=
    all_eq_true.mpr fun c hc => Nat.isDigit_of_mem_toDigits (by decide) (by decide) hc
  simp only [decode, hhead, htail, drop_one, tail_cons, hdigits, and_true,
    ne_eq, Nat.toDigits_ne_nil, not_false_eq_true, if_true, intOf_toDigits]

/-! ## One page -/

theorem edges_subset_takeFrom (index) (limit) (rest)
    (taken) : taken.edges ⊆ (takeFrom index limit rest taken).edges ∧
      taken.nodes.length ≤ (takeFrom index limit rest taken).nodes.length := by
  induction rest generalizing taken with
  | nil => exact ⟨List.Subset.refl _, Nat.le_refl _⟩
  | cons node rest ih =>
    have hadd : ∀ edges frontier truncated,
        taken.edges ⊆ (takeFrom index limit rest (taken.add node edges frontier truncated)).edges ∧
          taken.nodes.length ≤
            (takeFrom index limit rest (taken.add node edges frontier truncated)).nodes.length := by
      intro edges frontier truncated
      obtain ⟨hedges, hnodes⟩ := ih (taken.add node edges frontier truncated)
      simp only [Taken.add, length_append, length_singleton] at hnodes
      exact ⟨List.Subset.trans (subset_append_left _ _) hedges, by simp only [Taken.add]; omega⟩
    unfold takeFrom
    split
    · exact ⟨List.Subset.refl _, Nat.le_refl _⟩
    · split
      · exact hadd _ _ _
      · split
        · exact ⟨List.Subset.refl _, Nat.le_refl _⟩
        · exact hadd _ _ _

theorem takeFrom_first (index) (hlimit : 0 < limit)
    (node rest) : 0 < (takeFrom index limit (node :: rest) Taken.none).nodes.length ∧
      (index.fits Taken.none node = true → ∀ edge ∈ index.incident node.nodeId,
        edge ∈ (takeFrom index limit (node :: rest) Taken.none).edges) := by
  unfold takeFrom
  rw [if_neg (by simpa [Taken.none] using hlimit.ne')]
  cases hfits : index.fits Taken.none node with
  | true =>
    rw [if_pos rfl]
    obtain ⟨hedges, hnodes⟩ := edges_subset_takeFrom index limit rest
      (Taken.none.add node (index.fresh Taken.none node) (index.nextFrontier Taken.none node) false)
    refine ⟨Nat.lt_of_lt_of_le (by simp [Taken.add, Taken.none]) hnodes, fun _ edge hedge => ?_⟩
    refine hedges (mem_append_right _ (CodeGraphIndex.mem_fresh.mpr ⟨hedge, ?_⟩))
    simp [Taken.none, Taken.edgeIds]
  | false =>
    rw [if_neg Bool.false_ne_true, if_neg (by simp [Taken.none])]
    obtain ⟨-, hnodes⟩ := edges_subset_takeFrom index limit rest
      (Taken.none.add node (index.kept node)
        (clip node.nodeId (index.fresh Taken.none node) Taken.none.pageIds).2 true)
    exact ⟨Nat.lt_of_lt_of_le (by simp [Taken.add, Taken.none]) hnodes, fun h => by cases h⟩

theorem keeps_takenAt (limit offset) (kinds) (hindex : index.Coherent) :
    ∃ rest, (index.takenAt limit kinds offset).Keeps index limit ((index.pool kinds).drop offset)
      rest :=
  takeFrom_keeps hindex _ _ (Taken.keeps_none _ _)

theorem page_eq (source) (limit)
    (hdecode : decode cursor (index.pageStamp texts kinds) = some offset)
    (hle : offset ≤ (index.pool kinds).length) : index.page texts source limit cursor kinds =
      (index.pageOf source (index.pageStamp texts kinds) (index.pool kinds) offset
        (index.takenAt limit kinds offset)).make := by
  rw [CodeGraphIndex.page, hdecode]
  exact if_neg (Nat.not_lt.mpr hle)

theorem whole_of_valid (hindex : index.Coherent) (hpos : 0 < limit) {stamp}
    (hvalid : (index.pageOf source stamp (index.pool kinds) offset
      (index.takenAt limit kinds offset)).valid = true) :
    (index.pageOf source stamp (index.pool kinds) offset
      (index.takenAt limit kinds offset)).Whole index := by
  unfold GraphPage.valid at hvalid
  simp only [Bool.and_eq_true, decide_eq_true_eq, all_eq_true] at hvalid
  obtain ⟨⟨⟨⟨⟨⟨-, hedges⟩, hfrontier⟩, -, hids⟩, -, hchecks⟩, -⟩, -⟩ := hvalid
  refine ⟨hedges, hids, hfrontier, fun edge hedge => ?_, fun node hnode hfits edge hedge => ?_⟩
  · have hcheck := hchecks edge hedge
    simp only [GraphPage.checksEdge, Bool.and_eq_true] at hcheck
    exact ⟨hcheck.1.2.2, hcheck.2.2⟩
  obtain ⟨rest, hkeeps⟩ := keeps_takenAt limit offset kinds hindex
  change node ∈ (index.takenAt limit kinds offset).nodes at hnode
  cases hwindow : (index.pool kinds).drop offset with
  | nil =>
    rw [hwindow] at hkeeps
    rw [(append_eq_nil_iff.mp hkeeps.split).1] at hnode
    cases hnode
  | cons first behind =>
    cases hnodes : (index.takenAt limit kinds offset).nodes with
    | nil =>
      rw [hnodes] at hnode
      cases hnode
    | cons head others =>
      have hsplit := hkeeps.split
      rw [hwindow, hnodes, cons_append, List.cons.injEq] at hsplit
      rw [hnodes] at hnode
      rcases mem_cons.mp hnode with rfl | hnode
      · have hfirst := (takeFrom_first index hpos first behind).2
        rw [← hsplit.1, ← hsplit.2] at hfirst
        show edge ∈ (index.takenAt limit kinds offset).edges
        rw [CodeGraphIndex.takenAt, hwindow, ← hsplit.1, ← hsplit.2]
        exact hfirst hfits edge hedge
      · exact hkeeps.covered node (by rwa [hnodes]) edge hedge

theorem takeFrom_covered (index) (limit) (rest) (taken) (hedges : taken.edges.length ≤ maxPageEdges)
    (hfrontier : taken.frontier.card ≤ maxPageLimit)
    (hroom : taken.nodes.length + rest.length ≤ limit)
    (hcovered : ∀ node ∈ rest, ∀ edge ∈ index.incident node.nodeId, edge ∈ taken.edges) :
    (takeFrom index limit rest taken).nodes = taken.nodes ++ rest ∧
      (takeFrom index limit rest taken).truncated = taken.truncated ∧
      ∀ id ∈ (takeFrom index limit rest taken).frontier, id ∈ taken.frontier ∧
        id ∉ rest.map GraphNode.nodeId := by
  induction rest generalizing taken with
  | nil => simp [takeFrom]
  | cons node rest ih =>
    have hfresh : index.fresh taken node = [] := by
      rw [CodeGraphIndex.fresh, filter_eq_nil_iff]
      intro edge hedge
      have hmem := mem_map_of_mem (f := GraphEdge.edgeId)
        (hcovered node (by simp) edge hedge)
      simpa [Taken.edgeIds] using hmem
    have hnext : index.nextFrontier taken node = taken.frontier.erase node.nodeId := by
      simp [CodeGraphIndex.nextFrontier, hfresh]
    have hcard : (taken.frontier.erase node.nodeId).card ≤ maxPageLimit :=
      Finset.card_erase_le.trans hfrontier
    have hfits : index.fits taken node = true := by
      simp [CodeGraphIndex.fits, hfresh, hnext, hedges, hcard]
    rw [length_cons] at hroom
    unfold takeFrom
    rw [if_neg (by omega), if_pos hfits, hfresh, hnext]
    have hroom' : (taken.nodes ++ [node]).length + rest.length ≤ limit := by
      rw [length_append, length_singleton]
      omega
    obtain ⟨hnodes, htruncated, hids⟩ := ih
      (taken.add node [] (taken.frontier.erase node.nodeId) false)
      (by simpa [Taken.add] using hedges) hcard hroom' fun other hother edge hedge =>
        mem_append_left _ (hcovered other (.tail _ hother) edge hedge)
    refine ⟨hnodes.trans (by simp [Taken.add]), htruncated.trans (by simp [Taken.add]),
      fun id hid => ?_⟩
    obtain ⟨hold, hnot⟩ := hids id hid
    rw [Taken.add, Finset.mem_erase] at hold
    exact ⟨hold.2, by simp [hold.1, hnot]⟩

theorem cramped_invalid (hcramped : index.Cramped limit ((index.pool kinds).drop offset))
    (stamp) : (index.pageOf source stamp (index.pool kinds) offset
      (index.takenAt limit kinds offset)).valid = false := by
  cases hwindow : (index.pool kinds).drop offset with
  | nil =>
    rw [hwindow] at hcramped
    exact hcramped.elim
  | cons first behind =>
    rw [hwindow] at hcramped
    obtain ⟨hfits, hroom, hends, hcovered⟩ := hcramped
    have hclip := clip_clipped first.nodeId (index.fresh Taken.none first)
    have hfirst : index.takenAt limit kinds offset = takeFrom index limit behind
        (Taken.none.add first (index.kept first)
          (clip first.nodeId (index.fresh Taken.none first) ∅).2 true) := by
      rw [CodeGraphIndex.takenAt, hwindow, takeFrom, if_neg (by simp [Taken.none]; omega),
        if_neg (by simp [hfits]), if_neg (by simp [Taken.none])]
      rfl
    obtain ⟨hnodes, htruncated, hids⟩ := takeFrom_covered index limit behind
      (Taken.none.add first (index.kept first)
        (clip first.nodeId (index.fresh Taken.none first) ∅).2 true)
      hclip.edges_le hclip.frontier_le (by simp [Taken.add, Taken.none]; omega)
      fun node hnode edge hedge => hcovered node hnode edge hedge
    rw [← hfirst] at hnodes htruncated hids
    have hempty : (index.takenAt limit kinds offset).frontier = ∅ := by
      rw [Finset.eq_empty_iff_forall_notMem]
      intro id hid
      obtain ⟨hold, hnot⟩ := hids id hid
      exact hnot (mem_toFinset.mp (index.frontier_behind hends hold))
    have hlast : ¬ offset + (index.takenAt limit kinds offset).nodes.length <
        (index.pool kinds).length := by
      have hlength := congrArg List.length hwindow
      rw [length_drop, length_cons] at hlength
      simp only [hnodes, Taken.add, Taken.none, nil_append, length_append, length_singleton]
      omega
    simp [GraphPage.valid, CodeGraphIndex.pageOf, hlast, htruncated, hempty, Taken.add]

theorem degree_of_cramped {behind} (hlimit : limit ≤ maxPageLimit)
    (hcramped : index.Cramped limit (first :: behind)) :
    maxPageEdges < (index.incident first.nodeId).length := by
  obtain ⟨hfits, hroom, hends, -⟩ := hcramped
  have hclip := clip_clipped first.nodeId (index.fresh Taken.none first)
  have hlength : (index.fresh Taken.none first).length ≤ (index.incident first.nodeId).length :=
    length_filter_le _ _
  rcases hclip.full with hall | hlen | hcard
  · rw [CodeGraphIndex.fits_of_kept hall] at hfits
    cases hfits
  · have hle := hclip.sublist.length_le
    refine Nat.lt_of_le_of_ne (hlen.symm.trans_le (hle.trans hlength)) fun heq => ?_
    rw [CodeGraphIndex.fits_of_kept (hclip.sublist.eq_of_length (by omega))] at hfits
    cases hfits
  · have hle := Finset.card_le_card (index.frontier_behind hends)
    have hbehind := toFinset_card_le (behind.map GraphNode.nodeId)
    rw [length_map] at hbehind
    omega

/-- Such a node is first on its page: whatever a page has, it does not fit. -/
theorem fits_crowded {taken} (hindex : index.Coherent)
    (hcrowded : maxPageEdges < (index.incident node.nodeId).length) :
    index.fits taken node = false := by
  have hsplit := length_eq_length_filter_add
    (fun edge : GraphEdge => decide (edge.edgeId ∈ taken.edgeIds))
    (l := index.incident node.nodeId)
  set old := (index.incident node.nodeId).filter fun edge => decide (edge.edgeId ∈ taken.edgeIds)
    with hold
  have hfresh : (index.fresh taken node).length = ((index.incident node.nodeId).filter
      fun edge => !decide (edge.edgeId ∈ taken.edgeIds)).length := by
    simp [CodeGraphIndex.fresh]
  have hnodup : (old.map GraphEdge.edgeId).Nodup :=
    ((filter_sublist.trans filter_sublist).map _).nodup hindex.edgeIds
  have hsub : old.map GraphEdge.edgeId ⊆ taken.edgeIds := by
    intro id hid
    obtain ⟨edge, hedge, rfl⟩ := mem_map.mp hid
    rw [hold, mem_filter] at hedge
    simpa using hedge.2
  have hle := (hnodup.subperm hsub).length_le
  rw [length_map, Taken.edgeIds, length_map] at hle
  simp only [CodeGraphIndex.fits, Bool.and_eq_false_iff, decide_eq_false_iff_not]
  left
  omega

theorem takeFrom_before (limit) (behind) (hindex : index.Coherent)
    (hcrowded : maxPageEdges < (index.incident first.nodeId).length) (before) (taken)
    (h : taken.nodes ≠ [] ∨ before ≠ []) :
    (takeFrom index limit (before ++ first :: behind) taken).nodes.length ≤
      taken.nodes.length + before.length := by
  induction before generalizing taken with
  | nil =>
    have hnodes : taken.nodes ≠ [] := h.resolve_right (· rfl)
    rw [nil_append, takeFrom]
    split
    · simp
    · simp [fits_crowded hindex hcrowded]
  | cons node before ih =>
    have hadd : ∀ edges frontier truncated, (takeFrom index limit (before ++ first :: behind)
        (taken.add node edges frontier truncated)).nodes.length ≤
          taken.nodes.length + (node :: before).length := by
      intro edges frontier truncated
      have hle := ih (taken.add node edges frontier truncated) (.inl (by simp [Taken.add]))
      simp only [Taken.add, length_append, length_singleton] at hle
      rw [length_cons]
      exact hle.trans (by omega)
    rw [cons_append, takeFrom]
    split
    · omega
    · split
      · exact hadd _ _ _
      · split
        · omega
        · exact hadd _ _ _

theorem starts_of_crowded (hindex : index.Coherent) (hpos : 0 < limit) {behind}
    (hwindow : (index.pool kinds).drop offset = first :: behind)
    (hcrowded : maxPageEdges < (index.incident first.nodeId).length) :
    Starts index limit kinds offset := by
  have hlength := congrArg List.length hwindow
  rw [length_drop, length_cons] at hlength
  have hrun : ∀ start, Starts index limit kinds start → start ≤ offset →
      Starts index limit kinds offset := by
    intro start hstart hle
    -- induction on the way from the start to the node
    induction hn : offset - start using Nat.strongRecOn generalizing start with
    | ind n ih =>
      by_cases heq : start = offset
      · exact heq ▸ hstart
      have hsplit : (index.pool kinds).drop start =
          ((index.pool kinds).drop start).take (offset - start) ++ first :: behind := by
        rw [← hwindow, show offset = start + (offset - start) by omega, ← drop_drop,
          Nat.add_sub_cancel_left, take_append_drop]
      have htake : (((index.pool kinds).drop start).take (offset - start)).length =
          offset - start := by
        rw [length_take, length_drop]
        omega
      have hbefore : ((index.pool kinds).drop start).take (offset - start) ≠ [] :=
        ne_nil_of_length_pos (by omega)
      have hle' : (index.takenAt limit kinds start).nodes.length ≤ offset - start := by
        have hend := takeFrom_before limit behind hindex hcrowded _
          Taken.none (.inr hbefore)
        rw [← hsplit, htake] at hend
        simpa [CodeGraphIndex.takenAt, Taken.none] using hend
      have hsome : 0 < (index.takenAt limit kinds start).nodes.length := by
        obtain ⟨head, others, hcons⟩ := exists_cons_of_ne_nil hbefore
        rw [CodeGraphIndex.takenAt, hsplit, hcons]
        exact (takeFrom_first index hpos head _).1
      exact ih _ (by omega) _ (hstart.next (by omega)) (by omega) rfl
  exact hrun 0 .first (Nat.zero_le _)

/-! ## All pages -/

section Client

variable (hindex : index.Coherent) (hpos : 0 < limit) (hstamp : '.' ∉ index.pageStamp texts kinds)

include hindex hpos hstamp

theorem follows_of_valid (hvalid : ∀ offset,
      (index.pageOf source (index.pageStamp texts kinds) (index.pool kinds) offset
        (index.takenAt limit kinds offset)).valid = true) (hle : offset ≤ (index.pool kinds).length)
    (hdecode : decode cursor (index.pageStamp texts kinds) = some offset) :
    ∃ pages, Follows (fun cursor => index.page texts source limit cursor kinds) cursor pages ∧
      pages.flatMap GraphPage.nodes = (index.pool kinds).drop offset ∧ ∀ page ∈ pages,
        page.Whole index ∧ (page.nodes = [] → (index.pool kinds).drop offset = []) := by
  -- induction on what is left of the pool
  induction hn : (index.pool kinds).length - offset using Nat.strongRecOn
    generalizing offset cursor with
  | ind n ih =>
    obtain ⟨rest, hkeeps⟩ := keeps_takenAt limit offset kinds hindex
    have hsplit := hkeeps.split
    have hpage := page_eq source limit hdecode hle
    rw [GraphPage.make, if_pos (hvalid offset)] at hpage
    have hwhole := whole_of_valid hindex hpos (hvalid offset)
    by_cases hmore : offset + (index.takenAt limit kinds offset).nodes.length <
        (index.pool kinds).length
    · have hnonempty : 0 < (index.takenAt limit kinds offset).nodes.length := by
        obtain ⟨first, behind, hwindow⟩ := exists_cons_of_ne_nil
          (l := (index.pool kinds).drop offset) (by simp; omega)
        rw [CodeGraphIndex.takenAt, hwindow]
        exact (takeFrom_first index hpos first behind).1
      obtain ⟨pages, hfollows, hnodes, hpages⟩ := ih _ (by omega) hmore.le
        (decode_encode hstamp _) rfl
      refine ⟨_ :: pages, .more hpage (by simp [CodeGraphIndex.pageOf, hmore]) hfollows, ?_, ?_⟩
      · rw [flatMap_cons, hnodes, ← drop_drop, ← hsplit, drop_left]
        rfl
      intro page hmem
      rcases mem_cons.mp hmem with rfl | hmem
      · refine ⟨hwhole, fun hnil => absurd hnil ?_⟩
        exact ne_nil_of_length_pos hnonempty
      · refine ⟨(hpages page hmem).1, fun hnil => ?_⟩
        have hdrop := (hpages page hmem).2 hnil
        rw [drop_eq_nil_iff] at hdrop
        omega
    · refine ⟨[_], .last hpage (by simp [CodeGraphIndex.pageOf, hmore]), ?_, ?_⟩
      · have hlength := congrArg List.length hsplit
        rw [length_append, length_drop] at hlength
        have hrest : rest = [] := eq_nil_of_length_eq_zero (by omega)
        rw [← hsplit, hrest, append_nil]
        simp [CodeGraphIndex.pageOf]
      · intro page hmem
        obtain rfl := mem_singleton.mp hmem
        refine ⟨hwhole, fun hnil => ?_⟩
        change (index.takenAt limit kinds offset).nodes = [] at hnil
        rw [hnil, length_nil, Nat.add_zero] at hmore
        simpa using hmore

omit hindex hpos in
theorem answered_of_follows {pages}
    (h : Follows (fun cursor => index.page texts source limit cursor kinds) none pages)
    (hstart : Starts index limit kinds offset) :
    offset ≤ (index.pool kinds).length ∧ ∃ cursor pages,
      decode cursor (index.pageStamp texts kinds) = some offset ∧
        Follows (fun cursor => index.page texts source limit cursor kinds) cursor pages := by
  induction hstart with
  | first => exact ⟨Nat.zero_le _, none, pages, rfl, h⟩
  | @next offset _ hmore ih =>
    obtain ⟨hle, cursor, pages', hdecode, hfollows⟩ := ih
    refine ⟨hmore.le, ?_⟩
    have hnext : ∀ page, index.page texts source limit cursor kinds = .answered page →
        page.nextCursor = some (encode (index.pageStamp texts kinds)
          (offset + (index.takenAt limit kinds offset).nodes.length)) := by
      intro page hpage
      rw [page_eq _ _ hdecode hle, GraphPage.make] at hpage
      split at hpage
      · cases hpage
        simp [CodeGraphIndex.pageOf, hmore]
      · cases hpage
    cases hfollows with
    | last answered done =>
      rw [hnext _ answered] at done
      cases done
    | more answered again rest =>
      rw [hnext _ answered] at again
      cases again
      exact ⟨_, _, decode_encode hstamp _, rest⟩

end Client

theorem incident_takeFrom (rest) (taken)
    (h : ∀ edge ∈ taken.edges, ∃ node ∈ taken.nodes, edge ∈ index.incident node.nodeId) :
    ∀ edge ∈ (takeFrom index limit rest taken).edges,
      ∃ node ∈ (takeFrom index limit rest taken).nodes, edge ∈ index.incident node.nodeId := by
  induction rest generalizing taken with
  | nil => exact h
  | cons node rest ih =>
    have hadd : ∀ edges ⊆ index.fresh taken node, ∀ frontier truncated,
        ∀ edge ∈ (taken.add node edges frontier truncated).edges,
          ∃ other ∈ (taken.add node edges frontier truncated).nodes,
            edge ∈ index.incident other.nodeId := by
      intro edges hedges frontier truncated edge hedge
      rcases mem_append.mp hedge with hedge | hedge
      · obtain ⟨other, hother, hat⟩ := h edge hedge
        exact ⟨other, mem_append_left _ hother, hat⟩
      · exact ⟨node, mem_append_right _ (mem_singleton_self _),
          (CodeGraphIndex.mem_fresh.mp (hedges hedge)).1⟩
    unfold takeFrom
    split
    · exact h
    split
    · exact ih _ (hadd _ (List.Subset.refl _) _ _)
    split
    · exact h
    rename_i hfirst
    have hsub : (clip node.nodeId (index.fresh taken node) taken.pageIds).1 ⊆
        index.fresh taken node := by
      rw [show taken.pageIds = ∅ by simpa [Taken.pageIds] using hfirst]
      exact (clip_clipped _ _).sublist.subset
    exact ih _ (hadd _ hsub _ _)

theorem pool_sorted {sourceId fingerprint nodes edges} (hids : (nodes.map GraphNode.nodeId).Nodup) :
    ((CodeGraphIndex.make sourceId fingerprint nodes edges).pool kinds).Pairwise
      fun first second => first.nodeId < second.nodeId := by
  refine List.Pairwise.filter _ ?_
  have hsorted : (nodes.insertionSort fun first second => first.nodeId ≤ second.nodeId).Pairwise
      fun first second => first.nodeId ≤ second.nodeId := by
    have : IsTrans GraphNode fun first second => first.nodeId ≤ second.nodeId :=
      ⟨fun _ _ _ => le_trans⟩
    have : Std.Total fun first second : GraphNode => first.nodeId ≤ second.nodeId :=
      ⟨fun _ _ => le_total _ _⟩
    exact pairwise_insertionSort _ nodes
  have hnodup : ((nodes.insertionSort fun first second => first.nodeId ≤ second.nodeId).map
      GraphNode.nodeId).Nodup :=
    (((perm_insertionSort _ nodes).map _).nodup_iff).mpr hids
  rw [List.Nodup, pairwise_map] at hnodup
  exact (hsorted.and hnodup).imp fun h => lt_of_le_of_ne h.1 h.2

/-- The cursors of `page` lead from no cursor to the end of the pool, over
whole pages, if and only if the nodes of the pool are of the source and no end
of the pool is cramped. -/
theorem pages_complete {sourceId fingerprint : Text} {nodes : List GraphNode}
    {edges : List GraphEdge} (hgraph : FromSnapshots nodes edges)
    (hends : ∀ edge ∈ edges, ∀ node ∈ nodes,
      edge.source.nodeId = node.nodeId ∨ edge.target.nodeId = node.nodeId →
        edge.sourceId = node.sourceId)
    (hsource : source.sourceId = sourceId) (hpos : 0 < limit) (hlimit : limit ≤ maxPageLimit)
    (hindex : index = .make sourceId fingerprint nodes edges)
    (hstamp : '.' ∉ index.pageStamp texts kinds) :
    (∀ node, node ∈ index.pool kinds ↔ node ∈ nodes ∧ (kinds = [] ∨ node.kind ∈ kinds)) ∧
      (index.pool kinds).Pairwise (fun first second => first.nodeId < second.nodeId) ∧
      ((∃ pages, Follows (fun cursor => index.page texts source limit cursor kinds) none pages ∧
          pages.flatMap GraphPage.nodes = index.pool kinds ∧
          ∀ page ∈ pages, page.Whole index ∧ (page.nodes = [] → index.pool kinds = [])) ↔
        (∀ node ∈ index.pool kinds, node.sourceId = sourceId) ∧
          ∀ offset, ¬ index.Cramped limit ((index.pool kinds).drop offset)) := by
  have hcoherent : index.Coherent := hindex ▸ hgraph.coherent
  have hid : index.sourceId = sourceId := by rw [hindex, CodeGraphIndex.make]
  refine ⟨fun node => ?_, hindex ▸ pool_sorted hgraph.nodeIds, ?_, ?_⟩
  · rw [CodeGraphIndex.pool, mem_filter, hindex, CodeGraphIndex.mem_make.1]
    simp
  · rintro ⟨pages, hfollows, hnodes, -⟩
    have hvalid := hfollows.valid
    refine ⟨fun node hnode => ?_, fun offset hcramped => ?_⟩
    · rw [← hnodes] at hnode
      obtain ⟨page, hpage, hin⟩ := mem_flatMap.mp hnode
      obtain ⟨hok, heq⟩ := hvalid page hpage
      unfold GraphPage.valid at hok
      simp only [Bool.and_eq_true, all_eq_true] at hok
      obtain ⟨⟨⟨-, hchecks, -⟩, -⟩, -⟩ := hok
      have hcheck := hchecks node hin
      simp only [GraphPage.checksNode, Bool.and_eq_true, decide_eq_true_eq] at hcheck
      rw [hcheck.2, heq, hsource]
    · cases hwindow : (index.pool kinds).drop offset with
      | nil => exact (hwindow ▸ hcramped : index.Cramped limit [])
      | cons first behind =>
        have hstart := starts_of_crowded hcoherent hpos hwindow
          (degree_of_cramped hlimit (hwindow ▸ hcramped))
        obtain ⟨hle, cursor, rest, hdecode, hrest⟩ := answered_of_follows hstamp hfollows hstart
        have hpage := page_eq source limit hdecode hle
        rw [GraphPage.make, cramped_invalid hcramped, if_neg Bool.false_ne_true] at hpage
        cases hrest with
        | last answered | more answered =>
          rw [hpage] at answered
          cases answered
  · rintro ⟨hone, hroom⟩
    refine follows_of_valid hcoherent hpos hstamp (fun offset => ?_) (Nat.zero_le _) rfl
    obtain ⟨rest, hkeeps⟩ := keeps_takenAt limit offset kinds hcoherent
    have hpool : ∀ node ∈ (index.takenAt limit kinds offset).nodes, node ∈ index.pool kinds :=
      fun node hnode => mem_of_mem_drop (hkeeps.split ▸ mem_append_left _ hnode)
    refine pageOf_valid hcoherent ⟨fun node hnode => ?_, fun edge hedge => ?_⟩
      (hsource.trans hid.symm) hlimit _ hkeeps (hroom offset)
    · rw [hone node (hpool node hnode), hid]
    obtain ⟨node, hnode, hat⟩ := incident_takeFrom ((index.pool kinds).drop offset) Taken.none
      (by simp [Taken.none]) edge hedge
    obtain ⟨hmem, hat⟩ := CodeGraphIndex.mem_incident.mp hat
    have hin := hpool node hnode
    have hbare := mem_of_mem_filter hin
    rw [hindex] at hmem hbare
    rw [hends edge (CodeGraphIndex.mem_make.2 edge |>.mp hmem).1 node
      ((CodeGraphIndex.mem_make.1 node).mp hbare) hat, hone node hin, hid]

def plainTexts : Texts := { stamp := fun _ => ['0'], lower := id }

def loneNode : GraphNode :=
  { nodeId := ['n'], kind := .function, label := ['n'], uri := none, sourceId := ['s'] }

def loneSource : GraphSource :=
  { sourceId := ['s'], providerId := [], workspaceId := 0, generatedAt := 0
    indexFingerprint := [] }

/-- A call of the node to itself, with an id of its own. -/
def selfCall (n : Nat) : GraphEdge :=
  { edgeId := List.replicate n 'e', kind := .calls, source := ⟨['s'], ['n']⟩,
    target := ⟨['s'], ['n']⟩, sourceId := ['s'] }

theorem loneNode_fromSnapshots (count) :
    FromSnapshots [loneNode] ((List.range count).map selfCall) where
  nodeIds := by simp
  edgeIds := by
    rw [map_map, nodup_map_iff_inj_on nodup_range]
    intro n _ k _ heq
    simpa [selfCall] using congrArg List.length heq
  kinds := by simp [loneNode, codeNodeKinds]
  relations := by simp [selfCall, codeRelations]
  endSources := by simp [selfCall]
  uris := by simp [loneNode]

theorem pages_complete_lone : ∃ pages, Follows (fun cursor =>
      (CodeGraphIndex.make ['s'] [] [loneNode] []).page plainTexts loneSource 1 cursor []) none
        pages ∧ pages.flatMap GraphPage.nodes = [loneNode] := by
  have h := (@pages_complete plainTexts _ loneSource 1 [] ['s'] [] [loneNode] []
    (loneNode_fromSnapshots 0) (by simp) rfl (by decide) (by decide) rfl
    (by simp [CodeGraphIndex.pageStamp, plainTexts])).2.2
  obtain ⟨pages, hfollows, hnodes, -⟩ := h.mpr ⟨by decide, fun offset => by
    cases offset with
    | zero => decide
    | succ n => simp [CodeGraphIndex.make, CodeGraphIndex.pool, CodeGraphIndex.Cramped]⟩
  exact ⟨pages, hfollows, hnodes⟩

theorem page_selfCalls {count} (h : maxPageEdges < count) :
    (CodeGraphIndex.make ['s'] [] [loneNode] ((List.range count).map selfCall)).page plainTexts
      loneSource 1 none [] = .raised .validationError := by
  have hedges : ∀ edge, edge ∈ (CodeGraphIndex.make ['s'] [] [loneNode]
      ((List.range count).map selfCall)).edges → edge.source.nodeId = ['n'] ∧
        edge.target.nodeId = ['n'] := by
    intro edge hedge
    obtain ⟨n, -, rfl⟩ := mem_map.mp ((CodeGraphIndex.mem_make.2 edge).mp hedge).1
    exact ⟨rfl, rfl⟩
  have hlength : (CodeGraphIndex.make ['s'] [] [loneNode]
      ((List.range count).map selfCall)).edges.length = count := by
    rw [CodeGraphIndex.make, length_insertionSort, filter_eq_self.mpr]
    · simp
    · simp [selfCall, loneNode]
  have hpool : (CodeGraphIndex.make ['s'] [] [loneNode]
      ((List.range count).map selfCall)).pool [] = [loneNode] := rfl
  generalize CodeGraphIndex.make ['s'] [] [loneNode] ((List.range count).map selfCall) = index at *
  have hfresh : index.fresh Taken.none loneNode = index.edges := by
    rw [CodeGraphIndex.fresh, CodeGraphIndex.incident, filter_filter, filter_eq_self]
    intro edge hedge
    simp [(hedges edge hedge).1, loneNode, Taken.none, Taken.edgeIds]
  have hcramped : index.Cramped 1 ((index.pool []).drop 0) := by
    rw [hpool]
    refine ⟨?_, by simp, fun edge hedge => ?_, by simp⟩
    · have hmany : ¬ Taken.none.edges.length + count ≤ maxPageEdges := by omega
      simp [CodeGraphIndex.fits, hfresh, hlength, hmany]
    · have hmem := hedges edge (hfresh ▸
        (clip_clipped loneNode.nodeId (index.fresh Taken.none loneNode)).sublist.subset hedge)
      simp [hmem, loneNode]
  rw [page_eq _ _ (rfl : decode none _ = some 0) (Nat.zero_le _), GraphPage.make,
    cramped_invalid hcramped]
  rfl

theorem page_raised : FromSnapshots [loneNode] ((List.range 1001).map selfCall) ∧
    (CodeGraphIndex.make ['s'] [] [loneNode] ((List.range 1001).map selfCall)).page plainTexts
      loneSource 1 none [] = .raised .validationError :=
  ⟨loneNode_fromSnapshots 1001, page_selfCalls (by decide)⟩

end StudioOS.CodeQueries
