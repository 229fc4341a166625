import StudioOS.DecisionNotes.Model

/-!
# Decision notes — whose note a transition writes

A transition finds the note of a decision by its number alone. It is the
decision's own note as long as no import has stored an ADR under the number of
a decision that differs from it and has no note yet.
-/

namespace StudioOS.DecisionNotes

open List Option DecisionNumbers Runs
open Vault (VaultNoteStatus)

variable {env : Env} {s t : State}

variable {note : Note} {id : ReadableId} {place decisionId : Nat}
  {decision replacement : Decision} {authorId : Uuid} {notes : List Note}
  {decisions : List Decision} {principal : Authz.Principal} {supersededBy : Option Nat}
  {target : DecisionStatus} {planned : PlannedNote}

/-! ## What a transaction writes -/

@[simp] theorem appendVersion_notes (s : State) (place note) (links changeSummary) :
    (s.appendVersion place note links changeSummary).notes = s.notes := rfl

@[simp] theorem appendVersion_links (s : State) (place note) (links changeSummary) :
    (s.appendVersion place note links changeSummary).links = s.links := rfl

@[simp] theorem appendVersion_decisions (s : State) (place note) (links changeSummary) :
    (s.appendVersion place note links changeSummary).decisions = s.decisions := rfl

@[simp] theorem appendVersion_seq (s : State) (place note) (links changeSummary) :
    (s.appendVersion place note links changeSummary).seq = s.seq := rfl

/-- Nothing but notes, links and versions is written. -/
structure Same (s t : State) : Prop where
  decisions : t.decisions = s.decisions
  seq : t.seq = s.seq

theorem Same.trans {r} (h : Same r s) (h' : Same s t) : Same r t :=
  ⟨h'.decisions.trans h.decisions, h'.seq.trans h.seq⟩

theorem insertNote_some {changeSummary} (h : s.insertNote note changeSummary = some t) :
    t.notes = s.notes ++ [note] ∧ t.links = s.links ∧ Same s t := by
  unfold State.insertNote at h
  split at h
  · cases h
    exact ⟨rfl, rfl, rfl, rfl⟩
  · cases h

theorem noteFor_some (h : s.noteFor id = some place) :
    ∃ note, s.notes[place]? = some note ∧ note.readableId = some id := by
  obtain ⟨hlt, hid, -⟩ := List.findIdx?_eq_some_iff_getElem.mp h
  exact ⟨s.notes[place], List.getElem?_eq_getElem hlt, by simpa using hid⟩

/-- A note after a write: staged from its decision, or written from a note with its number. -/
structure Written (s : State) (place : Nat) (note : Note) (id : ReadableId) : Prop where
  readableId : note.readableId = some id
  old : ∀ old, s.notes[place]? = some old →
    old.readableId = some id ∧ old.decision = note.decision
  new : s.notes[place]? = none → note.decision = some id

theorem stageNote_some (h : env.stageNote s decision authorId = some t) :
    t.notes = s.notes ++ [env.mirror decision authorId] ∧ t.links = s.links ∧ Same s t :=
  insertNote_some h

theorem append_getElem?_ne {other}
    (hother : other ≠ notes.length) : (notes ++ [note])[other]? = notes[other]? := by
  by_cases hlt : other < notes.length
  · exact List.getElem?_append_left hlt
  · rw [List.getElem?_eq_none (by rw [length_append, length_singleton]; omega),
      List.getElem?_eq_none (by omega)]

theorem written_mirror :
    Written s s.notes.length (env.mirror decision authorId) decision.readableId where
  readableId := rfl
  old := by
    intro old hold
    have := (List.getElem?_eq_some_iff.mp hold).1
    omega
  new := fun _ => rfl

/-- What `sync_status` does. -/
structure Synced (s t : State) (decision : Decision) (place : Nat) (note : Note) : Prop where
  same : Same s t
  links : t.links = s.links
  row : t.notes[place]? = some note
  written : Written s place note decision.readableId
  status : note.fields.status = decision.status.note
  others : ∀ other, other ≠ place → t.notes[other]? = s.notes[other]?
  changed : (∀ old, s.notes[place]? = some old → old.fields.status ≠ decision.status.note) →
    s.notes[place]? ≠ some note
  found : ∀ old, s.notes[place]? = some old → s.noteFor decision.readableId = some place

theorem syncStatus_some (h : env.syncStatus s decision authorId = some (t, place)) :
    ∃ note, Synced s t decision place note := by
  unfold Env.syncStatus at h
  split at h
  · obtain ⟨u, hu, heq⟩ := map_eq_some_iff.mp h
    cases heq
    obtain ⟨hnotes, hlinks, hsame⟩ := stageNote_some hu
    refine ⟨env.mirror decision authorId, hsame, hlinks, ?_, written_mirror, rfl, ?_, ?_, ?_⟩
    · rw [hnotes, List.getElem?_append_right (Nat.le_refl _), Nat.sub_self]
      rfl
    · intro other hother
      rw [hnotes]
      exact append_getElem?_ne hother
    · intro _ hrow
      have := (List.getElem?_eq_some_iff.mp hrow).1
      omega
    · intro old hold
      have := (List.getElem?_eq_some_iff.mp hold).1
      omega
  · rename_i found hfound
    obtain ⟨note, hnote, hid⟩ := noteFor_some hfound
    rw [hnote] at h
    simp only at h
    split at h
    · rename_i hstatus
      cases h
      refine ⟨note, ⟨rfl, rfl⟩, rfl, hnote, ⟨hid, ?_, ?_⟩, hstatus, fun _ _ => rfl, ?_,
        fun _ _ => hfound⟩
      · intro old hold
        obtain rfl := some.inj (hnote.symm.trans hold)
        exact ⟨hid, rfl⟩
      · intro hnone
        rw [hnone] at hnote
        cases hnote
      · intro hne
        exact absurd hstatus (hne note hnote)
    · rename_i hstatus
      cases h
      have hlt := (List.getElem?_eq_some_iff.mp hnote).1
      refine ⟨_, ⟨rfl, rfl⟩, rfl, List.getElem?_set_self hlt, ⟨hid, ?_, ?_⟩, rfl, ?_, ?_,
        fun _ _ => hfound⟩
      · intro old hold
        obtain rfl := some.inj (hnote.symm.trans hold)
        exact ⟨hid, rfl⟩
      · intro hnone
        rw [hnone] at hnote
        cases hnote
      · intro other hother
        exact List.getElem?_set_ne (Ne.symm hother)
      intro _ hrow
      rw [hnote] at hrow
      -- the version has grown
      have hversion := congrArg Note.version (some.inj hrow)
      simp only [Env.rewrite] at hversion
      omega

/-- What `link_supersedes` does. -/
structure Linked (s t : State) (oldPlace : Nat) (replacement : Decision) (place : Nat)
    (note : Note) : Prop where
  same : Same s t
  row : t.notes[place]? = some note
  written : Written s place note replacement.readableId
  fields : ∀ old, s.notes[place]? = some old → old.fields = note.fields
  others : ∀ other, other ≠ place → t.notes[other]? = s.notes[other]?
  link : (⟨place, oldPlace, .supersedes⟩ : Link) ∈ t.links
  links : ∀ link ∈ t.links, link ∈ s.links ∨ link = ⟨place, oldPlace, .supersedes⟩

theorem noteOf_ok (h : env.noteOf s replacement authorId = .ok (t, place)) :
    ∃ note, Same s t ∧ t.links = s.links ∧ t.notes[place]? = some note ∧
      Written s place note replacement.readableId ∧
      (∀ old, s.notes[place]? = some old → old = note) ∧
      ∀ other, other ≠ place → t.notes[other]? = s.notes[other]? := by
  unfold Env.noteOf at h
  split at h
  · rename_i found hfound
    cases h
    obtain ⟨note, hnote, hid⟩ := noteFor_some hfound
    refine ⟨note, ⟨rfl, rfl⟩, rfl, hnote, ⟨hid, ?_, ?_⟩, ?_, fun _ _ => rfl⟩
    · intro old hold
      obtain rfl := some.inj (hnote.symm.trans hold)
      exact ⟨hid, rfl⟩
    · intro hnone
      rw [hnone] at hnote
      cases hnote
    · intro old hold
      exact some.inj (hold.symm.trans hnote)
  · split at h
    · rename_i u hu
      cases h
      obtain ⟨hnotes, hlinks, hsame⟩ := stageNote_some hu
      refine ⟨env.mirror replacement authorId, hsame, hlinks, ?_, written_mirror, ?_, ?_⟩
      · rw [hnotes, List.getElem?_append_right (Nat.le_refl _), Nat.sub_self]
        rfl
      · intro old hold
        have := (List.getElem?_eq_some_iff.mp hold).1
        omega
      · intro other hother
        rw [hnotes]
        exact append_getElem?_ne hother
    · cases h

theorem linkSupersedes_ok {oldPlace oldNote}
    (h : env.linkSupersedes s oldPlace oldNote replacement authorId = .ok t) :
    ∃ place note, Linked s t oldPlace replacement place note := by
  unfold Env.linkSupersedes at h
  obtain ⟨-, h⟩ := guard_ok h
  obtain ⟨⟨u, place⟩, hu, h⟩ := bind_ok h
  obtain ⟨note, hsame, hlinks, hnote, hwritten, hold, hothers⟩ := noteOf_ok hu
  have hlt := (List.getElem?_eq_some_iff.mp hnote).1
  simp only [Env.addLink, hnote] at h
  split at h
  · rename_i hmem
    cases h
    refine ⟨place, note, hsame, hnote, hwritten, ?_, hothers, (mem_filter.mp hmem).1, ?_⟩
    · intro old hrow
      rw [hold old hrow]
    · intro link hlink
      exact .inl (hlinks ▸ hlink)
  · cases h
    refine ⟨place, _, ⟨hsame.decisions, hsame.seq⟩, List.getElem?_set_self hlt,
      ⟨hwritten.readableId, hwritten.old, hwritten.new⟩, ?_, ?_,
      mem_append_right _ (mem_singleton_self _), ?_⟩
    · intro old hrow
      rw [hold old hrow]
      rfl
    · intro other hother
      exact (List.getElem?_set_ne (Ne.symm hother)).trans (hothers other hother)
    · intro link hlink
      rcases mem_append.mp hlink with hlink | hlink
      · exact .inl (hlinks ▸ hlink)
      · exact .inr (mem_singleton.mp hlink)

/-- The numbers are used once and were drawn, and a note with the number of a
decision holds that decision. -/
structure Inv (s : State) : Prop where
  nodup : (s.decisions.map Decision.readableId).Nodup
  drawn : ∀ decision ∈ s.decisions, decision.readableId.number < s.seq.next
  noteDrawn : ∀ note ∈ s.notes, ∀ id, note.readableId = some id → id.number < s.seq.next
  own : ∀ note ∈ s.notes, ∀ decision ∈ s.decisions,
    note.readableId = some decision.readableId → note.decision = some decision.readableId

/-- Decisions before there is a vault. -/
structure Start (s : State) : Prop where
  notes : s.notes = []
  nodup : (s.decisions.map Decision.readableId).Nodup
  drawn : ∀ decision ∈ s.decisions, decision.readableId.number < s.seq.next

theorem Start.inv (h : Start s) : Inv s where
  nodup := h.nodup
  drawn := h.drawn
  noteDrawn := by
    rw [h.notes]
    exact forall_mem_nil _
  own := by
    rw [h.notes]
    exact forall_mem_nil _

/-- The numbers of the decisions and the sequence stay, and each note is an old
one or one that was written for a decision. -/
structure Rewrites (s t : State) : Prop where
  ids : t.decisions.map Decision.readableId = s.decisions.map Decision.readableId
  seq : t.seq = s.seq
  rows : ∀ (place : Nat) (note : Note), t.notes[place]? = some note →
    s.notes[place]? = some note ∨
      ∃ decision ∈ s.decisions, Written s place note decision.readableId

theorem mem_ids (h : decision ∈ decisions) :
    decision.readableId ∈ decisions.map Decision.readableId := List.mem_map_of_mem h

theorem Inv.of_ids (h : s.decisions.map Decision.readableId = t.decisions.map Decision.readableId)
    {P : ReadableId → Prop} (hs : ∀ decision ∈ s.decisions, P decision.readableId) :
    ∀ decision ∈ t.decisions, P decision.readableId := by
  intro decision hdecision
  obtain ⟨old, hold, heq⟩ := List.mem_map.mp (h ▸ mem_ids hdecision)
  exact heq ▸ hs old hold

theorem Inv.rewrites (hinv : Inv s) (h : Rewrites s t) : Inv t where
  nodup := h.ids ▸ hinv.nodup
  drawn := by
    rw [h.seq]
    exact Inv.of_ids (P := fun id => id.number < s.seq.next) h.ids.symm hinv.drawn
  noteDrawn := by
    intro note hnote id hid
    obtain ⟨place, hrow⟩ := List.getElem?_of_mem hnote
    rw [h.seq]
    rcases h.rows place note hrow with hold | ⟨decision, hdecision, hwritten⟩
    · exact hinv.noteDrawn note (mem_of_getElem? hold) id hid
    · obtain rfl := some.inj (hwritten.readableId.symm.trans hid)
      exact hinv.drawn decision hdecision
  own := by
    intro note hnote decision hdecision hid
    obtain ⟨place, hrow⟩ := List.getElem?_of_mem hnote
    have hown : ∀ old ∈ s.notes, old.readableId = some decision.readableId →
        old.decision = some decision.readableId := by
      intro old hold
      exact Inv.of_ids (P := fun id => old.readableId = some id → old.decision = some id)
        h.ids.symm (hinv.own old hold) decision hdecision
    rcases h.rows place note hrow with hold | ⟨other, -, hwritten⟩
    · exact hown note (mem_of_getElem? hold) hid
    have heq := some.inj (hwritten.readableId.symm.trans hid)
    cases hbefore : s.notes[place]? with
    | none => rw [hwritten.new hbefore, heq]
    | some old =>
      obtain ⟨holdId, hsame⟩ := hwritten.old old hbefore
      rw [← hsame]
      exact hown old (mem_of_getElem? hbefore) (heq ▸ holdId)

/-! ## The transitions -/

theorem replacementOf_ok {supersededBy}
    (h : replacementOf s principal decisionId supersededBy = .ok replacement) :
    supersededBy ≠ decisionId ∧ s.decisions[supersededBy]? = some replacement := by
  obtain ⟨hne, h⟩ := guard_ok h
  split at h
  · cases h
  · rename_i found hfound
    obtain ⟨_, -, h⟩ := bind_ok h
    cases h
    exact ⟨hne, hfound⟩

theorem checkReplacement_ok {other}
    (h : checkReplacement s principal decisionId decision target supersededBy = .ok (some other)) :
    ∃ id, supersededBy = some id ∧ id ≠ decisionId ∧ s.decisions[id]? = some other := by
  obtain ⟨-, h⟩ := guard_ok h
  cases supersededBy with
  | none => cases h
  | some id =>
    cases hreplacement : replacementOf s principal decisionId id with
    | error e =>
      simp only [hreplacement] at h
      cases h
    | ok found =>
      simp only [hreplacement] at h
      cases h
      obtain ⟨hne, hrow⟩ := replacementOf_ok hreplacement
      exact ⟨id, rfl, hne, hrow⟩

theorem checkTransition_ok {replacement}
    (h : checkTransition s principal decisionId target supersededBy = .ok (decision, replacement)) :
    s.decisions[decisionId]? = some decision ∧
      ∀ other, replacement = some other → ∃ id, supersededBy = some id ∧ id ≠ decisionId ∧
        s.decisions[id]? = some other := by
  obtain ⟨_, -, h⟩ := bind_ok h
  obtain ⟨-, h⟩ := guard_ok h
  split at h
  · cases h
  rename_i found hfound
  obtain ⟨_, -, h⟩ := bind_ok h
  obtain ⟨checked, hchecked, h⟩ := bind_ok h
  cases h
  refine ⟨hfound, ?_⟩
  rintro other rfl
  exact checkReplacement_ok hchecked

/-- A transition of a decision that writes its note, and perhaps the one of the
replacement. -/
structure Transits (s t : State) (decisionId : Nat) (target : DecisionStatus)
    (supersededBy : Option Nat) (decision : Decision) (place : Nat) (note : Note) : Prop where
  read : s.decisions[decisionId]? = some decision
  decisions : t.decisions = s.decisions.set decisionId { decision with status := target }
  seq : t.seq = s.seq
  row : t.notes[place]? = some note
  written : Written s place note decision.readableId
  status : note.fields.status = target.note
  changed : (∀ old, s.noteFor decision.readableId = some place → s.notes[place]? = some old →
    old.fields.status ≠ target.note) → s.notes[place]? ≠ some note
  others : (t.links = s.links ∧ ∀ other, other ≠ place → t.notes[other]? = s.notes[other]?) ∨
    ∃ id replacement other new, supersededBy = some id ∧ s.decisions[id]? = some replacement ∧
      other ≠ place ∧ t.notes[other]? = some new ∧ Written s other new replacement.readableId ∧
      (∀ old, s.notes[other]? = some old → old.fields = new.fields) ∧
      (∀ rest, rest ≠ place → rest ≠ other → t.notes[rest]? = s.notes[rest]?) ∧
      (⟨other, place, .supersedes⟩ : Link) ∈ t.links ∧
      ∀ link ∈ t.links, link ∈ s.links ∨ link = ⟨other, place, .supersedes⟩

variable {i : Nat} {notes' : List Note} {files : List SourceDecision} {numbers : List ReadableId}
  {act : Act}

theorem readableId_inj (hnodup : (decisions.map Decision.readableId).Nodup) {j a b}
    (ha : decisions[i]? = some a) (hb : decisions[j]? = some b)
    (h : a.readableId = b.readableId) : i = j := by
  by_contra hne
  have hi := (List.getElem?_eq_some_iff.mp ha).1
  have hj := (List.getElem?_eq_some_iff.mp hb).1
  have := List.nodup_iff_getElem?_ne_getElem?.mp hnodup
  rcases Nat.lt_or_gt_of_ne hne with hlt | hlt
  · refine this i j hlt (by rwa [length_map]) ?_
    rw [List.getElem?_map, List.getElem?_map, ha, hb, map_some, map_some, h]
  · refine this j i hlt (by rwa [length_map]) ?_
    rw [List.getElem?_map, List.getElem?_map, ha, hb, map_some, map_some, h]

theorem transition_ok {caller} (hnodup : (s.decisions.map Decision.readableId).Nodup)
    (h : env.transition s caller decisionId target supersededBy = .ok t) : ∃ decision place note,
      Transits s t decisionId target supersededBy decision place note := by
  unfold Env.transition at h
  obtain ⟨⟨decision, replacement⟩, hcheck, h⟩ := bind_ok h
  obtain ⟨hdecision, hreplacement⟩ := checkTransition_ok hcheck
  simp only [Env.writeTransition] at h
  split at h
  · cases h
  rename_i u place hu
  obtain ⟨note, hsynced⟩ := syncStatus_some hu
  have hwritten : Written s place note decision.readableId :=
    ⟨hsynced.written.readableId, hsynced.written.old, hsynced.written.new⟩
  have hchanged : (∀ old, s.noteFor decision.readableId = some place →
      s.notes[place]? = some old → old.fields.status ≠ target.note) →
        s.notes[place]? ≠ some note :=
    fun hne => hsynced.changed fun old hold => hne old (hsynced.found old hold) hold
  split at h
  · cases h
    exact ⟨decision, place, note, hdecision, hsynced.same.decisions, hsynced.same.seq,
      hsynced.row, hwritten, hsynced.status, hchanged, .inl ⟨hsynced.links, hsynced.others⟩⟩
  · cases h
  rename_i replacement found hfound
  obtain ⟨other, new, hlinked⟩ := linkSupersedes_ok h
  obtain ⟨id, hid, hne, hrow⟩ := hreplacement replacement rfl
  -- the two decisions have different numbers, and so have their notes
  have hnumbers : replacement.readableId ≠ decision.readableId := by
    intro heq
    exact hne (readableId_inj hnodup hrow hdecision heq)
  have hplace : other ≠ place := by
    rintro rfl
    obtain ⟨hold, -⟩ := hlinked.written.old note hsynced.row
    rw [hsynced.written.readableId] at hold
    exact hnumbers (some.inj hold).symm
  have hbefore : u.notes[other]? = s.notes[other]? := hsynced.others other hplace
  refine ⟨decision, place, note, hdecision, hlinked.same.decisions.trans hsynced.same.decisions,
    hlinked.same.seq.trans hsynced.same.seq, ?_, hwritten, hsynced.status, hchanged,
    .inr ⟨id, replacement, other, new, hid, hrow, hplace, hlinked.row, ?_, ?_, ?_,
      hlinked.link, ?_⟩⟩
  · exact (hlinked.others place (Ne.symm hplace)).trans hsynced.row
  · exact ⟨hlinked.written.readableId, hbefore ▸ hlinked.written.old, hbefore ▸ hlinked.written.new⟩
  · exact hbefore ▸ hlinked.fields
  · intro rest hrest hrest'
    exact (hlinked.others rest hrest').trans (hsynced.others rest hrest)
  · intro link hlink
    rcases hlinked.links link hlink with hlink | hlink
    · exact .inl (hsynced.links ▸ hlink)
    · exact .inr hlink

theorem map_set_readableId (h : decisions[i]? = some decision) (status) :
    (decisions.set i { decision with status := status }).map Decision.readableId =
      decisions.map Decision.readableId := by
  ext1 j
  rw [List.getElem?_map, List.getElem?_map, List.getElem?_set]
  by_cases hj : i = j
  · subst hj
    rw [if_pos rfl, if_pos (List.getElem?_eq_some_iff.mp h).1, h]
    rfl
  · rw [if_neg hj]

theorem Transits.rewrites

    (h : Transits s t decisionId target supersededBy decision place note) : Rewrites s t where
  ids := by
    rw [h.decisions]
    exact map_set_readableId h.read target
  seq := h.seq
  rows := by
    intro row new hnew
    by_cases hrow : row = place
    · subst hrow
      obtain rfl := some.inj (h.row.symm.trans hnew)
      exact .inr ⟨decision, mem_of_getElem? h.read, h.written⟩
    rcases h.others with ⟨-, hothers⟩ | ⟨id, replacement, other, written, -, hreplacement, -,
      hother, hwritten, -, hrest, -⟩
    · exact .inl (hothers row hrow ▸ hnew)
    · by_cases heq : row = other
      · subst heq
        obtain rfl := some.inj (hother.symm.trans hnew)
        exact .inr ⟨replacement, mem_of_getElem? hreplacement, hwritten⟩
      · exact .inl (hrest row hrow heq ▸ hnew)

theorem draw_next (s : State) : s.draw.seq.next = s.seq.next + 1 := rfl

theorem Inv.draw (hinv : Inv s) : Inv s.draw where
  nodup := hinv.nodup
  drawn := by
    intro decision hdecision
    have := hinv.drawn decision hdecision
    rw [draw_next]
    omega
  noteDrawn := by
    intro note hnote id hid
    have := hinv.noteDrawn note hnote id hid
    rw [draw_next]
    omega
  own := hinv.own

theorem Inv.insertDecision (hinv : Inv s) {decisionIn}
    (h : env.insertDecision s.draw (newDecision (readableId s.seq.next) decisionIn) authorId =
      some t) : Inv t := by
  unfold Env.insertDecision at h
  split at h
  · cases h
  obtain ⟨hnotes, -, hsame⟩ := stageNote_some h
  have hdecisions : t.decisions = s.decisions ++
      [newDecision (readableId s.seq.next) decisionIn] := hsame.decisions
  have hseq : t.seq.next = s.seq.next + 1 := by
    rw [hsame.seq]
    rfl
  have hnotes : t.notes = s.notes ++
      [env.mirror (newDecision (readableId s.seq.next) decisionIn) authorId] := hnotes
  have hnumber : (newDecision (readableId s.seq.next) decisionIn).readableId.number =
      s.seq.next := number_readableId _
  refine ⟨?_, ?_, ?_, ?_⟩
  · rw [hdecisions, map_append]
    refine nodup_append.mpr ⟨hinv.nodup, nodup_singleton _, ?_⟩
    intro a ha b hb heq
    obtain ⟨old, hold, rfl⟩ := List.mem_map.mp ha
    obtain rfl := mem_singleton.mp hb
    have := hinv.drawn old hold
    rw [heq] at this
    omega
  · intro decision hdecision
    rw [hdecisions] at hdecision
    rcases mem_append.mp hdecision with hold | hnew
    · have := hinv.drawn decision hold
      omega
    · obtain rfl := mem_singleton.mp hnew
      omega
  · intro note hnote id hid
    rw [hnotes] at hnote
    rcases mem_append.mp hnote with hold | hnew
    · have := hinv.noteDrawn note hold id hid
      omega
    · obtain rfl := mem_singleton.mp hnew
      cases hid
      exact Nat.lt_of_lt_of_eq (Nat.lt_succ_of_le (Nat.le_of_eq hnumber)) hseq.symm
  · intro note hnote decision hdecision hid
    rw [hnotes] at hnote
    rw [hdecisions] at hdecision
    rcases mem_append.mp hnote with hold | hnew
    · rcases mem_append.mp hdecision with hdecision | hnewest
      · exact hinv.own note hold decision hdecision hid
      · obtain rfl := mem_singleton.mp hnewest
        have := hinv.noteDrawn note hold _ hid
        omega
    · obtain rfl := mem_singleton.mp hnew
      exact hid

theorem Inv.createDecision (hinv : Inv s) (caller) (decisionIn) :
    Inv (env.createDecision s caller decisionIn).1 := by
  unfold Env.createDecision
  split
  · exact hinv
  · split
    · rename_i hinsert
      exact hinv.insertDecision hinsert
    · exact hinv.draw

theorem le_maxNumber {ids} (h : id ∈ ids) : id.number ≤ maxNumber ids := by
  induction ids with
  | nil => cases h
  | cons other ids ih =>
    have heq : maxNumber (other :: ids) = max other.number (maxNumber ids) := rfl
    rcases mem_cons.mp h with rfl | h
    · omega
    · have := ih h
      omega

theorem advanceSequence_notes (s : State) (floor) : (s.advanceSequence floor).notes = s.notes := by
  simp only [State.advanceSequence]
  split <;> rfl

theorem advanceSequence_decisions (s : State) (floor) :
    (s.advanceSequence floor).decisions = s.decisions := by
  simp only [State.advanceSequence]
  split <;> rfl

theorem advanceSequence_next (s : State) (floor : Nat) :
    max (maxNumber (s.decisions.map (·.readableId)))
      (maxNumber (s.notes.filterMap (·.readableId))) < (s.advanceSequence floor).seq.next := by
  simp only [State.advanceSequence]
  split
  · show _ < max floor _ + 1
    omega
  · rename_i hlt
    omega

theorem slugTaken_mono (h : ∀ note ∈ notes, note ∈ notes')
    (htaken : slugTaken notes planned = true) : slugTaken notes' planned = true := by
  obtain ⟨note, hnote, heq⟩ := List.any_eq_true.mp htaken
  exact List.any_eq_true.mpr ⟨note, h note hnote, heq⟩

theorem isThere_mono (h : ∀ note ∈ notes, note ∈ notes') (hthere : isThere notes planned = true) :
    isThere notes' planned = true := by
  unfold isThere at hthere ⊢
  split at hthere
  · obtain ⟨note, hnote, heq⟩ := List.any_eq_true.mp hthere
    exact List.any_eq_true.mpr ⟨note, h note hnote, heq⟩
  · exact slugTaken_mono h hthere

/-- What `apply_plan` does to the notes. -/
structure Applied (plan : List PlannedNote) (s t : State) : Prop where
  same : Same s t
  kept : ∀ note ∈ s.notes, note ∈ t.notes
  rows : ∀ note ∈ t.notes, note ∈ s.notes ∨ ∃ planned ∈ plan,
    note.readableId = planned.readableId ∧ note.decision = planned.decision ∧
      isThere s.notes planned = false ∧ slugTaken s.notes planned = false

theorem applyNote_some (h : env.applyNote authorId s planned = some t) : Applied [planned] s t := by
  unfold Env.applyNote at h
  split at h
  · cases h
    exact ⟨⟨rfl, rfl⟩, fun _ => id, fun _ => .inl⟩
  rename_i hfree
  obtain ⟨hnotes, -, hsame⟩ := insertNote_some h
  refine ⟨hsame, ?_, ?_⟩
  · intro note hnote
    rw [hnotes]
    exact mem_append_left _ hnote
  intro note hnote
  rw [hnotes] at hnote
  rcases mem_append.mp hnote with hold | hnew
  · exact .inl hold
  · obtain rfl := mem_singleton.mp hnew
    rw [Bool.not_eq_true, Bool.or_eq_false_iff] at hfree
    exact .inr ⟨planned, mem_singleton_self _, rfl, rfl, hfree⟩

theorem applied_foldlM {plan}
    (h : plan.foldlM (env.applyNote authorId) s = some t) : Applied plan s t := by
  induction plan generalizing s with
  | nil =>
    cases h
    exact ⟨⟨rfl, rfl⟩, fun _ => id, fun _ => .inl⟩
  | cons planned plan ih =>
    rw [foldlM_cons] at h
    obtain ⟨u, hu, h⟩ := bind_eq_some_iff.mp h
    have hfirst := applyNote_some hu
    have hrest := ih h
    refine ⟨hfirst.same.trans hrest.same, fun note hnote =>
      hrest.kept note (hfirst.kept note hnote), ?_⟩
    intro note hnote
    rcases hrest.rows note hnote with hold | ⟨other, hother, hid, hdecision, hthere, htaken⟩
    · rcases hfirst.rows note hold with hold | ⟨other, hother, hrow⟩
      · exact .inl hold
      · obtain rfl := mem_singleton.mp hother
        exact .inr ⟨other, .head _, hrow⟩
    refine .inr ⟨other, .tail _ hother, hid, hdecision, ?_, ?_⟩
    · by_contra hnot
      rw [isThere_mono hfirst.kept (Bool.not_eq_false _ ▸ hnot)] at hthere
      cases hthere
    · by_contra hnot
      rw [slugTaken_mono hfirst.kept (Bool.not_eq_false _ ▸ hnot)] at htaken
      cases htaken

/-! ## When the law holds -/

/-- No ADR is stored under the number of a decision from which it differs: it is
refused, or the number has its note, or the slug is taken. -/
def Env.keepsNumber (env : Env) (s : State) (files : List SourceDecision) (id : ReadableId) :
    Bool :=
  match byNumber files id, byNumber (s.decisions.map sourceOf) id with
  | some file, some server =>
    let note := env.redacted (env.plannedFile file (some server))
    !env.differs file server || env.rejected note || isThere s.notes note ||
      slugTaken s.notes note
  | _, _ => true

/-- The note under the number of the decision, if there is one, has not the
status that the transition brings it to. -/
def State.moves (s : State) (decisionId : Nat) (target : DecisionStatus) : Prop :=
  ∀ decision ∈ s.decisions[decisionId]?, ∀ place ∈ s.noteFor decision.readableId,
    ∀ note ∈ s.notes[place]?, note.fields.status ≠ target.note

instance (s : State) (decisionId : Nat) (target : DecisionStatus) :
    Decidable (s.moves decisionId target) :=
  inferInstanceAs (Decidable (∀ decision ∈ s.decisions[decisionId]?,
    ∀ place ∈ s.noteFor decision.readableId, ∀ note ∈ s.notes[place]?,
      note.fields.status ≠ target.note))

def Meets (env : Env) (s : State) : Act → Prop
  | .createDecision .. => True
  | .importDecisions files numbers _ => ∀ id ∈ numbers, env.keepsNumber s files id = true
  | .acceptDecision _ decisionId => s.moves decisionId .accepted
  | .supersedeDecision _ decisionId _ => s.moves decisionId .superseded

instance (env : Env) (s : State) (act : Act) : Decidable (Meets env s act) :=
  match act with
  | .createDecision .. => .isTrue trivial
  | .importDecisions files numbers _ =>
    inferInstanceAs (Decidable (∀ id ∈ numbers, env.keepsNumber s files id = true))
  | .acceptDecision _ decisionId => inferInstanceAs (Decidable (s.moves decisionId .accepted))
  | .supersedeDecision _ decisionId _ =>
    inferInstanceAs (Decidable (s.moves decisionId .superseded))

theorem byNumber_some {sources source}
    (h : byNumber sources id = some source) : source.readableId = id := by
  simpa using List.find?_some h

theorem redacted_readableId (note) : (env.redacted note).readableId = note.readableId := by
  unfold Env.redacted
  split <;> rfl

theorem redacted_decision (note) : (env.redacted note).decision = note.decision := by
  unfold Env.redacted
  split <;> rfl

theorem planned_own (hmeets : ∀ id ∈ numbers, env.keepsNumber s files id = true)
    (hplanned : planned ∈ env.planImport files (s.decisions.map sourceOf) numbers)
    (hthere : isThere s.notes planned = false) (htaken : slugTaken s.notes planned = false)
    (hdecision : decision ∈ s.decisions) (hid : planned.readableId = some decision.readableId) :
    planned.decision = some decision.readableId := by
  obtain ⟨hmem, hrejected⟩ := mem_filter.mp hplanned
  obtain ⟨note, hflat, rfl⟩ := List.mem_map.mp hmem
  obtain ⟨id, hnumber, hnote⟩ := mem_flatMap.mp hflat
  rw [redacted_readableId] at hid
  rw [redacted_decision]
  have hkeeps := hmeets id hnumber
  -- the decision stands among the sources of its number
  have hthis : id = decision.readableId → byNumber (s.decisions.map sourceOf) id ≠ none := by
    rintro rfl hnone
    refine List.find?_eq_none.mp hnone (sourceOf decision) ?_ (by simp [sourceOf])
    exact mem_reverse.mpr (List.mem_map_of_mem hdecision)
  unfold Env.planNumber at hnote
  unfold Env.keepsNumber at hkeeps
  cases hfile : byNumber files id with
  | none =>
    cases hserver : byNumber (s.decisions.map sourceOf) id with
    | none =>
      simp only [hfile, hserver] at hnote
      cases hnote
    | some server =>
      simp only [hfile, hserver] at hnote
      obtain rfl := mem_singleton.mp hnote
      exact hid
  | some file =>
    cases hserver : byNumber (s.decisions.map sourceOf) id with
    | none =>
      simp only [hfile, hserver] at hnote
      obtain rfl := mem_singleton.mp hnote
      have heq : file.readableId = decision.readableId := some.inj hid
      exact absurd hserver (hthis ((byNumber_some hfile).symm.trans heq))
    | some server =>
      simp only [hfile, hserver] at hnote hkeeps
      rcases mem_cons.mp hnote with rfl | hlegacy
      · have heq : file.readableId = decision.readableId := some.inj hid
        have hsame : env.differs file server = false := by
          simpa [hthere, htaken, (by simpa using hrejected :
            env.rejected (env.redacted (env.plannedFile file (some server))) = false)]
            using hkeeps
        have hserverId : server.readableId = decision.readableId :=
          (byNumber_some hserver).trans ((byNumber_some hfile).symm.trans heq)
        simp [Env.plannedFile, Env.planned, hsame, hserverId]
      · split at hlegacy
        · obtain rfl := mem_singleton.mp hlegacy
          cases hid
        · cases hlegacy

theorem Inv.importDecisions (hinv : Inv s)
    (hmeets : ∀ id ∈ numbers, env.keepsNumber s files id = true)
    (h : env.importDecisions s files numbers authorId = some t) : Inv t := by
  simp only [Env.importDecisions] at h
  split at h
  · obtain ⟨u, hu, rfl⟩ := map_eq_some_iff.mp h
    have happlied := applied_foldlM hu
    have hnext := advanceSequence_next u (maxNumber numbers)
    refine ⟨?_, ?_, ?_, ?_⟩
    · rw [advanceSequence_decisions, happlied.same.decisions]
      exact hinv.nodup
    · intro decision hdecision
      rw [advanceSequence_decisions] at hdecision
      have := le_maxNumber
        (List.mem_map_of_mem (f := fun row : Decision => row.readableId) hdecision)
      omega
    · intro note hnote id hid
      rw [advanceSequence_notes] at hnote
      have : id.number ≤ maxNumber (u.notes.filterMap fun row => row.readableId) :=
        le_maxNumber (mem_filterMap.mpr ⟨note, hnote, hid⟩)
      omega
    · intro note hnote decision hdecision hid
      rw [advanceSequence_notes] at hnote
      rw [advanceSequence_decisions, happlied.same.decisions] at hdecision
      rcases happlied.rows note hnote with hold | ⟨planned, hplanned, hnumber, hholds, hthere,
        htaken⟩
      · exact hinv.own note hold decision hdecision hid
      · rw [hholds]
        exact planned_own hmeets hplanned hthere htaken hdecision (hnumber ▸ hid)
  · cases h

/-- The transition of a decision, and the one that it names as its replacement. -/
def Act.transition : Act → Option (Nat × Option Nat)
  | .acceptDecision _ decisionId => some (decisionId, none)
  | .supersedeDecision _ decisionId supersededBy => some (decisionId, supersededBy)
  | _ => none

theorem step_transition (hinv : Inv s) (h : env.step s act = some t)
    (hact : act.transition = some (decisionId, supersededBy)) : ∃ target decision place note,
      Transits s t decisionId target supersededBy decision place note ∧
        (Meets env s act → s.moves decisionId target) := by
  have hok : ∀ {target caller}, (env.transition s caller decisionId target supersededBy).toOption =
      some t → env.transition s caller decisionId target supersededBy = .ok t := by
    intro target caller h
    cases hresult : env.transition s caller decisionId target supersededBy with
    | error e =>
      rw [hresult] at h
      cases h
    | ok u =>
      rw [hresult] at h
      rw [some.inj h]
  cases act with
  | acceptDecision caller id =>
    cases hact
    obtain ⟨decision, place, note, htransits⟩ := transition_ok hinv.nodup (hok h)
    exact ⟨.accepted, decision, place, note, htransits, id⟩
  | supersedeDecision caller id other =>
    cases hact
    obtain ⟨decision, place, note, htransits⟩ := transition_ok hinv.nodup (hok h)
    exact ⟨.superseded, decision, place, note, htransits, id⟩
  | _ => cases hact

theorem Inv.step (hinv : Inv s) (hmeets : Meets env s act)
    (h : env.step s act = some t) : Inv t := by
  cases hact : act.transition with
  | some ids =>
    obtain ⟨_, _, _, _, htransits, -⟩ := step_transition hinv h hact
    exact hinv.rewrites htransits.rewrites
  | none =>
    cases act with
    | createDecision caller decisionIn =>
      cases h
      exact hinv.createDecision caller decisionIn
    | importDecisions files numbers authorId => exact hinv.importDecisions hmeets h
    | _ => cases hact

/-- One note is changed or created, which the decision is the one of, and has the
status of the decision; with a replacement its own note gets the link. -/
def TouchesOwn (s t : State) (decisionId : Nat) (supersededBy : Option Nat) : Prop :=
  ∃ decision place note, t.decisions[decisionId]? = some decision ∧
    t.notes[place]? = some note ∧ s.notes[place]? ≠ some note ∧
    note.decision = some decision.readableId ∧ note.fields.status = decision.status.note ∧
    (∀ old, s.notes[place]? = some old → old.decision = some decision.readableId) ∧
    ((t.links = s.links ∧ ∀ other, other ≠ place → t.notes[other]? = s.notes[other]?) ∨
      ∃ id replacement other new, supersededBy = some id ∧ s.decisions[id]? = some replacement ∧
        other ≠ place ∧ t.notes[other]? = some new ∧
        new.decision = some replacement.readableId ∧
        (∀ old, s.notes[other]? = some old →
          old.decision = some replacement.readableId ∧ old.fields = new.fields) ∧
        (∀ rest, rest ≠ place → rest ≠ other → t.notes[rest]? = s.notes[rest]?) ∧
        (⟨other, place, .supersedes⟩ : Link) ∈ t.links ∧
        ∀ link ∈ t.links, link ∈ s.links ∨ link = ⟨other, place, .supersedes⟩)

theorem Inv.written (hinv : Inv s)
    (hdecision : decision ∈ s.decisions) (h : Written s place note decision.readableId) :
    note.decision = some decision.readableId ∧
      ∀ old, s.notes[place]? = some old → old.decision = some decision.readableId := by
  have hold : ∀ old, s.notes[place]? = some old → old.decision = some decision.readableId :=
    fun old hold => hinv.own old (mem_of_getElem? hold) decision hdecision (h.old old hold).1
  refine ⟨?_, hold⟩
  cases hbefore : s.notes[place]? with
  | none => exact h.new hbefore
  | some old => exact (h.old old hbefore).2.symm.trans (hold old hbefore)

/-- In every run in which no import stores an ADR under the number of a decision
that differs from it, each transition that has something to change touches the
decision's own note only. -/
theorem transition_touches_own {start : State} {acts : List Act} {act : Act} {decisionId : Nat}
    {supersededBy : Option Nat} (hstart : Start start)
    (hrun : Run env.step (Meets env) start acts s) (hmeets : Meets env s act)
    (hstep : env.step s act = some t) (hact : act.transition = some (decisionId, supersededBy)) :
    TouchesOwn s t decisionId supersededBy := by
  have hinv : Inv s := hrun.invariant (fun hinv hmeets hstep => hinv.step hmeets hstep) hstart.inv
  obtain ⟨target, decision, place, note, h, hmoves⟩ := step_transition hinv hstep hact
  have hmem := mem_of_getElem? h.read
  obtain ⟨hown, hold⟩ := hinv.written hmem h.written
  refine ⟨{ decision with status := target }, place, note, ?_, h.row, ?_, hown, h.status, hold, ?_⟩
  · rw [h.decisions]
    exact List.getElem?_set_self (List.getElem?_eq_some_iff.mp h.read).1
  · refine h.changed ?_
    intro old hfound hrow
    exact hmoves hmeets decision h.read place hfound old hrow
  rcases h.others with hothers | ⟨id, replacement, other, new, hid, hreplacement, hne, hrow,
    hwritten, hfields, hrest⟩
  · exact .inl hothers
  · obtain ⟨hnewOwn, hnewOld⟩ := hinv.written (mem_of_getElem? hreplacement) hwritten
    exact .inr ⟨id, replacement, other, new, hid, hreplacement, hne, hrow, hnewOwn,
      fun old hbefore => ⟨hnewOld old hbefore, hfields old hbefore⟩, hrest⟩

/-- The functions on texts of one plain paragraph without a number. -/
def plainEnv : Env where
  cleanTitle := fun title => title
  slug := fun directory id title => directory ++ "/dec-" ++
    String.ofList (id.digits.reverse.map Nat.digitChar) ++ "-" ++ title
  summary := fun body => body
  redact := fun body => body
  scan := fun _ => []
  contentHash := fun _ _ => ""
  titleRatio := fun a b => if a = b then 1 else 2 / 9

def admin : Caller where
  principal := { machine := ⟨⟨"m"⟩, ⟨"u"⟩⟩, role := .admin, projectScope := .allProjects }
  userId := ⟨"u"⟩

def older (number : Nat) (title : String) : Decision :=
  { readableId := readableId number
    projectId := none
    taskId := none
    title := title
    body := title
    status := .proposed
    proposedByType := "user"
    proposedById := ⟨"u"⟩ }

def adr (number : Nat) (title : String) : SourceDecision :=
  { readableId := readableId number
    title := title
    body := title
    rawStatus := some "proposed"
    projectId := none }

/-- Two decisions from before the vault. -/
def olderState : State :=
  { decisions := [older 1 "zulu", older 2 "echo"]
    notes := []
    links := []
    versions := []
    seq := ⟨2, true⟩ }

theorem olderState_start : Start olderState where
  notes := rfl
  nodup := by decide
  drawn := by decide

def importOf (title : String) : Act :=
  .importDecisions [adr 1 title] [readableId 1, readableId 2] ⟨"u"⟩

/-- The ADR is the first decision, which then supersedes the second. -/
theorem transition_touches_own_supersede : ∃ s t : State,
    plainEnv.step s (.supersedeDecision admin 1 (some 0)) = some t ∧
      t.links = [⟨0, 1, .supersedes⟩] ∧ TouchesOwn s t 1 (some 0) := by
  have h : (execWithin plainEnv.step (Meets plainEnv) olderState [importOf "zulu"]).any (fun s =>
      decide (Meets plainEnv s (.supersedeDecision admin 1 (some 0))) &&
        (plainEnv.step s (.supersedeDecision admin 1 (some 0))).any fun t =>
          t.links = [⟨0, 1, .supersedes⟩]) = true := by
    decide +kernel
  obtain ⟨s, hs, hok⟩ := Run.of_any h
  obtain ⟨hmeets, hstep⟩ := Bool.and_eq_true_iff.mp hok
  obtain ⟨t, ht, hlinks⟩ := (Option.any_eq_true _ _).mp hstep
  exact ⟨s, t, ht, of_decide_eq_true hlinks, transition_touches_own olderState_start
    hs (of_decide_eq_true hmeets) ht rfl⟩

/-- The import stores another ADR under the number of the first decision, and
the transition of the decision validates that. -/
theorem transition_touches_other : ¬ ∀ (env : Env) (start s t : State) (acts : List Act) (act : Act)
    (decisionId : Nat) (supersededBy : Option Nat), Start start →
      Run env.step Free start acts s → env.step s act = some t →
        act.transition = some (decisionId, supersededBy) →
          TouchesOwn s t decisionId supersededBy := by
  intro hclaim
  have h : (execWithin plainEnv.step Free olderState [importOf "alpha"]).any (fun s =>
      (plainEnv.step s (.acceptDecision admin 0)).any fun t =>
        decide (t.notes.map (fun note => (note.fields.title, note.fields.status, note.decision)) =
          [("alpha", .validated, none), ("zulu", .proposed, some (readableId 1)),
            ("echo", .proposed, some (readableId 2))]) &&
          t.decisions[0]?.any fun decision =>
            decision.status = .accepted && decision.readableId = readableId 1) = true := by
    decide +kernel
  obtain ⟨s, hs, hok⟩ := Run.of_any h
  obtain ⟨t, ht, hok⟩ := (Option.any_eq_true _ _).mp hok
  obtain ⟨hnotes, hdecision⟩ := Bool.and_eq_true_iff.mp hok
  obtain ⟨accepted, haccepted, hstatus⟩ := (Option.any_eq_true _ _).mp hdecision
  simp only [Bool.and_eq_true, decide_eq_true_eq] at hstatus hnotes
  obtain ⟨decision, place, note, hrow, hnote, -, hown, hvalue, -⟩ :=
    hclaim plainEnv olderState s t _ _ 0 none olderState_start hs ht rfl
  obtain rfl := some.inj (haccepted.symm.trans hrow)
  -- the only note of the decision has still the old status
  have hmem : (note.fields.title, note.fields.status, note.decision) ∈
      t.notes.map fun note => (note.fields.title, note.fields.status, note.decision) :=
    List.mem_map_of_mem (mem_of_getElem? hnote)
  rw [hnotes, hown, hvalue, hstatus.1, hstatus.2] at hmem
  revert hmem
  simp [DecisionStatus.note, (by decide : readableId 1 ≠ readableId 2)]
end StudioOS.DecisionNotes
