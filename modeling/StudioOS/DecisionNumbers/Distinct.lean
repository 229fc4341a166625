import Mathlib.Data.List.Nodup
import StudioOS.DecisionNumbers.Model

/-!
# Decision numbers — no number twice

`_advance_sequence` reads the rows, then the sequence, and writes the sequence
later: a session that draws in between is overtaken by the write, and its
number is handed out again.
-/

namespace StudioOS.DecisionNumbers

open List

/-- The number that the session has drawn and not inserted. -/
def Phase.drawn : Phase → List ReadableId
  | .decisionFlush id | .noteFlush id => [id]
  | _ => []

def Session.pending (session : Session) : List ReadableId :=
  session.decisions ++ numbered session.notes

/-- The numbers of the plan that the session is applying. -/
def Session.planned (session : Session) : List ReadableId :=
  match session.work with
  | .applyPlan plan => if session.phase.running then plan.ids else []
  | _ => []

def Session.held (session : Session) : List ReadableId :=
  session.phase.drawn ++ session.pending ++ session.planned

/-- The numbers of the decisions, the notes and the plans, those of sessions
under way among them. -/
def State.used (s : State) : List ReadableId :=
  s.decisions ++ numbered s.notes ++ s.sessions.flatMap Session.held

/-- The condition on a step. -/
def Meets (s : State) : Action → Prop
  | .begin (.applyPlan plan) => ∀ session ∈ s.sessions, ∀ id ∈ plan.ids, id ∉ session.held
  | .begin _ => True
  | .advance i => ∀ session ∈ s.sessions[i]?,
      (session.phase = .drawing → ∀ other ∈ s.sessions, readableId s.seq.next ∉ other.planned) ∧
      ∀ highest, session.phase = .setval highest → s.seq.next ≤ highest + 1
  | .abort _ => True

/-- Nothing is under way, and the sequence is past every number. -/
structure Fresh (s : State) : Prop where
  sessions : s.sessions = []
  handedOut : s.handedOut = []
  below : ∀ id ∈ s.decisions ++ numbered s.notes, id.number < s.seq.next

/-- The states of the runs whose steps meet the condition. -/
inductive Reachable (env : Env) (start : State) : State → Prop
  | start : Reachable env start start
  | step {s s' : State} {action : Action} : Reachable env start s → Meets s action →
      env.step s action = some s' → Reachable env start s'

/-- A creation under way: its number is used nowhere else. -/
def Session.Creating (s : State) (session : Session) : Prop :=
  (∀ id ∈ session.held, id.number < s.seq.next ∧ id ∉ s.decisions ∧ id ∉ numbered s.notes) ∧
  match session.phase with
  | .drawing | .decisionFlush _ | .done | .failed => session.decisions = [] ∧ session.notes = []
  | .noteFlush _ => session.notes = []
  | .committing => True
  | _ => False

/-- An import under way: the sequence is past its numbers when it commits. -/
def Session.Importing (s : State) (plan : ImportPlan) (session : Session) : Prop :=
  (session.decisions = [] ∧ ∀ id ∈ numbered session.notes, id ∈ plan.ids) ∧
  match session.phase with
  | .looking rest => ∀ note ∈ rest, note ∈ plan.notes
  | .flushing note rest => (note ∈ plan.notes ∧ ∀ note ∈ rest, note ∈ plan.notes) ∧
      ∀ id ∈ note.readableId, id ∉ numbered (s.seenNotes session)
  | .decisionMax | .vaultMax _ => True
  | .lastValue highest | .setval highest => plan.maxNumber ≤ highest
  | .committing => plan.maxNumber < s.seq.next
  | .done | .failed => session.notes = []
  | _ => False

def Session.Ok (s : State) (session : Session) : Prop :=
  match session.work with
  | .applyPlan plan => session.Importing s plan
  | _ => session.Creating s

structure State.Inv (s : State) : Prop where
  below : ∀ id ∈ s.decisions ++ numbered s.notes, id.number < s.seq.next
  drawn : ∀ n ∈ s.handedOut, n < s.seq.next
  nodup : s.handedOut.Nodup
  sessions : ∀ session ∈ s.sessions, session.Ok s
  apart : ∀ (i j : Nat) (a b : Session), i ≠ j → s.sessions[i]? = some a → s.sessions[j]? = some b →
    ∀ id ∈ a.held, id ∉ b.held

variable {plan : ImportPlan} {session : Session} {id : ReadableId} {s s' : State} {env : Env}
  {i : Nat}

theorem Session.planned_eq (hwork : session.work = .applyPlan plan) :
    session.planned = if session.phase.running then plan.ids else [] := by
  rw [Session.planned, hwork]

theorem ImportPlan.mem_ids {note} (hnote : note ∈ plan.notes)
    (hid : id ∈ note.readableId) : id ∈ plan.ids :=
  mem_filterMap.mpr ⟨note, hnote, hid⟩

theorem ImportPlan.number_le (h : id ∈ plan.ids) : id.number ≤ plan.maxNumber := by
  obtain ⟨note, hnote, hid⟩ := mem_filterMap.mp h
  exact plan.bounded note hnote id hid

@[simp] theorem numbered_append (front back) :
    numbered (front ++ back) = numbered front ++ numbered back := filterMap_append

theorem Session.Ok.mono (h : session.Ok s) (hseq : s.seq.next ≤ s'.seq.next)
    (hdecisions : ∀ id ∈ session.held, id ∈ s'.decisions → id ∈ s.decisions)
    (hnotes : ∀ id ∈ session.held, id ∈ numbered s'.notes → id ∈ numbered s.notes) :
    session.Ok s' := by
  have hcreating (h : session.Creating s) : session.Creating s' := by
    refine ⟨fun id hid => ?_, h.2⟩
    obtain ⟨hbelow, hdecision, hnote⟩ := h.1 id hid
    exact ⟨by omega, fun hmem => hdecision (hdecisions id hid hmem),
      fun hmem => hnote (hnotes id hid hmem)⟩
  unfold Session.Ok at h ⊢
  cases hwork : session.work with
  | createDecision | createNote =>
    rw [hwork] at h
    exact hcreating h
  | applyPlan plan =>
    rw [hwork] at h
    obtain ⟨hpending, hphase⟩ := h
    refine ⟨hpending, ?_⟩
    cases hp : session.phase with
    | flushing note rest =>
      simp only [hp] at hphase ⊢
      refine ⟨hphase.1, fun id hid hmem => hphase.2 id hid ?_⟩
      -- The planned number is one that the session holds.
      have hheld : id ∈ session.held := by
        rw [Session.held, Session.planned_eq hwork, hp]
        exact mem_append_right _ (ImportPlan.mem_ids hphase.1.1 hid)
      rw [State.seenNotes, numbered_append, mem_append] at hmem ⊢
      exact hmem.imp_left (hnotes id hheld)
    | committing =>
      simp only [hp] at hphase ⊢
      omega
    | _ =>
      rw [hp] at hphase
      exact hphase

/-! ## What a statement does -/

theorem Session.ok_creating
    (hwork : ∀ plan, session.work ≠ .applyPlan plan) : session.Ok s ↔ session.Creating s := by
  unfold Session.Ok
  cases h : session.work with
  | applyPlan plan => exact absurd h (hwork plan)
  | _ => rfl

theorem Session.ok_importing {s : State} {session : Session} {plan : ImportPlan}
    (hwork : session.work = .applyPlan plan) : session.Ok s ↔ session.Importing s plan := by
  rw [Session.Ok, hwork]

theorem Session.planned_creating
    (hwork : ∀ plan, session.work ≠ .applyPlan plan) : session.planned = [] := by
  unfold Session.planned
  cases h : session.work with
  | applyPlan plan => exact absurd h (hwork plan)
  | _ => rfl

theorem Session.held_creating (hwork : ∀ plan, session.work ≠ .applyPlan plan) :
    session.held = session.phase.drawn ++ session.pending := by
  rw [Session.held, Session.planned_creating hwork, append_nil]

theorem Env.note_readableId {work note}
    (h : env.note id work = some note) : note.readableId = some id := by
  cases work with
  | applyPlan plan => cases h
  | _ =>
    cases h
    rfl

theorem insertDecision_cases {next} (hnew : id ∉ s.seenDecisions session)
    (h : s.insertDecision i session id next = some s') :
    s' = s.put i { session with phase := next, decisions := session.decisions ++ [id] } := by
  rw [State.insertDecision, if_neg hnew] at h
  split at h
  · cases h
  · cases h
    rfl

theorem insertNote_cases {note next}
    (hnew : ∀ id ∈ note.readableId, id ∉ numbered (s.seenNotes session))
    (h : s.insertNote i session note next = some s') :
    s' = s.put i { session with phase := next, notes := session.notes ++ [note] } := by
  unfold State.insertNote at h
  cases hid : note.readableId with
  | none =>
    simp only [hid] at h
    cases h
    rfl
  | some id =>
    simp only [hid] at h
    rw [if_neg (hnew id hid)] at h
    split at h
    · cases h
    · cases h
      rfl

theorem Work.afterDraw_cases (work : Work) (id) :
    work.afterDraw id = .decisionFlush id ∨ work.afterDraw id = .noteFlush id := by
  cases work with
  | createDecision projectId title contentHash => exact .inl rfl
  | _ => exact .inr rfl

theorem creating_advance (hwork : ∀ plan, session.work ≠ .applyPlan plan) (hok : session.Creating s)
    (h : env.advance s i session = some s') :
    (session.phase = .drawing ∧ session.decisions = [] ∧ session.notes = [] ∧
      s' = { s.put i { session with phase := session.work.afterDraw (readableId s.seq.next) } with
        seq := ⟨s.seq.next, true⟩
        handedOut := s.seq.next :: s.handedOut }) ∨
    (∃ staged : Session, s' = s.put i staged ∧ staged.Ok s ∧
      ∀ id ∈ staged.held, id ∈ session.held) ∨
    (session.phase = .committing ∧
      s' = { s.put i (session.rollback .done) with
        decisions := s.decisions ++ session.decisions
        notes := s.notes ++ session.notes }) := by
  obtain ⟨hheld, hphase⟩ := hok
  have hplanned := Session.planned_creating hwork
  unfold Env.advance at h
  cases hp : session.phase with
  | drawing =>
    rw [hp] at hphase
    simp only [hp] at h
    cases h
    exact .inl ⟨rfl, hphase.1, hphase.2, rfl⟩
  | decisionFlush id =>
    rw [hp] at hphase
    simp only [hp] at h
    have hid : id ∈ session.held := by simp [Session.held, hp, Phase.drawn]
    have hnew : id ∉ s.seenDecisions session := by
      rw [State.seenDecisions, hphase.1, append_nil]
      exact (hheld id hid).2.1
    rw [insertDecision_cases hnew h]
    obtain ⟨staged, hstaged⟩ : ∃ staged : Session, staged =
      { session with phase := .noteFlush id, decisions := session.decisions ++ [id] } := ⟨_, rfl⟩
    have hsame : ∀ plan, staged.work ≠ .applyPlan plan := by
      rw [hstaged]
      exact hwork
    have hkept : ∀ other ∈ staged.held, other ∈ session.held := by
      intro other hother
      rw [Session.held_creating hsame, hstaged] at hother
      have heq : other = id := by
        simpa [Session.pending, Phase.drawn, hphase.1, hphase.2, numbered] using hother
      exact heq ▸ hid
    rw [← hstaged]
    refine .inr (.inl ⟨staged, rfl, (Session.ok_creating hsame).mpr ⟨?_, ?_⟩, hkept⟩)
    · exact fun other hother => hheld other (hkept other hother)
    · rw [hstaged]
      exact hphase.2
  | noteFlush id =>
    rw [hp] at hphase
    simp only [hp] at h
    cases hnote : env.note id session.work with
    | none =>
      rw [hnote] at h
      cases h
    | some note =>
      rw [hnote, Option.bind_some] at h
      have hreadable := Env.note_readableId hnote
      have hid : id ∈ session.held := by simp [Session.held, hp, Phase.drawn]
      have hnew : ∀ other ∈ note.readableId, other ∉ numbered (s.seenNotes session) := by
        intro other hother
        rw [hreadable, Option.mem_def, Option.some.injEq] at hother
        subst hother
        rw [State.seenNotes, hphase, append_nil]
        exact (hheld id hid).2.2
      rw [insertNote_cases hnew h]
      obtain ⟨staged, hstaged⟩ : ∃ staged : Session, staged =
        { session with phase := .committing, notes := session.notes ++ [note] } := ⟨_, rfl⟩
      have hsame : ∀ plan, staged.work ≠ .applyPlan plan := by
        rw [hstaged]
        exact hwork
      have hkept : ∀ other ∈ staged.held, other ∈ session.held := by
        intro other hother
        rw [Session.held_creating hsame, hstaged] at hother
        have hcases : other ∈ session.decisions ∨ other = id := by
          simpa [Session.pending, Phase.drawn, hphase, numbered, hreadable] using hother
        rcases hcases with hmem | heq
        · rw [Session.held_creating hwork]
          exact mem_append_right _ (mem_append_left _ hmem)
        · exact heq ▸ hid
      rw [← hstaged]
      refine .inr (.inl ⟨staged, rfl, (Session.ok_creating hsame).mpr ⟨?_, ?_⟩, hkept⟩)
      · exact fun other hother => hheld other (hkept other hother)
      · rw [hstaged]
        trivial
  | committing =>
    simp only [hp] at h
    cases h
    exact .inr (.inr ⟨rfl, rfl⟩)
  | done | failed =>
    simp only [hp] at h
    cases h
  | _ =>
    rw [hp] at hphase
    exact hphase.elim

theorem not_mem_of_existing {notes planned} (hid : id ∈ planned.readableId)
    (h : existing notes planned = none) : id ∉ numbered notes := by
  intro hmem
  obtain ⟨note, hnote, hreadable⟩ := mem_filterMap.mp hmem
  rw [existing, hid] at h
  have hnone := List.find?_eq_none.mp h note hnote
  simp [hreadable] at hnone

theorem held_importing {session : Session} {plan : ImportPlan}
    (hwork : session.work = .applyPlan plan) (hrunning : session.phase.running = true)
    (hdrawn : session.phase.drawn = []) (hdecisions : session.decisions = [])
    (hnotes : ∀ id ∈ numbered session.notes, id ∈ plan.ids) (id : ReadableId) :
    id ∈ session.held ↔ id ∈ plan.ids := by
  rw [Session.held, Session.planned_eq hwork, if_pos hrunning, hdrawn, Session.pending, hdecisions,
    nil_append, nil_append, mem_append]
  exact or_iff_right_of_imp (hnotes id)

/-- The next statement of an import that neither writes the sequence nor
commits. -/
theorem importing_stage {staged} (hwork : session.work = .applyPlan plan)
    (hrunning : session.phase.running = true)
    (hpending : session.decisions = [] ∧ ∀ id ∈ numbered session.notes, id ∈ plan.ids)
    (hdrawn : session.phase.drawn = []) (hstaged : staged.work = session.work)
    (hnext : staged.phase.running = true) (hnone : staged.phase.drawn = [])
    (hok : staged.Importing s plan) :
    ∃ other : Session, s.put i staged = s.put i other ∧ other.Ok s ∧
      ∀ id ∈ other.held, id ∈ session.held := by
  have hwork' : staged.work = .applyPlan plan := hstaged.trans hwork
  refine ⟨staged, rfl, (Session.ok_importing hwork').mpr hok, fun id hid => ?_⟩
  rw [held_importing hwork hrunning hdrawn hpending.1 hpending.2]
  exact (held_importing hwork' hnext hnone hok.1.1 hok.1.2 id).mp hid

theorem importing_advance (hwork : session.work = .applyPlan plan) (hok : session.Importing s plan)
    (h : env.advance s i session = some s') :
    (∃ staged : Session, s' = s.put i staged ∧ staged.Ok s ∧
      ∀ id ∈ staged.held, id ∈ session.held) ∨
    (∃ highest, session.phase = .setval highest ∧ plan.maxNumber ≤ highest ∧
      s' = { s.put i { session with phase := .committing } with seq := ⟨highest, true⟩ }) ∨
    (session.phase = .committing ∧ plan.maxNumber < s.seq.next ∧
      s' = { s.put i (session.rollback .done) with
        decisions := s.decisions ++ session.decisions
        notes := s.notes ++ session.notes }) := by
  obtain ⟨hpending, hphase⟩ := hok
  unfold Env.advance at h
  cases hp : session.phase with
  | looking rest =>
    rw [hp] at hphase
    cases rest with
    | nil =>
      simp only [hp] at h
      cases h
      exact .inl (importing_stage hwork (by rw [hp]; rfl) hpending (by rw [hp]; rfl) rfl rfl rfl
        ⟨hpending, trivial⟩)
    | cons planned rest =>
      simp only [hp] at h
      have hrest : ∀ note ∈ rest, note ∈ plan.notes := fun note hnote => hphase note (.tail _ hnote)
      split at h
      · cases h
        exact .inl (importing_stage hwork (by rw [hp]; rfl) hpending (by rw [hp]; rfl) rfl rfl
          rfl ⟨hpending, hrest⟩)
      rename_i hfree
      cases h
      rw [Bool.or_eq_true, not_or, Bool.not_eq_true, Option.isSome_eq_false_iff,
        Option.isNone_iff_eq_none] at hfree
      exact .inl (importing_stage hwork (by rw [hp]; rfl) hpending (by rw [hp]; rfl) rfl rfl
        rfl ⟨hpending, ⟨hphase planned mem_cons_self, hrest⟩,
          fun id hid => not_mem_of_existing hid hfree.1⟩)
  | flushing note rest =>
    rw [hp] at hphase
    simp only [hp] at h
    rw [insertNote_cases hphase.2 h]
    have hnotes : ∀ id ∈ numbered (session.notes ++ [note.row]), id ∈ plan.ids := by
      intro id hid
      rw [numbered_append, mem_append] at hid
      rcases hid with hid | hid
      · exact hpending.2 id hid
      · obtain ⟨row, hrow, hreadable⟩ := mem_filterMap.mp hid
        rw [mem_singleton] at hrow
        subst hrow
        exact ImportPlan.mem_ids hphase.1.1 hreadable
    exact .inl (importing_stage hwork (by rw [hp]; rfl) hpending (by rw [hp]; rfl) rfl rfl rfl
      ⟨⟨hpending.1, hnotes⟩, hphase.1.2⟩)
  | decisionMax =>
    simp only [hp] at h
    cases h
    exact .inl (importing_stage hwork (by rw [hp]; rfl) hpending (by rw [hp]; rfl) rfl rfl rfl
      ⟨hpending, trivial⟩)
  | vaultMax decisionMax =>
    simp only [hp, hwork] at h
    cases h
    exact .inl (importing_stage hwork (by rw [hp]; rfl) hpending (by rw [hp]; rfl) hwork.symm
      rfl rfl ⟨hpending, Nat.le_max_left _ _⟩)
  | lastValue highest =>
    rw [hp] at hphase
    simp only [hp] at h
    split at h
    · cases h
      exact .inl (importing_stage hwork (by rw [hp]; rfl) hpending (by rw [hp]; rfl) rfl rfl rfl
        ⟨hpending, hphase⟩)
    rename_i hpast
    have hlow : plan.maxNumber < s.seq.next := by
      have hle : plan.maxNumber ≤ highest := hphase
      omega
    cases h
    exact .inl (importing_stage hwork (by rw [hp]; rfl) hpending (by rw [hp]; rfl) rfl rfl rfl
      ⟨hpending, hlow⟩)
  | setval highest =>
    rw [hp] at hphase
    simp only [hp] at h
    cases h
    exact .inr (.inl ⟨highest, rfl, hphase, rfl⟩)
  | committing =>
    rw [hp] at hphase
    simp only [hp] at h
    cases h
    exact .inr (.inr ⟨rfl, hphase, rfl⟩)
  | done | failed =>
    simp only [hp] at h
    cases h
  | _ =>
    rw [hp] at hphase
    exact hphase.elim

/-! ## The invariant in every run -/

theorem Fresh.inv (h : Fresh s) : s.Inv where
  below := h.below
  drawn := by
    intro n hn
    rw [h.handedOut] at hn
    cases hn
  nodup := by
    rw [h.handedOut]
    exact nodup_nil
  sessions := by
    intro session hmem
    rw [h.sessions] at hmem
    cases hmem
  apart := by
    intro i j a b _ ha
    rw [h.sessions] at ha
    cases ha

/-- One session goes on: what the others hold stays apart from it and from
the rows. -/
theorem State.Inv.replace (hinv : s.Inv) (i) (staged)
    (hsessions : s'.sessions = s.sessions.set i staged) (hseq : s.seq.next ≤ s'.seq.next)
    (hbelow : ∀ id ∈ s'.decisions ++ numbered s'.notes, id.number < s'.seq.next)
    (hdrawn : ∀ n ∈ s'.handedOut, n < s'.seq.next) (hnodup : s'.handedOut.Nodup)
    (hstaged : staged.Ok s')
    (hothers : ∀ (j : Nat) (other : Session), j ≠ i → s.sessions[j]? = some other →
      ∀ id ∈ other.held, id ∉ staged.held ∧ (id ∈ s'.decisions → id ∈ s.decisions) ∧
        (id ∈ numbered s'.notes → id ∈ numbered s.notes)) : s'.Inv where
  below := hbelow
  drawn := hdrawn
  nodup := hnodup
  sessions := by
    intro session hmem
    rw [hsessions] at hmem
    obtain ⟨j, hj⟩ := mem_iff_getElem?.mp hmem
    rw [List.getElem?_set] at hj
    by_cases hij : i = j
    · rw [if_pos hij] at hj
      split at hj
      · cases hj
        exact hstaged
      · cases hj
    · rw [if_neg hij] at hj
      have hother := hothers j session (fun h => hij h.symm) hj
      exact (hinv.sessions session (mem_of_getElem? hj)).mono hseq
        (fun id hid => (hother id hid).2.1) fun id hid => (hother id hid).2.2
  apart := by
    intro j k a b hjk ha hb id hid
    rw [hsessions, List.getElem?_set] at ha hb
    by_cases hij : i = j
    · have hik : i ≠ k := fun h => hjk (hij.symm.trans h)
      rw [if_pos hij] at ha
      rw [if_neg hik] at hb
      split at ha
      · cases ha
        exact fun hmem => (hothers k b (fun h => hik h.symm) hb id hmem).1 hid
      · cases ha
    · rw [if_neg hij] at ha
      by_cases hik : i = k
      · rw [if_pos hik] at hb
        split at hb
        · cases hb
          exact (hothers j a (fun h => hij h.symm) ha id hid).1
        · cases hb
      · rw [if_neg hik] at hb
        exact hinv.apart j k a b hjk ha hb id hid

theorem Session.Ok.held_cases (h : session.Ok s) (hid : id ∈ session.held) :
    id.number < s.seq.next ∨ id ∈ session.planned := by
  by_cases hwork : ∃ plan, session.work = .applyPlan plan
  · obtain ⟨plan, hwork⟩ := hwork
    obtain ⟨hpending, hphase⟩ := (Session.ok_importing hwork).mp h
    refine .inr ?_
    rw [Session.planned_eq hwork]
    rw [Session.held, Session.planned_eq hwork, Session.pending, hpending.1] at hid
    cases hp : session.phase with
    | done | failed =>
      rw [hp] at hphase
      have hnotes : session.notes = [] := hphase
      simp [hp, hnotes, Phase.drawn, Phase.running, numbered] at hid
    | decisionFlush other | noteFlush other | drawing | duplicate =>
      rw [hp] at hphase
      exact hphase.elim
    | _ =>
      rw [hp] at hid
      rcases mem_append.mp hid with hid | hid
      · exact hpending.2 id hid
      · exact hid
  · have hcreating := (Session.ok_creating fun plan hplan => hwork ⟨plan, hplan⟩).mp h
    exact .inl (hcreating.1 id hid).1

theorem held_rollback (session : Session) {phase} (hphase : phase.running = false)
    (hdrawn : phase.drawn = []) : (session.rollback phase).held = [] := by
  rw [Session.held, Session.rollback, Session.pending, hdrawn, Session.planned]
  cases session.work with
  | applyPlan plan => simp [hphase, numbered]
  | _ => rfl

theorem ok_rollback (session : Session) {phase}
    (hphase : phase = .done ∨ phase = .failed) : (session.rollback phase).Ok s := by
  have hheld : (session.rollback phase).held = [] := by
    rcases hphase with rfl | rfl <;> exact held_rollback session rfl rfl
  by_cases hwork : ∃ plan, session.work = .applyPlan plan
  · obtain ⟨plan, hwork⟩ := hwork
    have hwork' : (session.rollback phase).work = .applyPlan plan := hwork
    rw [Session.ok_importing hwork']
    rcases hphase with rfl | rfl <;> exact ⟨⟨rfl, fun id hid => by cases hid⟩, rfl⟩
  · have hwork' : ∀ plan, (session.rollback phase).work ≠ .applyPlan plan :=
      fun plan hplan => hwork ⟨plan, hplan⟩
    rw [Session.ok_creating hwork']
    have hnone : ∀ id ∈ (session.rollback phase).held,
        id.number < s.seq.next ∧ id ∉ s.decisions ∧ id ∉ numbered s.notes := by
      intro id hid
      rw [hheld] at hid
      cases hid
    refine ⟨hnone, ?_⟩
    rcases hphase with rfl | rfl <;> exact ⟨rfl, rfl⟩

theorem State.Inv.not_used (hinv : s.Inv)
    (hplanned : ∀ other ∈ s.sessions, readableId s.seq.next ∉ other.planned) :
    readableId s.seq.next ∉ s.used := by
  have hnumber := number_readableId s.seq.next
  intro hmem
  rcases mem_append.mp hmem with hmem | hmem
  · have := hinv.below _ hmem
    omega
  · obtain ⟨other, hother, hheld⟩ := mem_flatMap.mp hmem
    rcases (hinv.sessions other hother).held_cases hheld with hbelow | hplan
    · omega
    · exact hplanned other hother hplan

theorem held_mem_used {other} (hother : other ∈ s.sessions) (hid : id ∈ other.held) : id ∈ s.used :=
  mem_append_right _ (mem_flatMap.mpr ⟨other, hother, hid⟩)

theorem State.Inv.draw (hinv : s.Inv)
    (hwork : ∀ plan, session.work ≠ .applyPlan plan) (hdecisions : session.decisions = [])
    (hnotes : session.notes = []) (hunused : readableId s.seq.next ∉ s.used) : State.Inv
      { s.put i { session with phase := session.work.afterDraw (readableId s.seq.next) } with
        seq := ⟨s.seq.next, true⟩
        handedOut := s.seq.next :: s.handedOut } := by
  obtain ⟨drawn, hdrawn⟩ : ∃ drawn : Session, drawn =
    { session with phase := session.work.afterDraw (readableId s.seq.next) } := ⟨_, rfl⟩
  have hsame : ∀ plan, drawn.work ≠ .applyPlan plan := by
    rw [hdrawn]
    exact hwork
  have hheld : drawn.held = [readableId s.seq.next] := by
    rw [Session.held_creating hsame, hdrawn]
    rcases session.work.afterDraw_cases (readableId s.seq.next) with hphase | hphase
    · simp [Session.pending, hdecisions, hnotes, hphase, Phase.drawn, numbered]
    · simp [Session.pending, hdecisions, hnotes, hphase, Phase.drawn, numbered]
  rw [← hdrawn]
  refine hinv.replace i drawn rfl (Nat.le_succ _) ?_ ?_ ?_ ?_ ?_
  · intro id hid
    exact Nat.lt_succ_of_lt (hinv.below id hid)
  · intro n hn
    rcases mem_cons.mp hn with rfl | hn
    · exact Nat.lt_succ_self _
    · exact Nat.lt_succ_of_lt (hinv.drawn n hn)
  · refine nodup_cons.mpr ⟨fun hmem => ?_, hinv.nodup⟩
    exact absurd (hinv.drawn _ hmem) (Nat.lt_irrefl _)
  · rw [Session.ok_creating hsame]
    refine ⟨fun id hid => ?_, ?_⟩
    · rw [hheld, mem_singleton] at hid
      subst hid
      refine ⟨by rw [number_readableId]; exact Nat.lt_succ_self _, fun hmem => ?_, fun hmem => ?_⟩
      · exact hunused (mem_append_left _ (mem_append_left _ hmem))
      · exact hunused (mem_append_left _ (mem_append_right _ hmem))
    · rw [hdrawn]
      rcases session.work.afterDraw_cases (readableId s.seq.next) with hphase | hphase
      · simp only [hphase]
        exact ⟨hdecisions, hnotes⟩
      · simp only [hphase]
        exact hnotes
  · intro j other hj hother id hid
    refine ⟨fun hmem => ?_, fun h => h, fun h => h⟩
    rw [hheld, mem_singleton] at hmem
    exact hunused (hmem ▸ held_mem_used (mem_of_getElem? hother) hid)

theorem State.Inv.commit {s : State} {i : Nat} {session : Session} (hinv : s.Inv)
    (hsession : s.sessions[i]? = some session)
    (hpending : ∀ id ∈ session.pending, id.number < s.seq.next) : State.Inv
      { s.put i (session.rollback .done) with
        decisions := s.decisions ++ session.decisions
        notes := s.notes ++ session.notes } := by
  have hmem {id : ReadableId} (hid : id ∈ session.pending) : id ∈ session.held :=
    mem_append_left _ (mem_append_right _ hid)
  refine hinv.replace i _ rfl (Nat.le_refl _) ?_ hinv.drawn hinv.nodup
    (ok_rollback session (.inl rfl)) ?_
  · intro id hid
    simp only [numbered_append, mem_append] at hid
    rcases hid with (hid | hid) | (hid | hid)
    · exact hinv.below id (mem_append_left _ hid)
    · exact hpending id (mem_append_left _ hid)
    · exact hinv.below id (mem_append_right _ hid)
    · exact hpending id (mem_append_right _ hid)
  · intro j other hj hother id hid
    have hapart := hinv.apart j i other session hj hother hsession id hid
    refine ⟨?_, fun h => ?_, fun h => ?_⟩
    · rw [held_rollback session rfl rfl]
      exact not_mem_nil
    · refine (mem_append.mp h).resolve_right fun hnew => hapart (hmem ?_)
      exact mem_append_left _ hnew
    · rw [numbered_append] at h
      refine (mem_append.mp h).resolve_right fun hnew => hapart (hmem ?_)
      exact mem_append_right _ hnew

/-- A step of a run: the sequence does not go back, and a number that it
draws is used nowhere. -/
def Advances (s s' : State) : Prop :=
  s.seq.next ≤ s'.seq.next ∧ ∀ n, s'.handedOut = n :: s.handedOut → readableId n ∉ s.used

theorem advances_of_same (hseq : s.seq.next ≤ s'.seq.next)
    (hhanded : s'.handedOut = s.handedOut) : Advances s s' := by
  refine ⟨hseq, fun n hn => ?_⟩
  rw [hhanded] at hn
  exact absurd hn (by simp)

theorem State.Inv.advance {env : Env} {s s' i session} (hinv : s.Inv)
    (hsession : s.sessions[i]? = some session) (hmeets : Meets s (.advance i))
    (h : env.advance s i session = some s') : s'.Inv ∧ Advances s s' := by
  have hok := hinv.sessions session (mem_of_getElem? hsession)
  have hstaged {staged : Session} (hok : staged.Ok s)
      (hkept : ∀ id ∈ staged.held, id ∈ session.held) : (s.put i staged).Inv := by
    refine hinv.replace i staged rfl (Nat.le_refl _) hinv.below hinv.drawn hinv.nodup hok ?_
    intro j other hj hother id hid
    refine ⟨fun hmem => ?_, fun h => h, fun h => h⟩
    exact hinv.apart j i other session hj hother hsession id hid (hkept id hmem)
  by_cases hwork : ∃ plan, session.work = .applyPlan plan
  · obtain ⟨plan, hwork⟩ := hwork
    have himport := (Session.ok_importing hwork).mp hok
    rcases importing_advance hwork himport h with ⟨staged, rfl, hok', hkept⟩ |
      ⟨highest, hphase, hmax, rfl⟩ | ⟨hphase, hmax, rfl⟩
    · exact ⟨hstaged hok' hkept, advances_of_same (Nat.le_refl _) rfl⟩
    · -- The sequence has not gone past the number that is written.
      have hseq : s.seq.next ≤ highest + 1 := (hmeets session hsession).2 highest hphase
      have hdone : Session.Ok
          { s.put i { session with phase := .committing } with seq := ⟨highest, true⟩ }
          { session with phase := .committing } := by
        refine (@Session.ok_importing _ { session with phase := .committing } plan hwork).mpr
          ⟨himport.1, ?_⟩
        exact Nat.lt_succ_of_le hmax
      refine ⟨hinv.replace i _ rfl hseq ?_ ?_ hinv.nodup hdone ?_, advances_of_same hseq rfl⟩
      · exact fun id hid => Nat.lt_of_lt_of_le (hinv.below id hid) hseq
      · exact fun n hn => Nat.lt_of_lt_of_le (hinv.drawn n hn) hseq
      intro j other hj hother id hid
      refine ⟨fun hmem => ?_, fun h => h, fun h => h⟩
      refine hinv.apart j i other session hj hother hsession id hid ?_
      have hplan := (@held_importing { session with phase := .committing } plan hwork rfl rfl
        himport.1.1 himport.1.2 id).mp hmem
      rw [held_importing hwork (by rw [hphase]; rfl) (by rw [hphase]; rfl) himport.1.1 himport.1.2]
      exact hplan
    · refine ⟨hinv.commit hsession fun id hid => ?_, advances_of_same (Nat.le_refl _) rfl⟩
      rw [Session.pending, himport.1.1] at hid
      have hle := ImportPlan.number_le (himport.1.2 id hid)
      omega
  · have hcreation : ∀ plan, session.work ≠ .applyPlan plan := fun plan h => hwork ⟨plan, h⟩
    have hcreating := (Session.ok_creating hcreation).mp hok
    rcases creating_advance hcreation hcreating h with ⟨hphase, hdecisions, hnotes, rfl⟩ |
      ⟨staged, rfl, hok', hkept⟩ | ⟨hphase, rfl⟩
    · have hunused := hinv.not_used ((hmeets session hsession).1 hphase)
      refine ⟨hinv.draw hcreation hdecisions hnotes hunused, Nat.le_succ _, fun n hn => ?_⟩
      cases hn
      exact hunused
    · exact ⟨hstaged hok' hkept, advances_of_same (Nat.le_refl _) rfl⟩
    · refine ⟨hinv.commit hsession fun id hid => ?_, advances_of_same (Nat.le_refl _) rfl⟩
      exact (hcreating.1 id (mem_append_left _ (mem_append_right _ hid))).1

theorem State.Inv.begin {work} (hinv : s.Inv) (hmeets : Meets s (.begin work)) :
    State.Inv { s with sessions := s.sessions ++ [⟨work, work.start, [], []⟩] } := by
  obtain ⟨opened, hopened⟩ : ∃ opened : Session, opened = ⟨work, work.start, [], []⟩ := ⟨_, rfl⟩
  have hfacts : opened.Ok s ∧ ∀ other ∈ s.sessions, ∀ id ∈ opened.held, id ∉ other.held := by
    subst hopened
    cases work with
    | applyPlan plan =>
      refine ⟨⟨⟨rfl, fun id hid => by cases hid⟩, fun note hnote => hnote⟩, ?_⟩
      intro other hother id hid
      exact hmeets other hother id hid
    | _ =>
      refine ⟨⟨fun id hid => absurd hid not_mem_nil, rfl, rfl⟩, ?_⟩
      intro other _ id hid
      cases hid
  rw [← hopened]
  refine
    { below := hinv.below
      drawn := hinv.drawn
      nodup := hinv.nodup
      sessions := fun session hmem => ?_
      apart := fun i j a b hij ha hb id hid => ?_ }
  · rcases mem_append.mp hmem with hmem | hmem
    · exact hinv.sessions session hmem
    · rw [mem_singleton] at hmem
      exact hmem ▸ hfacts.1
  rw [List.getElem?_append] at ha hb
  split at ha
  · split at hb
    · exact hinv.apart i j a b hij ha hb id hid
    · have hopen := mem_singleton.mp (mem_of_getElem? hb)
      subst hopen
      exact fun hmem => hfacts.2 a (mem_of_getElem? ha) id hmem hid
  · have hopen := mem_singleton.mp (mem_of_getElem? ha)
    subst hopen
    split at hb
    · exact hfacts.2 b (mem_of_getElem? hb) id hid
    · have hi := (List.getElem?_eq_some_iff.mp ha).1
      have hj := (List.getElem?_eq_some_iff.mp hb).1
      simp only [length_singleton] at hi hj
      omega

theorem State.Inv.abort (hinv : s.Inv) : (s.put i (session.rollback .failed)).Inv := by
  refine hinv.replace i _ rfl (Nat.le_refl _) hinv.below hinv.drawn hinv.nodup
    (ok_rollback session (.inr rfl)) ?_
  intro j other _ _ id _
  refine ⟨?_, fun h => h, fun h => h⟩
  rw [held_rollback session rfl rfl]
  exact not_mem_nil

theorem State.Inv.step {action} (hinv : s.Inv) (hmeets : Meets s action)
    (h : env.step s action = some s') : s'.Inv ∧ Advances s s' := by
  cases action with
  | begin work =>
    cases h
    exact ⟨hinv.begin hmeets, advances_of_same (Nat.le_refl _) rfl⟩
  | advance i =>
    obtain ⟨session, hsession, hadvance⟩ := Option.bind_eq_some_iff.mp h
    exact hinv.advance hsession hmeets hadvance
  | abort i =>
    obtain ⟨session, hsession, habort⟩ := Option.bind_eq_some_iff.mp h
    split at habort
    · cases habort
      exact ⟨hinv.abort, advances_of_same (Nat.le_refl _) rfl⟩
    · cases habort

theorem Reachable.inv {start} (hstart : Fresh start) (h : Reachable env start s) : s.Inv := by
  induction h with
  | start => exact hstart.inv
  | step _ hmeets hstep ih => exact (ih.step hmeets hstep).1

theorem Session.Ok.not_duplicate (h : session.Ok s) : session.phase ≠ .duplicate := by
  intro hp
  by_cases hwork : ∃ plan, session.work = .applyPlan plan
  · obtain ⟨plan, hwork⟩ := hwork
    have hphase := ((Session.ok_importing hwork).mp h).2
    rw [hp] at hphase
    exact hphase
  · have hphase := ((Session.ok_creating fun plan hplan => hwork ⟨plan, hplan⟩).mp h).2
    rw [hp] at hphase
    exact hphase

/-- In every run whose steps meet the condition no number is handed out
twice, none is in use when it is drawn, the sequence does not go back, and
no insert fails for its number. -/
theorem numbers_distinct {env : Env} {start s : State} (hstart : Fresh start)
    (h : Reachable env start s) :
    s.handedOut.Nodup ∧ (∀ session ∈ s.sessions, session.phase ≠ .duplicate) ∧
      ∀ action s', Meets s action → env.step s action = some s' → Advances s s' := by
  have hinv := h.inv hstart
  exact ⟨hinv.nodup, fun session hmem => (hinv.sessions session hmem).not_duplicate,
    fun action s' hmeets hstep => (hinv.step hmeets hstep).2⟩

/-- The sequence as the migration leaves it without a decision. -/
def emptyState : State := ⟨⟨1, false⟩, [], [], [], []⟩

def plainEnv : Env := ⟨fun _ title => title⟩

theorem emptyState_fresh : Fresh emptyState := ⟨rfl, rfl, fun _ hid => by cases hid⟩

def firstNote : Work := .createNote ⟨none, "storage"⟩ "h" false

/-- The first note of type decision has drawn its number. -/
def firstDrawn : State :=
  { emptyState with
    seq := ⟨1, true⟩
    sessions := [⟨firstNote, .noteFlush (readableId 1), [], []⟩]
    handedOut := [1] }

theorem firstDrawn_reachable : Reachable plainEnv emptyState firstDrawn := by
  have hbegin : Meets emptyState (.begin firstNote) := trivial
  have hdraw : Meets { emptyState with sessions := [⟨firstNote, .drawing, [], []⟩] }
      (.advance 0) := by
    intro session hsession
    cases hsession
    refine ⟨fun _ other hother => ?_, fun highest hphase => by cases hphase⟩
    rw [mem_singleton] at hother
    subst hother
    exact not_mem_nil
  exact (Reachable.start.step hbegin rfl).step hdraw rfl

theorem numbers_distinct_first :
    firstDrawn.handedOut.Nodup ∧ (∀ session ∈ firstDrawn.sessions, session.phase ≠ .duplicate) ∧
      ∀ action s', Meets firstDrawn action → plainEnv.step firstDrawn action = some s' →
        Advances firstDrawn s' :=
  numbers_distinct emptyState_fresh firstDrawn_reachable

/-- Eight numbers are in use, and the plan knows a ninth, whose note was set
aside. -/
def eighthState : State := { emptyState with seq := ⟨8, true⟩ }

def ninthPlan : ImportPlan := ⟨[], 9, fun _ hnote => by cases hnote⟩

def newDecision (title : String) : Work := .createDecision none title "h"

/-- The import reads `last_value`, two creations draw, the import writes the
sequence, and a third creation draws. -/
def overtaken : List Action :=
  [.begin (.applyPlan ninthPlan), .advance 0, .advance 0, .advance 0, .advance 0,
    .begin (newDecision "a"), .begin (newDecision "b"), .advance 1, .advance 2,
    .advance 0, .begin (newDecision "c"), .advance 3]

theorem numbers_repeat : Fresh eighthState ∧
      (plainEnv.run eighthState (overtaken.take 9)).map (·.seq.next) = some 11 ∧
      (plainEnv.run eighthState (overtaken.take 10)).map (·.seq.next) = some 10 ∧
      ∃ s, plainEnv.run eighthState overtaken = some s ∧ s.handedOut = [10, 10, 9] ∧
        ¬s.handedOut.Nodup :=
  ⟨⟨rfl, rfl, fun _ hid => by cases hid⟩, rfl, rfl, _, rfl, rfl, by decide⟩

end StudioOS.DecisionNumbers
