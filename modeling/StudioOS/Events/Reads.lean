import StudioOS.Events.Log

/-!
# Events — Reads

What the reader of the log has after a run. `LogInv` holds the rows of the
table apart by their seqs and the cursor apart from the open transactions:
every uncommitted row the reader still waits for is above everything it
received.
-/

namespace StudioOS.Events

open List Runs

variable {τ : Type*}

variable {R : Reader} {e : Event} {s t : State τ}

/-- Every row of the table, visible or not. -/
def State.rows (s : State τ) : List Event := s.committed ++ s.staged.map Prod.snd

/-- The seqs of the table: distinct, from 1 on, handed out so far. -/
structure TableInv (s : State τ) : Prop where
  distinct : (s.rows.map Event.seq).Nodup
  pos : ∀ e ∈ s.rows, 0 < e.seq
  fresh : ∀ e ∈ s.rows, e.seq < s.nextSeq
  next_pos : 0 < s.nextSeq

/-- The reader holds visible rows it follows, each once, and every visible
row up to the largest of them. -/
structure ReadInv (R : Reader) (s : State τ) : Prop where
  sound : ∀ e ∈ s.received, e ∈ s.committed ∧ R.follows e
  once : (s.received.map Event.seq).Nodup
  noGap : ∀ e ∈ s.committed, R.follows e → (∃ r ∈ s.received, e.seq ≤ r.seq) → e ∈ s.received

/-- **The log invariant**: the table is well formed, the reader has no
gap, and uncommitted rows it waits for are above what it received. -/
structure LogInv (R : Reader) (s : State τ) : Prop where
  table : TableInv s
  reads : ReadInv R s
  ahead : ∀ row ∈ s.staged, R.follows row.2 → ∀ r ∈ s.received, r.seq < row.2.seq

theorem tableInv_initial : TableInv (State.initial τ) where
  distinct := nodup_nil
  pos := nofun
  fresh := nofun
  next_pos := Nat.one_pos

theorem logInv_initial (R) : LogInv R (State.initial τ) where
  table := tableInv_initial
  reads := ⟨nofun, nodup_nil, nofun⟩
  ahead := nofun

/-! ## The table -/

theorem TableInv.committed_nodup (h : TableInv s) : (s.committed.map Event.seq).Nodup :=
  h.distinct.sublist ((sublist_append_left _ _).map _)

theorem TableInv.project_nodup (h : TableInv s) (projectId) :
    ((s.committed.filter fun e => e.projectId = projectId).map Event.seq).Nodup :=
  h.committed_nodup.sublist (filter_sublist.map _)

theorem TableInv.subperm (h : TableInv s) (hrows : t.rows.Subperm s.rows)
    (hnext : t.nextSeq = s.nextSeq) : TableInv t where
  distinct := by
    obtain ⟨rows, hperm, hsub⟩ := hrows
    exact (hperm.map Event.seq).nodup_iff.mp (h.distinct.sublist (hsub.map Event.seq))
  pos := fun e he => h.pos e (hrows.subset he)
  fresh := fun e he => by
    rw [hnext]
    exact h.fresh e (hrows.subset he)
  next_pos := by
    rw [hnext]
    exact h.next_pos

variable [DecidableEq τ] {a : Act τ} {as : List (Act τ)}

theorem TableInv.stageEvent (h : TableInv s) (tx eventId projectId) :
    TableInv (s.stageEvent tx eventId projectId) := by
  unfold State.stageEvent
  split
  · exact h
  have hrows : ∀ e ∈ s.rows ++ [⟨eventId, projectId, s.nextSeq⟩],
      e ∈ s.rows ∨ e = ⟨eventId, projectId, s.nextSeq⟩ := by
    intro e he
    rcases mem_append.mp he with hmem | hmem
    · exact .inl hmem
    · exact .inr (mem_singleton.mp hmem)
  refine ⟨?_, ?_, ?_, Nat.succ_pos _⟩
  · simp only [State.rows, map_append, map_cons, map_nil, ← append_assoc]
    rw [← map_append]
    refine List.Nodup.append h.distinct (nodup_singleton _) ?_
    intro n hn hlast
    obtain ⟨e, he, rfl⟩ := mem_map.mp hn
    have := h.fresh e he
    rw [mem_singleton] at hlast
    change e.seq = s.nextSeq at hlast
    omega
  · intro e he
    simp only [State.rows, map_append, map_cons, map_nil, ← append_assoc] at he
    rcases hrows e he with hmem | rfl
    · exact h.pos e hmem
    · exact h.next_pos
  · intro e he
    simp only [State.rows, map_append, map_cons, map_nil, ← append_assoc] at he
    rcases hrows e he with hmem | rfl
    · exact Nat.lt_succ_of_lt (h.fresh e hmem)
    · exact Nat.lt_succ_self _

theorem rows_split (s : State τ) (tx : τ) :
    (s.rowsOf tx ++ (s.endTransaction tx).staged.map Prod.snd).Perm (s.staged.map Prod.snd) := by
  rw [State.rowsOf, State.endTransaction, ← map_append]
  refine List.Perm.map _ ?_
  have := filter_append_perm (fun row : τ × Event => decide (row.1 = tx)) s.staged
  simpa using this

theorem rows_commit (s : State τ) (tx : τ) :
    ({ s.endTransaction tx with committed := s.committed ++ s.rowsOf tx } : State τ).rows.Perm
      s.rows := by
  simp only [State.rows, append_assoc]
  exact List.Perm.append_left _ (rows_split s tx)

theorem rows_abort (s : State τ) (tx) : (s.endTransaction tx).rows.Subperm s.rows :=
  ((List.Sublist.refl s.committed).append (filter_sublist.map Prod.snd)).subperm

theorem tableInv_step (h : TableInv s) (hstep : step R s a = some t) : TableInv t := by
  cases a with
  | stage tx eventId projectId =>
    cases hstep
    exact h.stageEvent tx eventId projectId
  | commit tx =>
    simp only [step] at hstep
    split at hstep
    · cases hstep
      exact h.subperm (rows_commit s tx).subperm rfl
    · cases hstep
  | abort tx =>
    cases hstep
    exact h.subperm (rows_abort s tx) rfl
  | read =>
    cases hstep
    exact ⟨h.distinct, h.pos, h.fresh, h.next_pos⟩

omit [DecidableEq τ] in
theorem mem_page (h : TableInv s) : e ∈ R.page s ↔ e ∈ R.unread s ∧
      ((R.unread s).filter fun f => f.seq < e.seq).length < R.limit :=
  Paging.mem_page_iff (h.project_nodup R.projectId)

omit [DecidableEq τ] in
theorem page_unread (he : e ∈ R.page s) : e ∈ R.unread s := Paging.mem_past_of_mem_page he

omit [DecidableEq τ] in
theorem ReadInv.read (ht : TableInv s) (h : ReadInv R s) :
    ReadInv R { s with received := s.received ++ R.page s } where
  sound := by
    intro e he
    rcases mem_append.mp he with hmem | hmem
    · exact h.sound e hmem
    · obtain ⟨hcommitted, hfollows, -⟩ := mem_unread.mp (page_unread hmem)
      exact ⟨hcommitted, hfollows⟩
  once := by
    have hsorted : (R.page s).Pairwise fun a b => a.seq < b.seq :=
      Paging.page_sorted (ht.project_nodup R.projectId)
    have hpage : ((R.page s).map Event.seq).Nodup :=
      pairwise_map.mpr (hsorted.imp fun hlt => hlt.ne)
    rw [map_append]
    refine List.Nodup.append h.once hpage ?_
    intro n hn hn'
    obtain ⟨r, hr, rfl⟩ := mem_map.mp hn
    obtain ⟨e, he, hseq⟩ := mem_map.mp hn'
    obtain ⟨-, -, hpast⟩ := mem_unread.mp (page_unread he)
    have := hpast r hr
    omega
  noGap := by
    rintro e he hfollows ⟨r, hr, hle⟩
    by_cases hold : ∃ r ∈ s.received, e.seq ≤ r.seq
    · exact mem_append_left _ (h.noGap e he hfollows hold)
    push Not at hold
    have hunread : e ∈ R.unread s := mem_unread.mpr ⟨he, hfollows, hold⟩
    rcases mem_append.mp hr with hmem | hmem
    · have := hold r hmem
      omega
    · exact mem_append_right _
        (Paging.mem_page_of_le (ht.project_nodup R.projectId) hmem hunread hle)

theorem logInv_step (h : LogInv R s)
    (hsettled : Settled R s a) (hstep : step R s a = some t) : LogInv R t := by
  refine ⟨tableInv_step h.table hstep, ?_, ?_⟩
  · cases a with
    | stage tx eventId projectId =>
      cases hstep
      unfold State.stageEvent
      split
      · exact h.reads
      · exact ⟨h.reads.sound, h.reads.once, h.reads.noGap⟩
    | commit tx =>
      simp only [step] at hstep
      split at hstep
      · cases hstep
        refine ⟨?_, h.reads.once, ?_⟩
        · intro e he
          obtain ⟨hmem, hfollows⟩ := h.reads.sound e he
          exact ⟨mem_append_left _ hmem, hfollows⟩
        -- a row that becomes visible is above everything received
        rintro e he hfollows ⟨r, hr, hle⟩
        rcases mem_append.mp he with hmem | hmem
        · exact h.reads.noGap e hmem hfollows ⟨r, hr, hle⟩
        · obtain ⟨row, hrow, rfl⟩ := mem_map.mp hmem
          have := h.ahead row (mem_of_mem_filter hrow) hfollows r hr
          omega
      · cases hstep
    | abort tx =>
      cases hstep
      exact ⟨h.reads.sound, h.reads.once, h.reads.noGap⟩
    | read =>
      cases hstep
      exact h.reads.read h.table
  · cases a with
    | stage tx eventId projectId =>
      cases hstep
      unfold State.stageEvent
      split
      · exact h.ahead
      intro row hrow hfollows r hr
      rcases mem_append.mp hrow with hmem | hmem
      · exact h.ahead row hmem hfollows r hr
      · rw [mem_singleton] at hmem
        subst hmem
        exact h.table.fresh r (mem_append_left _ (h.reads.sound r hr).1)
    | commit tx =>
      simp only [step] at hstep
      split at hstep
      · cases hstep
        exact fun row hrow => h.ahead row (mem_of_mem_filter hrow)
      · cases hstep
    | abort tx =>
      cases hstep
      exact fun row hrow => h.ahead row (mem_of_mem_filter hrow)
    | read =>
      cases hstep
      intro row hrow hfollows r hr
      rcases mem_append.mp hr with hmem | hmem
      · exact h.ahead row hrow hfollows r hmem
      · obtain ⟨hunread, hrank⟩ := (mem_page h.table).mp hmem
        exact hsettled row hrow hfollows r hunread hrank

/-! ## Every row, in finitely many reads -/

theorem grows (hstep : step R s a = some t) :
    (∀ e ∈ s.committed, e ∈ t.committed) ∧ (∀ e ∈ s.received, e ∈ t.received) ∧
      s.received.length ≤ t.received.length := by
  cases a with
  | stage tx eventId projectId =>
    cases hstep
    unfold State.stageEvent
    split <;> exact ⟨fun _ he => he, fun _ he => he, le_rfl⟩
  | commit tx =>
    simp only [step] at hstep
    split at hstep
    · cases hstep
      exact ⟨fun _ he => mem_append_left _ he, fun _ he => he, le_rfl⟩
    · cases hstep
  | abort tx =>
    cases hstep
    exact ⟨fun _ he => he, fun _ he => he, le_rfl⟩
  | read =>
    cases hstep
    exact ⟨fun _ he => he, fun _ he => mem_append_left _ he, by simp⟩

theorem received_mono {G} (h : Run (step R) G s as t) : ∀ e ∈ s.received, e ∈ t.received := by
  induction h with
  | nil s => exact fun _ he => he
  | cons guard fires rest ih => exact fun e he => ih e ((grows fires).2.1 e he)

omit [DecidableEq τ] in
theorem page_ne_nil (he : e ∈ R.unread s) : R.page s ≠ [] := by
  intro hnil
  have hshort : (R.page s).length < R.limit := by
    rw [hnil]
    exact R.limit_pos
  have : e ∈ R.page s := Paging.mem_page_of_short hshort he
  rw [hnil] at this
  cases this

theorem reads_le (h : Run (step R) (Settled R) s as t) (hs : LogInv R s) (he : e ∈ s.committed)
    (hfollows : R.follows e) :
    e ∈ t.received ∨ as.countP Act.isRead + s.received.length ≤ t.received.length := by
  induction h with
  | nil s => exact .inr (by simp)
  | @cons s u t a as guard fires rest ih =>
    obtain ⟨hgrow, -, hlen⟩ := grows fires
    rcases ih (logInv_step hs guard fires) (hgrow e he) with hin | hcount
    · exact .inl hin
    cases a with
    | read =>
      by_cases hunread : e ∈ R.unread s
      · right
        cases fires
        have hpos := length_pos_of_ne_nil (page_ne_nil hunread)
        simp only [length_append] at hcount
        rw [countP_cons_of_pos rfl]
        omega
      · left
        -- the reader has passed `e`, so it has received it
        rw [mem_unread] at hunread
        push Not at hunread
        have hin := hs.reads.noGap e he hfollows (hunread he hfollows)
        exact received_mono rest e ((grows fires).2.1 e hin)
    | stage | commit | abort =>
      right
      rw [countP_cons_of_neg (by simp [Act.isRead])]
      omega

omit [DecidableEq τ] in
theorem received_length_le (hs : ReadInv R s)
    (he : e ∈ s.committed) (hfollows : R.follows e) (hnot : e ∉ s.received) :
    s.received.length ≤ e.seq := by
  have hsub : s.received.map Event.seq ⊆ List.range e.seq := by
    intro n hn
    obtain ⟨r, hr, rfl⟩ := mem_map.mp hn
    rw [mem_range]
    by_contra hge
    exact hnot (hs.noGap e he hfollows ⟨r, hr, by omega⟩)
  have := (subperm_of_subset hs.once hsub).length_le
  simpa using this

/-- **No row is skipped**: in every run whose reads are settled, the
reader has received visible rows of its project only, each once; and a
visible row has been received after more reads than its seq. -/
theorem reads_exactly_once {R : Reader} {as : List (Act τ)} {s : State τ}
    (h : Run (step R) (Settled R) (State.initial τ) as s) : (s.received.map Event.seq).Nodup ∧
    (∀ e ∈ s.received, e ∈ s.committed ∧ R.follows e) ∧
    ∀ e ∈ s.committed, R.follows e → ∀ bs t, Run (step R) (Settled R) s bs t →
      e.seq < bs.countP Act.isRead → e ∈ t.received := by
  have hs : LogInv R s := h.invariant logInv_step (logInv_initial R)
  refine ⟨hs.reads.once, hs.reads.sound, ?_⟩
  intro e he hfollows bs t hrun hreads
  by_contra hnot
  have ht : LogInv R t := hrun.invariant logInv_step hs
  have hvisible : e ∈ t.committed := hrun.invariant (fun hin _ fires => (grows fires).1 e hin) he
  have hlen := received_length_le ht.reads hvisible hfollows hnot
  rcases reads_le hrun hs he hfollows with hin | hcount
  · exact hnot hin
  · omega

/-- The row is visible below the cursor and was not received. -/
structure Passed (e : Event) (s : State τ) : Prop where
  table : TableInv s
  visible : e ∈ s.committed
  below : ∃ r ∈ s.received, e.seq ≤ r.seq
  missed : e ∉ s.received

theorem passed_step (h : Passed e s) (hstep : step R s a = some t) : Passed e t := by
  obtain ⟨hcommitted, hreceived, -⟩ := grows hstep
  obtain ⟨r, hr, hle⟩ := h.below
  refine ⟨tableInv_step h.table hstep, hcommitted e h.visible, ⟨r, hreceived r hr, hle⟩, ?_⟩
  cases a with
  | stage tx eventId projectId =>
    cases hstep
    unfold State.stageEvent
    split <;> exact h.missed
  | commit tx =>
    simp only [step] at hstep
    split at hstep
    · cases hstep
      exact h.missed
    · cases hstep
  | abort tx =>
    cases hstep
    exact h.missed
  | read =>
    cases hstep
    intro hmem
    rcases mem_append.mp hmem with hmem | hmem
    · exact h.missed hmem
    · have := (mem_unread.mp (page_unread hmem)).2.2 r hr
      omega

theorem never_returned (h : Run (step R) Free s as t) (hs : Passed e s) : e ∉ t.received :=
  (h.invariant (fun hs _ fires => passed_step hs fires) hs).missed

def sampleProject : Uuid := ⟨"88888888-0000-4000-8000-000000000008"⟩

/-- A reader that starts from the beginning with the default page. -/
def sampleReader : Reader :=
  { projectId := sampleProject, afterSeq := none, limit := defaultLimit, limit_pos := by decide }

def firstId : Uuid := ⟨"e0000000-0000-4000-8000-000000000001"⟩

def secondId : Uuid := ⟨"e0000000-0000-4000-8000-000000000002"⟩

/-- Two transactions insert, and both commit before the reader reads. -/
theorem reads_exactly_once_two :
    ∃ s t, Run (step sampleReader) (Settled sampleReader) (State.initial Bool)
        [.stage false firstId sampleProject, .stage true secondId sampleProject, .commit true,
          .commit false] s ∧ Run (step sampleReader) (Settled sampleReader) s [.read, .read] t ∧
      (s.received.map Event.seq).Nodup ∧ ⟨firstId, sampleProject, 1⟩ ∈ t.received := by
  obtain ⟨s, hs, he⟩ : ∃ s, Run (step sampleReader) (Settled sampleReader) (State.initial Bool)
      [.stage false firstId sampleProject, .stage true secondId sampleProject, .commit true,
        .commit false] s ∧
      s = ⟨3, [⟨secondId, sampleProject, 2⟩, ⟨firstId, sampleProject, 1⟩], [], []⟩ :=
    ⟨_, Run.of_execWithin rfl, rfl⟩
  obtain ⟨t, ht⟩ : ∃ t, Run (step sampleReader) (Settled sampleReader) s [.read, .read] t := by
    subst he
    exact ⟨_, Run.of_execWithin rfl⟩
  obtain ⟨hnodup, -, hall⟩ := reads_exactly_once hs
  have hmem : ⟨firstId, sampleProject, 1⟩ ∈ s.committed := by
    subst he
    exact .tail _ (mem_singleton_self _)
  have hfollows : sampleReader.follows ⟨firstId, sampleProject, 1⟩ := ⟨rfl, nofun⟩
  exact ⟨s, t, hs, ht, hnodup, hall _ hmem hfollows _ t ht (by decide)⟩

/-- The transaction that inserted first commits last: the reader moves to
seq 2 in between, and no later read returns seq 1. -/
theorem skipped_by_late_commit : ∃ s, Run (step sampleReader) Free (State.initial Bool)
        [.stage false firstId sampleProject, .stage true secondId sampleProject, .commit true,
          .read, .commit false] s ∧ ⟨firstId, sampleProject, 1⟩ ∈ s.committed ∧
      ∀ as t, Run (step sampleReader) Free s as t → ⟨firstId, sampleProject, 1⟩ ∉ t.received := by
  obtain ⟨s, hs, he⟩ : ∃ s, Run (step sampleReader) Free (State.initial Bool)
      [.stage false firstId sampleProject, .stage true secondId sampleProject, .commit true,
        .read, .commit false] s ∧
      s = ⟨3, [⟨secondId, sampleProject, 2⟩, ⟨firstId, sampleProject, 1⟩], [],
        [⟨secondId, sampleProject, 2⟩]⟩ :=
    ⟨_, Run.of_execWithin rfl, rfl⟩
  have hmem : ⟨firstId, sampleProject, 1⟩ ∈ s.committed := by
    subst he
    exact .tail _ (mem_singleton_self _)
  refine ⟨s, hs, hmem, fun as t hrun => ?_⟩
  have htable : TableInv s := hs.invariant (fun h _ fires => tableInv_step h fires) tableInv_initial
  refine never_returned hrun ⟨htable, hmem, ?_, ?_⟩
  · subst he
    exact ⟨_, mem_singleton_self _, by decide⟩
  · subst he
    decide

/-! ## Any order of commits -/

/-- No event id is stored twice, or inserted twice by one transaction. -/
structure IdInv (s : State τ) : Prop where
  stored : (s.committed.map Event.id).Nodup
  inserted : ∀ tx, ((s.rowsOf tx).map Event.id).Nodup

theorem IdInv.endTransaction (h : IdInv s) (tx other) :
    (((s.endTransaction tx).rowsOf other).map Event.id).Nodup :=
  (h.inserted other).sublist (((filter_sublist.filter _).map _).map _)

theorem idInv_step (h : IdInv s) (hstep : step R s a = some t) : IdInv t := by
  cases a with
  | stage tx eventId projectId =>
    cases hstep
    unfold State.stageEvent
    split
    · exact h
    rename_i hnew
    refine ⟨h.stored, fun other => ?_⟩
    by_cases hother : tx = other
    · subst hother
      have hrows : ({ s with
          nextSeq := s.nextSeq + 1
          staged := s.staged ++ [(tx, ⟨eventId, projectId, s.nextSeq⟩)] } : State τ).rowsOf tx =
          s.rowsOf tx ++ [⟨eventId, projectId, s.nextSeq⟩] := by simp [State.rowsOf]
      rw [hrows, map_append]
      refine (h.inserted tx).append (nodup_singleton _) ?_
      intro id hid hlast
      obtain ⟨e, he, rfl⟩ := mem_map.mp hid
      exact hnew (any_eq_true.mpr ⟨e, mem_append_right _ he, by simpa using hlast⟩)
    · simpa [State.rowsOf, hother] using h.inserted other
  | commit tx =>
    simp only [step] at hstep
    split at hstep
    · rename_i hmay
      cases hstep
      refine ⟨?_, h.endTransaction tx⟩
      rw [map_append]
      refine h.stored.append (h.inserted tx) ?_
      intro id hold hnew
      obtain ⟨f, hf, rfl⟩ := mem_map.mp hold
      obtain ⟨e, he, heq⟩ := mem_map.mp hnew
      exact (hmay e he).1 f hf heq.symm
    · cases hstep
  | abort tx =>
    cases hstep
    exact ⟨h.stored, h.endTransaction tx⟩
  | read =>
    cases hstep
    exact ⟨h.stored, h.inserted⟩

theorem rises_step (ht : TableInv s) (h : s.received.Pairwise fun a b => a.seq < b.seq)
    (hstep : step R s a = some t) : t.received.Pairwise fun a b => a.seq < b.seq := by
  cases a with
  | read =>
    cases hstep
    exact pairwise_append.mpr ⟨h, Paging.page_sorted (ht.project_nodup R.projectId),
      fun r hr e he => (mem_unread.mp (page_unread he)).2.2 r hr⟩
  | stage =>
    cases hstep
    unfold State.stageEvent
    split <;> exact h
  | commit =>
    simp only [step] at hstep
    split at hstep <;> cases hstep
    exact h
  | abort =>
    cases hstep
    exact h

/-- **Whatever the order of the commits**, no event id and no seq is stored twice, and the reader
receives rising seqs. -/
theorem log_any_order (h : Run (step R) Free (State.initial τ) as s) :
    (s.committed.map Event.id).Nodup ∧ (s.committed.map Event.seq).Nodup ∧
      s.received.Pairwise fun a b => a.seq < b.seq := by
  obtain ⟨hids, htable, hrises⟩ :=
    h.invariant (I := fun s => IdInv s ∧ TableInv s ∧ s.received.Pairwise fun a b => a.seq < b.seq)
      (fun ⟨hids, htable, hrises⟩ _ hstep =>
        ⟨idInv_step hids hstep, tableInv_step htable hstep, rises_step htable hrises hstep⟩)
      ⟨⟨nodup_nil, fun _ => nodup_nil⟩, tableInv_initial, .nil⟩
  exact ⟨hids.stored, htable.committed_nodup, hrises⟩

theorem log_any_order_late : ∃ as s, Run (step sampleReader) Free (State.initial Bool) as s ∧
    s.received.length = 1 ∧ s.committed.length = 2 ∧ (s.committed.map Event.id).Nodup := by
  obtain ⟨s, hs, hreceived, hcommitted⟩ : ∃ s, Run (step sampleReader) Free (State.initial Bool)
      [.stage false firstId sampleProject, .stage true secondId sampleProject, .commit true,
        .read, .commit false] s ∧ s.received.length = 1 ∧ s.committed.length = 2 :=
    ⟨_, Run.of_execWithin rfl, rfl, rfl⟩
  exact ⟨_, s, hs, hreceived, hcommitted, (log_any_order hs).1⟩

end StudioOS.Events
