import StudioOS.Events.GapFree
import StudioOS.Events.Listener

/-!
# Events — Delivery

What the listener owes is on its way: while LISTEN is in effect, an owed event
that was not published stands in the queue of notifications, among the seqs
being read, or ahead of the catch-up (`State.pends`).
-/

namespace StudioOS.EventListener

open List Runs Events EventStream

variable {e : Event}

/-- Published events are committed, and remembered seqs are published. -/
structure HubInv (s : State) : Prop where
  distinct : (s.committed.map Event.seq).Nodup
  published : ∀ e ∈ s.published, e ∈ s.committed
  recent : ∀ n ∈ s.recentSeqs, ∃ e ∈ s.published, e.seq = n

theorem publishEvent_frame (s : State) (e) : ∃ recentSeqs published, s.publishEvent e =
      { s with recentSeqs := recentSeqs, published := s.published ++ published } := by
  unfold State.publishEvent
  split
  · exact ⟨s.recentSeqs, [], by rw [append_nil]⟩
  · exact ⟨_, [e], rfl⟩

theorem HubInv.publishEvent {s} (h : HubInv s) (he : e ∈ s.committed) :
    HubInv (s.publishEvent e) ∧ e ∈ (s.publishEvent e).published := by
  unfold State.publishEvent
  split
  · rename_i hrecent
    obtain ⟨f, hf, hseq⟩ := h.recent e.seq (of_decide_eq_true hrecent)
    obtain rfl := inj_on_of_nodup_map h.distinct (h.published f hf) he hseq
    exact ⟨h, hf⟩
  refine ⟨⟨h.distinct, ?_, ?_⟩, mem_append_right _ (mem_singleton_self e)⟩
  · intro f hf
    rcases mem_append.mp hf with hf | hf
    · exact h.published f hf
    · rwa [mem_singleton.mp hf]
  · intro n hn
    rcases mem_remember hn with hn | rfl
    · obtain ⟨f, hf, hseq⟩ := h.recent n hn
      exact ⟨f, mem_append_left _ hf, hseq⟩
    · exact ⟨e, mem_append_right _ (mem_singleton_self e), rfl⟩

theorem HubInv.publishRows {s : State} (h : HubInv s) {rows : List Event}
    (hrows : ∀ e ∈ rows, e ∈ s.committed) : HubInv (rows.foldl State.publishEvent s) ∧
    (∃ recentSeqs published, rows.foldl State.publishEvent s =
      { s with recentSeqs := recentSeqs, published := s.published ++ published }) ∧
    ∀ e ∈ rows, e ∈ (rows.foldl State.publishEvent s).published := by
  induction rows generalizing s with
  | nil => exact ⟨h, ⟨s.recentSeqs, [], by rw [append_nil]; rfl⟩, nofun⟩
  | cons row rows ih =>
    obtain ⟨hinv, hpublished⟩ := h.publishEvent (hrows row (.head _))
    obtain ⟨recentSeqs, published, hframe⟩ := publishEvent_frame s row
    have hrest : ∀ e ∈ rows, e ∈ (s.publishEvent row).committed := by
      rw [hframe]
      exact fun e he => hrows e (.tail _ he)
    obtain ⟨hlast, ⟨recentSeqs', published', hframe'⟩, hall⟩ := ih hinv hrest
    rw [foldl_cons]
    refine ⟨hlast, ⟨recentSeqs', published ++ published', ?_⟩, ?_⟩
    · rw [hframe', hframe, append_assoc]
    · intro e he
      rcases mem_cons.mp he with rfl | he
      · rw [hframe']
        exact mem_append_left _ hpublished
      · exact hall e he

theorem foldl_catchUpRow (s) (rows : List Event) : rows.foldl State.catchUpRow s =
      { rows.foldl State.publishEvent s with
        lastSeq := rows.foldl (fun _ row => some (row.seq : Int)) s.lastSeq } := by
  have hcomm : ∀ (s : State) (e : Event) (last : Option Int),
      State.publishEvent { s with lastSeq := last } e =
        { s.publishEvent e with lastSeq := last } := by
    intro s e last
    unfold State.publishEvent
    split <;> rfl
  have hpublish : ∀ (rows : List Event) (s : State) (last : Option Int),
      rows.foldl State.publishEvent { s with lastSeq := last } =
        { rows.foldl State.publishEvent s with lastSeq := last } := by
    intro rows
    induction rows with
    | nil => exact fun _ _ => rfl
    | cons row rows ih =>
      intro s last
      rw [foldl_cons, hcomm, ih, foldl_cons]
  induction rows generalizing s with
  | nil => rfl
  | cons row rows ih =>
    rw [foldl_cons, ih, State.catchUpRow, hpublish]
    rfl

theorem lastSeq_mem (rows : List Event) (last) :
    ∃ l, rows.foldl (fun _ row => some (row.seq : Int)) (some last) = some l ∧
      (l = last ∨ ∃ row ∈ rows, l = (row.seq : Int)) := by
  induction rows generalizing last with
  | nil => exact ⟨last, rfl, .inl rfl⟩
  | cons row rows ih =>
    obtain ⟨l, hl, hor⟩ := ih (row.seq : Int)
    refine ⟨l, hl, .inr ?_⟩
    rcases hor with rfl | ⟨row', hmem, rfl⟩
    · exact ⟨row, .head _, rfl⟩
    · exact ⟨row', .tail _ hmem, rfl⟩

/-! ## The invariant -/

/-- The event is on its way to the hub. -/
def State.pends (s : State) (e : Event) : Prop :=
  (e.seq : Int) ∈ s.notified ∨
    match s.phase with
    | .catchingUp => ∃ last ∈ s.lastSeq, last < e.seq
    | .reading wanted => (e.seq : Int) ∈ wanted
    | _ => False

/-- **The listener invariant**: what is owed and unpublished pends. -/
structure ListenInv (s : State) : Prop where
  hub : HubInv s
  owed : ∀ e ∈ s.owed, e ∈ s.committed
  connected : s.listening = true → s.phase ≠ .disconnected
  pending : s.listening = true → ∀ e ∈ s.owed, e ∉ s.published → s.pends e

theorem listenInv_initial : ListenInv State.initial where
  hub := ⟨nodup_nil, nofun, nofun⟩
  owed := nofun
  connected := fun h => by cases h
  pending := fun h => by cases h

variable {s t : State}

theorem ListenInv.commit (h : ListenInv s)
    (hnew : e.seq ∉ s.committed.map Event.seq) : ListenInv (s.commit e) where
  hub :=
    { distinct := by
        simp only [State.commit, map_append]
        exact h.hub.distinct.append (nodup_singleton _)
          fun n hn hmem => hnew (by rwa [← mem_singleton.mp hmem])
      published := fun f hf => mem_append_left _ (h.hub.published f hf)
      recent := h.hub.recent }
  owed := by
    intro f hf
    simp only [State.commit] at hf ⊢
    split at hf
    · rcases mem_append.mp hf with hf | hf
      · exact mem_append_left _ (h.owed f hf)
      · exact mem_append_right _ hf
    · exact mem_append_left _ (h.owed f hf)
  connected := h.connected
  pending := by
    intro hlistening f hf hnot
    change s.listening = true at hlistening
    have hnotified : (s.commit e).notified = s.notified ++ [(e.seq : Int)] := by
      rw [State.commit, hlistening]
      rfl
    have hor : f ∈ s.owed ∨ f = e := by
      simp only [State.commit] at hf
      split at hf
      · exact (mem_append.mp hf).imp_right mem_singleton.mp
      · exact .inl hf
    rcases hor with hf | rfl
    · refine (h.pending hlistening f hf hnot).imp_left fun hmem => ?_
      rw [hnotified]
      exact mem_append_left _ hmem
    · left
      rw [hnotified]
      exact mem_append_right _ (mem_singleton_self _)

theorem ListenInv.notify (h : ListenInv s) (payload) : ListenInv (s.notify payload) := by
  unfold State.notify
  split
  · refine ⟨⟨h.hub.distinct, h.hub.published, h.hub.recent⟩, h.owed, h.connected, ?_⟩
    intro hlistening e he hnot
    exact (h.pending hlistening e he hnot).imp_left (mem_append_left _)
  · exact h

theorem ListenInv.publishOwn (h : ListenInv s) (he : e ∈ s.committed) :
    ListenInv (s.publishEvent e) := by
  have hinv := (h.hub.publishEvent he).1
  obtain ⟨recentSeqs, published, hframe⟩ := publishEvent_frame s e
  rw [hframe] at hinv ⊢
  refine ⟨hinv, h.owed, h.connected, fun hlistening f hf hnot => ?_⟩
  exact h.pending hlistening f hf fun hmem => hnot (mem_append_left _ hmem)

theorem ListenInv.connect (h : ListenInv s) (hguard : CatchUpSuffices s .connect)
    (ht : s.connect = some t) : ListenInv t := by
  unfold State.connect at ht
  split at ht
  · cases ht
    refine ⟨⟨h.hub.distinct, h.hub.published, h.hub.recent⟩, h.owed,
      fun _ hphase => (by cases hphase), fun _ e he hnot => .inr ?_⟩
    exact hguard e he hnot
  · cases ht

theorem pends_past_batch (h : HubInv s) {last l : Int} (he : e ∈ s.committed)
    (hpast : last < e.seq) (hnot : e ∉ s.batch last)
    (hl : l = last ∨ ∃ row ∈ s.batch last, l = (row.seq : Int)) : l < e.seq := by
  rcases hl with rfl | ⟨row, hrow, rfl⟩
  · exact hpast
  by_contra hle
  have hdistinct : (s.committed.map fun e => (e.seq : Int)).Nodup := by
    have hcast : ((s.committed.map Event.seq).map (Nat.cast : Nat → Int)).Nodup :=
      h.distinct.map fun _ _ hcast => by omega
    rwa [map_map] at hcast
  refine hnot (Paging.mem_page_of_le hdistinct hrow (Paging.mem_past.mpr ⟨he, ?_⟩) (not_lt.mp hle))
  intro c hc
  cases hc
  exact hpast

theorem ListenInv.catchUp (h : ListenInv s) (ht : s.catchUp = some t) : ListenInv t := by
  unfold State.catchUp at ht
  split at ht
  · rename_i hphase
    have hpends : ∀ e, s.pends e ↔
        (e.seq : Int) ∈ s.notified ∨ ∃ last ∈ s.lastSeq, last < e.seq := by
      intro e
      rw [State.pends, hphase]
    split at ht
    · rename_i hlast
      cases ht
      refine ⟨⟨h.hub.distinct, h.hub.published, h.hub.recent⟩, h.owed,
        fun _ hphase => (by cases hphase), fun hlistening e he hnot => .inl ?_⟩
      rcases (hpends e).mp (h.pending hlistening e he hnot) with hmem | ⟨last, hmem, -⟩
      · exact hmem
      · rw [hlast] at hmem
        cases hmem
    rename_i last hlast
    have hrows : ∀ e ∈ s.batch last, e ∈ s.committed := fun e he =>
      (Paging.mem_past.mp (Paging.mem_past_of_mem_page he)).1
    obtain ⟨hinv, ⟨recentSeqs, published, hframe⟩, hall⟩ := h.hub.publishRows hrows
    obtain ⟨l, hl, hor⟩ := lastSeq_mem (s.batch last) last
    dsimp only at ht
    rw [foldl_catchUpRow, hlast, hl, hframe] at ht
    rw [hframe] at hinv hall
    -- an event that still waits is notified, or past this batch
    have hpending : s.listening = true → ∀ e ∈ s.owed, e ∉ s.published ++ published →
        (e.seq : Int) ∈ s.notified ∨ (e ∉ s.batch last ∧ last < e.seq) := by
      intro hlistening e he hnot
      have hnot' : e ∉ s.published := fun hmem => hnot (mem_append_left _ hmem)
      rcases (hpends e).mp (h.pending hlistening e he hnot') with hmem | ⟨l', hl', hpast⟩
      · exact .inl hmem
      · rw [hlast] at hl'
        cases hl'
        exact .inr ⟨fun hmem => hnot (hall e hmem), hpast⟩
    split at ht
    · rename_i hshort
      cases ht
      refine ⟨⟨hinv.distinct, hinv.published, hinv.recent⟩, h.owed,
        fun _ hphase => (by cases hphase), fun hlistening e he hnot => .inl ?_⟩
      rcases hpending hlistening e he hnot with hmem | ⟨hbatch, hpast⟩
      · exact hmem
      · refine absurd (Paging.mem_page_of_short hshort (Paging.mem_past.mpr ⟨h.owed e he, ?_⟩))
          hbatch
        intro c hc
        cases hc
        exact hpast
    · cases ht
      refine ⟨⟨hinv.distinct, hinv.published, hinv.recent⟩, h.owed, h.connected,
        fun hlistening e he hnot => ?_⟩
      rw [State.pends]
      rcases hpending hlistening e he hnot with hmem | ⟨hbatch, hpast⟩
      · exact .inl hmem
      · right
        simp only [hphase]
        exact ⟨l, rfl, pends_past_batch h.hub (h.owed e he) hpast hbatch hor⟩
  · cases ht

theorem mem_wanted {recentSeqs seqs seq} :
    seq ∈ wanted recentSeqs seqs ↔ seq ∈ seqs ∧ ∀ n ∈ recentSeqs, (n : Int) ≠ seq := by
  rw [wanted, mem_dedup, mem_filter, decide_eq_true_eq]

theorem wanted_of_taken (h : HubInv s) (he : e ∈ s.committed) (hnot : e ∉ s.published) {seqs}
    (hmem : (e.seq : Int) ∈ seqs) :
    (e.seq : Int) ∈ wanted s.recentSeqs seqs := by
  refine mem_wanted.mpr ⟨hmem, fun n hn heq => hnot ?_⟩
  obtain ⟨f, hf, rfl⟩ := h.recent n hn
  have hseq : f.seq = e.seq := by omega
  rwa [← inj_on_of_nodup_map h.distinct (h.published f hf) he hseq]

theorem ListenInv.take (h : ListenInv s) {count} (ht : s.take count = some t) : ListenInv t := by
  unfold State.take at ht
  split at ht
  · rename_i hphase
    dsimp only at ht
    split at ht
    · cases ht
    cases ht
    refine ⟨⟨h.hub.distinct, h.hub.published, h.hub.recent⟩, h.owed, ?_, ?_⟩
    · intro _ hdown
      dsimp only at hdown
      split at hdown <;> cases hdown
    intro hlistening e he hnot
    rw [State.pends]
    have hmem : (e.seq : Int) ∈ s.notified := by
      have hpends := h.pending hlistening e he hnot
      rw [State.pends, hphase] at hpends
      exact hpends.resolve_right id
    rw [← take_append_drop count s.notified, mem_append] at hmem
    rcases hmem with hmem | hmem
    · right
      have hwanted := wanted_of_taken h.hub (h.owed e he) hnot hmem
      dsimp only
      rw [if_neg (ne_nil_of_mem hwanted)]
      exact hwanted
    · exact .inl hmem
  · cases ht

theorem mem_rows {wanted} : e ∈ s.rows wanted ↔ e ∈ s.committed ∧ (e.seq : Int) ∈ wanted := by
  rw [State.rows, mem_insertionSort, mem_filter, decide_eq_true_eq]

theorem ListenInv.read (h : ListenInv s) (ht : s.read = some t) : ListenInv t := by
  unfold State.read at ht
  split at ht
  · rename_i wanted hphase
    obtain ⟨hinv, ⟨recentSeqs, published, hframe⟩, hall⟩ :=
      h.hub.publishRows fun e he => (mem_rows.mp he).1
    rw [hframe] at ht hinv hall
    cases ht
    refine ⟨⟨hinv.distinct, hinv.published, hinv.recent⟩, h.owed,
      fun _ hdown => (by cases hdown), fun hlistening e he hnot => .inl ?_⟩
    have hpends := h.pending hlistening e he fun hmem => hnot (mem_append_left _ hmem)
    rw [State.pends, hphase] at hpends
    refine hpends.resolve_right fun hwanted => hnot (hall e ?_)
    exact mem_rows.mpr ⟨h.owed e he, hwanted⟩
  · cases ht

theorem ListenInv.drop (h : ListenInv s) (notified phase) :
    ListenInv { s with listening := false, notified := notified, phase := phase } where
  hub := ⟨h.hub.distinct, h.hub.published, h.hub.recent⟩
  owed := h.owed
  connected := fun hdown => by cases hdown
  pending := fun hdown => by cases hdown

theorem listenInv_step {a} (h : ListenInv s) (hguard : CatchUpSuffices s a)
    (hstep : step s a = some t) : ListenInv t := by
  cases a with
  | commit e =>
    simp only [step] at hstep
    split at hstep
    · rename_i hnew
      cases hstep
      exact h.commit hnew
    · cases hstep
  | notify payload =>
    cases hstep
    exact h.notify payload
  | publishOwn e =>
    simp only [step] at hstep
    split at hstep
    · rename_i he
      cases hstep
      exact h.publishOwn he
    · cases hstep
  | connect => exact h.connect hguard hstep
  | catchUp => exact h.catchUp hstep
  | take count => exact h.take hstep
  | read => exact h.read hstep
  | lose received =>
    cases hstep
    exact h.drop _ s.phase
  | fail =>
    cases hstep
    exact h.drop [] .disconnected

/-! ## Draining -/

/-- The steps of the listener that take and publish notifications. -/
def Act.isDelivery : Act → Bool
  | .take _ | .read => true
  | _ => false

theorem published_of_drained (h : ListenInv s) (hlistening : s.listening = true)
    (hphase : s.phase = .idle) (hdrained : s.notified = []) : ∀ e ∈ s.owed, e ∈ s.published := by
  intro e he
  by_contra hnot
  have hpends := h.pending hlistening e he hnot
  rw [State.pends, hphase, hdrained] at hpends
  rcases hpends with hmem | hfalse
  · cases hmem
  · exact hfalse

theorem read_reading {wanted} (hphase : s.phase = .reading wanted) :
    ∃ t, s.read = some t ∧ t.listening = s.listening ∧ t.phase = .idle ∧
      t.notified = s.notified ∧ t.owed = s.owed := by
  have hsplit : ∀ (rows : List Event) (s : State),
      (rows.foldl State.publishEvent s).listening = s.listening ∧
      (rows.foldl State.publishEvent s).notified = s.notified ∧
      (rows.foldl State.publishEvent s).owed = s.owed := by
    intro rows
    induction rows with
    | nil => exact fun s => ⟨rfl, rfl, rfl⟩
    | cons row rows ih =>
      intro s
      obtain ⟨recentSeqs, published, hframe⟩ := publishEvent_frame s row
      rw [foldl_cons, hframe]
      exact ih _
  obtain ⟨hlistening, hnotified, howed⟩ := hsplit (s.rows wanted) s
  unfold State.read
  rw [hphase]
  exact ⟨_, rfl, hlistening, rfl, hnotified, howed⟩

theorem idle_drains (hphase : s.phase = .idle) :
    ∃ bs t, (∀ b ∈ bs, b.isDelivery = true) ∧ Run step CatchUpSuffices s bs t ∧
      t.listening = s.listening ∧ t.phase = .idle ∧ t.notified = [] ∧ t.owed = s.owed := by
  by_cases hnotified : s.notified = []
  · exact ⟨[], s, nofun, .nil s, rfl, hphase, hnotified, rfl⟩
  have htake : s.take s.notified.length = some { s with
      notified := []
      lastSeq := some (s.notified.foldl max (s.lastSeq.getD 0))
      phase := if wanted s.recentSeqs s.notified = [] then .idle
        else .reading (wanted s.recentSeqs s.notified) } := by
    unfold State.take
    rw [hphase]
    simp [take_length, if_neg hnotified, drop_length]
  by_cases hwanted : wanted s.recentSeqs s.notified = []
  · rw [if_pos hwanted] at htake
    exact ⟨[.take s.notified.length], _, by simp [Act.isDelivery],
      .cons trivial htake (.nil _), rfl, rfl, rfl, rfl⟩
  rw [if_neg hwanted] at htake
  obtain ⟨t, hread, hlistening, hidle, hempty, howed⟩ := @read_reading
    { s with
      notified := []
      lastSeq := some (s.notified.foldl max (s.lastSeq.getD 0))
      phase := .reading (wanted s.recentSeqs s.notified) } _ rfl
  exact ⟨[.take s.notified.length, .read], t, by simp [Act.isDelivery],
    .cons trivial htake (.cons trivial hread (.nil t)), hlistening, hidle, hempty, howed⟩

theorem connected_drains (h : ListenInv s) (hconn : s.connected) :
    ∃ bs t, (∀ b ∈ bs, b.isDelivery = true) ∧ Run step CatchUpSuffices s bs t ∧
      t.listening = true ∧ t.phase = .idle ∧ t.notified = [] ∧ t.owed = s.owed := by
  obtain ⟨hlistening, hcaughtUp⟩ := hconn
  cases hphase : s.phase with
  | disconnected => exact absurd hphase (h.connected hlistening)
  | catchingUp => exact absurd hphase hcaughtUp
  | idle =>
    obtain ⟨bs, t, hbs, hrun, hup, hidle, hempty, howed⟩ := idle_drains hphase
    exact ⟨bs, t, hbs, hrun, hup.trans hlistening, hidle, hempty, howed⟩
  | reading wanted =>
    obtain ⟨u, hread, hup, hidle, -, howed⟩ := read_reading hphase
    obtain ⟨bs, t, hbs, hrun, hup', hidle', hempty, howed'⟩ := idle_drains hidle
    refine ⟨.read :: bs, t, ?_, .cons trivial hread hrun, ?_, hidle', hempty, howed'.trans howed⟩
    · intro b hb
      rcases mem_cons.mp hb with rfl | hb
      · rfl
      · exact hbs b hb
    · rw [hup', hup, hlistening]

/-- **The listener loses nothing its catch-up lies ahead of**: in every run whose connections are
made with all that is owed above the last seq, a connected listener gets by its own steps to where
nothing is queued or being read, and then has published every event committed since it started. -/
theorem listener_publishes_owed {as : List Act}
    (h : Run step CatchUpSuffices State.initial as s) (hconn : s.connected) :
    (s.phase = .idle → s.notified = [] → ∀ e ∈ s.owed, e ∈ s.published) ∧
    ∃ bs t, (∀ b ∈ bs, b.isDelivery = true) ∧ Run step CatchUpSuffices s bs t ∧
      ∀ e ∈ s.owed, e ∈ t.published := by
  have hs : ListenInv s :=
    h.invariant (fun hs hguard hstep => listenInv_step hs hguard hstep) listenInv_initial
  refine ⟨published_of_drained hs hconn.1, ?_⟩
  obtain ⟨bs, t, hbs, hrun, hlistening, hidle, hempty, howed⟩ := connected_drains hs hconn
  have ht : ListenInv t := hrun.invariant (fun hs hguard hstep => listenInv_step hs hguard hstep) hs
  refine ⟨bs, t, hbs, hrun, fun e he => ?_⟩
  exact published_of_drained ht hlistening hidle hempty e (by rwa [howed])

/-- Seq 2 is notified; seq 3 commits while the listener is away. -/
def reconnectRun : List Act :=
  [.commit (sampleEvent 1), .connect, .catchUp, .commit (sampleEvent 2), .take 1, .read, .fail,
    .commit (sampleEvent 3), .connect, .catchUp]

theorem listener_publishes_owed_reconnect :
    ∃ s, Run step CatchUpSuffices State.initial reconnectRun s ∧
      s.owed = [sampleEvent 2, sampleEvent 3] ∧ ∀ e ∈ s.owed, e ∈ s.published := by
  obtain ⟨s, hs, he⟩ : ∃ s, Run step CatchUpSuffices State.initial reconnectRun s ∧
      s = ⟨[sampleEvent 1, sampleEvent 2, sampleEvent 3], [2, 3],
        [sampleEvent 2, sampleEvent 3], [sampleEvent 2, sampleEvent 3], true, true, [], some 3,
        .idle⟩ :=
    ⟨_, Run.of_execWithin rfl, rfl⟩
  have hconn : s.connected := by
    subst he
    exact ⟨rfl, nofun⟩
  have hdrained := (listener_publishes_owed hs hconn).1
  subst he
  exact ⟨_, hs, rfl, hdrained rfl rfl⟩

/-- The read of a notified event fails: the next catch-up starts above it,
and the listener waits without having published it. -/
theorem lost_by_failed_read : ∃ s, Run step Free State.initial
        [.connect, .catchUp, .commit (sampleEvent 1), .take 1, .fail, .connect, .catchUp] s ∧
      s.connected ∧ s.phase = .idle ∧ s.notified = [] ∧ sampleEvent 1 ∈ s.owed ∧
      sampleEvent 1 ∉ s.published :=
  ⟨_, Run.of_execWithin rfl, ⟨rfl, nofun⟩, rfl, rfl, by decide, by decide⟩

end StudioOS.EventListener
