import StudioOS.Events.Reads
import StudioOS.Events.Stream

/-!
# Events — GapFree

What a resumed stream sends. `deliver` is the live loop read as a function:
the events of a queue that one filter, started at a seq, lets through.
-/

namespace StudioOS.EventStream

open List Runs Events

variable {e : Event} {rest : List Item}

/-- The seq of the last event of the list, `c` when it is empty. -/
def endOf (c : Nat) (events : List Event) : Nat := events.foldl (fun _ e => e.seq) c

/-- What the live loop sends of a queue when the last seq sent is `last`. -/
def deliver (C : Client) : Nat → List Item → List Event
  | _, [] => []
  | last, .signal (.streamEvent e) :: items =>
    if e.projectId ≠ C.projectId ∨ e.seq ≤ last then deliver C last items
    else e :: deliver C e.seq items
  | last, _ :: items => deliver C last items

@[simp] theorem endOf_cons (c) (e) (l) : endOf c (e :: l) = endOf e.seq l := rfl

@[simp] theorem endOf_append (c) (l l') : endOf c (l ++ l') = endOf (endOf c l) l' := foldl_append

theorem le_endOf {c l} (hc : ∀ e ∈ l, c < e.seq)
    (hl : l.Pairwise fun a b => a.seq < b.seq) : c ≤ endOf c l ∧ ∀ e ∈ l, e.seq ≤ endOf c l := by
  induction l generalizing c with
  | nil => exact ⟨Nat.le_refl c, nofun⟩
  | cons a l ih =>
    rw [pairwise_cons] at hl
    obtain ⟨hself, hall⟩ := ih hl.1 hl.2
    have hca := hc a (.head _)
    rw [endOf_cons]
    refine ⟨by omega, ?_⟩
    intro e he
    rcases mem_cons.mp he with rfl | he
    · exact hself
    · exact hall e he

theorem endOf_lt {c n l} (hc : c < n) (hl : ∀ e ∈ l, e.seq < n) : endOf c l < n := by
  induction l generalizing c with
  | nil => exact hc
  | cons a l ih =>
    exact ih (hl a (.head _)) fun e he => hl e (.tail _ he)

theorem deliver_append (C) (last) (items items') :
    deliver C last (items ++ items') =
      deliver C last items ++ deliver C (endOf last (deliver C last items)) items' := by
  induction items generalizing last with
  | nil => rfl
  | cons item items ih =>
    cases item with
    | closed => exact ih last
    | signal signal =>
      cases signal with
      | accessRevoked | userRevalidation => exact ih last
      | streamEvent e =>
        simp only [cons_append, deliver]
        split
        · exact ih last
        · rw [ih, cons_append, endOf_cons]

theorem deliver_eq_nil {C last items}
    (h : ∀ e, .signal (.streamEvent e) ∈ items → e.projectId ≠ C.projectId ∨ e.seq ≤ last) :
    deliver C last items = [] := by
  induction items with
  | nil => rfl
  | cons item items ih =>
    have ih' := ih fun e he => h e (.tail _ he)
    cases item with
    | closed => exact ih'
    | signal signal =>
      cases signal with
      | accessRevoked | userRevalidation => exact ih'
      | streamEvent e =>
        rw [deliver, if_pos (h e (.head _))]
        exact ih'

/-- What the client has, is about to be sent, and will be let through of
its queue, when it started past `c`. -/
def State.todo (C : Client) (c : Nat) (s : State) : List Event :=
  s.frames ++ s.phase.rows ++ deliver C (endOf c (s.frames ++ s.phase.rows)) s.queue

/-- The log: seqs are distinct, and published events are committed. -/
structure HubInv (C : Client) (s : State) : Prop where
  distinct : (s.committed.map Event.seq).Nodup
  queued : ∀ e, .signal (.streamEvent e) ∈ s.queue → e ∈ s.committed
  recent : ∀ n ∈ s.recentSeqs, ∃ e ∈ s.committed, e.seq = n ∧
    (s.subscribed = true → s.phase.connected = true → C.visible e → e ∈ s.known)

/-- **The stream invariant** for a client that resumes past `c`. -/
structure StreamInv (C : Client) (c : Nat) (s : State) : Prop where
  hub : HubInv C s
  fresh : s.phase = .opening ∨ s.phase = .subscribed → s.frames = []
  ended : s.phase = .ended → s.subscribed = false
  sound : ∀ e ∈ s.known, e ∈ s.committed ∧ C.visible e
  sorted : s.known.Pairwise fun a b => a.seq < b.seq
  sent : s.frames <+: s.known
  reached : s.phase.connected = true → s.lastSeq = some (endOf c s.frames)
  pending : s.phase.connected = true → s.todo C c <+: s.known
  complete : s.phase.connected = true → s.subscribed = true → s.todo C c = s.known

theorem streamInv_initial (C) (c) : StreamInv C c State.initial where
  hub := ⟨nodup_nil, nofun, nofun⟩
  fresh := fun _ => rfl
  ended := fun h => by cases h
  sound := nofun
  sorted := .nil
  sent := nil_prefix
  reached := fun h => by cases h
  pending := fun h => by cases h
  complete := fun h => by cases h

variable {C : Client} {c : Nat} {s t : State}

/-- What the client should know ends at or above every event of it, and at
or above the cursor. -/
theorem StreamInv.le_end (h : StreamInv C c s) (hcursor : C.cursor = some c) :
    c ≤ endOf c s.known ∧ ∀ e ∈ s.known, e.seq ≤ endOf c s.known :=
  le_endOf (fun e he => (h.sound e he).2.2 c (by rw [hcursor]; rfl)) h.sorted

theorem visible_iff (hcursor : C.cursor = some c) (e) :
    C.visible e ↔ e.projectId = C.projectId ∧ c < e.seq := by
  simp [Client.visible, hcursor]

theorem todo_closed {subscribed recentSeqs known}
    (h : s.todo C c <+: known) : State.todo C c { s with
      subscribed := subscribed, queue := [.closed], recentSeqs := recentSeqs, known := known } <+:
        known := by
  have hnil : State.todo C c { s with
      subscribed := subscribed, queue := [.closed], recentSeqs := recentSeqs, known := known } =
        s.frames ++ s.phase.rows := append_nil _
  rw [hnil]
  exact (prefix_append _ _).trans h

/-! ## Steps of the hub -/

theorem StreamInv.commit (h : StreamInv C c s) (hnew : e.seq ∉ s.committed.map Event.seq) :
    StreamInv C c { s with committed := s.committed ++ [e] } where
  hub :=
    { distinct := by
        rw [map_append]
        exact h.hub.distinct.append (nodup_singleton _)
          fun n hn hmem => hnew (by rwa [← mem_singleton.mp hmem])
      queued := fun f hf => mem_append_left _ (h.hub.queued f hf)
      recent := fun n hn => by
        obtain ⟨f, hf, hseq, hknown⟩ := h.hub.recent n hn
        exact ⟨f, mem_append_left _ hf, hseq, hknown⟩ }
  fresh := h.fresh
  ended := h.ended
  sound := fun f hf => ⟨mem_append_left _ (h.sound f hf).1, (h.sound f hf).2⟩
  sorted := h.sorted
  sent := h.sent
  reached := h.reached
  pending := h.pending
  complete := h.complete

theorem StreamInv.fanOut_other (h : StreamInv C c s) {signal}
    (hother : ∀ e, signal ≠ .streamEvent e) : StreamInv C c (s.fanOut signal) := by
  have hnil : ∀ last, deliver C last [.signal signal] = [] := by
    intro last
    refine deliver_eq_nil fun e he => ?_
    rw [mem_singleton, Item.signal.injEq] at he
    exact absurd he.symm (hother e)
  unfold State.fanOut
  split
  · split
    · have htodo : State.todo C c { s with queue := s.queue ++ [.signal signal] } =
          s.todo C c := by
        simp [State.todo, deliver_append, hnil]
      refine ⟨⟨h.hub.distinct, ?_, h.hub.recent⟩, h.fresh, h.ended, h.sound, h.sorted, h.sent,
        h.reached, ?_, ?_⟩
      · intro e he
        rcases mem_append.mp he with he | he
        · exact h.hub.queued e he
        · rw [mem_singleton, Item.signal.injEq] at he
          exact absurd he.symm (hother e)
      · rw [htodo]
        exact h.pending
      · rw [htodo]
        exact h.complete
    · refine ⟨⟨h.hub.distinct, ?_, ?_⟩, h.fresh, fun _ => rfl, h.sound, h.sorted, h.sent,
        h.reached, ?_, fun _ hsub => by cases hsub⟩
      · intro e he
        cases mem_singleton.mp he
      · intro n hn
        obtain ⟨e, he, hseq, -⟩ := h.hub.recent n hn
        exact ⟨e, he, hseq, fun hsub => by cases hsub⟩
      · exact fun hconn => todo_closed (h.pending hconn)
  · exact h

theorem newlyKnown_spec {f} (horder : InOrder C s (.publish (.streamEvent e)))
    (hf : f ∈ s.newlyKnown C e) :
    f = e ∧ s.subscribed = true ∧ s.phase.connected = true ∧ C.visible e ∧ e ∉ s.known ∧
      ∀ k ∈ s.known, k.seq < e.seq := by
  unfold State.newlyKnown at hf
  split at hf
  · rename_i hnew
    obtain ⟨hsub, hconn, hvis, hnot⟩ := hnew
    refine ⟨mem_singleton.mp hf, hsub, hconn, hvis, hnot, ?_⟩
    exact (horder hsub hconn hvis).resolve_left hnot
  · cases hf

/-- **The filter agrees with the history**: behind everything known, it
lets an event through exactly when the event is news. -/
theorem deliver_published (h : StreamInv C c s) (hcursor : C.cursor = some c)
    (hsub : s.subscribed = true) (hconn : s.phase.connected = true)
    (horder : InOrder C s (.publish (.streamEvent e))) :
    deliver C (endOf c s.known) [.signal (.streamEvent e)] = s.newlyKnown C e := by
  obtain ⟨hc, hall⟩ := h.le_end hcursor
  by_cases hvis : C.visible e
  · obtain ⟨hproject, hpast⟩ := (visible_iff hcursor e).mp hvis
    by_cases hknown : e ∈ s.known
    · rw [State.newlyKnown, if_neg (by simp [hknown]), deliver, if_pos (.inr (hall e hknown))]
      rfl
    have habove := (horder hsub hconn hvis).resolve_left hknown
    have hlt : endOf c s.known < e.seq := endOf_lt hpast habove
    rw [State.newlyKnown, if_pos ⟨hsub, hconn, hvis, hknown⟩, deliver, if_neg]
    · rfl
    · rintro (hne | hle)
      · exact hne hproject
      · omega
  · rw [State.newlyKnown, if_neg (by simp [hvis]), deliver, if_pos]
    · rfl
    rw [visible_iff hcursor] at hvis
    by_cases hproject : e.projectId = C.projectId
    · right
      have : ¬ c < e.seq := fun hlt => hvis ⟨hproject, hlt⟩
      omega
    · exact .inl hproject

theorem StreamInv.record (h : StreamInv C c s) (he : e ∈ s.committed)
    (horder : InOrder C s (.publish (.streamEvent e))) :
    (∀ f ∈ s.known ++ s.newlyKnown C e, f ∈ s.committed ∧ C.visible f) ∧
    (s.known ++ s.newlyKnown C e).Pairwise (fun a b => a.seq < b.seq) := by
  constructor
  · intro f hf
    rcases mem_append.mp hf with hf | hf
    · exact h.sound f hf
    · obtain ⟨rfl, -, -, hvis, -⟩ := newlyKnown_spec horder hf
      exact ⟨he, hvis⟩
  · rw [pairwise_append]
    refine ⟨h.sorted, ?_, ?_⟩
    · unfold State.newlyKnown
      split
      · exact pairwise_singleton _ _
      · exact .nil
    · intro k hk f hf
      obtain ⟨rfl, -, -, -, -, habove⟩ := newlyKnown_spec horder hf
      exact habove k hk

theorem recent_published (h : HubInv C s) (he : e ∈ s.committed) {n}
    (hn : n ∈ remember s.recentSeqs e.seq) :
    ∃ f ∈ s.committed, f.seq = n ∧ (s.subscribed = true → s.phase.connected = true →
      C.visible f → f ∈ s.known ++ s.newlyKnown C e) := by
  rcases mem_remember hn with hn | rfl
  · obtain ⟨f, hf, hseq, hknown⟩ := h.recent n hn
    exact ⟨f, hf, hseq, fun hsub hconn hvis => mem_append_left _ (hknown hsub hconn hvis)⟩
  refine ⟨e, he, rfl, fun hsub hconn hvis => ?_⟩
  by_cases hin : e ∈ s.known
  · exact mem_append_left _ hin
  · refine mem_append_right _ ?_
    rw [State.newlyKnown, if_pos ⟨hsub, hconn, hvis, hin⟩]
    exact mem_singleton_self e

theorem newlyKnown_of_recent (h : HubInv C s) (he : e ∈ s.committed)
    (hrecent : e.seq ∈ s.recentSeqs) : s.newlyKnown C e = [] := by
  obtain ⟨f, hf, hseq, hknown⟩ := h.recent e.seq hrecent
  obtain rfl : f = e := inj_on_of_nodup_map h.distinct hf he hseq
  rw [State.newlyKnown, if_neg]
  rintro ⟨hsub, hconn, hvis, hnot⟩
  exact hnot (hknown hsub hconn hvis)

theorem todo_published (h : StreamInv C c s) (hcursor : C.cursor = some c)
    (hsub : s.subscribed = true) (hconn : s.phase.connected = true)
    (horder : InOrder C s (.publish (.streamEvent e))) :
    State.todo C c { s with queue := s.queue ++ [.signal (.streamEvent e)] } =
      s.known ++ s.newlyKnown C e := by
  have htodo := h.complete hconn hsub
  have hend : endOf c s.known = endOf (endOf c (s.frames ++ s.phase.rows))
      (deliver C (endOf c (s.frames ++ s.phase.rows)) s.queue) := by
    rw [← htodo, State.todo, endOf_append]
  rw [← deliver_published h hcursor hsub hconn horder, hend, ← htodo]
  simp [State.todo, deliver_append, append_assoc]

theorem StreamInv.publish (h : StreamInv C c s) (hcursor : C.cursor = some c)
    (he : e ∈ s.committed) (horder : InOrder C s (.publish (.streamEvent e))) :
    StreamInv C c (s.publish C (.streamEvent e)) := by
  obtain ⟨hsound, hsorted⟩ := h.record he horder
  have hgrow : s.known <+: s.known ++ s.newlyKnown C e := prefix_append _ _
  unfold State.publish
  dsimp only
  split
  · -- published already: the history stands
    rename_i hrecent
    have hsame : s.record C e = s := by
      rw [State.record, newlyKnown_of_recent h.hub he (of_decide_eq_true hrecent), append_nil]
    rw [hsame]
    exact h
  have hrecent := fun n (hn : n ∈ remember s.recentSeqs e.seq) =>
    recent_published h.hub he hn
  unfold State.fanOut
  split
  · rename_i hsub
    change s.subscribed = true at hsub
    split
    · have hnext := fun hconn => todo_published h hcursor hsub hconn horder
      refine ⟨⟨h.hub.distinct, ?_, hrecent⟩, h.fresh, h.ended, hsound, hsorted,
        h.sent.trans hgrow, h.reached, fun hconn => ?_, fun hconn _ => hnext hconn⟩
      · intro f hf
        rcases mem_append.mp hf with hf | hf
        · exact h.hub.queued f hf
        · cases mem_singleton.mp hf
          exact he
      · exact (hnext hconn) ▸ prefix_rfl
    · refine ⟨⟨h.hub.distinct, fun f hf => ?_, fun n hn => ?_⟩, h.fresh, fun _ => rfl, hsound,
        hsorted, h.sent.trans hgrow, h.reached, fun hconn => ?_, fun _ hsub => by cases hsub⟩
      · cases mem_singleton.mp hf
      · obtain ⟨f, hf, hseq, -⟩ := hrecent n hn
        exact ⟨f, hf, hseq, fun hsub => by cases hsub⟩
      · exact todo_closed ((h.pending hconn).trans hgrow)
  · rename_i hsub
    change ¬ s.subscribed = true at hsub
    refine ⟨⟨h.hub.distinct, h.hub.queued, hrecent⟩, h.fresh, h.ended, hsound, hsorted,
      h.sent.trans hgrow, h.reached, fun hconn => (h.pending hconn).trans hgrow,
      fun _ hsub' => absurd hsub' hsub⟩

/-! ## Steps of the handler -/

theorem StreamInv.close (h : StreamInv C c s) (hrest : rest ⊆ s.queue) :
    StreamInv C c (State.close { s with queue := rest }) where
  hub :=
    { distinct := h.hub.distinct
      queued := fun e he => h.hub.queued e (hrest he)
      recent := fun n hn => by
        obtain ⟨e, he, hseq, -⟩ := h.hub.recent n hn
        exact ⟨e, he, hseq, fun hsub => by cases hsub⟩ }
  fresh := by rintro (hphase | hphase) <;> cases hphase
  ended := fun _ => rfl
  sound := h.sound
  sorted := h.sorted
  sent := h.sent
  reached := fun h => by cases h
  pending := fun h => by cases h
  complete := fun h => by cases h

theorem StreamInv.subscribe (h : StreamInv C c s) (ht : s.subscribe = some t) :
    StreamInv C c t := by
  unfold State.subscribe at ht
  split at ht
  · rename_i hphase
    cases ht
    refine ⟨⟨h.hub.distinct, h.hub.queued, fun n hn => ?_⟩, fun _ => h.fresh (.inl hphase),
      fun hended => (by cases hended), h.sound, h.sorted, h.sent, fun hconn => (by cases hconn),
      fun hconn => (by cases hconn), fun hconn => (by cases hconn)⟩
    obtain ⟨e, he, hseq, -⟩ := h.hub.recent n hn
    exact ⟨e, he, hseq, fun _ hconn => by cases hconn⟩
  · cases ht

theorem mem_visibleNow : e ∈ s.visibleNow C ↔ e ∈ s.committed ∧ C.visible e := by
  rw [State.visibleNow, mem_insertionSort, Paging.mem_past, mem_filter,
    decide_eq_true_eq, Client.visible]
  tauto

theorem backlog_eq (hcursor : C.cursor = some c) (hfits : (s.visibleNow C).length ≤ defaultLimit) :
    listEventsAfter s.committed C.projectId (some c) defaultLimit = s.visibleNow C := by
  rw [State.visibleNow, hcursor] at hfits ⊢
  rw [listEventsAfter, Paging.page, take_of_length_le hfits]

/-- Behind the backlog, the filter lets through nothing that was queued
before the query. -/
theorem todo_queried (h : HubInv C s) (hcursor : C.cursor = some c) (hframes : s.frames = []) :
    State.todo C c { s with phase := .sending (s.visibleNow C) } = s.visibleNow C := by
  have hsorted : (s.visibleNow C).Pairwise fun a b => a.seq < b.seq :=
    Paging.sorted_past (h.distinct.sublist (filter_sublist.map _))
  have hpast : ∀ e ∈ s.visibleNow C, c < e.seq := fun e he =>
    ((visible_iff hcursor e).mp (mem_visibleNow.mp he).2).2
  obtain ⟨hc, hall⟩ := le_endOf hpast hsorted
  rw [State.todo, hframes]
  refine (congrArg _ (deliver_eq_nil fun e he => ?_)).trans (append_nil _)
  change _ ∨ e.seq ≤ endOf c (s.visibleNow C)
  by_cases hvis : C.visible e
  · exact .inr (hall e (mem_visibleNow.mpr ⟨h.queued e he, hvis⟩))
  rw [visible_iff hcursor] at hvis
  by_cases hproject : e.projectId = C.projectId
  · right
    have : ¬ c < e.seq := fun hlt => hvis ⟨hproject, hlt⟩
    omega
  · exact .inl hproject

theorem StreamInv.query (h : StreamInv C c s) (hcursor : C.cursor = some c)
    (horder : InOrder C s .query) (ht : s.query C = some t) : StreamInv C c t := by
  unfold State.query at ht
  split at ht
  · rename_i hphase
    rw [hcursor] at ht
    cases ht
    have hframes : s.frames = [] := h.fresh (.inr hphase)
    have htodo := todo_queried h.hub hcursor hframes
    rw [backlog_eq hcursor horder]
    refine ⟨⟨h.hub.distinct, h.hub.queued, fun n hn => ?_⟩, ?_, fun hended => (by cases hended),
      fun e he => mem_visibleNow.mp he,
      Paging.sorted_past (h.hub.distinct.sublist (filter_sublist.map _)), ?_, ?_,
      fun _ => ⟨[], (append_nil _).trans htodo⟩, fun _ _ => htodo⟩
    · obtain ⟨e, he, hseq, -⟩ := h.hub.recent n hn
      exact ⟨e, he, hseq, fun _ _ hvis => mem_visibleNow.mpr ⟨he, hvis⟩⟩
    · rintro (hphase | hphase) <;> cases hphase
    · rw [hframes]
      exact nil_prefix
    · intro _
      rw [hframes]
      rfl
  · cases ht

theorem StreamInv.sendRow (h : StreamInv C c s) (ht : s.sendRow = some t) : StreamInv C c t := by
  unfold State.sendRow at ht
  split at ht
  · -- the end of the backlog
    rename_i hphase
    cases ht
    have hconn : s.phase.connected = true := by rw [hphase]; rfl
    have htodo : State.todo C c { s with phase := .live } = s.todo C c := by
      rw [State.todo, State.todo, hphase]
      rfl
    refine ⟨⟨h.hub.distinct, h.hub.queued, fun n hn => ?_⟩, ?_, fun hended => (by cases hended),
      h.sound, h.sorted, h.sent, fun _ => h.reached hconn, fun _ => ?_, fun _ hsub => ?_⟩
    · obtain ⟨e, he, hseq, hknown⟩ := h.hub.recent n hn
      exact ⟨e, he, hseq, fun hsub _ => hknown hsub hconn⟩
    · rintro (hphase | hphase) <;> cases hphase
    · rw [htodo]
      exact h.pending hconn
    · rw [htodo]
      exact h.complete hconn hsub
  · -- the next row of the backlog
    rename_i row rows hphase
    cases ht
    have hconn : s.phase.connected = true := by rw [hphase]; rfl
    have htodo : State.todo C c { s with phase := .sending rows, frames := s.frames ++ [row] } =
        s.todo C c := by
      rw [State.todo, State.todo, hphase]
      simp [Phase.rows, append_assoc, singleton_append]
    refine ⟨⟨h.hub.distinct, h.hub.queued, fun n hn => ?_⟩, ?_, fun hended => (by cases hended),
      h.sound, h.sorted, ?_, fun _ => ?_, fun _ => ?_, fun _ hsub => ?_⟩
    · obtain ⟨e, he, hseq, hknown⟩ := h.hub.recent n hn
      exact ⟨e, he, hseq, fun hsub _ => hknown hsub hconn⟩
    · rintro (hphase | hphase) <;> cases hphase
    · refine List.IsPrefix.trans ?_ (h.pending hconn)
      rw [← htodo, State.todo, append_assoc]
      exact prefix_append _ _
    · rw [endOf_append]
      rfl
    · exact htodo ▸ h.pending hconn
    · exact htodo.trans (h.complete hconn hsub)
  · cases ht

/-- Taking from the queue what changes nothing but the queue, and sends
nothing. -/
theorem StreamInv.drop (h : StreamInv C c s) {item} (hphase : s.phase = .live)
    (hqueue : s.queue = item :: rest)
    (hnil : deliver C (endOf c s.frames) [item] = []) : StreamInv C c { s with queue := rest } := by
  have hconn : s.phase.connected = true := by rw [hphase]; rfl
  have htodo : State.todo C c { s with queue := rest } = s.todo C c := by
    have hcons := deliver_append C (endOf c s.frames) [item] rest
    rw [hnil] at hcons
    simp only [State.todo, hphase, hqueue, Phase.rows, append_nil]
    exact congrArg _ hcons.symm
  refine ⟨⟨h.hub.distinct, fun e he => h.hub.queued e ?_, h.hub.recent⟩, h.fresh, h.ended,
    h.sound, h.sorted, h.sent, h.reached, ?_, ?_⟩
  · rw [hqueue]
    exact .tail _ he
  · rw [htodo]
    exact h.pending
  · rw [htodo]
    exact h.complete

theorem StreamInv.forward (h : StreamInv C c s)
    (hphase : s.phase = .live) (hqueue : s.queue = .signal (.streamEvent e) :: rest) :
    StreamInv C c (State.forward C { s with queue := rest } e) := by
  have hconn : s.phase.connected = true := by rw [hphase]; rfl
  have hreached := h.reached hconn
  unfold State.forward
  split
  · rename_i hproject
    exact h.drop hphase hqueue (if_pos (.inl hproject))
  rename_i hproject
  split
  · rename_i hle
    rw [hreached, Option.any_some, decide_eq_true_eq] at hle
    exact h.drop hphase hqueue (if_pos (.inr hle))
  rename_i hlt
  rw [hreached, Option.any_some, decide_eq_true_eq] at hlt
  have htodo : State.todo C c { s with queue := rest, frames := s.frames ++ [e] } =
      s.todo C c := by
    simp only [State.todo, hphase, hqueue, Phase.rows, append_nil, deliver, endOf_append,
      if_neg (not_or.mpr ⟨hproject, hlt⟩), append_assoc, singleton_append]
    rfl
  refine ⟨⟨h.hub.distinct, fun f hf => h.hub.queued f ?_, h.hub.recent⟩, ?_, h.ended,
    h.sound, h.sorted, ?_, fun _ => ?_, fun _ => ?_, fun _ hsub => ?_⟩
  · rw [hqueue]
    exact .tail _ hf
  · rw [hphase]
    rintro (hphase | hphase) <;> cases hphase
  · refine List.IsPrefix.trans ?_ (h.pending hconn)
    rw [← htodo, State.todo, append_assoc]
    exact prefix_append _ _
  · rw [endOf_append]
    rfl
  · exact htodo ▸ h.pending hconn
  · exact htodo.trans (h.complete hconn hsub)

theorem StreamInv.receive (h : StreamInv C c s) {due stillValid}
    (ht : s.receive C due stillValid = some t) : StreamInv C c t := by
  unfold State.receive at ht
  split at ht
  · split at ht
    · cases ht
      exact h.close (List.Subset.refl s.queue)
    · cases ht
      exact h
  · rename_i item rest hphase hqueue
    have hrest : rest ⊆ s.queue := by
      rw [hqueue]
      exact subset_cons_self item rest
    cases item with
    | closed =>
      cases ht
      exact h.close hrest
    | signal signal =>
      cases signal with
      | accessRevoked | userRevalidation =>
        dsimp only at ht
        split at ht
        · cases ht
          exact h.close hrest
        · cases ht
          exact h.drop hphase hqueue rfl
      | streamEvent e =>
        dsimp only at ht
        split at ht
        · -- the event is given up together with the stream
          cases ht
          exact h.close hrest
        · cases ht
          exact h.forward hphase hqueue
  · cases ht

theorem streamInv_step (hcursor : C.cursor = some c) {a} (h : StreamInv C c s)
    (horder : InOrder C s a) (hstep : step C s a = some t) : StreamInv C c t := by
  cases a with
  | commit e =>
    simp only [step] at hstep
    split at hstep
    · rename_i hnew
      cases hstep
      exact h.commit hnew
    · cases hstep
  | publish signal =>
    cases signal with
    | accessRevoked | userRevalidation =>
      cases hstep
      exact h.fanOut_other nofun
    | streamEvent e =>
      simp only [step] at hstep
      split at hstep
      · rename_i he
        cases hstep
        exact h.publish hcursor he horder
      · cases hstep
  | subscribe => exact h.subscribe hstep
  | query => exact h.query hcursor horder hstep
  | sendRow => exact h.sendRow hstep
  | receive due stillValid => exact h.receive hstep
  | disconnect =>
    cases hstep
    exact h.close (List.Subset.refl s.queue)

/-- **A resumed stream is gap-free in order**: in every run whose publications come in order and
whose backlog fits one page, the frames are the first of the visible events past the cursor, in
order; a live client whose queue is drained has all that were published. -/
theorem resume_gap_free {C : Client} {c : Nat} (hcursor : C.cursor = some c) {as : List Act}
    {s : State} (h : Run (step C) (InOrder C) State.initial as s) :
    s.frames.Pairwise (fun a b => a.seq < b.seq) ∧ (∀ e ∈ s.frames, e ∈ s.committed ∧ C.visible e) ∧
    s.frames <+: s.known ∧ (s.phase = .live → s.subscribed = true → s.queue = [] →
      s.frames = s.known ∧ ((∀ e ∈ s.committed, C.visible e → e ∈ s.known) →
        ∀ e, e ∈ s.frames ↔ e ∈ s.committed ∧ C.visible e)) := by
  have hs : StreamInv C c s :=
    h.invariant (fun hs horder hstep => streamInv_step hcursor hs horder hstep)
      (streamInv_initial C c)
  refine ⟨hs.sorted.sublist hs.sent.sublist, fun e he => hs.sound e (hs.sent.subset he), hs.sent,
    fun hlive hsub hdrained => ?_⟩
  have hall : s.frames = s.known := by
    have htodo := hs.complete (by rw [hlive]; rfl) hsub
    simpa only [State.todo, hlive, hdrained, Phase.rows, deliver, append_nil] using htodo
  refine ⟨hall, fun hpublished e => ⟨fun he => hs.sound e (hs.sent.subset he), fun he => ?_⟩⟩
  rw [hall]
  exact hpublished e he.1 he.2

def sampleEvent (seq : Nat) : Event :=
  { id := ⟨"e1000000-0000-4000-8000-000000000001"⟩, projectId := sampleProject, seq := seq }

/-- A client that has seen nothing yet. -/
def sampleClient : Client :=
  { userId := ⟨"99999999-0000-4000-8000-000000000009"⟩, projectId := sampleProject
    cursor := some 0 }

/-- One event is in the backlog and in the queue, one comes live. -/
def resumeRun : List Act :=
  [.subscribe, .commit (sampleEvent 1), .publish (.streamEvent (sampleEvent 1)), .query, .sendRow,
    .sendRow, .receive false true, .commit (sampleEvent 2),
    .publish (.streamEvent (sampleEvent 2)), .receive false true]

theorem resume_gap_free_two :
    ∃ s, Run (step sampleClient) (InOrder sampleClient) State.initial resumeRun s ∧
      s.frames = [sampleEvent 1, sampleEvent 2] ∧
      ∀ e, e ∈ s.frames ↔ e ∈ s.committed ∧ sampleClient.visible e := by
  obtain ⟨s, hs, he⟩ : ∃ s,
      Run (step sampleClient) (InOrder sampleClient) State.initial resumeRun s ∧
      s = ⟨[sampleEvent 1, sampleEvent 2], [1, 2], true, [], .live, some 2,
        [sampleEvent 1, sampleEvent 2], [sampleEvent 1, sampleEvent 2]⟩ :=
    ⟨_, Run.of_execWithin rfl, rfl⟩
  obtain ⟨-, -, -, hlive⟩ := resume_gap_free rfl hs
  subst he
  exact ⟨_, hs, rfl, (hlive rfl rfl rfl).2 fun e he _ => he⟩

/-- Seq 2 is published before seq 1 has committed: the live client is
drained, and has not received seq 1. -/
theorem late_publication_lost : ∃ s, Run (step sampleClient) Free State.initial
        [.subscribe, .query, .sendRow, .commit (sampleEvent 2),
          .publish (.streamEvent (sampleEvent 2)), .receive false true, .commit (sampleEvent 1),
          .publish (.streamEvent (sampleEvent 1)), .receive false true] s ∧
      s.phase = .live ∧ s.subscribed = true ∧ s.queue = [] ∧
      sampleEvent 1 ∈ s.committed ∧ sampleClient.visible (sampleEvent 1) ∧
      1 ∈ s.recentSeqs ∧ sampleEvent 1 ∉ s.frames :=
  ⟨_, Run.of_execWithin rfl, rfl, rfl, rfl, by decide, by decide, by decide, by decide⟩

end StudioOS.EventStream
