import StudioOS.Outbox.Order

/-!
# Outbox — Keeping

Where a row is: pending, acknowledged, or in `dead_letter`, and nowhere twice (`State.places`), as
long as passes do not overlap and no row is refused for good under an id that is in `dead_letter`
already.
-/

namespace StudioOS.Outbox

open List Runs

def Store.pendingCount (store : Store) (serial : Nat) : Nat :=
  (store.pending .events).countP (·.serial = serial) +
    (store.pending .mutations).countP (·.serial = serial) +
      (store.pending .markers).countP (·.serial = serial)

def Store.deadCount (store : Store) (serial : Nat) : Nat :=
  store.deadLetter.countP (·.payload.serial = serial)

/-- In how many places an enqueued row is. -/
def State.places (s : State) (serial : Nat) : Nat :=
  s.store.pendingCount serial + s.acknowledged.count serial + s.store.deadCount serial

def PassState.isRunning : PassState → Bool
  | .running _ => true
  | _ => false

/-- No pass begins while another is in its loop, and no definitive error
meets an id that is in `dead_letter`. -/
def keeps (s : State) : Act → Bool
  | .begin .. => s.passes.all fun pass => !pass.isRunning
  | .answer i (.error error) _ _ =>
    match s.passes[i]? with
    | some (.running pass) =>
      isRetryable error || pass.remaining.head?.all fun head =>
        s.store.deadLetter.all fun letter => letter.id ≠ head.2.id
    | _ => true
  | _ => true

def Keeps (s : State) (a : Act) : Prop := keeps s a = true

instance (s : State) (a : Act) : Decidable (Keeps s a) := inferInstanceAs (Decidable (_ = true))

section Counting

variable (store : Store) (table : OutboxTable) (serial : Nat) {q : PendingRow}

theorem pendingCount_setPending (rows) :
    (store.setPending table rows).pendingCount serial +
        (store.pending table).countP (·.serial = serial) =
      store.pendingCount serial + rows.countP (·.serial = serial) := by
  unfold Store.pendingCount Store.setPending
  cases table <;> simp <;> omega

variable {rows : List PendingRow}

theorem countP_filter_id (hids : (rows.map (·.id)).Nodup) (hq : q ∈ rows) :
    rows.countP (·.serial = serial) =
      (rows.filter fun row => row.id ≠ q.id).countP (·.serial = serial) +
        if q.serial = serial then 1 else 0 := by
  induction rows with
  | nil => cases hq
  | cons row rows ih =>
    rw [map_cons, nodup_cons] at hids
    rcases mem_cons.1 hq with rfl | hq
    · have hrest : rows.filter (fun row => row.id ≠ q.id) = rows := by
        refine filter_eq_self.2 fun row hrow => ?_
        have hne : row.id ≠ q.id := fun heq => hids.1 (heq ▸ mem_map_of_mem hrow)
        simpa using hne
      rw [filter_cons_of_neg (by simp), hrest, countP_cons]
      simp
    · have hne : row.id ≠ q.id := fun heq => hids.1 (heq ▸ mem_map_of_mem hq)
      rw [filter_cons_of_pos (by simpa using hne), countP_cons, countP_cons, ih hids.2 hq]
      omega

theorem markSucceeded_count (hids : ((store.pending table).map (·.id)).Nodup)
    (hq : q ∈ store.pending table) :
    (store.markSucceeded table q.id).pendingCount serial + (if q.serial = serial then 1 else 0) =
      store.pendingCount serial := by
  have hset := pendingCount_setPending store table serial
    ((store.pending table).filter fun row => row.id ≠ q.id)
  have hfilter := countP_filter_id serial hids hq
  unfold Store.markSucceeded
  omega

end Counting

/-- Every row a pass has to send is pending still, and listed once. -/
structure Listed (store : Store) (remaining : List (OutboxTable × PendingRow)) : Prop where
  once : (remaining.map fun r => (r.1, r.2.id)).Nodup
  pending : ∀ r ∈ remaining, ∃ q ∈ store.pending r.1, q.id = r.2.id ∧ q.serial = r.2.serial

section Listings

variable {store store' : Store} {table : OutboxTable} {row : PendingRow}

theorem Listed.mono {remaining} (h : Listed store remaining)
    (hkept : ∀ table q, q ∈ store.pending table →
      ∃ q' ∈ store'.pending table, q'.id = q.id ∧ q'.serial = q.serial) :
    Listed store' remaining where
  once := h.once
  pending := by
    intro r hr
    obtain ⟨q, hq, hid, hserial⟩ := h.pending r hr
    obtain ⟨q', hq', hid', hserial'⟩ := hkept r.1 q hq
    exact ⟨q', hq', hid'.trans hid, hserial'.trans hserial⟩

theorem Listed.tail {rest} (h : Listed store ((table, row) :: rest))
    (hstore : store'.pending = (store.markSucceeded table row.id).pending) :
    Listed store' rest := by
  have honce := h.once
  rw [map_cons, nodup_cons] at honce
  refine ⟨honce.2, fun r hr => ?_⟩
  obtain ⟨q, hq, hid, hserial⟩ := h.pending r (.tail _ hr)
  refine ⟨q, ?_, hid, hserial⟩
  rw [hstore, Store.markSucceeded]
  by_cases htable : r.1 = table
  · rw [htable, setPending_self]
    rw [htable] at hq
    refine mem_filter.2 ⟨hq, ?_⟩
    have hne : q.id ≠ row.id := by
      intro heq
      exact honce.1 (mem_map.2 ⟨r, hr, by rw [htable, ← hid, heq]⟩)
    simpa using hne
  · rw [setPending_of_ne htable]
    exact hq

theorem listPending_sub (store : Store) (table) (limit : Int) (now) :
    ∃ rows, (store.listPending table limit now).Sublist rows ∧
      rows.Perm ((store.pending table).filter fun row => row.nextAttemptAt ≤ now) := by
  refine ⟨_, ?_, perm_insertionSort (fun a b => a.createdAt ≤ b.createdAt) _⟩
  unfold Store.listPending takeLimit
  split
  · exact List.Sublist.refl _
  · exact take_sublist _ _

theorem listPending_ids (hids : ((store.pending table).map (·.id)).Nodup) :
    ((store.listPending table limit now).map (·.id)).Nodup := by
  obtain ⟨rows, hsub, hperm⟩ := listPending_sub store table limit now
  refine List.Nodup.sublist (hsub.map _) ?_
  exact ((hperm.map _).nodup_iff).2 (hids.sublist (filter_sublist.map _))

theorem mem_listPending
    (h : row ∈ store.listPending table limit now) : row ∈ store.pending table := by
  obtain ⟨rows, hsub, hperm⟩ := listPending_sub store table limit now
  exact (mem_filter.1 (hperm.mem_iff.1 (hsub.subset h))).1

theorem ready_listed (hids : ∀ table, ((store.pending table).map (·.id)).Nodup) :
    Listed store (store.ready limit eventsNow mutationsNow) := by
  have hperm := perm_insertionSort
    (fun a b : OutboxTable × PendingRow => a.2.createdAt ≤ b.2.createdAt)
    ((store.listPending .events limit eventsNow).map (OutboxTable.events, ·) ++
      (store.listPending .mutations limit mutationsNow).map (OutboxTable.mutations, ·))
  constructor
  · refine ((hperm.map _).nodup_iff).2 ?_
    rw [map_append, map_map, map_map, nodup_append]
    refine ⟨?_, ?_, ?_⟩
    · refine List.Nodup.of_map Prod.snd ?_
      rw [map_map]
      exact listPending_ids (hids .events)
    · refine List.Nodup.of_map Prod.snd ?_
      rw [map_map]
      exact listPending_ids (hids .mutations)
    · intro a ha b hb heq
      obtain ⟨x, -, rfl⟩ := mem_map.1 ha
      obtain ⟨y, -, rfl⟩ := mem_map.1 hb
      cases congrArg Prod.fst heq
  · intro r hr
    rcases mem_append.1 (hperm.mem_iff.1 hr) with hr | hr
    · obtain ⟨row, hrow, rfl⟩ := mem_map.1 hr
      exact ⟨row, mem_listPending hrow, rfl, rfl⟩
    · obtain ⟨row, hrow, rfl⟩ := mem_map.1 hr
      exact ⟨row, mem_listPending hrow, rfl, rfl⟩

end Listings

section Statements

variable {store store' : Store} {table : OutboxTable} {q : PendingRow}

def UniqueIds (store : Store) : Prop := ∀ table, ((store.pending table).map (·.id)).Nodup

theorem UniqueIds.setPending (h : UniqueIds store)
    (hrows : (rows.map (·.id)).Nodup) : UniqueIds (store.setPending table rows) := by
  intro other
  by_cases hother : other = table
  · rw [hother, setPending_self]
    exact hrows
  · rw [setPending_of_ne hother]
    exact h other

theorem UniqueIds.markSucceeded (h : UniqueIds store) (id) :
    UniqueIds (store.markSucceeded table id) :=
  h.setPending ((h table).sublist (filter_sublist.map _))

theorem UniqueIds.markFailed (h : UniqueIds store) (id error) (delay now) :
    UniqueIds (store.markFailed table id error delay now) := by
  refine h.setPending ?_
  have hsame : ∀ row : PendingRow, (if row.id = id then
      { row with attemptCount := row.attemptCount + 1, nextAttemptAt := now + delay
                 lastError := some error } else row).id = row.id := fun row => by split <;> rfl
  rw [map_map]
  simpa only [Function.comp_def, hsame] using h table

theorem markFailed_count (id error) (delay now) (serial) :
    (store.markFailed table id error delay now).pendingCount serial =
      store.pendingCount serial := by
  have hsame : ∀ row : PendingRow, (if row.id = id then
      { row with attemptCount := row.attemptCount + 1, nextAttemptAt := now + delay
                 lastError := some error } else row).serial = row.serial := fun row => by
    split <;> rfl
  have hset := pendingCount_setPending store table serial
    ((store.pending table).map fun row => if row.id = id then
      { row with attemptCount := row.attemptCount + 1, nextAttemptAt := now + delay
                 lastError := some error } else row)
  rw [countP_map] at hset
  simp only [Function.comp_def, hsame] at hset
  unfold Store.markFailed
  omega

theorem moveToDeadLetter_ok (hq : q ∈ store.pending table) (error) (now)
    (hfresh : ∀ letter ∈ store.deadLetter, letter.id ≠ q.id) :
    ∃ q' ∈ store.pending table, q'.id = q.id ∧ ∃ store',
      store.moveToDeadLetter table q.id error now = .ok store' ∧
        store'.pending = (store.markSucceeded table q.id).pending ∧
        ∀ serial, store'.deadCount serial =
          store.deadCount serial + if q'.serial = serial then 1 else 0 := by
  have hany : (store.deadLetter.any fun letter => letter.id = q.id) = false :=
    any_eq_false.2 fun letter hletter => by simpa using hfresh letter hletter
  unfold Store.moveToDeadLetter
  cases hfind : (store.pending table).find? fun row => row.id = q.id with
  | none =>
    have hnone := List.find?_eq_none.1 hfind q hq
    simp at hnone
  | some q' =>
    refine ⟨q', List.mem_of_find?_eq_some hfind, by simpa using List.find?_some hfind, ?_⟩
    simp only [hany, Bool.false_eq_true, if_false]
    refine ⟨_, rfl, rfl, fun serial => ?_⟩
    unfold Store.deadCount
    change (store.deadLetter ++ [_]).countP _ = _
    rw [countP_append, countP_singleton]
    simp

end Statements

/-! ## The invariant -/

def State.Looping (s : State) (i : Nat) (pass : Pass) : Prop :=
  s.passes[i]? = some (.running pass)

/-- **The keeping invariant.** -/
structure KeepInv (s : State) : Prop where
  ids : UniqueIds s.store
  places : ∀ serial, s.places serial = if serial < s.enqueued then 1 else 0
  one : ∀ i j p q, s.Looping i p → s.Looping j q → i = j
  listed : ∀ i pass, s.Looping i pass → Listed s.store pass.remaining
  unraised : ∀ e, PassState.raised e ∉ s.passes

theorem keepInv_initial : KeepInv State.initial where
  ids := fun _ => nodup_nil
  places := fun serial => rfl
  one := fun i j p q h => by cases h
  listed := fun i pass h => by cases h
  unraised := fun e h => by cases h

section Steps

variable {s : State} {i : Nat} {pass : Pass}

theorem looping_set {state} {j : Nat} {p : Pass} {passes : List PassState}
    (h : (passes.set i state)[j]? = some (.running p)) :
    (j = i ∧ state = .running p) ∨ (j ≠ i ∧ passes[j]? = some (.running p)) := by
  rw [List.getElem?_set] at h
  split at h
  · rename_i heq
    split at h
    · exact .inl ⟨heq.symm, Option.some.inj h⟩
    · cases h
  · rename_i hne
    exact .inr ⟨Ne.symm hne, h⟩

theorem KeepInv.set {state} (h : KeepInv s) (hpass : s.Looping i pass) {store' acknowledged}
    (hids : UniqueIds store')
    (hplaces : ∀ serial, store'.pendingCount serial + acknowledged.count serial +
      store'.deadCount serial = s.places serial)
    (hlisted : ∀ p, state = .running p → Listed store' p.remaining)
    (hraised : ∀ e, state ≠ .raised e) :
    KeepInv { s with store := store', passes := s.passes.set i state, acknowledged := acknowledged } where
  ids := hids
  places := fun serial => (hplaces serial).trans (h.places serial)
  one := by
    intro j k p q hj hk
    have hat : ∀ {j : Nat} {p : Pass}, (s.passes.set i state)[j]? = some (.running p) → j = i :=
        fun hj => by
      rcases looping_set hj with ⟨heq, -⟩ | ⟨hne, hj⟩
      · exact heq
      · exact absurd (h.one _ _ _ _ hj hpass) hne
    rw [hat hj, hat hk]
  listed := by
    intro j p hj
    rcases looping_set hj with ⟨-, heq⟩ | ⟨hne, hj⟩
    · exact hlisted p heq
    · exact absurd (h.one _ _ _ _ hj hpass) hne
  unraised := by
    intro e hmem
    rcases mem_or_eq_of_mem_set hmem with hmem | heq
    · exact h.unraised e hmem
    · exact hraised e heq.symm

theorem next_not_raised {rest outcome} (e) : PassState.next rest outcome ≠ .raised e := by
  cases rest <;> exact fun h => by cases h

theorem KeepInv.answer (h : KeepInv s) (hpass : s.Looping i pass) {table row rest}
    (hremaining : pass.remaining = (table, row) :: rest) (result delay now)
    (hguard : ∀ error, result = .error error → isRetryable error = false →
      ∀ letter ∈ s.store.deadLetter, letter.id ≠ row.id) :
    KeepInv (s.answer i pass table row rest result delay now) := by
  have hlisted := h.listed i pass hpass
  rw [hremaining] at hlisted
  obtain ⟨q, hq, hid, hserial⟩ := hlisted.pending _ mem_cons_self
  dsimp only at hq hid hserial
  unfold State.answer
  split
  · refine h.set hpass (h.ids.markSucceeded row.id) (fun serial => ?_) (fun p hnext => ?_)
      next_not_raised
    · have hcount := markSucceeded_count s.store table serial (h.ids table) hq
      rw [← hid, count_append, count_singleton, ← hserial]
      unfold State.places Store.deadCount
      simp only [beq_iff_eq] at hcount ⊢
      change _ + _ + s.store.deadCount serial = _
      unfold Store.deadCount
      omega
    · rw [next_running hnext]
      exact hlisted.tail rfl
  · rename_i error
    split
    · refine h.set hpass (h.ids.markFailed _ _ _ _) (fun serial => ?_)
        (fun p hnext => by cases hnext)
        (fun e heq => by cases heq)
      rw [markFailed_count]
      rfl
    rename_i hfinal
    have hfresh := hguard error rfl (by simpa using hfinal)
    rw [← hid] at hfresh
    obtain ⟨q', hq', hid', store', hmoved, hpending, hdead⟩ := moveToDeadLetter_ok hq
      (diagnose pass.outcome table row error).2 now hfresh
    rw [hid] at hmoved hpending hid'
    simp only [hmoved]
    refine h.set hpass ?_ (fun serial => ?_) (fun p hnext => ?_) next_not_raised
    · intro other
      rw [hpending]
      exact h.ids.markSucceeded row.id other
    · have hcount := markSucceeded_count s.store table serial (h.ids table) hq'
      rw [hid'] at hcount
      unfold Store.pendingCount at hcount ⊢
      rw [hpending, hdead]
      unfold State.places Store.pendingCount
      omega
    · rw [next_running hnext]
      exact hlisted.tail hpending

theorem KeepInv.enqueue (h : KeepInv s) (table) (id) (payload extra now) : KeepInv { s with
      store := s.store.enqueue table id payload extra s.enqueued now
      enqueued := if s.store.queued table id then s.enqueued else s.enqueued + 1 } := by
  unfold Store.enqueue
  split
  · exact h
  rename_i hqueued
  have hnew : id ∉ (s.store.pending table).map (·.id) := by
    intro hmem
    obtain ⟨row, hrow, hid⟩ := mem_map.1 hmem
    exact hqueued (any_eq_true.2 ⟨row, hrow, decide_eq_true hid⟩)
  refine ⟨h.ids.setPending ?_, fun serial => ?_, h.one, fun i pass hpass => ?_, h.unraised⟩
  · rw [map_append, map_singleton]
    refine nodup_append.2 ⟨h.ids table, nodup_singleton _, fun a ha b hb heq => ?_⟩
    rw [mem_singleton] at hb
    rw [heq, hb] at ha
    exact hnew ha
  · have hset := pendingCount_setPending s.store table serial
      (s.store.pending table ++ [newRow id payload extra s.enqueued now])
    rw [countP_append, countP_singleton] at hset
    have hplaces := h.places serial
    change (s.store.setPending table (s.store.pending table ++
        [newRow id payload extra s.enqueued now])).pendingCount serial +
      s.acknowledged.count serial + s.store.deadCount serial =
        if serial < s.enqueued + 1 then 1 else 0
    unfold State.places at hplaces
    have hnew : (newRow id payload extra s.enqueued now).serial = s.enqueued := rfl
    rw [hnew] at hset
    by_cases hlast : s.enqueued = serial
    · rw [if_pos (decide_eq_true hlast)] at hset
      rw [if_neg (by omega)] at hplaces
      rw [if_pos (by omega)]
      omega
    rw [if_neg (by simpa using hlast)] at hset
    split at hplaces
    · rw [if_pos (by omega)]
      omega
    · rw [if_neg (by omega)]
      omega
  · refine (h.listed i pass hpass).mono fun other q hq => ⟨q, ?_, rfl, rfl⟩
    by_cases hother : other = table
    · subst hother
      rw [setPending_self]
      exact mem_append_left _ hq
    · rw [setPending_of_ne hother]
      exact hq

theorem KeepInv.begin (h : KeepInv s) (hguard : ∀ pass ∈ s.passes, pass.isRunning = false) :
    KeepInv { s with
      passes := s.passes ++ [.next (s.store.ready limit eventsNow mutationsNow) .none] } := by
  have hlast : ∀ i p, (s.passes ++ [PassState.next (s.store.ready limit eventsNow mutationsNow)
      .none])[i]? = some (.running p) → i = s.passes.length ∧
        p.remaining = s.store.ready limit eventsNow mutationsNow := by
    intro i p hi
    rw [List.getElem?_append] at hi
    split at hi
    · exact absurd (hguard _ (mem_of_getElem? hi)) (by simp [PassState.isRunning])
    have hzero : i - s.passes.length = 0 := by
      by_contra hne
      rw [List.getElem?_eq_none (by simp; omega)] at hi
      cases hi
    rw [hzero] at hi
    exact ⟨by omega, next_running (Option.some.inj hi)⟩
  refine ⟨h.ids, h.places, fun i j p q hi hj => ?_, fun i p hi => ?_, fun e hmem => ?_⟩
  · exact (hlast i p hi).1.trans (hlast j q hj).1.symm
  · rw [(hlast i p hi).2]
    exact ready_listed h.ids
  · rcases mem_append.1 hmem with hmem | hmem
    · exact h.unraised e hmem
    · exact next_not_raised e (mem_singleton.1 hmem).symm

theorem keepInv_step {t a} (h : KeepInv s) (hguard : Keeps s a) (hstep : step s a = some t) :
    KeepInv t := by
  cases a with
  | enqueue table id payload extra now =>
    cases hstep
    exact h.enqueue table id payload extra now
  | begin limit eventsNow mutationsNow =>
    cases hstep
    exact h.begin (by simpa [Keeps, keeps] using hguard)
  | send i =>
    simp only [step] at hstep
    split at hstep
    · rename_i pass hget
      split at hstep <;> cases hstep
      refine h.set hget h.ids (fun serial => rfl) (fun p heq => ?_) fun e heq => by cases heq
      cases heq
      exact h.listed i pass hget
    · cases hstep
  | answer i result delay now =>
    simp only [step] at hstep
    split at hstep
    · rename_i pass hget
      split at hstep
      · rename_i table row rest hsending hremaining
        cases hstep
        refine h.answer hget hremaining result delay now fun error hresult hfinal => ?_
        subst hresult
        simpa [Keeps, keeps, hget, hremaining, hfinal] using hguard
      · cases hstep
    · cases hstep
  | cancel i =>
    simp only [step] at hstep
    split at hstep <;> cases hstep
    rename_i pass hget
    exact h.set hget h.ids (fun serial => rfl) (fun p heq => by cases heq) fun e heq => by cases heq
  | restart =>
    cases hstep
    have hstopped : ∀ i p, ¬ State.Looping { s with passes := s.passes.map PassState.stop } i p := by
      intro i p hi
      rw [State.Looping, List.getElem?_map] at hi
      obtain ⟨state, -, heq⟩ := Option.map_eq_some_iff.1 hi
      cases state <;> cases heq
    refine ⟨h.ids, h.places, fun i j p q hi => absurd hi (hstopped i p),
      fun i p hi => absurd hi (hstopped i p), fun e hmem => ?_⟩
    obtain ⟨state, hstate, heq⟩ := mem_map.1 hmem
    cases state <;> cases heq
    exact h.unraised e hstate

end Steps

def versionConflict : StudioApiError :=
  { errorClass := .conflict, statusCode := 409, errorCode := some "version_conflict"
    message := "version_conflict", resource := none }

def enqueueReport (id : String) (now : Timestamp) : Act :=
  .enqueue .mutations id [] [("method", "POST"), ("path", "/api/v1/task-launches/report")] now

/-- A pass whose first row the server refuses. -/
def refusedPass (i : Nat) (now : Timestamp) : List Act :=
  [.begin 100 now now, .send i, .answer i (.error versionConflict) 0 (now + 1)]

/-- A report is refused, queued again under its key by a caller that retries,
and delivered then. -/
def redeliveredRun : List Act :=
  enqueueReport "report" 10 :: refusedPass 0 20 ++
    [enqueueReport "report" 30, .begin 100 40 40, .send 1, .answer 1 (.ok ()) 0 41]

/-- The report is refused a second time. -/
def refusedTwiceRun : List Act :=
  enqueueReport "report" 10 :: refusedPass 0 20 ++
    [enqueueReport "report" 30, enqueueReport "behind" 31] ++ refusedPass 1 40

def PassState.isRaised : PassState → Bool
  | .raised _ => true
  | _ => false

theorem isRaised_eq {state : PassState} (h : state.isRaised = true) :
    state = .raised .uniqueDeadLetterId := by
  cases state with
  | raised error =>
    cases error
    rfl
  | _ => cases h

end StudioOS.Outbox
