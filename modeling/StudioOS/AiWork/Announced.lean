import Mathlib.Data.List.Chain
import Mathlib.Data.List.Nodup
import Mathlib.Data.Set.Function
import StudioOS.AiWork.Model

/-!
# Announced — every change of status has an event of its own

The id of an event is made of the entry and the type, so a status that an
entry reaches twice is announced once (`review_announced_once`).
-/

namespace StudioOS.AiWork

open List Authz Runs

variable {env : Env} {s t : State} {act : Act}

variable {principal : Principal} {workIn : WorkUpdate} {reads : Reads} {work read : Work} {c : Nat}
  {call : Call} {status : AIWorkStatus} {userId : Uuid} {eventType : EventType}

theorem checkCreate_status {workIn}
    (h : checkCreate principal workIn reads = .ok ()) : workIn.status ∉ reviewResolutions := by
  intro hmem
  simp only [checkCreate, bind, Except.bind] at h
  repeat (split at h; · cases h)
  simp at h

theorem ensureCanResolveReview_status {target}
    (h : ensureCanResolveReview principal work target = .ok ()) :
    work.status = .reviewRequested := by
  by_contra hne
  simp only [ensureCanResolveReview] at h
  obtain ⟨_, -, h⟩ := bind_ok h
  split at h
  · cases h
  · simp at h

theorem checkUpdate_status {target} (h : checkUpdate principal work workIn reads = .ok ())
    (hresolves : workIn.resolves = some target) : work.status = .reviewRequested := by
  simp only [checkUpdate, hresolves] at h
  obtain ⟨_, -, h⟩ := bind_ok h
  obtain ⟨_, hresolve, -⟩ := bind_ok h
  exact ensureCanResolveReview_status hresolve

/-- A checked call that resolves a review has read `review_requested`. -/
def Call.Sound : Call → Prop
  | .checked _ workIn work => workIn.resolves.isSome → work.status = .reviewRequested
  | _ => True

/-- The steps of the calls. -/
inductive Fires (env : Env) (s : State) : Act → State → Prop where
  | created {principal workIn reads now} (hwork : s.work = none)
      (hcheck : checkCreate principal workIn reads = .ok ()) :
      Fires env s (.create principal workIn reads now) { s with
        work := some (workIn.work now)
        history := [workIn.status]
        calls := s.calls ++ [.committed workIn.pending] }
  | joined {act : Act} {call} (howed : call.owed = []) (hchecked : call.Sound) :
      Fires env s act { s with calls := s.calls ++ [call] }
  | moved {act c call next} (hcall : s.calls[c]? = some call) (howed : next.owed = call.owed)
      (hchecked : next.Sound) :
      Fires env s act (s.put c next)
  | committed {c now userId workIn read current}
      (hcall : s.calls[c]? = some (.checked userId workIn read)) (hwork : s.work = some current) :
      Fires env s (.commit c now) (s.commit c userId workIn read current now)
  | emitted {c work pending rest} (hcall : s.calls[c]? = some (.emitting work (pending :: rest))) :
      Fires env s (.emit c) { s.put c (.emitting work rest) with
        events := createEvent s.events (pending.event env work) }

theorem step_fires (h : step env s act = some t) : Fires env s act t := by
  cases act with
  | create principal workIn reads now =>
    simp only [step] at h
    split at h
    · rename_i hwork hcheck
      cases h
      exact .created hwork hcheck
    · cases h
      exact .joined rfl trivial
    · cases h
  | begin principal workIn =>
    obtain ⟨work, -, rfl⟩ := Option.map_eq_some_iff.mp h
    exact .joined rfl trivial
  | check c reads =>
    simp only [step] at h
    split at h
    · rename_i principal workIn work hcall
      split at h
      · rename_i hcheck
        cases h
        refine .moved hcall rfl fun hresolves => ?_
        obtain ⟨target, htarget⟩ := Option.isSome_iff_exists.mp hresolves
        exact checkUpdate_status hcheck htarget
      · cases h
        exact .moved hcall rfl trivial
    · cases h
  | commit c now =>
    simp only [step] at h
    split at h
    · rename_i hcall hwork
      cases h
      exact .committed hcall hwork
    · cases h
  | refresh c =>
    simp only [step] at h
    split at h
    · rename_i hcall _
      cases h
      exact .moved hcall rfl trivial
    · cases h
  | emit c =>
    simp only [step] at h
    split at h
    · rename_i hcall
      cases h
      exact .emitted hcall
    · cases h


theorem statusEventTypes_inj {a b} (ha : statusEventTypes a = some eventType)
    (hb : statusEventTypes b = some eventType) :
    a = b := by
  cases a <;> cases b <;> first | rfl | (rw [← hb] at ha; cases ha)

theorem statusEventTypes_ne_started (status) : statusEventTypes status ≠ some .aiWorkStarted := by
  cases status <;> decide

theorem value_inj {a b : EventType} (h : a.value = b.value) : a = b := by
  cases a <;> cases b <;> first | rfl | exact absurd h (by decide)

theorem deriveEventId_inj (huuid : Set.InjOn env.uuid5 (Set.range env.eventName)) {a b}
    (h : env.deriveEventId a = env.deriveEventId b) : a = b := by
  have hname : env.eventName a = env.eventName b := huuid ⟨a, rfl⟩ ⟨b, rfl⟩ h
  have hchars := congrArg String.toList hname
  simp only [Env.eventName, String.toList_append, append_cancel_left_eq] at hchars
  exact value_inj (String.toList_inj.mp hchars)

/-- The id of an event is the one of its type. -/
def Named (env : Env) (events : List Event) : Prop :=
  ∀ event ∈ events, event.eventId = env.deriveEventId event.eventType

theorem createEvent_types (huuid : Set.InjOn env.uuid5 (Set.range env.eventName)) {events}
    (hnamed : Named env events) {event}
    (hevent : event.eventId = env.deriveEventId event.eventType) :
    (createEvent events event).map Event.eventType =
      if event.eventType ∈ events.map Event.eventType then events.map Event.eventType
      else events.map Event.eventType ++ [event.eventType] := by
  have hany : events.any (·.eventId = event.eventId) = true ↔
      event.eventType ∈ events.map Event.eventType := by
    simp only [any_eq_true, decide_eq_true_eq, mem_map]
    constructor
    · rintro ⟨other, hother, hid⟩
      rw [hnamed other hother, hevent] at hid
      exact ⟨other, hother, deriveEventId_inj huuid hid⟩
    · rintro ⟨other, hother, htype⟩
      refine ⟨other, hother, ?_⟩
      rw [hnamed other hother, hevent, htype]
  by_cases hmem : event.eventType ∈ events.map Event.eventType
  · rw [createEvent, if_pos (hany.mpr hmem), if_pos hmem]
  · rw [createEvent, if_neg (hany.not.mpr hmem), if_neg hmem, map_append, map_singleton]

theorem createEvent_named {events} (hnamed : Named env events) {event}
    (hevent : event.eventId = env.deriveEventId event.eventType) :
    Named env (createEvent events event) := by
  unfold createEvent
  split
  · exact hnamed
  · intro other hother
    rcases mem_append.mp hother with hother | hother
    · exact hnamed other hother
    · rw [mem_singleton.mp hother, hevent]

/-- A call other than `c` has still to emit an event of the type. -/
def State.OwesBut (s : State) (c : Nat) (eventType : EventType) : Prop :=
  ∃ (d : Nat) (call : Call), d ≠ c ∧ s.calls[d]? = some call ∧ eventType ∈ call.owed

theorem owes_append (s : State) (call : Call) (eventType) :
    ({ s with calls := s.calls ++ [call] } : State).Owes eventType ↔
      s.Owes eventType ∨ eventType ∈ call.owed := by
  constructor
  · rintro ⟨d, other, hother, howed⟩
    rcases Nat.lt_trichotomy d s.calls.length with hlt | rfl | hgt
    · rw [List.getElem?_append_left hlt] at hother
      exact .inl ⟨d, other, hother, howed⟩
    · simp only [List.getElem?_concat_length] at hother
      exact .inr (Option.some.inj hother ▸ howed)
    · rw [List.getElem?_eq_none (by simp; omega)] at hother
      cases hother
  · rintro (⟨d, other, hother, howed⟩ | howed)
    · refine ⟨d, other, ?_, howed⟩
      rw [List.getElem?_append_left (List.getElem?_eq_some_iff.mp hother).1]
      exact hother
    · exact ⟨s.calls.length, call, List.getElem?_concat_length, howed⟩

theorem owes_split (hcall : s.calls[c]? = some call) (eventType) :
    s.Owes eventType ↔ s.OwesBut c eventType ∨ eventType ∈ call.owed := by
  constructor
  · rintro ⟨d, other, hother, howed⟩
    by_cases hd : d = c
    · subst hd
      rw [hcall] at hother
      exact .inr (Option.some.inj hother ▸ howed)
    · exact .inl ⟨d, other, hd, hother, howed⟩
  · rintro (⟨d, other, -, hother, howed⟩ | howed)
    · exact ⟨d, other, hother, howed⟩
    · exact ⟨c, call, hcall, howed⟩

theorem owes_put (hcall : s.calls[c]? = some call) (next) (eventType) :
    (s.put c next).Owes eventType ↔ s.OwesBut c eventType ∨ eventType ∈ next.owed := by
  have hc : c < s.calls.length := (List.getElem?_eq_some_iff.mp hcall).1
  rw [@owes_split (s.put c next) c next (List.getElem?_set_self hc)]
  have hbut : (s.put c next).OwesBut c eventType ↔ s.OwesBut c eventType := by
    constructor
    · rintro ⟨d, other, hd, hother, howed⟩
      rw [State.put, List.getElem?_set_ne (Ne.symm hd)] at hother
      exact ⟨d, other, hd, hother, howed⟩
    · rintro ⟨d, other, hd, hother, howed⟩
      refine ⟨d, other, hd, ?_, howed⟩
      rw [State.put, List.getElem?_set_ne (Ne.symm hd)]
      exact hother
  rw [hbut]

theorem mem_pending_create {workIn : WorkCreate} (h : statusEventTypes status = some eventType) :
    eventType ∈ (Call.committed workIn.pending).owed ↔ status = workIn.status := by
  have hstarted : eventType ≠ .aiWorkStarted := by
    rintro rfl
    exact statusEventTypes_ne_started status h
  simp only [Call.owed, Call.pending, WorkCreate.pending, map_cons, mem_cons, hstarted,
    false_or, mem_map, Option.mem_toList, Option.map_eq_some_iff]
  constructor
  · rintro ⟨pending, ⟨own, hown, rfl⟩, rfl⟩
    exact statusEventTypes_inj h hown
  · rintro rfl
    exact ⟨_, ⟨eventType, h, rfl⟩, rfl⟩

theorem mem_pending_update (h : statusEventTypes status = some eventType) :
    eventType ∈ (Call.committed (workIn.pending read userId)).owed ↔
      workIn.status = some status ∧ status ≠ read.status := by
  simp only [Call.owed, Call.pending, WorkUpdate.pending]
  cases hstatus : workIn.status with
  | none => simp
  | some own =>
    by_cases hsame : own = read.status
    · simp only [hsame, if_true, map_nil, not_mem_nil, false_iff, Option.some.injEq]
      rintro ⟨rfl, hne⟩
      exact hne rfl
    simp only [hsame, if_false, mem_map, Option.mem_toList, Option.map_eq_some_iff,
      Option.some.injEq]
    constructor
    · rintro ⟨pending, ⟨type, htype, rfl⟩, htypes⟩
      have hown : statusEventTypes own = some eventType := by
        rw [htype]
        split at htypes <;> exact congrArg some htypes
      obtain rfl := statusEventTypes_inj h hown
      exact ⟨rfl, hsame⟩
    · rintro ⟨rfl, -⟩
      refine ⟨_, ⟨eventType, h, rfl⟩, ?_⟩
      split <;> rfl

/-! ## The invariant -/

structure Inv (env : Env) (s : State) : Prop where
  named : Named env s.events
  once : s.eventTypes.Nodup
  fresh : ∀ status, (statusEventTypes status).isSome → s.history.count status ≤ 1
  /-- An entry has had an announced status exactly if there is an event of it,
  or one on its way. -/
  announced : ∀ status eventType, statusEventTypes status = some eventType →
    (status ∈ s.history ↔ eventType ∈ s.eventTypes ∨ s.Owes eventType)
  last : s.history.getLast? = s.work.map Work.status
  reviewed : Reviewed s.history
  sound : ∀ call ∈ s.calls, call.Sound

theorem inv_start (env) : Inv env State.start where
  named := forall_mem_nil _
  once := .nil
  fresh _ _ := Nat.zero_le 1
  announced _ _ _ := by
    simp [State.start, State.eventTypes, State.Owes]
  last := rfl
  reviewed := ⟨nofun, .nil⟩
  sound := forall_mem_nil _

theorem sound_append (hsound : ∀ call ∈ s.calls, call.Sound) (hcall : call.Sound) :
    ∀ other ∈ s.calls ++ [call], other.Sound := by
  intro other hother
  rcases mem_append.mp hother with hother | hother
  · exact hsound other hother
  · exact mem_singleton.mp hother ▸ hcall

theorem sound_put {next} (hsound : ∀ call ∈ s.calls, call.Sound)
    (hnext : next.Sound) : ∀ other ∈ (s.put c next).calls, other.Sound := by
  intro other hother
  rcases mem_or_eq_of_mem_set hother with hother | rfl
  · exact hsound other hother
  · exact hnext

theorem Reviewed.append {history} (h : Reviewed history) {current}
    (hlast : history.getLast? = some current)
    (hfrom : FromReview current status) : Reviewed (history ++ [status]) := by
  have hne : history ≠ [] := by
    rintro rfl
    cases hlast
  constructor
  · rw [List.head?_append_of_ne_nil _ hne]
    exact h.1
  refine isChain_append.mpr ⟨h.2, .singleton status, ?_⟩
  intro before hbefore after hafter
  rw [hlast] at hbefore
  cases hbefore
  cases hafter
  exact hfrom

theorem flush_status (read current) (workIn : WorkUpdate) (now) :
    (Work.flush read (workIn.write read now) current).status =
      if workIn.status.getD read.status = read.status then current.status
      else workIn.status.getD read.status := rfl

theorem Inv.of_same (h : Inv env s) (hevents : t.events = s.events)
    (hhistory : t.history = s.history) (hwork : t.work.map Work.status = s.work.map Work.status)
    (howes : ∀ status eventType, statusEventTypes status = some eventType →
      (t.Owes eventType ↔ s.Owes eventType ∨ (t.Owes eventType ∧ status ∈ s.history)))
    (hsound : ∀ call ∈ t.calls, call.Sound) : Inv env t where
  named := hevents ▸ h.named
  once := by
    have htypes : t.eventTypes = s.eventTypes := congrArg (List.map Event.eventType) hevents
    exact htypes ▸ h.once
  fresh := hhistory ▸ h.fresh
  announced status eventType htype := by
    have htypes : t.eventTypes = s.eventTypes := congrArg (List.map Event.eventType) hevents
    have hold := h.announced status eventType htype
    rw [hhistory, htypes]
    have := howes status eventType htype
    tauto
  last := by rw [hhistory, hwork, h.last]
  reviewed := hhistory ▸ h.reviewed
  sound := hsound

theorem undisturbed_set {current} (hset : workIn.status = some status)
    (hwork : s.work = some current) (hne : status ≠ read.status)
    (h : s.undisturbed (.checked userId workIn read) = true) :
    (status = current.status ∨ statusEventTypes status = none ∨ status ∉ s.history) ∧
      (status ∈ reviewResolutions → current.status = .reviewRequested) := by
  simp only [State.undisturbed, hset, hwork, hne, decide_false, Bool.false_or, Bool.and_eq_true,
    Bool.or_eq_true, Option.isNone_iff_eq_none, decide_eq_true_eq] at h
  tauto

theorem Inv.commit (h : Inv env s) {current} (now)
    (hcall : s.calls[c]? = some (.checked userId workIn read)) (hwork : s.work = some current)
    (hundisturbed : s.undisturbed (.checked userId workIn read) = true) :
    Inv env (s.commit c userId workIn read current now) := by
  have hrow := flush_status read current workIn now
  have hsound : ∀ call ∈ (s.commit c userId workIn read current now).calls, call.Sound :=
    sound_put h.sound trivial
  have howed : ∀ status eventType, statusEventTypes status = some eventType →
      ((s.commit c userId workIn read current now).Owes eventType ↔
        s.Owes eventType ∨ (workIn.status = some status ∧ status ≠ read.status)) := by
    intro status eventType htype
    have hnone : eventType ∉ (Call.checked userId workIn read).owed := not_mem_nil
    have hsplit := owes_split hcall eventType
    exact (owes_put hcall _ eventType).trans (or_congr (by tauto) (mem_pending_update htype))
  by_cases hquiet : workIn.status.getD read.status = read.status
  · -- nothing is announced, and the row keeps the status it has
    rw [if_pos hquiet] at hrow
    refine h.of_same rfl (if_pos hrow) (by rw [hwork]; exact congrArg some hrow) ?_ hsound
    intro status eventType htype
    have hnot : ¬ (workIn.status = some status ∧ status ≠ read.status) := by
      rintro ⟨hset, hne⟩
      rw [hset] at hquiet
      exact hne hquiet
    have := howed status eventType htype
    tauto
  · rw [if_neg hquiet] at hrow
    obtain ⟨status, hset⟩ : ∃ status, workIn.status = some status := by
      cases hset : workIn.status with
      | none => exact absurd (by rw [hset]; rfl) hquiet
      | some status => exact ⟨status, rfl⟩
    rw [hset, Option.getD_some] at hrow hquiet
    have hlast : s.history.getLast? = some current.status := by
      rw [h.last, hwork, Option.map_some]
    obtain ⟨hagain, hfrom⟩ := undisturbed_set hset hwork hquiet hundisturbed
    by_cases hsame : status = current.status
    · -- another update has set the same status
      refine h.of_same rfl (if_pos (hrow.trans hsame))
        (by rw [hwork]; exact congrArg some (hrow.trans hsame)) ?_ hsound
      intro other eventType htype
      have hmem : status ∈ s.history := hsame ▸ List.mem_of_getLast? hlast
      have := howed other eventType htype
      rw [hset] at this
      constructor
      · intro howes
        rcases this.mp howes with hold | ⟨heq, -⟩
        · exact .inl hold
        · exact .inr ⟨howes, Option.some.inj heq ▸ hmem⟩
      · rintro (hold | ⟨howes, -⟩)
        · exact this.mpr (.inl hold)
        · exact howes
    · have hhistory : (s.commit c userId workIn read current now).history =
          s.history ++ [status] := by
        rw [← hrow]
        exact if_neg (hrow ▸ hsame)
      exact
        { named := h.named
          once := h.once
          fresh := by
            intro other hother
            rw [hhistory, count_append]
            by_cases heq : other = status
            · subst heq
              have hnot : other ∉ s.history := by
                rcases hagain with hagain | hagain | hagain
                · exact absurd hagain hsame
                · rw [hagain] at hother
                  cases hother
                · exact hagain
              simp [count_eq_zero_of_not_mem hnot]
            · have := h.fresh other hother
              have hzero : [status].count other = 0 := count_eq_zero_of_not_mem (by simpa using heq)
              omega
          announced := by
            intro other eventType htype
            have hold := h.announced other eventType htype
            have hnow := howed other eventType htype
            rw [hset] at hnow
            rw [hhistory, mem_append, mem_singleton, hnow, hold]
            have hne : other = status ↔ some status = some other ∧ other ≠ read.status := by
              constructor
              · rintro rfl
                exact ⟨rfl, hquiet⟩
              · rintro ⟨heq, -⟩
                exact (Option.some.inj heq).symm
            rw [hne, or_assoc]
            exact Iff.rfl
          last := by
            rw [hhistory, List.getLast?_concat]
            exact congrArg some hrow.symm
          reviewed := hhistory ▸ h.reviewed.append hlast hfrom
          sound := hsound }

theorem Inv.create (h : Inv env s) {workIn} (now) (hwork : s.work = none)
    (hcheck : checkCreate principal workIn reads = .ok ()) : Inv env { s with
      work := some (workIn.work now)
      history := [workIn.status]
      calls := s.calls ++ [.committed workIn.pending] } where
  named := h.named
  once := h.once
  fresh status _ := count_le_length
  announced status eventType htype := by
    have hempty : s.history = [] := by
      have hlast := h.last
      rwa [hwork, Option.map_none, List.getLast?_eq_none_iff] at hlast
    have hold := h.announced status eventType htype
    simp only [hempty, not_mem_nil, false_iff, not_or] at hold
    have howes := (owes_append s (.committed workIn.pending) eventType).trans
      (or_congr Iff.rfl (mem_pending_create htype))
    constructor
    · intro hmem
      exact .inr (howes.mpr (.inr (mem_singleton.mp hmem)))
    · rintro (hmem | hmem)
      · exact absurd hmem hold.1
      · rcases howes.mp hmem with hbefore | heq
        · exact absurd hbefore hold.2
        · exact mem_singleton.mpr heq
  last := rfl
  reviewed := by
    refine ⟨?_, .singleton _⟩
    intro status hstatus
    cases hstatus
    exact checkCreate_status hcheck
  sound := sound_append h.sound trivial

theorem Inv.emit (h : Inv env s) (huuid : Set.InjOn env.uuid5 (Set.range env.eventName))
    {pending rest} (hcall : s.calls[c]? = some (.emitting work (pending :: rest))) :
    Inv env { s.put c (.emitting work rest) with
      events := createEvent s.events (pending.event env work) } where
  named := createEvent_named h.named rfl
  once := by
    show ((createEvent s.events (pending.event env work)).map Event.eventType).Nodup
    rw [createEvent_types huuid h.named rfl]
    split
    · exact h.once
    · rename_i hnew
      exact nodup_append.mpr ⟨h.once, pairwise_singleton _ _, by
        intro own hown other hother
        rintro rfl
        exact hnew (mem_singleton.mp hother ▸ hown)⟩
  fresh := h.fresh
  announced status eventType htype := by
    have hold := h.announced status eventType htype
    rw [owes_split hcall] at hold
    have howes := owes_put hcall (.emitting work rest) eventType
    have howed : eventType ∈ (Call.emitting work (pending :: rest)).owed ↔
        eventType = pending.eventType ∨ eventType ∈ (Call.emitting work rest).owed :=
      mem_cons
    have hevents : eventType ∈ (createEvent s.events (pending.event env work)).map Event.eventType ↔
        eventType ∈ s.eventTypes ∨ eventType = pending.eventType := by
      rw [createEvent_types huuid h.named rfl]
      split
      · rename_i hmem
        constructor
        · exact .inl
        · rintro (hold | rfl)
          · exact hold
          · exact hmem
      · rw [mem_append, mem_singleton]
        exact Iff.rfl
    show status ∈ s.history ↔
      eventType ∈ (createEvent s.events (pending.event env work)).map Event.eventType ∨
        (s.put c (.emitting work rest)).Owes eventType
    rw [hold, howed, howes, hevents]
    exact or_assoc.symm.trans or_or_or_comm
  last := h.last
  reviewed := h.reviewed
  sound := sound_put h.sound trivial

theorem Inv.step (h : Inv env s) (huuid : Set.InjOn env.uuid5 (Set.range env.eventName))
    (hguard : Undisturbed s act) (hstep : AiWork.step env s act = some t) : Inv env t := by
  cases step_fires hstep with
  | created hwork hcheck => exact h.create _ hwork hcheck
  | joined howed hchecked =>
    refine h.of_same rfl rfl rfl ?_ (sound_append h.sound hchecked)
    intro status eventType _
    rw [owes_append, howed]
    tauto
  | moved hcall howed hchecked =>
    refine h.of_same rfl rfl rfl ?_ (sound_put h.sound hchecked)
    intro status eventType _
    rw [owes_put hcall, howed, ← owes_split hcall]
    tauto
  | committed hcall hwork => exact h.commit _ hcall hwork (hguard _ hcall)
  | emitted hcall => exact h.emit huuid hcall

theorem Inv.announcedOnce (h : Inv env s) : s.Announced := by
  intro status eventType htype
  have hmem := h.announced status eventType htype
  have hevents : s.eventTypes.count eventType ≤ 1 := nodup_iff_count_le_one.mp h.once eventType
  have hhistory := h.fresh status (htype ▸ rfl)
  have hsent : 0 < s.eventTypes.count eventType ↔ eventType ∈ s.eventTypes := count_pos_iff
  have hhad : 0 < s.history.count status ↔ status ∈ s.history := count_pos_iff
  constructor
  · by_cases hevent : eventType ∈ s.eventTypes
    · have := hhad.mpr (hmem.mpr (.inl hevent))
      omega
    · have := hsent.not.mpr hevent
      omega
  · intro hnone
    have hiff : 0 < s.eventTypes.count eventType ↔ 0 < s.history.count status := by
      rw [hsent, hhad, hmem]
      tauto
    omega

/-- **Every change of status has its event, and every review one resolution**, in a run where no
update comes back to an announced status and each resolution commits on an entry in
`review_requested`: a status has no more events than changes, and as many once nothing is still to
be emitted; and a resolution that commits takes the entry out of review. -/
theorem transitions_announced (huuid : Set.InjOn env.uuid5 (Set.range env.eventName)) :
    ∀ acts s, Run (step env) Undisturbed State.start acts s → s.Announced ∧ Reviewed s.history ∧
        ∀ c call now t, s.calls[c]? = some call → Resolving call →
          Undisturbed s (.commit c now) → step env s (.commit c now) = some t →
            s.work.map Work.status = some .reviewRequested ∧
              ∃ status ∈ reviewResolutions, t.work.map Work.status = some status ∧
                t.history = s.history ++ [status] := by
  intro acts s hrun
  have hinv : Inv env s := by
    refine hrun.invariant ?_ (inv_start env)
    intro s act t h hguard hstep
    exact h.step huuid hguard hstep
  refine ⟨hinv.announcedOnce, hinv.reviewed, ?_⟩
  intro c call now t hcall hresolving hguard hstep
  cases call with
  | checked userId workIn read =>
    obtain ⟨status, hstatus⟩ := Option.isSome_iff_exists.mp hresolving
    obtain ⟨hset, hmem⟩ := Option.filter_eq_some_iff.mp hstatus
    have hmem : status ∈ reviewResolutions := of_decide_eq_true hmem
    have hread : read.status = .reviewRequested := hinv.sound _ (mem_of_getElem? hcall) hresolving
    have hne : status ≠ read.status := by
      rintro rfl
      rw [hread] at hmem
      exact absurd hmem (by decide)
    cases hwork : s.work with
    | none => simp [AiWork.step, hcall, hwork] at hstep
    | some current =>
      have ht : s.commit c userId workIn read current now = t := by
        simpa [AiWork.step, hcall, hwork] using hstep
      have hfrom := (undisturbed_set hset hwork hne (hguard _ hcall)).2 hmem
      have hrow : (Work.flush read (workIn.write read now) current).status = status := by
        rw [flush_status, hset, Option.getD_some, if_neg hne]
      refine ⟨congrArg some hfrom, status, hmem, ?_, ?_⟩
      · rw [← ht]
        exact congrArg some hrow
      · rw [← ht, ← hrow]
        refine if_neg ?_
        rw [hrow, hfrom, ← hread]
        exact hne
  | _ => exact hresolving.elim

def sampleEnv : Env := { uuid5 := id, workId := "w" }

/-- An admin, on the machine of the agent. -/
def reviewer : Principal :=
  { machine := { id := ⟨"m"⟩, ownerUserId := ⟨"u"⟩ }
    role := .admin
    projectScope := .allProjects }

def entry (status : AIWorkStatus) : WorkCreate :=
  { taskId := none
    projectId := ⟨"p"⟩
    agentId := ⟨"a"⟩
    machineId := some ⟨"m"⟩
    sessionId := none
    summary := "work"
    status := status
    changedFiles := []
    testsRun := [] }

def found : Reads :=
  { agent := some { ownerUserId := some ⟨"u"⟩, machineId := some ⟨"m"⟩ }
    session := none
    project := fun _ => none }

def setStatus (status : AIWorkStatus) : WorkUpdate :=
  { summary := none
    status := some status
    changedFiles := none
    testsRun := none
    sessionId := none }

/-- An update that nobody disturbs, as call `c`. -/
def update (c : Nat) (status : AIWorkStatus) : List Act :=
  [.begin reviewer (setStatus status), .check c found, .commit c 0, .refresh c, .emit c]

/-- A review is requested at the creation. -/
def requested : List Act :=
  [.create reviewer (entry .reviewRequested) found 0, .refresh 0, .emit 0, .emit 0]

def State.emittedAll (s : State) : Bool := s.calls.all (·.owed.isEmpty)

theorem not_owes_of_emittedAll (h : s.emittedAll = true) (eventType) : ¬ s.Owes eventType := by
  rintro ⟨c, call, hcall, howed⟩
  have hnone := all_eq_true.mp h call (mem_of_getElem? hcall)
  rw [List.isEmpty_iff.mp hnone] at howed
  exact not_mem_nil howed

/-- A review that is approved has its two events. -/
theorem transitions_announced_approved :
    ∃ s, Run (step sampleEnv) Undisturbed State.start (requested ++ update 1 .approved) s ∧
      s.history = [.reviewRequested, .approved] ∧ s.emittedAll = true ∧ s.Announced := by
  have h : (execWithin (step sampleEnv) Undisturbed State.start
      (requested ++ update 1 .approved)).any (fun s =>
        decide (s.history = [.reviewRequested, .approved]) && s.emittedAll) = true := by
    decide +kernel
  obtain ⟨s, hs, hok⟩ := Run.of_any h
  simp only [Bool.and_eq_true, decide_eq_true_eq] at hok
  exact ⟨s, hs, hok.1, hok.2, (transitions_announced Function.injective_id.injOn _ s hs).1⟩

/-- After a request for changes a second review is requested: it has no event.
Two reviewers read `review_requested`: both resolve it. -/
theorem review_announced_once : ¬ (∀ env acts s, Set.InjOn env.uuid5 (Set.range env.eventName) →
        Run (step env) Free State.start acts s → s.Announced) ∧
      ¬ (∀ env acts s, Set.InjOn env.uuid5 (Set.range env.eventName) →
        Run (step env) Free State.start acts s → Reviewed s.history) := by
  constructor
  · intro hclaim
    have h : (execWithin (step sampleEnv) Free State.start
        (requested ++ update 1 .changesRequested ++ update 2 .reviewRequested)).any (fun s =>
          decide (s.eventTypes.count .aiWorkReviewRequested ≠ s.history.count .reviewRequested) &&
            s.emittedAll) = true := by
      decide +kernel
    obtain ⟨s, hs, hok⟩ := (Option.any_eq_true _ _).mp h
    simp only [Bool.and_eq_true, decide_eq_true_eq] at hok
    exact hok.1 ((hclaim sampleEnv _ s Function.injective_id.injOn (.of_execWithin hs)
      .reviewRequested .aiWorkReviewRequested rfl).2 (not_owes_of_emittedAll hok.2 _))
  · intro hclaim
    have h : (execWithin (step sampleEnv) Free State.start
        (requested ++ [.begin reviewer (setStatus .approved),
          .begin reviewer (setStatus .changesRequested), .check 1 found, .check 2 found,
          .commit 1 0, .commit 2 0])).any (fun s =>
            decide (s.history = [.reviewRequested, .approved, .changesRequested])) = true := by
      decide +kernel
    obtain ⟨s, hs, hok⟩ := Run.of_any h
    have hreviewed := hclaim sampleEnv _ s Function.injective_id.injOn hs
    rw [of_decide_eq_true hok] at hreviewed
    have hchain := hreviewed.2
    simp only [isChain_cons_cons] at hchain
    exact absurd (hchain.2.1 (by decide)) (by decide)

end StudioOS.AiWork
