import Mathlib.Algebra.Order.BigOperators.Group.List
import StudioOS.Transfers.System

/-!
# Quota — the lifecycle of transfers and the quota of a bucket

What one step can do (`Fires`), and what every run keeps: a transfer has the
size it was admitted with, a deleted transfer stays deleted, and the transfers
of a bucket that are not deleted fit in the quota.
-/

namespace StudioOS.Transfers

open List Option Runs

variable {env : Env} {s : State} {act : Act}

variable {settings : Settings} {principal : Authz.Principal} {transfers : List TransferRow}
  {row transfer assigned loaded : TransferRow} {storage : Storage} {now : Timestamp} {k : Caller}
  {c : Nat}

/-! ## What a step does -/

/-- The quota bucket whose lock a caller holds. -/
def Caller.bucket (k : Caller) : Option (Option Uuid) :=
  match k.phase, k.request with
  | .locked _, .create transferIn => some transferIn.projectId
  | .admitted row, _ => some row.projectId
  | _, _ => none

def Caller.isDone (k : Caller) : Bool :=
  match k.phase with
  | .done _ => true
  | _ => false

/-- The status a request assigns is the one it loaded, or it revives or
deletes the transfer. -/
def Assigns (k : Caller) (loaded assigned : TransferRow) : Prop :=
  assigned.status = loaded.status ∨ k.revives = some (loaded, assigned.status) ∨
    assigned.status = .deleted ∧ k.deletes = some loaded

inductive Fires (env : Env) (s : State) : Act → State → Prop where
  | call {principal request} :
      Fires env s (.call principal request)
        { s with callers := s.callers ++ [{ principal, request, phase := .start }] }
  | move {act c k phase} (hk : s.callers[c]? = some k) (hlive : k.isDone = false)
      (hidle : Caller.bucket { k with phase := phase } = none) :
      Fires env s act (s.put c { k with phase := phase })
  | finish {act c k reply} (hk : s.callers[c]? = some k) (hlive : k.isDone = false) :
      Fires env s act (s.finish c k reply)
  | lock {act c k transferIn slug} (hk : s.callers[c]? = some k) (hlive : k.isDone = false)
      (hrequest : k.request = .create transferIn)
      (hfree : s.locks (env.key transferIn.projectId) = none) :
      Fires env s act
        { s.put c { k with phase := .locked slug } with
          locks := fun other =>
            if other = env.key transferIn.projectId then some c else s.locks other }
  | admits {act c k transferIn slug row} (hk : s.callers[c]? = some k)
      (hphase : k.phase = .locked slug) (hrequest : k.request = .create transferIn)
      (hproject : row.projectId = transferIn.projectId)
      (hsize : row.sizeBytes = transferIn.sizeBytes)
      (hquota : computeConsumption s.transfers row.projectId + row.sizeBytes ≤
        env.settings.transferProjectQuotaBytes) :
      Fires env s act (s.put c { k with phase := .admitted row })
  | commit {act : Act} {c k row} (hk : s.callers[c]? = some k) (hphase : k.phase = .admitted row) :
      Fires env s act
        { s.finish c k (.ok (.transfer row)) with transfers := s.transfers ++ [row] }
  | serve {c k storage now loaded assigned reply} (hk : s.callers[c]? = some k)
      (hlive : k.isDone = false) (hassigns : Assigns k loaded assigned) :
      Fires env s (.serve c storage now) ((s.flush loaded assigned).finish c k reply)
  | expire {c k storage now loaded assigned rest} (hk : s.callers[c]? = some k)
      (hlive : k.isDone = false) (hassigns : Assigns k loaded assigned) :
      Fires env s (.serve c storage now)
        ((s.flush loaded assigned).put c { k with phase := .expiring rest })

variable {projectId : Option Uuid} {f : TransferRow → TransferRow}

theorem enforceQuota_ok {consumed sizeBytes u}
    (h : enforceQuota settings projectId consumed sizeBytes = .ok u) :
    consumed + sizeBytes ≤ settings.transferProjectQuotaBytes :=
  not_lt.mp (raiseIf_ok h)

theorem admitCreate_ok {builds transferIn slug draw}
    (h : admitCreate settings principal transfers builds transferIn slug draw = .ok row) :
    row = newTransfer principal transferIn slug draw ∧
      computeConsumption transfers transferIn.projectId + transferIn.sizeBytes ≤
        settings.transferProjectQuotaBytes := by
  obtain ⟨_, hquota, h⟩ := bind_ok h
  obtain ⟨_, _, h⟩ := bind_ok h
  exact ⟨(Except.ok.inj h).symm, enforceQuota_ok hquota⟩

theorem initiateUpload_status {contentMd5 : Option String} {reply : Reply}
    (h : initiateUpload principal storage settings transfer contentMd5 now = .ok (assigned, reply)) :
    assigned.status = transfer.status := by
  obtain ⟨_, _, h⟩ := bind_ok h
  obtain ⟨_, _, h⟩ := bind_ok h
  obtain ⟨_, _, h⟩ := bind_ok h
  by_cases hsize : transfer.sizeBytes ≤ multipartThresholdBytes
  · rw [if_pos hsize] at h
    obtain ⟨_, _, h⟩ := bind_ok h
    cases h
    rfl
  · rw [if_neg hsize] at h
    obtain ⟨_, _, h⟩ := bind_ok h
    cases h
    rfl

theorem refreshUploadParts_row {uploadId partSize numbers reply}
    (h : refreshUploadParts principal storage settings transfer uploadId partSize numbers now =
      .ok (assigned, reply)) : assigned = transfer := by
  obtain ⟨_, _, h⟩ := bind_ok h
  obtain ⟨_, _, h⟩ := bind_ok h
  obtain ⟨_, _, h⟩ := bind_ok h
  obtain ⟨_, _, h⟩ := bind_ok h
  obtain ⟨_, _, h⟩ := bind_ok h
  obtain ⟨_, _, h⟩ := bind_ok h
  cases h
  rfl

theorem completeUpload_status {body}
    (h : completeUpload principal storage transfer body now = .ok assigned) :
    assigned.status = .ready := by
  obtain ⟨_, _, h⟩ := bind_ok h
  obtain ⟨_, _, h⟩ := bind_ok h
  obtain ⟨_, _, h⟩ := bind_ok h
  obtain ⟨_, _, h⟩ := bind_ok h
  obtain ⟨_, _, h⟩ := bind_ok h
  obtain ⟨_, _, h⟩ := bind_ok h
  obtain ⟨_, _, h⟩ := bind_ok h
  cases h
  rfl

theorem doDelete_status (h : doDelete storage transfer now = .ok assigned) :
    assigned = transfer ∨ assigned.status = .deleted := by
  unfold doDelete at h
  split at h
  · exact .inl (Except.ok.inj h).symm
  · obtain ⟨_, _, h⟩ := bind_ok h
    cases h
    exact .inr rfl

theorem deleteTransfer_status

    (h : deleteTransfer principal storage transfer now = .ok assigned) :
    assigned = transfer ∨ assigned.status = .deleted := by
  obtain ⟨_, _, h⟩ := bind_ok h
  obtain ⟨_, _, h⟩ := bind_ok h
  exact doDelete_status h

theorem serveLoaded_assigns {reply} (hphase : k.phase = .loaded transfer)
    (h : serveLoaded env k transfer storage now = .ok (assigned, reply)) :
    Assigns k transfer assigned := by
  unfold serveLoaded at h
  split at h
  · obtain ⟨⟨row, out⟩, hrow, h⟩ := bind_ok h
    cases h
    exact .inl (initiateUpload_status hrow)
  · obtain ⟨⟨row, out⟩, hrow, h⟩ := bind_ok h
    cases h
    exact .inl (by rw [refreshUploadParts_row hrow])
  · rename_i hrequest
    obtain ⟨row, hrow, h⟩ := bind_ok h
    cases h
    refine .inr (.inl ?_)
    rw [Caller.revives, hphase, hrequest, completeUpload_status hrow]
    rfl
  · cases h
    exact .inl rfl
  · rename_i hrequest
    cases h
    refine .inr (.inl ?_)
    rw [Caller.revives, hphase, hrequest]
    rfl
  · rename_i hrequest
    obtain ⟨row, hrow, h⟩ := bind_ok h
    cases h
    rcases deleteTransfer_status hrow with rfl | hdeleted
    · exact .inl rfl
    · refine .inr (.inr ⟨hdeleted, ?_⟩)
      rw [Caller.deletes, hphase, hrequest]
  · cases h
  · cases h

theorem isDone_eq_false (h : ∀ reply, k.phase ≠ .done reply) : k.isDone = false := by
  unfold Caller.isDone
  split
  · rename_i reply hphase
    exact absurd hphase (h reply)
  · rfl

theorem step_fires {t} (h : step env s act = some t) : Fires env s act t := by
  cases act with
  | call principal request =>
    cases h
    exact .call
  | lock c projects =>
    obtain ⟨k, hk, h⟩ := bind_eq_some_iff.mp h
    unfold State.lock at h
    split at h
    · rename_i transferIn hphase hrequest
      have hlive : k.isDone = false := isDone_eq_false fun reply => by rw [hphase]; exact nofun
      split at h
      · cases h
        exact .finish hk hlive
      simp only [] at h
      split at h
      · rename_i hfree
        cases h
        exact .lock hk hlive hrequest hfree
      · cases h
    · cases h
  | admits c builds draw =>
    obtain ⟨k, hk, h⟩ := bind_eq_some_iff.mp h
    unfold State.admits at h
    split at h
    · rename_i slug transferIn hphase hrequest
      split at h
      · cases h
        exact .finish hk (isDone_eq_false fun reply => by rw [hphase]; exact nofun)
      · rename_i row hrow
        cases h
        obtain ⟨rfl, hquota⟩ := admitCreate_ok hrow
        exact .admits hk hphase hrequest rfl rfl hquota
    · cases h
  | commit c =>
    obtain ⟨k, hk, h⟩ := bind_eq_some_iff.mp h
    unfold State.commit at h
    split at h
    · rename_i row hphase
      split at h
      · cases h
        exact .commit hk hphase
      · cases h
        exact .finish hk (isDone_eq_false fun reply => by rw [hphase]; exact nofun)
    · cases h
  | load c now =>
    obtain ⟨k, hk, h⟩ := bind_eq_some_iff.mp h
    unfold State.load at h
    split at h
    · cases h
    · rename_i hphase hrequest
      cases h
      exact .move hk (isDone_eq_false fun reply => by rw [hphase]; exact nofun) rfl
    · rename_i _ hphase _ _
      have hlive : k.isDone = false := isDone_eq_false fun reply => by rw [hphase]; exact nofun
      split at h
      · cases h
      · split at h
        · cases h
          exact .finish hk hlive
        · cases h
          exact .move hk hlive rfl
    · cases h
  | serve c storage now =>
    obtain ⟨k, hk, h⟩ := bind_eq_some_iff.mp h
    unfold State.serve at h
    split at h
    · rename_i transfer hphase
      have hlive : k.isDone = false := isDone_eq_false fun reply => by rw [hphase]; exact nofun
      split at h
      · cases h
        exact .finish hk hlive
      · rename_i hserved
        cases h
        exact .serve hk hlive (serveLoaded_assigns hphase hserved)
    · rename_i hphase
      cases h
      exact .finish hk (isDone_eq_false fun reply => by rw [hphase]; exact nofun)
    · rename_i transfer rest hphase
      have hlive : k.isDone = false := isDone_eq_false fun reply => by rw [hphase]; exact nofun
      split at h
      · cases h
        exact .finish hk hlive
      rename_i hrow
      cases h
      refine .expire hk hlive ?_
      rcases doDelete_status hrow with rfl | hdeleted
      · exact .inl rfl
      · refine .inr (.inr ⟨hdeleted, ?_⟩)
        rw [Caller.deletes, hphase]
    · cases h

/-- What a transfer adds to a bucket. -/
def weight (projectId : Option Uuid) (row : TransferRow) : Int :=
  if row.status ≠ .deleted ∧ row.projectId = projectId then row.sizeBytes else 0

theorem computeConsumption_eq (transfers projectId) :
    computeConsumption transfers projectId = (transfers.map (weight projectId)).sum := by
  unfold computeConsumption
  induction transfers with
  | nil => rfl
  | cons row rest ih =>
    rw [map_cons, sum_cons, ← ih, filter_cons, weight]
    by_cases h : row.status ≠ .deleted ∧ row.projectId = projectId <;> simp [h]

theorem computeConsumption_append
    (transfers row projectId) : computeConsumption (transfers ++ [row]) projectId =
      computeConsumption transfers projectId + weight projectId row := by
  simp [computeConsumption_eq]

theorem computeConsumption_map_le
    (h : ∀ row ∈ transfers, weight projectId (f row) ≤ weight projectId row) :
    computeConsumption (transfers.map f) projectId ≤ computeConsumption transfers projectId := by
  rw [computeConsumption_eq, computeConsumption_eq, List.map_map]
  exact sum_le_sum h

def flushRow (loaded assigned row : TransferRow) : TransferRow :=
  if row.id = loaded.id then TransferRow.flush loaded assigned row else row

theorem flush_transfers (s : State) (loaded assigned) :
    (s.flush loaded assigned).transfers = s.transfers.map (flushRow loaded assigned) := rfl

theorem flushRow_keeps (loaded assigned row) :
    (flushRow loaded assigned row).id = row.id ∧
      (flushRow loaded assigned row).projectId = row.projectId ∧
        (flushRow loaded assigned row).sizeBytes = row.sizeBytes := by
  unfold flushRow
  split <;> exact ⟨rfl, rfl, rfl⟩

theorem flush_status (h : assigned.status = loaded.status) :
    (TransferRow.flush loaded assigned row).status = row.status := by
  show flushed loaded.status assigned.status row.status = row.status
  rw [h, flushed_self]

theorem flush_status_of_ne (h : assigned.status ≠ loaded.status) :
    (TransferRow.flush loaded assigned row).status = assigned.status :=
  flushed_of_ne h _

theorem revives_ne_deleted {loaded} (h : k.revives = some loaded) : loaded.2 ≠ .deleted := by
  unfold Caller.revives at h
  split at h
  · cases hrequest : k.request <;> rw [hrequest] at h <;> cases h <;> exact nofun
  · cases h

/-- A flush that gives no new status to a deleted row, and deletes no row
of negative size. -/
structure Fades (f : TransferRow → TransferRow) (row : TransferRow) : Prop where
  id : (f row).id = row.id
  projectId : (f row).projectId = row.projectId
  sizeBytes : (f row).sizeBytes = row.sizeBytes
  deleted : row.status = .deleted → (f row).status = .deleted
  removes : (f row).status = .deleted → row.status = .deleted ∨ 0 ≤ row.sizeBytes

theorem Fades.weight_le (h : Fades f row)
    (projectId) : weight projectId (f row) ≤ weight projectId row := by
  unfold weight
  rw [h.projectId, h.sizeBytes]
  by_cases hafter : (f row).status = .deleted
  · rw [if_neg fun hkept => hkept.1 hafter]
    split
    · rename_i hbefore
      rcases h.removes hafter with hdeleted | hsize
      · exact absurd hdeleted hbefore.1
      · exact hsize
    · exact le_rfl
  · have hbefore : row.status ≠ .deleted := fun hdeleted => hafter (h.deleted hdeleted)
    simp [hafter, hbefore]

theorem fades_flushRow (hk : s.callers[c]? = some k)
    (hassigns : Assigns k loaded assigned) (hsound : Sound s (.serve c storage now)) :
    ∀ row ∈ s.transfers, Fades (flushRow loaded assigned) row := by
  intro row hrow
  obtain ⟨hid, hproject, hsize⟩ := flushRow_keeps loaded assigned row
  suffices hstatus : (row.status = .deleted → (flushRow loaded assigned row).status = .deleted) ∧
      ((flushRow loaded assigned row).status = .deleted →
        row.status = .deleted ∨ 0 ≤ row.sizeBytes) from
    ⟨hid, hproject, hsize, hstatus.1, hstatus.2⟩
  by_cases hthis : row.id = loaded.id
  · rw [flushRow, if_pos hthis]
    by_cases hsame : assigned.status = loaded.status
    · rw [flush_status hsame]
      exact ⟨id, .inl⟩
    rw [flush_status_of_ne hsame]
    obtain ⟨hrevives, hdeletes⟩ := hsound k hk
    rcases hassigns with heq | hrevived | ⟨hdeleted, hloaded⟩
    · exact absurd heq hsame
    · refine ⟨fun hdeleted => ?_, fun hdeleted => absurd hdeleted (revives_ne_deleted hrevived)⟩
      exact absurd hdeleted (hrevives _ hrevived (Ne.symm hsame) row hrow hthis)
    · exact ⟨fun _ => hdeleted, fun _ => .inr (hdeletes loaded hloaded row hrow hthis)⟩
  · rw [flushRow, if_neg hthis]
    exact ⟨id, .inl⟩

/-! ## The quota -/

/-- A creation holds the lock of its bucket until it commits, and what it
has added up leaves room for its transfer. -/
structure Inv (env : Env) (s : State) : Prop where
  locked : ∀ c k projectId, s.callers[c]? = some k → k.bucket = some projectId →
    s.locks (env.key projectId) = some c
  pending : ∀ k ∈ s.callers, ∀ row, k.phase = .admitted row →
    computeConsumption s.transfers row.projectId + row.sizeBytes ≤
      env.settings.transferProjectQuotaBytes
  quota : ∀ row ∈ s.transfers, row.status ≠ .deleted →
    computeConsumption s.transfers row.projectId ≤ env.settings.transferProjectQuotaBytes

theorem inv_initial : Inv env State.initial := by
  refine ⟨?_, ?_, ?_⟩
  · intro c k projectId hk _
    cases hk
  · intro k hk
    cases hk
  · intro row hrow
    cases hrow

theorem bucket_of_admitted (h : k.phase = .admitted row) : k.bucket = some row.projectId := by
  rw [Caller.bucket, h]

/-- One caller moves on; the other callers keep their locks, and no bucket
grows. -/
theorem Inv.put {k' locks} (h : Inv env s)

    (hlocks : ∀ key other, other ≠ c → s.locks key = some other → locks key = some other)
    (hle : ∀ projectId,
      computeConsumption transfers projectId ≤ computeConsumption s.transfers projectId)
    (hkept : ∀ row ∈ transfers, row.status ≠ .deleted →
      ∃ old ∈ s.transfers, old.projectId = row.projectId ∧ old.status ≠ .deleted)
    (hbucket : ∀ projectId, k'.bucket = some projectId → locks (env.key projectId) = some c)
    (hpending : ∀ row, k'.phase = .admitted row →
      computeConsumption s.transfers row.projectId + row.sizeBytes ≤
        env.settings.transferProjectQuotaBytes) :
    Inv env ⟨transfers, locks, s.callers.set c k'⟩ := by
  refine ⟨?_, ?_, ?_⟩
  · intro other k projectId hk hb
    rw [List.getElem?_set] at hk
    split at hk
    · rename_i heq
      subst heq
      split at hk
      · cases hk
        exact hbucket projectId hb
      · cases hk
    · rename_i hne
      exact hlocks _ other (Ne.symm hne) (h.locked other k projectId hk hb)
  · intro k hk row hphase
    have hroom : computeConsumption s.transfers row.projectId + row.sizeBytes ≤
        env.settings.transferProjectQuotaBytes := by
      rcases mem_or_eq_of_mem_set hk with hk | rfl
      · exact h.pending k hk row hphase
      · exact hpending row hphase
    exact (Int.add_le_add_right (hle row.projectId) _).trans hroom
  · intro row hrow hstatus
    obtain ⟨old, hold, heq, holdStatus⟩ := hkept row hrow hstatus
    have hquota := h.quota old hold holdStatus
    rw [heq] at hquota
    exact (hle row.projectId).trans hquota

theorem finish_locks (k) (reply) (key other) (hne : other ≠ c) (hlock : s.locks key = some other) :
    (s.finish c k reply).locks key = some other := by
  show (if s.locks key = some c then none else s.locks key) = some other
  rw [if_neg, hlock]
  rw [hlock]
  exact fun heq => hne (some.inj heq)

theorem bucket_of_idle (h : k.bucket = none) (row) : k.phase ≠ .admitted row := by
  intro hphase
  rw [bucket_of_admitted hphase] at h
  cases h

theorem Inv.finish (h : Inv env s) (c) (k) (reply) : Inv env (s.finish c k reply) := by
  refine h.put (finish_locks k reply) (fun _ => le_rfl) ?_ ?_ ?_
  · intro row hrow hstatus
    exact ⟨row, hrow, rfl, hstatus⟩
  · intro projectId hbucket
    cases hbucket
  · intro row hphase
    cases hphase

/-- A creation commits: its bucket had room for it, and nobody else adds to
the bucket. -/
theorem Inv.commit (h : Inv env s)
    (hk : s.callers[c]? = some k) (hphase : k.phase = .admitted row) :
    Inv env { s.finish c k (.ok (.transfer row)) with transfers := s.transfers ++ [row] } := by
  have hroom := h.pending k (mem_of_getElem? hk) row hphase
  have hlock := h.locked c k row.projectId hk (bucket_of_admitted hphase)
  have hother : ∀ projectId, weight projectId row ≠ 0 → row.projectId = projectId ∧
      weight projectId row = row.sizeBytes := by
    intro projectId hne
    unfold weight at hne ⊢
    split at hne
    · rename_i hcounts
      exact ⟨hcounts.2, if_pos hcounts⟩
    · exact absurd rfl hne
  have hfinish := h.finish c k (.ok (.transfer row))
  refine ⟨hfinish.locked, ?_, ?_⟩
  · intro k' hk' row' hphase'
    rw [computeConsumption_append]
    have hroom' := hfinish.pending k' hk' row' hphase'
    by_cases hzero : weight row'.projectId row = 0
    · rw [hzero, Int.add_zero]
      exact hroom'
    -- two creations of one bucket would both hold its lock
    obtain ⟨i, hi, rfl⟩ := mem_iff_getElem.mp hk'
    have hlock' := hfinish.locked i _ row'.projectId (List.getElem?_eq_getElem hi)
      (bucket_of_admitted hphase')
    rw [← (hother _ hzero).1] at hlock'
    have hfree : (s.finish c k (.ok (.transfer row))).locks (env.key row.projectId) = none :=
      if_pos hlock
    rw [hfree] at hlock'
    cases hlock'
  · intro old hold hstatus
    rw [computeConsumption_append]
    by_cases hzero : weight old.projectId row = 0
    · rw [hzero, Int.add_zero]
      rcases mem_append.mp hold with hold | hold
      · exact h.quota old hold hstatus
      · obtain rfl := mem_singleton.mp hold
        have hsize : weight old.projectId old = old.sizeBytes := if_pos ⟨hstatus, rfl⟩
        rw [← hsize, hzero, Int.add_zero] at hroom
        exact hroom
    · obtain ⟨hproject, hsize⟩ := hother _ hzero
      rw [hsize, ← hproject]
      exact hroom

theorem Inv.flush {k' locks} (h : Inv env s) (hk : s.callers[c]? = some k)
    (hassigns : Assigns k loaded assigned) (hsound : Sound s (.serve c storage now))
    (hlocks : ∀ key other, other ≠ c → s.locks key = some other → locks key = some other)
    (hidle : k'.bucket = none) :
    Inv env ⟨(s.flush loaded assigned).transfers, locks, s.callers.set c k'⟩ := by
  have hfades := fades_flushRow hk hassigns hsound
  rw [flush_transfers]
  refine h.put hlocks ?_ ?_ ?_ ?_
  · intro projectId
    exact computeConsumption_map_le fun row hrow => (hfades row hrow).weight_le projectId
  · intro row hrow hstatus
    obtain ⟨old, hold, rfl⟩ := List.mem_map.mp hrow
    exact ⟨old, hold, (hfades old hold).projectId.symm,
      fun hdeleted => hstatus ((hfades old hold).deleted hdeleted)⟩
  · intro projectId hbucket
    rw [hidle] at hbucket
    cases hbucket
  · intro row hphase
    exact absurd hphase (bucket_of_idle hidle row)

theorem Inv.step {t} (h : Inv env s) (hsound : Sound s act) (hstep : step env s act = some t) :
    Inv env t := by
  have hkept : ∀ row ∈ s.transfers, row.status ≠ .deleted →
      ∃ old ∈ s.transfers, old.projectId = row.projectId ∧ old.status ≠ .deleted :=
    fun row hrow hstatus => ⟨row, hrow, rfl, hstatus⟩
  cases step_fires hstep with
  | call =>
    refine ⟨?_, ?_, h.quota⟩
    · intro c k projectId hk hbucket
      rw [List.getElem?_append] at hk
      split at hk
      · exact h.locked c k projectId hk hbucket
      · rw [mem_singleton.mp (mem_of_getElem? hk)] at hbucket
        cases hbucket
    · intro k hk row hphase
      rcases mem_append.mp hk with hk | hk
      · exact h.pending k hk row hphase
      · rw [mem_singleton.mp hk] at hphase
        cases hphase
  | move hk _ hidle =>
    refine h.put (fun _ _ _ => id) (fun _ => le_rfl) hkept ?_ ?_
    · intro projectId hbucket
      rw [hidle] at hbucket
      cases hbucket
    · intro row hphase
      exact absurd hphase (bucket_of_idle hidle row)
  | finish hk _ => exact h.finish _ _ _
  | @lock _ c k transferIn slug hk _ hrequest hfree =>
    refine h.put ?_ (fun _ => le_rfl) hkept ?_ ?_
    · intro key other hne hlock
      show (if key = env.key transferIn.projectId then some c else s.locks key) = some other
      rw [if_neg, hlock]
      rintro rfl
      rw [hfree] at hlock
      cases hlock
    · intro projectId hbucket
      simp only [Caller.bucket, hrequest, Option.some.injEq] at hbucket
      subst hbucket
      exact if_pos rfl
    · intro row hphase
      cases hphase
  | @admits _ c k transferIn slug row hk hphase hrequest hproject _ hquota =>
    refine h.put (fun _ _ _ => id) (fun _ => le_rfl) hkept ?_ ?_
    · intro projectId hbucket
      simp only [Caller.bucket, Option.some.injEq] at hbucket
      subst hbucket
      refine h.locked c k row.projectId hk ?_
      rw [Caller.bucket, hphase, hrequest, hproject]
    · intro row' hphase'
      cases hphase'
      exact hquota
  | commit hk hphase => exact h.commit hk hphase
  | @serve c k _ _ _ _ reply hk _ hassigns =>
    exact h.flush hk hassigns hsound (finish_locks k reply) rfl
  | expire hk _ hassigns => exact h.flush hk hassigns hsound (fun _ _ _ => id) rfl

end StudioOS.Transfers
