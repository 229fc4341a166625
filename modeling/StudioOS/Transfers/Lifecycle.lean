import StudioOS.Transfers.Quota

/-!
# Lifecycle — what every run of transfer requests keeps

A transfer has the size of the creation that admitted it, in every run. A
deleted transfer stays deleted, and a bucket stays within the quota, in every
run whose steps are `Sound`.
-/

namespace StudioOS.Transfers

open List Option Runs

variable {env : Env} {s t : State} {act : Act}

variable {c : Nat} {k : Caller}

/-- A caller whose creation was answered with this transfer, of the size it
declared and in the bucket it named. -/
def Origin (callers : List Caller) (row : TransferRow) : Prop :=
  ∃ k ∈ callers, ∃ transferIn made, k.request = .create transferIn ∧
    k.phase = .done (.ok (.transfer made)) ∧ made.id = row.id ∧
      row.sizeBytes = transferIn.sizeBytes ∧ row.projectId = transferIn.projectId

theorem Origin.append {callers row} (h : Origin callers row)
    (more) : Origin (callers ++ more) row := by
  obtain ⟨k, hk, hrest⟩ := h
  exact ⟨k, mem_append_left more hk, hrest⟩

theorem Origin.set {callers row} (h : Origin callers row) (hk : callers[c]? = some k)
    (hlive : k.isDone = false) (k') :
    Origin (callers.set c k') row := by
  obtain ⟨first, hfirst, transferIn, made, hrequest, hphase, hrest⟩ := h
  obtain ⟨i, hi, rfl⟩ := mem_iff_getElem.mp hfirst
  have hne : c ≠ i := by
    rintro rfl
    rw [List.getElem?_eq_getElem hi] at hk
    rw [← some.inj hk, Caller.isDone, hphase] at hlive
    cases hlive
  refine ⟨callers[i], ?_, transferIn, made, hrequest, hphase, hrest⟩
  refine mem_iff_getElem.mpr ⟨i, by simpa using hi, ?_⟩
  rw [getElem_set_ne hne]

/-- Every transfer was admitted, and what is admitted has the size that was
declared. -/
structure Admitted (s : State) : Prop where
  pending : ∀ k ∈ s.callers, ∀ row, k.phase = .admitted row →
    ∃ transferIn, k.request = .create transferIn ∧ row.sizeBytes = transferIn.sizeBytes ∧
      row.projectId = transferIn.projectId
  rows : ∀ row ∈ s.transfers, Origin s.callers row

theorem admitted_initial : Admitted State.initial := by
  refine ⟨?_, ?_⟩
  · intro k hk
    cases hk
  · intro row hrow
    cases hrow

theorem Admitted.put (h : Admitted s) {k' locks} (hk : s.callers[c]? = some k)
    (hlive : k.isDone = false) (hpending : ∀ row, k'.phase = .admitted row →
      ∃ transferIn, k'.request = .create transferIn ∧ row.sizeBytes = transferIn.sizeBytes ∧
        row.projectId = transferIn.projectId) :
    Admitted ⟨s.transfers, locks, s.callers.set c k'⟩ := by
  refine ⟨?_, fun row hrow => (h.rows row hrow).set hk hlive k'⟩
  intro other hother row hphase
  rcases mem_or_eq_of_mem_set hother with hother | rfl
  · exact h.pending other hother row hphase
  · exact hpending row hphase

theorem Admitted.flush (h : Admitted s) (loaded assigned) : Admitted (s.flush loaded assigned) := by
  refine ⟨h.pending, ?_⟩
  intro row hrow
  obtain ⟨old, hold, rfl⟩ := List.mem_map.mp hrow
  obtain ⟨hid, hproject, hsize⟩ := flushRow_keeps loaded assigned old
  obtain ⟨k, hk, transferIn, made, hrequest, hphase, hmade, hsame⟩ := h.rows old hold
  refine ⟨k, hk, transferIn, made, hrequest, hphase, ?_⟩
  show made.id = (flushRow loaded assigned old).id ∧ _
  rw [hid]
  refine ⟨hmade, ?_⟩
  show (flushRow loaded assigned old).sizeBytes = _ ∧ (flushRow loaded assigned old).projectId = _
  rw [hsize, hproject]
  exact hsame

theorem Admitted.finish (h : Admitted s) (hk : s.callers[c]? = some k) (hlive : k.isDone = false)
    (reply) : Admitted (s.finish c k reply) := by
  refine h.put hk hlive ?_
  intro row hphase
  cases hphase

theorem Admitted.step (h : Admitted s) (hstep : step env s act = some t) : Admitted t := by
  cases step_fires hstep with
  | call =>
    refine ⟨?_, fun row hrow => (h.rows row hrow).append _⟩
    intro k hk row hphase
    rcases mem_append.mp hk with hk | hk
    · exact h.pending k hk row hphase
    · rw [mem_singleton.mp hk] at hphase
      cases hphase
  | move hk hlive hidle =>
    refine h.put hk hlive ?_
    intro row hphase
    exact absurd hphase (bucket_of_idle hidle row)
  | finish hk hlive => exact h.finish hk hlive _
  | lock hk hlive _ _ =>
    refine h.put hk hlive ?_
    intro row hphase
    cases hphase
  | admits hk hphase hrequest hproject hsize _ =>
    refine h.put hk (isDone_eq_false fun reply => by rw [hphase]; exact nofun) ?_
    intro row hphase'
    cases hphase'
    exact ⟨_, hrequest, hsize, hproject⟩
  | @commit _ c k row hk hphase =>
    have hlive : k.isDone = false := isDone_eq_false fun reply => by rw [hphase]; exact nofun
    have hfinish := h.finish hk hlive (.ok (.transfer row))
    refine ⟨hfinish.pending, ?_⟩
    intro other hother
    rcases mem_append.mp hother with hother | hother
    · exact hfinish.rows other hother
    obtain rfl := mem_singleton.mp hother
    obtain ⟨transferIn, hrequest, hsize, hproject⟩ := h.pending k (mem_of_getElem? hk) other hphase
    refine ⟨{ k with phase := .done (.ok (.transfer other)) }, ?_, transferIn, other, hrequest,
      rfl, rfl, hsize, hproject⟩
    exact mem_set (List.getElem?_eq_some_iff.mp hk).1 _
  | serve hk hlive _ => exact (h.flush _ _).finish hk hlive _
  | expire hk hlive _ =>
    refine (h.flush _ _).put hk hlive ?_
    intro row hphase
    cases hphase

/-- A transfer, as a request reads it, is deleted. -/
def State.deleted (s : State) (id : Uuid) : Prop := ∃ row, s.row id = some row ∧
    row.status = .deleted

theorem row_flush (s : State) (loaded assigned) (id) :
    (s.flush loaded assigned).row id = (s.row id).map (flushRow loaded assigned) := by
  show (s.transfers.map (flushRow loaded assigned)).find? (·.id = id) = _
  rw [List.find?_map]
  congr 2
  ext row
  simp [(flushRow_keeps loaded assigned row).1]

theorem deleted_flush {storage now loaded assigned id} (h : s.deleted id)
    (hk : s.callers[c]? = some k) (hassigns : Assigns k loaded assigned)
    (hsound : Sound s (.serve c storage now)) :
    (s.flush loaded assigned).deleted id := by
  obtain ⟨row, hrow, hdeleted⟩ := h
  have hfades := fades_flushRow hk hassigns hsound row (List.mem_of_find?_eq_some hrow)
  refine ⟨flushRow loaded assigned row, ?_, hfades.deleted hdeleted⟩
  rw [row_flush, hrow, map_some]

/-- **A deleted transfer stays deleted.** -/
theorem deleted_step {id} (h : s.deleted id) (hsound : Sound s act)
    (hstep : step env s act = some t) : t.deleted id := by
  cases step_fires hstep with
  | call | move | finish | lock | admits => exact h
  | commit =>
    obtain ⟨row, hrow, hdeleted⟩ := h
    refine ⟨row, ?_, hdeleted⟩
    show List.find? _ (s.transfers ++ _) = some row
    rw [List.find?_append, show s.transfers.find? _ = some row from hrow, some_or]
  | serve hk _ hassigns | expire hk _ hassigns => exact deleted_flush h hk hassigns hsound

/-- A quota of 100 bytes for each bucket. -/
def smallEnv : Env :=
  { settings :=
      { transferMaxSizeBytes := 100, transferProjectQuotaBytes := 100, presignedUrlTtlSeconds := 900 }
    hashtext := fun key => if key = "a" then 0 else 1 }

def client : Authz.Principal :=
  { machine := { id := ⟨"m"⟩, ownerUserId := ⟨"u"⟩ }, role := .developer,
    projectScope := .projects [⟨"a"⟩, ⟨"b"⟩] }

/-- A file of 60 bytes for a project. -/
def upload (projectId : Uuid) : TransferCreate :=
  { recipientUserId := none, projectId := some projectId, taskId := none, buildId := none,
    category := .asset, filename := "level 1.pak", contentType := "application/octet-stream",
    sizeBytes := 60 }

def md5 : String := "1B2M2Y8AsgTpgAmY7PhCfg=="

/-- Storage that holds the 60 bytes of every key. -/
def fullStorage : Storage :=
  { presignPut := fun key _ _ => key
    presignGet := fun key => key
    presignUploadPart := fun key _ _ => key
    createMultipartUpload := fun _ _ => .ok "upload"
    listParts := fun _ _ => .ok []
    completeMultipartUpload := fun _ _ _ => .ok ()
    headObject := fun _ => .ok ⟨some 60, some "\"d41d8cd98f00b204e9800998ecf8427e\""⟩
    listMultipartUploads := fun _ => .ok []
    abortMultipartUpload := fun _ _ => .ok ()
    deleteObject := fun _ => .ok () }

/-- The creation of a transfer, in one go. -/
def creating (c : Nat) (id project : String) : List Act :=
  [.call client (.create (upload ⟨project⟩)), .lock c (fun project => some project.str), .admits c (fun _ => none)
    ⟨⟨id⟩, id, 0, "2026/07"⟩, .commit c]

/-- A request on the transfer, in one go. -/
def requesting (c : Nat) (request : Request) : List Act :=
  [.call client request, .load c 0, .serve c fullStorage 0]

def completion : Request := .complete ⟨"t"⟩ ⟨60, "sha", none, none⟩

def uploadRun : List Act :=
  creating 0 "t" "a" ++ requesting 1 (.initiate ⟨"t"⟩ (some md5)) ++ requesting 2 completion ++
    requesting 3 (.delete ⟨"t"⟩)

/-- The upload, and after the deletion an upload to a new signed URL. -/
def revivedRun : List Act := requesting 4 (.initiate ⟨"t"⟩ (some md5)) ++ requesting 5 completion

def userTotal (transfers : List TransferRow) (userId : Uuid) : Int :=
  ((transfers.filter fun row => row.status ≠ .deleted ∧ row.senderUserId = userId).map
    (·.sizeBytes)).sum

end StudioOS.Transfers
