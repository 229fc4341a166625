import StudioOS.Accounts.Secrets

/-!
# SecretSteps — what each statement does to the secrets

Every write of a transaction makes a secret unacceptable, on a row that no
other transaction can write; what a consumer has read of the user tells it
what has not been committed before.
-/

namespace StudioOS.Accounts.Secrets

open List Option

variable {settings : Settings} {s t : State} {act : Act}

variable {c place d : Nat} {call next : Call} {now : Int} {token : Token}

/-! ## The steps -/

/-- Steps that write nothing and go on. -/
inductive Moved (s : State) (c : Nat) (call : Call) : Call → Prop where
  | absent (hsecret : call.op.secret = none) : Moved s c call (call.go .absent)
  | inserted (hphase : call.phase = .absent) (hnone : s.user = none)
      (hfree : s.addressLocked c = false) : Moved s c call (call.go .inserted)
  | creating (hphase : call.phase = .inserted) : Moved s c call (call.go (.creating s.clock))
  | issuer (hsecret : call.op.secret = none) (huser : s.user.isSome) :
      Moved s c call (call.go .issuer)
  | latest (hphase : call.phase = .issuer) : Moved s c call (call.go (.latest s.clock))
  | timed (hphase : call.phase = .start) :
      Moved s c call { call.go (.timed s.clock) with timed := s.log.length }
  | checked {user} (hphase : call.phase = .consumed ∨ call.phase = .start ∧ call.op.secret = none)
      (huser : s.user = some user) (hpermits : call.op.permits user = true)
      (hop : call.op.secret.isSome ∨ call.op = .disableAccount) :
      Moved s c call (call.go (.checked user))
  | ready {read} (hphase : call.phase = .checked read) :
      Moved s c call (call.go (.ready read s.clock))
  | issuing {purpose now} (hphase : call.phase = .latest now) :
      Moved s c call (call.go (.updating (.issue purpose now) [some purpose]))
  | writing {read now} (hphase : call.phase = .ready read now) :
      Moved s c call (call.go
        (.updating (.write read (call.op.write read now) now) (call.op.scopes read)))
  | expiring {work scope scopes now} (hphase : call.phase.next = some (work, scope, scopes))
      (hnow : now ≤ s.clock) :
      Moved s c call (call.go (.expiring work scope scopes now (s.snapshot call scope now)))
  | skipped {work scope scopes now todo} (place)
      (hphase : call.phase = .expiring work scope scopes now todo) :
      Moved s c call (call.go (.expiring work scope scopes now (todo.erase place)))

variable {work : Work} {scope : Option Purpose} {scopes : List (Option Purpose)} {later : Int}

theorem next_cases {phase : Phase} (h : phase.next = some (work, scope, scopes)) :
    phase = .updating work (scope :: scopes) ∨
      ∃ before now, phase = .expiring work before (scope :: scopes) now [] := by
  unfold Phase.next at h
  split at h
  · cases h
    exact .inl rfl
  · cases h
    exact .inr ⟨_, _, rfl⟩
  · cases h

def Act.isCommit : Act → Bool
  | .commit _ => true
  | _ => false

/-- The call that goes on, in an act that is no commit. -/
def Act.statement : Act → Option Nat
  | .readUser c | .insertUser c | .readClock c | .selectLatest c | .consume c | .updateUser c
  | .startUpdate c _ | .updateRow c _ | .abort c => some c
  | .tick _ | .begin _ | .commit _ => none

theorem isCommit_of_statement (h : act.statement = some c) : act.isCommit = false := by
  cases act <;> first | rfl | cases h

inductive Fires (settings : Settings) (s : State) : Act → State → Prop where
  | ticked (d : Nat) : Fires settings s (.tick d) { s with clock := s.clock + d }
  | begun (op) : Fires settings s (.begin op)
      { s with calls := s.calls ++ [⟨op, s.log.length, s.log.length, .start, []⟩] }
  | moved {act : Act} {c call next} (hact : act.statement = some c)
      (hcall : s.calls[c]? = some call) (hmoved : Moved s c call next) :
      Fires settings s act (s.put c next)
  /-- A refusal or the end of a transaction that is rolled back. -/
  | finished {act : Act} {c call} (hact : act.statement = some c)
      (hcall : s.calls[c]? = some call) : Fires settings s act (s.put c call.finish)
  | consumed {c call now secret token} (hcall : s.calls[c]? = some call)
      (hphase : call.phase = .timed now) (hsecret : call.op.secret = some secret)
      (htoken : s.tokens[secret]? = some token) (hpurpose : call.op.purpose = some token.purpose)
      (houtstanding : token.outstanding now = true) (hfree : s.isLocked c secret = false) :
      Fires settings s (.consume c) (s.put c { call.go .consumed with
        writes := [(secret, { token with consumedAt := some now })] })
  | expired {c call place token work scope scopes now todo} (hcall : s.calls[c]? = some call)
      (hphase : call.phase = .expiring work scope scopes now todo)
      (htoken : s.seen call place = some token) (houtstanding : token.outstanding now = true)
      (hfree : s.isLocked c place = false) :
      Fires settings s (.updateRow c place) (s.put c
        { call.go (.expiring work scope scopes now (todo.erase place)) with
          writes := (place, { token with expiresAt := now }) :: call.writes })
  | created {c call localPart now} (hcall : s.calls[c]? = some call)
      (hphase : call.phase = .creating now) :
      Fires settings s (.commit c) { s.put c call.finish with
        user := some (newUser localPart)
        tokens := s.tokens ++ [newToken settings .emailVerification now call.began] }
  | committed {c : Nat} {call work scope now} (hcall : s.calls[c]? = some call)
      (hphase : call.phase = .expiring work scope [] now []) :
      Fires settings s (.commit c) (s.commit settings c call work)

theorem afterRead_fires (hcall : s.calls[c]? = some call) (hreads : call.readsUser = true) :
    Fires settings s (.readUser c) (s.put c (afterRead call s.user)) := by
  have hphase : call.phase = .consumed ∨ call.phase = .start ∧ call.op.secret = none := by
    unfold Call.readsUser at hreads
    split at hreads
    · rename_i hstart
      exact .inr ⟨hstart, by simpa using hreads⟩
    · rename_i hconsumed
      exact .inl hconsumed
    · cases hreads
  unfold afterRead
  split
  · rename_i hop _
    exact .moved rfl hcall (.absent (by rw [hop]; rfl))
  · exact .finished rfl hcall
  rename_i user _ huser
  split
  · rename_i hpermits
    split
    · rename_i hop
      exact .moved rfl hcall (.checked hphase huser hpermits hop)
    · rename_i hop
      have hsecret : call.op.secret = none := by
        by_contra hsome
        exact hop (.inl (isSome_iff_ne_none.mpr hsome))
      exact .moved rfl hcall (.issuer hsecret (huser ▸ rfl))
  · exact .finished rfl hcall

theorem afterClock_moved
    (h : afterClock call s.clock s.log.length = some next) : Moved s c call next := by
  unfold afterClock at h
  split at h
  · rename_i hphase
    split at h
    · cases h
      exact .timed hphase
    · cases h
  · rename_i hphase
    cases h
    exact .creating hphase
  · rename_i hphase
    cases h
    exact .latest hphase
  · rename_i hphase
    cases h
    exact .ready hphase
  · cases h

theorem consume_fires (hcall : s.calls[c]? = some call)
    (hphase : call.phase = .timed now) (h : s.consume c call now = some t) :
    Fires settings s (.consume c) t := by
  unfold State.consume at h
  split at h
  · cases h
    exact .finished rfl hcall
  rename_i secret token hfound
  obtain ⟨other, hsecret, hmap⟩ := bind_eq_some_iff.mp hfound
  obtain ⟨token', htoken, heq⟩ := map_eq_some_iff.mp hmap
  cases heq
  split at h
  · rename_i hcond
    split at h
    · cases h
    · rename_i hfree
      cases h
      exact .consumed hcall hphase hsecret htoken hcond.1 hcond.2 (Bool.eq_false_iff.mpr hfree)
  · cases h
    exact .finished rfl hcall

theorem updateRow_fires {todo : List Nat}
    (hcall : s.calls[c]? = some call) (hphase : call.phase = .expiring work scope scopes now todo)
    (h : s.updateRow c call place work scope scopes now todo = some t) :
    Fires settings s (.updateRow c place) t := by
  unfold State.updateRow at h
  split at h
  · split at h
    · cases h
    rename_i hfree
    simp only at h
    split at h
    · cases h
      exact .moved rfl hcall (.skipped place hphase)
    rename_i token htoken
    split at h
    · rename_i hcond
      cases h
      exact .expired hcall hphase htoken (Bool.and_eq_true_iff.mp hcond).2
        (Bool.eq_false_iff.mpr hfree)
    · cases h
      exact .moved rfl hcall (.skipped place hphase)
  · cases h

theorem step_fires (h : step settings s act = some t) : Fires settings s act t := by
  cases act with
  | tick d =>
    cases h
    exact .ticked d
  | begin op =>
    cases h
    exact .begun op
  | readUser c =>
    simp only [step] at h
    split at h
    · rename_i call hcall
      split at h
      · rename_i hreads
        cases h
        exact afterRead_fires hcall hreads
      · cases h
    · cases h
  | insertUser c =>
    simp only [step] at h
    split at h
    · rename_i call hcall
      split at h
      · rename_i hphase
        split at h
        · cases h
          exact .finished rfl hcall
        rename_i hnone
        split at h
        · cases h
        · rename_i hfree
          cases h
          exact .moved rfl hcall (.inserted hphase (by simpa using hnone)
            (Bool.eq_false_iff.mpr hfree))
      · cases h
    · cases h
  | readClock c =>
    simp only [step] at h
    split at h
    · rename_i call hcall
      obtain ⟨next, hnext, rfl⟩ := map_eq_some_iff.mp h
      exact .moved rfl hcall (afterClock_moved hnext)
    · cases h
  | selectLatest c =>
    simp only [step] at h
    split at h
    · rename_i call hcall
      split at h
      · rename_i hphase _
        split at h <;> obtain rfl := some.inj h
        · exact .finished rfl hcall
        · exact .moved rfl hcall (.issuing hphase)
      · cases h
    · cases h
  | consume c =>
    simp only [step] at h
    split at h
    · rename_i call hcall
      split at h
      · rename_i hphase
        exact consume_fires hcall hphase h
      · cases h
    · cases h
  | updateUser c =>
    simp only [step] at h
    split at h
    · rename_i call hcall
      split at h
      · rename_i hphase
        split at h
        · cases h
        · cases h
          exact .moved rfl hcall (.writing hphase)
      · cases h
    · cases h
  | startUpdate c now =>
    simp only [step] at h
    split at h
    · rename_i call hcall
      split at h
      · rename_i hphase
        split at h
        · rename_i hnow
          cases h
          exact .moved rfl hcall (.expiring hphase hnow.2.1)
        · cases h
      · cases h
    · cases h
  | updateRow c place =>
    simp only [step] at h
    split at h
    · rename_i call hcall
      split at h
      · rename_i hphase
        exact updateRow_fires hcall hphase h
      · cases h
    · cases h
  | commit c =>
    simp only [step] at h
    split at h
    · rename_i call hcall
      split at h
      · rename_i hphase
        split at h
        · cases h
          exact .created hcall hphase
        · cases h
      · rename_i hphase
        cases h
        exact .committed hcall hphase
      · cases h
    · cases h
  | abort c =>
    simp only [step] at h
    split at h
    · rename_i call hcall
      cases h
      exact .finished rfl hcall
    · cases h

/-! ## What becomes of a row -/

/-- The row of a secret at a later time. -/
def Token.Later (new old : Token) : Prop :=
  new.purpose = old.purpose ∧ new.began = old.began ∧
    (old.consumedAt.isSome → new.consumedAt.isSome) ∧ new.expiresAt ≤ old.expiresAt

theorem Token.Later.refl (token : Token) : token.Later token := ⟨rfl, rfl, id, Int.le_refl _⟩

theorem Token.Later.outstanding {new old : Token} (h : new.Later old)
    (houtstanding : new.outstanding now = true) : old.outstanding now = true := by
  simp only [Token.outstanding, Bool.and_eq_true, isNone_iff_eq_none,
    decide_eq_true_eq] at houtstanding ⊢
  obtain ⟨hconsumed, hexpires⟩ := houtstanding
  constructor
  · by_contra hold
    have := h.2.2.1 (isSome_iff_ne_none.mpr hold)
    rw [hconsumed] at this
    cases this
  · have := h.2.2.2
    omega

theorem outstanding_of_le (hle : now ≤ later)
    (h : token.outstanding later = true) : token.outstanding now = true := by
  simp only [Token.outstanding, Bool.and_eq_true, decide_eq_true_eq] at h ⊢
  exact ⟨h.1, by omega⟩

/-- What a transaction has written of a row: it is not outstanding any more. -/
structure Written (s : State) (write : Nat × Token) : Prop where
  row : ∃ token, s.tokens[write.1]? = some token ∧ write.2.Later token
  dead : write.2.outstanding s.clock = false

theorem applyWrites_getElem? (tokens writes) (place) :
    (applyWrites tokens writes)[place]? = tokens[place]?.map fun token =>
      ((writes.find? (·.1 = place)).map Prod.snd).getD token :=
  List.getElem?_mapIdx

@[simp] theorem applyWrites_length (tokens writes) :
    (applyWrites tokens writes).length = tokens.length := length_mapIdx

theorem applyWrites_row {tokens} (writes)
    (htoken : tokens[place]? = some token) : ∃ new, (applyWrites tokens writes)[place]? = some new ∧
      ((new = token ∧ ∀ write ∈ writes, write.1 ≠ place) ∨ (place, new) ∈ writes) := by
  rw [applyWrites_getElem?, htoken]
  cases hfind : writes.find? (·.1 = place) with
  | none =>
    refine ⟨token, rfl, .inl ⟨rfl, ?_⟩⟩
    intro write hwrite
    simpa using List.find?_eq_none.mp hfind write hwrite
  | some write =>
    have hplace : write.1 = place := by simpa using List.find?_some hfind
    refine ⟨write.2, rfl, .inr ?_⟩
    rw [← hplace]
    exact List.mem_of_find?_eq_some hfind

/-- The writes of every call are sound. -/
def State.Sound (s : State) : Prop := ∀ call ∈ s.calls, ∀ write ∈ call.writes, Written s write

/-- The rows that a commit writes. -/
def State.writes (s : State) : Act → List (Nat × Token)
  | .commit c =>
    match s.calls[c]? with
    | some call =>
      match call.phase with
      | .expiring .. => call.writes
      | _ => []
    | none => []
  | _ => []

theorem Fires.row (h : Fires settings s act t)
    (htoken : s.tokens[place]? = some token) : ∃ new, t.tokens[place]? = some new ∧
      ((new = token ∧ ∀ write ∈ s.writes act, write.1 ≠ place) ∨ (place, new) ∈ s.writes act) := by
  have hsame : t.tokens = s.tokens → act.isCommit = false → ∃ new, t.tokens[place]? = some new ∧
      ((new = token ∧ ∀ write ∈ s.writes act, write.1 ≠ place) ∨ (place, new) ∈ s.writes act) := by
    intro htokens hact
    have hnone : s.writes act = [] := by
      cases act <;> first | rfl | cases hact
    rw [htokens, hnone]
    exact ⟨token, htoken, .inl ⟨rfl, forall_mem_nil _⟩⟩
  cases h with
  | created hcall hphase =>
    refine ⟨token, ?_, .inl ⟨rfl, ?_⟩⟩
    · exact (List.getElem?_append_left (List.getElem?_eq_some_iff.mp htoken).1).trans htoken
    · simp [State.writes, hcall, hphase]
  | committed hcall hphase =>
    rename_i c call work scope now
    have hwrites : s.writes (.commit c) = call.writes := by
      simp [State.writes, hcall, hphase]
    rw [hwrites]
    obtain ⟨new, hnew, hrow⟩ := applyWrites_row call.writes htoken
    refine ⟨new, ?_, hrow⟩
    cases work with
    | issue purpose issued =>
      exact (List.getElem?_append_left (List.getElem?_eq_some_iff.mp hnew).1).trans hnew
    | write => exact hnew
  | moved hact | finished hact => exact hsame rfl (isCommit_of_statement hact)
  | _ => exact hsame rfl rfl

theorem Fires.new_row (h : Fires settings s act t)
    (htoken : t.tokens[place]? = some token) : (∃ old, s.tokens[place]? = some old) ∨
      place = s.tokens.length ∧ ∃ c call purpose now, act = .commit c ∧ s.calls[c]? = some call ∧
        token = newToken settings purpose now call.began ∧
        ((call.phase = .creating now ∧ purpose = .emailVerification) ∨
          ∃ scope at', call.phase = .expiring (.issue purpose now) scope [] at' []) := by
  have hold : place < s.tokens.length → ∃ old, s.tokens[place]? = some old := fun hlt =>
    ⟨_, List.getElem?_eq_getElem hlt⟩
  have hlt := (List.getElem?_eq_some_iff.mp htoken).1
  have happend : ∀ {tokens : List Token} {new : Token}, tokens.length = s.tokens.length →
      (tokens ++ [new])[place]? = some token → ¬ place < s.tokens.length →
        place = s.tokens.length ∧ token = new := by
    intro tokens new hlength hget hnot
    rw [List.getElem?_append_right (by omega)] at hget
    have := (List.getElem?_eq_some_iff.mp hget).1
    simp only [length_singleton] at this
    refine ⟨by omega, ?_⟩
    exact mem_singleton.mp (mem_of_getElem? hget)
  by_cases hplace : place < s.tokens.length
  · exact .inl (hold hplace)
  refine .inr ?_
  cases h with
  | created hcall hphase =>
    obtain ⟨hlast, rfl⟩ := happend rfl htoken hplace
    exact ⟨hlast, _, _, _, _, rfl, hcall, rfl, .inl ⟨hphase, rfl⟩⟩
  | committed hcall hphase =>
    rename_i c call work scope now
    cases work with
    | issue purpose issued =>
      obtain ⟨hlast, rfl⟩ := happend (applyWrites_length _ _) htoken hplace
      exact ⟨hlast, _, _, _, _, rfl, hcall, rfl, .inr ⟨_, _, hphase⟩⟩
    | write =>
      have hlength : (applyWrites s.tokens call.writes).length = s.tokens.length :=
        applyWrites_length _ _
      exact absurd (hlength ▸ hlt) hplace
  | _ => exact absurd hlt hplace

/-! ## The locks -/

/-- No two transactions have written one row. -/
def State.Exclusive (s : State) : Prop :=
  ∀ (c d : Nat) (a b : Call), s.calls[c]? = some a → s.calls[d]? = some b → ∀ place,
    a.locks place = true → b.locks place = true → c = d

/-- The clock has been read before. -/
def State.Timely (s : State) : Prop :=
  ∀ call ∈ s.calls, ∀ work scope scopes now todo,
    call.phase = .expiring work scope scopes now todo → now ≤ s.clock

theorem put_call (h : (s.put c next).calls[d]? = some call) :
    (d = c ∧ call = next) ∨ (d ≠ c ∧ s.calls[d]? = some call) := by
  rw [State.put, List.getElem?_set] at h
  by_cases hd : c = d
  · rw [if_pos hd] at h
    split at h
    · exact .inl ⟨hd.symm, (some.inj h).symm⟩
    · cases h
  · rw [if_neg hd] at h
    exact .inr ⟨Ne.symm hd, h⟩

theorem isLocked_eq_false (h : s.isLocked c place = false)
    (hcall : s.calls[d]? = some call) (hd : d ≠ c) : call.locks place = false := by
  have hnot := List.any_eq_false.mp h (call, d) (List.mem_zipIdx_iff_getElem?.mpr hcall)
  simpa [hd] using hnot

theorem Call.locks_iff : call.locks place = true ↔ ∃ token, (place, token) ∈ call.writes := by
  simp only [Call.locks, List.any_eq_true, decide_eq_true_eq, Prod.exists]
  constructor
  · rintro ⟨_, token, hwrite, rfl⟩
    exact ⟨token, hwrite⟩
  · rintro ⟨token, hwrite⟩
    exact ⟨place, token, hwrite, rfl⟩

@[simp] theorem go_phase (call : Call) (phase) : (call.go phase).phase = phase := rfl

@[simp] theorem finish_phase (call : Call) : call.finish.phase = .done := rfl

theorem Moved.writes (h : Moved s c call next) : next.writes = call.writes := by
  cases h <;> rfl

theorem Moved.op (h : Moved s c call next) : next.op = call.op := by
  cases h <;> rfl

/-- A call after the step: as it was, or the one that acts. -/
inductive Becomes (s : State) (act : Act) (d : Nat) : Call → Prop where
  | same {call : Call} (hcall : s.calls[d]? = some call)
      (hother : ∀ c, act = .commit c → d ≠ c) : Becomes s act d call
  | begun {op} : Becomes s act d ⟨op, s.log.length, s.log.length, .start, []⟩
  | moved {call next : Call} (hcall : s.calls[d]? = some call) (hmoved : Moved s d call next)
      (hact : act.statement = some d) : Becomes s act d next
  | finished {call : Call} (hcall : s.calls[d]? = some call) : Becomes s act d call.finish
  | consumed {call now secret token} (hcall : s.calls[d]? = some call)
      (hphase : call.phase = .timed now) (hsecret : call.op.secret = some secret)
      (htoken : s.tokens[secret]? = some token) (hpurpose : call.op.purpose = some token.purpose)
      (houtstanding : token.outstanding now = true) (hfree : s.isLocked d secret = false)
      (hact : act.statement = some d) :
      Becomes s act d { call.go .consumed with
        writes := [(secret, { token with consumedAt := some now })] }
  | expired {call place token work scope scopes now todo} (hcall : s.calls[d]? = some call)
      (hphase : call.phase = .expiring work scope scopes now todo)
      (htoken : s.seen call place = some token) (houtstanding : token.outstanding now = true)
      (hfree : s.isLocked d place = false) (hact : act.statement = some d) :
      Becomes s act d { call.go (.expiring work scope scopes now (todo.erase place)) with
        writes := (place, { token with expiresAt := now }) :: call.writes }

theorem Fires.becomes (h : Fires settings s act t)
    (hcall : t.calls[d]? = some call) : Becomes s act d call := by
  have hsame : ∀ {c : Nat} {next : Call}, act.isCommit = false →
      (s.put c next).calls[d]? = some call → (d = c ∧ call = next) ∨ Becomes s act d call := by
    intro c next hact hput
    rcases put_call hput with hnew | ⟨-, hold⟩
    · exact .inl hnew
    · refine .inr (.same hold ?_)
      rintro c rfl
      cases hact
  cases h with
  | ticked => exact .same hcall nofun
  | begun op =>
    rcases mem_append.mp (mem_of_getElem? hcall) with _ | hnew
    · by_cases hd : d < s.calls.length
      · rw [List.getElem?_append_left hd] at hcall
        exact .same hcall nofun
      · rw [List.getElem?_append_right (by omega)] at hcall
        rw [mem_singleton.mp (mem_of_getElem? hcall)]
        exact .begun
    · rw [mem_singleton.mp hnew]
      exact .begun
  | moved hact hold hmoved =>
    rcases hsame (isCommit_of_statement hact) hcall with ⟨rfl, rfl⟩ | hbecomes
    · exact .moved hold hmoved hact
    · exact hbecomes
  | finished hact hold =>
    rcases hsame (isCommit_of_statement hact) hcall with ⟨rfl, rfl⟩ | hbecomes
    · exact .finished hold
    · exact hbecomes
  | consumed hold hphase hsecret htoken hpurpose houtstanding hfree =>
    rcases hsame rfl hcall with ⟨rfl, rfl⟩ | hbecomes
    · exact .consumed hold hphase hsecret htoken hpurpose houtstanding hfree rfl
    · exact hbecomes
  | expired hold hphase htoken houtstanding hfree =>
    rcases hsame rfl hcall with ⟨rfl, rfl⟩ | hbecomes
    · exact .expired hold hphase htoken houtstanding hfree rfl
    · exact hbecomes
  | created hold hphase =>
    rcases put_call hcall with ⟨rfl, rfl⟩ | ⟨hd, hother⟩
    · exact .finished hold
    · refine .same hother ?_
      rintro _ ⟨⟩
      exact hd
  | committed hold hphase =>
    rename_i c acting work scope now
    have hput : (s.put c acting.finish).calls[d]? = some call := by
      cases work <;> exact hcall
    rcases put_call hput with ⟨rfl, rfl⟩ | ⟨hd, hother⟩
    · exact .finished hold
    · refine .same hother ?_
      rintro _ ⟨⟩
      exact hd

theorem Fires.clock_le (h : Fires settings s act t) : s.clock ≤ t.clock := by
  cases h with
  | ticked d => exact Int.le_add_of_nonneg_right (Int.natCast_nonneg d)
  | committed =>
    rename_i work _ _ _ _
    cases work <;> exact Int.le_refl _
  | _ => exact Int.le_refl _

theorem timely_start (clock) : (State.start clock).Timely := forall_mem_nil _

theorem Fires.timely (h : Fires settings s act t) (htimely : s.Timely) : t.Timely := by
  intro call hcall work scope scopes now todo hphase
  obtain ⟨d, hcall⟩ := List.getElem?_of_mem hcall
  refine Int.le_trans ?_ h.clock_le
  cases h.becomes hcall with
  | same hold => exact htimely _ (mem_of_getElem? hold) work scope scopes now todo hphase
  | moved hold hmoved =>
    cases hmoved with
    | expiring _ hnow =>
      cases hphase
      exact hnow
    | skipped _ hexpiring =>
      cases hphase
      exact htimely _ (mem_of_getElem? hold) _ _ _ _ _ hexpiring
    | _ => cases hphase
  | expired hold hexpiring =>
    cases hphase
    exact htimely _ (mem_of_getElem? hold) _ _ _ _ _ hexpiring
  | _ => cases hphase

theorem seen_later (hsound : s.Sound)
    (hcall : s.calls[c]? = some call) (hseen : s.seen call place = some token) :
    ∃ row, s.tokens[place]? = some row ∧ token.Later row := by
  unfold State.seen at hseen
  cases hfind : call.writes.find? (·.1 = place) with
  | none =>
    rw [hfind] at hseen
    exact ⟨token, hseen, .refl token⟩
  | some write =>
    rw [hfind] at hseen
    obtain rfl : write.2 = token := some.inj hseen
    have hplace : write.1 = place := by simpa using List.find?_some hfind
    rw [← hplace]
    exact (hsound call (mem_of_getElem? hcall) write (List.mem_of_find?_eq_some hfind)).row

theorem not_outstanding_consumed (token : Token) (now later : Int) :
    ({ token with consumedAt := some now } : Token).outstanding later = false := by
  simp [Token.outstanding]

theorem not_outstanding_expired (token : Token) (hle : now ≤ later) :
    ({ token with expiresAt := now } : Token).outstanding later = false := by
  simp [Token.outstanding, hle]

theorem Fires.row_same (h : Fires settings s act t) (hact : act.isCommit = false)
    (htoken : s.tokens[place]? = some token) : t.tokens[place]? = some token := by
  obtain ⟨new, hnew, ⟨rfl, -⟩ | hwrite⟩ := h.row htoken
  · exact hnew
  · cases act <;> first | cases hwrite | cases hact

theorem Fires.locked_row (h : Fires settings s act t) (hex : s.Exclusive)
    (hcall : s.calls[d]? = some call) (hother : ∀ c, act = .commit c → d ≠ c)
    (hlocks : call.locks place = true) (htoken : s.tokens[place]? = some token) :
    t.tokens[place]? = some token := by
  obtain ⟨new, hnew, hrow⟩ := h.row htoken
  rcases hrow with ⟨rfl, -⟩ | hwrite
  · exact hnew
  cases act with
  | commit c =>
    have hd := hother c rfl
    cases hacting : s.calls[c]? with
    | none => simp [State.writes, hacting] at hwrite
    | some acting =>
      simp only [State.writes, hacting] at hwrite
      split at hwrite
      · exact absurd (hex d c call acting hcall hacting place hlocks
          (Call.locks_iff.mpr ⟨new, hwrite⟩)) hd
      · cases hwrite
  | _ => cases hwrite

theorem Fires.written (h : Fires settings s act t) (hex : s.Exclusive)
    (hcall : s.calls[d]? = some call) (hother : ∀ c, act = .commit c → d ≠ c)
    {write : Nat × Token} (hmem : write ∈ call.writes) (hwritten : Written s write) :
    Written t write where
  row := by
    obtain ⟨token, htoken, hlater⟩ := hwritten.row
    exact ⟨token, h.locked_row hex hcall hother (Call.locks_iff.mpr ⟨write.2, hmem⟩) htoken, hlater⟩
  dead := by
    by_contra hlive
    have := outstanding_of_le h.clock_le (Bool.not_eq_false _ ▸ hlive)
    rw [hwritten.dead] at this
    cases this

theorem Fires.sound (h : Fires settings s act t) (hsound : s.Sound) (hex : s.Exclusive)
    (htimely : s.Timely) : t.Sound := by
  intro call hcall write hwrite
  obtain ⟨d, hcall⟩ := List.getElem?_of_mem hcall
  have hkept : ∀ {before : Call}, s.calls[d]? = some before →
      (∀ c, act = .commit c → d ≠ c) → write ∈ before.writes → Written t write :=
    fun hbefore hother hmem => h.written hex hbefore hother hmem
      (hsound _ (mem_of_getElem? hbefore) write hmem)
  have hnever : act.statement = some d → ∀ c, act = .commit c → d ≠ c := by
    rintro hact c rfl
    cases hact
  cases h.becomes hcall with
  | same hold hother => exact hkept hold hother hwrite
  | begun => cases hwrite
  | moved hold hmoved hact => exact hkept hold (hnever hact) (hmoved.writes ▸ hwrite)
  | finished => cases hwrite
  | @consumed before now secret token hold hphase hsecret htoken hpurpose houtstanding hfree hact =>
    obtain rfl := mem_singleton.mp hwrite
    exact
      { row := ⟨token, h.row_same (isCommit_of_statement hact) htoken, rfl, rfl,
        fun _ => rfl, Int.le_refl _⟩
        dead := not_outstanding_consumed token now t.clock }
  | @expired before place token work scope scopes now todo hold hphase hseen houtstanding hfree
      hact =>
      rcases mem_cons.mp hwrite with rfl | hbefore
      · obtain ⟨row, hrow, hlater⟩ := seen_later hsound hold hseen
        have hnow := htimely before (mem_of_getElem? hold) work scope scopes now todo hphase
        have hexpires : now ≤ token.expiresAt := by
          simp only [Token.outstanding, Bool.and_eq_true, decide_eq_true_eq] at houtstanding
          omega
        exact
          { row := ⟨row, h.row_same (isCommit_of_statement hact) hrow, hlater.1, hlater.2.1,
              hlater.2.2.1, Int.le_trans hexpires hlater.2.2.2⟩
            dead := not_outstanding_expired token (Int.le_trans hnow h.clock_le) }
      · exact hkept hold (hnever hact) hbefore

theorem Becomes.locks (h : Becomes s act d call) (hlocks : call.locks place = true) :
    (∃ before, s.calls[d]? = some before ∧ before.locks place = true ∧
      ∀ c, act = .commit c → d ≠ c) ∨ (s.isLocked d place = false ∧ act.statement = some d) := by
  have hnever : act.statement = some d → ∀ c, act = .commit c → d ≠ c := by
    rintro hact c rfl
    cases hact
  obtain ⟨token, hwrite⟩ := Call.locks_iff.mp hlocks
  cases h with
  | same hcall hother => exact .inl ⟨call, hcall, hlocks, hother⟩
  | begun => cases hwrite
  | moved hcall hmoved hact =>
    exact .inl ⟨_, hcall, Call.locks_iff.mpr ⟨token, hmoved.writes ▸ hwrite⟩, hnever hact⟩
  | finished => cases hwrite
  | consumed hcall _ _ _ _ _ hfree hact =>
    cases mem_singleton.mp hwrite
    exact .inr ⟨hfree, hact⟩
  | expired hcall _ _ _ hfree hact =>
    rcases mem_cons.mp hwrite with hnew | hold
    · cases hnew
      exact .inr ⟨hfree, hact⟩
    · exact .inl ⟨_, hcall, Call.locks_iff.mpr ⟨token, hold⟩, hnever hact⟩

theorem Fires.exclusive (h : Fires settings s act t) (hex : s.Exclusive) : t.Exclusive := by
  intro c d a b ha hb place hlocks hlocks'
  rcases (h.becomes ha).locks hlocks with ⟨olda, holda, holdlocks, -⟩ | ⟨hfree, hact⟩
  · rcases (h.becomes hb).locks hlocks' with ⟨oldb, holdb, holdlocks', -⟩ | ⟨hfree, hact⟩
    · exact hex c d olda oldb holda holdb place holdlocks holdlocks'
    · by_contra hne
      have := isLocked_eq_false hfree holda hne
      rw [holdlocks] at this
      cases this
  · rcases (h.becomes hb).locks hlocks' with ⟨oldb, holdb, holdlocks', -⟩ | ⟨hfree', hact'⟩
    · by_contra hne
      have := isLocked_eq_false hfree holdb (Ne.symm hne)
      rw [holdlocks'] at this
      cases this
    · exact some.inj (hact.symm.trans hact')

end StudioOS.Accounts.Secrets
