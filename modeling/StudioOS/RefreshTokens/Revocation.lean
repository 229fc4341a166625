import StudioOS.RefreshTokens.Family

/-!
# Revocation — a revoked family is dead

A reuse, a logout or a lost owner revokes a family with one UPDATE. When it
commits no token of the family is usable, now or later, in every run where no
rotation slips between its snapshot and its locks.
-/

namespace StudioOS.RefreshTokens

open Runs

variable {settings : Settings} {s t : State}

/-- Usable at a time: not consumed, not revoked, not expired. -/
def TokenRow.live (row : TokenRow) (now : Int) : Bool := row.consumable now

theorem not_live {row : TokenRow} (h : ¬ row.isOpen) (now : Int) : row.live now = false := by
  by_contra hlive
  exact h (isOpen_of_consumable (Bool.of_not_eq_false hlive))

/-- What an undisturbed run carries to the commit of a revocation. -/
structure Watched (absolute : Int) (s : State) : Prop where
  inv : Inv absolute s
  locked : Locked s
  condemned : Condemned s

theorem watched_issued (now userId machineId authVersion) :
    Watched (now + settings.absolute) (State.issued settings now userId machineId authVersion) := by
  refine ⟨inv_issued now userId machineId authVersion, ?_, ?_⟩
  · intro c k hk
    simp at hk
  · intro k hk
    simp at hk

theorem Watched.step {absolute act} (h : Watched absolute s) (hapart : Apart s act)
    (hstep : step settings s act = some t) : Watched absolute t :=
  ⟨h.inv.step hstep, h.locked.step hstep, h.condemned.step h.inv h.locked hapart hstep⟩

/-- **The commit of a revocation kills the family.** -/
theorem Condemned.commit (h : Condemned s) {c k cause} (hk : s.callers[c]? = some k)
    (hphase : k.phase = .revoking cause []) :
    Dead { s.finish c k with tokens := s.tokens.map k.write } := by
  obtain ⟨hopen, hothers⟩ := h k (List.mem_of_getElem? hk) cause [] hphase
  refine ⟨?_, not_rotating_set hothers rfl⟩
  intro row hrow hrowOpen
  obtain ⟨old, hold, rfl⟩ := List.mem_map.mp hrow
  obtain ⟨holdOpen, hmissed⟩ := isOpen_of_write hrowOpen
  rcases hopen old hold holdOpen with htodo | hrevoked
  · cases htodo
  · exact hmissed hrevoked

theorem commit_revoking {c k cause} (hk : s.callers[c]? = some k)
    (hphase : k.phase = .revoking cause []) (hstep : step settings s (.commit c) = some t) :
    t = { s.finish c k with tokens := s.tokens.map k.write } := by
  have hcommit : step settings s (.commit c) = s.commit settings c k := by
    show s.callers[c]?.bind _ = _
    rw [hk, Option.bind_some]
  rw [hcommit, State.commit, hphase] at hstep
  exact (Option.some.inj hstep).symm

/-- **A revoked family stays dead, and a family has one usable token at most.** Once a revocation
has committed after steps that kept rotations apart from family UPDATEs, no token is usable at any
time, whatever is called. In every run one token at most is usable and none outlives the family. -/
theorem family_dead (settings : Settings) (now : Int) (userId machineId : Uuid)
    (authVersion : Int) : (∀ acts s c k cause t acts' u,
      Run (step settings) Apart (State.issued settings now userId machineId authVersion) acts s →
      s.callers[c]? = some k → k.phase = .revoking cause [] →
      step settings s (.commit c) = some t → Run (step settings) Free t acts' u →
      ∀ row ∈ u.tokens, ∀ time, row.live time = false) ∧ (∀ acts s,
      Run (step settings) Free (State.issued settings now userId machineId authVersion) acts s →
      (∀ time, (s.tokens.filter (·.live time)).length ≤ 1) ∧
        ∀ row ∈ s.tokens, row.expiresAt ≤ row.absoluteExpiresAt ∧
          row.absoluteExpiresAt = now + settings.absolute) := by
  refine ⟨?_, ?_⟩
  · intro acts s c k cause t acts' u hrun hk hphase hcommit hlater row hrow time
    have hwatched := hrun.invariant Watched.step (watched_issued now userId machineId authVersion)
    have hdead : Dead t := by
      rw [commit_revoking hk hphase hcommit]
      exact hwatched.condemned.commit hk hphase
    have hdead : Dead u := hlater.invariant (fun h _ hstep => h.step hstep) hdead
    exact not_live (hdead.tokens row hrow) time
  · intro acts s hrun
    have hinv : Inv (now + settings.absolute) s :=
      hrun.invariant (fun h _ hstep => h.step hstep)
        (inv_issued now userId machineId authVersion)
    refine ⟨fun time => Keyed.length_filter_le_one hinv.nodup ?_, hinv.expiry⟩
    intro a ha b hb halive hblive hne
    have haopen := isOpen_iff.mp (isOpen_of_consumable halive)
    have hbopen := isOpen_iff.mp (isOpen_of_consumable hblive)
    exact hne (hinv.single a ha b hb haopen.1 hbopen.1)

def user : Uuid := ⟨"u"⟩

def machine : Uuid := ⟨"m"⟩

/-- A login at time 0, for a user and her machine. -/
def loggedIn : State := State.issued ⟨7, 30⟩ 0 user machine 0

def rotation (c : Nat) (secret : TokenId) (now : Int) : List Act :=
  [.begin .rotate secret now, .statement c, .owner c (some ⟨some user, none⟩) (some ⟨true, 0⟩)]

/-- A rotation, and a logout whose family UPDATE has come to both tokens. -/
def logoutRun : List Act :=
  rotation 0 0 1 ++ [.commit 0, .begin .revoke 1 2, .statement 1, .statement 1,
    .revokeRow 1 1, .revokeRow 1 0]

theorem family_dead_logout :
    ∃ s k t, Run (step ⟨7, 30⟩) Apart loggedIn logoutRun s ∧ s.callers[1]? = some k ∧
      k.phase = .revoking .logout [] ∧ step ⟨7, 30⟩ s (.commit 1) = some t ∧
      t.tokens.length = 2 ∧ ∀ row ∈ t.tokens, ∀ time, row.live time = false := by
  have h : (execWithin (step ⟨7, 30⟩) Apart loggedIn logoutRun).any (fun s =>
      s.callers[1]? = some ⟨.revoke, 1, 2, .revoking .logout [], none, [0, 1]⟩ ∧
        (step ⟨7, 30⟩ s (.commit 1)).any (·.tokens.length = 2)) = true := by decide +kernel
  obtain ⟨s, hs, hok⟩ := Run.of_any h
  obtain ⟨hk, hok⟩ := of_decide_eq_true hok
  obtain ⟨t, hcommit, hlength⟩ := (Option.any_eq_true _ _).mp hok
  exact ⟨s, _, t, hs, hk, rfl, hcommit, of_decide_eq_true hlength,
    (family_dead ⟨7, 30⟩ 0 user machine 0).1 _ s 1 _ .logout t [] t hs hk rfl
      hcommit (.nil t)⟩

/-- A rotation commits, a second one has issued its token, and the first
secret is presented again: the family UPDATE sees two tokens, waits for
the second rotation and misses the third token. -/
def replayRun : List Act :=
  rotation 0 0 1 ++ [.commit 0] ++ rotation 1 1 2 ++
    [.begin .rotate 0 3, .statement 2, .statement 2, .statement 2, .revokeRow 2 0, .commit 1,
      .revokeRow 2 1]

theorem replay_misses_successor :
    ¬ ∀ settings now userId machineId authVersion acts s c k cause t acts' u,
      Run (step settings) Free (State.issued settings now userId machineId authVersion) acts s →
      s.callers[c]? = some k → k.phase = .revoking cause [] →
      step settings s (.commit c) = some t → Run (step settings) Free t acts' u →
      ∀ row ∈ u.tokens, ∀ time, row.live time = false := by
  intro hdead
  have h : (execWithin (step ⟨7, 30⟩) Free loggedIn replayRun).any (fun s =>
      s.callers[2]? = some ⟨.rotate, 0, 3, .revoking .reused [], none, [1, 0]⟩ ∧
        (step ⟨7, 30⟩ s (.commit 2)).any (·.tokens.any (·.live 3))) = true := by decide +kernel
  obtain ⟨s, hs, hok⟩ := Run.of_any h
  obtain ⟨hk, hok⟩ := of_decide_eq_true hok
  obtain ⟨t, hcommit, hlive⟩ := (Option.any_eq_true _ _).mp hok
  obtain ⟨row, hrow, hlive⟩ := List.any_eq_true.mp hlive
  rw [hdead ⟨7, 30⟩ 0 user machine 0 _ s 2 _ .reused t [] t hs hk rfl hcommit
    (.nil t) row hrow 3] at hlive
  cases hlive

end StudioOS.RefreshTokens
