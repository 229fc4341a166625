import Mathlib.Data.List.Basic
import StudioOS.Base

/-!
# Authz — the caller of a service

`services/authz.py`, as far as the modelled services call it: the `Principal`
of a request, the project check, the role check and the ownership checks.
-/

namespace StudioOS

/-- A `uuid.UUID`, by its canonical text. -/
structure Uuid where
  str : String
deriving DecidableEq

/-- An `HTTPException`: its status and its `detail`, field by field. -/
structure HttpError where
  status : Nat
  detail : List (String × String)
deriving DecidableEq

theorem bind_ok {α β ε : Type} {x : Except ε α} {f : α → Except ε β} {b : β}
    (h : (x >>= f) = .ok b) : ∃ a, x = .ok a ∧ f a = .ok b := by
  cases x with
  | error e => cases h
  | ok a => exact ⟨a, rfl, h⟩

theorem guard_ok {β ε : Type} {c : Prop} [Decidable c] {e : ε} {x : Except ε β} {b : β}
    (h : (if c then .error e else x) = .ok b) : ¬ c ∧ x = .ok b := by
  by_cases hc : c
  · rw [if_pos hc] at h
    cases h
  · rw [if_neg hc] at h
    exact ⟨hc, h⟩

theorem mapM_ok {α β ε : Type} {f : α → Except ε β} {g : α → β} {l : List α}
    (h : ∀ a ∈ l, f a = .ok (g a)) : l.mapM f = .ok (l.map g) := by
  induction l with
  | nil => rfl
  | cons a l ih =>
    rw [List.mapM_cons, h a (.head _), ih fun b hb => h b (.tail _ hb)]
    rfl

theorem mapM_congr {α β ε : Type} {f g : α → Except ε β} {l : List α}
    (h : ∀ a ∈ l, f a = g a) : l.mapM f = l.mapM g := by
  induction l with
  | nil => rfl
  | cons a l ih =>
    rw [List.mapM_cons, List.mapM_cons, h a (.head _), ih fun b hb => h b (.tail _ hb)]

theorem mapM_results {α β ε : Type} {f : α → Except ε β} {l : List α} {bs : List β}
    (h : l.mapM f = .ok bs) :
    (∀ a ∈ l, ∃ b ∈ bs, f a = .ok b) ∧ ∀ b ∈ bs, ∃ a ∈ l, f a = .ok b := by
  induction l generalizing bs with
  | nil =>
    obtain rfl : [] = bs := Except.ok.inj h
    simp
  | cons a l ih =>
    rw [List.mapM_cons] at h
    obtain ⟨b, hb, h⟩ := bind_ok h
    obtain ⟨bs', hbs', h⟩ := bind_ok h
    obtain rfl : b :: bs' = bs := Except.ok.inj h
    obtain ⟨hresults, hsources⟩ := ih hbs'
    constructor
    · intro x hx
      rcases List.mem_cons.mp hx with rfl | hx
      · exact ⟨b, .head _, hb⟩
      · obtain ⟨y, hy, hfx⟩ := hresults x hx
        exact ⟨y, .tail _ hy, hfx⟩
    · intro y hy
      rcases List.mem_cons.mp hy with rfl | hy
      · exact ⟨a, .head _, hb⟩
      · obtain ⟨x, hx, hfx⟩ := hsources y hy
        exact ⟨x, .tail _ hx, hfx⟩

theorem mapM_map {α β γ ε : Type} {f : α → Except ε β} {g : β → γ} {h : α → γ} {l : List α}
    {bs : List β} (hf : ∀ a b, f a = .ok b → g b = h a) (hl : l.mapM f = .ok bs) :
    bs.map g = l.map h := by
  induction l generalizing bs with
  | nil =>
    obtain rfl : [] = bs := Except.ok.inj hl
    rfl
  | cons a l ih =>
    rw [List.mapM_cons] at hl
    obtain ⟨b, hb, hl⟩ := bind_ok hl
    obtain ⟨bs', hbs', hl⟩ := bind_ok hl
    obtain rfl : b :: bs' = bs := Except.ok.inj hl
    rw [List.map_cons, List.map_cons, hf a b hb, ih hbs']

theorem bind_error {α β ε : Type} {x : Except ε α} {f : α → Except ε β} {e : ε}
    (h : (x >>= f) = .error e) : x = .error e ∨ ∃ a, x = .ok a ∧ f a = .error e := by
  cases x with
  | error e' =>
    obtain rfl : e' = e := Except.error.inj h
    exact .inl rfl
  | ok a => exact .inr ⟨a, rfl, h⟩

theorem mapM_error {α β ε : Type} {f : α → Except ε β} {l : List α} {e : ε}
    (h : l.mapM f = .error e) : ∃ a ∈ l, f a = .error e := by
  induction l with
  | nil => cases h
  | cons a l ih =>
    rw [List.mapM_cons] at h
    rcases bind_error h with ha | ⟨b, -, h⟩
    · exact ⟨a, .head _, ha⟩
    rcases bind_error h with hl | ⟨bs, -, h⟩
    · obtain ⟨x, hx, hfx⟩ := ih hl
      exact ⟨x, .tail _ hx, hfx⟩
    · cases h

namespace Authz

inductive Role where
  | admin
  | developer
  | agent
  | readonly
deriving DecidableEq

structure Machine where
  id : Uuid
  ownerUserId : Uuid

inductive ProjectScope where
  | allProjects
  | projects (ids : List Uuid)

structure Principal where
  machine : Machine
  role : Role
  projectScope : ProjectScope

structure Agent where
  ownerUserId : Option Uuid
  machineId : Option Uuid

def forbidden (resource action : String) : HttpError :=
  { status := 403
    detail := [("error_code", "forbidden"), ("resource", resource), ("action", action)] }

def hasProjectAccess (principal : Principal) (projectId : Uuid) : Bool :=
  match principal.projectScope with
  | .allProjects => true
  | .projects ids => projectId ∈ ids

def ensureProjectAccess (principal : Principal) (projectId : Uuid) (action : String) :
    Except HttpError Unit :=
  if hasProjectAccess principal projectId then .ok () else .error (forbidden "project" action)

def ensureCanWrite (principal : Principal) (resource : String) : Except HttpError Unit :=
  if principal.role = .readonly then .error (forbidden resource "write") else .ok ()

def hasAnyProject (principal : Principal) : Bool :=
  match principal.projectScope with
  | .allProjects => true
  | .projects ids => ids ≠ []

def ensureSharedAccess (principal : Principal) (action : String) : Except HttpError Unit :=
  if hasAnyProject principal then .ok () else .error (forbidden "project" action)

def ensureCanProvision (principal : Principal) (resource : String) : Except HttpError Unit :=
  if principal.role = .admin ∨ principal.role = .developer then .ok ()
  else .error (forbidden resource "provision")

/-- Only the owning machine or an admin may go on; a resource without an
owning machine is open to any writer. -/
def ensureMachineOwned (principal : Principal) (ownerMachineId : Option Uuid)
    (resource action : String) : Except HttpError Unit := do
  ensureCanWrite principal resource
  if principal.role = .admin then return ()
  if ownerMachineId.any (· ≠ principal.machine.id) then throw (forbidden resource action)

def ownsAgent (agent : Option Agent) (machine : Machine) : Bool :=
  match agent with
  | none => false
  | some agent =>
    match agent.ownerUserId with
    | some owner => owner = machine.ownerUserId
    | none => agent.machineId = some machine.id

end Authz

end StudioOS
