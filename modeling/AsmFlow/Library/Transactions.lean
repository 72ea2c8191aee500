import Mathlib.Tactic

/-!
# An engine with one transaction

What is committed, and what an open transaction has made of it. An engine may refuse
any call, and may give the open transaction up when it does.
-/

namespace AsmFlow.Library

/-- The state of an engine over contents `σ`. -/
structure Engine (σ : Type*) where
  committed : σ
  working : Option σ

/-- What the engine answers to a call: it is carried out, or fails; a failure may end
the transaction. -/
inductive Reply (ε : Type*)
  | done
  | failed (error : ε) (aborts : Bool)
  deriving DecidableEq

namespace Engine

variable {σ ε : Type*}

/-- The content that the connection sees. -/
def visible (e : Engine σ) : σ := e.working.getD e.committed

/-- A write to what is visible. -/
def write (e : Engine σ) (s : σ) : Engine σ :=
  match e.working with
  | none => { e with committed := s }
  | some _ => { e with working := some s }

/-- The transaction, if there is one, is given up. -/
def discard (e : Engine σ) : Engine σ := { e with working := none }

/-- A call that is not carried out. -/
def refuse (e : Engine σ) (error : ε) (aborts : Bool) : Engine σ × Option ε :=
  (if aborts then e.discard else e, some error)

/-- A statement with this effect. -/
def exec (e : Engine σ) (f : σ → Except ε σ) : Reply ε → Engine σ × Option ε
  | .failed error aborts => e.refuse error aborts
  | .done =>
    match f e.visible with
    | .error error => (e, some error)
    | .ok s => (e.write s, none)

/-- `misuse` is the error of a call that does not fit the state. -/
def begin (misuse : ε) (e : Engine σ) : Reply ε → Engine σ × Option ε
  | .failed error aborts => e.refuse error aborts
  | .done =>
    match e.working with
    | some _ => (e, some misuse)
    | none => ({ e with working := some e.committed }, none)

def commit (misuse : ε) (e : Engine σ) : Reply ε → Engine σ × Option ε
  | .failed error aborts => e.refuse error aborts
  | .done =>
    match e.working with
    | none => (e, some misuse)
    | some s => (⟨s, none⟩, none)

def rollback (misuse : ε) (e : Engine σ) : Reply ε → Engine σ × Option ε
  | .failed error aborts => e.refuse error aborts
  | .done =>
    match e.working with
    | none => (e, some misuse)
    | some _ => (e.discard, none)

end Engine

/-- The failure, if it is one, leaves no transaction open. -/
def Reply.Ends {ε : Type*} : Reply ε → Prop
  | .done => True
  | .failed _ aborts => aborts = true

instance {ε : Type*} : (r : Reply ε) → Decidable r.Ends
  | .done => isTrue trivial
  | .failed _ aborts => inferInstanceAs (Decidable (aborts = true))

/-- The failure, if it is one, leaves a transaction open. -/
def Reply.Keeps {ε : Type*} : Reply ε → Prop
  | .done => True
  | .failed _ aborts => aborts = false

instance {ε : Type*} : (r : Reply ε) → Decidable r.Keeps
  | .done => isTrue trivial
  | .failed _ aborts => inferInstanceAs (Decidable (aborts = false))

section Rules

variable {σ ε : Type*} {e : Engine σ} {r : Reply ε}

theorem Engine.exec_committed (h : e.working.isSome = true) (f : σ → Except ε σ) (r : Reply ε) :
    (e.exec f r).1.committed = e.committed := by
  obtain ⟨committed, working⟩ := e
  obtain ⟨w, rfl⟩ := Option.isSome_iff_exists.mp h
  cases r with
  | failed error aborts => cases aborts <;> rfl
  | done =>
    unfold Engine.exec
    dsimp only
    split
    · rfl
    · rfl

/-- A call without effect changes nothing, as long as a transaction that is open is not
given up. -/
theorem Engine.exec_ok (h : e.working = none ∨ r.Keeps) : (e.exec .ok r).1 = e := by
  obtain ⟨committed, working⟩ := e
  cases r with
  | failed error aborts =>
    rcases h with rfl | h
    · cases aborts <;> rfl
    · obtain rfl : aborts = false := h
      rfl
  | done => cases working <;> rfl

/-- A commit that is answered by the end of the transaction closes it, and makes what
it has done the content or leaves that as it was. -/
theorem Engine.commit_closes (misuse : ε) (hr : r.Ends) :
    (e.commit misuse r).1.working = none ∧
      ((e.commit misuse r).2 = none → e.working = some (e.commit misuse r).1.committed) ∧
      ((e.commit misuse r).2 ≠ none → (e.commit misuse r).1.committed = e.committed) := by
  obtain ⟨committed, working⟩ := e
  cases r with
  | failed error aborts =>
    obtain rfl : aborts = true := hr
    exact ⟨rfl, nofun, fun _ => rfl⟩
  | done =>
    cases working with
    | none => exact ⟨rfl, nofun, fun _ => rfl⟩
    | some s => exact ⟨rfl, fun _ => rfl, fun h => absurd rfl h⟩

theorem Engine.rollback_closes (misuse : ε) (hr : r.Ends) :
    (e.rollback misuse r).1 = e.discard := by
  obtain ⟨committed, working⟩ := e
  cases r with
  | failed error aborts =>
    obtain rfl : aborts = true := hr
    rfl
  | done =>
    cases working with
    | none => rfl
    | some s => rfl

end Rules
end AsmFlow.Library
