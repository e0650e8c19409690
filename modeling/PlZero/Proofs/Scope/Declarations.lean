/-
  PlZero/Proofs/Scope/Declarations.lean
  =====================================
  **What declarations do to a table.**  A constant, a type or a variable that is declared in the
  scope in which it is written adds an entry of this scope, and a list of definitions does so
  several times (`Declarations`).  A procedure gets an entry in any case: its name is declared,
  or, if it has none or the name is taken, no name refers to the entry (`ProcedureAdded`).
-/
import PlZero.Proofs.Scope.Declaring
import PlZero.Proofs.Scope.Registered

namespace PlZero.SymbolTable

variable {t u : SymbolTable} {name : String} {l : Location} {e : Entry} {m : Meaning} {k : Nat}
  {what : Declaration}

/-- What is declared carries the number of the scope in which it is written. -/
def Declaration.InScope (k : Nat) : Declaration → Prop
  | .constant tree => tree.InScope k
  | .type definition => definition.InScope k
  | .variableOf base => base.InScope k
  | .procedure => True

theorem Declaration.meaning_constant {tree : Constant}
    (h : (Declaration.constant tree).meaning t = .ok m) : ∃ value, m = .constant tree value := by
  have hmap : (t.evaluate tree).map (Meaning.constant tree) = .ok m := h
  cases hvalue : t.evaluate tree with
  | ok value =>
    rw [hvalue] at hmap
    exact ⟨value, (Except.ok.inj hmap).symm⟩
  | error node =>
    rw [hvalue] at hmap
    cases hmap

theorem Declaration.meaning_inScope (hwhat : what.InScope k) (hm : what.meaning t = .ok m) :
    m.InScope k := by
  cases what with
  | constant tree =>
    obtain ⟨value, rfl⟩ := Declaration.meaning_constant hm
    exact hwhat
  | type definition =>
    cases hm
    exact hwhat
  | variableOf base =>
    cases hm
    exact hwhat
  | procedure =>
    cases hm
    trivial

/-- Only a procedure is declared as one. -/
theorem Declaration.meaning_plain (hplain : what ≠ .procedure) (hm : what.meaning t = .ok m)
    (scope : Option Nat) : m ≠ .procedure scope := by
  rintro rfl
  cases what with
  | constant tree =>
    obtain ⟨value, hvalue⟩ := Declaration.meaning_constant hm
    cases hvalue
  | type definition => cases hm
  | variableOf base => cases hm
  | procedure => exact hplain rfl

/-- A declaration that is not refused adds what it means. -/
theorem declareAs_some (h : t.declareAs name l what = .ok (some (e, u))) :
    ∃ m, what.meaning t = .ok m ∧ (e, u) = t.add name l m := by
  rw [declareAs_eq] at h
  split at h
  · cases h
  · cases hm : what.meaning t with
    | error node =>
      rw [hm] at h
      cases h
    | ok m =>
      rw [hm] at h
      exact ⟨m, rfl, (Option.some.inj (Except.ok.inj h)).symm⟩

/-! ### Constants, types and variables -/

/-- What can happen to a table while constants, types and variables are declared. -/
inductive Declarations : SymbolTable → SymbolTable → Prop
  | refl (t : SymbolTable) : Declarations t t
  | trans {t u v : SymbolTable} (first : Declarations t u) (further : Declarations u v) :
      Declarations t v
  | declared {t u : SymbolTable} {name : String} {l : Location} {e : Entry} (what : Declaration)
      (hplain : what ≠ .procedure) (hwhat : what.InScope t.current)
      (h : t.declareAs name l what = .ok (some (e, u))) : Declarations t u

theorem Declarations.registered (h : t.Declarations u) : t.Registered [] u := by
  induction h with
  | refl t => exact .refl t
  | trans first further ih ih' => exact ih.trans ih'
  | declared what hplain hwhat h =>
    obtain ⟨m, hm, hadd⟩ := declareAs_some h
    obtain ⟨-, rfl⟩ := Prod.mk.inj hadd
    exact .add _ _ (Declaration.meaning_inScope hwhat hm) (Declaration.meaning_plain hplain hm)

/-! ### Procedures -/

/-- A procedure gets an entry: its name is declared, or no name refers to it. -/
def ProcedureAdded (t : SymbolTable) (e : Entry) (u : SymbolTable) : Prop :=
  (∃ name l, t.declareAs name l .procedure = .ok (some (e, u))) ∨
    ∃ name l, (e, u) = t.addDetached name l

theorem ProcedureAdded.entryAdded (h : t.ProcedureAdded e u) : t.EntryAdded e u := by
  rcases h with ⟨name, l, h⟩ | ⟨name, l, h⟩
  · have hadd : (e, u) = t.add name l (.procedure none) := declare_some (Except.ok.inj h)
    have hname : e.name = name := congrArg (fun r => r.1.name) hadd
    exact ⟨l, .inl (hname ▸ hadd)⟩
  · have hname : e.name = name := congrArg (fun r => r.1.name) h
    exact ⟨l, .inr (hname ▸ h)⟩

end PlZero.SymbolTable
