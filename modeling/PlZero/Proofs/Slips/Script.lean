/-
  PlZero/Proofs/Slips/Script.lean
  ===============================
  **Tokens that were meant and tokens that were typed.**  A script goes through the tokens of a
  program and says of each how it was typed: behind stray tokens, as another token, or not at
  all.  A slip is what should be reported of that: one error at the first of the strays, that
  `:=` is expected at the token in its place, or that `=` is expected at the token behind.

  `Told` relates the diagnostics of a program to those of the program as it was typed: each
  complaint is repeated, and between them stands one diagnostic for each slip.
-/
import Mathlib.Data.List.Chain
import Mathlib.Data.List.Forall2
import PlZero.Proofs.Derivation.Complaints
import PlZero.Proofs.Derivation.Lead

namespace PlZero

/-! ### Scripts -/

/-- How a token was typed: behind strays, as another token, or not at all. -/
inductive Stroke
  | plain (strays : List Token) (token : Token)
  | mistyped (meant typed : Token)
  | dropped (meant : Token)
  deriving DecidableEq, Repr

namespace Stroke

/-- The token that was meant. -/
def meant : Stroke → Token
  | plain _ t => t
  | mistyped m _ => m
  | dropped m => m

/-- The tokens that were typed. -/
def typed : Stroke → List Token
  | plain strays t => strays ++ [t]
  | mistyped _ t => [t]
  | dropped _ => []

/-- The tokens that stand before the one that was meant and do not belong there. -/
def strays : Stroke → List Token
  | plain strays _ => strays
  | _ => []

/-- A token was typed as it was meant, if behind illegal tokens. -/
def OnlyStrayed : Stroke → Prop
  | plain strays _ => ∀ u ∈ strays, u.kind = .illegal
  | _ => False

instance : DecidablePred OnlyStrayed
  | plain strays _ => inferInstanceAs (Decidable (∀ u ∈ strays, u.kind = .illegal))
  | mistyped _ _ => .isFalse id
  | dropped _ => .isFalse id

/-- A token was typed as it was meant and behind no strays, or as `=` in the place of `:=`, or it
    is an `=` that was left out. -/
def OnlySlipped : Stroke → Prop
  | plain strays _ => strays = []
  | mistyped m t => m.kind = .assign ∧ t.kind = .equals
  | dropped m => m.kind = .equals

instance : DecidablePred OnlySlipped
  | plain strays _ => inferInstanceAs (Decidable (strays = []))
  | mistyped m t => inferInstanceAs (Decidable (m.kind = .assign ∧ t.kind = .equals))
  | dropped m => inferInstanceAs (Decidable (m.kind = .equals))

theorem OnlySlipped.clear {stroke : Stroke} (h : stroke.OnlySlipped) : stroke.strays = [] := by
  cases stroke with
  | plain strays t => exact h
  | mistyped m t => rfl
  | dropped m => rfl

end Stroke

/-- A place, or that of what was typed for the token there. -/
def Retyped (script : List Stroke) (l l' : Location) : Prop :=
  l' = l ∨ ∃ m t, .mistyped m t ∈ script ∧ l = m.location ∧ l' = t.location

/-! ### Slips -/

/-- What should be reported: an error at a place, which says what is expected there if that is
    known. -/
structure Slip where
  location : Location
  expected : Option Kind
  deriving DecidableEq, Repr

/-- Whether a problem is that a token does not stand where it could. -/
def Problem.ofSyntax : Problem → Bool
  | .expecting _ => true
  | .cannotStart _ _ => true
  | .cannotFollow _ _ => true
  | _ => false

/-- A diagnostic says of a slip what should be said. -/
structure Slip.Reported (x : Slip) (d : Diagnostic) : Prop where
  severity : d.severity = .error
  place : d.location = x.location
  ofSyntax : d.problem.ofSyntax = true
  expected : ∀ k ∈ x.expected, d.problem = .expecting k

/-- Strays that stand together are one slip, at the first of them. -/
def Slip.ofStrays : List Token → List Slip
  | [] => []
  | x :: _ => [⟨x.location, none⟩]

/-- The slips of a script, in the order of the text. -/
def Slip.ofScript : List Stroke → List Slip
  | [] => []
  | .plain strays _ :: more => Slip.ofStrays strays ++ Slip.ofScript more
  | .mistyped _ t :: more => ⟨t.location, some .assign⟩ :: Slip.ofScript more
  | .dropped m :: more =>
    ⟨((more.flatMap Stroke.typed).head?.getD m).location, some .equals⟩ :: Slip.ofScript more

/-! ### Diagnostics -/

/-- Diagnostics that say the same, at places related by `level`. -/
structure Diagnostic.Alike (level : Location → Location → Prop) (d d' : Diagnostic) : Prop where
  severity : d'.severity = d.severity
  problem : d'.problem = d.problem
  place : level d.location d'.location

/-- What is told of two runs, latest first: the complaints of the first again, and one
    diagnostic for each slip. -/
inductive Told (level : Location → Location → Prop) :
    List Slip → List Diagnostic → List Diagnostic → Prop
  | nothing : Told level [] [] []
  | complaint {xs : List Slip} {ds ds' : List Diagnostic} {d d' : Diagnostic}
      (h : Told level xs ds ds') (hd : d.Alike level d') : Told level xs (d :: ds) (d' :: ds')
  | slip {xs : List Slip} {ds ds' : List Diagnostic} {x : Slip} {d : Diagnostic}
      (h : Told level xs ds ds') (hx : x.Reported d) : Told level (x :: xs) ds (d :: ds')

/-- The diagnostics of the second run are those of the first and those of the slips. -/
theorem Told.perm {level : Location → Location → Prop} {xs : List Slip}
    {ds ds' : List Diagnostic} (h : Told level xs ds ds') :
    ∃ repeated found, ds'.Perm (repeated ++ found) ∧
      List.Forall₂ (Diagnostic.Alike level) ds repeated ∧ List.Forall₂ Slip.Reported xs found := by
  induction h with
  | nothing => exact ⟨[], [], .nil, .nil, .nil⟩
  | @complaint xs ds ds' d d' h hd ih =>
    obtain ⟨repeated, found, hperm, hrepeated, hfound⟩ := ih
    exact ⟨d' :: repeated, found, hperm.cons d', .cons hd hrepeated, hfound⟩
  | @slip xs ds ds' x d h hx ih =>
    obtain ⟨repeated, found, hperm, hrepeated, hfound⟩ := ih
    have hmiddle : (d :: ds').Perm (repeated ++ d :: found) :=
      (hperm.cons d).trans List.perm_middle.symm
    exact ⟨repeated, d :: found, hmiddle, hrepeated, .cons hx hfound⟩

/-! ### Careful scripts -/

/-- A script that is read: the places in the two runs that count as the same, those of which
    this is so for what is said of them, and the slips. -/
structure Draft where
  near : Location → Location → Prop
  level : Location → Location → Prop
  slips : List Slip
  level_refl : ∀ l, level l l
  near_of_level : ∀ {l l'}, level l l' → near l l'

namespace Draft

variable (D : Draft)

instance : Std.Refl D.level := ⟨D.level_refl⟩

instance : Std.Refl D.near := ⟨fun l => D.near_of_level (D.level_refl l)⟩

/-- A token was typed in a way that the reader gets over, behind what has been read and before
    the next one.  Strays are illegal, and do not stand where a name is read; `:=` was typed as
    `=`, and the `=` behind the head of a procedure not at all, with no strays behind. -/
def Forgives (lead : Lead) (next : Option Stroke) : Stroke → Prop
  | .plain strays t => (∀ u ∈ strays, u.kind = .illegal) ∧ (lead.Names → strays = []) ∧
      ∀ u ∈ strays.head?, D.near t.location u.location
  | .mistyped m t => m.kind = .assign ∧ t.kind = .equals ∧ D.level m.location t.location ∧
      ∀ stroke ∈ next, stroke.strays = []
  | .dropped m => m.kind = .equals ∧ lead = .head ∧ ∀ stroke ∈ next, stroke.strays = []

/-- Every token of a script was typed in a way that the reader gets over. -/
def Careful : Lead → List Stroke → Prop
  | _, [] => True
  | lead, stroke :: more =>
    D.Forgives lead more.head? stroke ∧ Careful (lead.after stroke.meant.kind) more

variable {D}

/-- A token that was typed as it was meant, and behind no strays. -/
theorem forgives_exact {lead : Lead} {next : Option Stroke} {t : Token} :
    D.Forgives lead next (.plain [] t) :=
  ⟨fun _ hu => absurd hu List.not_mem_nil, fun _ => rfl, fun _ hu => by cases hu⟩

theorem careful_of_forgives {lead : Lead} {script : List Stroke}
    (h : ∀ before stroke behind, script = before ++ stroke :: behind →
      D.Forgives ((before.map fun x => x.meant.kind).foldl Lead.after lead) behind.head? stroke) :
    D.Careful lead script := by
  induction script generalizing lead with
  | nil => trivial
  | cons stroke more ih =>
    refine ⟨h [] stroke more rfl, ih fun before next behind hmore => ?_⟩
    exact h (stroke :: before) next behind (congrArg (stroke :: ·) hmore)

/-! ### Scripts of one kind of slips -/

variable {script : List Stroke}

/-- A script of strays.  Places do not count but those of what is complained of. -/
def ofStrayed (script : List Stroke) : Draft :=
  ⟨fun _ _ => True, Eq, Slip.ofScript script, fun _ => rfl, fun _ => trivial⟩

theorem strayed_careful (hstrayed : ∀ stroke ∈ script, stroke.OnlyStrayed)
    (hnames : script.IsChain fun stroke next =>
      stroke.meant.kind = .kwProcedure ∨ stroke.meant.kind = .kwCall → next.strays = []) :
    (ofStrayed script).Careful .nothing script := by
  apply careful_of_forgives
  intro before stroke behind hsplit
  have hstroke : stroke.OnlyStrayed := hstrayed stroke (by simp [hsplit])
  cases stroke with
  | mistyped m t => exact hstroke.elim
  | dropped m => exact hstroke.elim
  | plain strays t =>
    refine ⟨hstroke, fun hlead => ?_, fun _ _ => trivial⟩
    -- where a name is read, `procedure` or `call` was the last token before
    rcases List.eq_nil_or_concat before with rfl | ⟨before, last, rfl⟩
    · exact absurd hlead Lead.not_names
    · rw [List.map_concat, List.concat_eq_append, List.foldl_append] at hlead
      rw [hsplit, List.concat_eq_append, List.append_assoc] at hnames
      exact (List.isChain_append_cons_cons.mp hnames).2.1 (Lead.names_after hlead)

/-- A script of signs that were mistyped or left out.  All places count but those of what was
    typed for `:=`. -/
def ofSlipped (script : List Stroke) : Draft :=
  ⟨Retyped script, Retyped script, Slip.ofScript script, fun _ => .inl rfl, id⟩

theorem slipped_careful (hslipped : ∀ stroke ∈ script, stroke.OnlySlipped)
    (hheads : ∀ before m behind, script = before ++ .dropped m :: behind →
      Lead.headKinds <:+ before.map fun stroke => stroke.meant.kind) :
    (ofSlipped script).Careful .nothing script := by
  apply careful_of_forgives
  intro before stroke behind hsplit
  have hmem : stroke ∈ script := by simp [hsplit]
  have hclear : ∀ next ∈ behind.head?, next.strays = [] := by
    intro next hnext
    have hbehind : next ∈ stroke :: behind :=
      List.mem_cons_of_mem _ (List.mem_of_mem_head? hnext)
    exact (hslipped next (hsplit ▸ List.mem_append_right _ hbehind)).clear
  have hslip : stroke.OnlySlipped := hslipped stroke hmem
  cases stroke with
  | plain strays t =>
    obtain rfl : strays = [] := hslip
    exact forgives_exact
  | mistyped m t => exact ⟨hslip.1, hslip.2, .inr ⟨m, t, hmem, rfl, rfl⟩, hclear⟩
  | dropped m => exact ⟨hslip, Lead.after_head .nothing (hheads before m behind hsplit), hclear⟩

end Draft

end PlZero
