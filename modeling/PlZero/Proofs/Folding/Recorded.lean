/-
  PlZero/Proofs/Folding/Recorded.lean
  ===================================
  **A reader changes the table by operations.**  `Becomes t u` says that the table `u` comes of
  the table `t` by operations that are admitted when their turn comes: scopes are opened for
  procedures that have an entry, and a constant is declared in the scope in which it is written.
  A table that grows is changed in this way (`Growth.becomes`), and so, whatever a program looks
  like, its table comes of the new one.
-/
import PlZero.Proofs.Folding.Stored
import PlZero.Proofs.Scope.Growth

namespace PlZero

namespace SymbolTable

variable {t u v : SymbolTable}

/-- One table comes of another by operations that are admitted. -/
def Becomes (t u : SymbolTable) : Prop :=
  ∃ operations, ∀ h : History, h.table = t →
    (h.run operations).table = u ∧ h.Admits operations

theorem Becomes.refl (t : SymbolTable) : t.Becomes t :=
  ⟨[], fun _ hh => ⟨hh, trivial⟩⟩

theorem History.admits_append {h : History} {first further : List Operation}
    (hfirst : h.Admits first) (hfurther : (h.run first).Admits further) :
    h.Admits (first ++ further) := by
  induction first generalizing h with
  | nil => exact hfurther
  | cons operation first ih => exact ⟨hfirst.1, ih hfirst.2 hfurther⟩

theorem Becomes.trans (h : t.Becomes u) (h' : u.Becomes v) : t.Becomes v := by
  obtain ⟨first, hfirst⟩ := h
  obtain ⟨further, hfurther⟩ := h'
  refine ⟨first ++ further, ?_⟩
  intro h hh
  obtain ⟨hu, hadmits⟩ := hfirst h hh
  obtain ⟨hv, hadmits'⟩ := hfurther (h.run first) hu
  refine ⟨?_, History.admits_append hadmits hadmits'⟩
  rw [← hv, History.run, History.run, History.run, List.foldl_append]

/-- One operation. -/
theorem Becomes.perform (operation : Operation) (hinside : operation.InScope t.current)
    (h : ∀ h : History, h.table = t → (h.perform operation).table = u ∧ h.Permitted operation) :
    t.Becomes u := by
  refine ⟨[operation], ?_⟩
  intro g hg
  obtain ⟨hu, hpermitted⟩ := h g hg
  exact ⟨hu, ⟨hpermitted, hg ▸ hinside⟩, trivial⟩

theorem Becomes.enter {owner : Nat} {e : Entry} (he : t.entries[owner]? = some e)
    (hprocedure : e.isProcedure) : t.Becomes (t.enter owner).2 := by
  apply Becomes.perform (.enter owner) trivial
  rintro h rfl
  exact ⟨rfl, e, he, hprocedure⟩

theorem Becomes.leave (hu : t.leave = some u) : t.Becomes u := by
  apply Becomes.perform .leave trivial
  rintro h rfl
  exact ⟨by simp only [History.perform, hu], trivial⟩

/-- A declaration that needs no folding. -/
theorem Becomes.declare (operation : Operation) {name : String} {l : Location} {m : Meaning}
    (hinside : operation.InScope t.current)
    (hperform : ∀ h : History, h.table = t →
      h.perform operation = h.declare name (t.declare name l m) ∧ h.Permitted operation) :
    ∀ e u, t.declare name l m = some (e, u) → t.Becomes u := by
  intro e u hu
  apply Becomes.perform operation hinside
  intro h hh
  obtain ⟨hrun, hpermitted⟩ := hperform h hh
  rw [hrun, hu]
  exact ⟨rfl, hpermitted⟩

theorem Becomes.declareConstant {name : String} {l : Location} {tree : Constant} {e : Entry}
    (htree : tree.InScope t.current)
    (hu : t.declareConstant name l tree = .ok (some (e, u))) : t.Becomes u := by
  apply Becomes.perform (.constant name l tree) htree
  rintro h rfl
  simp only [History.perform, hu]
  exact ⟨rfl, trivial⟩

/-- The four kinds of declarations are operations. -/
theorem Becomes.declareAs {name : String} {l : Location} (what : SymbolTable.Declaration)
    {e : Entry} (hwhat : what.InScope t.current)
    (h : t.declareAs name l what = .ok (some (e, u))) : t.Becomes u := by
  cases what with
  | constant tree => exact .declareConstant hwhat h
  | type definition =>
    refine Becomes.declare (.type name l definition) trivial ?_ e u (Except.ok.inj h)
    rintro h rfl
    exact ⟨rfl, trivial⟩
  | variableOf base =>
    refine Becomes.declare (.variableOf name l base) trivial ?_ e u (Except.ok.inj h)
    rintro h rfl
    exact ⟨rfl, trivial⟩
  | procedure =>
    refine Becomes.declare (.procedure name l) trivial ?_ e u (Except.ok.inj h)
    rintro h rfl
    exact ⟨rfl, trivial⟩

theorem Becomes.detached (t : SymbolTable) (name : String) (l : Location) :
    t.Becomes (t.addDetached name l).2 := by
  apply Becomes.perform (.detached name l) trivial
  rintro h rfl
  exact ⟨rfl, trivial⟩

/-- The entry of a procedure is in the table, so that a scope may be opened for it. -/
theorem ProcedureAdded.entered_becomes {e : Entry} (h : t.ProcedureAdded e u) :
    u.Becomes (u.enter e.index).2 := by
  obtain ⟨hindex, -, hmeaning, hentries, -⟩ := h.entryAdded.table
  have he : u.entries[e.index]? = some e := by
    rw [hentries, hindex]
    exact Array.getElem?_push_size
  exact .enter he (by simp [Entry.isProcedure, hmeaning])

/-- By induction on the growth: one operation for a declaration, and those of what is inside
    between the two that open and close a scope. -/
theorem Growth.becomes (h : t.Growth u) : t.Becomes u := by
  induction h with
  | refl t => exact .refl t
  | trans first further ih ih' => exact ih.trans ih'
  | declared what hwhat h => exact .declareAs what hwhat h
  | detached t name l => exact .detached t name l
  | @procedure t u v w e hentry inside hleave ih =>
    have hadded : t.Becomes u := by
      rcases hentry with ⟨name, l, h⟩ | ⟨name, l, h⟩
      · exact .declareAs .procedure trivial h
      · obtain ⟨-, rfl⟩ := Prod.mk.inj h
        exact .detached t name l
    exact ((hadded.trans hentry.entered_becomes).trans ih).trans (.leave hleave)

end SymbolTable

namespace Grammar

open Reader SymbolTable

variable {maxDepth : Nat}

/-- The table of a program comes of the new one. -/
theorem wholeProgram_becomes (maxDepth : Nat) :
    Leaves initial (wholeProgram maxDepth) fun _ t => initial.Becomes t := by
  have hblock : Leaves initial (inScope mainIndex fun scope =>
      attempt .program {.endOfFile} (fun l => .mk l scope [] (.error l)) fun _ =>
        blockWithin maxDepth scope {.endOfFile}) fun _ u => initial.Becomes u := by
    apply Leaves.inScope
    have hentered : initial.Becomes (initial.enter mainIndex).2 := .enter rfl rfl
    apply Leaves.attempt
    · intro l v hleave
      exact hentered.trans (.leave hleave)
    · intro l
      apply (blockWithin_grows maxDepth _ _ _).post
      intro b w hw v hleave
      exact (hentered.trans hw.becomes).trans (.leave hleave)
  apply Leaves.still .note
  intro _
  have hprogram : Leaves initial (program maxDepth {.endOfFile}) fun _ u => initial.Becomes u :=
    hblock.bind fun _ _ hu => .pure hu
  apply hprogram.bind
  intro p t hp
  apply Leaves.look
  intro errors
  exact .still .note fun _ => .pure hp

end Grammar

end PlZero
