/-
  PlZero/Proofs/Scope/Growth.lean
  ===============================
  **What can happen to a symbol table while a rule is read.**  `Growth t u` says that the table
  `t` becomes `u` by declarations in the innermost scope, by procedures that no name refers to,
  and by scopes that are opened for a procedure right behind its entry and closed again.  Every
  rule but that of the program takes the table on such a course, also a malformed one and
  whatever goes wrong on the way.

  What holds of all of them is proved by one induction on the growth: older entries and older
  scopes stay, but for the names that the innermost scope gains (`Growth.kept`), these refer to
  new entries (`Growth.names`), and new entries are of the innermost scope or of a new one
  (`Growth.placed`).  The rule of the program opens its scope for an entry that the table has
  (`Growth.grown_inside`).
-/
import PlZero.Proofs.Contract.Frame
import PlZero.Proofs.Scope.Readers

namespace PlZero

namespace SymbolTable

variable {t u v w : SymbolTable} {name : String} {l : Location} {e : Entry} {s : Scope}
  {i n : Nat}

/-! ### Growth -/

/-- What can happen to a table until every scope is closed that was opened on the way. -/
inductive Growth : SymbolTable → SymbolTable → Prop
  | refl (t : SymbolTable) : Growth t t
  | trans {t u v : SymbolTable} (first : Growth t u) (further : Growth u v) : Growth t v
  | declared {t u : SymbolTable} {name : String} {l : Location} {e : Entry} (what : Declaration)
      (hwhat : what.InScope t.current) (h : t.declareAs name l what = .ok (some (e, u))) :
      Growth t u
  | detached (t : SymbolTable) (name : String) (l : Location) : Growth t (t.addDetached name l).2
  | procedure {t u v w : SymbolTable} {e : Entry} (hentry : t.ProcedureAdded e u)
      (inside : Growth (u.enter e.index).2 v) (hleave : v.leave = some w) : Growth t w

theorem Declarations.growth (h : t.Declarations u) : t.Growth u := by
  induction h with
  | refl t => exact .refl t
  | trans first further ih ih' => exact .trans ih ih'
  | declared what hplain hwhat h => exact .declared what hwhat h

theorem ProcedureAdded.growth (h : t.ProcedureAdded e u) : t.Growth u := by
  rcases h with ⟨name, l, h⟩ | ⟨name, l, h⟩
  · exact .declared .procedure trivial h
  · have hu : u = (t.addDetached name l).2 := congrArg Prod.snd h
    exact hu ▸ .detached t name l

/-! ### What stays -/

theorem ProcedureAdded.kept (h : t.ProcedureAdded e u) (hn : n ≤ t.entries.size) :
    t.Kept n u := by
  obtain ⟨l, h | h⟩ := h.entryAdded
  · obtain ⟨-, rfl⟩ := Prod.mk.inj h
    exact add_kept hn e.name l _
  · obtain ⟨-, rfl⟩ := Prod.mk.inj h
    exact append_kept hn e.name l _

/-- Entries with numbers below `n`, and scopes other than the innermost one, stay. -/
theorem Growth.kept (h : t.Growth u) (hn : n ≤ t.entries.size) : t.Kept n u := by
  induction h with
  | refl t => exact .refl n t
  | trans first further ih ih' =>
    have hfirst := ih hn
    exact hfirst.trans (ih' (Nat.le_trans hn hfirst.entryCount))
  | declared what hwhat h =>
    obtain ⟨m, -, hadd⟩ := declareAs_some h
    obtain ⟨-, rfl⟩ := Prod.mk.inj hadd
    exact add_kept hn _ _ m
  | detached t name l => exact append_kept hn name l _
  | procedure hentry inside hleave ih =>
    obtain ⟨hindex, -⟩ := hentry.entryAdded.table
    have hadded := hentry.kept hn
    have hinside := ih (by
      rw [hentry.entryAdded.entered.2.1]
      exact Nat.le_succ_of_le hn)
    obtain ⟨w', hleave', -, hkept⟩ := Kept.inside (hindex ▸ hn) hinside
    obtain rfl := Option.some.inj (hleave.symm.trans hleave')
    exact hadded.trans hkept

/-- The innermost scope of a table gains names in front of those that it has, and these refer to
    entries that the table has not. -/
def GainsNames (t u : SymbolTable) : Prop :=
  ∀ s, t.scopes[t.current]? = some s → ∃ new,
    u.scopes[t.current]? = some { s with declared := new ++ s.declared } ∧
      ∀ p ∈ new, t.entries.size ≤ p.2

theorem GainsNames.of_same (h : u.scopes[t.current]? = t.scopes[t.current]?) : t.GainsNames u :=
  fun _ hs => ⟨[], h.trans hs, List.forall_mem_nil _⟩

theorem GainsNames.add (name : String) (l : Location) (m : Meaning) :
    t.GainsNames (t.add name l m).2 := by
  intro s hs
  refine ⟨[(name, t.entries.size)], ?_, by simp⟩
  rw [add_scopes, if_pos rfl, hs]
  rfl

theorem GainsNames.trans (h : t.GainsNames u) (hkept : t.Kept n u) (h' : u.GainsNames v) :
    t.GainsNames v := by
  intro s hs
  obtain ⟨new, hu, hnew⟩ := h s hs
  rw [← hkept.current] at hu
  obtain ⟨new', hv, hnew'⟩ := h' _ hu
  refine ⟨new' ++ new, ?_, ?_⟩
  · rw [← hkept.current, hv, List.append_assoc]
  · intro p hp
    rcases List.mem_append.mp hp with hp | hp
    · exact Nat.le_trans hkept.entryCount (hnew' p hp)
    · exact hnew p hp

theorem ProcedureAdded.names (h : t.ProcedureAdded e u) : t.GainsNames u := by
  obtain ⟨l, h | h⟩ := h.entryAdded
  · obtain ⟨-, rfl⟩ := Prod.mk.inj h
    exact .add e.name l _
  · obtain ⟨-, rfl⟩ := Prod.mk.inj h
    exact .of_same rfl

theorem Growth.names (h : t.Growth u) : t.GainsNames u := by
  induction h with
  | refl t => exact .of_same rfl
  | trans first further ih ih' => exact ih.trans (first.kept (Nat.le_refl _)) ih'
  | declared what hwhat h =>
    obtain ⟨m, -, h⟩ := declareAs_some h
    obtain ⟨-, rfl⟩ := Prod.mk.inj h
    exact .add _ _ m
  | detached t name l => exact .of_same rfl
  | @procedure t u v w e hentry inside hleave ih =>
    have hadded := hentry.kept (Nat.le_refl _)
    refine hentry.names.trans hadded fun s hs => ?_
    -- while the scope of the procedure is open, the scopes around it are kept
    have hlt : u.current < u.scopes.size := (Array.getElem?_eq_some_iff.mp hs).1
    have hv := (inside.kept (Nat.zero_le _)).scopes_inside hlt
    rw [← (leave_rows hleave).1] at hv
    exact GainsNames.of_same hv s hs

/-- An entry that is added last is the only new one. -/
theorem new_of_push (hentries : u.entries = t.entries.push e) {x : Entry}
    (hi : t.entries.size ≤ i) (hx : u.entries[i]? = some x) : x = e := by
  rw [hentries, Array.getElem?_push] at hx
  split at hx
  · exact (Option.some.inj hx).symm
  · rw [Array.getElem?_eq_none hi] at hx
    cases hx

/-- A new entry is one of the innermost scope, or of a scope that is new as well. -/
theorem Growth.placed (h : t.Growth u) (hi : t.entries.size ≤ i) (he : u.entries[i]? = some e) :
    e.scope = t.current ∨ t.scopes.size ≤ e.scope := by
  induction h generalizing i e with
  | refl t =>
    rw [Array.getElem?_eq_none hi] at he
    cases he
  | @trans t u v first further ih ih' =>
    have hfirst := first.kept (Nat.le_refl _)
    by_cases hlt : i < u.entries.size
    · rw [(further.kept (Nat.le_refl _)).entries i hlt] at he
      exact ih hi he
    · rcases ih' (Nat.le_of_not_lt hlt) he with hscope | hscope
      · exact .inl (hscope.trans hfirst.current)
      · exact .inr (Nat.le_trans hfirst.scopeCount hscope)
  | @declared t u name l x what hwhat h =>
    obtain ⟨m, -, h⟩ := declareAs_some h
    obtain ⟨-, rfl⟩ := Prod.mk.inj h
    obtain rfl := new_of_push rfl hi he
    exact .inl rfl
  | detached t name l =>
    obtain rfl := new_of_push rfl hi he
    exact .inl rfl
  | @procedure t u v w x hentry inside hleave ih =>
    obtain ⟨hindex, hscope, -⟩ := hentry.entryAdded.table
    obtain ⟨-, hcount, hx, hscopes, -⟩ := hentry.entryAdded.entered
    rw [(leave_rows hleave).2] at he
    by_cases hlt : i < (u.enter x.index).2.entries.size
    · -- the only entry that was new when the scope was opened is that of the procedure
      obtain rfl : i = x.index := by omega
      rw [(inside.kept (Nat.le_refl _)).entries _ hlt, hx] at he
      obtain rfl := Option.some.inj he
      exact .inl hscope
    · right
      rcases ih (Nat.le_of_not_lt hlt) he with hinner | hinner
      · rw [hinner]
        show t.scopes.size ≤ u.scopes.size
        exact (hentry.kept (Nat.zero_le _)).scopeCount
      · omega

/-! ### All of it together -/

/-- What a table `t` keeps and gains where it becomes `u`.  If there is an `owner`, a scope was
    opened for it on the way, and its entry knows that. -/
structure Grown (owner : Option Nat) (t u : SymbolTable) : Prop where
  current : u.current = t.current
  enclosing : u.enclosing = t.enclosing
  entries : ∀ (i : Nat) (e : Entry), t.entries[i]? = some e →
    u.entries[i]? = some (if owner = some i then withLocalScope t.scopes.size e else e)
  scopes : ∀ i, i < t.scopes.size → i ≠ t.current → u.scopes[i]? = t.scopes[i]?
  names : t.GainsNames u
  placed : ∀ (i : Nat) (e : Entry), t.entries.size ≤ i → u.entries[i]? = some e →
    e.scope = t.current ∨ t.scopes.size ≤ e.scope

theorem Growth.grown (h : t.Growth u) : t.Grown none u where
  current := (h.kept (Nat.zero_le _)).current
  enclosing := (h.kept (Nat.zero_le _)).enclosing
  entries := by
    intro i e he
    have hi : i < t.entries.size := (Array.getElem?_eq_some_iff.mp he).1
    exact ((h.kept (Nat.le_refl _)).entries i hi).trans he
  scopes := (h.kept (Nat.zero_le _)).scopes
  names := h.names
  placed := fun _ _ => h.placed

/-- A scope is opened for an entry of the table, and closed again. -/
theorem Growth.grown_inside {owner : Nat} (h : (t.enter owner).2.Growth v)
    (hleave : v.leave = some w) : t.Grown (some owner) w := by
  have hsize : (t.enter owner).2.entries.size = t.entries.size := Array.size_modify ..
  have hinside := h.kept (Nat.le_refl _)
  obtain ⟨w', hleave', -, hkept⟩ := Kept.inside (Nat.zero_le owner) (h.kept (Nat.zero_le _))
  obtain rfl := Option.some.inj (hleave.symm.trans hleave')
  obtain ⟨hscopes, hentries⟩ := leave_rows hleave
  refine ⟨hkept.current, hkept.enclosing, ?_, hkept.scopes, ?_, ?_⟩
  · intro i e he
    have hi : i < t.entries.size := (Array.getElem?_eq_some_iff.mp he).1
    have hmodified : (t.enter owner).2.entries[i]? =
        some (if owner = i then withLocalScope t.scopes.size e else e) := by
      show (t.entries.modify owner (withLocalScope t.scopes.size))[i]? = _
      rw [Array.getElem?_modify, he]
      split <;> rfl
    rw [hentries, hinside.entries i (hsize ▸ hi), hmodified]
    simp only [Option.some.injEq]
  · intro s hs
    have hlt : t.current < t.scopes.size := (Array.getElem?_eq_some_iff.mp hs).1
    refine GainsNames.of_same ?_ s hs
    rw [hscopes, hinside.scopes_inside hlt]
  · intro i e hi he
    rw [hentries] at he
    -- the scope that was opened is new, and so are those that are opened inside
    rcases h.placed (hsize ▸ hi) he with hscope | hscope
    · exact .inr (Nat.le_of_eq hscope.symm)
    · right
      show t.scopes.size ≤ e.scope
      have hcount : (t.enter owner).2.scopes.size = t.scopes.size + 1 := Array.size_push ..
      omega

end SymbolTable

namespace Grammar

open Reader SymbolTable

variable {t : SymbolTable} {recover : KindSet} {maxDepth : Nat}

/-! ### Procedures, blocks and programs -/

section

variable {block : Nat → KindSet → Reader Block}
  (hblock : ∀ scope r (t : SymbolTable), Leaves t (block scope r) fun _ u => t.Growth u)
include hblock

theorem procedureDefinition_grows :
    Leaves t (procedureDefinition block recover) fun _ u => t.Growth u := by
  apply Leaves.certainly
  intro l
  apply procedureHeader_leaves.bind
  intro e u hentry
  have hbody : Leaves u (inScope e.index fun scope => do
      demand .equals Starts.block
      block scope (recover ∪ {.semicolon})) fun _ v => t.Growth v := by
    apply Leaves.inScope
    apply Leaves.still .demand
    intro _
    apply (hblock _ _ _).post
    intro b w hw v hleave
    exact .procedure hentry hw hleave
  apply hbody.bind
  intro b v hv
  exact .still .demand fun _ => .pure hv

theorem declaration_grows :
    Leaves t (declaration block recover) fun _ u => t.Growth u := by
  apply Leaves.certainly
  intro _
  apply Leaves.look
  intro first
  split
  · exact constantList_leaves.bind fun _ _ hu => .pure hu.growth
  · exact typeList_leaves.bind fun _ _ hu => .pure hu.growth
  · exact variableList_leaves.bind fun _ _ hu => .pure hu.growth
  · exact (procedureDefinition_grows hblock).bind fun _ _ hu => .pure hu
  · exact .unreachable

theorem blockOver_grows {statement : KindSet → Reader Statement} {scope : Nat}
    (hstatement : ∀ r (t : SymbolTable),
      Leaves t (statement r) fun a u => a.InScope t.current ∧ u = t) :
    Leaves t (blockOver statement block scope recover) fun _ u => t.Growth u := by
  apply Leaves.attempt
  · exact fun _ => .refl t
  · intro l
    apply Leaves.bind (Q := fun _ u => t.Growth u)
    · apply Leaves.whileIn (Q := fun _ u => t.Growth u) (.refl t)
      intro found u hu
      apply (declaration_grows hblock).bind
      intro added v hv
      cases added with
      | none => exact .pure (hu.trans hv)
      | some p => exact .pure (hu.trans hv)
    · intro found u hu
      apply (compoundStatement_leaves (hstatement · u)).bind
      rintro body v ⟨-, rfl⟩
      exact .pure hu

end

theorem blockWithin_grows (n : Nat) :
    ∀ scope r (t : SymbolTable), Leaves t (blockWithin n scope r) fun _ u => t.Growth u := by
  induction n with
  | zero => exact fun _ _ _ => .tooDeep
  | succ n ih => exact fun _ _ _ => blockOver_grows ih fun r _ => statementWithin_leaves n r

/-- A program is read in a scope that is opened for it. -/
theorem program_grows :
    Leaves t (program maxDepth recover) fun _ u => t.Grown (some mainIndex) u := by
  have hblock : Leaves t (inScope mainIndex fun scope =>
      attempt .program recover (fun l => .mk l scope [] (.error l)) fun _ =>
        blockWithin maxDepth scope recover) fun _ u => t.Grown (some mainIndex) u := by
    apply Leaves.inScope
    apply Leaves.attempt
    · exact fun _ _ hleave => Growth.grown_inside (.refl _) hleave
    · intro _
      apply (blockWithin_grows maxDepth _ _ _).post
      exact fun _ _ hw _ hleave => hw.grown_inside hleave
  exact hblock.bind fun _ _ hu => .pure hu

end Grammar

end PlZero
