/-
  PlZero/Proofs/Scope/Closed.lean
  ===============================
  **What closing a scope restores, and what it ends.**  Open and closed scopes live in one
  row.  What keeps them apart is that an operation writes into the innermost open scope only
  (`Effect.scope_kept`) and that a closed scope never opens again (`Effect.shut`).

  A balanced run closes every scope that it opens (`Balanced`).  Behind it the scope in which
  it began is the innermost one again, and every scope that is older is as it was, because
  inside the run a newer one is always the innermost (`Balanced.keeps`).  The scopes that it
  opened are shut from then on: nothing changes them any more, and what a name means in one of
  them changes only with a declaration in a scope around it that was still open
  (`closed_scopes_frozen`).
-/
import PlZero.Proofs.Scope.History

namespace PlZero

namespace SymbolTable

variable {t u : SymbolTable} {i j : Nat} {p : List Nat} {name : String}

/-! ### Filed tables -/

/-- Scopes are nested, and what a name refers to is there and knows its number.  A table is
    filed so after any operations, also if a scope was opened for something else than a
    procedure. -/
structure Filed (t : SymbolTable) : Prop where
  nested : t.Nested
  named : ∀ (i : Nat) (s : Scope), t.scopes[i]? = some s → ∀ name k, s.find? name = some k →
    ∃ e, t.entries[k]? = some e ∧ e.index = k

theorem Filed.bare : bare.Filed where
  nested := .bare
  named := by
    intro i s hs name k hk
    cases i with
    | zero =>
      have hs : s = ⟨0, none, none, 0, []⟩ := (Option.some.inj hs).symm
      simp [hs, Scope.find?] at hk
    | succ i => simp [SymbolTable.bare] at hs

theorem lookupIndex_of_missing (name : String) (hi : t.scopes.size ≤ i) :
    t.lookupIndex i name = none := by
  simp [lookupIndex, resolve, Array.getElem?_eq_none hi]

/-- The entry that a name means is the one whose number is found. -/
theorem Filed.lookupIn_index (h : t.Filed) (i : Nat) (name : String) :
    (t.lookupIn i name).map Entry.index = t.lookupIndex i name := by
  unfold lookupIn
  cases hk : t.lookupIndex i name with
  | none => rfl
  | some k =>
    have hi : i < t.scopes.size := by
      apply Nat.lt_of_not_le
      intro hle
      rw [lookupIndex_of_missing name hle] at hk
      cases hk
    obtain ⟨path, hpath, -⟩ := h.nested.path i hi
    rw [h.nested.lookupIndex hpath] at hk
    obtain ⟨m, -, hm⟩ := List.exists_of_findSome?_eq_some hk
    obtain ⟨s, hs, hfind⟩ := Option.bind_eq_some_iff.mp hm
    obtain ⟨e, he, hindex⟩ := h.named m s hs name k hfind
    rw [Option.bind_some, he, Option.map_some, hindex]

/-! ### Scopes on a path -/

theorem Path.mem_lt (h : t.Path i p) (hj : j ∈ p) : j < t.scopes.size := by
  induction h with
  | last hs hparent =>
    obtain rfl := List.mem_singleton.mp hj
    exact (Array.getElem?_eq_some_iff.mp hs).1
  | next hs hparent hrest ih =>
    rcases List.mem_cons.mp hj with rfl | hj
    · exact (Array.getElem?_eq_some_iff.mp hs).1
    · exact ih hj

theorem findSome?_congr {f g : Nat → Option Nat} (hsame : ∀ j ∈ p, f j = g j) :
    p.findSome? f = p.findSome? g := by
  induction p with
  | nil => rfl
  | cons i p ih =>
    rw [List.findSome?_cons, List.findSome?_cons, hsame i (List.mem_cons_self ..),
      ih fun j hj => hsame j (List.mem_cons_of_mem i hj)]

/-- A name means another entry in a scope only if a scope around it declares another. -/
theorem Nested.lookupIndex_ne (h : t.Nested) (hu : u.Nested) (hpath : t.Path i p)
    (hpath' : u.Path i p) (hne : u.lookupIndex i name ≠ t.lookupIndex i name) :
    ∃ j ∈ p, u.declaredIn name j ≠ t.declaredIn name j := by
  by_contra hnone
  apply hne
  rw [h.lookupIndex hpath, hu.lookupIndex hpath']
  apply findSome?_congr
  intro j hj
  by_contra hdiffers
  exact hnone ⟨j, hj, hdiffers⟩

/-- Names mean in a scope what they meant as long as scopes are only added. -/
theorem Nested.lookupIndex_eq (h : t.Nested) (hu : u.Nested)
    (hkept : ∀ (i : Nat) (s : Scope), t.scopes[i]? = some s → u.scopes[i]? = some s)
    (hi : i < t.scopes.size) (name : String) : u.lookupIndex i name = t.lookupIndex i name := by
  obtain ⟨path, hpath, -⟩ := h.path i hi
  have hpath' : u.Path i path := hpath.mono fun j s hs => ⟨s.declared, hkept j s hs⟩
  by_contra hne
  obtain ⟨j, hj, hdiffers⟩ := h.lookupIndex_ne hu hpath hpath' hne
  obtain ⟨s, hs⟩ : ∃ s, t.scopes[j]? = some s :=
    ⟨_, Array.getElem?_eq_getElem (hpath.mem_lt hj)⟩
  rw [declaredIn_of_scope hs, declaredIn_of_scope (hkept j s hs)] at hdiffers
  exact hdiffers rfl

/-- A scope that is not open. -/
def Shut (t : SymbolTable) (i : Nat) : Prop :=
  i < t.scopes.size ∧ i ∉ t.current :: t.enclosing

/-- Whether an operation opens or closes a scope. -/
def Operation.isBracket : Operation → Bool
  | .enter _ => true
  | .leave => true
  | _ => false

namespace History

variable {h h' : History} {operation : Operation} {operations body : List Operation}
  {s : Scope}

/-! ### What one operation does -/

/-- All that an operation can do. -/
inductive Effect (h : History) : Operation → History → Prop
  | opened (owner : Nat) : Effect h (.enter owner) { h with table := (h.table.enter owner).2 }
  | closed {t : SymbolTable} (hleave : h.table.leave = some t) :
      Effect h .leave { h with table := t }
  | declared {operation : Operation} (name : String) (l : Location) (m : Meaning)
      (hplain : operation.isBracket = false) :
      Effect h operation (h.declare name (some (h.table.add name l m)))
  | detached (name : String) (l : Location) :
      Effect h (.detached name l) (h.perform (.detached name l))
  | refused {operation : Operation} (hkind : ∀ owner, operation ≠ .enter owner) :
      Effect h operation h

theorem declare_effect {outcome : Option (Entry × SymbolTable)}
    (hplain : operation.isBracket = false)
    (hadded : ∀ r, outcome = some r → ∃ l m, r = h.table.add name l m) :
    h.Effect operation (h.declare name outcome) := by
  cases outcome with
  | none =>
    apply Effect.refused
    rintro owner rfl
    cases hplain
  | some r =>
    obtain ⟨l, m, rfl⟩ := hadded r rfl
    exact .declared name l m hplain

theorem declareConstant_effect (name : String) (l : Location) (tree : Constant) :
    h.Effect (.constant name l tree) (h.perform (.constant name l tree)) := by
  simp only [perform]
  cases hdeclare : h.table.declareConstant name l tree with
  | error e => exact .refused (by simp)
  | ok outcome =>
    apply declare_effect rfl
    rintro r rfl
    obtain ⟨value, -, rfl⟩ := declareConstant_added hdeclare
    exact ⟨l, _, rfl⟩

theorem perform_effect (h : History) (operation : Operation) :
    h.Effect operation (h.perform operation) := by
  cases operation with
  | enter owner => exact .opened owner
  | leave =>
    unfold perform
    cases hleave : h.table.leave with
    | none => exact .refused (by simp)
    | some t => exact .closed hleave
  | constant name l tree => exact declareConstant_effect name l tree
  | type name l definition => exact declare_effect rfl fun r hr => ⟨l, _, declare_some hr⟩
  | variableOf name l base => exact declare_effect rfl fun r hr => ⟨l, _, declare_some hr⟩
  | procedure name l => exact declare_effect rfl fun r hr => ⟨l, _, declare_some hr⟩
  | detached name l => exact .detached name l

/-- A scope has what it had, and maybe more names. -/
theorem Effect.scope_mono (heffect : h.Effect operation h') (hs : h.table.scopes[i]? = some s) :
    ∃ names, h'.table.scopes[i]? = some { s with declared := names } := by
  cases heffect with
  | opened owner => exact ⟨s.declared, enter_scopes_old owner hs⟩
  | closed hleave =>
    rw [(leave_rows hleave).1]
    exact ⟨s.declared, hs⟩
  | declared name l m => exact (add_extends name l m).scopes i s hs
  | detached name l => exact ⟨s.declared, hs⟩
  | refused => exact ⟨s.declared, hs⟩

/-- Names are added to the innermost open scope, and to no other. -/
theorem Effect.scope_kept (heffect : h.Effect operation h') (hs : h.table.scopes[i]? = some s)
    (hi : i ≠ h.table.current) : h'.table.scopes[i]? = some s := by
  cases heffect with
  | opened owner => exact enter_scopes_old owner hs
  | closed hleave =>
    rw [(leave_rows hleave).1]
    exact hs
  | declared name l m =>
    show (h.table.scopes.modify h.table.current _)[i]? = some s
    rw [Array.getElem?_modify, if_neg hi.symm]
    exact hs
  | detached name l => exact hs
  | refused => exact hs

theorem Effect.size_le (heffect : h.Effect operation h') :
    h.table.scopes.size ≤ h'.table.scopes.size := by
  cases heffect with
  | opened owner => exact Nat.le_of_lt (Nat.lt_of_lt_of_eq (Nat.lt_succ_self _)
      (Array.size_push _).symm)
  | closed hleave => rw [(leave_rows hleave).1]
  | declared name l m => exact (add_extends name l m).scopeCount
  | detached name l => exact Nat.le_refl _
  | refused => exact Nat.le_refl _

theorem Effect.open_kept (heffect : h.Effect operation h')
    (hplain : operation.isBracket = false) :
    h'.table.current = h.table.current ∧ h'.table.enclosing = h.table.enclosing := by
  cases heffect with
  | opened owner => cases hplain
  | closed hleave => cases hplain
  | declared name l m => exact ⟨rfl, rfl⟩
  | detached name l => exact ⟨rfl, rfl⟩
  | refused => exact ⟨rfl, rfl⟩

/-- A scope that was closed stays closed. -/
theorem Effect.shut (heffect : h.Effect operation h') (hshut : h.table.Shut i) :
    h'.table.Shut i := by
  obtain ⟨hlt, hclosed⟩ := hshut
  refine ⟨Nat.lt_of_lt_of_le hlt heffect.size_le, ?_⟩
  cases heffect with
  | opened owner =>
    intro hi
    rcases List.mem_cons.mp hi with rfl | hi
    · exact Nat.lt_irrefl _ hlt
    · exact hclosed hi
  | closed hleave =>
    unfold SymbolTable.leave at hleave
    split at hleave
    · cases hleave
    · next outer rest henclosing =>
      obtain rfl := Option.some.inj hleave
      rw [henclosing] at hclosed
      exact fun hi => hclosed (List.mem_cons_of_mem _ hi)
  | declared name l m => exact hclosed
  | detached name l => exact hclosed
  | refused => exact hclosed

/-- What a scope declares changes with a declaration in it, and it is the innermost then. -/
theorem Effect.declares (heffect : h.Effect operation h') (hi : i < h.table.scopes.size)
    (hne : h'.table.declaredIn name i ≠ h.table.declaredIn name i) :
    i = h.table.current ∧
      h'.declared = ⟨h.table.current, name, h.table.entries.size⟩ :: h.declared := by
  have hs : h.table.scopes[i]? = some h.table.scopes[i] := Array.getElem?_eq_getElem hi
  cases heffect with
  | opened owner =>
    rw [declaredIn_of_scope hs, declaredIn_of_scope (enter_scopes_old owner hs)] at hne
    exact absurd rfl hne
  | closed hleave =>
    rw [declaredIn, declaredIn, (leave_rows hleave).1] at hne
    exact absurd rfl hne
  | declared added l m =>
    obtain ⟨names, hs'⟩ := (add_extends added l m).scopes i _ hs
    obtain ⟨old, hold, hfind⟩ := add_find? hs'
    obtain rfl := Option.some.inj (hs.symm.trans hold)
    by_cases hnew : i = h.table.current ∧ name = added
    · obtain ⟨hcurrent, rfl⟩ := hnew
      exact ⟨hcurrent, rfl⟩
    · refine absurd ?_ hne
      show (h.table.add added l m).2.declaredIn name i = _
      rw [declaredIn_of_scope hs', hfind name, if_neg hnew, declaredIn_of_scope hs]
  | detached added l => exact absurd rfl hne
  | refused => exact absurd rfl hne

/-- Every operation leaves a filed table. -/
theorem Effect.filed (heffect : h.Effect operation h') (hfiled : h.table.Filed) :
    h'.table.Filed := by
  obtain ⟨hnested, hnamed⟩ := hfiled
  obtain ⟨around, haround⟩ := hnested.stack.scope
  cases heffect with
  | opened owner =>
    refine ⟨hnested.enter owner, ?_⟩
    intro i s hs name k hk
    rcases enter_scopes_cases haround hs with hs | ⟨-, rfl⟩
    · obtain ⟨e, he, hindex⟩ := hnamed i s hs name k hk
      obtain ⟨x, hx, -, -, hkept, -⟩ := enter_entries_kept owner he
      exact ⟨x, hx, hkept.trans hindex⟩
    · simp [Scope.find?] at hk
  | closed hleave =>
    obtain ⟨hscopes, hentries⟩ := leave_rows hleave
    refine ⟨hnested.leave hleave, ?_⟩
    simp only [hscopes, hentries]
    exact hnamed
  | declared added l m =>
    refine ⟨hnested.extend (add_extends added l m) (Array.size_modify ..) rfl rfl, ?_⟩
    intro i s hs name k hk
    obtain ⟨old, hold, hfind⟩ := add_find? hs
    rw [hfind name] at hk
    split at hk
    · obtain rfl := Option.some.inj hk
      exact ⟨_, Array.getElem?_push_size, rfl⟩
    · obtain ⟨e, he, hindex⟩ := hnamed i old hold name k hk
      exact ⟨e, (add_extends added l m).entries k e he, hindex⟩
  | detached added l =>
    refine ⟨hnested.extend (append_extends added l _) rfl rfl rfl, ?_⟩
    intro i s hs name k hk
    obtain ⟨e, he, hindex⟩ := hnamed i s hs name k hk
    exact ⟨e, (append_extends added l _).entries k e he, hindex⟩
  | refused => exact ⟨hnested, hnamed⟩

/-! ### What a run does -/

theorem run_nil (h : History) : h.run [] = h := rfl

theorem run_cons (h : History) (operation : Operation) (operations : List Operation) :
    h.run (operation :: operations) = (h.perform operation).run operations := rfl

theorem run_append (h : History) (first further : List Operation) :
    h.run (first ++ further) = (h.run first).run further :=
  List.foldl_append ..

/-- What every operation keeps is kept by a run. -/
theorem run_keeps {P : History → Prop} (hstep : ∀ g operation, P g → P (g.perform operation))
    (hstart : P h) (operations : List Operation) : P (h.run operations) := by
  induction operations generalizing h with
  | nil => exact hstart
  | cons operation operations ih => exact ih (hstep h operation hstart)

theorem filed_run (hfiled : h.table.Filed) (operations : List Operation) :
    (h.run operations).table.Filed :=
  run_keeps (P := fun g => g.table.Filed) (fun g operation => (g.perform_effect operation).filed)
    hfiled operations

theorem scope_mono_run (hs : h.table.scopes[i]? = some s) (operations : List Operation) :
    ∃ names, (h.run operations).table.scopes[i]? = some { s with declared := names } := by
  refine run_keeps (P := fun g =>
    ∃ names, g.table.scopes[i]? = some { s with declared := names })
    ?_ ⟨s.declared, hs⟩ operations
  rintro g operation ⟨names, hg⟩
  obtain ⟨names', hg'⟩ := (g.perform_effect operation).scope_mono hg
  exact ⟨names', hg'⟩

theorem size_le_run (h : History) (operations : List Operation) :
    h.table.scopes.size ≤ (h.run operations).table.scopes.size :=
  run_keeps (P := fun g => h.table.scopes.size ≤ g.table.scopes.size)
    (fun g operation hg => Nat.le_trans hg (g.perform_effect operation).size_le)
    (Nat.le_refl _) operations

/-- A closed scope is as it was after any operations, and it is still closed. -/
theorem shut_run (hshut : h.table.Shut i) (operations : List Operation) :
    (h.run operations).table.Shut i ∧
      (h.run operations).table.scopes[i]? = h.table.scopes[i]? := by
  refine run_keeps (P := fun g =>
    g.table.Shut i ∧ g.table.scopes[i]? = h.table.scopes[i]?) ?_ ⟨hshut, rfl⟩ operations
  rintro g operation ⟨hg, hsame⟩
  have heffect := g.perform_effect operation
  obtain ⟨s, hs⟩ : ∃ s, g.table.scopes[i]? = some s := ⟨_, Array.getElem?_eq_getElem hg.1⟩
  have hother : i ≠ g.table.current := fun hi => hg.2 (hi ▸ List.mem_cons_self ..)
  refine ⟨heffect.shut hg, ?_⟩
  rw [← hsame, hs]
  exact heffect.scope_kept hs hother

/-! ### Balanced runs -/

/-- Operations that close the scopes that they open, and no other. -/
inductive Balanced : List Operation → Prop
  | nil : Balanced []
  | step {operation : Operation} {operations : List Operation}
      (hplain : operation.isBracket = false) (hrest : Balanced operations) :
      Balanced (operation :: operations)
  | nest {owner : Nat} {inner operations : List Operation} (hinner : Balanced inner)
      (hrest : Balanced operations) :
      Balanced (.enter owner :: (inner ++ .leave :: operations))

/-- The scopes that are opened in a run. -/
def entered (h : History) : List Operation → List Nat
  | [] => []
  | .enter owner :: operations =>
    (h.table.enter owner).1 :: (h.perform (.enter owner)).entered operations
  | operation :: operations => (h.perform operation).entered operations

/-- A scope that is opened in a run is new, and it is there afterwards. -/
theorem entered_bounds (hj : j ∈ h.entered operations) :
    h.table.scopes.size ≤ j ∧ j < (h.run operations).table.scopes.size := by
  induction operations generalizing h with
  | nil => cases hj
  | cons operation operations ih =>
    have hsize := (h.perform_effect operation).size_le
    have hlater : j ∈ (h.perform operation).entered operations →
        h.table.scopes.size ≤ j ∧ j < (h.run (operation :: operations)).table.scopes.size :=
      fun hj => ⟨Nat.le_trans hsize (ih hj).1, (ih hj).2⟩
    cases operation with
    | enter owner =>
      rcases List.mem_cons.mp hj with rfl | hj
      · have hnew : (h.perform (.enter owner)).table.scopes.size = h.table.scopes.size + 1 :=
          Array.size_push _
        have hmore := (h.perform (.enter owner)).size_le_run operations
        exact ⟨Nat.le_refl _, Nat.lt_of_lt_of_le (hnew ▸ Nat.lt_succ_self _) hmore⟩
      · exact hlater hj
    | _ => exact hlater hj

theorem perform_leave {outer : Nat} {rest : List Nat} (h' : h.table.enclosing = outer :: rest) :
    (h.perform .leave).table = { h.table with current := outer, enclosing := rest } := by
  simp [perform, SymbolTable.leave, h']

theorem run_nest (h : History) (owner : Nat) (inner operations : List Operation) :
    h.run (.enter owner :: (inner ++ .leave :: operations)) =
      (h.run (.enter owner :: (inner ++ [.leave]))).run operations := by
  rw [← run_append, List.cons_append, List.append_assoc, List.singleton_append]

/-- A balanced run leaves the same scopes open. -/
theorem Balanced.run_open (hbalanced : Balanced operations) (h : History) :
    (h.run operations).table.current = h.table.current ∧
      (h.run operations).table.enclosing = h.table.enclosing := by
  induction hbalanced generalizing h with
  | nil => exact ⟨rfl, rfl⟩
  | @step operation operations hplain hrest ih =>
    obtain ⟨hcurrent, henclosing⟩ := (h.perform_effect operation).open_kept hplain
    obtain ⟨hcurrent', henclosing'⟩ := ih (h.perform operation)
    exact ⟨hcurrent'.trans hcurrent, henclosing'.trans henclosing⟩
  | @nest owner inner operations hinner hrest ihinner ihrest =>
    -- inside, the scope that was left is the first of those around, and closing goes back to it
    have hinside : ((h.perform (.enter owner)).run inner).table.enclosing =
        h.table.current :: h.table.enclosing := (ihinner (h.perform (.enter owner))).2
    rw [run_cons, run_append, run_cons]
    obtain ⟨hcurrent, henclosing⟩ :=
      ihrest (((h.perform (.enter owner)).run inner).perform .leave)
    rw [hcurrent, henclosing, perform_leave hinside]
    exact ⟨rfl, rfl⟩

/-- Scopes that are older than an opening are as they were behind the closing that matches it,
    given that the operations in between write into none of them but the innermost. -/
theorem nest_keeps (owner : Nat) (hbody : Balanced body)
    (hkeeps : ∀ g : History, i ≠ g.table.current → g.table.scopes[i]? = some s →
      (g.run body).table.scopes[i]? = some s) (hs : h.table.scopes[i]? = some s) :
    (h.run (.enter owner :: (body ++ [.leave]))).table.scopes[i]? = some s := by
  -- the scope that is opened is a newer one, so that all older ones are out of reach inside
  have hlt : i < h.table.scopes.size := (Array.getElem?_eq_some_iff.mp hs).1
  have hopened : (h.perform (.enter owner)).table.scopes[i]? = some s := enter_scopes_old owner hs
  have hinside := hkeeps (h.perform (.enter owner)) (Nat.ne_of_lt hlt) hopened
  have hcurrent : ((h.perform (.enter owner)).run body).table.current = h.table.scopes.size :=
    (hbody.run_open (h.perform (.enter owner))).1
  rw [run_cons, run_append]
  exact (perform_effect _ .leave).scope_kept hinside (hcurrent ▸ Nat.ne_of_lt hlt)

/-- A balanced run writes into no older scope but the innermost. -/
theorem Balanced.keeps (hbalanced : Balanced operations) (h : History)
    (hi : i ≠ h.table.current) (hs : h.table.scopes[i]? = some s) :
    (h.run operations).table.scopes[i]? = some s := by
  induction hbalanced generalizing h with
  | nil => exact hs
  | @step operation operations hplain hrest ih =>
    have heffect := h.perform_effect operation
    exact ih (h.perform operation) ((heffect.open_kept hplain).1 ▸ hi) (heffect.scope_kept hs hi)
  | @nest owner inner operations hinner hrest ihinner ihrest =>
    have hnested : Balanced (.enter owner :: (inner ++ [.leave])) := .nest hinner .nil
    rw [run_nest]
    exact ihrest _ ((hnested.run_open h).1 ▸ hi) (nest_keeps owner hinner ihinner hs)

/-! ### Names in a closed scope -/

/-- If one more operation changes what a name means in a scope, it declares the name in a
    scope around that one. -/
theorem lookupIndex_perform_ne (hfiled : h.table.Filed) (hpath : h.table.Path i p)
    (hne : (h.perform operation).table.lookupIndex i name ≠ h.table.lookupIndex i name) :
    h.table.current ∈ p ∧ (h.perform operation).declared =
      ⟨h.table.current, name, h.table.entries.size⟩ :: h.declared := by
  have heffect := h.perform_effect operation
  have hpath' : (h.perform operation).table.Path i p :=
    hpath.mono fun j s hs => heffect.scope_mono hs
  obtain ⟨j, hj, hdiffers⟩ :=
    hfiled.nested.lookupIndex_ne (heffect.filed hfiled).nested hpath hpath' hne
  obtain ⟨rfl, hdeclared⟩ := heffect.declares (hpath.mem_lt hj) hdiffers
  exact ⟨hj, hdeclared⟩

/-- Let a scope be opened in a table after any operations, and closed by the closing that
    matches it.  Then the same scopes are open as before, and in every scope that was there a
    name means the entry that it meant.  The scopes that were opened meanwhile are as they are
    from then on, whatever is asked of the table, and if one more operation changes what a name
    means in one of them, then it declares that name in a scope that lies around and was open
    when the run was over. -/
theorem closed_scopes_frozen (past : List Operation) (owner : Nat) (hbody : Balanced body) :
    let before := start.run past
    let run : List Operation := .enter owner :: (body ++ [.leave])
    let after := before.run run
    after.table.current = before.table.current ∧
    after.table.enclosing = before.table.enclosing ∧
    (∀ name, (after.table.lookup name).map Entry.index =
      (before.table.lookup name).map Entry.index) ∧
    (∀ i, i < before.table.scopes.size →
      after.table.scopes[i]? = before.table.scopes[i]? ∧
      ∀ name, (after.table.lookupIn i name).map Entry.index =
        (before.table.lookupIn i name).map Entry.index) ∧
    ∀ j ∈ before.entered run, ∃ path s, after.table.Path j path ∧
      after.table.scopes[j]? = some s ∧
      ∀ later, (after.run later).table.scopes[j]? = some s ∧
        ∀ operation name,
          let now := after.run later
          let next := now.perform operation
          (next.table.lookupIn j name).map Entry.index ≠
              (now.table.lookupIn j name).map Entry.index →
            now.table.current ∈ path ∧
            now.table.current ∈ after.table.current :: after.table.enclosing ∧
            next.declared = ⟨now.table.current, name, now.table.entries.size⟩ :: now.declared := by
  intro before run after
  have hstart : start.table.Filed := filed_run (h := bare) .bare predefined
  have hbefore : before.table.Filed := filed_run hstart past
  have hafter : after.table.Filed := filed_run hbefore run
  have hbalanced : Balanced run := .nest hbody .nil
  obtain ⟨hcurrent, henclosing⟩ : after.table.current = before.table.current ∧
      after.table.enclosing = before.table.enclosing := hbalanced.run_open before
  have hkept : ∀ (i : Nat) (s : Scope), before.table.scopes[i]? = some s →
      after.table.scopes[i]? = some s :=
    fun i s hs => nest_keeps owner hbody (fun g hi hs => hbody.keeps g hi hs) hs
  have hlookup : ∀ i, i < before.table.scopes.size → ∀ name,
      (after.table.lookupIn i name).map Entry.index =
        (before.table.lookupIn i name).map Entry.index := by
    intro i hi name
    rw [hafter.lookupIn_index, hbefore.lookupIn_index]
    exact hbefore.nested.lookupIndex_eq hafter.nested hkept hi name
  have hopen : ∀ i ∈ before.table.current :: before.table.enclosing,
      i < before.table.scopes.size := fun i hi => hbefore.nested.stack.mem_lt hi
  refine ⟨hcurrent, henclosing, ?_, ?_, ?_⟩
  · intro name
    rw [lookup, lookup, hcurrent]
    exact hlookup _ (hopen _ (List.mem_cons_self ..)) name
  · intro i hi
    have hs : before.table.scopes[i]? = some before.table.scopes[i] :=
      Array.getElem?_eq_getElem hi
    exact ⟨(hkept i _ hs).trans hs.symm, hlookup i hi⟩
  · intro j hj
    obtain ⟨hnew, hlt⟩ := entered_bounds hj
    obtain ⟨path, hpath, -⟩ := hafter.nested.path j hlt
    have hshut : after.table.Shut j := by
      refine ⟨hlt, ?_⟩
      rw [hcurrent, henclosing]
      exact fun hin => Nat.not_lt_of_le hnew (hopen j hin)
    refine ⟨path, _, hpath, Array.getElem?_eq_getElem hlt, ?_⟩
    intro later
    refine ⟨(shut_run hshut later).2.trans (Array.getElem?_eq_getElem hlt), ?_⟩
    intro operation name now next hne
    have hnow : now.table.Filed := filed_run hafter later
    have hnext : next.table.Filed := (now.perform_effect operation).filed hnow
    rw [hnext.lookupIn_index, hnow.lookupIn_index] at hne
    have hpath' : now.table.Path j path := hpath.mono fun i s hs => scope_mono_run hs later
    obtain ⟨haround, hdeclared⟩ := lookupIndex_perform_ne hnow hpath' hne
    refine ⟨haround, ?_, hdeclared⟩
    -- a scope that was closed by then could not have been the innermost now
    by_contra hclosed
    have hstill : now.table.Shut now.table.current :=
      (shut_run ⟨hpath.mem_lt haround, hclosed⟩ later).1
    exact hstill.2 (List.mem_cons_self ..)

/-- `closed_scopes_frozen` for the body of a procedure `p` that has an `x` of its own, a second
    one in vain, and two procedures inside, one of them detached.  Outside, `x` is the outer one
    again; inside it stays the inner one, and a name that is declared in the program's own scope
    afterwards is seen from the scope of the detached procedure. -/
theorem closed_scopes_frozen_shadowed :
    let past : List Operation := [.enter 4, .variableOf "x" .unknown (.scalar "integer"),
      .procedure "p" .unknown]
    let body : List Operation := [.variableOf "x" .unknown (.scalar "boolean"),
      .variableOf "x" .unknown (.scalar "integer"), .detached "q" .unknown, .enter 8,
      .constant "c" .unknown (.number .unknown 2 3), .leave, .procedure "q" .unknown, .enter 10,
      .leave]
    let before := start.run past
    let after := before.run (.enter 6 :: (body ++ [.leave]))
    Balanced body ∧ before.entered (.enter 6 :: (body ++ [.leave])) = [2, 3, 4] ∧
      after.table.current = 1 ∧ (after.table.lookup "x").map Entry.index = some 5 ∧
      (after.table.lookupIn 3 "x").map Entry.index = some 7 ∧
      (∀ later, (after.run later).table.scopes[3]? = after.table.scopes[3]?) ∧
      after.table.lookupIn 3 "y" = none ∧
      ((after.perform (.procedure "y" .unknown)).table.lookupIn 3 "y").map Entry.index =
        some 11 ∧
      (after.perform (.procedure "y" .unknown)).declared =
        ⟨after.table.current, "y", after.table.entries.size⟩ :: after.declared := by
  intro past body
  dsimp only
  have hdetached : Balanced [.constant "c" .unknown (.number .unknown 2 3)] := .step rfl .nil
  have hbody : Balanced body :=
    .step rfl (.step rfl (.step rfl (.nest hdetached (.step rfl (.nest .nil .nil)))))
  obtain ⟨hcurrent, -, hlookup, -, hfrozen⟩ := closed_scopes_frozen past 6 hbody
  have hentered : (start.run past).entered (.enter 6 :: (body ++ [.leave])) = [2, 3, 4] := by
    decide +kernel
  obtain ⟨path, s, -, hs, hlater⟩ := hfrozen 3 (by rw [hentered]; decide)
  refine ⟨hbody, hentered, ?_, ?_, by decide +kernel, ?_, by decide +kernel,
    by decide +kernel, ?_⟩
  · rw [hcurrent]
    decide +kernel
  · rw [hlookup]
    decide +kernel
  · intro later
    rw [(hlater later).1, hs]
  · obtain ⟨-, -, hdeclared⟩ := (hlater []).2 (.procedure "y" .unknown) "y" (by decide +kernel)
    rw [run_nil] at hdeclared
    exact hdeclared

end History

end SymbolTable

end PlZero
