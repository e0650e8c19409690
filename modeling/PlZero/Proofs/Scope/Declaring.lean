/-
  PlZero/Proofs/Scope/Declaring.lean
  ==================================
  **What a declaration changes.**  A declaration is refused if the innermost scope holds the name
  already, whatever the scopes around hold, or if it is one of a constant that cannot be folded.
  Otherwise it adds one entry (`Gains`).  The new entry is what the name means wherever the
  nearest scope that declares it is the one in which it was declared: in that scope, and in the
  scopes inside, also in those that were closed long ago.  Everywhere else, and for every other
  name, nothing changes (`add_gains`).

  The table reports nothing while this goes on.  The only request that reaches the collector is
  the one to close the predefined scope (`declarations_framed`).
-/
import PlZero.Proofs.Folding.Base
import PlZero.Proofs.Scope.Closed
import PlZero.Scope.Register

namespace PlZero

namespace SymbolTable

variable {t u : SymbolTable} {i j k : Nat} {name x : String} {l : Location} {m : Meaning}
  {e : Entry}

/-! ### Names and their entries -/

/-- What a scope says that a name refers to is an entry of that name in that scope, which knows
    its number. -/
def Named (t : SymbolTable) : Prop :=
  ∀ (i : Nat) (s : Scope), t.scopes[i]? = some s → ∀ name k, s.find? name = some k →
    ∃ e, t.entries[k]? = some e ∧ e.name = name ∧ e.scope = i ∧ e.index = k

theorem Named.bare : bare.Named := by
  intro i s hs name k hk
  obtain ⟨e, he, -⟩ := Filed.bare.named i s hs name k hk
  simp [SymbolTable.bare] at he

/-- Every operation leaves the names of a table with their entries. -/
theorem History.Effect.keeps_named {h h' : History} {operation : Operation}
    (heffect : h.Effect operation h') (hnested : h.table.Nested) (hnamed : h.table.Named) :
    h'.table.Named := by
  obtain ⟨around, haround⟩ := hnested.stack.scope
  cases heffect with
  | opened owner =>
    intro i s hs name k hk
    rcases enter_scopes_cases haround hs with hs | ⟨-, rfl⟩
    · obtain ⟨e, he, hname, hscope, hindex⟩ := hnamed i s hs name k hk
      obtain ⟨e', he', hname', hscope', hindex', -⟩ := enter_entries_kept owner he
      exact ⟨e', he', hname'.trans hname, hscope'.trans hscope, hindex'.trans hindex⟩
    · simp [Scope.find?] at hk
  | closed hleave =>
    obtain ⟨hscopes, hentries⟩ := leave_rows hleave
    unfold Named
    rw [hscopes, hentries]
    exact hnamed
  | declared added l m =>
    intro i s hs name k hk
    obtain ⟨old, hold, hfind⟩ := add_find? hs
    rw [hfind name] at hk
    split at hk
    · rename_i hnew
      obtain ⟨rfl, rfl⟩ := hnew
      obtain rfl := Option.some.inj hk
      exact ⟨_, Array.getElem?_push_size, rfl, rfl, rfl⟩
    · obtain ⟨e, he, hrest⟩ := hnamed i old hold name k hk
      exact ⟨e, (add_extends added l m).entries k e he, hrest⟩
  | detached added l =>
    intro i s hs name k hk
    obtain ⟨e, he, hrest⟩ := hnamed i s hs name k hk
    exact ⟨e, (append_extends added l _).entries k e he, hrest⟩
  | refused => exact hnamed

/-! ### What a new entry changes -/

/-- Of the scopes from `i` outward that declare a name, `j` is the nearest. -/
def Nearest (t : SymbolTable) (name : String) (i j : Nat) : Prop :=
  ∃ nearer farther, t.Path i (nearer ++ j :: farther) ∧
    (∀ k ∈ nearer, t.declaredIn name k = none) ∧ t.declaredIn name j ≠ none

/-- The table `u` is `t` with the entry `e` for a name of the innermost scope, and nothing else
    is different. -/
structure Gains (t : SymbolTable) (name : String) (e : Entry) (u : SymbolTable) : Prop where
  entries : u.entries = t.entries.push e
  entry : e.name = name ∧ e.scope = t.current ∧ e.index = t.entries.size
  scopes : ∀ i, u.scopes[i]? = if i = t.current then
    t.scopes[i]?.map fun s => { s with declared := (name, e.index) :: s.declared }
    else t.scopes[i]?
  opened : u.current = t.current ∧ u.enclosing = t.enclosing
  found : ∀ i x, u.lookupIn i x = some e ↔ x = name ∧ u.Nearest name i t.current
  kept : ∀ i x, ¬ (x = name ∧ u.Nearest name i t.current) → u.lookupIn i x = t.lookupIn i x

theorem add_scopes (name : String) (l : Location) (m : Meaning) (i : Nat) :
    (t.add name l m).2.scopes[i]? = if i = t.current then
      t.scopes[i]?.map fun s => { s with declared := (name, t.entries.size) :: s.declared }
      else t.scopes[i]? := by
  show (t.scopes.modify t.current _)[i]? = _
  rw [Array.getElem?_modify]
  by_cases hi : i = t.current
  · rw [if_pos hi, if_pos hi.symm]
  · rw [if_neg hi, if_neg (Ne.symm hi)]

/-- A new name means the new entry in the innermost scope, and all other scopes say of all names
    what they said. -/
theorem add_declaredIn (hi : i < t.scopes.size) :
    (t.add name l m).2.declaredIn x i =
      if i = t.current ∧ x = name then some t.entries.size else t.declaredIn x i := by
  obtain ⟨names, hs⟩ := (add_extends name l m).scopes i _ (Array.getElem?_eq_getElem hi)
  obtain ⟨old, hold, hfind⟩ := add_find? hs
  rw [declaredIn_of_scope hs, hfind, declaredIn_of_scope hold]

theorem Filed.declaredIn_lt (h : t.Filed) (hk : t.declaredIn name i = some k) :
    k < t.entries.size := by
  obtain ⟨s, hs, hfind⟩ := Option.bind_eq_some_iff.mp hk
  obtain ⟨e, he, -⟩ := h.named i s hs name k hfind
  exact (Array.getElem?_eq_some_iff.mp he).1

theorem Filed.lookupIndex_lt (h : t.Filed) (hk : t.lookupIndex i name = some k) :
    k < t.entries.size := by
  have hi : i < t.scopes.size := by
    by_contra hmissing
    rw [lookupIndex_of_missing name (Nat.le_of_not_lt hmissing)] at hk
    cases hk
  obtain ⟨p, hpath, -⟩ := h.nested.path i hi
  rw [h.nested.lookupIndex hpath] at hk
  obtain ⟨j, -, hj⟩ := List.exists_of_findSome?_eq_some hk
  exact h.declaredIn_lt hj

theorem Filed.add (h : t.Filed) (name : String) (l : Location) (m : Meaning) :
    (t.add name l m).2.Filed := by
  have heffect : History.Effect ⟨t, [], []⟩ (.procedure name l)
      ((⟨t, [], []⟩ : History).declare name (some (t.add name l m))) :=
    .declared name l m rfl
  exact heffect.filed h

/-- What a scope says of a name that it declares is what the name means there. -/
theorem Nested.lookupIndex_nearest (h : t.Nested) (hnearest : t.Nearest name i j) :
    t.lookupIndex i name = t.declaredIn name j := by
  obtain ⟨nearer, farther, hpath, hnone, hj⟩ := hnearest
  obtain ⟨k, hk⟩ := Option.ne_none_iff_exists'.mp hj
  rw [h.lookupIndex hpath, List.findSome?_append, List.findSome?_eq_none_iff.mpr hnone,
    List.findSome?_cons, hk]
  rfl

/-- If the nearest scope is another one than the innermost, a name means what it did. -/
theorem Filed.lookupIndex_add (h : t.Filed)
    (hother : ¬ (x = name ∧ (t.add name l m).2.Nearest name i t.current)) :
    (t.add name l m).2.lookupIndex i x = t.lookupIndex i x := by
  have hsize : (t.add name l m).2.scopes.size = t.scopes.size := Array.size_modify ..
  by_cases hi : i < t.scopes.size
  · obtain ⟨p, hpath, -⟩ := h.nested.path i hi
    have hpath' : (t.add name l m).2.Path i p := hpath.mono (add_extends name l m).scopes
    rw [h.nested.lookupIndex hpath, (h.add name l m).nested.lookupIndex hpath']
    have hsame : ∀ j ∈ p, ¬ (j = t.current ∧ x = name) →
        (t.add name l m).2.declaredIn x j = t.declaredIn x j := by
      intro j hj hne
      rw [add_declaredIn (hpath.mem_lt hj), if_neg hne]
    by_cases hin : t.current ∈ p ∧ x = name
    · -- a scope in front of the innermost one declares the name, and it decides in both tables
      obtain ⟨hcurrent, rfl⟩ := hin
      obtain ⟨nearer, farther, rfl, hnot⟩ := List.eq_append_cons_of_mem hcurrent
      have hfront : ∀ j ∈ nearer,
          (t.add x l m).2.declaredIn x j = t.declaredIn x j := fun j hj =>
        hsame j (List.mem_append_left _ hj) fun heq => hnot (heq.1 ▸ hj)
      have hdecides : nearer.findSome? (t.declaredIn x) ≠ none := by
        intro hnone
        refine hother ⟨rfl, nearer, farther, hpath', ?_, ?_⟩
        · intro j hj
          rw [hfront j hj]
          exact List.findSome?_eq_none_iff.mp hnone j hj
        · rw [add_declaredIn (hpath.mem_lt hcurrent), if_pos ⟨rfl, rfl⟩]
          exact Option.some_ne_none _
      obtain ⟨k, hk⟩ := Option.ne_none_iff_exists'.mp hdecides
      rw [List.findSome?_append, List.findSome?_append, findSome?_congr hfront, hk]
      rfl
    · exact findSome?_congr fun j hj => hsame j hj fun heq => hin ⟨heq.1 ▸ hj, heq.2⟩
  · rw [lookupIndex_of_missing x (Nat.le_of_not_lt hi),
      lookupIndex_of_missing x (hsize ▸ Nat.le_of_not_lt hi)]

/-- A declaration of a free name adds its entry, and that is what the name means wherever the
    nearest scope that declares it is the innermost one. -/
theorem Filed.add_gains (h : t.Filed) (name : String) (l : Location) (m : Meaning) :
    t.Gains name (t.add name l m).1 (t.add name l m).2 where
  entries := rfl
  entry := ⟨rfl, rfl, rfl⟩
  scopes := add_scopes name l m
  opened := ⟨rfl, rfl⟩
  found := by
    intro i x
    have hu := h.add name l m
    constructor
    · intro hfound
      by_contra hother
      obtain ⟨k, hk, he⟩ := Option.bind_eq_some_iff.mp hfound
      have hindex : k = t.entries.size := by
        have hsame := hu.lookupIn_index i x
        rw [hfound, hk] at hsame
        exact (Option.some.inj hsame).symm
      rw [h.lookupIndex_add hother] at hk
      exact Nat.lt_irrefl _ (hindex ▸ h.lookupIndex_lt hk)
    · rintro ⟨rfl, hnearest⟩
      have hcurrent : t.current < t.scopes.size := h.nested.stack.mem_lt (List.mem_cons_self ..)
      have hindex : (t.add x l m).2.lookupIndex i x = some t.entries.size := by
        rw [hu.nested.lookupIndex_nearest hnearest, add_declaredIn hcurrent, if_pos ⟨rfl, rfl⟩]
      rw [lookupIn, hindex, Option.bind_some]
      exact Array.getElem?_push_size
  kept := by
    intro i x hother
    rw [lookupIn, lookupIn, h.lookupIndex_add hother]
    cases hk : t.lookupIndex i x with
    | none => rfl
    | some k =>
      have he := Array.getElem?_eq_getElem (h.lookupIndex_lt hk)
      rw [Option.bind_some, Option.bind_some, (add_extends name l m).entries k _ he, he]

/-! ### Declarations -/

theorem isDeclared_eq (t : SymbolTable) (name : String) :
    t.isDeclared name = (t.declaredIn name t.current).isSome := by
  unfold isDeclared declaredIn
  cases t.scopes[t.current]? <;> rfl

/-- What a name is declared as, with the value of a constant. -/
def Declaration.meaning (t : SymbolTable) : Declaration → Except Unfoldable Meaning
  | .constant tree => (t.evaluate tree).map (.constant tree)
  | .type definition => .ok (.type definition)
  | .variableOf base => .ok (.variableOf base)
  | .procedure => .ok (.procedure none)

/-- The four kinds of declarations do one thing. -/
theorem declareAs_eq (t : SymbolTable) (name : String) (l : Location) (what : Declaration) :
    t.declareAs name l what = if t.isDeclared name then .ok none
      else (what.meaning t).map fun m => some (t.add name l m) := by
  cases what with
  | constant tree =>
    simp only [declareAs, declareConstant, Declaration.meaning]
    cases t.evaluate tree <;> rfl
  | type definition =>
    show Except.ok (t.declare name l (.type definition)) = _
    unfold declare
    split <;> rfl
  | variableOf base =>
    show Except.ok (t.declare name l (.variableOf base)) = _
    unfold declare
    split <;> rfl
  | procedure =>
    show Except.ok (t.declare name l (.procedure none)) = _
    unfold declare
    split <;> rfl

/-- A constant cannot be folded if what stands behind its signs is no constant, or a name in a
    scope that the table does not have. -/
theorem evaluate_eq_error {tree : Constant} {why : Unfoldable} :
    t.evaluate tree = .error why ↔
      (∃ f, tree.base = .foreign f ∧ why = .unknownNode ⟨.constant, f.kindName⟩) ∨
        ∃ l scope x, tree.base = .named l scope x ∧ t.scopes.size ≤ scope ∧
          why = .missingScope scope := by
  induction tree with
  | negated l scope operand ih =>
    rw [Constant.base, ← ih, evaluate]
    cases t.evaluate operand <;> simp
  | named l scope x =>
    rw [evaluate]
    by_cases hscope : scope < t.scopes.size
    · simp [if_pos hscope, Constant.base, Nat.not_le.mpr hscope]
    · simp [if_neg hscope, Constant.base, Nat.not_lt.mp hscope, eq_comm]
  | _ => simp [evaluate, Constant.base, eq_comm]

theorem initial_named : initial.Filed ∧ initial.Named := by
  rw [← History.start_table]
  refine History.run_keeps (P := fun g => g.table.Filed ∧ g.table.Named) ?_ ⟨.bare, .bare⟩ _
  rintro g operation ⟨hfiled, hnamed⟩
  have heffect := g.perform_effect operation
  exact ⟨heffect.filed hfiled, heffect.keeps_named hfiled.nested hnamed⟩

/-- The innermost scope is the predefined one if no scope is open around it. -/
theorem Nested.leave_eq_none (h : t.Nested) : t.leave = none ↔ t.current = 0 := by
  have hlast := h.getLast h.stack
  have hstack := h.stack
  rw [SymbolTable.leave]
  cases henclosing : t.enclosing with
  | nil =>
    rw [henclosing] at hlast
    simpa using hlast
  | cons outer rest =>
    rw [henclosing] at hstack
    constructor
    · intro hnone
      cases hnone
    · intro hcurrent
      obtain ⟨names, houtermost⟩ := h.outermost
      cases hstack with
      | next hs hparent hrest =>
        rw [hcurrent, houtermost] at hs
        obtain rfl := Option.some.inj hs
        cases hparent

end SymbolTable

namespace Register

open SymbolTable

variable {r : Register} {request : Request} {name : String}

/-- The requests one after the other, whether or not some of them fail. -/
def run (r : Register) (requests : List Request) : Register :=
  requests.foldl (fun r request => (r.ask request).2) r

/-! ### What a request does -/

/-- A declaration is refused if the name is taken, and fails if its meaning is unknown. -/
theorem ask_declare (r : Register) (what : Declaration) (name : String) (l : Location) :
    r.ask (.declare what name l) = if r.table.isDeclared name then (.ok (.entry none), r)
      else match what.meaning r.table with
        | .ok m => (.ok (.entry (some (r.table.add name l m).1)),
            { r with table := (r.table.add name l m).2 })
        | .error why => (.error why.failure, r) := by
  show r.declared _ = _
  rw [declareAs_eq]
  split
  · rfl
  · cases what.meaning r.table <;> rfl

/-- A request changes the table as an operation does. -/
theorem ask_effect (r : Register) (request : Request) :
    ∃ operation h, History.Effect ⟨r.table, [], []⟩ operation h ∧
      h.table = (r.ask request).2.table := by
  have hkept : ∃ operation h, History.Effect ⟨r.table, [], []⟩ operation h ∧
      h.table = r.table :=
    ⟨.leave, _, .refused (by simp), rfl⟩
  cases request with
  | enter owner => exact ⟨.enter owner, _, .opened owner, rfl⟩
  | leave =>
    cases hleave : r.table.leave with
    | none =>
      simp only [ask, hleave]
      exact hkept
    | some t =>
      simp only [ask, hleave]
      exact ⟨.leave, _, .closed hleave, rfl⟩
  | declare what name l =>
    rw [ask_declare]
    split
    · exact hkept
    · cases what.meaning r.table with
      | ok m => exact ⟨.procedure name l, _, .declared name l m rfl, rfl⟩
      | error why => exact hkept
  | detach name l => exact ⟨.detached name l, _, .detached name l, rfl⟩
  | lookup name => exact hkept
  | lookupIn scope name => exact hkept
  | entriesIn scope => exact hkept
  | evaluate tree =>
    simp only [ask]
    split <;> exact hkept

/-- Only the request to close the predefined scope is reported. -/
theorem ask_collector (r : Register) (request : Request) :
    (r.ask request).2.collector = r.collector ∨ request = .leave ∧ r.table.leave = none := by
  cases request with
  | leave =>
    cases hleave : r.table.leave with
    | none => exact .inr ⟨rfl, rfl⟩
    | some t =>
      exact .inl (by simp only [ask, hleave])
  | declare what name l =>
    rw [ask_declare]
    split
    · exact .inl rfl
    · cases what.meaning r.table <;> exact .inl rfl
  | evaluate tree =>
    simp only [ask]
    split <;> exact .inl rfl
  | _ => exact .inl rfl

theorem run_named (c : Collector) (past : List Request) :
    ((new c).run past).table.Filed ∧ ((new c).run past).table.Named := by
  suffices h : ∀ r : Register, r.table.Filed ∧ r.table.Named →
      (r.run past).table.Filed ∧ (r.run past).table.Named from h _ initial_named
  induction past with
  | nil => exact fun r h => h
  | cons request past ih =>
    rintro r ⟨hfiled, hnamed⟩
    obtain ⟨operation, h, heffect, htable⟩ := r.ask_effect request
    apply ih
    rw [← htable]
    exact ⟨heffect.filed hfiled, heffect.keeps_named hfiled.nested hnamed⟩

/-! ### Declarations in any table -/

/-- A meaning is unknown only if it is that of a constant that cannot be folded. -/
theorem meaning_eq_error {t : SymbolTable} {what : Declaration} {why : Unfoldable} :
    what.meaning t = .error why ↔ ∃ tree, what = .constant tree ∧ t.evaluate tree = .error why := by
  cases what with
  | constant tree =>
    simp only [Declaration.meaning]
    cases hvalue : t.evaluate tree <;> simp [hvalue, Except.map]
  | _ => simp [Declaration.meaning]

section

variable {what : Declaration} {l : Location}

/-- A declaration is refused if and only if the innermost scope holds an entry of this name. -/
theorem ask_declare_refused (hnamed : r.table.Named) :
    (r.ask (.declare what name l)).1 = .ok (.entry none) ↔
      ∃ k e, r.table.declaredIn name r.table.current = some k ∧ r.table.entries[k]? = some e ∧
        e.name = name ∧ e.scope = r.table.current := by
  rw [ask_declare, isDeclared_eq]
  cases hk : r.table.declaredIn name r.table.current with
  | some k =>
    obtain ⟨s, hs, hfind⟩ := Option.bind_eq_some_iff.mp hk
    obtain ⟨e, he, hname, hscope, -⟩ := hnamed _ s hs name k hfind
    exact iff_of_true rfl ⟨k, e, rfl, he, hname, hscope⟩
  | none =>
    refine iff_of_false ?_ ?_
    · cases what.meaning r.table <;> simp
    · rintro ⟨k, e, hk, -⟩
      cases hk

/-- A declaration fails if and only if the name is free and its meaning is unknown. -/
theorem ask_declare_fails {failure : Failure} :
    (r.ask (.declare what name l)).1 = .error failure ↔
      r.table.declaredIn name r.table.current = none ∧
        ∃ why, what.meaning r.table = .error why ∧ failure = why.failure := by
  rw [ask_declare, isDeclared_eq]
  cases r.table.declaredIn name r.table.current with
  | some k => simp
  | none => cases what.meaning r.table <;> simp [eq_comm]

/-- A declaration fails if and only if the name is free and it is one of a constant that cannot be
    folded. -/
theorem ask_declare_error {failure : Failure} :
    (r.ask (.declare what name l)).1 = .error failure ↔
      r.table.declaredIn name r.table.current = none ∧ ∃ tree, what = .constant tree ∧
        ((∃ f, tree.base = .foreign f ∧ failure = .unknownNode ⟨.constant, f.kindName⟩) ∨
          ∃ k scope x, tree.base = .named k scope x ∧ r.table.scopes.size ≤ scope ∧
            failure = .missingScope scope) := by
  rw [ask_declare_fails]
  refine and_congr_right fun _ => ?_
  constructor
  · rintro ⟨why, hwhy, rfl⟩
    obtain ⟨tree, rfl, herror⟩ := meaning_eq_error.mp hwhy
    refine ⟨tree, rfl, ?_⟩
    rcases evaluate_eq_error.mp herror with ⟨f, hbase, rfl⟩ | ⟨k, scope, x, hbase, hscope, rfl⟩
    · exact .inl ⟨f, hbase, rfl⟩
    · exact .inr ⟨k, scope, x, hbase, hscope, rfl⟩
  · rintro ⟨tree, rfl, ⟨f, hbase, rfl⟩ | ⟨k, scope, x, hbase, hscope, rfl⟩⟩
    · have herror := evaluate_eq_error (t := r.table).mpr (.inl ⟨f, hbase, rfl⟩)
      exact ⟨_, meaning_eq_error.mpr ⟨tree, rfl, herror⟩, rfl⟩
    · have herror := evaluate_eq_error.mpr (.inr ⟨k, scope, x, hbase, hscope, rfl⟩)
      exact ⟨_, meaning_eq_error.mpr ⟨tree, rfl, herror⟩, rfl⟩

/-- A declaration leaves everything as it was, or it adds its entry. -/
theorem ask_declare_gains (hfiled : r.table.Filed) :
    (r.ask (.declare what name l)).2 = r ∧
        ((r.ask (.declare what name l)).1 = .ok (.entry none) ∨
          ∃ failure, (r.ask (.declare what name l)).1 = .error failure) ∨
      ∃ e, (r.ask (.declare what name l)).1 = .ok (.entry (some e)) ∧ e.location = l ∧
        what.meaning r.table = .ok e.meaning ∧
        r.table.Gains name e (r.ask (.declare what name l)).2.table ∧
        (r.ask (.declare what name l)).2.collector = r.collector := by
  rw [ask_declare]
  split
  · exact .inl ⟨rfl, .inl rfl⟩
  · cases what.meaning r.table with
    | ok m => exact .inr ⟨_, rfl, rfl, rfl, hfiled.add_gains name l m, rfl⟩
    | error why => exact .inl ⟨rfl, .inr ⟨_, rfl⟩⟩

end

/-- A table after any requests, and one more declaration.  It is refused if and only if the
    innermost scope holds an entry of this name.  It fails if and only if the name is free and it
    is one of a constant that cannot be folded: what stands behind its signs is no constant, or a
    name in a scope that the table does not have.  The table is as it was then.  Otherwise one
    entry is added, and lookups find it where, and only where, the nearest scope that declares the
    name is the innermost one.  No request is reported but the one to close the predefined scope,
    and that leaves the table as it was. -/
theorem declarations_framed (c : Collector) (past : List Request) :
    let r := (new c).run past
    let t := r.table
    (∀ (what : Declaration) (name : String) (l : Location),
      let (answer, after) := r.ask (.declare what name l)
      (answer = .ok (.entry none) ↔ ∃ k e, t.declaredIn name t.current = some k ∧
        t.entries[k]? = some e ∧ e.name = name ∧ e.scope = t.current) ∧
      (∀ failure, answer = .error failure ↔ t.declaredIn name t.current = none ∧
        ∃ tree, what = .constant tree ∧
          ((∃ f, tree.base = .foreign f ∧ failure = .unknownNode ⟨.constant, f.kindName⟩) ∨
            ∃ k scope x, tree.base = .named k scope x ∧ t.scopes.size ≤ scope ∧
              failure = .missingScope scope)) ∧
      (after = r ∧ (answer = .ok (.entry none) ∨ ∃ failure, answer = .error failure) ∨
        ∃ e, answer = .ok (.entry (some e)) ∧ e.location = l ∧
          what.meaning t = .ok e.meaning ∧ t.Gains name e after.table ∧
          after.collector = r.collector)) ∧
    (∀ request, (r.ask request).2.collector = r.collector ∨ request = .leave ∧ t.current = 0) ∧
    (t.current = 0 →
      let (collector, failure) := r.collector.fatal (.broken .predefinedScopeLeft) .unknown
      r.ask .leave = (.error failure, ⟨t, collector⟩)) := by
  intro r t
  obtain ⟨hfiled, hnamed⟩ : t.Filed ∧ t.Named := run_named c past
  refine ⟨?_, ?_, ?_⟩
  · intro what name l
    exact ⟨ask_declare_refused hnamed, fun failure => ask_declare_error, ask_declare_gains hfiled⟩
  · intro request
    rw [← hfiled.nested.leave_eq_none]
    exact r.ask_collector request
  · intro hcurrent
    have hleave : r.table.leave = none := hfiled.nested.leave_eq_none.mpr hcurrent
    simp only [ask, hleave]
    rfl

/-- A variable is declared after a procedure next to it.  The scope of the procedure is closed by
    then, and the name is found from there all the same. -/
example :
    let r := (new default).run
      [.enter mainIndex, .declare .procedure "p" .unknown, .enter 5, .leave]
    let after := (r.ask (.declare (.variableOf (.scalar "integer")) "x" .unknown)).2
    r.table.lookupIn 2 "x" = none ∧
      (after.table.lookupIn 2 "x").map (fun e => (e.index, e.scope)) = some (6, 1) := by
  decide +kernel

end Register

end PlZero
