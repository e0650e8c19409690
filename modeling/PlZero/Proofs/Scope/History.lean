/-
  PlZero/Proofs/Scope/History.lean
  ================================
  **What a symbol table is after any operations.**  A `History` is a table with a record of
  what was asked of it: which names were declared in which scope, with the numbers of their
  entries, and which entries were detached.  The record is kept beside the table and is not
  read from it, so that `Sound` can say what the one has to do with the other.

  Every operation keeps a history sound (`Sound.perform`), also one that is refused: a name
  that is taken, a constant that cannot be folded, the predefined scope to be closed.
  `table_consistent` is what this means for a new table after any operations.
-/
import PlZero.Proofs.Scope.Linked

namespace PlZero

namespace SymbolTable

variable {t : SymbolTable}

/-! ### Operations -/

/-- What can be asked of a symbol table. -/
inductive Operation
  | enter (owner : Nat)
  | leave
  | constant (name : String) (location : Location) (tree : Constant)
  | type (name : String) (location : Location) (definition : TypeExpr)
  | variableOf (name : String) (location : Location) (base : TypeExpr)
  | procedure (name : String) (location : Location)
  | detached (name : String) (location : Location)
  deriving DecidableEq, Repr

/-- A name was declared in a scope, and the entry of this number came to be. -/
structure Introduction where
  scope : Nat
  name : String
  entry : Nat
  deriving DecidableEq, Repr

/-- A table with the names that were declared and the entries that were detached, latest
    first. -/
structure History where
  table : SymbolTable
  declared : List Introduction
  detached : List Nat
  deriving DecidableEq, Repr

namespace History

/-- The history after a declaration, which is refused if the name is taken. -/
def declare (h : History) (name : String) : Option (Entry × SymbolTable) → History
  | none => h
  | some (entry, table) =>
    { h with table, declared := ⟨h.table.current, name, entry.index⟩ :: h.declared }

/-- One operation.  An operation that fails leaves the table as it was. -/
def perform (h : History) : Operation → History
  | .enter owner => { h with table := (h.table.enter owner).2 }
  | .leave =>
    match h.table.leave with
    | some table => { h with table }
    | none => h
  | .constant name location tree =>
    match h.table.declareConstant name location tree with
    | .ok outcome => h.declare name outcome
    | .error _ => h
  | .type name location definition =>
    h.declare name (h.table.declareType name location definition)
  | .variableOf name location base =>
    h.declare name (h.table.declareVariable name location base)
  | .procedure name location => h.declare name (h.table.declareProcedure name location)
  | .detached name location =>
    let (entry, table) := h.table.addDetached name location
    { h with table, detached := entry.index :: h.detached }

/-- The operations one after the other. -/
def run (h : History) (operations : List Operation) : History := operations.foldl perform h

/-- A scope is opened for a procedure of the table; the rest can be asked at any time. -/
def Permitted (h : History) : Operation → Prop
  | .enter owner => ∃ e ∈ h.table.entries[owner]?, e.isProcedure
  | _ => True

instance (h : History) : DecidablePred h.Permitted := fun operation => by
  cases operation <;> unfold Permitted <;> infer_instance

/-- Every one of the operations is permitted when its turn comes. -/
def Permits (h : History) : List Operation → Prop
  | [] => True
  | operation :: operations =>
    h.Permitted operation ∧ (h.perform operation).Permits operations

instance decidablePermits : (h : History) → DecidablePred h.Permits
  | _, [] => .isTrue trivial
  | h, operation :: operations =>
    have := decidablePermits (h.perform operation) operations
    inferInstanceAs (Decidable (_ ∧ _))

/-- What a new table declares on its own. -/
def predefined : List Operation := [
  .type "integer" .unknown (.scalar "integer"),
  .type "boolean" .unknown (.scalar "boolean"),
  .constant "false" .unknown (.number .unknown 0 0),
  .constant "true" .unknown (.number .unknown 0 1),
  .procedure mainName .unknown]

/-- A table in which nothing was declared yet, not even what is predefined. -/
def bare : History := ⟨SymbolTable.bare, [], []⟩

/-- A new table. -/
def start : History := bare.run predefined

theorem start_table : start.table = initial := by decide +kernel

variable {h : History}

/-! ### Sound histories -/

/-- The names of the scopes are those that were declared, and every entry was either declared
    or detached. -/
structure Sound (h : History) : Prop where
  linked : h.table.Linked
  names : ∀ (i : Nat) (s : Scope), h.table.scopes[i]? = some s →
    ∀ name k, s.find? name = some k ↔ ⟨i, name, k⟩ ∈ h.declared
  introduced : ∀ d ∈ h.declared, d.scope < h.table.scopes.size ∧
    ∃ e, h.table.entries[d.entry]? = some e ∧ e.name = d.name ∧ e.scope = d.scope
  recorded : ∀ k, k < h.table.entries.size ↔ (∃ d ∈ h.declared, d.entry = k) ∨ k ∈ h.detached
  apart : ∀ d ∈ h.declared, d.entry ∉ h.detached

theorem Sound.bare : bare.Sound where
  linked := .bare
  names := by
    intro i s hs name k
    cases i with
    | zero =>
      have hs : s = ⟨0, none, none, 0, []⟩ := (Option.some.inj hs).symm
      simp [hs, Scope.find?, History.bare]
    | succ i => simp [History.bare, SymbolTable.bare] at hs
  introduced := by simp [History.bare]
  recorded := by simp [History.bare, SymbolTable.bare]
  apart := by simp [History.bare]

theorem Sound.entry_lt (h' : h.Sound) {d : Introduction} (hd : d ∈ h.declared) :
    d.entry < h.table.entries.size :=
  (h'.recorded d.entry).mpr (.inl ⟨d, hd, rfl⟩)

theorem Sound.declaredIn (h' : h.Sound) {name : String} {i k : Nat} :
    h.table.declaredIn name i = some k ↔ ⟨i, name, k⟩ ∈ h.declared := by
  constructor
  · intro hk
    obtain ⟨s, hs, hfind⟩ := Option.bind_eq_some_iff.mp hk
    exact (h'.names i s hs name k).mp hfind
  · intro hd
    have hs := Array.getElem?_eq_getElem (h'.introduced _ hd).1
    rw [declaredIn_of_scope hs]
    exact (h'.names i _ hs name k).mpr hd

/-- Two declared entries of one scope have different names. -/
theorem Sound.unique (h' : h.Sound) {d d' : Introduction} (hd : d ∈ h.declared)
    (hd' : d' ∈ h.declared) (hscope : d.scope = d'.scope) (hname : d.name = d'.name) :
    d = d' := by
  obtain ⟨i, name, k⟩ := d
  obtain ⟨i', name', k'⟩ := d'
  obtain rfl : i = i' := hscope
  obtain rfl : name = name' := hname
  have hk := h'.declaredIn.mpr hd
  rw [h'.declaredIn.mpr hd'] at hk
  rw [Option.some.inj hk]

/-! ### What an operation keeps -/

/-- A free name is declared. -/
theorem Sound.add {name : String} {l : Location} {m : Meaning} (h' : h.Sound)
    (hfree : h.table.isDeclared name = false) (hm : ∀ i, m ≠ .procedure (some i)) :
    (h.declare name (some (h.table.add name l m))).Sound := by
  obtain ⟨t, declared, detached⟩ := h
  obtain ⟨s, hs⟩ := h'.linked.nested.stack.scope
  have hnone : s.find? name = none := by
    simpa [isDeclared, hs, Scope.declares] using hfree
  have hentries : (t.add name l m).2.entries.size = t.entries.size + 1 := Array.size_push _
  constructor
  · exact h'.linked.add hm
  · intro i x hx name' k
    obtain ⟨y, hy, hfind⟩ := add_find? hx
    have hold := h'.names i y hy name' k
    rw [hfind]
    by_cases hnew : i = t.current ∧ name' = name
    · obtain ⟨rfl, rfl⟩ := hnew
      obtain rfl := Option.some.inj (hs.symm.trans hy)
      have habsent : (⟨t.current, name', k⟩ : Introduction) ∉ declared := by
        intro hd
        rw [hold.mpr hd] at hnone
        cases hnone
      simp [History.declare, SymbolTable.add, habsent, eq_comm]
    · have hother : (⟨i, name', k⟩ : Introduction) ≠ ⟨t.current, name, t.entries.size⟩ := by
        intro heq
        injection heq with hi hname
        exact hnew ⟨hi, hname⟩
      rw [if_neg hnew, hold]
      exact (List.mem_cons.trans (or_iff_right hother)).symm
  · intro d hd
    rcases List.mem_cons.mp hd with rfl | hd
    · have hlt : t.current < t.scopes.size := (Array.getElem?_eq_some_iff.mp hs).1
      exact ⟨by simpa [History.declare, SymbolTable.add] using hlt, _,
        Array.getElem?_push_size, rfl, rfl⟩
    · obtain ⟨hscope, e, he, hname, hin⟩ := h'.introduced d hd
      exact ⟨by simpa [History.declare, SymbolTable.add] using hscope, e,
        (add_extends name l m).entries _ e he, hname, hin⟩
  · intro k
    have hold := h'.recorded k
    simp only [History.declare, hentries, List.exists_mem_cons_iff, or_assoc, ← hold]
    show k < t.entries.size + 1 ↔ t.entries.size = k ∨ k < t.entries.size
    omega
  · intro d hd
    rcases List.mem_cons.mp hd with rfl | hd
    · intro hin
      exact Nat.lt_irrefl _ ((h'.recorded _).mpr (.inr hin))
    · exact h'.apart d hd

/-- An entry is added that no name refers to. -/
theorem Sound.append (h' : h.Sound) (name : String) (l : Location) :
    (h.perform (.detached name l)).Sound := by
  obtain ⟨t, declared, detached⟩ := h
  have hsize : (t.addDetached name l).2.entries.size = t.entries.size + 1 := Array.size_push _
  constructor
  · exact h'.linked.append (by simp)
  · exact h'.names
  · intro d hd
    obtain ⟨hscope, e, he, hname, hin⟩ := h'.introduced d hd
    exact ⟨hscope, e, (append_extends name l _).entries _ e he, hname, hin⟩
  · intro k
    have hold := h'.recorded k
    simp only [perform, hsize, List.mem_cons, or_left_comm, ← hold]
    show k < t.entries.size + 1 ↔ k = t.entries.size ∨ k < t.entries.size
    omega
  · intro d hd hin
    rcases List.mem_cons.mp hin with heq | hin
    · exact absurd (h'.entry_lt hd) (heq ▸ Nat.lt_irrefl _)
    · exact h'.apart d hd hin

/-- What was declared is whatever the table was asked to add, unless it refused. -/
theorem Sound.declare {name : String} {outcome : Option (Entry × SymbolTable)} (h' : h.Sound)
    (hadded : ∀ r, outcome = some r → h.table.isDeclared name = false ∧
      ∃ l m, r = h.table.add name l m ∧ ∀ i, m ≠ .procedure (some i)) :
    (h.declare name outcome).Sound := by
  cases outcome with
  | none => exact h'
  | some r =>
    obtain ⟨hfree, l, m, rfl, hm⟩ := hadded r rfl
    exact h'.add hfree hm

/-- A declaration that needs no folding. -/
theorem Sound.declarePlain {name : String} {l : Location} {m : Meaning} (h' : h.Sound)
    (hm : ∀ i, m ≠ .procedure (some i)) : (h.declare name (h.table.declare name l m)).Sound := by
  apply h'.declare
  intro r hr
  cases hfree : h.table.isDeclared name with
  | true => simp [SymbolTable.declare, hfree] at hr
  | false => exact ⟨rfl, l, m, declare_some hr, hm⟩

theorem Sound.declareConstant (h' : h.Sound) (name : String) (l : Location) (tree : Constant) :
    (h.perform (.constant name l tree)).Sound := by
  simp only [perform]
  cases hdeclare : h.table.declareConstant name l tree with
  | error e => exact h'
  | ok outcome =>
    apply h'.declare
    rintro r rfl
    obtain ⟨value, -, rfl⟩ := declareConstant_added hdeclare
    cases hfree : h.table.isDeclared name with
    | true => simp [SymbolTable.declareConstant, hfree] at hdeclare
    | false => exact ⟨rfl, l, _, rfl, by simp⟩

/-- A scope is opened. -/
theorem Sound.enter {owner : Nat} (h' : h.Sound) (hpermitted : h.Permitted (.enter owner)) :
    (h.perform (.enter owner)).Sound := by
  obtain ⟨e, he, hprocedure⟩ := hpermitted
  obtain ⟨around, haround⟩ := h'.linked.nested.stack.scope
  constructor
  · exact h'.linked.enter he hprocedure
  · intro i s hs name k
    rcases enter_scopes_cases haround hs with hs | ⟨rfl, rfl⟩
    · exact h'.names i s hs name k
    · constructor
      · intro hfind
        simp [Scope.find?] at hfind
      · intro hd
        exact absurd (h'.introduced _ hd).1 (Nat.lt_irrefl _)
  · intro d hd
    obtain ⟨hscope, x, hx, hname, hin⟩ := h'.introduced d hd
    obtain ⟨y, hy, hyname, hyin, -, -⟩ := enter_entries_kept owner hx
    have hsize : (h.table.enter owner).2.scopes.size = h.table.scopes.size + 1 :=
      Array.size_push _
    exact ⟨by simp only [perform, hsize]; omega, y, hy, hyname.trans hname, hyin.trans hin⟩
  · have hsize : (h.table.enter owner).2.entries.size = h.table.entries.size :=
      Array.size_modify ..
    intro k
    simp only [perform, hsize]
    exact h'.recorded k
  · exact h'.apart

theorem Sound.leave (h' : h.Sound) : (h.perform .leave).Sound := by
  unfold perform
  cases hleave : h.table.leave with
  | none => exact h'
  | some u =>
    obtain ⟨hscopes, hentries⟩ := leave_rows hleave
    constructor
    · exact h'.linked.leave hleave
    · simp only [hscopes]
      exact h'.names
    · simp only [hscopes, hentries]
      exact h'.introduced
    · simp only [hentries]
      exact h'.recorded
    · exact h'.apart

/-- Every operation keeps a history sound. -/
theorem Sound.perform {operation : Operation} (h' : h.Sound) (hp : h.Permitted operation) :
    (h.perform operation).Sound := by
  cases operation with
  | enter owner => exact h'.enter hp
  | leave => exact h'.leave
  | constant name l tree => exact h'.declareConstant name l tree
  | type name l definition => exact h'.declarePlain (by simp)
  | variableOf name l base => exact h'.declarePlain (by simp)
  | procedure name l => exact h'.declarePlain (by simp)
  | detached name l => exact h'.append name l

theorem Sound.run {operations : List Operation} (h' : h.Sound) (hp : h.Permits operations) :
    (h.run operations).Sound := by
  induction operations generalizing h with
  | nil => exact h'
  | cons operation operations ih => exact ih (h'.perform hp.1) hp.2

theorem Sound.start : start.Sound := Sound.bare.run (by decide +kernel)

/-! ### What names mean -/

theorem Sound.declaredIn_eq_none (h' : h.Sound) {name : String} {i : Nat} :
    h.table.declaredIn name i = none ↔ ∀ k, ⟨i, name, k⟩ ∉ h.declared := by
  simp only [Option.eq_none_iff_forall_ne_some, ne_eq, h'.declaredIn]

/-- A name means the entry of the nearest scope that declares it. -/
theorem Sound.lookupIn_eq_some (h' : h.Sound) {i : Nat} {path : List Nat}
    (hpath : h.table.Path i path) {name : String} {e : Entry} :
    h.table.lookupIn i name = some e ↔ ∃ nearer j farther k, path = nearer ++ j :: farther ∧
      (∀ m ∈ nearer, ∀ k, ⟨m, name, k⟩ ∉ h.declared) ∧ ⟨j, name, k⟩ ∈ h.declared ∧
      h.table.entries[k]? = some e := by
  rw [lookupIn, h'.linked.nested.lookupIndex hpath, Option.bind_eq_some_iff]
  constructor
  · rintro ⟨k, hk, he⟩
    obtain ⟨nearer, j, farther, hsplit, hj, hnearer⟩ := List.findSome?_eq_some_iff.mp hk
    exact ⟨nearer, j, farther, k, hsplit, fun m hm => h'.declaredIn_eq_none.mp (hnearer m hm),
      h'.declaredIn.mp hj, he⟩
  · rintro ⟨nearer, j, farther, k, hsplit, hnearer, hj, he⟩
    have hk : path.findSome? (h.table.declaredIn name) = some k :=
      List.findSome?_eq_some_iff.mpr ⟨nearer, j, farther, hsplit, h'.declaredIn.mpr hj,
        fun m hm => h'.declaredIn_eq_none.mpr (hnearer m hm)⟩
    exact ⟨k, hk, he⟩

/-- A name that no scope around declares means nothing. -/
theorem Sound.lookupIn_eq_none (h' : h.Sound) {i : Nat} {path : List Nat}
    (hpath : h.table.Path i path) {name : String} :
    h.table.lookupIn i name = none ↔ ∀ j ∈ path, ∀ k, ⟨j, name, k⟩ ∉ h.declared := by
  rw [lookupIn, h'.linked.nested.lookupIndex hpath]
  constructor
  · intro hnone j hj k hd
    have hsome : (path.findSome? (h.table.declaredIn name)).isSome :=
      List.findSome?_isSome_iff.mpr ⟨j, hj, by simp [h'.declaredIn.mpr hd]⟩
    obtain ⟨k', hk'⟩ := Option.isSome_iff_exists.mp hsome
    obtain ⟨m, -, hm⟩ := List.exists_of_findSome?_eq_some hk'
    have hlt := h'.entry_lt (h'.declaredIn.mp hm)
    rw [hk', Option.bind_some, Array.getElem?_eq_getElem hlt] at hnone
    cases hnone
  · intro hnone
    rw [List.findSome?_eq_none_iff.mpr fun j hj => h'.declaredIn_eq_none.mpr (hnone j hj)]
    rfl

theorem lookupIn_of_missing {i : Nat} (name : String) (hi : t.scopes.size ≤ i) :
    t.lookupIn i name = none := by
  simp [lookupIn, lookupIndex, resolve, Array.getElem?_eq_none hi]

/-- A detached entry is not what a name means, wherever it is looked up. -/
theorem Sound.lookupIn_not_detached (h' : h.Sound) {i : Nat} {name : String} {e : Entry}
    (he : h.table.lookupIn i name = some e) : e.index ∉ h.detached := by
  by_cases hi : i < h.table.scopes.size
  · obtain ⟨path, hpath, -⟩ := h'.linked.nested.path i hi
    obtain ⟨-, j, -, k, -, -, hd, hk⟩ := (h'.lookupIn_eq_some hpath).mp he
    rw [h'.linked.numbered k e hk]
    exact h'.apart _ hd
  · rw [lookupIn_of_missing name (Nat.le_of_not_lt hi)] at he
    cases he

/-- A new table after any operations.  Scopes and entries know their numbers; the scope around
    a scope is an older one and one level up, so that a path leads from every scope to the
    predefined one; the open scopes are the path of the innermost one.  A scope holds what was
    declared in it, each name once.  Scopes belong to procedures, and the scope of a procedure
    belongs to it.  A name means the entry of the nearest scope on the path that declares it,
    which is never a detached one, or nothing if there is no such scope. -/
theorem table_consistent {operations : List Operation} (hpermitted : start.Permits operations) :
    let h := start.run operations
    let t := h.table
    start.table = initial ∧
    (∀ (i : Nat) (s : Scope), t.scopes[i]? = some s → s.index = i) ∧
    (∀ (k : Nat) (e : Entry), t.entries[k]? = some e → e.index = k) ∧
    (∃ names, t.scopes[0]? = some ⟨0, none, none, 0, names⟩) ∧
    (∀ (i : Nat) (s : Scope), t.scopes[i]? = some s → i ≠ 0 →
      ∃ (j : Nat) (outer : Scope), s.parent = some j ∧ j < i ∧ t.scopes[j]? = some outer ∧
        s.level = outer.level + 1) ∧
    (∀ i, i < t.scopes.size → ∃ path, t.Path i path ∧ path.getLast? = some 0) ∧
    t.Path t.current (t.current :: t.enclosing) ∧
    (t.current :: t.enclosing).getLast? = some 0 ∧
    (∀ (i : Nat) (s : Scope), t.scopes[i]? = some s →
      ∀ name k, s.find? name = some k ↔ ⟨i, name, k⟩ ∈ h.declared) ∧
    (∀ d ∈ h.declared, ∃ e, t.entries[d.entry]? = some e ∧ e.name = d.name ∧
      e.scope = d.scope) ∧
    (∀ d ∈ h.declared, ∀ d' ∈ h.declared, d.scope = d'.scope → d.name = d'.name → d = d') ∧
    (∀ k, k < t.entries.size ↔ (∃ d ∈ h.declared, d.entry = k) ∨ k ∈ h.detached) ∧
    (∀ name e, t.lookup name = some e → e.index ∉ h.detached) ∧
    (∀ i name e, t.lookupIn i name = some e → e.index ∉ h.detached) ∧
    (∀ (i : Nat) (s : Scope), t.scopes[i]? = some s → i ≠ 0 →
      ∃ k e scope, s.owner = some k ∧ t.entries[k]? = some e ∧ e.meaning = .procedure scope) ∧
    (∀ (k : Nat) (e : Entry) (i : Nat), t.entries[k]? = some e →
      e.meaning = .procedure (some i) → ∃ s, t.scopes[i]? = some s ∧ s.owner = some k) ∧
    (∀ (i : Nat) (path : List Nat), t.Path i path → ∀ name,
      (∀ e, t.lookupIn i name = some e ↔ ∃ nearer j farther k,
        path = nearer ++ j :: farther ∧ (∀ m ∈ nearer, ∀ k, ⟨m, name, k⟩ ∉ h.declared) ∧
        ⟨j, name, k⟩ ∈ h.declared ∧ t.entries[k]? = some e) ∧
      (t.lookupIn i name = none ↔ ∀ j ∈ path, ∀ k, ⟨j, name, k⟩ ∉ h.declared)) := by
  intro h t
  have hsound : h.Sound := Sound.start.run hpermitted
  have hnested : t.Nested := hsound.linked.nested
  have howned : ∀ (i : Nat) (s : Scope), t.scopes[i]? = some s → i ≠ 0 →
      ∃ k e scope, s.owner = some k ∧ t.entries[k]? = some e ∧ e.meaning = .procedure scope := by
    intro i s hs hne
    obtain ⟨k, e, hk, he, hprocedure⟩ := hsound.linked.owned i s hs hne
    obtain ⟨scope, hscope⟩ := Entry.isProcedure_iff.mp hprocedure
    exact ⟨k, e, scope, hk, he, hscope⟩
  have hhoused : ∀ (k : Nat) (e : Entry) (i : Nat), t.entries[k]? = some e →
      e.meaning = .procedure (some i) → ∃ s, t.scopes[i]? = some s ∧ s.owner = some k := by
    intro k e i he hlocal
    obtain ⟨-, s, -, -, hs, hk⟩ := hsound.linked.housed k e i he hlocal
    exact ⟨s, hs, hk⟩
  exact ⟨start_table, hnested.numbered, hsound.linked.numbered, hnested.outermost, hnested.inner,
    hnested.path, hnested.stack, hnested.getLast hnested.stack, hsound.names,
    fun d hd => (hsound.introduced d hd).2, fun d hd d' hd' => hsound.unique hd hd',
    hsound.recorded, fun name e he => hsound.lookupIn_not_detached he,
    fun i name e he => hsound.lookupIn_not_detached he, howned, hhoused,
    fun i path hpath name => ⟨fun e => hsound.lookupIn_eq_some hpath,
      hsound.lookupIn_eq_none hpath⟩⟩

/-- The hypothesis of `table_consistent` holds of a procedure `p` in which another `p` is
    declared twice, the second time in vain, so that its body belongs to a detached entry.
    The last two operations fail. -/
theorem table_consistent_twice :
    let operations : List Operation := [.procedure "p" .unknown, .enter 5,
      .procedure "p" .unknown, .procedure "p" .unknown, .detached "p" .unknown, .enter 7,
      .constant "c" .unknown (.number .unknown 2 3), .leave, .leave, .enter 4, .leave, .leave,
      .constant "c" .unknown (.foreign .typeError)]
    let h := start.run operations
    start.Permits operations ∧ h.table.scopes.size = 4 ∧ h.detached = [7] ∧
      (h.table.lookupIn 2 "p").map Entry.index = some 6 ∧
      ∀ i name e, h.table.lookupIn i name = some e → e.index ≠ 7 := by
  intro operations h
  have hpermitted : start.Permits operations := by decide +kernel
  have hdetached : h.detached = [7] := by decide +kernel
  obtain ⟨-, -, -, -, -, -, -, -, -, -, -, -, -, hlookup, -⟩ := table_consistent hpermitted
  refine ⟨hpermitted, by decide +kernel, hdetached, by decide +kernel, ?_⟩
  intro i name e he
  have hnot : e.index ∉ h.detached := hlookup i name e he
  simpa [hdetached] using hnot

end History

end SymbolTable

end PlZero
