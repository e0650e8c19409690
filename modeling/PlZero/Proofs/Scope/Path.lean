/-
  PlZero/Proofs/Scope/Path.lean
  =============================
  **The scopes around a scope.**  `Path t i path` says that `path` leads from the scope `i`
  outward along the parents to a scope that has none.  The recursion of `resolve` is fueled;
  along a path that the fuel covers it is a search through the path (`resolve_of_path`), so a
  name means what the nearest scope on the path says it does.

  `Nested t` is what makes the fuel of `lookupIndex` enough.  Parents have smaller numbers,
  so that every scope has a path (`Nested.path`) which is no longer than its number allows
  (`Nested.length_le`) and leads to the predefined scope.  Opening a scope puts one number in
  front of a path, and a new name changes no path at all.
-/
import PlZero.Proofs.Scope.Registered

namespace PlZero

namespace SymbolTable

variable {t u : SymbolTable} {i j : Nat} {p q : List Nat} {name : String}

/-! ### Paths -/

/-- The scopes from one outward, up to one that has no parent. -/
inductive Path (t : SymbolTable) : Nat → List Nat → Prop
  | last {i : Nat} {s : Scope} (hs : t.scopes[i]? = some s) (hparent : s.parent = none) :
      Path t i [i]
  | next {i j : Nat} {s : Scope} {rest : List Nat} (hs : t.scopes[i]? = some s)
      (hparent : s.parent = some j) (hrest : Path t j rest) : Path t i (i :: rest)

/-- What a scope itself says about a name. -/
def declaredIn (t : SymbolTable) (name : String) (i : Nat) : Option Nat :=
  t.scopes[i]?.bind fun s => s.find? name

theorem declaredIn_of_scope {s : Scope} (hs : t.scopes[i]? = some s) :
    t.declaredIn name i = s.find? name := by
  simp [declaredIn, hs]

theorem Path.scope (h : t.Path i p) : ∃ s, t.scopes[i]? = some s := by
  cases h with
  | last hs hparent => exact ⟨_, hs⟩
  | next hs hparent hrest => exact ⟨_, hs⟩

theorem Path.head (h : t.Path i (j :: p)) : i = j := by
  cases h with
  | last hs hparent => rfl
  | next hs hparent hrest => rfl

theorem Path.unique (h : t.Path i p) (h' : t.Path i q) : p = q := by
  induction h generalizing q with
  | last hs hparent =>
    cases h' with
    | last hs' hparent' => rfl
    | next hs' hparent' hrest' => simp_all
  | next hs hparent hrest ih =>
    cases h' with
    | last hs' hparent' => simp_all
    | next hs' hparent' hrest' =>
      obtain rfl : _ = _ := Option.some.inj (hs.symm.trans hs')
      obtain rfl : _ = _ := Option.some.inj (hparent.symm.trans hparent')
      rw [ih hrest']

/-- A path stays while scopes change no more than their names. -/
theorem Path.mono
    (hscopes : ∀ (i : Nat) (s : Scope), t.scopes[i]? = some s →
      ∃ names, u.scopes[i]? = some { s with declared := names })
    (h : t.Path i p) : u.Path i p := by
  induction h with
  | last hs hparent =>
    obtain ⟨names, hs'⟩ := hscopes _ _ hs
    exact .last hs' hparent
  | next hs hparent hrest ih =>
    obtain ⟨names, hs'⟩ := hscopes _ _ hs
    exact .next hs' hparent ih

/-- Looking outward is a search along the path. -/
theorem resolve_of_path (h : t.Path i p) {fuel : Nat} (hfuel : p.length ≤ fuel) :
    t.resolve name fuel i = p.findSome? (t.declaredIn name) := by
  induction h generalizing fuel with
  | last hs hparent =>
    cases fuel with
    | zero => simp at hfuel
    | succ fuel =>
      simp only [resolve, hs, hparent, List.findSome?_cons, declaredIn_of_scope hs,
        List.findSome?_nil]
      cases Scope.find? _ name <;> rfl
  | next hs hparent hrest ih =>
    cases fuel with
    | zero => simp at hfuel
    | succ fuel =>
      have hfuel : List.length _ ≤ fuel := Nat.le_of_succ_le_succ hfuel
      simp only [resolve, hs, hparent, ih hfuel, List.findSome?_cons, declaredIn_of_scope hs]
      cases Scope.find? _ name <;> rfl

/-! ### Nested scopes -/

/-- Scopes know their numbers, the scope around a scope is an older one and one level up,
    and the open scopes are those on the path of the innermost one. -/
structure Nested (t : SymbolTable) : Prop where
  numbered : ∀ (i : Nat) (s : Scope), t.scopes[i]? = some s → s.index = i
  outermost : ∃ names, t.scopes[0]? = some ⟨0, none, none, 0, names⟩
  inner : ∀ (i : Nat) (s : Scope), t.scopes[i]? = some s → i ≠ 0 →
    ∃ (j : Nat) (outer : Scope), s.parent = some j ∧ j < i ∧ t.scopes[j]? = some outer ∧
      s.level = outer.level + 1
  stack : t.Path t.current (t.current :: t.enclosing)

theorem Nested.bare : bare.Nested where
  numbered := by
    intro i s hs
    cases i with
    | zero => exact Option.some.inj hs ▸ rfl
    | succ i => simp [SymbolTable.bare] at hs
  outermost := ⟨[], rfl⟩
  inner := by
    intro i s hs hne
    cases i with
    | zero => exact absurd rfl hne
    | succ i => simp [SymbolTable.bare] at hs
  stack := .last rfl rfl

theorem Nested.path (h : t.Nested) :
    ∀ i, i < t.scopes.size → ∃ path, t.Path i path ∧ path.getLast? = some 0 := by
  intro i
  induction i using Nat.strongRecOn with
  | ind i ih =>
    intro hi
    obtain ⟨s, hs⟩ : ∃ s, t.scopes[i]? = some s := ⟨_, Array.getElem?_eq_getElem hi⟩
    by_cases hzero : i = 0
    · subst hzero
      obtain ⟨names, houtermost⟩ := h.outermost
      exact ⟨[0], .last houtermost rfl, rfl⟩
    · obtain ⟨j, outer, hparent, hlt, -, -⟩ := h.inner i s hs hzero
      obtain ⟨path, hpath, hlast⟩ := ih j hlt (Nat.lt_trans hlt hi)
      exact ⟨i :: path, .next hs hparent hpath, by simp [List.getLast?_cons, hlast]⟩

theorem Nested.length_le (h : t.Nested) (hpath : t.Path i p) : p.length ≤ i + 1 := by
  induction hpath with
  | last hs hparent => simp
  | @next i j s rest hs hparent hrest ih =>
    have hne : i ≠ 0 := by
      rintro rfl
      obtain ⟨names, houtermost⟩ := h.outermost
      obtain rfl := Option.some.inj (houtermost.symm.trans hs)
      simp at hparent
    obtain ⟨j', outer, hparent', hlt, -, -⟩ := h.inner _ s hs hne
    obtain rfl : j = j' := Option.some.inj (hparent.symm.trans hparent')
    rw [List.length_cons]
    omega

theorem Nested.getLast (h : t.Nested) (hpath : t.Path i p) : p.getLast? = some 0 := by
  obtain ⟨s, hs⟩ := hpath.scope
  obtain ⟨other, hother, hlast⟩ := h.path i (Array.getElem?_eq_some_iff.mp hs).1
  rwa [hpath.unique hother]

/-- A name means what the nearest scope that declares it says. -/
theorem Nested.lookupIndex (h : t.Nested) (hpath : t.Path i p) :
    t.lookupIndex i name = p.findSome? (t.declaredIn name) :=
  resolve_of_path hpath (h.length_le hpath)

/-! ### What keeps scopes nested -/

/-- A table with more names has no other scopes than before. -/
theorem Extends.scope_of_size (h : t.Extends u) (hsize : u.scopes.size = t.scopes.size)
    {s : Scope} (hs : u.scopes[i]? = some s) :
    ∃ outer, t.scopes[i]? = some outer ∧ s = { outer with declared := s.declared } := by
  have hi : i < t.scopes.size := hsize ▸ (Array.getElem?_eq_some_iff.mp hs).1
  obtain ⟨names, hs'⟩ := h.scopes i _ (Array.getElem?_eq_getElem hi)
  obtain rfl := Option.some.inj (hs.symm.trans hs')
  exact ⟨_, Array.getElem?_eq_getElem hi, rfl⟩

theorem Nested.extend (h : t.Nested) (hu : t.Extends u) (hsize : u.scopes.size = t.scopes.size)
    (hcurrent : u.current = t.current) (henclosing : u.enclosing = t.enclosing) :
    u.Nested where
  numbered := by
    intro i s hs
    obtain ⟨before, hbefore, hsame⟩ := hu.scope_of_size hsize hs
    rw [hsame]
    exact h.numbered i before hbefore
  outermost := by
    obtain ⟨names, hs⟩ := h.outermost
    exact hu.scopes 0 _ hs
  inner := by
    intro i s hs hne
    obtain ⟨before, hbefore, hsame⟩ := hu.scope_of_size hsize hs
    obtain ⟨j, outer, hparent, hlt, houter, hlevel⟩ := h.inner i before hbefore hne
    obtain ⟨names, houter'⟩ := hu.scopes j outer houter
    rw [hsame]
    exact ⟨j, _, hparent, hlt, houter', hlevel⟩
  stack := by
    rw [hcurrent, henclosing]
    exact h.stack.mono hu.scopes

/-- The scopes of a table in which one more scope was opened. -/
theorem enter_scopes {s : Scope} (hs : t.scopes[t.current]? = some s) (owner : Nat) :
    (t.enter owner).2.scopes =
      t.scopes.push ⟨t.scopes.size, some t.current, some owner, s.level + 1, []⟩ := by
  simp [enter, hs]

theorem enter_scopes_old (owner : Nat) {s : Scope} (hs : t.scopes[i]? = some s) :
    (t.enter owner).2.scopes[i]? = some s := by
  have hi : i < t.scopes.size := (Array.getElem?_eq_some_iff.mp hs).1
  show (t.scopes.push _)[i]? = some s
  rw [Array.getElem?_push_lt hi, ← hs, Array.getElem?_eq_getElem hi]

/-- An open scope is one of those before or the one that was opened. -/
theorem enter_scopes_cases {s outer : Scope} {owner : Nat}
    (houter : t.scopes[t.current]? = some outer) (hs : (t.enter owner).2.scopes[i]? = some s) :
    t.scopes[i]? = some s ∨ i = t.scopes.size ∧
      s = ⟨t.scopes.size, some t.current, some owner, outer.level + 1, []⟩ := by
  rw [enter_scopes houter, Array.getElem?_push] at hs
  split at hs
  · rename_i hi
    exact .inr ⟨hi, (Option.some.inj hs).symm⟩
  · exact .inl hs

theorem enter_scopes_new {s : Scope} (hs : t.scopes[t.current]? = some s) (owner : Nat) :
    (t.enter owner).2.scopes[t.scopes.size]? =
      some ⟨t.scopes.size, some t.current, some owner, s.level + 1, []⟩ := by
  rw [enter_scopes hs, Array.getElem?_push_size]

theorem Nested.enter (h : t.Nested) (owner : Nat) : (t.enter owner).2.Nested := by
  obtain ⟨around, haround⟩ := h.stack.scope
  have hcurrent : t.current < t.scopes.size := (Array.getElem?_eq_some_iff.mp haround).1
  constructor
  · intro i s hs
    rcases enter_scopes_cases haround hs with hs | ⟨rfl, rfl⟩
    · exact h.numbered i s hs
    · rfl
  · obtain ⟨names, hs⟩ := h.outermost
    exact ⟨names, enter_scopes_old owner hs⟩
  · intro i s hs hne
    rcases enter_scopes_cases haround hs with hs | ⟨rfl, rfl⟩
    · obtain ⟨j, outer, hparent, hlt, houter, hlevel⟩ := h.inner i s hs hne
      exact ⟨j, outer, hparent, hlt, enter_scopes_old owner houter, hlevel⟩
    · exact ⟨t.current, around, rfl, hcurrent, enter_scopes_old owner haround, rfl⟩
  · exact .next (enter_scopes_new haround owner) rfl
      (h.stack.mono fun i s hs => ⟨s.declared, enter_scopes_old owner hs⟩)

/-- Closing a scope leaves the scopes around it open. -/
theorem Nested.leave (h : t.Nested) (hu : t.leave = some u) : u.Nested := by
  obtain ⟨scopes, entries, current, enclosing⟩ := t
  cases enclosing with
  | nil => simp [SymbolTable.leave] at hu
  | cons outer rest =>
    obtain rfl := Option.some.inj hu
    have hstack : (⟨scopes, entries, outer, rest⟩ : SymbolTable).Path outer (outer :: rest) := by
      cases h.stack with
      | next hs hparent hrest =>
        exact .mono (t := ⟨scopes, entries, current, outer :: rest⟩)
          (fun i s hs => ⟨s.declared, hs⟩) (hrest.head ▸ hrest)
    exact ⟨h.numbered, h.outermost, h.inner, hstack⟩

end SymbolTable

end PlZero
