/-
  PlZero/Proofs/Folding/Stored.lean
  =================================
  **What is stored of a constant.**  `FoldedAt t k` says that the value of the entry `k` is what
  its tree comes to among the entries before it.  Every operation on a table keeps this of all
  its constants (`Folded.perform`): what was before an entry stays (`Later.perform`), and a new
  constant is folded in the table as it is, before its own name is added.  Since a name stands
  for an earlier entry, the values are bounded by the numbers that are written
  (`Folded.value_inRange`).
-/
import PlZero.Proofs.Folding.Base
import PlZero.Proofs.Folding.Numbers
import PlZero.Proofs.Scope.History

namespace PlZero.SymbolTable

variable {t u : SymbolTable} {k : Nat} {e : Entry} {operations : List Operation} {h : History}

/-! ### Folded constants -/

/-- A constant is written in its scope, and its value is that of its tree among the entries
    before it. -/
structure FoldedAt (t : SymbolTable) (k scope : Nat) (tree : Constant) (value : Option Int) :
    Prop where
  inside : scope < t.scopes.size
  written : tree.InScope scope
  folded : value =
    ((t.before k).baseValue scope tree.base).map fun v => (-1) ^ tree.negations * v

/-- Every constant of a table was folded when it was declared. -/
def Folded (t : SymbolTable) : Prop :=
  ∀ (k : Nat) (e : Entry) tree value, t.entries[k]? = some e →
    e.meaning = .constant tree value → t.FoldedAt k e.scope tree value

theorem Later.scope_lt (h : t.Later u) {i : Nat} (hi : i < t.scopes.size) :
    i < u.scopes.size := by
  obtain ⟨added, hadded, -⟩ := h.scopes i _ (Array.getElem?_eq_getElem hi)
  exact (Array.getElem?_eq_some_iff.mp hadded).1

theorem Later.foldedAt (h : t.Later u) (hn : t.Nested) (hk : k ≤ t.entries.size) {scope : Nat}
    {tree : Constant} {value : Option Int} (hfolded : t.FoldedAt k scope tree value) :
    u.FoldedAt k scope tree value where
  inside := h.scope_lt hfolded.inside
  written := hfolded.written
  folded := by
    rw [h.baseValue hn hk hfolded.inside]
    exact hfolded.folded

/-- An old constant is the same entry later. -/
theorem Later.constant (h : t.Later u) (he : t.entries[k]? = some e) {tree : Constant}
    {value : Option Int} (hmeaning : e.meaning = .constant tree value) :
    u.entries[k]? = some e := by
  obtain ⟨x, hx, rfl | ⟨hprocedure, -⟩⟩ := h.entries k e he
  · exact hx
  · simp [Entry.isProcedure, hmeaning] at hprocedure

/-- Constants stay folded, and those that are new have to be. -/
theorem Folded.later (hfolded : t.Folded) (hn : t.Nested) (h : t.Later u)
    (hnew : ∀ (k : Nat) (e : Entry) tree value, t.entries.size ≤ k → u.entries[k]? = some e →
      e.meaning = .constant tree value → u.FoldedAt k e.scope tree value) : u.Folded := by
  intro k e tree value he hmeaning
  by_cases hk : k < t.entries.size
  · obtain ⟨x, hx, hsame⟩ := h.entries k _ (Array.getElem?_eq_getElem hk)
    obtain rfl := Option.some.inj (hx.symm.trans he)
    rcases hsame with hsame | ⟨-, hprocedure⟩
    · have hold := hfolded k x tree value (hsame ▸ Array.getElem?_eq_getElem hk) hmeaning
      exact h.foldedAt hn (Nat.le_of_lt hk) hold
    · simp [Entry.isProcedure, hmeaning] at hprocedure
  · exact hnew k e tree value (Nat.le_of_not_lt hk) he hmeaning

/-- One entry is added, which is no constant or is folded. -/
theorem Folded.push (hfolded : t.Folded) (hn : t.Nested) (h : t.Later u)
    (hentries : u.entries = t.entries.push e)
    (he : ∀ tree value, e.meaning = .constant tree value →
      u.FoldedAt t.entries.size e.scope tree value) : u.Folded := by
  apply hfolded.later hn h
  intro k x tree value hk hx hmeaning
  rw [hentries, Array.getElem?_push] at hx
  split at hx
  · rename_i hsize
    cases hx
    exact hsize ▸ he tree value hmeaning
  · rw [Array.getElem?_eq_none hk] at hx
    cases hx

/-- No entry is added. -/
theorem Folded.same (hfolded : t.Folded) (hn : t.Nested) (h : t.Later u)
    (hsize : u.entries.size = t.entries.size) : u.Folded := by
  apply hfolded.later hn h
  intro k e tree value hk he _
  rw [Array.getElem?_eq_none (hsize ▸ hk)] at he
  cases he

/-! ### Operations -/

/-- A constant is declared in the scope that its tree was written in. -/
def Operation.InScope (scope : Nat) : Operation → Prop
  | .constant _ _ tree => tree.InScope scope
  | _ => True

namespace History

/-- Every one of the operations is permitted when its turn comes, and its constant is written in
    the scope that is open then. -/
def Admits (h : History) : List Operation → Prop
  | [] => True
  | operation :: operations => (h.Permitted operation ∧ operation.InScope h.table.current) ∧
    (h.perform operation).Admits operations

theorem Admits.permits (hadmits : h.Admits operations) : h.Permits operations := by
  induction operations generalizing h with
  | nil => trivial
  | cons operation operations ih => exact ⟨hadmits.1.1, ih hadmits.2⟩

theorem declare_later {name : String} {outcome : Option (Entry × SymbolTable)}
    (houtcome : ∀ r, outcome = some r → h.table.Later r.2) :
    h.table.Later (h.declare name outcome).table := by
  cases outcome with
  | none => exact .refl _
  | some r => exact houtcome r rfl

/-- What an operation makes of a table is the table with more in it. -/
theorem perform_later (h : History) (operation : Operation) :
    h.table.Later (h.perform operation).table := by
  have hplain : ∀ name l m, h.table.Later
      (h.declare name (h.table.declare name l m)).table := by
    intro name l m
    apply declare_later
    intro r hr
    rw [declare_some hr]
    exact add_later
  cases operation with
  | enter owner => exact enter_later owner
  | leave =>
    simp only [perform]
    cases hleave : h.table.leave with
    | none => exact .refl _
    | some u => exact leave_later hleave
  | constant name l tree =>
    simp only [perform]
    cases houtcome : h.table.declareConstant name l tree with
    | error e => exact .refl _
    | ok outcome =>
      apply declare_later
      rintro r rfl
      obtain ⟨value, -, rfl⟩ := declareConstant_added houtcome
      exact add_later
  | type name l definition => exact hplain name l _
  | variableOf name l base => exact hplain name l _
  | procedure name l => exact hplain name l _
  | detached name l => exact append_later

theorem run_later (h : History) (operations : List Operation) :
    h.table.Later (h.run operations).table := by
  induction operations generalizing h with
  | nil => exact .refl _
  | cons operation operations ih => exact (h.perform_later operation).trans (ih _)

/-- A constant is folded in the table as it is, where its own name is not declared yet. -/
theorem Sound.addConstant (hsound : h.Sound) {name : String} {l : Location} {tree : Constant}
    {value : Option Int} (htree : tree.InScope h.table.current)
    (hvalue : h.table.evaluate tree = .ok value) :
    (h.table.add name l (.constant tree value)).2.FoldedAt h.table.entries.size h.table.current
      tree value := by
  obtain ⟨s, hs⟩ := hsound.linked.nested.stack.scope
  have hinside : h.table.current < h.table.scopes.size := (Array.getElem?_eq_some_iff.mp hs).1
  have hlater : h.table.Later (h.table.add name l (.constant tree value)).2 := add_later
  have hnames : ∀ i other k, h.table.declaredIn other i = some k → k < h.table.entries.size :=
    fun i other k hk => hsound.entry_lt (hsound.declaredIn.mp hk)
  refine ⟨hlater.scope_lt hinside, htree, ?_⟩
  rw [hlater.baseValue hsound.linked.nested (Nat.le_refl _) hinside,
    baseValue_before_next hsound.linked.nested hnames hinside]
  rw [evaluate_eq htree hinside] at hvalue
  exact (Except.ok.inj hvalue).symm

theorem Sound.declare_folded (hsound : h.Sound) (hfolded : h.table.Folded) {name : String}
    {outcome : Option (Entry × SymbolTable)}
    (houtcome : ∀ r, outcome = some r → ∃ l m, r = h.table.add name l m ∧
      ∀ tree value, m = .constant tree value →
        r.2.FoldedAt h.table.entries.size h.table.current tree value) :
    (h.declare name outcome).table.Folded := by
  cases outcome with
  | none => exact hfolded
  | some r =>
    obtain ⟨l, m, rfl, hm⟩ := houtcome r rfl
    exact hfolded.push hsound.linked.nested add_later rfl hm

/-- Every operation keeps all constants folded. -/
theorem Sound.perform_folded (hsound : h.Sound) (hfolded : h.table.Folded)
    {operation : Operation} (hinside : operation.InScope h.table.current) :
    (h.perform operation).table.Folded := by
  have hn := hsound.linked.nested
  have hplain : ∀ name l m, (∀ tree value, m ≠ .constant tree value) →
      (h.declare name (h.table.declare name l m)).table.Folded := by
    intro name l m hm
    apply hsound.declare_folded hfolded
    intro r hr
    exact ⟨l, m, declare_some hr, fun tree value heq => absurd heq (hm tree value)⟩
  cases operation with
  | enter owner => exact hfolded.same hn (enter_later owner) (Array.size_modify ..)
  | leave =>
    simp only [History.perform]
    cases hleave : h.table.leave with
    | none => exact hfolded
    | some u => exact hfolded.same hn (leave_later hleave) (by rw [(leave_rows hleave).2])
  | constant name l tree =>
    simp only [History.perform]
    cases houtcome : h.table.declareConstant name l tree with
    | error e => exact hfolded
    | ok outcome =>
      apply hsound.declare_folded hfolded
      rintro r rfl
      obtain ⟨value, hvalue, rfl⟩ := declareConstant_added houtcome
      refine ⟨l, _, rfl, ?_⟩
      rintro _ _ ⟨⟩
      exact hsound.addConstant hinside hvalue
  | type name l definition => exact hplain name l _ (by simp)
  | variableOf name l base => exact hplain name l _ (by simp)
  | procedure name l => exact hplain name l _ (by simp)
  | detached name l =>
    apply hfolded.push hn append_later rfl
    rintro tree value ⟨⟩

theorem Sound.run_folded (hsound : h.Sound) (hfolded : h.table.Folded)
    (hadmits : h.Admits operations) : (h.run operations).table.Folded := by
  induction operations generalizing h with
  | nil => exact hfolded
  | cons operation operations ih =>
    obtain ⟨⟨hpermitted, hinside⟩, hrest⟩ := hadmits
    exact ih (hsound.perform hpermitted) (hsound.perform_folded hfolded hinside) hrest

/-- The constants of a new table are folded. -/
theorem start_folded : start.table.Folded := by
  have hbare : bare.table.Folded := by
    intro k e tree value he
    simp [bare, SymbolTable.bare] at he
  have hadmits : bare.Admits predefined :=
    ⟨⟨trivial, trivial⟩, ⟨trivial, trivial⟩, ⟨trivial, rfl⟩, ⟨trivial, rfl⟩, ⟨trivial, trivial⟩,
      trivial⟩
  exact Sound.bare.run_folded hbare hadmits

end History

/-! ### Values in range -/

/-- The number behind the minus signs of a constant is one of its numbers. -/
theorem base_number_mem {c : Constant} {l : Location} {scope : Nat} {v : Int}
    (h : c.base = .number l scope v) : v ∈ c.numbers := by
  induction c with
  | negated l' scope' operand ih => exact ih h
  | number l' scope' v' =>
    cases h
    exact List.mem_singleton_self v
  | named l' scope' n => cases h
  | error l' scope' => cases h
  | foreign fragment => cases h

theorem sign_cases (n : Nat) : (-1 : Int) ^ n = 1 ∨ (-1 : Int) ^ n = -1 := by
  induction n with
  | zero => exact .inl rfl
  | succ n ih =>
    rcases ih with h | h
    · exact .inr (by rw [Int.pow_succ, h]; rfl)
    · exact .inl (by rw [Int.pow_succ, h]; rfl)

/-- The value of a constant is at most as far from zero as a number may be. -/
theorem Folded.value_inRange (hfolded : t.Folded) (hbounded : t.Bounded) (k : Nat) (e : Entry)
    (tree : Constant) (v : Int) (he : t.entries[k]? = some e)
    (hmeaning : e.meaning = .constant tree (some v)) : -(maxNumber : Int) ≤ v ∧ v ≤ maxNumber := by
  induction k using Nat.strongRecOn generalizing e tree v with
  | ind k ih =>
    obtain ⟨-, hwritten, hvalue⟩ := hfolded k e tree (some v) he hmeaning
    obtain ⟨b, hb, rfl⟩ := Option.map_eq_some_iff.mp hvalue.symm
    have hbase : -(maxNumber : Int) ≤ b ∧ b ≤ maxNumber := by
      rcases hwritten.base_cases with ⟨l, n, hn⟩ | ⟨l, n, hn⟩ | ⟨l, hn⟩
      · rw [hn] at hb
        obtain rfl := Option.some.inj hb
        have hnumbers := hbounded k e he
        rw [hmeaning] at hnumbers
        obtain ⟨hlow, hhigh⟩ := hnumbers n (base_number_mem hn)
        exact ⟨by omega, hhigh⟩
      · rw [hn] at hb
        obtain ⟨x, hx, hxvalue⟩ := Option.bind_eq_some_iff.mp hb
        obtain ⟨i, -, hi⟩ := Option.bind_eq_some_iff.mp hx
        rw [before_entries] at hi
        split at hi
        · rename_i hik
          obtain ⟨tree', hmeaning'⟩ := Entry.value?_eq_some.mp hxvalue
          exact ih i hik x tree' b hi hmeaning'
        · cases hi
      · rw [hn] at hb
        cases hb
    rcases sign_cases tree.negations with hsign | hsign
    · rw [hsign]
      omega
    · rw [hsign]
      omega

end PlZero.SymbolTable
