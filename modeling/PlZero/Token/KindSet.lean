/-
  PlZero/Token/KindSet.lean
  =========================
  **Sets of kinds**, which say what can start a grammar rule or follow it.  A set
  is a word with one bit for each kind, so two sets are equal as soon as they hold
  the same kinds (`KindSet.ext_iff_mem`).
-/
import PlZero.Token.Kind

namespace PlZero

/-- A set of kinds: bit `i` tells whether the kind with index `i` belongs to it. -/
structure KindSet where
  bits : BitVec 44
  deriving DecidableEq, Repr, Inhabited

namespace KindSet

/-- Whether a kind belongs to a set. -/
def contains (s : KindSet) (k : Kind) : Bool := s.bits.getLsbD k.ctorIdx

instance : Membership Kind KindSet := ⟨fun s k => s.contains k = true⟩

instance (k : Kind) (s : KindSet) : Decidable (k ∈ s) :=
  inferInstanceAs (Decidable (s.contains k = true))

/-- The set without members. -/
def empty : KindSet := ⟨0#44⟩

/-- The set of one kind. -/
def singleton (k : Kind) : KindSet := ⟨BitVec.twoPow 44 k.ctorIdx⟩

/-- The set of the kinds that belong to either set. -/
def union (s t : KindSet) : KindSet := ⟨s.bits ||| t.bits⟩

instance : EmptyCollection KindSet := ⟨empty⟩

instance : Singleton Kind KindSet := ⟨singleton⟩

instance : Union KindSet := ⟨union⟩

instance : Insert Kind KindSet := ⟨fun k s => singleton k ∪ s⟩

/-- The set of the kinds in a list. -/
def ofList (ks : List Kind) : KindSet := ks.foldl (fun s k => s ∪ singleton k) ∅

/-- The members of a set, in the order of declaration. -/
def toList (s : KindSet) : List Kind := Kind.all.filter s.contains

/-- The number of members. -/
def size (s : KindSet) : Nat := s.toList.length

/-- The union of a set and several others. -/
def unionAll (s : KindSet) (items : List KindSet) : KindSet := items.foldl union s

/-- The texts in the order of their code points, between `left` and `right`. -/
def listed (left right : String) (texts : List String) : String :=
  left ++ ", ".intercalate (texts.mergeSort fun a b => decide (a ≤ b)) ++ right

/-- A set shown by the spellings of its members. -/
def text (s : KindSet) : String := listed "\x7b" "\x7d" (s.toList.map Kind.spelling)

/-- The names of the members, in the order of their code points. -/
def names (s : KindSet) : List String :=
  (s.toList.map Kind.name).mergeSort fun a b => decide (a ≤ b)

/-- A set shown by the names of its members. -/
def debugText (s : KindSet) : String := "TokenSet(" ++ ", ".intercalate s.names ++ ")"

/-! ### Membership -/

theorem mem_def {k : Kind} {s : KindSet} : k ∈ s ↔ s.contains k = true := Iff.rfl

theorem ctorIdx_lt (k : Kind) : k.ctorIdx < 44 := by cases k <;> decide

theorem ctorIdx_inj {j k : Kind} : j.ctorIdx = k.ctorIdx ↔ j = k := by
  constructor
  · intro h
    have key : ∀ i : Kind, Kind.all[i.ctorIdx]? = some i := by intro i; cases i <;> rfl
    exact Option.some.inj ((key j).symm.trans (h ▸ key k))
  · rintro rfl; rfl

@[simp] theorem not_mem_empty (k : Kind) : k ∉ (∅ : KindSet) := by
  intro h
  have h' : (0#44).getLsbD k.ctorIdx = true := h
  simp at h'

@[simp] theorem mem_singleton {j k : Kind} : j ∈ singleton k ↔ j = k := by
  have hj := ctorIdx_lt j
  have hk := ctorIdx_lt k
  simp [mem_def, contains, singleton, BitVec.getLsbD_twoPow, ctorIdx_inj, eq_comm, hk]

@[simp] theorem mem_union {k : Kind} {s t : KindSet} : k ∈ s ∪ t ↔ k ∈ s ∨ k ∈ t := by
  show (s.bits ||| t.bits).getLsbD k.ctorIdx = true ↔ _
  simp [mem_def, contains]

@[simp] theorem mem_braces {j k : Kind} : j ∈ ({k} : KindSet) ↔ j = k := mem_singleton

@[simp] theorem mem_insert {j k : Kind} {s : KindSet} : j ∈ insert k s ↔ j = k ∨ j ∈ s := by
  show j ∈ singleton k ∪ s ↔ _
  rw [mem_union, mem_singleton]

/-- Two sets with the same members are the same set. -/
theorem ext_iff_mem {s t : KindSet} : s = t ↔ ∀ k, k ∈ s ↔ k ∈ t := by
  constructor
  · rintro rfl k; exact Iff.rfl
  · intro h
    have bit : ∀ i, i < 44 → s.bits.getLsbD i = t.bits.getLsbD i := by
      intro i hi
      have named : ∃ k : Kind, k.ctorIdx = i := by
        have indexed : ∀ n : Fin 44, Kind.all.any (fun k => k.ctorIdx == n.val) = true := by decide
        obtain ⟨k, _, hk⟩ := List.any_eq_true.mp (indexed ⟨i, hi⟩)
        exact ⟨k, beq_iff_eq.mp hk⟩
      obtain ⟨k, rfl⟩ := named
      exact Bool.eq_iff_iff.mpr (h k)
    cases s; cases t
    congr 1
    exact BitVec.eq_of_getLsbD_eq fun i hi => bit i hi

end KindSet

end PlZero
