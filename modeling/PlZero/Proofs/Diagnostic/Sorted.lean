/-
  PlZero/Proofs/Diagnostic/Sorted.lean
  ====================================
  **A listing depends on little of the order of arrival.**  Diagnostics are listed by their
  keys, and those of one key as they arrived.  So two runs whose diagnostics of each key are
  the same list have the same listing (`Listing.sorted_eq`), however the diagnostics of
  different keys were interleaved, and they have the same diagnostics the same number of times
  (`perm_of_atKey`).
-/
import Mathlib.Data.List.Sort
import PlZero.Diagnostic.Listing

namespace PlZero

/-- The diagnostics of one key, in the order of arrival. -/
def atKey (k : Int × Int) (ds : List Diagnostic) : List Diagnostic :=
  ds.filter fun d => decide (d.key = k)

theorem mem_atKey {k : Int × Int} {d : Diagnostic} {ds : List Diagnostic} :
    d ∈ atKey k ds ↔ d ∈ ds ∧ d.key = k := by
  simp [atKey]

@[simp] theorem atKey_append (k : Int × Int) (ds es : List Diagnostic) :
    atKey k (ds ++ es) = atKey k ds ++ atKey k es := List.filter_append _ _

theorem atKey_cons_self (d : Diagnostic) (ds : List Diagnostic) :
    atKey d.key (d :: ds) = d :: atKey d.key ds := by
  simp [atKey]

theorem atKey_cons_ne {k : Int × Int} {d : Diagnostic} (h : d.key ≠ k) (ds : List Diagnostic) :
    atKey k (d :: ds) = atKey k ds := by
  simp [atKey, h]

/-! ### The order of a listing -/

namespace Diagnostic

theorem precedes_iff {d e : Diagnostic} :
    d.precedes e = true ↔ d.key.1 < e.key.1 ∨ d.key.1 = e.key.1 ∧ d.key.2 ≤ e.key.2 := by
  simp [precedes]

theorem precedes_trans (d e f : Diagnostic) (h : d.precedes e = true) (h' : e.precedes f = true) :
    d.precedes f = true := by
  rw [precedes_iff] at *
  omega

theorem precedes_total (d e : Diagnostic) : (d.precedes e || e.precedes d) = true := by
  rw [Bool.or_eq_true, precedes_iff, precedes_iff]
  omega

theorem precedes_of_key_eq {d e : Diagnostic} (h : d.key = e.key) : d.precedes e = true := by
  rw [precedes_iff, h]
  exact .inr ⟨rfl, Int.le_refl _⟩

theorem key_eq_of_precedes {d e : Diagnostic} (h : d.precedes e = true)
    (h' : e.precedes d = true) : d.key = e.key := by
  rw [precedes_iff] at h h'
  apply Prod.ext
  · omega
  · omega

end Diagnostic

theorem atKey_pairwise (k : Int × Int) (ds : List Diagnostic) :
    (atKey k ds).Pairwise fun d e => d.precedes e = true := by
  apply List.pairwise_of_forall_mem_list
  intro d hd e he
  apply Diagnostic.precedes_of_key_eq
  rw [(mem_atKey.mp hd).2, (mem_atKey.mp he).2]

/-- Sorting keeps the diagnostics of one key in their order. -/
theorem atKey_sorted (k : Int × Int) (ds : List Diagnostic) :
    atKey k (Listing.sorted ds) = atKey k ds := by
  have hperm : (atKey k (Listing.sorted ds)).Perm (atKey k ds) :=
    (List.mergeSort_perm ds Diagnostic.precedes).filter _
  have hsublist : (atKey k ds).Sublist (Listing.sorted ds) :=
    List.sublist_mergeSort Diagnostic.precedes_trans Diagnostic.precedes_total
      (atKey_pairwise k ds) List.filter_sublist
  have hkeep : atKey k (atKey k ds) = atKey k ds := by simp [atKey]
  have hsub : (atKey k ds).Sublist (atKey k (Listing.sorted ds)) := by
    rw [← hkeep]
    exact hsublist.filter _
  exact (hsub.eq_of_length hperm.length_eq.symm).symm

/-- Sorted diagnostics are determined by those of each key. -/
theorem eq_of_atKey {ds es : List Diagnostic}
    (hds : ds.Pairwise fun d e => d.precedes e = true)
    (hes : es.Pairwise fun d e => d.precedes e = true)
    (h : ∀ k, atKey k ds = atKey k es) : ds = es := by
  induction ds generalizing es with
  | nil =>
    cases es with
    | nil => rfl
    | cons e es =>
      have hkey := h e.key
      rw [atKey_cons_self] at hkey
      cases hkey
  | cons d ds ih =>
    cases es with
    | nil =>
      have hkey := h d.key
      rw [atKey_cons_self] at hkey
      cases hkey
    | cons e es =>
      rw [List.pairwise_cons] at hds hes
      -- each of the first diagnostics is found in the other list, so their keys are the same
      have hle : ∀ {a b : Diagnostic} {as bs : List Diagnostic},
          (∀ x ∈ as, a.precedes x = true) → atKey b.key (a :: as) = atKey b.key (b :: bs) →
          a.precedes b = true := by
        intro a b as bs has hab
        rw [atKey_cons_self] at hab
        have hmem : b ∈ a :: as := (mem_atKey.mp (hab ▸ List.mem_cons_self)).1
        rcases List.mem_cons.mp hmem with rfl | hmem
        · exact Diagnostic.precedes_of_key_eq rfl
        · exact has b hmem
      have hde : d.precedes e = true := hle hds.1 (h e.key)
      have hed : e.precedes d = true := hle hes.1 (h d.key).symm
      have hkey : d.key = e.key := Diagnostic.key_eq_of_precedes hde hed
      have hfirst := h d.key
      rw [atKey_cons_self, hkey, atKey_cons_self] at hfirst
      obtain ⟨rfl, -⟩ := List.cons.inj hfirst
      have hrest : ds = es := by
        apply ih hds.2 hes.2
        intro k
        have hk := h k
        by_cases hdk : d.key = k
        · subst hdk
          rw [atKey_cons_self, atKey_cons_self] at hk
          exact (List.cons.inj hk).2
        · rw [atKey_cons_ne hdk, atKey_cons_ne hdk] at hk
          exact hk
      rw [hrest]

theorem Listing.sorted_eq {ds es : List Diagnostic} (h : ∀ k, atKey k ds = atKey k es) :
    Listing.sorted ds = Listing.sorted es := by
  apply eq_of_atKey
  · exact List.pairwise_mergeSort Diagnostic.precedes_trans Diagnostic.precedes_total ds
  · exact List.pairwise_mergeSort Diagnostic.precedes_trans Diagnostic.precedes_total es
  · intro k
    rw [atKey_sorted, atKey_sorted, h]

theorem Listing.render_eq (source : Array String) {ds es : List Diagnostic}
    (h : ∀ k, atKey k ds = atKey k es) : render source ds = render source es := by
  rw [render, render, sorted_eq h]

theorem perm_of_atKey {ds es : List Diagnostic} (h : ∀ k, atKey k ds = atKey k es) :
    ds.Perm es := by
  have hds := List.mergeSort_perm ds Diagnostic.precedes
  have hes := List.mergeSort_perm es Diagnostic.precedes
  have heq : ds.mergeSort Diagnostic.precedes = es.mergeSort Diagnostic.precedes :=
    Listing.sorted_eq h
  rw [heq] at hds
  exact hds.symm.trans hes

end PlZero
