import Mathlib.Order.Basic
import StatementQuery.Kind

/-
  Kinds as a partial order.

  The lineage of a kind ends in the lineage of every kind
  above it.  Two kinds with a kind below both are therefore
  comparable: the kinds above a kind form a chain.

  Main declarations:
    * `Kind.lineage_suffix`
    * `Kind.comparable_of_le`
    * `Kind.meet_eq_some_iff`
-/

------------------------------------------------------------
-- The Order
------------------------------------------------------------

namespace StatementQuery

namespace Kind

/- The lineage of a kind starts with the kind itself. -/
theorem lineage_head?
    (k : Kind) :
    k.lineage.head? = some k := by
  cases k <;> rfl

/- Kinds are told apart by their lineages. -/
theorem lineage_injective
    {k l : Kind}
    (h : k.lineage = l.lineage) :
    k = l := by
  have hHead : some k = some l := by
    rw [← lineage_head? k, ← lineage_head? l, h]
  exact Option.some.inj hHead

/- A lineage ends in the lineage of each of its members. -/
theorem lineage_suffix
    {k l : Kind}
    (h : k ≤ l) :
    l.lineage <:+ k.lineage := by
  have hAll : ∀ m ∈ k.lineage, m.lineage <:+ k.lineage := by
    cases k <;> decide
  exact hAll l h

instance : PartialOrder Kind where
  le_refl k := by
    cases k <;> decide
  le_trans k l m hkl hlm :=
    (lineage_suffix hkl).subset hlm
  lt_iff_le_not_ge k l := by
    constructor
    · rintro ⟨hNe, hLe⟩
      refine ⟨hLe, fun hGe => hNe ?_⟩
      apply lineage_injective
      exact
        ((lineage_suffix hGe).eq_of_length_le
          (lineage_suffix hLe).length_le)
    · rintro ⟨hLe, hNot⟩
      refine ⟨fun hEq => hNot ?_, hLe⟩
      exact hEq ▸ hLe
  le_antisymm k l hkl hlk := by
    apply lineage_injective
    exact
      ((lineage_suffix hlk).eq_of_length_le
        (lineage_suffix hkl).length_le)

/- Kinds above one kind are comparable. -/
theorem comparable_of_le
    {k l m : Kind}
    (hl : k ≤ l)
    (hm : k ≤ m) :
    l ≤ m ∨ m ≤ l := by
  rcases
      List.suffix_or_suffix_of_suffix
        (lineage_suffix hl) (lineage_suffix hm) with
    hSuffix | hSuffix
  · exact Or.inr
      (hSuffix.subset
        (List.mem_of_mem_head? (lineage_head? l)))
  · exact Or.inl
      (hSuffix.subset
        (List.mem_of_mem_head? (lineage_head? m)))

end Kind

end StatementQuery

------------------------------------------------------------
-- Meets
------------------------------------------------------------

namespace StatementQuery

namespace Kind

/- The meet is the lower of two comparable kinds. -/
theorem meet_eq_some_iff
    {k l m : Kind} :
    k.meet l = some m ↔
      (k ≤ l ∧ m = k) ∨ (l ≤ k ∧ m = l) := by
  unfold meet
  by_cases hkl : k ≤ l
  · by_cases hlk : l ≤ k
    · have hEq : k = l := le_antisymm hkl hlk
      subst hEq
      simp [eq_comm]
    · simp [hkl, hlk, eq_comm]
  · simp [hkl, eq_comm]

/- The meet lies below the first kind. -/
theorem meet_le_left
    {k l m : Kind}
    (h : k.meet l = some m) :
    m ≤ k := by
  rcases meet_eq_some_iff.mp h with ⟨_, rfl⟩ | ⟨hLe, rfl⟩
  · exact le_refl _
  · exact hLe

/- The meet lies below the second kind. -/
theorem meet_le_right
    {k l m : Kind}
    (h : k.meet l = some m) :
    m ≤ l := by
  rcases meet_eq_some_iff.mp h with ⟨hLe, rfl⟩ | ⟨_, rfl⟩
  · exact hLe
  · exact le_refl _

/- Kinds with a kind below both have a meet above it. -/
theorem exists_meet_of_le
    {k l m : Kind}
    (hl : k ≤ l)
    (hm : k ≤ m) :
    ∃ n, l.meet m = some n ∧ k ≤ n := by
  rcases comparable_of_le hl hm with hLe | hLe
  · exact ⟨l, meet_eq_some_iff.mpr (Or.inl ⟨hLe, rfl⟩), hl⟩
  · exact ⟨m, meet_eq_some_iff.mpr (Or.inr ⟨hLe, rfl⟩), hm⟩

/- Every term is of the root kind. -/
theorem le_term
    (k : Kind) :
    k ≤ .term := by
  cases k <;> decide

end Kind

end StatementQuery
