import Mathlib.Order.Bounds.Basic
import StatementQuery.Proofs.DecodedStatements

/-
  What a mapping knows of its entries.

  The kinds above a kind form a chain, so two kinds have a
  least kind above both.  Reading the patterns of an entry one
  after the other, a mapping keeps the kind of their snaks and
  the least kinds above those of their subjects and of their
  values.  Entries are accepted exactly if their patterns are
  statements with snaks of one kind.

  Key definitions include:
    * `Term.IsStatement`
    * `Term.Carries`
    * `Term.subjectKinds`
    * `Term.valueKinds`
    * `Registration.Coherent`
    * `Entry.Records`

  Main declarations:
    * `Kind.join_le_iff`
    * `Mapping.sums_summarizeAll`
    * `Mapping.exists_summarizeAll_iff`
    * `Mapping.build_records`
-/

------------------------------------------------------------
-- The Least Kind Above Two Kinds
------------------------------------------------------------

namespace StatementQuery

namespace Kind

/- Along a lineage kinds get wider. -/
theorem pairwise_lineage
    (k : Kind) :
    k.lineage.Pairwise (· ≤ ·) := by
  cases k <;> decide

/- The join is the first kind of a lineage above another. -/
theorem exists_lineage_eq
    (k l : Kind) :
    ∃ lower upper,
      k.lineage = lower ++ k.join l :: upper ∧
        l ≤ k.join l ∧ ∀ m ∈ lower, ¬ l ≤ m := by
  have hRoot : (k.lineage.find? (l ≤ ·)).isSome = true :=
    List.find?_isSome.mpr
      ⟨.term, k.le_term, decide_eq_true l.le_term⟩
  rcases Option.isSome_iff_exists.mp hRoot with ⟨m, hm⟩
  have hJoin : k.join l = m := by
    rw [join, hm, Option.getD_some]
  rcases List.find?_eq_some_iff_append.mp hm with
    ⟨hAbove, lower, upper, hLineage, hLower⟩
  refine ⟨lower, upper, hJoin ▸ hLineage, ?_, ?_⟩
  · rw [hJoin]
    exact of_decide_eq_true hAbove
  · intro n hn
    simpa using hLower n hn

/- The join is below exactly the kinds above both. -/
theorem join_le_iff
    (k l m : Kind) :
    k.join l ≤ m ↔ k ≤ m ∧ l ≤ m := by
  rcases exists_lineage_eq k l with
    ⟨lower, upper, hLineage, hAbove, hLower⟩
  have hFirst : k ≤ k.join l := by
    have hMem : k.join l ∈ k.lineage := by
      rw [hLineage]
      simp
    exact hMem
  constructor
  · intro h
    exact ⟨le_trans hFirst h, le_trans hAbove h⟩
  · rintro ⟨hk, hl⟩
    have hMem : m ∈ k.lineage := hk
    have hOrder := pairwise_lineage k
    rw [hLineage] at hMem hOrder
    -- No kind before the join is above the other kind.
    rcases List.mem_append.mp hMem with hBefore | hAfter
    · exact absurd hl (hLower m hBefore)
    · rcases List.mem_cons.mp hAfter with rfl | hUpper
      · exact le_refl _
      · exact
          (List.pairwise_cons.mp
            (List.pairwise_append.mp hOrder).2.1).1 m hUpper

/- The join is the least kind above the kinds of both sets. -/
theorem isLUB_join
    {s t : Set Kind}
    {k l : Kind}
    (hs : IsLUB s k)
    (ht : IsLUB t l) :
    IsLUB (s ∪ t) (k.join l) := by
  apply isLUB_iff_le_iff.mpr
  intro m
  rw [join_le_iff, isLUB_le_iff hs, isLUB_le_iff ht,
    upperBounds_union]
  rfl

/- No kind is below all others. -/
theorem not_isLUB_empty
    (k : Kind) :
    ¬ IsLUB (∅ : Set Kind) k := by
  intro h
  have hLeast := isLUB_empty_iff.mp h
  have hSnak : k ≤ .statement := hLeast .statement
  have hItem : k ≤ .item := hLeast .item
  have hNone : ∀ k : Kind, k ≤ .statement → ¬ k ≤ .item := by
    intro k
    cases k <;> decide
  exact hNone k hSnak hItem

/- A kind is that of a datatype if it has the datatype. -/
theorem datatype?_eq_some_iff
    (k : Kind)
    (d : Datatype) :
    k.datatype? = some d ↔ d.kind = k := by
  rcases d with (_ | _ | _) | _ | _ | _ | _ | _ | _ <;>
    cases k <;> simp [datatype?, Datatype.kind, EntityKind.kind]

/- A kind is read as the kind of snaks that it is. -/
theorem snakKind?_eq_some_iff
    (k : Kind)
    (s : SnakKind) :
    k.snakKind? = some s ↔ k = s.kind := by
  cases s <;> cases k <;> simp [snakKind?, SnakKind.kind]

end Kind

namespace Mapping

/- The least kind above those of a set, if it has any. -/
def LeastAbove (ks : Set Kind) : Option Kind → Prop
| some k => IsLUB ks k
| none => ks = ∅

/- Joining is finding the least kind above both sets. -/
theorem leastAbove_joinOption
    {s t : Set Kind}
    {k l : Option Kind}
    (hs : LeastAbove s k)
    (ht : LeastAbove t l) :
    LeastAbove (s ∪ t) (joinOption k l) := by
  rcases k with _ | k
  · have hEmpty : s = ∅ := hs
    rw [hEmpty, Set.empty_union]
    exact ht
  · rcases l with _ | l
    · have hEmpty : t = ∅ := ht
      rw [hEmpty, Set.union_empty]
      exact hs
    · exact Kind.isLUB_join hs ht

/- The datatype of the least kind, if that has one. -/
theorem bind_datatype?_eq_some_iff
    {ks : Set Kind}
    {k : Option Kind}
    (h : LeastAbove ks k)
    (d : Datatype) :
    k.bind Kind.datatype? = some d ↔ IsLUB ks d.kind := by
  rcases k with _ | k
  · have hEmpty : ks = ∅ := h
    rw [hEmpty]
    exact iff_of_false nofun (Kind.not_isLUB_empty d.kind)
  · have hLeast : IsLUB ks k := h
    rw [Option.bind_some, Kind.datatype?_eq_some_iff]
    constructor
    · rintro rfl
      exact hLeast
    · intro hKind
      exact hKind.unique hLeast

end Mapping

end StatementQuery

------------------------------------------------------------
-- Statement Patterns
------------------------------------------------------------

namespace StatementQuery

namespace Term

/- A statement that is built from a subject and a snak. -/
structure IsStatement (t subject snak : Term) : Prop where
  kind : t.kind = .statement
  args : t.args? = some [some subject, some snak]

/- A value snak that is built with a value. -/
structure Carries (snak value : Term) : Prop where
  kind : snak.kind = .valueSnak
  args : ∃ property, snak.args? = some [property, some value]

/- A statement has one subject and one snak. -/
theorem IsStatement.unique
    {t subject snak subject' snak' : Term}
    (h : t.IsStatement subject snak)
    (h' : t.IsStatement subject' snak') :
    subject = subject' ∧ snak = snak' := by
  have hArgs := h.args.symm.trans h'.args
  simpa using hArgs

/- The parts of a pattern are those it is built from. -/
theorem statementParts?_eq_some_iff
    {t : Term}
    (ht : t.WellFormed)
    (subject snak : Term) :
    t.statementParts? = some (subject, snak) ↔
      t.IsStatement subject snak := by
  unfold statementParts?
  constructor
  · intro h
    split at h
    · rename_i hKind
      split at h
      · rename_i s q rest hArgs
        cases h
        have hLength :=
          (admits_args? (c := .statement) ht.shaped hKind
            hArgs).length_eq
        have hRest : rest = [] := by
          simpa [Constructor.slots] using hLength
        exact ⟨hKind, hRest ▸ hArgs⟩
      · cases h
    · cases h
  · intro h
    rw [if_pos h.kind, h.args]

/- The value of a value snak is the one it is built with. -/
theorem snakValue?_eq_some_iff
    {snak : Term}
    (hSnak : snak.WellShaped)
    (hKind : snak.kind = .valueSnak)
    (value : Term) :
    snak.snakValue? = some value ↔ snak.Carries value := by
  unfold snakValue?
  constructor
  · intro h
    split at h
    · rename_i property w rest hArgs
      cases h
      have hLength :=
        (admits_args? (c := .valueSnak) hSnak hKind hArgs).length_eq
      have hRest : rest = [] := by
        simpa [Constructor.slots] using hLength
      exact ⟨hKind, property, hRest ▸ hArgs⟩
    · cases h
  · intro h
    rcases h.args with ⟨property, hArgs⟩
    rw [hArgs]

/- The snak of a well-formed statement is one. -/
theorem IsStatement.spec_snak
    {t subject snak : Term}
    (ht : t.WellFormed)
    (h : t.IsStatement subject snak) :
    snak.WellShaped ∧ snak.kind ≤ .snak := by
  have hSlots :=
    admits_args? (c := .statement) ht.shaped h.kind h.args
  rcases hSlots with _ | ⟨_, _ | ⟨hSnak, _⟩⟩
  have hWithin : Side.Within (fun _ => True) (some t) := by
    rintro u ⟨⟩
    exact ⟨ht.shaped, fun _ _ => trivial⟩
  exact ⟨(within_args hWithin h.args (by simp) snak rfl).1, hSnak⟩

/- The kinds of the subjects of patterns. -/
def subjectKinds (patterns : List Term) : Set Kind :=
  {k | ∃ p ∈ patterns, ∃ subject snak,
    p.IsStatement subject snak ∧ subject.kind = k}

/- The kinds of the values that patterns carry. -/
def valueKinds (patterns : List Term) : Set Kind :=
  {k | ∃ p ∈ patterns, ∃ subject snak value,
    p.IsStatement subject snak ∧ snak.Carries value ∧
      value.kind = k}

/- One pattern has one subject. -/
theorem IsStatement.subjectKinds_eq
    {p subject snak : Term}
    (h : p.IsStatement subject snak) :
    subjectKinds [p] = {subject.kind} := by
  ext k
  constructor
  · rintro ⟨q, hq, subject', snak', h', rfl⟩
    cases List.mem_singleton.mp hq
    rw [(h.unique h').1]
    rfl
  · rintro rfl
    exact ⟨p, List.mem_singleton_self p, subject, snak, h, rfl⟩

/- The values of one pattern are those that its snak carries. -/
theorem IsStatement.valueKinds_eq
    {p subject snak : Term}
    (h : p.IsStatement subject snak) :
    valueKinds [p] =
      {k | ∃ value, snak.Carries value ∧ value.kind = k} := by
  ext k
  constructor
  · rintro ⟨q, hq, subject', snak', value, h', hCarries, rfl⟩
    cases List.mem_singleton.mp hq
    rw [← (h.unique h').2] at hCarries
    exact ⟨value, hCarries, rfl⟩
  · rintro ⟨value, hCarries, rfl⟩
    exact
      ⟨p, List.mem_singleton_self p, subject, snak, value, h,
        hCarries, rfl⟩

theorem subjectKinds_append
    (ps qs : List Term) :
    subjectKinds (ps ++ qs) = subjectKinds ps ∪ subjectKinds qs := by
  ext k
  simp only [subjectKinds, List.mem_append, or_and_right, exists_or]
  rfl

theorem valueKinds_append
    (ps qs : List Term) :
    valueKinds (ps ++ qs) = valueKinds ps ∪ valueKinds qs := by
  ext k
  simp only [valueKinds, List.mem_append, or_and_right, exists_or]
  rfl

end Term

end StatementQuery

------------------------------------------------------------
-- Summaries Of Patterns
------------------------------------------------------------

namespace StatementQuery

namespace Mapping

/- A pattern that is a statement with a snak of a kind. -/
def HasSnak (k : SnakKind) (pattern : Term) : Prop :=
  ∃ subject snak,
    pattern.IsStatement subject snak ∧ snak.kind = k.kind

/- What is known of an entry is what its patterns say. -/
structure Summary.Sums (s : Summary) (patterns : List Term) : Prop where
  snakKind : ∀ p ∈ patterns, HasSnak s.snakKind p
  subjectKind : IsLUB (Term.subjectKinds patterns) s.subjectKind
  valueKind : LeastAbove (Term.valueKinds patterns) s.valueKind

variable {index : Nat} {p : Term} {ps : List Term} {s t : Summary}

/- One pattern is summed up, if it has a snak of a kind. -/
theorem exists_summarize_iff
    (index : Nat)
    (hp : p.WellFormed) :
    (∃ s, summarize index p = .ok s) ↔ ∃ k, HasSnak k p := by
  unfold summarize
  constructor
  · rintro ⟨s, h⟩
    split at h
    · cases h
    · rename_i subject snak hParts
      split at h
      · cases h
      · rename_i k hKind
        exact
          ⟨k, subject, snak,
            (Term.statementParts?_eq_some_iff hp _ _).mp hParts,
            (Kind.snakKind?_eq_some_iff _ _).mp hKind⟩
  · rintro ⟨k, subject, snak, hStatement, hKind⟩
    rw [(Term.statementParts?_eq_some_iff hp _ _).mpr hStatement]
    simp only
    rw [(Kind.snakKind?_eq_some_iff _ _).mpr hKind]
    exact ⟨_, rfl⟩

/- The value that a snak carries is the only one it has. -/
theorem leastAbove_carried
    {snak : Term}
    {k : SnakKind}
    (hSnak : snak.WellShaped)
    (hKind : snak.kind = k.kind) :
    LeastAbove {l | ∃ value, snak.Carries value ∧ value.kind = l}
      (if k = .value then snak.snakValue?.map Term.kind
        else none) := by
  by_cases hk : k = .value
  · rw [if_pos hk]
    rw [hk] at hKind
    have hKnown := Term.snakValue?_eq_some_iff hSnak hKind
    cases hCarried : snak.snakValue? with
    | none =>
        apply Set.eq_empty_iff_forall_notMem.mpr
        rintro l ⟨value, hCarries, _⟩
        rw [(hKnown value).mpr hCarries] at hCarried
        cases hCarried
    | some value =>
        have hOnly :
            {l | ∃ value, snak.Carries value ∧ value.kind = l} =
              {value.kind} := by
          ext l
          constructor
          · rintro ⟨value', hCarries, rfl⟩
            rw [(hKnown value').mpr hCarries] at hCarried
            cases hCarried
            rfl
          · rintro rfl
            exact ⟨value, (hKnown value).mp hCarried, rfl⟩
        rw [hOnly]
        exact isLUB_singleton
  · rw [if_neg hk]
    apply Set.eq_empty_iff_forall_notMem.mpr
    rintro l ⟨value, hCarries, _⟩
    have hKinds := hKind.symm.trans hCarries.kind
    cases k with
    | value => exact hk rfl
    | someValue => cases hKinds
    | noValue => cases hKinds

/- What one pattern says. -/
theorem sums_summarize
    (hp : p.WellFormed)
    (h : summarize index p = .ok s) :
    s.Sums [p] := by
  unfold summarize at h
  split at h
  · cases h
  · rename_i subject snak hParts
    split at h
    · cases h
    · rename_i k hKind
      cases h
      have hStatement :=
        (Term.statementParts?_eq_some_iff hp _ _).mp hParts
      have hSnak := (Kind.snakKind?_eq_some_iff _ _).mp hKind
      refine ⟨?_, ?_, ?_⟩
      · intro q hq
        cases List.mem_singleton.mp hq
        exact ⟨subject, snak, hStatement, hSnak⟩
      · rw [hStatement.subjectKinds_eq]
        exact isLUB_singleton
      · rw [hStatement.valueKinds_eq]
        exact
          leastAbove_carried (hStatement.spec_snak hp).1 hSnak

/- What two parts of the patterns say together. -/
theorem sums_join
    {u : Summary}
    {qs : List Term}
    (hs : s.Sums ps)
    (ht : t.Sums qs)
    (h : s.join index t = .ok u) :
    u.Sums (ps ++ qs) := by
  unfold Summary.join at h
  split at h
  · rename_i hKind
    cases h
    refine ⟨?_, ?_, ?_⟩
    · intro p hp
      rcases List.mem_append.mp hp with hp | hp
      · exact hs.snakKind p hp
      · rw [hKind]
        exact ht.snakKind p hp
    · rw [Term.subjectKinds_append]
      exact Kind.isLUB_join hs.subjectKind ht.subjectKind
    · rw [Term.valueKinds_append]
      exact leastAbove_joinOption hs.valueKind ht.valueKind
  · cases h

/- Parts with snaks of one kind are taken together. -/
theorem exists_join
    (index : Nat)
    (h : s.snakKind = t.snakKind) :
    ∃ u, s.join index t = .ok u ∧ u.snakKind = s.snakKind := by
  rw [Summary.join, if_pos h]
  exact ⟨_, rfl, rfl⟩

/- Reading on keeps what was read before. -/
theorem sums_summarizeFrom
    {u : Summary}
    {qs : List Term}
    (hqs : ∀ q ∈ qs, q.WellFormed)
    (hs : s.Sums ps)
    (h : summarizeFrom index s qs = .ok u) :
    u.Sums (ps ++ qs) := by
  induction qs generalizing s ps with
  | nil =>
      cases h
      rw [List.append_nil]
      exact hs
  | cons q qs ih =>
      rcases exists_of_bind_eq_ok h with ⟨t, hRead, h⟩
      rcases exists_of_bind_eq_ok h with ⟨joined, hJoin, h⟩
      have hFirst := sums_summarize (hqs q (by simp)) hRead
      have hAll :=
        ih (fun r hr => hqs r (by simp [hr]))
          (sums_join hs hFirst hJoin) h
      rw [List.append_assoc] at hAll
      exact hAll

/- What all patterns of an entry say. -/
theorem sums_summarizeAll
    (hps : ∀ p ∈ ps, p.WellFormed)
    (h : summarizeAll index ps = .ok s) :
    s.Sums ps := by
  cases ps with
  | nil => cases h
  | cons p ps =>
      rcases exists_of_bind_eq_ok h with ⟨first, hFirst, h⟩
      have hOne := sums_summarize (hps p (by simp)) hFirst
      exact
        sums_summarizeFrom (fun q hq => hps q (by simp [hq])) hOne h

/- A pattern has a snak of one kind only. -/
theorem HasSnak.unique
    {k l : SnakKind}
    (hk : HasSnak k p)
    (hl : HasSnak l p) :
    k = l := by
  rcases hk with ⟨subject, snak, hStatement, hKind⟩
  rcases hl with ⟨subject', snak', hStatement', hKind'⟩
  rw [← (hStatement.unique hStatement').2, hKind] at hKind'
  revert hKind'
  cases k <;> cases l <;> simp [SnakKind.kind]

/- Patterns with snaks of the kind known so far are read on. -/
theorem exists_summarizeFrom_iff
    (index : Nat)
    {qs : List Term}
    (hqs : ∀ q ∈ qs, q.WellFormed) :
    (∃ u, summarizeFrom index s qs = .ok u) ↔
      ∀ q ∈ qs, HasSnak s.snakKind q := by
  induction qs generalizing s with
  | nil => simp [summarizeFrom]
  | cons q qs ih =>
      have hq := hqs q (by simp)
      have hRest := fun r hr => hqs r (List.mem_cons_of_mem q hr)
      constructor
      · rintro ⟨u, h⟩
        rcases exists_of_bind_eq_ok h with ⟨t, hRead, h⟩
        rcases exists_of_bind_eq_ok h with ⟨joined, hJoin, h⟩
        have hFirst :=
          (sums_summarize hq hRead).snakKind q (by simp)
        have hAll := (ih hRest).mp ⟨u, h⟩
        unfold Summary.join at hJoin
        split at hJoin
        · rename_i hKind
          cases hJoin
          rw [← hKind] at hFirst
          exact List.forall_mem_cons.mpr ⟨hFirst, hAll⟩
        · cases hJoin
      · intro h
        rcases List.forall_mem_cons.mp h with ⟨hFirst, hAll⟩
        rcases (exists_summarize_iff index hq).mpr ⟨_, hFirst⟩ with
          ⟨t, hRead⟩
        have hKind : s.snakKind = t.snakKind :=
          hFirst.unique
            ((sums_summarize hq hRead).snakKind q (by simp))
        rcases exists_join index hKind with
          ⟨joined, hJoin, hKept⟩
        rw [← hKept] at hAll
        rcases (ih hRest).mpr hAll with ⟨u, hu⟩
        refine ⟨u, ?_⟩
        simp only [summarizeFrom, hRead, bind, Except.bind, hJoin]
        exact hu

/-
  Patterns are summed up exactly if there are some, and all of
  them have a snak of one kind.
-/
theorem exists_summarizeAll_iff
    (index : Nat)
    (hps : ∀ p ∈ ps, p.WellFormed) :
    (∃ s, summarizeAll index ps = .ok s) ↔
      ps ≠ [] ∧ ∃ k, ∀ p ∈ ps, HasSnak k p := by
  cases ps with
  | nil => simp [summarizeAll]
  | cons p ps =>
      have hp := hps p (by simp)
      have hRest := fun q hq => hps q (List.mem_cons_of_mem p hq)
      constructor
      · rintro ⟨u, h⟩
        rcases exists_of_bind_eq_ok h with ⟨s, hRead, h⟩
        refine ⟨by simp, s.snakKind, ?_⟩
        exact List.forall_mem_cons.mpr
          ⟨(sums_summarize hp hRead).snakKind p (by simp),
            (exists_summarizeFrom_iff index hRest).mp ⟨u, h⟩⟩
      · rintro ⟨_, k, hAll⟩
        rcases List.forall_mem_cons.mp hAll with ⟨hFirst, hOthers⟩
        rcases (exists_summarize_iff index hp).mpr ⟨k, hFirst⟩ with
          ⟨s, hRead⟩
        have hKind : k = s.snakKind :=
          hFirst.unique
            ((sums_summarize hp hRead).snakKind p (by simp))
        rw [hKind] at hOthers
        rcases (exists_summarizeFrom_iff index hRest).mpr
            hOthers with
          ⟨u, hu⟩
        refine ⟨u, ?_⟩
        simp only [summarizeAll, hRead, bind, Except.bind]
        exact hu

end Mapping

end StatementQuery

------------------------------------------------------------
-- Entries And Their Registrations
------------------------------------------------------------

namespace StatementQuery

namespace Kind

/- The concrete kinds of snaks are the three there are. -/
theorem isConcrete_iff_of_le_snak
    {k : Kind}
    (hSnak : k ≤ .snak) :
    k.isConcrete = true ↔ ∃ s : SnakKind, k = s.kind := by
  constructor
  · intro h
    have hThree :
        k = .valueSnak ∨ k = .someValueSnak ∨
          k = .noValueSnak := by
      revert h hSnak
      cases k <;> decide
    rcases hThree with rfl | rfl | rfl
    · exact ⟨.value, rfl⟩
    · exact ⟨.someValue, rfl⟩
    · exact ⟨.noValue, rfl⟩
  · rintro ⟨s, rfl⟩
    cases s <;> rfl

end Kind

/-
  A registration whose patterns are statements with snaks of
  one concrete kind.
-/
structure Registration.Coherent (r : Registration) : Prop where
  nonempty : r.patterns ≠ []
  snaks :
    ∃ k : Kind, k.isConcrete = true ∧
      ∀ p ∈ r.patterns, ∃ subject snak,
        p.IsStatement subject snak ∧ snak.kind = k

/- What an entry takes over and infers from a registration. -/
structure Entry.Records
    (e : Entry)
    (index : Nat)
    (r : Registration) : Prop where
  id : e.id = index
  patterns : e.patterns = r.patterns
  emit : e.emit = r.emit
  snakKind : ∀ p ∈ r.patterns, Mapping.HasSnak e.snakKind p
  subjectKind : IsLUB (Term.subjectKinds r.patterns) e.subjectKind
  given : ∀ d, r.datatype = some d → e.datatype = some d
  inferred :
    r.datatype = none →
      ∀ d, e.datatype = some d ↔
        IsLUB (Term.valueKinds r.patterns) d.kind

namespace Mapping

variable {r : Registration} {rs : List Registration}

/- An entry is built exactly if its patterns agree. -/
theorem exists_entryOf_iff
    (index : Nat)
    (hr : ∀ p ∈ r.patterns, p.WellFormed) :
    (∃ e, entryOf index r = .ok e) ↔ r.Coherent := by
  have hEntry :
      (∃ e, entryOf index r = .ok e) ↔
        ∃ s, summarizeAll index r.patterns = .ok s := by
    constructor
    · rintro ⟨e, h⟩
      rcases exists_of_bind_eq_ok h with ⟨s, hs, _⟩
      exact ⟨s, hs⟩
    · rintro ⟨s, hs⟩
      simp only [entryOf, hs, bind, Except.bind]
      exact ⟨_, rfl⟩
  rw [hEntry, exists_summarizeAll_iff index hr]
  constructor
  · rintro ⟨hNonempty, k, hAll⟩
    exact ⟨hNonempty, k.kind, by cases k <;> rfl, hAll⟩
  · rintro ⟨hNonempty, k, hConcrete, hAll⟩
    rcases List.exists_mem_of_ne_nil _ hNonempty with ⟨p, hp⟩
    rcases hAll p hp with ⟨subject, snak, hStatement, rfl⟩
    have hSnak := (hStatement.spec_snak (hr p hp)).2
    rcases (Kind.isConcrete_iff_of_le_snak hSnak).mp
        hConcrete with
      ⟨s, hs⟩
    rw [hs] at hAll
    exact ⟨hNonempty, s, hAll⟩

/- What is known of an entry is what its patterns say. -/
theorem records_of_entryOf
    {index : Nat}
    {e : Entry}
    (hr : ∀ p ∈ r.patterns, p.WellFormed)
    (h : entryOf index r = .ok e) :
    e.Records index r := by
  rcases exists_of_bind_eq_ok h with ⟨s, hs, h⟩
  cases h
  have hSums := sums_summarizeAll hr hs
  constructor
  case id => rfl
  case patterns => rfl
  case emit => rfl
  case snakKind => exact hSums.snakKind
  case subjectKind => exact hSums.subjectKind
  case given =>
    intro d hGiven
    simp only [hGiven, Option.some_or]
  case inferred =>
    intro hNone d
    simp only [hNone, Option.none_or]
    exact bind_datatype?_eq_some_iff hSums.valueKind d

/- Entries are built exactly if each registration is coherent. -/
theorem exists_entriesFrom_iff
    (index : Nat)
    (hrs : ∀ r ∈ rs, ∀ p ∈ r.patterns, p.WellFormed) :
    (∃ es, entriesFrom index rs = .ok es) ↔
      ∀ r ∈ rs, r.Coherent := by
  induction rs generalizing index with
  | nil => simp [entriesFrom]
  | cons r rs ih =>
      have hFirst := exists_entryOf_iff index (hrs r (by simp))
      have hRest :=
        ih (index + 1)
          fun r' hr' => hrs r' (List.mem_cons_of_mem r hr')
      rw [List.forall_mem_cons, ← hFirst, ← hRest]
      constructor
      · rintro ⟨es, h⟩
        rcases exists_of_bind_eq_ok h with ⟨e, he, h⟩
        rcases exists_of_bind_eq_ok h with ⟨others, hOthers, _⟩
        exact ⟨⟨e, he⟩, others, hOthers⟩
      · rintro ⟨⟨e, he⟩, others, hOthers⟩
        refine ⟨e :: others, ?_⟩
        simp only [entriesFrom, he, hOthers, bind, Except.bind]

/- Entries follow their registrations one by one. -/
theorem records_of_entriesFrom
    {index : Nat}
    {es : List Entry}
    (hrs : ∀ r ∈ rs, ∀ p ∈ r.patterns, p.WellFormed)
    (h : entriesFrom index rs = .ok es) :
    List.Forall₂ (fun e (r, i) => e.Records i r) es
      (rs.zipIdx index) := by
  induction rs generalizing index es with
  | nil =>
      cases h
      exact .nil
  | cons r rs ih =>
      rcases exists_of_bind_eq_ok h with ⟨e, he, h⟩
      rcases exists_of_bind_eq_ok h with ⟨others, hOthers, h⟩
      cases h
      rw [List.zipIdx_cons]
      exact .cons
        (records_of_entryOf (hrs r (by simp)) he)
        (ih (fun r' hr' => hrs r' (List.mem_cons_of_mem r hr'))
          hOthers)

/-
  A mapping is built exactly if every registration is coherent.
  Its entries are the registrations in their order, counted
  from zero, each with the least kind above its subjects and,
  unless it was given, with the datatype of the least kind
  above its values.
-/
theorem build_records
    (codec : Codec)
    (registrations : List Registration)
    (hPatterns :
      ∀ r ∈ registrations, ∀ p ∈ r.patterns, p.WellFormed) :
    ((∃ m, build codec registrations = .ok m) ↔
        ∀ r ∈ registrations, r.Coherent) ∧
      ∀ m, build codec registrations = .ok m →
        m.codec = codec ∧
          List.Forall₂ (fun e (r, i) => e.Records i r) m.entries
            registrations.zipIdx := by
  constructor
  · rw [← exists_entriesFrom_iff 0 hPatterns]
    constructor
    · rintro ⟨m, h⟩
      rcases exists_of_bind_eq_ok h with ⟨es, hes, _⟩
      exact ⟨es, hes⟩
    · rintro ⟨es, hes⟩
      refine ⟨⟨es, codec⟩, ?_⟩
      simp only [build, hes, bind, Except.bind]
  · intro m h
    rcases exists_of_bind_eq_ok h with ⟨es, hes, h⟩
    cases h
    exact ⟨rfl, records_of_entriesFrom hPatterns hes⟩

/-
  Words said of items, and one identifier of a property: a
  template and a statement without variables.
-/
def labels : Registration where
  patterns :=
    [.app .statement
      [some (.var ⟨"s", .item⟩),
        some
          (.app .valueSnak
            [some (.var ⟨"p", .property⟩),
              some (.var ⟨"v", .string⟩)])],
      .ground
        (.statement
          { subject :=
              ⟨.property, ⟨"http://www.wikidata.org/entity/P31"⟩⟩
            snak :=
              .value ⟨"http://www.wikidata.org/entity/P1629"⟩
                (.externalId "Q21503252") })]
  emit := fun _ _ => pure none

/- What has no value, with a snak that is not taken apart. -/
def missing : Registration where
  patterns :=
    [.app .statement
      [some (.var ⟨"s", .lexeme⟩),
        some (.var ⟨"q", .noValueSnak⟩)]]
  emit := fun _ _ => pure none

theorem build_records_labels :
    (∀ r ∈ [labels, missing], ∀ p ∈ r.patterns, p.WellFormed) ∧
      (∀ r ∈ [labels, missing], r.Coherent) ∧
      ∃ m, build .verbatim [labels, missing] = .ok m ∧
        m.entries.map
            (fun e => (e.id, e.subjectKind, e.datatype)) =
          [(0, .entity, some .string), (1, .lexeme, none)] ∧
        List.Forall₂ (fun e (r, i) => e.Records i r) m.entries
          [(labels, 0), (missing, 1)] := by
  have hPatterns :
      ∀ r ∈ [labels, missing], ∀ p ∈ r.patterns,
        p.WellFormed := by
    decide
  have hBuild :
      ((build .verbatim [labels, missing]).toOption.map
        fun m => m.entries.map
          fun e => (e.id, e.subjectKind, e.datatype)) =
        some
          [(0, .entity, some .string), (1, .lexeme, none)] := by
    decide +kernel
  rcases Option.map_eq_some_iff.mp hBuild with ⟨m, hm, hEntries⟩
  have hm := eq_ok_of_toOption hm
  have hRecords := build_records .verbatim _ hPatterns
  exact
    ⟨hPatterns, hRecords.1.mp ⟨m, hm⟩, m, hm, hEntries,
      (hRecords.2 m hm).2⟩

end Mapping

end StatementQuery
