import StatementQuery.Proofs.StatementPatterns

/-
  Targets of filters that ask for no snaks of their parts.

  Bringing a fingerprint into normal form adds no leaf but the
  full and the empty one.  So what the check of a filter says
  of its leaves still holds of the filter that is built, and
  its targets are plain.  A statement that the filter accepts
  is one of those that some target asks for, and no mask rules
  out the entry of its snak.

  Key definitions include:
    * `Fingerprint.Leaves`
    * `Filter.Snakless`
    * `Filter.Accepts`
    * `Target.Takes`

  Main declarations:
    * `Fingerprint.leaves_normalize`
    * `Filter.Checked.plain`
    * `Filter.Accepts.exists_target`
    * `Filter.Accepts.isEmpty_eq_false_iff`
    * `Filter.Accepts.excludes?_eq_none`
-/

------------------------------------------------------------
-- Leaves Of Normal Forms
------------------------------------------------------------

namespace StatementQuery

namespace Fingerprint

/- A property of all leaves of a fingerprint. -/
def Leaves (P : Fingerprint → Prop) (fp : Fingerprint) : Prop :=
  ∀ leaf ∈ fp.leaves, P leaf

theorem leavesAll_eq_flatMap
    (fps : List Fingerprint) :
    leavesAll fps = fps.flatMap leaves := by
  induction fps with
  | nil => rfl
  | cons fp fps ih => rw [leavesAll, ih, List.flatMap_cons]

/- The leaves of alternatives are those of each. -/
theorem leaves_or
    {P : Fingerprint → Prop}
    {fps : List Fingerprint} :
    (Fingerprint.or fps).Leaves P ↔ ∀ fp ∈ fps, fp.Leaves P := by
  simp only [Leaves, leaves, leavesAll_eq_flatMap,
    List.mem_flatMap]
  constructor
  · intro h fp hfp leaf hLeaf
    exact h leaf ⟨fp, hfp, hLeaf⟩
  · rintro h leaf ⟨fp, hfp, hLeaf⟩
    exact h fp hfp leaf hLeaf

/- What a normal fingerprint adds has its leaves. -/
theorem leaves_of_mem_inner
    {P : Fingerprint → Prop}
    {fp gp : Fingerprint}
    (h : fp.Leaves P)
    (hgp : gp ∈ fp.inner) :
    gp.Leaves P := by
  cases fp with
  | empty => cases hgp
  | or fps => exact leaves_or.mp h gp hgp
  | full =>
      rw [List.mem_singleton.mp hgp]
      exact h
  | value g =>
      rw [List.mem_singleton.mp hgp]
      exact h
  | snaks gs =>
      rw [List.mem_singleton.mp hgp]
      exact h

/- Leaves are added, never made. -/
theorem mem_of_mem_foldl_addLeaf
    {fp : Fingerprint}
    (fps acc : List Fingerprint)
    (h : fp ∈ fps.foldl addLeaf acc) :
    fp ∈ acc ∨ fp ∈ fps := by
  induction fps generalizing acc with
  | nil => exact Or.inl h
  | cons gp fps ih =>
      rcases ih (addLeaf acc gp) h with hMem | hMem
      · unfold addLeaf at hMem
        split at hMem
        · exact Or.inl hMem
        · rcases List.mem_append.mp hMem with hMem | hMem
          · exact Or.inl hMem
          · rw [List.mem_singleton.mp hMem]
            exact Or.inr List.mem_cons_self
      · exact Or.inr (List.mem_cons_of_mem _ hMem)

/- The fingerprint of a list has the leaves of the list. -/
theorem leaves_ofLeaves
    {P : Fingerprint → Prop}
    (hEmpty : P .empty)
    {fps : List Fingerprint}
    (h : ∀ fp ∈ fps, fp.Leaves P) :
    (ofLeaves fps).Leaves P := by
  match fps with
  | [] =>
      intro leaf hLeaf
      rw [List.mem_singleton.mp hLeaf]
      exact hEmpty
  | [fp] => exact h fp List.mem_cons_self
  | fp :: gp :: fps => exact leaves_or.mpr h

/- Combining normal alternatives makes no leaf but full ones. -/
theorem leaves_combine
    {P : Fingerprint → Prop}
    (hFull : P .full)
    (hEmpty : P .empty)
    {fps : List Fingerprint}
    (h : ∀ fp ∈ fps, fp.Leaves P) :
    (combine fps).Leaves P := by
  unfold combine
  split
  · intro leaf hLeaf
    rw [List.mem_singleton.mp hLeaf]
    exact hFull
  · apply leaves_ofLeaves hEmpty
    intro fp hfp
    rcases mem_of_mem_foldl_addLeaf _ _ hfp with hNil | hMem
    · cases hNil
    · rcases List.mem_flatMap.mp hMem with ⟨gp, hgp, hInner⟩
      exact leaves_of_mem_inner (h gp hgp) hInner

mutual

/- Normal forms have no new leaves but full and empty ones. -/
theorem leaves_normalize
    {P : Fingerprint → Prop}
    (hFull : P .full)
    (hEmpty : P .empty) :
    ∀ fp : Fingerprint, fp.Leaves P → fp.normalize.Leaves P
| .full, h => by
    rw [normalize]
    · exact h
    all_goals simp
| .empty, h => by
    rw [normalize]
    · exact h
    all_goals simp
| .value g, h => by
    rw [normalize]
    · exact h
    all_goals simp
| .snaks [], h => by
    rw [normalize]
    intro leaf hLeaf
    rw [List.mem_singleton.mp hLeaf]
    exact hFull
| .snaks (g :: gs), h => by
    rw [normalize]
    · exact h
    all_goals simp
| .or fps, h => by
    rw [normalize]
    exact leaves_combine hFull hEmpty
      (leaves_normalizeAll hFull hEmpty fps (leaves_or.mp h))

theorem leaves_normalizeAll
    {P : Fingerprint → Prop}
    (hFull : P .full)
    (hEmpty : P .empty) :
    ∀ fps : List Fingerprint,
      (∀ fp ∈ fps, fp.Leaves P) →
        ∀ fp ∈ normalizeAll fps, fp.Leaves P
| [], _ => by simp [normalizeAll]
| fp :: fps, h => by
    rw [normalizeAll]
    exact List.forall_mem_cons.2
      ⟨leaves_normalize hFull hEmpty fp (h fp List.mem_cons_self),
        leaves_normalizeAll hFull hEmpty fps
          (fun gp hgp => h gp (List.mem_cons_of_mem _ hgp))⟩

end

mutual

/- Leaving values out makes no leaf but empty ones. -/
theorem leaves_retain
    {P : Fingerprint → Prop}
    (hEmpty : P .empty)
    (keep : Ground → Bool) :
    ∀ fp : Fingerprint, fp.Leaves P → (fp.retain keep).Leaves P
| .full, h => h
| .empty, h => h
| .snaks _, h => h
| .value g, h => by
    rw [retain]
    split
    · exact h
    · intro leaf hLeaf
      rw [List.mem_singleton.mp hLeaf]
      exact hEmpty
| .or fps, h => by
    rw [retain]
    exact leaves_or.mpr
      (leaves_retainAll hEmpty keep fps (leaves_or.mp h))

theorem leaves_retainAll
    {P : Fingerprint → Prop}
    (hEmpty : P .empty)
    (keep : Ground → Bool) :
    ∀ fps : List Fingerprint,
      (∀ fp ∈ fps, fp.Leaves P) →
        ∀ fp ∈ retainAll keep fps, fp.Leaves P
| [], _ => by simp [retainAll]
| fp :: fps, h => by
    rw [retainAll]
    exact List.forall_mem_cons.2
      ⟨leaves_retain hEmpty keep fp (h fp List.mem_cons_self),
        leaves_retainAll hEmpty keep fps
          (fun gp hgp => h gp (List.mem_cons_of_mem _ hgp))⟩

end

mutual

/- An alternative that asks for something is a leaf. -/
theorem mem_alternatives_cases
    {a : Alternative} :
    ∀ fp : Fingerprint, a ∈ fp.alternatives →
      a = .any ∨ (∃ g, a = .value g ∧ .value g ∈ fp.leaves) ∨
        ∃ g gs, a = .snaks (g :: gs) ∧
          .snaks (g :: gs) ∈ fp.leaves
| .full, h => Or.inl (List.mem_singleton.mp h)
| .empty, h => nomatch h
| .value g, h =>
    Or.inr (Or.inl
      ⟨g, List.mem_singleton.mp h, List.mem_singleton_self _⟩)
| .snaks [], h => Or.inl (List.mem_singleton.mp h)
| .snaks (g :: gs), h =>
    Or.inr (Or.inr
      ⟨g, gs, List.mem_singleton.mp h,
        List.mem_singleton_self _⟩)
| .or fps, h => mem_alternativesAll_cases fps h

theorem mem_alternativesAll_cases
    {a : Alternative} :
    ∀ fps : List Fingerprint, a ∈ alternativesAll fps →
      a = .any ∨ (∃ g, a = .value g ∧ .value g ∈ leavesAll fps) ∨
        ∃ g gs, a = .snaks (g :: gs) ∧
          .snaks (g :: gs) ∈ leavesAll fps
| [], h => nomatch h
| fp :: fps, h => by
    rcases List.mem_append.mp h with h | h
    · rcases mem_alternatives_cases fp h with
        hAny | ⟨g, hg, hLeaf⟩ | ⟨g, gs, hgs, hLeaf⟩
      · exact Or.inl hAny
      · exact Or.inr (Or.inl
          ⟨g, hg, List.mem_append_left _ hLeaf⟩)
      · exact Or.inr (Or.inr
          ⟨g, gs, hgs, List.mem_append_left _ hLeaf⟩)
    · rcases mem_alternativesAll_cases fps h with
        hAny | ⟨g, hg, hLeaf⟩ | ⟨g, gs, hgs, hLeaf⟩
      · exact Or.inl hAny
      · exact Or.inr (Or.inl
          ⟨g, hg, List.mem_append_right _ hLeaf⟩)
      · exact Or.inr (Or.inr
          ⟨g, gs, hgs, List.mem_append_right _ hLeaf⟩)

end

end Fingerprint

end StatementQuery

------------------------------------------------------------
-- Plain Targets Of Filters
------------------------------------------------------------

namespace StatementQuery

namespace Fingerprint

/- A fingerprint without sets of snaks. -/
def Snakless (fp : Fingerprint) : Prop :=
  fp.Leaves fun leaf => ∀ gs, leaf ≠ .snaks gs

/- The alternatives of such a fingerprint fix a value, if any. -/
theorem Snakless.mem_alternatives
    {fp : Fingerprint}
    (h : fp.Snakless)
    {a : Alternative}
    (ha : a ∈ fp.alternatives) :
    a = .any ∨ ∃ g, a = .value g ∧ .value g ∈ fp.leaves := by
  rcases mem_alternatives_cases fp ha with
    hAny | hValue | ⟨g, gs, _, hLeaf⟩
  · exact Or.inl hAny
  · exact Or.inr hValue
  · exact absurd rfl (h _ hLeaf (g :: gs))

end Fingerprint

namespace Filter

/- A filter without sets of snaks. -/
structure Snakless (f : Filter) : Prop where
  subject : f.subject.Snakless
  property : f.property.Snakless
  value : f.value.Snakless

/- A filter whose leaves pass their checks. -/
structure Checked (f : Filter) : Prop where
  subject :
    f.subject.Leaves fun leaf => subjectError? leaf = none
  property :
    f.property.Leaves fun leaf => propertyError? leaf = none
  value : f.value.Leaves fun leaf => valueError? leaf = none

/- A filter that is built passes its checks. -/
theorem checked_of_build
    {draft f : Filter}
    (h : draft.build = .ok f) :
    f.Checked := by
  unfold build at h
  split at h
  · cases h
  · rename_i hError
    cases h
    simp only [error?, Option.or_eq_none_iff,
      List.findSome?_eq_none_iff] at hError
    rcases hError with ⟨hSubject, hProperty, hValue, _⟩
    constructor
    · refine Fingerprint.leaves_normalize ?_ ?_ _
        (Fingerprint.leaves_retain ?_ _ _ hSubject) <;> rfl
    · refine Fingerprint.leaves_normalize ?_ ?_ _ hProperty <;>
        rfl
    · refine Fingerprint.leaves_normalize ?_ ?_ _
        (Fingerprint.leaves_retain ?_ _ _ hValue) <;> rfl

/- The kind of the values that an alternative asks for. -/
def valueKind : Alternative → Kind
| .snaks _ => .entity
| _ => .value

/- The targets of a checked filter are typed. -/
theorem Checked.typed
    {f : Filter}
    (h : f.Checked)
    (codec : Codec)
    {s p v : Alternative}
    (hs : s ∈ f.subject.alternatives)
    (hp : p ∈ f.property.alternatives)
    (hv : v ∈ f.value.alternatives) :
    (Target.ofAlternatives codec s p v).Typed (valueKind v) := by
  constructor
  case subject =>
    rcases Fingerprint.mem_alternatives_cases _ hs with
      rfl | ⟨g, rfl, hLeaf⟩ | ⟨g, gs, rfl, _⟩
    · exact Or.inl rfl
    · have hCheck := h.subject _ hLeaf
      simp only [subjectError?, Kind.isEntity,
        decide_eq_true_eq, ite_eq_left_iff, reduceCtorEq,
        imp_false, not_not] at hCheck
      exact Or.inr ⟨g, rfl, hCheck⟩
    · exact Or.inl rfl
  case property =>
    rcases Fingerprint.mem_alternatives_cases _ hp with
      rfl | ⟨g, rfl, hLeaf⟩ | ⟨g, gs, rfl, _⟩
    · exact Or.inl rfl
    · have hCheck := h.property _ hLeaf
      simp only [propertyError?, ite_eq_left_iff, reduceCtorEq,
        imp_false, not_not] at hCheck
      exact Or.inr ⟨g, rfl, le_of_eq hCheck⟩
    · exact Or.inl rfl
  case value =>
    rcases Fingerprint.mem_alternatives_cases _ hv with
      rfl | ⟨g, rfl, hLeaf⟩ | ⟨g, gs, rfl, _⟩
    · exact Or.inl rfl
    · have hCheck := h.value _ hLeaf
      simp only [valueError?, ite_eq_left_iff, reduceCtorEq,
        imp_false, not_not] at hCheck
      rcases Ground.exists_value_of_kind_le hCheck with ⟨w, rfl⟩
      exact Or.inr ⟨_, rfl, Value.kind_le_value _⟩
    · exact Or.inl rfl
  case kind => cases v <;> simp only [valueKind] <;> decide

/- The targets of a filter without snaks are plain. -/
theorem Checked.plain
    {f : Filter}
    (h : f.Checked)
    (hSnakless : f.Snakless)
    (codec : Codec)
    {t : Target}
    (ht : t ∈ Target.all codec f) :
    t.Plain := by
  simp only [Target.all, List.mem_flatMap, List.mem_map] at ht
  rcases ht with ⟨s, hs, p, hp, v, hv, rfl⟩
  have hTyped := h.typed codec hs hp hv
  have hSubject := hSnakless.subject.mem_alternatives hs
  have hValue := hSnakless.value.mem_alternatives hv
  refine ⟨hTyped.subject, hTyped.property, ?_, ?_, ?_⟩
  · rcases hValue with rfl | ⟨g, rfl, _⟩ <;> exact hTyped.value
  · rcases hSubject with rfl | ⟨g, rfl, _⟩ <;> rfl
  · rcases hValue with rfl | ⟨g, rfl, _⟩ <;> rfl

end Filter

end StatementQuery

------------------------------------------------------------
-- Statements That A Filter Accepts
------------------------------------------------------------

namespace StatementQuery

/- The kind of a snak among the three kinds of snaks. -/
def Snak.snakKind : Snak → SnakKind
| .value _ _ => .value
| .someValue _ => .someValue
| .noValue _ => .noValue

/- A fingerprint is full or has a value as an alternative. -/
def Fingerprint.Admits (fp : Fingerprint) (g : Ground) : Prop :=
  .any ∈ fp.alternatives ∨
    ∃ h, .value h ∈ fp.alternatives ∧ h.same g = true

/-
  A statement that a filter accepts: its parts are admitted by
  the fingerprints, and its snak and its datatypes by the
  masks.  Where it has no value, the filter asks for none.
-/
structure Filter.Accepts (f : Filter) (s : Statement) : Prop where
  subject : f.subject.Admits (.value (.entity s.subject))
  property : f.property.Admits (.value (.property s.snak.property))
  snak :
    Mask.contains f.snakMask (SnakMask.of s.snak.snakKind) = true
  subjectMask :
    f.subjectMask.admits (.entity s.subject.kind) = true
  value :
    match s.snak with
    | .value _ v =>
        f.value.Admits (.value v) ∧
          f.valueMask.admits v.datatype = true ∧
          f.propertyMask.admits v.datatype = true
    | _ => f.value.isFull = true

namespace Target

/- A part that is left open, or fixed to a given ground term. -/
def Fixes (name : String) (k : Kind) (t : Term) (g : Ground) : Prop :=
  t = .var ⟨name, k⟩ ∨ ∃ h, t = .ground h ∧ h.same g = true

/- A statement is one of those that a target asks for. -/
structure Takes (t : Target) (s : Statement) : Prop where
  subject :
    Fixes subjectName .entity t.subject
      (.value (.entity s.subject))
  property :
    Fixes propertyName .property t.property
      (.value (.property s.snak.property))
  value :
    match s.snak with
    | .value _ v => Fixes valueName .value t.value (.value v)
    | _ => t.isValueConstrained = false

end Target

/- What is the same as a value stays so in the store's form. -/
theorem Codec.same_normalizeGround
    {codec : Codec}
    (hCodec :
      ∀ v p, (codec.normalizeValue v p).same v = true)
    {property : Option Iri}
    {g : Ground}
    {v : Value}
    (h : g.same (.value v) = true) :
    (codec.normalizeGround property g).same (.value v) = true := by
  cases g with
  | value w =>
      have hNormal := hCodec w property
      have hSame : w.same v = true := h
      rw [Value.same_iff] at hNormal hSame
      exact (Value.same_iff _ _).2 (hNormal.trans hSame)
  | snak s => cases h
  | statement s => cases h

theorem Fingerprint.any_mem_of_isFull
    {fp : Fingerprint}
    (h : fp.isFull = true) :
    Alternative.any ∈ fp.alternatives := by
  cases fp with
  | full => exact List.mem_singleton_self _
  | empty => cases h
  | value g => cases h
  | snaks gs => cases h
  | or fps => cases h

namespace Filter

namespace Accepts

/- The statements of a filter are those of its targets. -/
theorem exists_target
    {f : Filter}
    {s : Statement}
    (h : f.Accepts s)
    (codec : Codec)
    (hCodec :
      ∀ v p, (codec.normalizeValue v p).same v = true) :
    ∃ t ∈ Target.all codec f, t.Takes s := by
  have hSubject :
      ∃ a ∈ f.subject.alternatives, ∀ p v,
        Target.Fixes Target.subjectName .entity
          (Target.ofAlternatives codec a p v).subject
          (.value (.entity s.subject)) := by
    rcases h.subject with hAny | ⟨g, hMem, hSame⟩
    · exact ⟨.any, hAny, fun _ _ => Or.inl rfl⟩
    · exact ⟨.value g, hMem, fun _ _ => Or.inr ⟨g, rfl, hSame⟩⟩
  have hProperty :
      ∃ a ∈ f.property.alternatives, ∀ s' v,
        Target.Fixes Target.propertyName .property
          (Target.ofAlternatives codec s' a v).property
          (.value (.property s.snak.property)) := by
    rcases h.property with hAny | ⟨g, hMem, hSame⟩
    · exact ⟨.any, hAny, fun _ _ => Or.inl rfl⟩
    · exact ⟨.value g, hMem, fun _ _ => Or.inr ⟨g, rfl, hSame⟩⟩
  have hValue :
      ∃ a ∈ f.value.alternatives, ∀ s' p,
        match s.snak with
        | .value _ v =>
            Target.Fixes Target.valueName .value
              (Target.ofAlternatives codec s' p a).value
              (.value v)
        | _ =>
            (Target.ofAlternatives codec s' p
              a).isValueConstrained = false := by
    have hValue := h.value
    cases hSnak : s.snak with
    | value p v =>
        rw [hSnak] at hValue
        rcases hValue.1 with hAny | ⟨g, hMem, hSame⟩
        · exact ⟨.any, hAny, fun _ _ => Or.inl rfl⟩
        · refine ⟨.value g, hMem, fun s' p => Or.inr ⟨_, rfl, ?_⟩⟩
          exact Codec.same_normalizeGround hCodec hSame
    | someValue p =>
        rw [hSnak] at hValue
        exact ⟨.any, Fingerprint.any_mem_of_isFull hValue, fun _ _ => rfl⟩
    | noValue p =>
        rw [hSnak] at hValue
        exact ⟨.any, Fingerprint.any_mem_of_isFull hValue, fun _ _ => rfl⟩
  rcases hSubject with ⟨a, ha, hSubject⟩
  rcases hProperty with ⟨b, hb, hProperty⟩
  rcases hValue with ⟨c, hc, hValue⟩
  refine
    ⟨Target.ofAlternatives codec a b c, ?_, hSubject b c,
      hProperty a c, hValue a b⟩
  simp only [Target.all, List.mem_flatMap, List.mem_map]
  exact ⟨a, ha, b, hb, c, hc, rfl⟩

end Accepts

end Filter

end StatementQuery

------------------------------------------------------------
-- Entries That No Mask Rules Out
------------------------------------------------------------

namespace StatementQuery

namespace Mask

/- Masks that admit one thing in common intersect. -/
theorem intersects_of_contains
    {n : Nat}
    {m m' other : Mask n}
    (h : contains m other = true)
    (h' : contains m' other = true)
    (hOther : isEmpty other = false) :
    intersects m m' = true := by
  simp only [contains, isEmpty, none, intersects,
    beq_iff_eq, beq_eq_false_iff_ne, bne_iff_ne] at *
  intro hDisjoint
  apply hOther
  calc
    other = m &&& (m' &&& other) := by rw [h', h]
    _ = (m &&& m') &&& other := by rw [BitVec.and_assoc]
    _ = 0#n := by rw [hDisjoint, BitVec.zero_and]

/- A mask that admits something is not empty. -/
theorem isEmpty_of_contains
    {n : Nat}
    {m other : Mask n}
    (h : contains m other = true)
    (hOther : isEmpty other = false) :
    isEmpty m = false := by
  simp only [contains, isEmpty, none, beq_iff_eq,
    beq_eq_false_iff_ne] at *
  rintro rfl
  apply hOther
  rw [← h, BitVec.zero_and]

end Mask

/- A fingerprint that admits something is not empty. -/
theorem Fingerprint.Admits.isEmpty_eq_false
    {fp : Fingerprint}
    {g : Ground}
    (h : fp.Admits g) :
    fp.isEmpty = false := by
  cases fp with
  | empty => rcases h with h | ⟨_, h, _⟩ <;> cases h
  | _ => rfl

namespace Filter

namespace Accepts

/-
  A filter that accepts a statement is taken to match nothing
  exactly if it has no bits for ranks, for the datatypes of
  properties or for those of values.
-/
theorem isEmpty_eq_false_iff
    {f : Filter}
    {s : Statement}
    (h : f.Accepts s) :
    f.isEmpty = false ↔
      Mask.isEmpty f.rankMask = false ∧
        Mask.isEmpty f.propertyMask = false ∧
        Mask.isEmpty f.valueMask = false := by
  have hSnakMask : Mask.isEmpty f.snakMask = false := by
    apply Mask.isEmpty_of_contains h.snak
    cases s.snak.snakKind <;> decide
  have hSubjectMask :
      Mask.intersects f.subjectMask DatatypeMask.entities =
        true := by
    refine Mask.intersects_of_contains h.subjectMask ?_ ?_
    · cases s.subject.kind <;> decide
    · cases s.subject.kind <;> decide
  have hValue :
      f.value.isEmpty = false ∧
        (f.value.isFull = true ∨
          Mask.contains f.snakMask (SnakMask.of .value) =
            true) := by
    have hSnak := h.snak
    have hValue := h.value
    cases hCase : s.snak with
    | value p v =>
        rw [hCase] at hSnak hValue
        exact ⟨hValue.1.isEmpty_eq_false, Or.inr hSnak⟩
    | _ =>
        all_goals
          rw [hCase] at hValue
          simp only at hValue
          refine ⟨?_, Or.inl hValue⟩
          cases hFull : f.value with
          | empty =>
              rw [hFull] at hValue
              cases hValue
          | _ => rfl
  rcases hValue with ⟨hNonempty, hLast⟩
  simp only [isEmpty, hSnakMask, hSubjectMask,
    h.subject.isEmpty_eq_false, h.property.isEmpty_eq_false,
    hNonempty, Bool.false_or, Bool.not_true, Bool.or_false,
    Bool.or_eq_false_iff, and_assoc]
  rcases hLast with hFull | hContains
  · simp [hFull]
  · simp [hContains]

/- No mask rules out the entry of the snak of a statement. -/
theorem excludes?_eq_none
    {f : Filter}
    {s : Statement}
    (h : f.Accepts s)
    {t : Target}
    (hPlain : t.Plain)
    (ht : t.Takes s)
    {e : Entry}
    (hSnak : e.snakKind = s.snak.snakKind)
    (hSubject : e.subjectKind = .entity)
    (hDatatype :
      match s.snak with
      | .value _ v => e.datatype = some v.datatype
      | _ => e.datatype = none) :
    e.excludes? f t = none := by
  have hSnakMask :
      Mask.intersects f.snakMask (SnakMask.of e.snakKind) =
        true := by
    rw [hSnak]
    apply Mask.intersects_of_contains h.snak
    · cases s.snak.snakKind <;> decide
    · cases s.snak.snakKind <;> decide
  have hSubjectMask :
      Mask.intersects (DatatypeMask.ofKind e.subjectKind)
        f.subjectMask = true := by
    rw [hSubject]
    refine Mask.intersects_of_contains ?_ h.subjectMask ?_
    · cases s.subject.kind <;> decide
    · cases s.subject.kind <;> decide
  have hValue := h.value
  have hTakes := ht.value
  unfold Entry.excludes?
  rw [hSnakMask, hSubjectMask]
  cases hCase : s.snak with
  | value p v =>
      rw [hCase] at hValue hDatatype hSnak
      simp only [Snak.snakKind] at hValue hDatatype hSnak
      simp [Entry.datatypeExcludes?, hSnak, hDatatype, hValue,
        hPlain.valueSnaks]
  | someValue p =>
      rw [hCase] at hTakes hDatatype
      simp only at hTakes hDatatype
      simp [hTakes, hDatatype]
  | noValue p =>
      rw [hCase] at hTakes hDatatype
      simp only at hTakes hDatatype
      simp [hTakes, hDatatype]

end Accepts

end Filter

end StatementQuery
