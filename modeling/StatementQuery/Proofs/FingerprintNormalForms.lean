import Mathlib.Data.Set.Lattice
import StatementQuery.Proofs.IndependentAlternatives

/-
  What fingerprints admit, and their normal forms.

  Whichever snaks the entities have, bringing a fingerprint
  into normal form does not change which terms it admits.  A
  normal form has no nested alternatives, no leaf that admits
  everything or nothing beside others, and no leaf twice, so
  bringing it into normal form again leaves it as it is.

  Key definitions include:
    * `Interpretation`
    * `Fingerprint.values`
    * `Fingerprint.IsLeaf`
    * `Fingerprint.IsNormal`

  Main declarations:
    * `Fingerprint.IsNormal.combine`
    * `Fingerprint.IsNormal.normalize_eq`
    * `Filter.build_of_build`
    * `Fingerprint.normal_forms_kept`
-/

------------------------------------------------------------
-- What Fingerprints Admit
------------------------------------------------------------

namespace StatementQuery

/- Which terms have which snaks, equal snaks taken as one. -/
structure Interpretation where
  has : Ground → Ground → Prop
  respects :
    ∀ {g snak snak'}, snak.same snak' = true →
      (has g snak ↔ has g snak')

instance : Inhabited Interpretation :=
  ⟨⟨fun _ _ => False, fun _ => Iff.rfl⟩⟩

namespace Fingerprint

mutual

/- The terms that a fingerprint admits. -/
def values (I : Interpretation) : Fingerprint → Set Ground
| .full => Set.univ
| .empty => ∅
| .value g => {h | g.same h = true}
| .snaks gs => {h | ∀ snak ∈ gs, I.has h snak}
| .or fps => valuesAll I fps

/- The terms that one of several fingerprints admits. -/
def valuesAll (I : Interpretation) : List Fingerprint → Set Ground
| [] => ∅
| fp :: fps => fp.values I ∪ valuesAll I fps

end

variable (I : Interpretation)

theorem valuesAll_append
    (fps gps : List Fingerprint) :
    valuesAll I (fps ++ gps) =
      valuesAll I fps ∪ valuesAll I gps := by
  induction fps with
  | nil => simp [valuesAll]
  | cons fp fps ih =>
      rw [List.cons_append, valuesAll, valuesAll, ih,
        Set.union_assoc]

/- One of the fingerprints admits less than all of them. -/
theorem values_subset_valuesAll
    {fp : Fingerprint}
    {fps : List Fingerprint}
    (h : fp ∈ fps) :
    fp.values I ⊆ valuesAll I fps := by
  induction fps with
  | nil => cases h
  | cons gp fps ih =>
      rw [valuesAll]
      rcases List.mem_cons.mp h with rfl | h
      · exact Set.subset_union_left
      · exact Set.subset_union_of_subset_right (ih h) _

end Fingerprint

end StatementQuery

------------------------------------------------------------
-- Leaves
------------------------------------------------------------

namespace StatementQuery

namespace Fingerprint

/- A fingerprint that asks for a value or for some snaks. -/
inductive IsLeaf : Fingerprint → Prop
| value (g : Ground) : IsLeaf (.value g)
| snaks (gs : List Ground) (h : gs ≠ []) : IsLeaf (.snaks gs)

/- Lists of snaks are equal if their members are. -/
theorem sameSnaks_iff
    (gs hs : List Ground) :
    sameSnaks gs hs = true ↔
      gs.map Ground.canonical = hs.map Ground.canonical := by
  induction gs generalizing hs with
  | nil => cases hs <;> simp [sameSnaks]
  | cons g gs ih =>
      cases hs with
      | nil => simp [sameSnaks]
      | cons h hs => simp [sameSnaks, Ground.same_iff, ih]

/- Which of two leaves is compared to the other is the same. -/
theorem IsLeaf.same_comm
    {fp gp : Fingerprint}
    (hfp : fp.IsLeaf)
    (hgp : gp.IsLeaf) :
    fp.same gp = gp.same fp := by
  cases hfp with
  | value g =>
      cases hgp with
      | value h =>
          rw [same, same, Bool.eq_iff_iff, Ground.same_iff,
            Ground.same_iff, eq_comm]
      | snaks hs _ => rfl
  | snaks gs _ =>
      cases hgp with
      | value h => rfl
      | snaks hs _ =>
          rw [same, same, Bool.eq_iff_iff, sameSnaks_iff,
            sameSnaks_iff, eq_comm]

/- Who has equal snaks has the other ones as well. -/
theorem has_of_sameSnaks
    (I : Interpretation)
    {gs hs : List Ground}
    (hSame : sameSnaks gs hs = true)
    (g : Ground) :
    (∀ snak ∈ gs, I.has g snak) ↔ ∀ snak ∈ hs, I.has g snak := by
  induction gs generalizing hs with
  | nil =>
      cases hs with
      | nil => rfl
      | cons h hs => cases hSame
  | cons s gs ih =>
      cases hs with
      | nil => cases hSame
      | cons h hs =>
          rw [sameSnaks, Bool.and_eq_true] at hSame
          rw [List.forall_mem_cons, List.forall_mem_cons,
            I.respects hSame.1, ih hSame.2]

/- Equal leaves admit the same terms. -/
theorem IsLeaf.values_eq_of_same
    (I : Interpretation)
    {fp gp : Fingerprint}
    (hfp : fp.IsLeaf)
    (hgp : gp.IsLeaf)
    (hSame : fp.same gp = true) :
    fp.values I = gp.values I := by
  cases hfp with
  | value g =>
      cases hgp with
      | value h =>
          have hEq := (Ground.same_iff g h).mp hSame
          ext k
          rw [values, values, Set.mem_ofPred_eq, Set.mem_ofPred_eq,
            Ground.same_iff, Ground.same_iff, hEq]
      | snaks hs _ => cases hSame
  | snaks gs _ =>
      cases hgp with
      | value h => cases hSame
      | snaks hs _ =>
          ext k
          exact has_of_sameSnaks I hSame k

/- Leaves of which no two are equal. -/
structure Separate (fps : List Fingerprint) : Prop where
  leaves : ∀ fp ∈ fps, fp.IsLeaf
  unequal : fps.Pairwise fun fp gp => fp.same gp = false

/- A leaf is added unless an equal one is there. -/
theorem Separate.addLeaf
    (I : Interpretation)
    {fps : List Fingerprint}
    {fp : Fingerprint}
    (hfps : Separate fps)
    (hfp : fp.IsLeaf) :
    Separate (addLeaf fps fp) ∧
      valuesAll I (Fingerprint.addLeaf fps fp) =
        valuesAll I fps ∪ fp.values I := by
  unfold Fingerprint.addLeaf
  split
  · rename_i hAny
    rcases List.any_eq_true.mp hAny with ⟨gp, hgp, hSame⟩
    refine ⟨hfps, ?_⟩
    rw [hfp.values_eq_of_same I (hfps.leaves gp hgp) hSame]
    exact
      (Set.union_eq_self_of_subset_right
        (values_subset_valuesAll I hgp)).symm
  · rename_i hNone
    refine ⟨⟨?_, ?_⟩, ?_⟩
    · intro gp hgp
      rcases List.mem_append.mp hgp with hgp | hgp
      · exact hfps.leaves gp hgp
      · cases List.mem_singleton.mp hgp
        exact hfp
    · apply List.pairwise_append.mpr
      refine ⟨hfps.unequal, List.pairwise_singleton _ _, ?_⟩
      intro gp hgp fp' hfp'
      cases List.mem_singleton.mp hfp'
      rw [(hfps.leaves gp hgp).same_comm hfp]
      exact Bool.eq_false_iff.mpr
        fun hSame => hNone (List.any_eq_true.mpr ⟨gp, hgp, hSame⟩)
    · rw [valuesAll_append, valuesAll, valuesAll, Set.union_empty]

/- Adding leaf after leaf keeps what they admit. -/
theorem Separate.foldl_addLeaf
    (I : Interpretation)
    {fps gps : List Fingerprint}
    (hfps : Separate fps)
    (hgps : ∀ gp ∈ gps, gp.IsLeaf) :
    Separate (gps.foldl Fingerprint.addLeaf fps) ∧
      valuesAll I (gps.foldl Fingerprint.addLeaf fps) =
        valuesAll I fps ∪ valuesAll I gps := by
  induction gps generalizing fps with
  | nil => exact ⟨hfps, (Set.union_empty _).symm⟩
  | cons gp gps ih =>
      rcases List.forall_mem_cons.mp hgps with ⟨hgp, hRest⟩
      rcases hfps.addLeaf I hgp with ⟨hStep, hValues⟩
      rcases ih hStep hRest with ⟨hAll, hAllValues⟩
      refine ⟨hAll, ?_⟩
      rw [List.foldl_cons, hAllValues, hValues, valuesAll,
        Set.union_assoc]

/- Of leaves of which no two are equal, none is left out. -/
theorem Separate.foldl_addLeaf_eq
    {fps gps : List Fingerprint}
    (h : Separate (fps ++ gps)) :
    gps.foldl Fingerprint.addLeaf fps = fps ++ gps := by
  induction gps generalizing fps with
  | nil => exact (List.append_nil fps).symm
  | cons gp gps ih =>
      have hgp : gp.IsLeaf := h.leaves gp (by simp)
      have hNone : fps.any (same gp) = false := by
        apply List.any_eq_false.mpr
        intro fp hfp
        have hfpLeaf : fp.IsLeaf := h.leaves fp (by simp [hfp])
        have hUnequal :=
          (List.pairwise_append.mp h.unequal).2.2 fp hfp gp
            List.mem_cons_self
        rw [hgp.same_comm hfpLeaf, hUnequal]
        exact Bool.false_ne_true
      have hStep : Fingerprint.addLeaf fps gp = fps ++ [gp] := by
        rw [Fingerprint.addLeaf, hNone]
        rfl
      rw [List.append_cons] at h
      rw [List.foldl_cons, hStep, ih h, ← List.append_cons]

end Fingerprint

end StatementQuery

------------------------------------------------------------
-- Normal Forms
------------------------------------------------------------

namespace StatementQuery

namespace Fingerprint

/- Full, empty, a leaf, or two or more leaves that differ. -/
inductive IsNormal : Fingerprint → Prop
| full : IsNormal .full
| empty : IsNormal .empty
| leaf {fp : Fingerprint} (h : fp.IsLeaf) : IsNormal fp
| or
    {fps : List Fingerprint}
    (h : Separate fps)
    (hMany : 2 ≤ fps.length) :
    IsNormal (.or fps)

variable (I : Interpretation)

/- A normal form that is not full consists of leaves. -/
theorem IsNormal.inner
    {fp : Fingerprint}
    (h : fp.IsNormal)
    (hFull : fp.isFull = false) :
    (∀ leaf ∈ fp.inner, leaf.IsLeaf) ∧
      valuesAll I fp.inner = fp.values I := by
  cases h with
  | full => cases hFull
  | empty => exact ⟨nofun, rfl⟩
  | leaf hLeaf =>
      have hInner : fp.inner = [fp] := by
        cases hLeaf <;> rfl
      rw [hInner, valuesAll, valuesAll, Set.union_empty]
      refine ⟨?_, rfl⟩
      intro leaf hMem
      cases List.mem_singleton.mp hMem
      exact hLeaf
  | or hSeparate _ => exact ⟨hSeparate.leaves, rfl⟩

/- Normal forms that are not full consist of leaves. -/
theorem IsNormal.flatMap_inner
    {fps : List Fingerprint}
    (h : ∀ fp ∈ fps, fp.IsNormal)
    (hFull : fps.any isFull = false) :
    (∀ leaf ∈ fps.flatMap Fingerprint.inner, leaf.IsLeaf) ∧
      valuesAll I (fps.flatMap Fingerprint.inner) =
        valuesAll I fps := by
  induction fps with
  | nil => exact ⟨nofun, rfl⟩
  | cons fp fps ih =>
      rw [List.any_cons, Bool.or_eq_false_iff] at hFull
      rcases List.forall_mem_cons.mp h with ⟨hfp, hRest⟩
      rcases hfp.inner I hFull.1 with ⟨hLeaves, hValues⟩
      rcases ih hRest hFull.2 with ⟨hAll, hAllValues⟩
      rw [List.flatMap_cons]
      refine ⟨?_, ?_⟩
      · intro leaf hLeaf
        rcases List.mem_append.mp hLeaf with hLeaf | hLeaf
        · exact hLeaves leaf hLeaf
        · exact hAll leaf hLeaf
      · rw [valuesAll_append, hValues, hAllValues, valuesAll]

/- The fingerprint of different leaves is normal. -/
theorem Separate.ofLeaves
    {fps : List Fingerprint}
    (h : Separate fps) :
    (ofLeaves fps).IsNormal ∧
      (Fingerprint.ofLeaves fps).values I = valuesAll I fps := by
  match fps with
  | [] => exact ⟨.empty, rfl⟩
  | [fp] =>
      refine ⟨.leaf (h.leaves fp List.mem_cons_self), ?_⟩
      rw [valuesAll, valuesAll, Set.union_empty]
      rfl
  | fp :: gp :: fps => exact ⟨.or h (by simp), rfl⟩

/- Normal alternatives have a normal form that admits them all. -/
theorem IsNormal.combine
    {fps : List Fingerprint}
    (h : ∀ fp ∈ fps, fp.IsNormal) :
    (combine fps).IsNormal ∧
      (Fingerprint.combine fps).values I = valuesAll I fps := by
  unfold Fingerprint.combine
  split
  · rename_i hAny
    rcases List.any_eq_true.mp hAny with ⟨fp, hfp, hFull⟩
    have hEq : fp = .full := by
      cases fp <;> first | rfl | cases hFull
    rw [hEq] at hfp
    exact
      ⟨.full,
        (Set.univ_subset_iff.mp
          (values_subset_valuesAll I hfp)).symm⟩
  · rename_i hNone
    rcases IsNormal.flatMap_inner I h
        (Bool.eq_false_iff.mpr hNone) with
      ⟨hLeaves, hInner⟩
    have hStart : Separate [] := ⟨nofun, .nil⟩
    rcases hStart.foldl_addLeaf I hLeaves with
      ⟨hSeparate, hValues⟩
    rcases hSeparate.ofLeaves I with ⟨hNormal, hOf⟩
    refine ⟨hNormal, ?_⟩
    rw [hOf, hValues, hInner]
    exact Set.empty_union _

mutual

/-
  Normal forms are normal and admit the same terms: the leaves
  of a tree are collected from the normal forms of its parts.
-/
theorem normalize_spec :
    ∀ fp : Fingerprint,
      fp.normalize.IsNormal ∧
        fp.normalize.values I = fp.values I
| .full => ⟨.full, rfl⟩
| .empty => ⟨.empty, rfl⟩
| .value g => ⟨.leaf (.value g), rfl⟩
| .snaks [] => by
    refine ⟨.full, ?_⟩
    simp [normalize, values]
| .snaks (g :: gs) =>
    ⟨.leaf (.snaks (g :: gs) (List.cons_ne_nil g gs)), rfl⟩
| .or fps => by
    rcases normalizeAll_spec fps with ⟨hNormal, hValues⟩
    rcases IsNormal.combine I hNormal with ⟨hCombined, hAll⟩
    rw [normalize, values, hAll, hValues]
    exact ⟨hCombined, rfl⟩

theorem normalizeAll_spec :
    ∀ fps : List Fingerprint,
      (∀ fp ∈ normalizeAll fps, fp.IsNormal) ∧
        valuesAll I (normalizeAll fps) = valuesAll I fps
| [] => ⟨nofun, rfl⟩
| fp :: fps => by
    rcases normalize_spec fp with ⟨hNormal, hValues⟩
    rcases normalizeAll_spec fps with ⟨hAll, hAllValues⟩
    rw [normalizeAll, valuesAll, valuesAll, hValues, hAllValues]
    exact ⟨List.forall_mem_cons.mpr ⟨hNormal, hAll⟩, rfl⟩

end

theorem values_normalize
    (fp : Fingerprint) :
    fp.normalize.values I = fp.values I :=
  (normalize_spec I fp).2

theorem isNormal_normalize
    (fp : Fingerprint) :
    fp.normalize.IsNormal :=
  (normalize_spec default fp).1

/- Leaves are normal as they are. -/
theorem normalizeAll_of_leaves
    {fps : List Fingerprint}
    (h : ∀ fp ∈ fps, fp.IsLeaf) :
    normalizeAll fps = fps := by
  induction fps with
  | nil => rfl
  | cons fp fps ih =>
      rcases List.forall_mem_cons.mp h with ⟨hfp, hRest⟩
      rw [normalizeAll, ih hRest]
      congr 1
      cases hfp with
      | value g => rfl
      | snaks gs hSome =>
          cases gs with
          | nil => exact absurd rfl hSome
          | cons g gs => rfl

/- Leaves that differ are combined as they are. -/
theorem Separate.combine_eq
    {fps : List Fingerprint}
    (h : Separate fps) :
    Fingerprint.combine fps = Fingerprint.ofLeaves fps := by
  have hFull : fps.any isFull = false := by
    apply List.any_eq_false.mpr
    intro fp hfp
    cases h.leaves fp hfp <;> exact Bool.false_ne_true
  have hInner : fps.flatMap Fingerprint.inner = fps := by
    have hOne : ∀ fp ∈ fps, fp.inner = [fp] := by
      intro fp hfp
      cases h.leaves fp hfp <;> rfl
    rw [List.flatMap_congr hOne]
    exact List.flatMap_singleton' fps
  have hAll : fps.foldl Fingerprint.addLeaf [] = fps :=
    Separate.foldl_addLeaf_eq h
  rw [Fingerprint.combine, hFull, hInner, hAll]
  rfl

/- A normal form is its own normal form. -/
theorem IsNormal.normalize_eq
    {fp : Fingerprint}
    (h : fp.IsNormal) :
    fp.normalize = fp := by
  cases h with
  | full => rfl
  | empty => rfl
  | leaf hLeaf =>
      have hOne : normalizeAll [fp] = [fp] :=
        normalizeAll_of_leaves (by simpa using hLeaf)
      exact (List.cons.inj hOne).1
  | or hSeparate hMany =>
      rw [normalize, normalizeAll_of_leaves hSeparate.leaves,
        hSeparate.combine_eq]
      rename_i fps
      match fps, hMany with
      | _ :: _ :: _, _ => rfl

end Fingerprint

end StatementQuery

------------------------------------------------------------
-- Building A Filter Again
------------------------------------------------------------

namespace StatementQuery

namespace Fingerprint

mutual

/- What has no value to be left out is retained as it is. -/
theorem retain_of_keptBy
    {keep : Ground → Bool} :
    ∀ fp : Fingerprint,
      fp.Leaves (KeptBy keep) → fp.retain keep = fp
| .full, _ => rfl
| .empty, _ => rfl
| .snaks _, _ => rfl
| .value g, h => by
    have hKeep : keep g = true :=
      h (.value g) List.mem_cons_self g rfl
    rw [retain, if_pos hKeep]
| .or fps, h => by
    rw [retain, retainAll_of_keptBy fps (leaves_or.mp h)]

theorem retainAll_of_keptBy
    {keep : Ground → Bool} :
    ∀ fps : List Fingerprint,
      (∀ fp ∈ fps, fp.Leaves (KeptBy keep)) →
        retainAll keep fps = fps
| [], _ => rfl
| fp :: fps, h => by
    rcases List.forall_mem_cons.mp h with ⟨hfp, hRest⟩
    rw [retainAll, retain_of_keptBy fp hfp,
      retainAll_of_keptBy fps hRest]

end

end Fingerprint

namespace Filter

/- The parts of a filter that is built are in normal form. -/
structure Normal (f : Filter) : Prop where
  subject : f.subject.IsNormal
  property : f.property.IsNormal
  value : f.value.IsNormal

variable {draft f : Filter}

theorem normal_of_build
    (h : draft.build = .ok f) :
    f.Normal := by
  unfold build at h
  split at h
  · cases h
  · cases h
    exact
      ⟨Fingerprint.isNormal_normalize _,
        Fingerprint.isNormal_normalize _,
        Fingerprint.isNormal_normalize _⟩

/- A filter that is built is built as it is. -/
theorem build_of_build
    (h : draft.build = .ok f) :
    f.build = .ok f := by
  have hBuilt := built_of_build h
  have hNormal := normal_of_build h
  unfold build
  rw [hBuilt.error?_eq_none]
  simp only [normalize,
    Fingerprint.retain_of_keptBy _ hBuilt.subjectKept,
    Fingerprint.retain_of_keptBy _ hBuilt.valueKept,
    hNormal.subject.normalize_eq, hNormal.property.normalize_eq,
    hNormal.value.normalize_eq]

end Filter

namespace Fingerprint

/-
  A normal form admits what its fingerprint does, whichever
  snaks the entities have.  It is full, empty, a leaf, or two
  or more leaves that differ, and it is its own normal form.
  A filter that is built is its own result when built again.
-/
theorem normal_forms_kept :
    (∀ fp : Fingerprint,
        (∀ I, fp.normalize.values I = fp.values I) ∧
          fp.normalize.IsNormal ∧
          fp.normalize.normalize = fp.normalize) ∧
      ∀ draft f : Filter,
        draft.build = .ok f → f.build = .ok f := by
  refine ⟨?_, fun draft f => Filter.build_of_build⟩
  intro fp
  have hNormal : fp.normalize.IsNormal := isNormal_normalize fp
  exact
    ⟨fun I => values_normalize I fp, hNormal,
      hNormal.normalize_eq⟩

/- The value of one and a half, written with two decimals. -/
def threeHalves : Ground :=
  .value (.quantity { amount := ⟨150, 2⟩ })

/- A nested choice with a value twice and one that is masked. -/
def measures : Filter where
  value :=
    .or
      [.value threeHalves,
        .or
          [.empty,
            .value (.value (.quantity { amount := ⟨15, 1⟩ })),
            .or [.value (.value (.string "three halves"))]],
        .value (.value (.externalId "3/2"))]
  valueMask :=
    DatatypeMask.of .quantity ||| DatatypeMask.of .string

/- The two values that are left. -/
def measuresBuilt : Filter :=
  { measures with
    value :=
      .or
        [.value threeHalves,
          .value (.value (.string "three halves"))] }

theorem normal_forms_kept_measures :
    measures.build = .ok measuresBuilt ∧
      measuresBuilt.build = .ok measuresBuilt ∧
      (∀ I, measures.value.normalize.values I =
        measures.value.values I) ∧
      measures.value.normalize.IsNormal := by
  have hBuild : measures.build = .ok measuresBuilt := by
    rfl
  have hValue := normal_forms_kept.1 measures.value
  exact
    ⟨hBuild, normal_forms_kept.2 _ _ hBuild, hValue.1,
      hValue.2.1⟩

end Fingerprint

end StatementQuery
