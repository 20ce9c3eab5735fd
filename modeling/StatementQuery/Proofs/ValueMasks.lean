import StatementQuery.Proofs.EntryMetadata
import StatementQuery.Proofs.EntrySelection
import StatementQuery.Proofs.WikidataMasks

/-
  Masks of values, where a filter asks for one value.

  A mask that admits the value asked for still leaves out the
  entries whose datatype it does not admit.  An entry whose
  patterns all carry a value has a datatype above whatever
  matches them, so its datatype is that of the value; or the
  value is an external identifier and the datatype is that of
  strings.  In the latter case, and where a pattern carries no
  value, a mask can leave out an entry that would be selected
  without it.

  Key definitions include:
    * `Term.CarriesValue`
    * `Filter.anyValue`
    * `Mapping.isWithin`

  Main declarations:
    * `Entry.kind_le_of_matchPattern?`
    * `Entry.isSelected_eq`
    * `Compile.selection_eq_filter`
    * `Compile.selection_of_valueMask`
-/

------------------------------------------------------------
-- Values That Patterns Carry
------------------------------------------------------------

namespace StatementQuery

namespace Term

/- A statement whose snak is built with a value. -/
def CarriesValue (p : Term) : Prop :=
  ∃ subject snak value,
    p.IsStatement subject snak ∧ snak.Carries value

variable {p subject snak value : Term} {f : Variable → Side}

/- What has arguments keeps its kind under new names. -/
theorem kind_mapVariables_of_args?
    (g : Variable → Variable)
    {t : Term}
    {args : List (Option Term)}
    (h : t.args? = some args) :
    (t.mapVariables g).kind = t.kind := by
  cases t with
  | var v => cases h
  | app c args => rfl
  | ground x => rfl

theorem IsStatement.mapVariables
    (h : p.IsStatement subject snak)
    (g : Variable → Variable) :
    (p.mapVariables g).IsStatement (subject.mapVariables g)
      (snak.mapVariables g) where
  kind := by rw [kind_mapVariables_of_args? g h.args, h.kind]
  args := by
    rw [args?_mapVariables, h.args]
    rfl

theorem Carries.mapVariables
    (h : snak.Carries value)
    (g : Variable → Variable) :
    (snak.mapVariables g).Carries (value.mapVariables g) := by
  rcases h with ⟨hKind, property, hArgs⟩
  refine ⟨?_, property.map (Term.mapVariables g), ?_⟩
  · rw [kind_mapVariables_of_args? g hArgs, hKind]
  · rw [args?_mapVariables, hArgs]
    rfl

/- Where a statement is left, so is its snak. -/
theorem IsStatement.exists_subst_snak
    (h : p.IsStatement subject snak)
    (hp : p.WellShaped)
    {u : Term}
    (hu : p.subst f = some (some u)) :
    ∃ w, snak.subst f = some (some w) := by
  rw [(subst_of_args? (c := .statement) f hp h.kind h.args).1]
    at hu
  rcases combine_eq_some rfl hu with
    ⟨hAbsent, _⟩ | ⟨values, _, hValues, hFills, _⟩
  · cases hAbsent
  rcases hFills with _ | ⟨_, _ | ⟨hSnak, _ | _⟩⟩
  have hSubst := (List.cons.inj (List.cons.inj hValues).2).1
  rename_i w _
  cases w with
  | none => cases hSnak rfl
  | some w => exact ⟨w, hSubst⟩

/- The value that a statement carries is over its variables. -/
theorem IsStatement.within_value
    (h : p.IsStatement subject snak)
    (hp : p.WellShaped)
    (hCarries : snak.Carries value) :
    Side.Within (· ∈ p.occurrences) (some value) := by
  rcases hCarries.args with ⟨property, hArgs⟩
  exact within_args (within_snak hp h.args) hArgs (by simp)

/-
  If two statements become the same, so do the values that they
  carry.
-/
theorem outcome_carried
    {κ : Kinding}
    {q subject' snak' value' u : Term}
    (hp : p.WellShaped)
    (hq : q.WellShaped)
    (hStatement : p.IsStatement subject snak)
    (hStatement' : q.IsStatement subject' snak')
    (hCarries : snak.Carries value)
    (hCarries' : snak'.Carries value')
    (hf :
      ∀ v, v ∈ p.occurrences ∨ v ∈ q.occurrences →
        Side.Fits κ v.kind (f v))
    (hu : p.subst f = some (some u))
    (h : outcome (q.subst f) = outcome (p.subst f)) :
    outcome (value.subst f) = outcome (value'.subst f) := by
  have hParts :=
    outcomes_args (c := .statement) rfl hp hq hStatement.kind
      hStatement'.kind hStatement.args hStatement'.args hf hu h
  have hSnaks :
      outcome (snak.subst f) = outcome (snak'.subst f) :=
    (List.cons.inj (List.cons.inj hParts).2).1
  rcases hStatement.exists_subst_snak hp hu with ⟨w, hw⟩
  rcases hCarries.args with ⟨property, hArgs⟩
  rcases hCarries'.args with ⟨property', hArgs'⟩
  rcases within_snak hp hStatement.args snak rfl with
    ⟨hSnak, hIn⟩
  rcases within_snak hq hStatement'.args snak' rfl with
    ⟨hSnak', hIn'⟩
  have hValues :=
    outcomes_args (c := .valueSnak) rfl hSnak hSnak' hCarries.kind
      hCarries'.kind hArgs hArgs'
      (fun v hv => hf v (hv.imp (hIn v) (hIn' v))) hw hSnaks.symm
  exact (List.cons.inj (List.cons.inj hValues).2).1

end Term

namespace Entry

/-
  A value that a target fixes is of the kind of what a pattern
  that matches carries.
-/
theorem kind_le_of_matchPattern?
    {p goal asked subject snak value : Term}
    {used : List String}
    {found : PatternMatch}
    {t : Target}
    {g : Ground}
    (hp : p.WellFormed)
    (hAsks : t.Asks .value goal asked)
    (hMatch : matchPattern? p goal used = some found)
    (hStatement : p.IsStatement subject snak)
    (hCarries : snak.Carries value)
    (hg : t.value = .ground g) :
    g.kind ≤ value.kind := by
  rcases exists_joins hp hAsks.formed hMatch with ⟨ρ, κ, hJoins⟩
  rcases hJoins.present with ⟨u, hu⟩
  have hAsked : asked.Carries (.ground g) :=
    ⟨hAsks.snakKind, some t.property, hg ▸ hAsks.snakArgs⟩
  have hRenamed := hStatement.mapVariables (Variable.renamed ρ)
  have hCarried := hCarries.mapVariables (Variable.renamed ρ)
  have hOutcome :=
    Term.outcome_carried hJoins.formed.shaped hAsks.formed.shaped
      hRenamed ⟨hAsks.kind, hAsks.args⟩ hCarried hAsked
      hJoins.fits hu hJoins.agrees
  rcases Term.exists_ground_of_outcome hOutcome with
    ⟨g', hg', hSame⟩
  have hKind : g'.kind = g.kind :=
    Ground.kind_eq_of_canonical_eq ((Ground.same_iff g' g).mp hSame)
  rcases hRenamed.within_value hJoins.formed.shaped hCarried _
      rfl with
    ⟨hShaped, hIn⟩
  have hFits :=
    Term.fits_subst hShaped
      (fun v hv => hJoins.fits v (Or.inl (hIn v hv))) hg'
  calc g.kind
      = g'.kind := hKind.symm
    _ ≤ (value.mapVariables (Variable.renamed ρ)).kind :=
        (hFits _ rfl).1
    _ ≤ value.kind :=
        Term.kind_mapVariables_le fun v _ => le_refl v.kind

end Entry

end StatementQuery

------------------------------------------------------------
-- Filters Without A Mask Of Values
------------------------------------------------------------

namespace StatementQuery

/- A mask that admits a datatype is not empty. -/
theorem DatatypeMask.isEmpty_of_admits
    {M : DatatypeMask}
    {d : Datatype}
    (h : M.admits d = true) :
    Mask.isEmpty M = false := by
  rw [← Bool.not_eq_true]
  intro hEmpty
  have hNone : M = Mask.none 9 := eq_of_beq hEmpty
  rw [hNone] at h
  revert h
  rcases d with (_ | _ | _) | _ | _ | _ | _ | _ | _ <;> decide

/- The mask of all datatypes admits each of them. -/
theorem DatatypeMask.admits_all
    (d : Datatype) :
    DatatypeMask.admits (Mask.all 9) d = true := by
  rcases d with (_ | _ | _) | _ | _ | _ | _ | _ | _ <;> decide

namespace Filter

/- A filter with values of every datatype. -/
def anyValue (f : Filter) : Filter :=
  { f with valueMask := Mask.all 9 }

variable {draft f : Filter} {v : Value}

/-
  A filter that asks for a value within its mask is built to
  ask for it, and without the mask it is built to the same.
-/
theorem build_anyValue
    (hValue : draft.value = .value (.value v))
    (hAdmits : draft.valueMask.admits v.datatype = true)
    (h : draft.build = .ok f) :
    f.value = .value (.value v) ∧
      f.valueMask = draft.valueMask ∧
      draft.anyValue.build = .ok f.anyValue := by
  have hKept :
      ∀ M : DatatypeMask, M.admits v.datatype = true →
        (draft.value.retain (within M)).normalize =
          .value (.value v) := by
    intro M hM
    rw [hValue, Fingerprint.retain, if_pos]
    · rfl
    · exact hM
  unfold build at h ⊢
  have hError : draft.anyValue.error? = draft.error? := rfl
  rw [hError]
  split at h
  · cases h
  · cases h
    refine ⟨hKept _ hAdmits, rfl, ?_⟩
    simp only [normalize, anyValue, hKept _ hAdmits,
      hKept _ (DatatypeMask.admits_all v.datatype)]

/- Every target of such a filter fixes the value. -/
theorem target_of_value
    (hValue : f.value = .value (.value v))
    {codec : Codec}
    {t : Target}
    (ht : t ∈ Target.all codec f) :
    t.isValueConstrained = true ∧
      ∃ property,
        t.value =
          .ground (.value (codec.normalizeValue v property)) := by
  simp only [Target.all, List.mem_flatMap, List.mem_map] at ht
  rcases ht with ⟨s, _, p, _, w, hw, rfl⟩
  rw [hValue, Fingerprint.alternatives] at hw
  cases List.mem_singleton.mp hw
  exact ⟨rfl, _, rfl⟩

end Filter

namespace Entry

/- The mask of values is one of the tests of a datatype. -/
theorem isNone_datatypeExcludes?
    {e : Entry}
    (hKind : e.snakKind = .value)
    (f : Filter)
    (t : Target)
    (d : Datatype) :
    (e.datatypeExcludes? f t d).isNone =
      ((e.datatypeExcludes? f.anyValue t d).isNone &&
        f.valueMask.admits d) := by
  simp only [datatypeExcludes?, Filter.anyValue, hKind,
    DatatypeMask.admits_all]
  cases f.propertyMask.admits d <;>
    cases f.valueMask.admits d <;>
    cases !t.valueSnaks.isEmpty && !d.isEntity <;> rfl

/-
  Where a value is asked for, the mask of values leaves out the
  entries whose datatype it does not admit, and no others.
-/
theorem isSelected_eq
    (e : Entry)
    (f : Filter)
    {t : Target}
    (ht : t.isValueConstrained = true) :
    e.isSelected f t =
      (e.isSelected f.anyValue t &&
        e.datatype.all f.valueMask.admits) := by
  by_cases hKind : e.snakKind = .value
  · have hExcludes :
        (e.excludes? f t).isNone =
          ((e.excludes? f.anyValue t).isNone &&
            e.datatype.all f.valueMask.admits) := by
      have hSnak : f.anyValue.snakMask = f.snakMask := rfl
      have hSubject : f.anyValue.subjectMask = f.subjectMask := rfl
      unfold excludes?
      rw [hSnak, hSubject, ht]
      -- Only the last of the tests looks at the mask of values.
      split
      · rfl
      split
      · rfl
      split
      · rfl
      cases e.datatype with
      | none => rfl
      | some d => exact isNone_datatypeExcludes? hKind f t d
    rw [isSelected, isSelected, hExcludes, Bool.and_right_comm]
  · -- Entries without values are excluded with or without it.
    have hNone : ∀ g : Filter, e.isSelected g t = false := by
      intro g
      unfold isSelected
      cases hExcludes : e.excludes? g t with
      | none =>
          exact absurd ((spec_of_excludes? hExcludes).2 ht) hKind
      | some reason => rfl
    rw [hNone, hNone, Bool.false_and]

end Entry

namespace Mapping

/- Whether a mask admits the datatype of an entry, if known. -/
def isWithin (m : Mapping) (M : DatatypeMask) (id : Nat) : Bool :=
  (m.entries[id]?.bind Entry.datatype).all M.admits

end Mapping

namespace Compile

/- What a mask of values leaves of a selection. -/
theorem selection_eq_filter
    {m : Mapping}
    {f : Filter}
    {v : Value}
    (hIds : ∀ e ∈ m.entries, m.entries[e.id]? = some e)
    (hValue : f.value = .value (.value v))
    (hAdmits : f.valueMask.admits v.datatype = true) :
    selection m f =
      (selection m f.anyValue).filter
        (m.isWithin f.valueMask) := by
  have hEmpty : f.isEmpty = f.anyValue.isEmpty := by
    have hAll := DatatypeMask.admits_all v.datatype
    simp only [Filter.isEmpty, Filter.anyValue,
      DatatypeMask.isEmpty_of_admits hAdmits,
      DatatypeMask.isEmpty_of_admits hAll]
  have hTargets :
      Target.all m.codec f.anyValue = Target.all m.codec f := rfl
  unfold selection
  rw [← hEmpty, hTargets]
  cases f.isEmpty with
  | true => rfl
  | false =>
      simp only [Bool.false_eq_true, if_false, List.filter_flatMap]
      apply List.flatMap_congr
      intro t ht
      have hFixed := (Filter.target_of_value hValue ht).1
      rw [List.filter_map, List.filter_filter]
      congr 1
      apply List.filter_congr
      intro e he
      rw [e.isSelected_eq f hFixed, Bool.and_comm]
      simp only [Function.comp_apply, Mapping.isWithin, hIds e he,
        Option.bind_some]

end Compile

end StatementQuery

------------------------------------------------------------
-- Masks That Change Nothing
------------------------------------------------------------

namespace StatementQuery

namespace Mapping

/- An entry of a mapping records a registration. -/
theorem exists_records_of_build
    {codec : Codec}
    {registrations : List Registration}
    {m : Mapping}
    (hPatterns :
      ∀ r ∈ registrations, ∀ p ∈ r.patterns, p.WellFormed)
    (h : build codec registrations = .ok m)
    {e : Entry}
    (he : e ∈ m.entries) :
    ∃ r ∈ registrations, ∃ i, e.Records i r := by
  rcases exists_of_bind_eq_ok h with ⟨entries, hEntries, h⟩
  cases h
  rcases List.forall₂_iff_get.mp
      (records_of_entriesFrom hPatterns hEntries) with
    ⟨hLength, hEach⟩
  rcases List.get_of_mem he with ⟨⟨n, hn⟩, rfl⟩
  have hRecords := hEach n hn (hLength ▸ hn)
  exact
    ⟨_, List.fst_mem_of_mem_zipIdx (List.get_mem _ _), _, hRecords⟩

end Mapping

namespace Entry

variable {codec : Codec} {f : Filter} {t : Target} {e : Entry}

/-
  If the patterns of an entry carry values, its datatype is
  that of a value for which it is selected, or the value is an
  identifier and the datatype is that of strings.
-/
theorem datatype_of_isSelected
    {r : Registration}
    {index : Nat}
    {v : Value}
    {d : Datatype}
    (hRecords : e.Records index r)
    (hInferred : r.datatype = none)
    (hPatterns : ∀ p ∈ r.patterns, p.WellFormed)
    (hCarried : ∀ p ∈ e.patterns, p.CarriesValue)
    (hCodec :
      ∀ w p, (codec.normalizeValue w p).datatype = w.datatype)
    (hFilter : f.Checked)
    (hValue : f.value = .value (.value v))
    (ht : t ∈ Target.all codec f)
    (h : e.isSelected f t = true)
    (hd : e.datatype = some d) :
    v.datatype = d ∨ v.datatype = .externalId ∧ d = .string := by
  rcases Filter.target_of_value hValue ht with
    ⟨hFixed, property, hg⟩
  rcases Bool.and_eq_true_iff.mp h with ⟨hExcludes, hServes⟩
  have hKind : e.snakKind = .value :=
    (spec_of_excludes? (Option.isNone_iff_eq_none.mp
      hExcludes)).2 hFixed
  rcases hFilter.exists_asks ht .value with ⟨goal, asked, hAsks⟩
  rw [serves, hKind, hAsks.statement] at hServes
  rcases (Option.any_eq_true _ _).mp hServes with
    ⟨found, hPlan, _⟩
  rcases List.exists_of_findSome?_eq_some hPlan with
    ⟨p, hp, hMatch⟩
  rcases hCarried p hp with
    ⟨subject, snak, value, hStatement, hCarries⟩
  rw [hRecords.patterns] at hp
  have hBelow :=
    kind_le_of_matchPattern? (hPatterns p hp) hAsks hMatch
      hStatement hCarries hg
  have hAbove : value.kind ≤ d.kind :=
    ((hRecords.inferred hInferred d).mp hd).1
      ⟨p, hp, subject, snak, value, hStatement, hCarries, rfl⟩
  apply Datatype.eq_of_kind_le
  rw [← hCodec v property]
  exact hBelow.trans hAbove

end Entry

/- An emission that succeeds, whatever it is called with. -/
def Registration.Emits (r : Registration) : Prop :=
  ∀ context args g,
    ∃ rank, ((r.emit context args).run.run g).1 = .ok rank

namespace Compile

/- Where all emissions succeed, so does every call. -/
theorem succeeds_of_emits
    {codec : Codec}
    {registrations : List Registration}
    {m : Mapping}
    (hPatterns :
      ∀ r ∈ registrations, ∀ p ∈ r.patterns, p.WellFormed)
    (hEmits : ∀ r ∈ registrations, r.Emits)
    (hMapping : Mapping.build codec registrations = .ok m)
    (options : Options)
    (f : Filter) :
    Succeeds ⟨m, options, f⟩ := by
  have hEntries :
      ∀ e ∈ m.entries, ∀ context args g,
        ∃ rank,
          ((e.emit context args).run.run g).1 = .ok rank := by
    intro e he
    rcases Mapping.exists_records_of_build hPatterns hMapping
        he with
      ⟨r, hr, _, hRecords⟩
    rw [hRecords.emit]
    exact hEmits r hr
  intro e call hCall
  cases hCall with
  | own hTries =>
      rcases hTries.comes with ⟨_, _, hEntry⟩
      exact hEntries e hEntry.mem _ _ _
  | nested _ _ _ _ hExpresses =>
      rcases hExpresses.comes with ⟨_, _, hEntry⟩
      exact hEntries _ hEntry.mem _ _ _

/-
  Where patterns of entries with a datatype carry values, a
  selected entry is within each mask that admits the value, and
  strings if the value is an identifier.
-/
theorem isWithin_of_mem_selection
    {codec : Codec}
    {registrations : List Registration}
    {m : Mapping}
    {f : Filter}
    {v : Value}
    {M : DatatypeMask}
    (hPatterns :
      ∀ r ∈ registrations, ∀ p ∈ r.patterns, p.WellFormed)
    (hInferred : ∀ r ∈ registrations, r.datatype = none)
    (hMapping : Mapping.build codec registrations = .ok m)
    (hFilter : f.Checked)
    (hValue : f.value = .value (.value v))
    (hAdmits : M.admits v.datatype = true)
    (hCodec :
      ∀ w p, (codec.normalizeValue w p).datatype = w.datatype)
    (hStrings :
      v.datatype = .externalId → M.admits .string = true)
    (hCarried :
      ∀ e ∈ m.entries, e.datatype ≠ none →
        ∀ p ∈ e.patterns, p.CarriesValue)
    {id : Nat}
    (h : id ∈ selection m f) :
    m.isWithin M id = true := by
  unfold selection at h
  split at h
  · cases h
  rcases List.mem_flatMap.mp h with ⟨t, ht, h⟩
  rcases List.mem_map.mp h with ⟨e, hMem, rfl⟩
  rcases List.mem_filter.mp hMem with ⟨he, hSelected⟩
  rcases Mapping.entry_of_build hMapping he with ⟨hSame, hAt, _⟩
  rcases Mapping.exists_records_of_build hPatterns hMapping he with
    ⟨r, hr, index, hRecords⟩
  rw [Mapping.isWithin, hAt, Option.bind_some]
  cases hd : e.datatype with
  | none => rfl
  | some d =>
      rw [hSame] at ht
      rcases Entry.datatype_of_isSelected hRecords
          (hInferred r hr) (hPatterns r hr)
          (hCarried e he (by simp [hd])) hCodec hFilter hValue ht
          hSelected hd with
        rfl | ⟨hIdentifier, rfl⟩
      · exact hAdmits
      · exact hStrings hIdentifier

/-
  A mask that admits the value asked for leaves out exactly the
  entries whose datatype it does not admit.  It leaves out none
  if conventions keep datatypes, identifiers are asked for
  together with strings, and every pattern of an entry with a
  datatype carries a value.
-/
theorem selection_of_valueMask
    {codec : Codec}
    {registrations : List Registration}
    {m : Mapping}
    {options : Options}
    {draft f : Filter}
    {v : Value}
    (hPatterns :
      ∀ r ∈ registrations, ∀ p ∈ r.patterns, p.WellFormed)
    (hInferred : ∀ r ∈ registrations, r.datatype = none)
    (hMapping : Mapping.build codec registrations = .ok m)
    (hValue : draft.value = .value (.value v))
    (hAdmits : draft.valueMask.admits v.datatype = true)
    (hFilter : draft.build = .ok f)
    (hCalls : Succeeds ⟨m, options, f⟩)
    (hWideCalls : Succeeds ⟨m, options, f.anyValue⟩) :
    draft.anyValue.build = .ok f.anyValue ∧
      ∃ q wide,
        (compile m options f).result = .ok q ∧
          (compile m options f.anyValue).result = .ok wide ∧
          q.plans.map BranchPlan.entryId =
            (wide.plans.map BranchPlan.entryId).filter
              (m.isWithin draft.valueMask) ∧
          ((∀ w p,
              (codec.normalizeValue w p).datatype =
                w.datatype) →
            (v.datatype = .externalId →
              draft.valueMask.admits .string = true) →
            (∀ e ∈ m.entries, e.datatype ≠ none →
              ∀ p ∈ e.patterns, p.CarriesValue) →
            q.plans.map BranchPlan.entryId =
              wide.plans.map BranchPlan.entryId) := by
  rcases Filter.build_anyValue hValue hAdmits hFilter with
    ⟨hOne, hMask, hWide⟩
  have hEntries := Mapping.wellFormed_of_build hPatterns hMapping
  rcases exists_compile_selection hEntries
      (Filter.checked_of_build hFilter) hCalls with
    ⟨q, hCompile, hSelection⟩
  rcases exists_compile_selection hEntries
      (Filter.checked_of_build hWide) hWideCalls with
    ⟨wide, hWideCompile, hWideSelection⟩
  have hFiltered :
      selection m f =
        (selection m f.anyValue).filter
          (m.isWithin draft.valueMask) := by
    rw [← hMask] at hAdmits ⊢
    exact
      selection_eq_filter
        (fun e he => (Mapping.entry_of_build hMapping he).2.1)
        hOne hAdmits
  refine ⟨hWide, q, wide, hCompile, hWideCompile, ?_, ?_⟩
  · rw [hSelection, hWideSelection, hFiltered]
  · intro hCodec hStrings hCarried
    rw [hSelection, hWideSelection, hFiltered]
    apply List.filter_eq_self.mpr
    intro id hId
    exact
      isWithin_of_mem_selection hPatterns hInferred hMapping
        (Filter.checked_of_build hWide) hOne hAdmits hCodec
        hStrings hCarried hId

/- Statements with a value of a kind. -/
def valued (k : Kind) : Registration where
  patterns :=
    [.app .statement
      [some (.var ⟨"s", .entity⟩),
        some
          (.app .valueSnak
            [some (.var ⟨"p", .property⟩),
              some (.var ⟨"v", k⟩)])]]
  emit := fun _ _ => pure none

/- What has a value, with a mask of values. -/
def having (v : Value) (M : List Datatype) : Filter where
  value := .value (.value v)
  valueMask := DatatypeMask.ofList M

/-
  The entries selected for a filter, and for the filter without
  its mask of values.
-/
def selections
    (codec : Codec)
    (registrations : List Registration)
    (draft : Filter) :
    Option (List Nat × List Nat) := do
  let m ← (Mapping.build codec registrations).toOption
  let f ← draft.build.toOption
  let q ← (compile m {} f).result.toOption
  let wide ← (compile m {} f.anyValue).result.toOption
  pure
    (q.plans.map BranchPlan.entryId,
      wide.plans.map BranchPlan.entryId)

theorem exists_of_selections
    {codec : Codec}
    {registrations : List Registration}
    {draft : Filter}
    {ids wideIds : List Nat}
    (h :
      selections codec registrations draft = some (ids, wideIds)) :
    ∃ m f q wide,
      Mapping.build codec registrations = .ok m ∧
        draft.build = .ok f ∧
        (compile m {} f).result = .ok q ∧
        (compile m {} f.anyValue).result = .ok wide ∧
        q.plans.map BranchPlan.entryId = ids ∧
        wide.plans.map BranchPlan.entryId = wideIds := by
  rcases Option.bind_eq_some_iff.mp h with ⟨m, hm, h⟩
  rcases Option.bind_eq_some_iff.mp h with ⟨f, hf, h⟩
  rcases Option.bind_eq_some_iff.mp h with ⟨q, hq, h⟩
  rcases Option.bind_eq_some_iff.mp h with ⟨wide, hWide, h⟩
  cases h
  exact
    ⟨m, f, q, wide, eq_ok_of_toOption hm, eq_ok_of_toOption hf,
      eq_ok_of_toOption hq, eq_ok_of_toOption hWide, rfl, rfl⟩

theorem emits_valued
    (k : Kind) :
    (valued k).Emits :=
  fun _ _ _ => ⟨none, rfl⟩

/- Identifiers are found among strings, where both are asked for. -/
theorem selection_of_valueMask_identifier :
    ∃ m f q wide,
      Mapping.build .verbatim
          [valued .string, valued .externalId, valued .item] =
          .ok m ∧
        (having (.externalId "x") [.string, .externalId]).build =
          .ok f ∧
        Succeeds ⟨m, {}, f⟩ ∧
        Succeeds ⟨m, {}, f.anyValue⟩ ∧
        (compile m {} f).result = .ok q ∧
        (compile m {} f.anyValue).result = .ok wide ∧
        q.plans.map BranchPlan.entryId =
          wide.plans.map BranchPlan.entryId ∧
        wide.plans.map BranchPlan.entryId = [0, 1] := by
  have hSelections :
      selections .verbatim
          [valued .string, valued .externalId, valued .item]
          (having (.externalId "x") [.string, .externalId]) =
        some ([0, 1], [0, 1]) := by
    decide +kernel
  rcases exists_of_selections hSelections with
    ⟨m, f, q, wide, hMapping, hFilter, hq, hWide, _, hIds⟩
  have hPatterns :
      ∀ r ∈ [valued .string, valued .externalId, valued .item],
        ∀ p ∈ r.patterns, p.WellFormed := by
    decide
  have hEmits :
      ∀ r ∈ [valued .string, valued .externalId, valued .item],
        r.Emits := by
    simp [emits_valued]
  have hCalls :=
    succeeds_of_emits hPatterns hEmits hMapping {}
  have hCarried :
      ∀ e ∈ m.entries, e.datatype ≠ none →
        ∀ p ∈ e.patterns, p.CarriesValue := by
    intro e he _
    rcases Mapping.entry_of_build hMapping he with
      ⟨_, _, r, hr, hSame⟩
    rw [hSame]
    have hOne : ∃ k, r = valued k := by
      simp only [List.mem_cons, List.not_mem_nil, or_false] at hr
      rcases hr with rfl | rfl | rfl <;> exact ⟨_, rfl⟩
    rcases hOne with ⟨k, rfl⟩
    intro p hp
    cases List.mem_singleton.mp hp
    exact ⟨_, _, _, ⟨rfl, rfl⟩, rfl, _, rfl⟩
  rcases selection_of_valueMask hPatterns (by decide) hMapping rfl
      (by decide) hFilter (hCalls f) (hCalls f.anyValue) with
    ⟨_, q', wide', hq', hWide', _, hSame⟩
  rw [hq] at hq'
  rw [hWide] at hWide'
  cases hq'
  cases hWide'
  exact
    ⟨m, f, q, wide, hMapping, hFilter, hCalls f,
      hCalls f.anyValue, hq, hWide,
      hSame (fun _ _ => rfl) (fun _ => by decide) hCarried, hIds⟩

/-
  An entry is selected for a value, and is not if a mask that
  admits the value is added.
-/
structure LeavesOut
    (codec : Codec)
    (r : Registration)
    (v : Value)
    (draft : Filter) :
    Prop where
  patterns : ∀ p ∈ r.patterns, p.WellFormed
  inferred : r.datatype = none
  emits : r.Emits
  value : draft.value = .value (.value v)
  admits : draft.valueMask.admits v.datatype = true
  differ :
    ∃ m f q wide,
      Mapping.build codec [r] = .ok m ∧
        draft.build = .ok f ∧
        draft.anyValue.build = .ok f.anyValue ∧
        (compile m {} f).result = .ok q ∧
        (compile m {} f.anyValue).result = .ok wide ∧
        q.plans.map BranchPlan.entryId = [] ∧
        wide.plans.map BranchPlan.entryId = [0]

theorem leavesOut_of_selections
    {codec : Codec}
    {r : Registration}
    {v : Value}
    {M : List Datatype}
    (hPatterns : ∀ p ∈ r.patterns, p.WellFormed)
    (hInferred : r.datatype = none)
    (hEmits : r.Emits)
    (hAdmits : (having v M).valueMask.admits v.datatype = true)
    (h : selections codec [r] (having v M) = some ([], [0])) :
    LeavesOut codec r v (having v M) := by
  rcases exists_of_selections h with
    ⟨m, f, q, wide, hMapping, hFilter, hq, hWide, hIds, hWideIds⟩
  have hBuild :=
    (Filter.build_anyValue rfl hAdmits hFilter).2.2
  exact
    { patterns := hPatterns
      inferred := hInferred
      emits := hEmits
      value := rfl
      admits := hAdmits
      differ :=
        ⟨m, f, q, wide, hMapping, hFilter, hBuild, hq, hWide,
          hIds, hWideIds⟩ }

/- Statements with a string, or with any value at all. -/
def mixed : Registration :=
  { valued .string with
    patterns :=
      (valued .string).patterns ++
        [.app .statement
          [some (.var ⟨"s", .entity⟩),
            some (.var ⟨"q", .valueSnak⟩)]] }

/- A store that has no entities as values. -/
def entitiesAsIris : Codec :=
  { Codec.verbatim with
    normalizeValue := fun v _ =>
      match v with
      | .entity e => .iri e.iri
      | v => v }

/- An item that is asked for. -/
def someItem : Value :=
  .item ⟨"http://www.wikidata.org/entity/Q42"⟩

/-
  Identifiers are strings, a pattern may take any value, and
  conventions may change a datatype; a mask knows of none.
-/
theorem leavesOut_despite_mask :
    LeavesOut .verbatim (valued .string) (.externalId "x")
        (having (.externalId "x") [.externalId]) ∧
      LeavesOut .verbatim mixed someItem
        (having someItem [.entity .item]) ∧
      LeavesOut entitiesAsIris (valued .iri) someItem
        (having someItem [.entity .item]) := by
  refine ⟨?_, ?_, ?_⟩
  · exact
      leavesOut_of_selections (by decide) rfl (emits_valued _)
        (by decide) (by decide +kernel)
  · exact
      leavesOut_of_selections (by decide) rfl
        (fun _ _ _ => ⟨none, rfl⟩) (by decide) (by decide +kernel)
  · exact
      leavesOut_of_selections (by decide) rfl (emits_valued _)
        (by decide) (by decide +kernel)

end Compile

end StatementQuery
