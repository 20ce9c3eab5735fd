import StatementQuery.Proofs.Equality

/-
  Building terms from arguments that fit.

  Arguments that fit the slots of a constructor, with one kind
  for each name, pass the checks as they are.  What is built
  from them depends on their canonical forms only, and a
  ground term is built again from its own arguments.

  Key definitions include:
    * `Term.assemble?`

  Main declarations:
    * `Term.apply_eq_assemble?`
    * `Ground.build_canonical`
    * `Ground.args?_spec`
-/

------------------------------------------------------------
-- Checks That Pass
------------------------------------------------------------

namespace StatementQuery

/- The first result of a computation that succeeds. -/
theorem exists_of_bind_eq_ok
    {ε α β : Type}
    {x : Except ε α}
    {f : α → Except ε β}
    {b : β}
    (h : (x >>= f) = .ok b) :
    ∃ a, x = .ok a ∧ f a = .ok b := by
  cases x with
  | error e => cases h
  | ok a => exact ⟨a, rfl, h⟩

/- A computation that gives a result succeeds with it. -/
theorem eq_ok_of_toOption
    {ε α : Type}
    {x : Except ε α}
    {a : α}
    (h : x.toOption = some a) :
    x = .ok a := by
  cases x with
  | error e => cases h
  | ok b =>
      cases h
      rfl

/- A result that is changed afterwards fails as it did. -/
theorem map_eq_error_iff
    {ε α β : Type}
    {x : Except ε α}
    {f : α → β}
    {e : ε} :
    x.map f = .error e ↔ x = .error e := by
  cases x <;> simp [Except.map]

/- What a string or an IRI is promoted to has the kind. -/
theorem Ground.kind_of_promote?
    {g h : Ground}
    {k : Kind}
    (hEq : g.promote? k = some h) :
    h.kind = k := by
  unfold Ground.promote? at hEq
  split at hEq
  all_goals
    cases hEq
    try rfl

namespace Term

/- An argument that fits its slot is taken as it is. -/
theorem checkArg_of_admits
    (c : Constructor)
    (position : Nat)
    {slot : Slot}
    {arg : Option Term}
    (h : slot.Admits arg) :
    checkArg c position slot arg = .ok arg := by
  cases arg with
  | none =>
      have hOptional : slot.isOptional = true := h
      simp [checkArg, hOptional]
  | some t =>
      have hKind : t.kind ≤ slot.kind := h
      cases t with
      | ground g => simp_all [checkArg, kind]
      | var v => simp_all [checkArg, kind]
      | app d args => simp_all [checkArg, kind]

/- Arguments that fit their slots are taken as they are. -/
theorem checkArgs_of_admits
    (c : Constructor)
    (position : Nat)
    {slots : List Slot}
    {args : List (Option Term)}
    (h : List.Forall₂ Slot.Admits slots args) :
    checkArgs c position slots args = .ok args := by
  induction h generalizing position with
  | nil => rfl
  | cons hHead hTail ih =>
      simp [checkArgs, checkArg_of_admits c position hHead,
        ih (position + 1), bind, Except.bind]

/- Arguments in which each name has one kind are normal. -/
theorem normalizeArgs_of_atKinds
    {κ : Kinding}
    {args : List (Option Term)}
    (h : Variable.AtKinds κ (occurrencesArgs args)) :
    normalizeArgs args = .ok args := by
  rcases Variable.exists_leastKinds_of_atKinds h with
    ⟨table, hTable, hNarrow⟩
  have hArgs :
      mapVariablesArgs (Variable.narrow table) args = args := by
    rw [mapVariablesArgs_eq_map]
    refine Eq.trans ?_ (List.map_id args)
    apply List.map_congr_left
    intro arg hArg
    cases arg with
    | none => rfl
    | some t =>
        have ht : t.mapVariables (Variable.narrow table) = t := by
          apply mapVariables_eq_self
          intro v hv
          apply hNarrow
          exact (mem_occurrencesArgs v args).mpr ⟨t, hArg, hv⟩
        simp [ht]
  simp [normalizeArgs, hTable, hArgs]

/- The term that a constructor builds from fitting arguments. -/
def assemble?
    (c : Constructor)
    (args : List (Option Term)) :
    Option Term :=
  if args.any isOpenArg then some (.app c args)
  else (Ground.build c (args.map groundArg)).toOption.map .ground

/- Fitting arguments are assembled as they are. -/
theorem apply_eq_assemble?
    {κ : Kinding}
    {c : Constructor}
    {args : List (Option Term)}
    (hSlots : List.Forall₂ Slot.Admits c.slots args)
    (hKinds : Variable.AtKinds κ (occurrencesArgs args)) :
    (apply c args).toOption = assemble? c args := by
  have hLength : args.length = c.slots.length :=
    hSlots.length_eq.symm
  unfold apply assemble?
  rw [if_pos hLength, checkArgs_of_admits c 0 hSlots]
  cases hOpen : args.any isOpenArg with
  | true =>
      simp [bind, Except.bind, hOpen,
        normalizeArgs_of_atKinds hKinds, Except.toOption]
  | false =>
      cases hBuild : Ground.build c (args.map groundArg) with
      | error e =>
          simp [bind, Except.bind, hOpen, hBuild,
            Except.toOption]
      | ok g =>
          simp [bind, Except.bind, hOpen, hBuild,
            Except.toOption]

end Term

end StatementQuery

------------------------------------------------------------
-- Built Terms Are Well Formed
------------------------------------------------------------

namespace StatementQuery

namespace Term

/- An argument that passes its check fits its slot. -/
theorem admits_of_checkArg
    {c : Constructor}
    {position : Nat}
    {slot : Slot}
    {arg checked : Option Term}
    (hShaped : ∀ t, arg = some t → t.WellShaped)
    (h : checkArg c position slot arg = .ok checked) :
    slot.Admits checked ∧
      ∀ t, checked = some t → t.WellShaped := by
  rcases arg with _ | (g | v | ⟨d, args⟩)
  · simp only [checkArg] at h
    split at h
    · rename_i hOptional
      cases h
      exact ⟨hOptional, by simp⟩
    · cases h
  · simp only [checkArg] at h
    split at h
    · rename_i hKind
      cases h
      exact ⟨hKind, hShaped⟩
    · split at h
      · rename_i g' hPromote
        cases h
        refine ⟨le_of_eq (Ground.kind_of_promote? hPromote), ?_⟩
        rintro t ⟨⟩
        exact .ground g'
      · cases h
  · simp only [checkArg] at h
    split at h
    · rename_i hKind
      cases h
      exact ⟨hKind, hShaped⟩
    · split at h
      · cases h
        refine ⟨le_refl slot.kind, ?_⟩
        rintro t ⟨⟩
        exact .var _
      · cases h
  · simp only [checkArg] at h
    split at h
    · rename_i hKind
      cases h
      exact ⟨hKind, hShaped⟩
    · cases h

/- Arguments that pass their checks fit their slots. -/
theorem admits_of_checkArgs
    {c : Constructor}
    {position : Nat}
    {slots : List Slot}
    {args checked : List (Option Term)}
    (hLength : args.length = slots.length)
    (hShaped : ∀ t, some t ∈ args → t.WellShaped)
    (h : checkArgs c position slots args = .ok checked) :
    List.Forall₂ Slot.Admits slots checked ∧
      ∀ t, some t ∈ checked → t.WellShaped := by
  induction slots generalizing position args checked with
  | nil =>
      have hNil : args = [] := by simpa using hLength
      subst hNil
      cases h
      exact ⟨.nil, by simp⟩
  | cons slot slots ih =>
      cases args with
      | nil => simp at hLength
      | cons arg args =>
          rcases exists_of_bind_eq_ok h with ⟨first, hFirst, h⟩
          rcases exists_of_bind_eq_ok h with ⟨rest, hRest, h⟩
          cases h
          have hHead :
              ∀ t, arg = some t → t.WellShaped := by
            rintro t rfl
            exact hShaped t (by simp)
          have hTail : ∀ t, some t ∈ args → t.WellShaped := by
            intro t ht
            exact hShaped t (by simp [ht])
          rcases admits_of_checkArg hHead hFirst with
            ⟨hAdmits, hFirstShaped⟩
          rcases ih (by simpa using hLength) hTail hRest with
            ⟨hRestAdmits, hRestShaped⟩
          refine ⟨.cons hAdmits hRestAdmits, ?_⟩
          intro t ht
          rcases List.mem_cons.mp ht with hEq | hMem
          · exact hFirstShaped t hEq.symm
          · exact hRestShaped t hMem

/- A constructor builds well-formed terms. -/
theorem wellFormed_apply
    {c : Constructor}
    {args : List (Option Term)}
    {t : Term}
    (hArgs : ∀ u, some u ∈ args → u.WellShaped)
    (h : apply c args = .ok t) :
    t.WellFormed := by
  unfold apply at h
  split at h
  · rename_i hLength
    rcases exists_of_bind_eq_ok h with ⟨checked, hChecked, h⟩
    rcases admits_of_checkArgs hLength hArgs hChecked with
      ⟨hAdmits, hShaped⟩
    split at h
    · rename_i hOpen
      rcases exists_of_bind_eq_ok h with ⟨normal, hNormal, h⟩
      cases h
      unfold normalizeArgs at hNormal
      split at hNormal
      · rename_i table hTable
        cases hNormal
        have hNarrow :
            ∀ v ∈ occurrencesArgs checked,
              (Variable.narrow table v).kind ≤ v.kind := by
          intro v hv
          exact Variable.narrow_kind_le hTable hv
        have hApp : (Term.app c checked).WellShaped :=
          .app hAdmits hOpen hShaped
        have hMapped :=
          wellShaped_mapVariables
            (f := Variable.narrow table) (t := .app c checked)
            hNarrow hApp
        refine ⟨hMapped, ?_⟩
        -- The kind of a narrowed variable depends on its name.
        intro v hv w hw hName
        rcases
            (mem_occurrences_mapVariables _ (.app c checked) v).mp
              hv with
          ⟨v', hv', rfl⟩
        rcases
            (mem_occurrences_mapVariables _ (.app c checked) w).mp
              hw with
          ⟨w', hw', rfl⟩
        have hNames : v'.name = w'.name := hName
        rcases (Variable.leastKinds_ok _ table hTable).1 v' hv'
          with ⟨l, hLookup, _⟩
        have hLookup' : table.lookup w'.name = some l := by
          rw [← hNames]
          exact hLookup
        simp [Variable.narrow, Variable.withKind, hLookup,
          hLookup']
      · cases hNormal
    · rcases exists_of_bind_eq_ok h with ⟨g, _, h⟩
      cases h
      exact ⟨.ground g, by simp [Variable.OneKind, occurrences]⟩
  · cases h

/- A check keeps the names of an argument. -/
theorem exists_name_of_checkArg
    {c : Constructor}
    {position : Nat}
    {slot : Slot}
    {arg checked : Option Term}
    (h : checkArg c position slot arg = .ok checked)
    {t : Term}
    (ht : checked = some t)
    {v : Variable}
    (hv : v ∈ t.occurrences) :
    ∃ u, arg = some u ∧ ∃ w ∈ u.occurrences, w.name = v.name := by
  rcases arg with _ | (g | w | ⟨d, args⟩)
  · simp only [checkArg] at h
    split at h
    · cases h
      cases ht
    · cases h
  · simp only [checkArg] at h
    split at h
    · cases h
      cases ht
      simp [occurrences] at hv
    · split at h
      · cases h
        cases ht
        simp [occurrences] at hv
      · cases h
  · simp only [checkArg] at h
    refine ⟨.var w, rfl, w, by simp [occurrences], ?_⟩
    split at h
    · cases h
      cases ht
      cases List.mem_singleton.mp hv
      rfl
    · split at h
      · cases h
        cases ht
        cases List.mem_singleton.mp hv
        rfl
      · cases h
  · simp only [checkArg] at h
    split at h
    · cases h
      cases ht
      exact ⟨.app d args, rfl, v, hv, rfl⟩
    · cases h

/- Checks keep the names of arguments. -/
theorem exists_name_of_checkArgs
    {c : Constructor}
    {position : Nat}
    {slots : List Slot}
    {args checked : List (Option Term)}
    (h : checkArgs c position slots args = .ok checked)
    {v : Variable}
    (hv : v ∈ occurrencesArgs checked) :
    ∃ w ∈ occurrencesArgs args, w.name = v.name := by
  induction slots generalizing position args checked with
  | nil =>
      cases args <;> cases h <;> simp [occurrencesArgs] at hv
  | cons slot slots ih =>
      cases args with
      | nil =>
          cases h
          simp [occurrencesArgs] at hv
      | cons arg args =>
          rcases exists_of_bind_eq_ok h with ⟨first, hFirst, h⟩
          rcases exists_of_bind_eq_ok h with ⟨rest, hRest, h⟩
          cases h
          rcases (mem_occurrencesArgs v (first :: rest)).mp hv
            with ⟨t, ht, hv⟩
          rcases List.mem_cons.mp ht with hEq | ht
          · rcases exists_name_of_checkArg hFirst hEq.symm hv
              with ⟨u, rfl, w, hw, hName⟩
            refine ⟨w, ?_, hName⟩
            exact (mem_occurrencesArgs w _).mpr
              ⟨u, by simp, hw⟩
          · have hv' :=
              (mem_occurrencesArgs v rest).mpr ⟨t, ht, hv⟩
            rcases ih hRest hv' with ⟨w, hw, hName⟩
            rcases (mem_occurrencesArgs w args).mp hw with
              ⟨u, hu, hw⟩
            refine ⟨w, ?_, hName⟩
            exact (mem_occurrencesArgs w _).mpr
              ⟨u, by simp [hu], hw⟩

/- A constructor brings in no name. -/
theorem exists_name_of_apply
    {c : Constructor}
    {args : List (Option Term)}
    {t : Term}
    (h : apply c args = .ok t)
    {v : Variable}
    (hv : v ∈ t.occurrences) :
    ∃ w ∈ occurrencesArgs args, w.name = v.name := by
  unfold apply at h
  split at h
  · rcases exists_of_bind_eq_ok h with ⟨checked, hChecked, h⟩
    split at h
    · rcases exists_of_bind_eq_ok h with ⟨normal, hNormal, h⟩
      cases h
      unfold normalizeArgs at hNormal
      split at hNormal
      · rename_i table hTable
        cases hNormal
        rcases (mem_occurrences_mapVariables
            (Variable.narrow table) (.app c checked) v).mp hv with
          ⟨w, hw, rfl⟩
        rcases exists_name_of_checkArgs hChecked hw with
          ⟨x, hx, hName⟩
        exact ⟨x, hx, hName⟩
      · cases hNormal
    · rcases exists_of_bind_eq_ok h with ⟨g, _, h⟩
      cases h
      simp [occurrences] at hv
  · cases h

end Term

end StatementQuery

------------------------------------------------------------
-- Ground Terms Of A Kind
------------------------------------------------------------

namespace StatementQuery

/- Entities of every kind are entities. -/
theorem EntityKind.kind_le_entity
    (e : EntityKind) :
    e.kind ≤ .entity := by
  cases e <;> decide

/- An entity kind lies below no other. -/
theorem EntityKind.eq_of_kind_le
    {k l : EntityKind}
    (h : k.kind ≤ l.kind) :
    k = l := by
  cases k <;> cases l <;>
    first
    | rfl
    | exact absurd h (by decide)

/- Values of every kind are values. -/
theorem Value.kind_le_value
    (v : Value) :
    v.kind ≤ .value := by
  cases v with
  | entity e =>
      exact le_trans e.kind.kind_le_entity (by decide)
  | _ =>
      all_goals
        simp only [Value.kind, Value.datatype, Datatype.kind]
        decide

/- Snaks of every kind are snaks. -/
theorem Snak.kind_le_snak
    (s : Snak) :
    s.kind ≤ .snak := by
  cases s <;> simp only [Snak.kind] <;> decide

namespace Ground

/- Values, snaks and statements are of different kinds. -/
theorem kind_cases
    (g : Ground) :
    (∃ v, g = .value v ∧ g.kind ≤ .value) ∨
      (∃ s, g = .snak s ∧ g.kind ≤ .snak) ∨
      ∃ s, g = .statement s ∧ g.kind ≤ .statement := by
  cases g with
  | value v => exact Or.inl ⟨v, rfl, v.kind_le_value⟩
  | snak s =>
      exact Or.inr (Or.inl ⟨s, rfl, s.kind_le_snak⟩)
  | statement s =>
      exact Or.inr (Or.inr ⟨s, rfl, le_refl Kind.statement⟩)

/- The ground terms of the kind of values are values. -/
theorem exists_value_of_kind_le
    {g : Ground}
    (h : g.kind ≤ .value) :
    ∃ v, g = .value v := by
  rcases kind_cases g with
    ⟨v, rfl, _⟩ | ⟨s, rfl, hKind⟩ | ⟨s, rfl, hKind⟩
  · exact ⟨v, rfl⟩
  · exact absurd (Kind.comparable_of_le hKind h) (by decide)
  · exact absurd (Kind.comparable_of_le hKind h) (by decide)

/- The ground terms of the kind of snaks are snaks. -/
theorem exists_snak_of_kind_le
    {g : Ground}
    (h : g.kind ≤ .snak) :
    ∃ s, g = .snak s := by
  rcases kind_cases g with
    ⟨v, rfl, hKind⟩ | ⟨s, rfl, _⟩ | ⟨s, rfl, hKind⟩
  · exact absurd (Kind.comparable_of_le hKind h) (by decide)
  · exact ⟨s, rfl⟩
  · exact absurd (Kind.comparable_of_le hKind h) (by decide)

/- The values of the kind of entities are entities. -/
theorem exists_entity_of_kind_le
    {g : Ground}
    (h : g.kind ≤ .entity) :
    ∃ e, g = .value (.entity e) := by
  rcases exists_value_of_kind_le (le_trans h (by decide)) with
    ⟨v, rfl⟩
  cases v with
  | entity e => exact ⟨e, rfl⟩
  | _ =>
      all_goals
        simp only [kind, Value.kind, Value.datatype,
          Datatype.kind] at h
        exact absurd h (by decide)

/- The entities of one kind, by that kind. -/
theorem exists_iri_of_kind_le
    {g : Ground}
    {k : EntityKind}
    (h : g.kind ≤ k.kind) :
    ∃ i, g = .value (.entity ⟨k, i⟩) := by
  rcases exists_entity_of_kind_le
      (le_trans h k.kind_le_entity) with
    ⟨⟨l, i⟩, rfl⟩
  have hEq : l = k := EntityKind.eq_of_kind_le h
  exact ⟨i, by rw [hEq]⟩

/- A data value's kind says which constructor made it. -/
theorem exists_dataValue_of_kind_le
    {g : Ground}
    (h : g.kind ≤ .dataValue) :
    (∃ i, g = .value (.iri i)) ∨
      (∃ s l, g = .value (.text s l)) ∨
      (∃ s, content? (some g) = some s ∧ g.kind ≤ .string) ∨
      (∃ q, g = .value (.quantity q)) ∨
      ∃ t, g = .value (.time t) := by
  rcases exists_value_of_kind_le (le_trans h (by decide)) with
    ⟨v, rfl⟩
  cases v with
  | entity e =>
      have hKind : e.kind.kind ≤ .dataValue := h
      have hMeet :=
        Kind.comparable_of_le hKind e.kind.kind_le_entity
      exact absurd hMeet (by decide)
  | string s =>
      refine Or.inr (Or.inr (Or.inl ⟨s, rfl, ?_⟩))
      exact le_refl Kind.string
  | externalId s =>
      refine Or.inr (Or.inr (Or.inl ⟨s, rfl, ?_⟩))
      exact (by decide : Kind.externalId ≤ Kind.string)
  | _ => all_goals simp

/- Strings and external identifiers have a content. -/
theorem exists_content_of_kind_le
    {g : Ground}
    (h : g.kind ≤ .string) :
    ∃ s, content? (some g) = some s := by
  rcases exists_dataValue_of_kind_le
      (le_trans h (by decide)) with
    ⟨i, rfl⟩ | ⟨s, l, rfl⟩ | ⟨s, hs, _⟩ | ⟨q, rfl⟩ | ⟨t, rfl⟩
  · exact absurd h (by decide : ¬ Kind.iri ≤ Kind.string)
  · exact absurd h (by decide : ¬ Kind.text ≤ Kind.string)
  · exact ⟨s, hs⟩
  · exact absurd h (by decide : ¬ Kind.quantity ≤ Kind.string)
  · exact absurd h (by decide : ¬ Kind.time ≤ Kind.string)

/- The values of the kind of IRIs are IRIs. -/
theorem exists_iri_of_kind_le_iri
    {g : Ground}
    (h : g.kind ≤ .iri) :
    ∃ i, g = .value (.iri i) := by
  rcases exists_dataValue_of_kind_le
      (le_trans h (by decide)) with
    hIri | ⟨s, l, rfl⟩ | ⟨s, _, hs⟩ | ⟨q, rfl⟩ | ⟨t, rfl⟩
  · exact hIri
  · exact absurd h (by decide : ¬ Kind.text ≤ Kind.iri)
  · exact absurd (Kind.comparable_of_le hs h) (by decide)
  · exact absurd h (by decide : ¬ Kind.quantity ≤ Kind.iri)
  · exact absurd h (by decide : ¬ Kind.time ≤ Kind.iri)

/- The values of the kind of quantities are quantities. -/
theorem exists_quantity_of_kind_le
    {g : Ground}
    (h : g.kind ≤ .quantity) :
    ∃ q, g = .value (.quantity q) := by
  rcases exists_dataValue_of_kind_le
      (le_trans h (by decide)) with
    ⟨i, rfl⟩ | ⟨s, l, rfl⟩ | ⟨s, _, hs⟩ | hQuantity | ⟨t, rfl⟩
  · exact absurd h (by decide : ¬ Kind.iri ≤ Kind.quantity)
  · exact absurd h (by decide : ¬ Kind.text ≤ Kind.quantity)
  · exact absurd (Kind.comparable_of_le hs h) (by decide)
  · exact hQuantity
  · exact absurd h (by decide : ¬ Kind.time ≤ Kind.quantity)

/- A ground term of the kind of times is one. -/
theorem exists_time_of_kind_le
    {g : Ground}
    (h : g.kind ≤ .time) :
    ∃ t, g = .value (.time t) := by
  rcases exists_dataValue_of_kind_le
      (le_trans h (by decide)) with
    ⟨i, rfl⟩ | ⟨s, l, rfl⟩ | ⟨s, _, hs⟩ | ⟨q, rfl⟩ | hTime
  · exact absurd h (by decide : ¬ Kind.iri ≤ Kind.time)
  · exact absurd h (by decide : ¬ Kind.text ≤ Kind.time)
  · exact absurd (Kind.comparable_of_le hs h) (by decide)
  · exact absurd h (by decide : ¬ Kind.quantity ≤ Kind.time)
  · exact hTime

end Ground

end StatementQuery

------------------------------------------------------------
-- Constructors That Cannot Fail
------------------------------------------------------------

namespace StatementQuery

namespace Ground

/- What stands in a required slot is present. -/
theorem exists_of_admits_required
    {k : Kind}
    {a : Option Ground}
    (h : (Slot.required k).Admits (a.map Term.ground)) :
    ∃ g, a = some g ∧ g.kind ≤ k := by
  cases a with
  | none => exact absurd h (by decide : ¬ false = true)
  | some g => exact ⟨g, rfl, h⟩

/- Only times can be refused when the arguments fit. -/
theorem exists_build
    {c : Constructor}
    {gs : List (Option Ground)}
    (hTime : c ≠ .time)
    (hSlots :
      List.Forall₂ Slot.Admits c.slots
        (gs.map (Option.map Term.ground))) :
    ∃ g, build c gs = .ok g := by
  have hLength : gs.length = c.slots.length := by
    simpa using hSlots.length_eq.symm
  cases c with
  | time => exact absurd rfl hTime
  | iri =>
      rcases List.length_eq_one_iff.mp hLength with ⟨a, rfl⟩
      rcases hSlots with _ | ⟨hA, _⟩
      rcases exists_of_admits_required hA with ⟨g, rfl, hg⟩
      rcases exists_content_of_kind_le hg with ⟨s, hs⟩
      exact ⟨.value (.iri ⟨s⟩), by simp [build, hs]⟩
  | entity k =>
      rcases List.length_eq_one_iff.mp hLength with ⟨a, rfl⟩
      rcases hSlots with _ | ⟨hA, _⟩
      rcases exists_of_admits_required hA with ⟨g, rfl, hg⟩
      rcases exists_iri_of_kind_le_iri hg with ⟨i, rfl⟩
      exact ⟨.value (.entity ⟨k, i⟩), rfl⟩
  | text =>
      rcases List.length_eq_two.mp hLength with ⟨a, b, rfl⟩
      rcases hSlots with _ | ⟨hA, _ | ⟨hB, _⟩⟩
      rcases exists_of_admits_required hA with ⟨g, rfl, hg⟩
      rcases exists_of_admits_required hB with ⟨h, rfl, hh⟩
      rcases exists_content_of_kind_le hg with ⟨s, hs⟩
      rcases exists_content_of_kind_le hh with ⟨l, hl⟩
      exact ⟨.value (.text s l), by simp [build, hs, hl]⟩
  | quantity =>
      rcases gs with
        _ | ⟨a, _ | ⟨b, _ | ⟨lower, _ | ⟨upper, _ | ⟨e, gs⟩⟩⟩⟩⟩ <;>
        simp only [Constructor.slots, List.length_cons,
          List.length_nil] at hLength <;>
        try omega
      rcases hSlots with _ | ⟨hA, _⟩
      rcases exists_of_admits_required hA with ⟨g, rfl, hg⟩
      rcases exists_quantity_of_kind_le hg with ⟨q, rfl⟩
      exact ⟨_, rfl⟩
  | valueSnak =>
      rcases List.length_eq_two.mp hLength with ⟨a, b, rfl⟩
      rcases hSlots with _ | ⟨hA, _ | ⟨hB, _⟩⟩
      rcases exists_of_admits_required hA with ⟨g, rfl, hg⟩
      rcases exists_of_admits_required hB with ⟨h, rfl, hh⟩
      rcases @exists_iri_of_kind_le g .property hg with ⟨i, rfl⟩
      rcases exists_value_of_kind_le hh with ⟨v, rfl⟩
      exact ⟨.snak (.value i v), rfl⟩
  | someValueSnak =>
      rcases List.length_eq_one_iff.mp hLength with ⟨a, rfl⟩
      rcases hSlots with _ | ⟨hA, _⟩
      rcases exists_of_admits_required hA with ⟨g, rfl, hg⟩
      rcases @exists_iri_of_kind_le g .property hg with ⟨i, rfl⟩
      exact ⟨.snak (.someValue i), rfl⟩
  | noValueSnak =>
      rcases List.length_eq_one_iff.mp hLength with ⟨a, rfl⟩
      rcases hSlots with _ | ⟨hA, _⟩
      rcases exists_of_admits_required hA with ⟨g, rfl, hg⟩
      rcases @exists_iri_of_kind_le g .property hg with ⟨i, rfl⟩
      exact ⟨.snak (.noValue i), rfl⟩
  | statement =>
      rcases List.length_eq_two.mp hLength with ⟨a, b, rfl⟩
      rcases hSlots with _ | ⟨hA, _ | ⟨hB, _⟩⟩
      rcases exists_of_admits_required hA with ⟨g, rfl, hg⟩
      rcases exists_of_admits_required hB with ⟨h, rfl, hh⟩
      rcases exists_entity_of_kind_le hg with ⟨e, rfl⟩
      rcases exists_snak_of_kind_le hh with ⟨s, rfl⟩
      exact ⟨.statement ⟨e, s⟩, rfl⟩

end Ground

end StatementQuery

------------------------------------------------------------
-- Ground Terms From Canonical Arguments
------------------------------------------------------------

namespace StatementQuery

namespace Ground

@[simp] theorem content?_canonical
    (a : Option Ground) :
    content? (a.map canonical) = content? a := by
  rcases a with _ | ((_ | _ | _ | _ | _ | _ | _) | _ | _) <;> rfl

@[simp] theorem amount?_canonical
    (a : Option Ground) :
    amount? (a.map canonical) =
      (amount? a).map Decimal.normalize := by
  rcases a with _ | ((_ | _ | _ | _ | _ | _ | _) | _ | _) <;> rfl

@[simp] theorem instant?_canonical
    (a : Option Ground) :
    instant? (a.map canonical) = instant? a := by
  rcases a with _ | ((_ | _ | _ | _ | _ | _ | _) | _ | _) <;> rfl

@[simp] theorem entity?_canonical
    (kind : EntityKind)
    (a : Option Ground) :
    entity? kind (a.map canonical) = entity? kind a := by
  rcases a with _ | ((_ | _ | _ | _ | _ | _ | _) | _ | _) <;> rfl

/- A code is a precision whatever its zeros at the end. -/
theorem precision_normalize
    (code : Option Decimal) :
    (precision (code.map Decimal.normalize)).toOption =
      (precision code).toOption := by
  cases code with
  | none => rfl
  | some d =>
      simp only [Option.map_some, precision,
        Decimal.toInt?_normalize]
      split <;> simp_all [Except.toOption]

/- Minutes are an offset whatever their zeros at the end. -/
theorem timezone_normalize
    (minutes : Option Decimal) :
    (timezone (minutes.map Decimal.normalize)).toOption =
      (timezone minutes).toOption := by
  cases minutes with
  | none => rfl
  | some d =>
      simp only [Option.map_some, timezone,
        Decimal.toInt?_normalize]
      split <;> simp_all [Except.toOption]

/- A time is built from canonical numbers as from others. -/
theorem buildTime_normalize
    (i : Instant)
    (code minutes : Option Decimal)
    (calendar : Option Iri) :
    (buildTime i (code.map Decimal.normalize)
        (minutes.map Decimal.normalize) calendar).toOption =
      (buildTime i code minutes calendar).toOption := by
  have hCode := precision_normalize code
  have hMinutes := timezone_normalize minutes
  unfold buildTime
  cases hp : precision code <;>
    cases hp' : precision (code.map Decimal.normalize) <;>
    cases hz : timezone minutes <;>
    cases hz' : timezone (minutes.map Decimal.normalize) <;>
    simp_all [Except.toOption, bind, Except.bind]

/-
  What is built depends on the canonical forms of the
  arguments only.
-/
theorem build_canonical
    (c : Constructor)
    (gs : List (Option Ground)) :
    (build c (gs.map (Option.map canonical))).toOption.map
        canonical =
      (build c gs).toOption.map canonical := by
  cases c with
  | iri =>
      rcases gs with _ | ⟨a, _ | ⟨b, gs⟩⟩
      · rfl
      · simp only [List.map_cons, List.map_nil, build,
          content?_canonical]
      · rfl
  | entity kind =>
      rcases gs with _ | ⟨a, _ | ⟨b, gs⟩⟩
      · rfl
      · rcases a with _ | ((_ | _ | _ | _ | _ | _ | _) | _ | _) <;>
          rfl
      · rcases a with _ | ((_ | _ | _ | _ | _ | _ | _) | _ | _) <;>
          rfl
  | text =>
      rcases gs with _ | ⟨a, _ | ⟨b, _ | ⟨d, gs⟩⟩⟩
      · rfl
      · rfl
      · simp only [List.map_cons, List.map_nil, build,
          content?_canonical]
      · rfl
  | quantity =>
      rcases gs with
        _ | ⟨a, _ | ⟨u, _ | ⟨l, _ | ⟨r, _ | ⟨x, gs⟩⟩⟩⟩⟩
      · rfl
      · rfl
      · rfl
      · rfl
      · simp only [List.map_cons, List.map_nil, build,
          amount?_canonical, entity?_canonical]
        cases amount? a <;>
          simp [Except.toOption, canonical, Value.canonical,
            Quantity.canonical, Function.comp_def]
      · rfl
  | time =>
      rcases gs with
        _ | ⟨a, _ | ⟨u, _ | ⟨l, _ | ⟨r, _ | ⟨x, gs⟩⟩⟩⟩⟩
      · rfl
      · rfl
      · rfl
      · rfl
      · simp only [List.map_cons, List.map_nil, build,
          amount?_canonical, entity?_canonical,
          instant?_canonical]
        cases instant? a with
        | none => rfl
        | some i => simp only [buildTime_normalize]
      · rfl
  | valueSnak =>
      rcases gs with _ | ⟨a, _ | ⟨b, _ | ⟨d, gs⟩⟩⟩
      · rfl
      · rfl
      · rcases b with _ | (v | _ | _)
        · rfl
        · simp only [List.map_cons, List.map_nil, build,
            Option.map_some, canonical, entity?_canonical]
          cases entity? .property a <;>
            simp [Except.toOption, canonical, Snak.canonical]
        · rfl
        · rfl
      · rcases b with _ | (v | _ | _) <;> rfl
  | someValueSnak =>
      rcases gs with _ | ⟨a, _ | ⟨b, gs⟩⟩
      · rfl
      · simp only [List.map_cons, List.map_nil, build,
          entity?_canonical]
      · rfl
  | noValueSnak =>
      rcases gs with _ | ⟨a, _ | ⟨b, gs⟩⟩
      · rfl
      · simp only [List.map_cons, List.map_nil, build,
          entity?_canonical]
      · rfl
  | statement =>
      rcases gs with _ | ⟨a, _ | ⟨b, _ | ⟨d, gs⟩⟩⟩
      · rfl
      · rcases a with _ | ((_ | _ | _ | _ | _ | _ | _) | _ | _) <;>
          rfl
      · rcases a with _ | ((_ | _ | _ | _ | _ | _ | _) | _ | _) <;>
          rcases b with _ | (_ | _ | _) <;>
          simp [build, canonical, Value.canonical,
            Except.toOption, Statement.canonical]
      · rcases a with _ | ((_ | _ | _ | _ | _ | _ | _) | _ | _) <;>
          rcases b with _ | (_ | _ | _) <;>
          rfl

/- A time that is built has the kind of times. -/
theorem kind_of_buildTime
    {i : Instant}
    {code minutes : Option Decimal}
    {calendar : Option Iri}
    {g : Ground}
    (h : buildTime i code minutes calendar = .ok g) :
    g.kind = .time := by
  unfold buildTime at h
  cases hp : precision code with
  | error e => simp [hp, bind, Except.bind] at h
  | ok p =>
      cases hz : timezone minutes with
      | error e => simp [hp, hz, bind, Except.bind] at h
      | ok z =>
          simp only [hp, hz, bind, Except.bind] at h
          cases h
          rfl

/- What is built has the kind of its constructor. -/
theorem kind_of_build
    {c : Constructor}
    {gs : List (Option Ground)}
    {g : Ground}
    (h : build c gs = .ok g) :
    g.kind = c.kind := by
  unfold build at h
  split at h
  · split at h
    · cases h
      rfl
    · simp at h
  · cases h
    rfl
  · split at h
    · cases h
      rfl
    · simp at h
  · split at h
    · cases h
      rfl
    · simp at h
  · split at h
    · exact kind_of_buildTime h
    · simp at h
  · split at h
    · cases h
      rfl
    · simp at h
  · split at h
    · cases h
      rfl
    · simp at h
  · split at h
    · cases h
      rfl
    · simp at h
  · cases h
    rfl
  · simp at h

end Ground

end StatementQuery

------------------------------------------------------------
-- Ground Terms From Their Own Arguments
------------------------------------------------------------

namespace StatementQuery

/- Constructors are told apart by their kinds. -/
theorem Constructor.kind_injective
    {c d : Constructor}
    (h : c.kind = d.kind) :
    c = d := by
  rcases c with _ | (_ | _ | _) | _ | _ | _ | _ | _ | _ | _ <;>
    rcases d with _ | (_ | _ | _) | _ | _ | _ | _ | _ | _ | _ <;>
    simp_all [Constructor.kind, EntityKind.kind]

namespace Ground

/- A precision is read back from its code. -/
theorem precision_code
    (p : Option TimePrecision) :
    precision
        (amount? (p.bind fun q => amountArg (.ofInt q.code))) =
      .ok p := by
  cases p with
  | none => rfl
  | some q =>
      have hCode : q.code < 15 := by
        cases q <;> decide
      have hRead :
          (Decimal.ofInt q.code).toInt? = some (q.code : Int) := by
        apply Decimal.toInt?_ofInt
        have hSmall : (q.code : Int).natAbs = q.code := by
          simp
        omega
      have hOf : TimePrecision.ofCode? q.code = some q := by
        cases q <;> rfl
      have hNot : ¬ (q.code : Int) < 0 := by
        omega
      simp [amountArg, amount?, Value.amount, precision, hRead,
        hOf, hNot]

/- An offset is read back from its minutes. -/
theorem timezone_minutes
    (z : Option Int32) :
    timezone
        (amount? (z.bind fun y => amountArg (.ofInt y.toInt))) =
      .ok z := by
  cases z with
  | none => rfl
  | some y =>
      have hLow := Int32.le_toInt y
      have hHigh := Int32.toInt_lt y
      have hRead :
          (Decimal.ofInt y.toInt).toInt? = some y.toInt := by
        apply Decimal.toInt?_ofInt
        omega
      have hFits : Numeral.fitsSigned 32 y.toInt = true := by
        simp [Numeral.fitsSigned]
        omega
      simp [amountArg, amount?, Value.amount, timezone, hRead,
        Option.filter, hFits]

/- A quantity has an item, if anything, as its unit. -/
theorem admits_itemArg
    (i : Option Iri) :
    (Slot.optional .item).Admits
      ((i.bind itemArg).map Term.ground) := by
  cases i with
  | none => rfl
  | some j => exact le_refl Kind.item

/- An amount, if there is one, fits an optional slot. -/
theorem admits_amountArg
    {α : Type}
    (f : α → Decimal)
    (a : Option α) :
    (Slot.optional .quantity).Admits
      ((a.bind fun x => amountArg (f x)).map Term.ground) := by
  cases a with
  | none => rfl
  | some x => exact le_refl Kind.quantity

/-
  The arguments of a ground term fit its constructor, which
  builds the term again from them.
-/
theorem args?_spec
    {c : Constructor}
    {g : Ground}
    {gs : List (Option Ground)}
    (hKind : g.kind = c.kind)
    (hArgs : g.args? = some gs) :
    build c gs = .ok g ∧
      List.Forall₂ Slot.Admits c.slots
        (gs.map (Option.map Term.ground)) := by
  cases g with
  | value v =>
      cases v with
      | entity e =>
          have hc : c = .entity e.kind :=
            Constructor.kind_injective hKind.symm
          subst hc
          cases hArgs
          exact ⟨rfl, .cons (le_refl Kind.iri) .nil⟩
      | iri i =>
          have hc : c = .iri :=
            Constructor.kind_injective hKind.symm
          subst hc
          cases hArgs
          exact ⟨rfl, .cons (le_refl Kind.string) .nil⟩
      | text content language =>
          have hc : c = .text :=
            Constructor.kind_injective hKind.symm
          subst hc
          cases hArgs
          exact
            ⟨rfl, .cons (le_refl Kind.string)
              (.cons (le_refl Kind.string) .nil)⟩
      | string content => simp [args?, valueArgs?] at hArgs
      | externalId content => simp [args?, valueArgs?] at hArgs
      | quantity q =>
          have hc : c = .quantity :=
            Constructor.kind_injective hKind.symm
          subst hc
          cases hArgs
          rcases q with ⟨amount, unit, lower, upper⟩
          refine ⟨?_, ?_⟩
          · cases unit <;> cases lower <;> cases upper <;> rfl
          · exact
              .cons (le_refl Kind.quantity)
                (.cons (admits_itemArg unit)
                  (.cons (admits_amountArg id lower)
                    (.cons (admits_amountArg id upper) .nil)))
      | time t =>
          have hc : c = .time :=
            Constructor.kind_injective hKind.symm
          subst hc
          cases hArgs
          rcases t with ⟨instant, p, z, calendar⟩
          refine ⟨?_, ?_⟩
          · have hCalendar :
                entity? .item (calendar.bind itemArg) =
                  calendar := by
              cases calendar <;> rfl
            simp only [build, hCalendar, instant?, Value.instant,
              buildTime, precision_code, timezone_minutes, bind,
              Except.bind]
          · exact
              .cons (le_refl Kind.time)
                (.cons (admits_amountArg _ p)
                  (.cons (admits_amountArg _ z)
                    (.cons (admits_itemArg calendar) .nil)))
  | snak s =>
      cases s with
      | value p v =>
          have hc : c = .valueSnak :=
            Constructor.kind_injective hKind.symm
          subst hc
          cases hArgs
          refine ⟨rfl, .cons (le_refl Kind.property) (.cons ?_ .nil)⟩
          exact v.kind_le_value
      | someValue p =>
          have hc : c = .someValueSnak :=
            Constructor.kind_injective hKind.symm
          subst hc
          cases hArgs
          exact ⟨rfl, .cons (le_refl Kind.property) .nil⟩
      | noValue p =>
          have hc : c = .noValueSnak :=
            Constructor.kind_injective hKind.symm
          subst hc
          cases hArgs
          exact ⟨rfl, .cons (le_refl Kind.property) .nil⟩
  | statement s =>
      have hc : c = .statement :=
        Constructor.kind_injective hKind.symm
      subst hc
      cases hArgs
      exact
        ⟨rfl, .cons s.subject.kind.kind_le_entity
          (.cons s.snak.kind_le_snak .nil)⟩

end Ground

end StatementQuery
