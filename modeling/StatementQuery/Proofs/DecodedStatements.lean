import StatementQuery.Proofs.CompileRuns
import StatementQuery.Proofs.FilterTargets
import StatementQuery.Proofs.RowDecoding
import StatementQuery.Proofs.TemplateInstances

/-
  What a statement that is read from a row is like.

  Every plan of a query comes from a target of the filter and
  an entry that serves it.  The statement read by a plan is an
  instance of a pattern of the entry, and at the same time of
  the statement that the target asks for.  So it is as the
  filter's alternatives say, and its snak is of a kind that the
  filter admits.

  Key definitions include:
    * `Target.Instance`
    * `Target.Conforms`

  Main declarations:
    * `Term.outcome_args`
    * `CompiledQuery.exists_plan_of_decode`
    * `decode_sound`
-/

------------------------------------------------------------
-- Parts Of A Ground Instance
------------------------------------------------------------

namespace StatementQuery

namespace Term

/- The arguments of a term are in the slots of its kind. -/
theorem admits_args?
    {c : Constructor}
    {t : Term}
    {args : List (Option Term)}
    (hShaped : t.WellShaped)
    (hKind : t.kind = c.kind)
    (hArgs : t.args? = some args) :
    List.Forall₂ Slot.Admits c.slots args := by
  cases hShaped with
  | var v => cases hArgs
  | @app d args' hSlots hOpen hRest =>
      cases hArgs
      have hEq : d = c := Constructor.kind_injective hKind
      subst hEq
      exact hSlots
  | ground g =>
      rcases Option.map_eq_some_iff.mp hArgs with
        ⟨gs, hgs, rfl⟩
      exact (Ground.args?_spec hKind hgs).2

/- The same faithful terms have the same arguments. -/
theorem args?_canonical
    {c : Constructor}
    {t : Term}
    (h : c.isFaithful = true)
    (hKind : t.kind = c.kind) :
    t.canonical.args? =
      t.args?.map (List.map (Option.map canonical)) := by
  cases t with
  | var v => rfl
  | app d args =>
      rw [canonical, canonicalArgs_eq_map]
      rfl
  | ground g =>
      have hArgs := Ground.args?_canonical h hKind
      simp only [canonical, args?, hArgs, Option.map_map]
      congr 1
      funext gs
      simp only [Function.comp_apply, List.map_map]
      apply List.map_congr_left
      intro a _
      cases a <;> rfl

/- The arguments of an instance are those of the arguments. -/
theorem args?_of_subst
    {κ : Kinding}
    {f : Variable → Side}
    {c : Constructor}
    {t u : Term}
    {args : List (Option Term)}
    (hFaithful : c.isFaithful = true)
    (hShaped : t.WellShaped)
    (hKind : t.kind = c.kind)
    (hArgs : t.args? = some args)
    (hf : ∀ v ∈ t.occurrences, Side.Fits κ v.kind (f v))
    (h : t.subst f = some (some u)) :
    u.kind = c.kind ∧
      ∃ values, u.args? = some values ∧
        args.map (Side.subst f) = values.map some := by
  have hSlots := admits_args? hShaped hKind hArgs
  have hWithin :
      ∀ u, some u ∈ args →
        u.WellShaped ∧ ∀ v ∈ u.occurrences, v ∈ t.occurrences := by
    intro u hu
    refine within_args (P := (· ∈ t.occurrences)) ?_ hArgs hu u rfl
    rintro w ⟨⟩
    exact ⟨hShaped, fun v hv => hv⟩
  rw [(subst_of_args? f hShaped hKind hArgs).1] at h
  have hLength :
      c.slots.length = (args.map (Side.subst f)).length := by
    rw [List.length_map, hSlots.length_eq]
  rcases combine_eq_some hLength h with
    ⟨hAbsent, _⟩ | ⟨values, u, hValues, hFills, hBuilt, hEq⟩
  · cases hAbsent
  cases hEq
  rcases assemble?_eq_some hBuilt with
    ⟨_, rfl⟩ | ⟨g, hClosed, hBuild, rfl⟩
  · exact ⟨rfl, values, rfl, hValues⟩
  · have hAdmits :=
      (fits_values hSlots (fun u hu => (hWithin u hu).1)
        (fun u hu v hv => hf v ((hWithin u hu).2 v hv))
        hValues hFills).1
    have hMap := map_ground_map_groundArg hClosed
    have hParts : g.args? = some (values.map groundArg) := by
      apply Ground.args?_build hFaithful _ hBuild
      rw [hMap]
      exact hAdmits
    refine ⟨Ground.kind_of_build hBuild, values, ?_, hValues⟩
    rw [args?, hParts, Option.map_some, hMap]

/-
  If two terms become the same term, their arguments become the
  same one by one.
-/
theorem outcomes_args
    {κ : Kinding}
    {f : Variable → Side}
    {c : Constructor}
    {s t u : Term}
    {as bs : List (Option Term)}
    (hFaithful : c.isFaithful = true)
    (hs : s.WellShaped)
    (ht : t.WellShaped)
    (hsKind : s.kind = c.kind)
    (htKind : t.kind = c.kind)
    (hAs : s.args? = some as)
    (hBs : t.args? = some bs)
    (hf :
      ∀ v, v ∈ s.occurrences ∨ v ∈ t.occurrences →
        Side.Fits κ v.kind (f v))
    (hu : s.subst f = some (some u))
    (h : outcome (t.subst f) = outcome (s.subst f)) :
    as.map (fun a => outcome (Side.subst f a)) =
      bs.map fun a => outcome (Side.subst f a) := by
  rw [hu] at h
  rcases exists_of_outcome h with ⟨w, hw, hCanonical⟩
  rcases args?_of_subst hFaithful hs hsKind hAs
      (fun v hv => hf v (Or.inl hv)) hu with
    ⟨huKind, us, hUs, hAs'⟩
  rcases args?_of_subst hFaithful ht htKind hBs
      (fun v hv => hf v (Or.inr hv)) hw with
    ⟨hwKind, ws, hWs, hBs'⟩
  have hSame :
      us.map (Option.map canonical) =
        ws.map (Option.map canonical) := by
    have hArgs := congrArg args? hCanonical
    rw [args?_canonical hFaithful hwKind,
      args?_canonical hFaithful huKind, hUs, hWs] at hArgs
    exact (Option.some.inj hArgs).symm
  calc as.map (fun a => outcome (Side.subst f a))
      = (us.map (Option.map canonical)).map some := by
        have hOutcomes := congrArg (List.map outcome) hAs'
        simpa [Function.comp_def, outcome] using hOutcomes
    _ = (ws.map (Option.map canonical)).map some := by rw [hSame]
    _ = bs.map fun a => outcome (Side.subst f a) := by
        have hOutcomes := congrArg (List.map outcome) hBs'
        simpa [Function.comp_def, outcome] using hOutcomes.symm

/-
  If a term becomes a ground term, its arguments become the
  arguments of the ground term.
-/
theorem outcome_args
    {κ : Kinding}
    {f : Variable → Side}
    {c : Constructor}
    {t : Term}
    {args : List (Option Term)}
    {g : Ground}
    (hFaithful : c.isFaithful = true)
    (hShaped : t.WellShaped)
    (hKind : t.kind = c.kind)
    (hArgs : t.args? = some args)
    (hf : ∀ v ∈ t.occurrences, Side.Fits κ v.kind (f v))
    (h : outcome (t.subst f) = outcome (some (some (.ground g)))) :
    g.kind = c.kind ∧
      g.args?.map (List.map fun a => outcome (some (a.map .ground))) =
        some (args.map fun a => outcome (Side.subst f a)) := by
  rcases exists_ground_of_outcome h with ⟨g', hg', hSame⟩
  have hKindEq : g.kind = c.kind := by
    rw [← Ground.kind_eq_of_canonical_eq
      ((Ground.same_iff g' g).mp hSame)]
    exact
      (args?_of_subst hFaithful hShaped hKind hArgs hf hg').1
  refine ⟨hKindEq, ?_⟩
  rcases Ground.exists_args? hFaithful hKindEq with ⟨gs, hgs⟩
  have hGround :
      (Term.ground g).args? =
        some (gs.map fun x => some (.ground x)) := by
    rw [args?, hgs, Option.map_some, List.map_map]
    rfl
  have hOutcomes :=
    outcomes_args hFaithful hShaped (.ground g) hKind hKindEq
      hArgs hGround
      (fun v hv => hf v (hv.resolve_right (by simp [occurrences])))
      hg' h.symm
  rw [hgs, hOutcomes, Option.map_some, List.map_map, List.map_map]
  rfl

end Term

end StatementQuery

------------------------------------------------------------
-- Where Plans Come From
------------------------------------------------------------

namespace StatementQuery

namespace Mapping

/- Entries are numbered in the order of their registration. -/
theorem entry_of_mem
    {index : Nat}
    {registrations : List Registration}
    {entries : List Entry}
    (h : entriesFrom index registrations = .ok entries)
    {e : Entry}
    (he : e ∈ entries) :
    (∃ k, e.id = index + k ∧ entries[k]? = some e) ∧
      ∃ r ∈ registrations, e.patterns = r.patterns := by
  induction registrations generalizing index entries with
  | nil =>
      cases h
      cases he
  | cons r rs ih =>
      rcases exists_of_bind_eq_ok h with ⟨first, hFirst, h⟩
      rcases exists_of_bind_eq_ok h with ⟨rest, hRest, h⟩
      cases h
      rcases List.mem_cons.mp he with rfl | he
      · rcases exists_of_bind_eq_ok hFirst with ⟨s, _, hEntry⟩
        cases hEntry
        exact ⟨⟨0, rfl, rfl⟩, r, List.mem_cons_self, rfl⟩
      · rcases ih hRest he with
          ⟨⟨k, hId, hAt⟩, r', hr', hPatterns⟩
        refine ⟨⟨k + 1, ?_, hAt⟩, r',
          List.mem_cons_of_mem _ hr', hPatterns⟩
        rw [hId]
        omega

/- The entries of a mapping stand at their numbers. -/
theorem entry_of_build
    {codec : Codec}
    {registrations : List Registration}
    {m : Mapping}
    (h : build codec registrations = .ok m)
    {e : Entry}
    (he : e ∈ m.entries) :
    m.codec = codec ∧ m.entries[e.id]? = some e ∧
      ∃ r ∈ registrations, e.patterns = r.patterns := by
  rcases exists_of_bind_eq_ok h with ⟨entries, hEntries, h⟩
  cases h
  rcases entry_of_mem hEntries he with ⟨⟨k, hId, hAt⟩, hPatterns⟩
  refine ⟨rfl, ?_, hPatterns⟩
  rw [hId, Nat.zero_add]
  exact hAt

/- Patterns that are registered well formed stay so. -/
theorem wellFormed_of_build
    {codec : Codec}
    {registrations : List Registration}
    {m : Mapping}
    (hPatterns :
      ∀ r ∈ registrations, ∀ p ∈ r.patterns, p.WellFormed)
    (h : build codec registrations = .ok m) :
    ∀ e ∈ m.entries, ∀ p ∈ e.patterns, p.WellFormed := by
  intro e he
  rcases entry_of_build h he with ⟨_, _, r, hr, hSame⟩
  rw [hSame]
  exact hPatterns r hr

end Mapping

end StatementQuery

------------------------------------------------------------
-- Values Of A Row
------------------------------------------------------------

namespace StatementQuery

namespace CompiledQuery

/- A column is read as a ground term of its variable's kind. -/
theorem kind_le_of_decodeVariable
    {q : CompiledQuery}
    {row : Row}
    {v : Variable}
    {t : Term}
    (h : q.decodeVariable row v = .ok (some t)) :
    (∃ g, t = .ground g) ∧ t.kind ≤ v.kind := by
  unfold decodeVariable at h
  split at h
  · rcases exists_of_bind_eq_ok h with ⟨value, hValue, h⟩
    cases h
    exact ⟨⟨_, rfl⟩, (decodeColumn_eq_ok_iff.mp hValue).2⟩
  · cases h

/- Every variable is bound to what is read for it. -/
theorem decodeVariable_of_mem
    {q : CompiledQuery}
    {row : Row}
    {vs : List Variable}
    {entries : List (Variable × Option Term)}
    (h : q.decodeVariables row vs = .ok entries) :
    ∀ entry ∈ entries,
      q.decodeVariable row entry.1 = .ok entry.2 := by
  induction vs generalizing entries with
  | nil =>
      cases h
      simp
  | cons v vs ih =>
      rcases exists_of_bind_eq_ok h with ⟨side, hSide, h⟩
      rcases exists_of_bind_eq_ok h with ⟨rest, hRest, h⟩
      cases h
      exact List.forall_mem_cons.2 ⟨hSide, ih hRest⟩

/- The columns of a row are ground terms. -/
theorem closed_of_decodeVariables
    {q : CompiledQuery}
    {row : Row}
    {vs : List Variable}
    {entries : List (Variable × Option Term)}
    (h : q.decodeVariables row vs = .ok entries) :
    Bindings.Closed ⟨entries⟩ := by
  intro v t ht
  have hRead : q.decodeVariable row v = .ok (some t) :=
    decodeVariable_of_mem h (v, some t) (Bindings.exists_entry ht)
  exact kind_le_of_decodeVariable hRead

/- A row is read by the plan of its branch, from its columns. -/
theorem exists_entries_of_decode
    {q : CompiledQuery}
    {row : Row}
    {d : DecodedStatement}
    (h : q.decode row = .ok d) :
    ∃ k plan entries,
      q.branchIndex row = .ok k ∧ q.plans[k]? = some plan ∧
        q.decodeVariables row plan.template.vars = .ok entries ∧
        d.entryId = plan.entryId ∧
        plan.template.instantiateWith .exact ⟨entries⟩ =
          .ok (some (.ground (.statement d.statement))) := by
  rcases exists_of_bind_eq_ok h with ⟨index, hIndex, h⟩
  split at h
  · cases h
  · rename_i plan hPlan
    rcases exists_of_bind_eq_ok h with ⟨entries, hEntries, h⟩
    rcases exists_of_bind_eq_ok h with ⟨s, hStatement, h⟩
    cases h
    refine ⟨index, plan, entries, hIndex, hPlan, hEntries, rfl, ?_⟩
    unfold statementOf at hStatement
    split at hStatement
    · cases hStatement
    · cases hStatement
      assumption
    · cases hStatement

/- A row is read by a plan, from ground terms. -/
theorem exists_plan_of_decode
    {q : CompiledQuery}
    {row : Row}
    {d : DecodedStatement}
    (h : q.decode row = .ok d) :
    ∃ plan ∈ q.plans, ∃ τ : Bindings,
      τ.Closed ∧ d.entryId = plan.entryId ∧
        plan.template.instantiateWith .exact τ =
          .ok (some (.ground (.statement d.statement))) := by
  rcases exists_entries_of_decode h with
    ⟨k, plan, entries, _, hPlan, hEntries, hId, hStatement⟩
  exact
    ⟨plan, List.mem_of_getElem? hPlan, ⟨entries⟩,
      closed_of_decodeVariables hEntries, hId, hStatement⟩

end CompiledQuery

end StatementQuery

------------------------------------------------------------
-- Statements As A Filter Asks For
------------------------------------------------------------

namespace StatementQuery

/- The kind of a snak is that of its kind of snaks. -/
theorem Snak.kind_eq (s : Snak) : s.kind = s.snakKind.kind := by
  cases s <;> rfl

/- A snak of the kind of snaks with a value has one. -/
theorem Snak.exists_value_of_snakKind
    {s : Snak}
    (h : s.snakKind = .value) :
    ∃ i w, s = .value i w := by
  cases s with
  | value i w => exact ⟨i, w, rfl⟩
  | someValue i => cases h
  | noValue i => cases h

/- An entity is the same as itself only. -/
theorem Ground.eq_of_same_entity
    {g : Ground}
    {e : Entity}
    (h : g.same (.value (.entity e)) = true) :
    g = .value (.entity e) := by
  rcases g with v | s | s
  · cases v <;> simp_all [Ground.same, Value.same]
  · cases h
  · cases h

/- Kinds of snaks differ in their kinds. -/
theorem SnakKind.kind_injective :
    Function.Injective SnakKind.kind := by
  intro k l h
  cases k <;> cases l <;> simp_all [SnakKind.kind]

/- The snak of a statement's term is over its variables. -/
theorem Term.within_snak
    {goal subject snak : Term}
    (hShaped : goal.WellShaped)
    (hArgs : goal.args? = some [some subject, some snak]) :
    Side.Within (· ∈ goal.occurrences) (some snak) := by
  refine Term.within_args ?_ hArgs (by simp)
  rintro u ⟨⟩
  exact ⟨hShaped, fun v hv => hv⟩

/- A ground instance of a statement's term, part by part. -/
theorem Term.outcome_statement
    {k : SnakKind}
    {goal subject property snak : Term}
    {others : List (Option Term)}
    (hShaped : goal.WellShaped)
    (hKind : goal.kind = .statement)
    (hArgs : goal.args? = some [some subject, some snak])
    (hSnakKind : snak.kind = k.constructor.kind)
    (hSnakArgs : snak.args? = some (some property :: others))
    {κ : Kinding}
    {f : Variable → Side}
    (hf : ∀ v ∈ goal.occurrences, Side.Fits κ v.kind (f v))
    {x : Statement}
    (hx :
      outcome (goal.subst f) =
        outcome (some (some (.ground (.statement x))))) :
    outcome (subject.subst f) =
        outcome
          (some (some (.ground (.value (.entity x.subject))))) ∧
      outcome (property.subst f) =
        outcome
          (some
            (some
              (.ground (.value (.property x.snak.property))))) ∧
      x.snak.snakKind = k ∧
      ∀ i w, x.snak = .value i w →
        others.map (fun a => outcome (Side.subst f a)) =
          [outcome (some (some (.ground (.value w))))] := by
  rcases Term.within_snak hShaped hArgs snak rfl with
    ⟨hSnakShaped, hOccurrences⟩
  rcases Term.outcome_args (c := .statement) rfl hShaped hKind
      hArgs hf hx with ⟨_, hParts⟩
  simp only [Ground.args?, Option.map_some, List.map_cons,
    List.map_nil, Option.some.injEq, List.cons.injEq,
    and_true] at hParts
  rcases hParts with ⟨hSubject, hSnak⟩
  rcases Term.outcome_args k.isFaithful_constructor hSnakShaped
      hSnakKind hSnakArgs
      (fun v hv => hf v (hOccurrences v hv)) hSnak.symm with
    ⟨hGroundKind, hSnakParts⟩
  have hSame : x.snak.snakKind = k := by
    apply SnakKind.kind_injective
    rw [← Snak.kind_eq, ← SnakKind.kind_constructor]
    exact hGroundKind
  rcases x with ⟨e, ⟨i, w⟩ | i | i⟩ <;>
    simp only [Ground.args?, Ground.snakArgs, Option.map_some,
      List.map_cons, List.map_nil, Option.some.injEq,
      List.cons.injEq] at hSnakParts
  · rcases hSnakParts with ⟨hProperty, hOthers⟩
    refine ⟨hSubject.symm, hProperty.symm, hSame, ?_⟩
    rintro i' w' ⟨⟩
    exact hOthers.symm
  all_goals
    refine ⟨hSubject.symm, hSnakParts.1.symm, hSame, ?_⟩
    rintro i' w' ⟨⟩

namespace Target

/-
  The parts of an instance of a target's statement are
  instances of the target's parts.
-/
structure Instance
    (t : Target)
    (k : SnakKind)
    (f : Variable → Side)
    (x : Statement) :
    Prop where
  subject :
    outcome (t.subject.subst f) =
      outcome (some (some (.ground (.value (.entity x.subject)))))
  property :
    outcome (t.property.subst f) =
      outcome
        (some (some (.ground (.value (.property x.snak.property)))))
  kind : x.snak.snakKind = k
  value :
    ∀ i w, x.snak = .value i w →
      outcome (t.value.subst f) =
        outcome (some (some (.ground (.value w))))

/- An open value is a variable of the statement. -/
theorem Asks.mem_of_value
    {t : Target}
    {goal snak : Term}
    (h : t.Asks .value goal snak)
    {w : Variable}
    (hw : t.value = .var w) :
    w ∈ goal.occurrences := by
  have hWithin :
      Side.Within (· ∈ goal.occurrences) (some t.value) :=
    Term.within_args (Term.within_snak h.formed.shaped h.args)
      h.snakArgs (by simp [others])
  apply (hWithin t.value rfl).2
  rw [hw]
  exact List.mem_singleton_self w

/- A ground instance of a target's statement, part by part. -/
theorem Asks.instance
    {t : Target}
    {k : SnakKind}
    {goal snak : Term}
    (h : t.Asks k goal snak)
    {κ : Kinding}
    {f : Variable → Side}
    (hf : ∀ v ∈ goal.occurrences, Side.Fits κ v.kind (f v))
    {x : Statement}
    (hx :
      outcome (goal.subst f) =
        outcome (some (some (.ground (.statement x))))) :
    t.Instance k f x := by
  rcases Term.outcome_statement h.formed.shaped h.kind h.args
      h.snakKind h.snakArgs hf hx with
    ⟨hSubject, hProperty, hKind, hValue⟩
  refine ⟨hSubject, hProperty, hKind, ?_⟩
  intro i w hw
  have hOthers := hValue i w hw
  rw [hw] at hKind
  subst hKind
  exact List.head_eq_of_cons_eq hOthers

/- A ground part becomes itself. -/
theorem same_of_outcome
    {f : Variable → Side}
    {g h : Ground}
    (hEq :
      outcome ((Term.ground g).subst f) =
        outcome (some (some (.ground h)))) :
    g.same h = true := by
  rcases Term.exists_ground_of_outcome hEq with
    ⟨g', hg', hSame⟩
  cases hg'
  exact hSame

/- A statement is as three alternatives of a filter say. -/
structure Conforms
    (codec : Codec)
    (s p v : Alternative)
    (x : Statement) :
    Prop where
  subject : ∀ g, s = .value g → g = .value (.entity x.subject)
  property :
    ∀ g, p = .value g → g = .value (.property x.snak.property)
  value :
    ∀ g, v = .value g →
      ∃ i w, x.snak = .value i w ∧
        (codec.normalizeGround
          ((fixedProperty? p).bind Ground.iri?) g).same
            (.value w) = true
  snaks :
    ∀ gs, v = .snaks gs →
      ∃ i e, x.snak = .value i (.entity e)

/- An instance of a target's statement conforms to it. -/
theorem Instance.conforms
    {codec : Codec}
    {s p v : Alternative}
    {k : SnakKind}
    {f : Variable → Side}
    {x : Statement}
    (h : (ofAlternatives codec s p v).Instance k f x)
    {κ : Kinding}
    (hFits :
      ∀ w, (ofAlternatives codec s p v).value = .var w →
        k = .value → Side.Fits κ w.kind (f w))
    (hConstrained :
      (ofAlternatives codec s p v).isValueConstrained = true →
        k = .value) :
    Conforms codec s p v x := by
  have hValue :
      (ofAlternatives codec s p v).isValueConstrained = true →
        ∃ i w, x.snak = .value i w := by
    intro hv
    apply Snak.exists_value_of_snakKind
    rw [h.kind, hConstrained hv]
  constructor
  case subject =>
    rintro g rfl
    exact Ground.eq_of_same_entity (same_of_outcome h.subject)
  case property =>
    rintro g rfl
    exact Ground.eq_of_same_entity (same_of_outcome h.property)
  case value =>
    rintro g rfl
    rcases hValue rfl with ⟨i, w, hSnak⟩
    exact ⟨i, w, hSnak, same_of_outcome (h.value i w hSnak)⟩
  case snaks =>
    rintro gs rfl
    rcases hValue rfl with ⟨i, w, hSnak⟩
    rcases Term.exists_ground_of_outcome (h.value i w hSnak) with
      ⟨g, hg, hSame⟩
    have hKind : g.kind ≤ .entity :=
      (hFits _ rfl (hConstrained rfl) _ (Option.some.inj hg)).1
    rw [Ground.kind_eq_of_canonical_eq
      ((Ground.same_iff g (.value w)).mp hSame)] at hKind
    rcases Ground.exists_entity_of_kind_le hKind with ⟨e, he⟩
    cases he
    exact ⟨i, e, hSnak⟩

end Target

/- A mask that meets a snak kind contains it. -/
theorem SnakMask.contains_of_intersects
    {m : SnakMask}
    {k : SnakKind}
    (h : Mask.intersects m (SnakMask.of k) = true) :
    Mask.contains m (SnakMask.of k) = true := by
  revert h
  revert m
  cases k <;> decide

/- What an entry is not excluded by. -/
theorem Entry.spec_of_excludes?
    {e : Entry}
    {f : Filter}
    {t : Target}
    (h : e.excludes? f t = none) :
    Mask.contains f.snakMask (SnakMask.of e.snakKind) = true ∧
      (t.isValueConstrained = true → e.snakKind = .value) := by
  unfold excludes? at h
  split at h
  · cases h
  · rename_i hMask
    split at h
    · cases h
    · rename_i hValue
      constructor
      · apply SnakMask.contains_of_intersects
        simpa using hMask
      · intro hConstrained
        simpa [hConstrained] using hValue

end StatementQuery

------------------------------------------------------------
-- Soundness
------------------------------------------------------------

namespace StatementQuery

/-
  A statement that is read from a row of a compiled query is
  an instance of a pattern of the entry that it is said to
  come from, conforms to alternatives of the filter, and has a
  snak of a kind that the filter admits.
-/
theorem decode_sound
    {codec : Codec}
    {registrations : List Registration}
    {m : Mapping}
    {options : Options}
    {draft f : Filter}
    {q : CompiledQuery}
    {row : Row}
    {d : DecodedStatement}
    (hPatterns :
      ∀ r ∈ registrations, ∀ p ∈ r.patterns, p.WellFormed)
    (hMapping : Mapping.build codec registrations = .ok m)
    (hFilter : draft.build = .ok f)
    (hCompile : (compile m options f).result = .ok q)
    (hDecode : q.decode row = .ok d) :
    (∃ e,
      m.entries[d.entryId]? = some e ∧
        ∃ p ∈ e.patterns, ∃ θ g,
          p.instantiate θ = .ok (some (.ground g)) ∧
            g.same (.statement d.statement) = true) ∧
      (∃ s ∈ f.subject.alternatives,
        ∃ p ∈ f.property.alternatives,
          ∃ v ∈ f.value.alternatives,
            Target.Conforms codec s p v d.statement) ∧
      Mask.contains f.snakMask
        (SnakMask.of d.statement.snak.snakKind) = true := by
  rcases CompiledQuery.exists_plan_of_decode hDecode with
    ⟨plan, hPlan, τ, hτ, hId, hStatement⟩
  rcases (Compile.plans_of_compile hCompile).2 plan hPlan with
    ⟨t, ht, e, he, hExcludes, goal, used, found, rank, hGoal,
      hFound, rfl⟩
  rcases Mapping.entry_of_build hMapping he with
    ⟨rfl, hEntry, r, hr, hEntryPatterns⟩
  rcases List.exists_of_findSome?_eq_some hFound with
    ⟨p, hp, hMatch⟩
  simp only [Target.all, List.mem_flatMap, List.mem_map] at ht
  rcases ht with ⟨s, hs, p', hp', v, hv, rfl⟩
  have hFormed : p.WellFormed := by
    rw [hEntryPatterns] at hp
    exact hPatterns r hr p hp
  have hTyped :=
    (Filter.checked_of_build hFilter).typed m.codec hs hp' hv
  rcases hTyped.exists_statement e.snakKind with
    ⟨goal', snak, hAsks⟩
  have hEq : goal' = goal :=
    Except.ok.inj (hAsks.statement.symm.trans hGoal)
  subst hEq
  rcases Entry.matchPattern?_eq_some hFormed hMatch with
    ⟨ρ, hρ, hPattern, hUnify, _⟩
  have hRenamed := Term.wellFormed_renamed hFormed hρ
  rw [← hPattern] at hRenamed
  rcases Entry.exists_values hRenamed hAsks.formed hUnify hMatch
      hτ hStatement with ⟨κ, σ, hValues⟩
  rcases hValues found.pattern (Or.inl rfl) with
    ⟨hFitsPattern, hPatternOutcome⟩
  rcases hValues goal' (Or.inr rfl) with
    ⟨hFitsGoal, hGoalOutcome⟩
  rcases Entry.spec_of_excludes? hExcludes with
    ⟨hMask, hConstrained⟩
  have hInstance := hAsks.instance hFitsGoal hGoalOutcome
  refine ⟨⟨e, ?_, p, hp, ?_⟩, ⟨s, hs, p', hp', v, hv, ?_⟩, ?_⟩
  · rw [hId]
    exact hEntry
  · rw [hPattern] at hFitsPattern hPatternOutcome
    exact Term.exists_instantiate hFormed hFitsPattern
      hPatternOutcome
  · have hOpen :
        ∀ w,
          (Target.ofAlternatives m.codec s p' v).value = .var w →
            e.snakKind = .value →
              Side.Fits κ w.kind (σ w) := by
      intro w hw hKind
      rw [hKind] at hAsks
      exact hFitsGoal w (hAsks.mem_of_value hw)
    exact hInstance.conforms hOpen hConstrained
  · rw [hInstance.kind]
    exact hMask

/- The property of what something weighs. -/
def weightProperty : Iri :=
  ⟨"http://www.wikidata.org/entity/P2067"⟩

/- One and a half kilograms, written with a trailing zero. -/
def weight : Quantity where
  amount := ⟨150, 2⟩
  unit := some ⟨"http://www.wikidata.org/entity/Q11570"⟩

/- Statements with a quantity that may have a lower bound. -/
def weighings : Registration where
  patterns :=
    [.app .statement
      [some (.var ⟨"s", .entity⟩),
        some
          (.app .valueSnak
            [some (.var ⟨"p", .property⟩),
              some
                (.app .quantity
                  [some (.var ⟨"n", .quantity⟩),
                    some (.var ⟨"u", .item⟩),
                    some (.var ⟨"l", .quantity⟩), none])])]]
  emit := fun _ _ => pure none

/- What has the weight. -/
def weightFilter : Filter where
  property := .value (.value (.property weightProperty))
  value := .value (.value (.quantity weight))

/- An item that is found. -/
def weightRow : Row :=
  [("branch", .integer 0),
    ("subject", .iri ⟨"http://www.wikidata.org/entity/Q42"⟩)]

/- What is said of the item. -/
def weightStatement : Statement where
  subject := ⟨.item, ⟨"http://www.wikidata.org/entity/Q42"⟩⟩
  snak := .value weightProperty (.quantity weight)

theorem decode_sound_weightRow :
    ∃ m f q d,
      Mapping.build .verbatim [weighings] = .ok m ∧
        weightFilter.build = .ok f ∧
        (compile m {} f).result = .ok q ∧
        q.decode weightRow = .ok d ∧
        d.statement = weightStatement ∧
        (∃ e,
          m.entries[d.entryId]? = some e ∧
            ∃ p ∈ e.patterns, ∃ θ g,
              p.instantiate θ = .ok (some (.ground g)) ∧
                g.same (.statement d.statement) = true) ∧
        (∃ s ∈ f.subject.alternatives,
          ∃ p ∈ f.property.alternatives,
            ∃ v ∈ f.value.alternatives,
              Target.Conforms .verbatim s p v d.statement) ∧
        Mask.contains f.snakMask
          (SnakMask.of d.statement.snak.snakKind) = true := by
  have hPatterns :
      ∀ r ∈ [weighings], ∀ p ∈ r.patterns, p.WellFormed := by
    intro r hr p hp
    cases List.mem_singleton.mp hr
    cases List.mem_singleton.mp hp
    decide
  have hRead :
      ((Mapping.build .verbatim [weighings]).toOption.bind
        fun m => weightFilter.build.toOption.bind
          fun f => (compile m {} f).result.toOption.bind
            fun q => (q.decode weightRow).toOption.map
              DecodedStatement.statement) =
        some weightStatement := by
    decide +kernel
  rcases Option.bind_eq_some_iff.mp hRead with
    ⟨m, hMapping, hRead⟩
  rcases Option.bind_eq_some_iff.mp hRead with
    ⟨f, hFilter, hRead⟩
  rcases Option.bind_eq_some_iff.mp hRead with
    ⟨q, hCompile, hRead⟩
  rcases Option.map_eq_some_iff.mp hRead with
    ⟨d, hDecode, hStatement⟩
  have hMapping := eq_ok_of_toOption hMapping
  have hFilter := eq_ok_of_toOption hFilter
  have hCompile := eq_ok_of_toOption hCompile
  have hDecode := eq_ok_of_toOption hDecode
  exact
    ⟨m, f, q, d, hMapping, hFilter, hCompile, hDecode, hStatement,
      decode_sound hPatterns hMapping hFilter hCompile hDecode⟩

end StatementQuery
