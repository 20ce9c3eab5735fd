import StatementQuery.Proofs.WikidataEntries

/-
  Statements of Wikidata stores, written into rows and read
  back.

  A filter without snaks is compiled, since no entry fails on
  its targets.  The target that takes a statement is served by
  the entry of the statement's snak, and the columns of its
  plan give back the parts of the statement that the target
  leaves open.

  Key definitions include:
    * `Wikidata.Columns`
    * `Wikidata.Recovers`
    * `Wikidata.Fills`

  Main declarations:
    * `Wikidata.recovers_of_columns`
    * `Wikidata.exists_planned`
    * `Wikidata.exists_decode_iff`
-/

------------------------------------------------------------
-- Columns Of A Plan
------------------------------------------------------------

namespace StatementQuery

namespace Wikidata

/- A column is read back in every query to the store. -/
def Readable (config : WikidataConfig) (cell : Cell) : Prop :=
  ∀ q : CompiledQuery, q.codec = codec config → q.Legible cell

/-
  Columns for the value of a statement: each of them is read
  back, and none has the name of another or a name in use
  except for that of open values.
-/
structure Columns
    (config : WikidataConfig)
    (used : List String)
    (cells : List Cell) :
    Prop where
  nodup : (cells.map fun cell => cell.1.name).Nodup
  names :
    ∀ cell ∈ cells,
      cell.1.name = Target.valueName ∨ cell.1.name ∉ used
  readable : ∀ cell ∈ cells, Readable config cell

/-
  The columns of a match are read back, and a statement is
  read from them.
-/
def Recovers
    (config : WikidataConfig)
    (branch : String)
    (s : Statement)
    (found : PatternMatch) :
    Prop :=
  ∃ cells,
    Side.Reads (some found.template) (some (.statement s)) cells ∧
      (cells.map fun cell => cell.1.name).Nodup ∧
      (branch ∉ cells.map fun cell => cell.1.name) ∧
      ∀ cell ∈ cells, Readable config cell

/- Nothing is read from a column that is absent. -/
theorem readable_none
    (config : WikidataConfig)
    (v : Variable) :
    Readable config (v, none) := by
  rintro q _ g ⟨⟩

theorem columns_nil
    (config : WikidataConfig)
    (used : List String) :
    Columns config used [] :=
  ⟨List.nodup_nil, by simp, by simp⟩

/- A part has at most one column. -/
theorem sublist_heldCells
    (v : Variable)
    (g : Ground)
    (t : Term) :
    (heldCells v g t).Sublist [(v, some g)] := by
  cases t with
  | ground h => exact List.nil_sublist _
  | var w => exact List.Sublist.refl _
  | app c args => exact List.Sublist.refl _

/-
  With columns for its value, a statement has columns for all
  of its parts that a target leaves open.
-/
theorem recovers_of_columns
    {config : WikidataConfig}
    {options : Options}
    (hBranch : options.branchVariable ∉ Target.openNames)
    {s : Statement}
    (hs : Expressible s)
    {used : List String}
    (hReserved : Compile.reservedNames options ⊆ used)
    {t : Target}
    {found : PatternMatch}
    {cells : List Cell}
    (hColumns : Columns config used cells)
    (hReads :
      Side.Reads (some found.template) (some (.statement s))
        (heldCells subjectVariable (.value (.entity s.subject))
            t.subject ++
          (heldCells propertyVariable
              (.value (.property s.snak.property)) t.property ++
            cells))) :
    Recovers config options.branchVariable s found := by
  have hSublist :
      (heldCells subjectVariable (.value (.entity s.subject))
          t.subject ++
        (heldCells propertyVariable
            (.value (.property s.snak.property)) t.property ++
          cells)).Sublist
        ((subjectVariable, some (.value (.entity s.subject))) ::
          (propertyVariable,
            some (.value (.property s.snak.property))) ::
          cells) :=
    (sublist_heldCells _ _ _).append
      ((sublist_heldCells _ _ _).append (List.Sublist.refl cells))
  have hNames := hSublist.map fun cell => cell.1.name
  have hUsed := openNames_subset hReserved
  -- Only the column of an open value has a name in use.
  have hApart :
      ∀ n ∈ used, n ≠ Target.valueName →
        n ∉ cells.map fun cell => cell.1.name := by
    intro n hn hValue hMem
    rcases List.mem_map.mp hMem with ⟨cell, hCell, rfl⟩
    rcases hColumns.names cell hCell with hName | hName
    · exact hValue hName
    · exact hName hn
  refine ⟨_, hReads, hNames.nodup ?_, ?_, ?_⟩
  · have hSubject :=
      hApart Target.subjectName (hUsed (by decide)) (by decide)
    have hProperty :=
      hApart Target.propertyName (hUsed (by decide)) (by decide)
    have hDiffer : Target.subjectName ≠ Target.propertyName := by
      decide
    refine List.nodup_cons.mpr
      ⟨?_, List.nodup_cons.mpr ⟨hProperty, hColumns.nodup⟩⟩
    exact fun hMem => (List.mem_cons.mp hMem).elim hDiffer hSubject
  · intro hMem
    simp only [Target.openNames, List.mem_cons, List.not_mem_nil,
      or_false, not_or] at hBranch
    rcases hBranch with ⟨hSubject, hProperty, hValue⟩
    rcases List.mem_cons.mp (hNames.subset hMem) with hEq | hMem
    · exact hSubject hEq
    rcases List.mem_cons.mp hMem with hEq | hMem
    · exact hProperty hEq
    · refine hApart _ (hReserved ?_) hValue hMem
      simp [Compile.reservedNames]
  · intro cell hCell q hCodec
    rcases List.mem_cons.mp (hSublist.subset hCell) with
      rfl | hCell
    · exact legible_subject hCodec hs.subject
    rcases List.mem_cons.mp hCell with rfl | hCell
    · exact
        legible_entity (e := ⟨.property, _⟩) hCodec hs.property
    · exact hColumns.readable cell hCell q hCodec

/-
  Where a pattern with such arguments is matched with a target
  of a statement, it carries the value of the statement over
  into columns.
-/
def Fills
    (config : WikidataConfig)
    (t : Target)
    (s : Statement)
    (args : List (Option Term)) :
    Prop :=
  ∀ goal snak used ρ,
    t.Asks s.snak.snakKind goal snak →
      Target.openNames ⊆ used →
        Renames ρ (patternOf s.snak.snakKind args).occurrences
            used →
          ∃ θ cells,
            unify
                [(some
                    ((patternOf s.snak.snakKind args).mapVariables
                      (Variable.renamed ρ)),
                  some goal)] =
              .ok θ ∧
            Binds θ ρ t ∧ Carries θ ρ args s.snak cells ∧
            Columns config used cells

variable {config : WikidataConfig} {t : Target}
variable {e : Entity} {i : Iri} {w : Value}

/- A fixed value is of the kind of the value it stands for. -/
theorem kind_of_fixes
    {name : String}
    {k : Kind}
    {u : Term}
    (h : Target.Fixes name k u (.value w))
    (g : Ground)
    (hg : u = .ground g) :
    g.kind = w.kind := by
  rcases h with rfl | ⟨g', rfl, hSame⟩
  · cases hg
  · cases hg
    exact
      Ground.kind_eq_of_canonical_eq ((Ground.same_iff _ _).mp hSame)

/- Statements without a value. -/
theorem fills_nil
    (config : WikidataConfig)
    (hPlain : t.Plain)
    {s : Statement}
    (hs : s.snak.snakKind ≠ .value) :
    Fills config t s [] := by
  intro goal snak used ρ hAsks hUsed hρ
  rcases exists_unify_of_nil hPlain.typed hAsks hs (wellFormed_nil hs)
      hρ hUsed with ⟨θ, hUnify, hBinds⟩
  exact
    ⟨θ, [], hUnify, hBinds, carries_nil θ ρ hs,
      columns_nil config used⟩

/- Statements with a simple value. -/
theorem fills_simple
    (hPlain : t.Plain)
    (hTakes : t.Takes ⟨e, .value i w⟩)
    (hSimple : w.datatype ∈ simpleDatatypes)
    (hw : ExpressibleValue w) :
    Fills config t ⟨e, .value i w⟩
      [some (.var (valueVariable w.datatype))] := by
  intro goal snak used ρ hAsks hUsed hρ
  have hFixes :
      Target.Fixes Target.valueName .value t.value (.value w) :=
    hTakes.value
  have hv := simpleValue w.datatype
  rcases exists_bindsVar hPlain.typed hAsks hv hv.kind hρ hUsed
      (fun g hg => le_of_eq (kind_of_fixes hFixes g hg)) with
    ⟨θ, hUnify, hBinds⟩
  refine
    ⟨θ, _, hUnify, hBinds.parts,
      carries_var hv.kind hBinds.value hBinds.ground hFixes i, ?_⟩
  have hSublist :=
    sublist_heldCells (valueVariable w.datatype) (.value w) t.value
  refine ⟨(hSublist.map _).nodup (List.nodup_singleton _), ?_, ?_⟩
  · intro cell hCell
    rw [List.mem_singleton.mp (hSublist.subset hCell)]
    exact Or.inl rfl
  · intro cell hCell q hCodec
    rw [List.mem_singleton.mp (hSublist.subset hCell)]
    exact legible_simple hCodec hSimple hw

/- New names for the components of a value, and their columns. -/
theorem columns_zip
    {c : Constructor}
    {vs : List Variable}
    (hDeep : Deep c vs)
    {ρ : String → String}
    {used : List String}
    (hρ :
      Renames ρ
        (patternOf .value [some (deepTerm c vs)]).occurrences
        used)
    {gs : List (Option Ground)}
    (hReadable :
      List.Forall₂
        (fun (x : Variable) a =>
          ∀ name, Readable config (⟨name, x.kind⟩, a))
        vs gs) :
    Columns config used
      ((vs.map (Variable.renamed ρ)).zip gs) := by
  have hCells :
      List.Forall₂ (fun y a => Readable config (y, a))
        (vs.map (Variable.renamed ρ)) gs := by
    rw [List.forall₂_map_left_iff]
    exact hReadable.imp fun x a h => h (ρ x.name)
  have hNames :
      (((vs.map (Variable.renamed ρ)).zip gs).map
          fun cell => cell.1.name) =
        (vs.map Variable.name).map ρ := by
    calc
      _ = (((vs.map (Variable.renamed ρ)).zip gs).map
            Prod.fst).map Variable.name := by
          rw [List.map_map]
          rfl
      _ = (vs.map Variable.name).map ρ := by
          rw [List.map_fst_zip (le_of_eq hCells.length_eq),
            List.map_map, List.map_map]
          rfl
  refine ⟨?_, ?_, ?_⟩
  · rw [hNames]
    refine hDeep.nodup.map_on ?_
    intro m hm n hn hEq
    rcases List.mem_map.mp hm with ⟨x, hx, rfl⟩
    rcases List.mem_map.mp hn with ⟨y, hy, rfl⟩
    exact
      hρ.injective x (mem_patternOf_deepTerm hx) y
        (mem_patternOf_deepTerm hy) hEq
  · intro cell hCell
    rcases List.mem_map.mp (List.of_mem_zip hCell).1 with
      ⟨x, hx, hEq⟩
    rw [← hEq]
    exact Or.inr (hρ.fresh x (mem_patternOf_deepTerm hx))
  · rintro ⟨y, a⟩ hCell
    exact (List.forall₂_iff_zip.mp hCells).2 hCell

/- Statements with a deep value. -/
theorem fills_deep
    {c : Constructor}
    {vs : List Variable}
    (hDeep : DeepValue c vs)
    (hPlain : t.Plain)
    (hTakes : t.Takes ⟨e, .value i w⟩)
    (hKind : (Ground.value w).kind = c.kind)
    {gs : List (Option Ground)}
    (hArgs : (Ground.value w).args? = some gs)
    (hReadable :
      List.Forall₂
        (fun (x : Variable) a =>
          ∀ name, Readable config (⟨name, x.kind⟩, a))
        vs gs) :
    Fills config t ⟨e, .value i w⟩ [some (deepTerm c vs)] := by
  intro goal snak used ρ hAsks hUsed hρ
  have hFixes :
      Target.Fixes Target.valueName .value t.value (.value w) :=
    hTakes.value
  rcases exists_bindsDeep hPlain.typed hAsks hDeep hρ hUsed
      (fun g hg => (kind_of_fixes hFixes g hg).trans hKind) with
    ⟨θ, hUnify, hBinds⟩
  -- An open value has a column for each component, a fixed
  -- one has none.
  rcases hBinds.value with
    ⟨_, hValues⟩ | ⟨h, hs, hValue, hKind', hParts, hValues⟩
  · exact
      ⟨θ, _, hUnify, hBinds.parts,
        carries_open hDeep.kinds hDeep.kind hValues hKind hArgs i,
        columns_zip hDeep.toDeep hρ hReadable⟩
  · have hSame : h.same (.value w) = true := by
      rcases hFixes with hOpen | ⟨h', hGround, hSame⟩
      · rw [hValue] at hOpen
        cases hOpen
      · rw [hValue] at hGround
        cases hGround
        exact hSame
    exact
      ⟨θ, [], hUnify, hBinds.parts,
        carries_fixed hDeep.kind hKind' hParts hValues hSame i,
        columns_nil config used⟩

end Wikidata

end StatementQuery

------------------------------------------------------------
-- Plans For A Statement
------------------------------------------------------------

namespace StatementQuery

namespace Wikidata

variable {config : WikidataConfig}

/- A number is read back, where there is one. -/
theorem readable_amount
    {α : Type}
    (a : Option α)
    (amount : α → Decimal)
    (name : String) :
    Readable config
      (⟨name, .quantity⟩,
        a.bind fun x => Ground.amountArg (amount x)) := by
  cases a with
  | none => exact readable_none config _
  | some x => exact fun q _ => legible_amount

/- The components of a quantity are read back. -/
theorem readable_quantity
    {r : Quantity}
    (h : ExpressibleValue (.quantity r)) :
    List.Forall₂
      (fun (x : Variable) a =>
        ∀ name, Readable config (⟨name, x.kind⟩, a))
      quantityVariables
      [Ground.amountArg r.amount, r.unit.bind Ground.itemArg,
        r.lower.bind Ground.amountArg,
        r.upper.bind Ground.amountArg] := by
  refine .cons ?_ (.cons ?_ (.cons ?_ (.cons ?_ .nil)))
  · exact fun name q _ => legible_amount
  · intro name
    cases hCase : r.unit with
    | none => exact readable_none config _
    | some i =>
        exact fun q hCodec =>
          legible_entity (e := ⟨.item, i⟩) hCodec (h i hCase)
  · exact readable_amount r.lower id
  · exact readable_amount r.upper id

/- The components of a time are read back. -/
theorem readable_time
    {r : Time}
    (h : ExpressibleValue (.time r)) :
    List.Forall₂
      (fun (x : Variable) a =>
        ∀ name, Readable config (⟨name, x.kind⟩, a))
      timeVariables
      [some (.value (.instant r.instant)),
        r.precision.bind fun p =>
          Ground.amountArg (.ofInt p.code),
        r.timezone.bind fun z =>
          Ground.amountArg (.ofInt z.toInt),
        r.calendar.bind Ground.itemArg] := by
  rcases h with ⟨hInstant, hCalendar⟩
  refine .cons ?_ (.cons ?_ (.cons ?_ (.cons ?_ .nil)))
  · exact fun name q _ => legible_instant hInstant
  · exact readable_amount r.precision fun p => .ofInt p.code
  · exact readable_amount r.timezone fun z => .ofInt z.toInt
  · intro name
    cases hCase : r.calendar with
    | none => exact readable_none config _
    | some i =>
        exact fun q hCodec =>
          legible_entity (e := ⟨.item, i⟩) hCodec
            (hCalendar i hCase)

variable {options : Options} {f : Filter} {t : Target}
variable {s : Statement}

/-
  An entry whose pattern carries the value of a statement over
  has a plan from which the statement is recovered.
-/
theorem planned_of_fills
    (hBranch : options.branchVariable ∉ Target.openNames)
    (hs : Expressible s)
    (hAccepts : f.Accepts s)
    (hPlain : t.Plain)
    (hTakes : t.Takes s)
    {args : List (Option Term)}
    (hp : (patternOf s.snak.snakKind args).WellFormed)
    (hFills : Fills config t s args)
    {d : Option Datatype}
    (hDatatype :
      match s.snak with
      | .value _ v => d = some v.datatype
      | _ => d = none)
    (id : Nat)
    (emit : Emission) :
    Compile.Planned
      ⟨⟨entries config, codec config⟩, options, f⟩ t
      (entryOf id s.snak.snakKind args d emit)
      (Recovers config options.branchVariable s) := by
  refine
    ⟨hAccepts.excludes?_eq_none hPlain hTakes rfl rfl hDatatype,
      ?_⟩
  intro goal hGoal used hReserved
  have hUsed := openNames_subset hReserved
  rcases hPlain.typed.exists_statement s.snak.snakKind with
    ⟨goal', snak, hAsks⟩
  have hEq : goal' = goal :=
    Except.ok.inj (hAsks.statement.symm.trans hGoal)
  subst hEq
  rcases exists_match hPlain hTakes hAsks hp hUsed
      (fun ρ hρ => hFills goal' snak used ρ hAsks hUsed hρ) with
    ⟨found, cells, hMatch, hColumns, hReads⟩
  exact
    ⟨found, (plan?_entryOf ..).trans hMatch,
      recovers_of_columns hBranch hs hReserved hColumns hReads⟩

/- Every datatype of simple values has an entry. -/
theorem exists_simpleEntry
    (config : WikidataConfig)
    {d : Datatype}
    (hd : d ∈ simpleDatatypes) :
    ∃ id, simpleEntry config d id ∈ entries config := by
  rcases List.mem_iff_getElem?.mp hd with ⟨id, hId⟩
  have hMem : (d, id) ∈ simpleDatatypes.zipIdx :=
    List.mk_mem_zipIdx_iff_getElem?.mpr hId
  exact
    ⟨id, List.mem_append_left _ (List.mem_map.mpr ⟨_, hMem, rfl⟩)⟩

/- A value is a single node, a quantity or a time. -/
theorem simple_or_deep
    (w : Value) :
    w.datatype ∈ simpleDatatypes ∨
      (∃ r, w = .quantity r) ∨ ∃ r, w = .time r := by
  cases w with
  | entity y =>
      left
      cases hKind : y.kind <;>
        simp [Value.datatype, simpleDatatypes, hKind]
  | quantity r => exact Or.inr (Or.inl ⟨r, rfl⟩)
  | time r => exact Or.inr (Or.inr ⟨r, rfl⟩)
  | _ => exact Or.inl (by simp [Value.datatype, simpleDatatypes])

/-
  A target that takes a statement is served by an entry from
  whose plan the statement is recovered.
-/
theorem exists_planned
    (hBranch : options.branchVariable ∉ Target.openNames)
    (hs : Expressible s)
    (hAccepts : f.Accepts s)
    (hPlain : t.Plain)
    (hTakes : t.Takes s) :
    ∃ e ∈ entries config,
      Compile.Planned
        ⟨⟨entries config, codec config⟩, options, f⟩ t e
        (Recovers config options.branchVariable s) := by
  have hPlanned :=
    @planned_of_fills config options f t s hBranch hs hAccepts
      hPlain hTakes
  rcases s with ⟨x, n⟩
  cases n with
  | someValue i =>
      have hk : SnakKind.someValue ≠ .value := by decide
      exact
        ⟨someValueEntry config, by simp [entries],
          hPlanned (wellFormed_nil hk) (fills_nil config hPlain hk)
            rfl 9 (emitSomeValue config)⟩
  | noValue i =>
      have hk : SnakKind.noValue ≠ .value := by decide
      exact
        ⟨noValueEntry config, by simp [entries],
          hPlanned (wellFormed_nil hk) (fills_nil config hPlain hk)
            rfl 10 (emitNoValue config)⟩
  | value i w =>
      have hw := hs.value i w rfl
      rcases simple_or_deep w with hSimple | ⟨r, rfl⟩ | ⟨r, rfl⟩
      · rcases exists_simpleEntry config hSimple with ⟨id, hMem⟩
        exact
          ⟨_, hMem,
            hPlanned (simpleValue w.datatype).formed
              (fills_simple hPlain hTakes hSimple hw) rfl id
              (emitSimple config w.datatype)⟩
      · exact
          ⟨quantityEntry config, by simp [entries],
            hPlanned deepValue_quantity.formed
              (fills_deep deepValue_quantity hPlain hTakes rfl rfl
                (readable_quantity hw))
              rfl 7 (emitQuantity config)⟩
      · exact
          ⟨timeEntry config, by simp [entries],
            hPlanned deepValue_time.formed
              (fills_deep deepValue_time hPlain hTakes rfl rfl
                (readable_time hw))
              rfl 8 (emitTime config)⟩

end Wikidata

end StatementQuery

------------------------------------------------------------
-- The Round Trip
------------------------------------------------------------

namespace StatementQuery

namespace Wikidata

/- The conventions of the store keep values. -/
theorem same_normalizeValue
    (config : WikidataConfig)
    (v : Value)
    (p : Option Iri) :
    ((codec config).normalizeValue v p).same v = true := by
  rw [Value.same_iff]
  cases v with
  | quantity r => exact Value.canonical_canonical (.quantity r)
  | _ => rfl

/- A query in which a statement is recovered from a plan. -/
theorem exists_recovered
    (config : WikidataConfig)
    {options : Options}
    (hBranch : options.branchVariable ∉ Target.openNames)
    {draft f : Filter}
    (hBuild : draft.build = .ok f)
    (hSnakless : f.Snakless)
    (hEmpty : f.isEmpty = false)
    {s : Statement}
    (hs : Expressible s)
    (hAccepts : f.Accepts s) :
    ∃ q,
      (compile ⟨entries config, codec config⟩ options f).result =
          .ok q ∧
        q.branchVariable = options.branchVariable ∧
        q.codec = codec config ∧
        ∃ e found rank,
          Recovers config options.branchVariable s found ∧
            Compile.planOf e found rank ∈ q.plans := by
  have hChecked := Filter.checked_of_build hBuild
  have hPlain := fun t ht =>
    hChecked.plain hSnakless (codec config) (t := t) ht
  rcases exists_compile (m := ⟨entries config, codec config⟩)
      hEmpty (fun t ht e he => serviceable (hPlain t ht) he) with
    ⟨q, hResult, hVariable, hCodec, hPlans⟩
  rcases hAccepts.exists_target (codec config)
      (same_normalizeValue config) with ⟨t, ht, hTakes⟩
  rcases exists_planned hBranch hs hAccepts (hPlain t ht) hTakes
    with ⟨e, he, hPlanned⟩
  rcases hPlans t ht e he _ hPlanned with
    ⟨found, rank, hRecovers, hMem⟩
  exact
    ⟨q, hResult, hVariable, hCodec, e, found, rank, hRecovers,
      hMem⟩

/-
  A filter without snaks is compiled.  A statement that it
  accepts is read back from the row that a branch of the query
  has for it, except where the filter has no bits for ranks,
  for the datatypes of properties or for those of values: then
  the query has no branch.
-/
theorem exists_decode_iff
    (config : WikidataConfig)
    (options : Options)
    (hBranch : options.branchVariable ∉ Target.openNames)
    {draft f : Filter}
    (hBuild : draft.build = .ok f)
    (hSnakless : f.Snakless)
    (hSize :
      (Target.all (codec config) f).length *
          (registrations config).length ≤
        UInt64.size)
    {s : Statement}
    (hs : Expressible s)
    (hAccepts : f.Accepts s) :
    ∃ m q,
      mapping config = .ok m ∧
        (compile m options f).result = .ok q ∧
        ((∃ index plan d,
          q.plans[index]? = some plan ∧
            q.decode (q.rowOf index plan.template s) = .ok d ∧
            d.statement.same s = true) ↔
          Mask.isEmpty f.rankMask = false ∧
            Mask.isEmpty f.propertyMask = false ∧
            Mask.isEmpty f.valueMask = false) := by
  refine ⟨⟨entries config, codec config⟩, ?_⟩
  rw [← hAccepts.isEmpty_eq_false_iff]
  cases hEmpty : f.isEmpty with
  | true =>
      rcases Compile.exists_compile_of_isEmpty
          ⟨entries config, codec config⟩ options hEmpty with
        ⟨q, hResult, hNone⟩
      refine ⟨q, mapping_eq config, hResult, ?_⟩
      simp [hNone]
  | false =>
      rcases exists_recovered config hBranch hBuild hSnakless hEmpty
          hs hAccepts with
        ⟨q, hResult, hVariable, hCodec, e, found, rank, hRecovers,
          hMem⟩
      refine ⟨q, mapping_eq config, hResult, by simp, ?_⟩
      intro _
      rcases hRecovers with
        ⟨cells, hReads, hNodup, hApart, hReadable⟩
      rcases List.mem_iff_getElem?.mp hMem with ⟨index, hIndex⟩
      -- Each pair of a target and an entry has at most one plan.
      have hLength := (Compile.plans_of_compile hResult).1
      have hLt := (List.getElem?_eq_some_iff.mp hIndex).1
      have hBound : index < UInt64.size :=
        hLt.trans_le (hLength.trans hSize)
      rw [← hVariable] at hApart
      rcases CompiledQuery.exists_decode hIndex hBound hReads
          hNodup hApart
          (fun cell hCell => hReadable cell hCell q hCodec) with
        ⟨d, hDecode, hSame⟩
      exact ⟨index, _, d, hIndex, hDecode, hSame⟩

/- A store that names entities in a namespace of its own. -/
def mirror : WikidataConfig where
  entityNamespace := "http://example.org/entity/"

/- The weights of two items. -/
def weights : Filter where
  subject :=
    .or
      [.value
          (.value (.item (.inNamespace entityNamespace "Q42"))),
        .value
          (.value (.item (.inNamespace entityNamespace "Q2")))]
  property :=
    .value
      (.value (.property (.inNamespace entityNamespace "P2067")))

/- A weight with its unit and its bounds. -/
def weightOfItem : Statement where
  subject := ⟨.item, .inNamespace entityNamespace "Q2"⟩
  snak :=
    .value (.inNamespace entityNamespace "P2067")
      (.quantity
        { amount := ⟨150, 2⟩
          unit := some (.inNamespace entityNamespace "Q11570")
          lower := some ⟨14, 1⟩
          upper := some ⟨16, 1⟩ })

theorem snakless_weights : weights.Snakless := by
  constructor <;>
    simp [weights, Fingerprint.Snakless, Fingerprint.Leaves,
      Fingerprint.leaves, Fingerprint.leavesAll]

theorem expressible_weightOfItem : Expressible weightOfItem := by
  refine ⟨⟨"Q2", rfl, rfl⟩, ⟨"P2067", rfl⟩, ?_⟩
  rintro p v ⟨⟩ i ⟨⟩
  exact ⟨"Q11570", rfl⟩

theorem accepts_weights : weights.Accepts weightOfItem where
  subject :=
    Or.inr
      ⟨_, List.mem_cons_of_mem _ List.mem_cons_self, by decide⟩
  property := Or.inr ⟨_, List.mem_cons_self, by decide⟩
  snak := by decide
  subjectMask := by decide
  value := ⟨Or.inl List.mem_cons_self, by decide, by decide⟩

theorem exists_decode_iff_weightOfItem :
    weights.build = .ok weights ∧ weights.Snakless ∧
      Expressible weightOfItem ∧ weights.Accepts weightOfItem ∧
      ∃ m q,
        mapping mirror = .ok m ∧
          (compile m { distinct := true } weights).result =
            .ok q ∧
          ∃ index plan d,
            q.plans[index]? = some plan ∧
              q.decode
                  (q.rowOf index plan.template weightOfItem) =
                .ok d ∧
              d.statement.same weightOfItem = true := by
  have hBuild : weights.build = .ok weights := by rfl
  rcases exists_decode_iff mirror { distinct := true } (by decide)
      hBuild snakless_weights (by decide)
      expressible_weightOfItem accepts_weights with
    ⟨m, q, hMapping, hCompile, hIff⟩
  exact
    ⟨hBuild, snakless_weights, expressible_weightOfItem,
      accepts_weights, m, q, hMapping, hCompile,
      hIff.mpr (by decide)⟩

/-
  A filter accepts a statement that no branch of its query
  gives back.
-/
def Loses
    (config : WikidataConfig)
    (options : Options)
    (f : Filter)
    (s : Statement) :
    Prop :=
  f.build = .ok f ∧ f.Snakless ∧ f.Accepts s ∧
    ∃ m q,
      mapping config = .ok m ∧
        (compile m options f).result = .ok q ∧
        ¬ ∃ index plan d,
          q.plans[index]? = some plan ∧
            q.decode (q.rowOf index plan.template s) = .ok d ∧
            d.statement.same s = true

/- Whatever it accepts, a filter that matches nothing loses. -/
theorem loses_of_isEmpty
    (config : WikidataConfig)
    (options : Options)
    {f : Filter}
    (hBuild : f.build = .ok f)
    (hSnakless : f.Snakless)
    (hEmpty : f.isEmpty = true)
    {s : Statement}
    (hAccepts : f.Accepts s) :
    Loses config options f s := by
  rcases Compile.exists_compile_of_isEmpty
      ⟨entries config, codec config⟩ options hEmpty with
    ⟨q, hResult, hNone⟩
  refine
    ⟨hBuild, hSnakless, hAccepts, _, q, mapping_eq config, hResult,
      ?_⟩
  simp [hNone]

/- Statements with an unknown value. -/
def unknown : Filter where
  snakMask := SnakMask.of .someValue

/- An item whose class is not known. -/
def unknownClass : Statement where
  subject := ⟨.item, .inNamespace entityNamespace "Q42"⟩
  snak := .someValue (.inNamespace entityNamespace "P31")

theorem loses_emptyMasks :
    ({} : Options).branchVariable ∉ Target.openNames ∧
      Expressible unknownClass ∧
      Loses {} {} { unknown with rankMask := Mask.none 3 }
        unknownClass ∧
      Loses {} {} { unknown with propertyMask := Mask.none 9 }
        unknownClass ∧
      Loses {} {} { unknown with valueMask := Mask.none 9 }
        unknownClass := by
  have hs : Expressible unknownClass :=
    ⟨⟨"Q42", rfl, rfl⟩, ⟨"P31", rfl⟩, by rintro p v ⟨⟩⟩
  have hFull : Fingerprint.full.Snakless := by
    simp [Fingerprint.Snakless, Fingerprint.Leaves,
      Fingerprint.leaves]
  refine ⟨by decide, hs, ?_, ?_, ?_⟩
  all_goals
    apply loses_of_isEmpty {} {} rfl ⟨hFull, hFull, hFull⟩
      (by decide)
    exact
      ⟨Or.inl List.mem_cons_self, Or.inl List.mem_cons_self,
        by decide, by decide, rfl⟩

end Wikidata

end StatementQuery
