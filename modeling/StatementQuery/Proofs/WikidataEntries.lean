import StatementQuery.Proofs.Emissions
import StatementQuery.Proofs.WikidataPlans

/-
  The entries of a Wikidata store on plain targets.

  Each entry has one pattern.  Where the pattern matches a
  plain target, the match gives the emission of the entry all
  that it asks for, so no entry fails on a plain target.

  Key definitions include:
    * `Wikidata.entries`
    * `Wikidata.quantityArgs`
    * `Wikidata.timeArgs`

  Main declarations:
    * `Wikidata.mapping_eq`
    * `Wikidata.holds_deep`
    * `Wikidata.serviceable`
-/

------------------------------------------------------------
-- Entries
------------------------------------------------------------

namespace StatementQuery

namespace Wikidata

/- The components of quantities. -/
def quantityVariables : List Variable :=
  [⟨"amount", .quantity⟩, ⟨"unit", .item⟩, ⟨"lower", .quantity⟩,
    ⟨"upper", .quantity⟩]

/- The components of times. -/
def timeVariables : List Variable :=
  [⟨"instant", .time⟩, ⟨"precision", .quantity⟩,
    ⟨"timezone", .quantity⟩, ⟨"calendar", .item⟩]

/- The variable of the values of a datatype. -/
def valueVariable (d : Datatype) : Variable :=
  ⟨Target.valueName, d.kind⟩

/- An entry with one pattern. -/
def entryOf
    (id : Nat)
    (k : SnakKind)
    (args : List (Option Term))
    (d : Option Datatype)
    (emit : Emission) :
    Entry where
  id := id
  patterns := [patternOf k args]
  snakKind := k
  subjectKind := .entity
  datatype := d
  emit := emit

/- The entry of a datatype of simple values. -/
def simpleEntry
    (config : WikidataConfig)
    (d : Datatype)
    (id : Nat) :
    Entry :=
  entryOf id .value [some (.var (valueVariable d))] (some d)
    (emitSimple config d)

/- The entry of quantities. -/
def quantityEntry (config : WikidataConfig) : Entry :=
  entryOf 7 .value [some (deepTerm .quantity quantityVariables)]
    (some .quantity) (emitQuantity config)

/- The entry of times. -/
def timeEntry (config : WikidataConfig) : Entry :=
  entryOf 8 .value [some (deepTerm .time timeVariables)]
    (some .time) (emitTime config)

/- The entry of unknown values. -/
def someValueEntry (config : WikidataConfig) : Entry :=
  entryOf 9 .someValue [] none (emitSomeValue config)

/- The entry of missing values. -/
def noValueEntry (config : WikidataConfig) : Entry :=
  entryOf 10 .noValue [] none (emitNoValue config)

/- All entries of a Wikidata store. -/
def entries (config : WikidataConfig) : List Entry :=
  (simpleDatatypes.zipIdx.map fun (d, id) =>
      simpleEntry config d id) ++
    [quantityEntry config, timeEntry config,
      someValueEntry config, noValueEntry config]

/- The mapping of a Wikidata store has these entries. -/
theorem mapping_eq (config : WikidataConfig) :
    mapping config = .ok ⟨entries config, codec config⟩ :=
  rfl

/- The entries are those of the five forms. -/
theorem mem_entries
    {config : WikidataConfig}
    {e : Entry}
    (h : e ∈ entries config) :
    (∃ d ∈ simpleDatatypes, ∃ id, e = simpleEntry config d id) ∨
      e = quantityEntry config ∨ e = timeEntry config ∨
        e = someValueEntry config ∨ e = noValueEntry config := by
  rcases List.mem_append.mp h with h | h
  · rcases List.mem_map.mp h with ⟨⟨d, id⟩, hMem, rfl⟩
    refine Or.inl ⟨d, ?_, id, rfl⟩
    exact (List.mem_zipIdx' hMem).2 ▸ List.getElem_mem _
  · simpa using Or.inr h

/- A variable for the values of a datatype. -/
theorem simpleValue (d : Datatype) :
    SimpleValue (valueVariable d) := by
  refine ⟨rfl, ?_, ?_⟩
  · rcases d with e | _ | _ | _ | _ | _ | _
    · cases e <;> decide
    all_goals decide
  · rcases d with e | _ | _ | _ | _ | _ | _
    · cases e <;> decide
    all_goals decide

/- Variables for the components of quantities. -/
theorem deepValue_quantity :
    DeepValue .quantity quantityVariables := by
  refine ⟨⟨by decide, by decide, by decide⟩, rfl, ?_, by decide⟩
  intro h hKind
  rcases Ground.exists_quantity_of_kind_le (le_of_eq hKind) with
    ⟨q, rfl⟩
  exact ⟨_, _, rfl⟩

/- Variables for the components of times. -/
theorem deepValue_time :
    DeepValue .time timeVariables := by
  refine ⟨⟨by decide, by decide, by decide⟩, rfl, ?_, by decide⟩
  intro h hKind
  rcases Ground.exists_time_of_kind_le (le_of_eq hKind) with
    ⟨t, rfl⟩
  exact ⟨_, _, rfl⟩

/- Patterns without a value are well formed. -/
theorem wellFormed_nil
    {k : SnakKind}
    (hk : k ≠ .value) :
    (patternOf k []).WellFormed := by
  cases k with
  | value => exact absurd rfl hk
  | someValue => decide
  | noValue => decide

end Wikidata

end StatementQuery

------------------------------------------------------------
-- Arguments Of The Entries
------------------------------------------------------------

namespace StatementQuery

namespace Wikidata

/- An open or fixed part is given to an emission. -/
theorem holds_held
    {args : Args}
    {v : Variable}
    {t : Term}
    (hLookup :
      args.lookup v.name =
        Entry.argOf? (some (some (Target.held v t))))
    {k : Kind}
    (h : ∀ g, t = .ground g → g.kind ≤ k) :
    args.Holds v.name (Arg.Given k) := by
  cases t with
  | ground g => exact ⟨.value g, hLookup, h g rfl⟩
  | var w => exact ⟨.var v.name, hLookup, trivial⟩
  | app c args => exact ⟨.var v.name, hLookup, trivial⟩

variable {t : Target} {k : SnakKind} {goal snak : Term}
variable {args : List (Option Term)} {used : List String}

/- What a match gives to an emission. -/
theorem lookup_of_match
    (hAsks : t.Asks k goal snak)
    (hp : (patternOf k args).WellFormed)
    {found : PatternMatch}
    (h :
      Entry.matchPattern? (patternOf k args) goal used =
        some found) :
    ∃ ρ θ,
      Renames ρ (patternOf k args).occurrences used ∧
        unify
            [(some
                ((patternOf k args).mapVariables
                  (Variable.renamed ρ)),
              some goal)] =
          .ok θ ∧
        ∀ v ∈ (patternOf k args).occurrences,
          found.args.lookup v.name =
            Entry.argOf? (some (θ.value (v.renamed ρ))) := by
  rcases Entry.matchPattern?_eq_some hp h with
    ⟨ρ, hρ, hPattern, hUnify, hArgs⟩
  rw [hPattern] at hUnify
  rcases Term.settled_of_unify (Term.wellFormed_renamed hp hρ)
      hAsks.formed hUnify with ⟨κ, _, hSettled⟩
  refine ⟨ρ, found.bindings, hρ, hUnify, ?_⟩
  intro v hv
  rw [hArgs v hv, Term.settle?_var hSettled]

/- The subject and the property of a match are given. -/
theorem holds_parts
    (hPlain : t.Plain)
    {ρ : String → String}
    {θ : Bindings}
    (hBinds : Binds θ ρ t)
    {found : PatternMatch}
    (hLookup :
      ∀ v ∈ (patternOf k args).occurrences,
        found.args.lookup v.name =
          Entry.argOf? (some (θ.value (v.renamed ρ)))) :
    found.args.Holds "subject" (Arg.Given .entity) ∧
      found.args.Holds "property" (Arg.Given .property) := by
  constructor
  · refine holds_held (v := subjectVariable) ?_
      (kind_le_of_ground hPlain.subject)
    rw [← hBinds.subject]
    exact hLookup _ (mem_occurrences_patternOf.mpr (Or.inl rfl))
  · refine holds_held (v := propertyVariable) ?_
      (kind_le_of_ground hPlain.property)
    rw [← hBinds.property]
    exact hLookup _
      (mem_occurrences_patternOf.mpr (Or.inr (Or.inl rfl)))

/- Lists that are both paired with a third one. -/
theorem forall₂_join
    {α β γ : Type}
    {R : α → β → Prop}
    {S : γ → β → Prop}
    {T : α → γ → Prop}
    {as : List α}
    {bs : List β}
    {cs : List γ}
    (hR : List.Forall₂ R as bs)
    (hS : List.Forall₂ S cs bs)
    (hT : ∀ a ∈ as, ∀ b c, R a b → S c b → T a c) :
    List.Forall₂ T as cs := by
  induction hR generalizing cs with
  | nil =>
      cases hS
      exact .nil
  | @cons a b as bs hHead hTail ih =>
      rcases hS with _ | ⟨hHead', hTail'⟩
      refine .cons (hT a List.mem_cons_self b _ hHead hHead') ?_
      exact ih hTail' fun a' ha' =>
        hT a' (List.mem_cons_of_mem _ ha')

/- What a component of a fixed value is to an emission. -/
def argOfPart (a : Option Ground) : Arg :=
  (a.map Arg.value).getD .absent

/- What the components of a match with a deep value hold. -/
theorem holds_components
    {c : Constructor}
    {vs : List Variable}
    {ρ : String → String}
    {θ : Bindings}
    (hBinds : BindsDeep θ ρ t c vs)
    {found : PatternMatch}
    (hLookup :
      ∀ v ∈ (patternOf .value [some (deepTerm c vs)]).occurrences,
        found.args.lookup v.name =
          Entry.argOf? (some (θ.value (v.renamed ρ))))
    {Ps : List (Arg → Prop)}
    (hLength : vs.length = Ps.length)
    (hVar : ∀ P ∈ Ps, ∀ name, P (.var name))
    (hGround :
      ∀ h gs, h.kind = c.kind → Ground.args? h = some gs →
        List.Forall₂ (fun P a => P (argOfPart a)) Ps gs) :
    List.Forall₂ (fun x P => found.args.Holds x.name P)
      vs Ps := by
  have hArgs := fun x hx => hLookup x (mem_patternOf_deepTerm hx)
  rcases hBinds.value with
    ⟨_, hValues⟩ | ⟨h, gs, _, hKind, hParts, hValues⟩
  · rw [List.forall₂_iff_zip]
    refine ⟨hLength, ?_⟩
    intro x P hMem
    rcases List.of_mem_zip hMem with ⟨hx, hP⟩
    have hx' := hArgs x hx
    rw [hValues x hx] at hx'
    exact ⟨_, hx', hVar P hP _⟩
  · apply forall₂_join hValues (hGround h gs hKind hParts)
    intro x hx a P ha hP
    have hx' := hArgs x hx
    rw [ha] at hx'
    refine ⟨_, ?_, hP⟩
    rw [hx']
    cases a <;> rfl

/- What the components of quantities are to an emission. -/
def quantityArgs : List (Arg → Prop) :=
  [Arg.Given .quantity, Arg.Optional .item,
    Arg.Optional .quantity, Arg.Optional .quantity]

/- What the components of times are to an emission. -/
def timeArgs : List (Arg → Prop) :=
  [Arg.Given .time, Arg.Count, Arg.Count, Arg.Optional .item]

/- The components of a quantity are as its emission takes them. -/
theorem parts_quantity
    (h : Ground)
    (gs : List (Option Ground))
    (hKind : h.kind = Constructor.quantity.kind)
    (hArgs : Ground.args? h = some gs) :
    List.Forall₂ (fun P a => P (argOfPart a)) quantityArgs gs := by
  rcases Ground.exists_quantity_of_kind_le (le_of_eq hKind) with
    ⟨q, rfl⟩
  cases hArgs
  refine
    .cons (le_refl Kind.quantity)
      (.cons ?_ (.cons ?_ (.cons ?_ .nil)))
  · cases q.unit with
    | none => exact Or.inl rfl
    | some i => exact Or.inr (le_refl Kind.item)
  · cases q.lower with
    | none => exact Or.inl rfl
    | some d => exact Or.inr (le_refl Kind.quantity)
  · cases q.upper with
    | none => exact Or.inl rfl
    | some d => exact Or.inr (le_refl Kind.quantity)

/- The code of a precision is a word. -/
theorem fitsSigned_code
    (p : TimePrecision) :
    Numeral.fitsSigned 64 (p.code : Int) = true := by
  cases p <;> decide

/- The minutes of a timezone are a word. -/
theorem fitsSigned_minutes
    (z : Int32) :
    Numeral.fitsSigned 64 z.toInt = true := by
  have hLow := z.le_toInt
  have hHigh := z.toInt_lt
  simp [Numeral.fitsSigned]
  omega

/- The components of a time are as its emission takes them. -/
theorem parts_time
    (h : Ground)
    (gs : List (Option Ground))
    (hKind : h.kind = Constructor.time.kind)
    (hArgs : Ground.args? h = some gs) :
    List.Forall₂ (fun P a => P (argOfPart a)) timeArgs gs := by
  rcases Ground.exists_time_of_kind_le (le_of_eq hKind) with
    ⟨w, rfl⟩
  cases hArgs
  refine
    .cons (le_refl Kind.time)
      (.cons ?_ (.cons ?_ (.cons ?_ .nil)))
  · cases w.precision with
    | none => exact Or.inl rfl
    | some p =>
        exact Or.inr (Or.inr ⟨p.code, fitsSigned_code p, rfl⟩)
  · cases w.timezone with
    | none => exact Or.inl rfl
    | some z =>
        exact
          Or.inr (Or.inr ⟨z.toInt, fitsSigned_minutes z, rfl⟩)
  · cases w.calendar with
    | none => exact Or.inl rfl
    | some i => exact Or.inr (le_refl Kind.item)

end Wikidata

end StatementQuery

------------------------------------------------------------
-- Emissions Of The Entries
------------------------------------------------------------

namespace StatementQuery

namespace Wikidata

/- The open names of targets are reserved. -/
theorem openNames_subset
    {options : Options}
    {used : List String}
    (h : Compile.reservedNames options ⊆ used) :
    Target.openNames ⊆ used := by
  intro n hn
  apply h
  simp only [Target.openNames, Compile.reservedNames,
    List.mem_cons, List.not_mem_nil, or_false] at hn ⊢
  tauto

/- An entry with one pattern is matched by it. -/
theorem plan?_entryOf
    (id : Nat)
    (k : SnakKind)
    (args : List (Option Term))
    (d : Option Datatype)
    (emit : Emission)
    (goal : Term)
    (used : List String) :
    (entryOf id k args d emit).plan? goal used =
      Entry.matchPattern? (patternOf k args) goal used := by
  simp only [Entry.plan?, entryOf, List.findSome?_cons,
    List.findSome?_nil]
  cases Entry.matchPattern? (patternOf k args) goal used <;> rfl

variable {t : Target} {goal snak : Term} {used : List String}
variable {found : PatternMatch}

/- What a match without a value gives to an emission. -/
theorem holds_nil
    (hPlain : t.Plain)
    {k : SnakKind}
    (hk : k ≠ .value)
    (hAsks : t.Asks k goal snak)
    (hUsed : Target.openNames ⊆ used)
    (h :
      Entry.matchPattern? (patternOf k []) goal used =
        some found) :
    found.args.Holds "subject" (Arg.Given .entity) ∧
      found.args.Holds "property" (Arg.Given .property) := by
  have hp := wellFormed_nil hk
  rcases lookup_of_match hAsks hp h with
    ⟨ρ, θ, hρ, hUnify, hLookup⟩
  rcases exists_unify_of_nil hPlain.typed hAsks hk hp hρ hUsed with
    ⟨θ', hUnify', hBinds⟩
  rw [hUnify] at hUnify'
  cases hUnify'
  exact holds_parts hPlain hBinds hLookup

/- What a match with a deep value gives to an emission. -/
theorem holds_deep
    (hPlain : t.Plain)
    (hAsks : t.Asks .value goal snak)
    (hUsed : Target.openNames ⊆ used)
    {c : Constructor}
    {vs : List Variable}
    (hDeep : DeepValue c vs)
    (h :
      Entry.matchPattern?
          (patternOf .value [some (deepTerm c vs)]) goal used =
        some found)
    {Ps : List (Arg → Prop)}
    (hLength : vs.length = Ps.length)
    (hVar : ∀ P ∈ Ps, ∀ name, P (.var name))
    (hGround :
      ∀ h gs, h.kind = c.kind → Ground.args? h = some gs →
        List.Forall₂ (fun P a => P (argOfPart a)) Ps gs) :
    (found.args.Holds "subject" (Arg.Given .entity) ∧
      found.args.Holds "property" (Arg.Given .property)) ∧
      List.Forall₂ (fun x P => found.args.Holds x.name P)
        vs Ps := by
  rcases lookup_of_match hAsks hDeep.formed h with
    ⟨ρ, θ, hρ, hUnify, hLookup⟩
  have hBinds :=
    bindsDeep_of_unify hPlain.typed hAsks hDeep hρ hUsed hUnify
  exact
    ⟨holds_parts hPlain hBinds.parts hLookup,
      holds_components hBinds hLookup hLength hVar hGround⟩

/- A simple value that matches is emitted. -/
theorem succeeds_simple
    (config : WikidataConfig)
    (d : Datatype)
    (context : EmissionContext)
    (hPlain : t.Plain)
    (hAsks : t.Asks .value goal snak)
    (hUsed : Target.openNames ⊆ used)
    (h :
      Entry.matchPattern?
          (patternOf .value [some (.var (valueVariable d))])
          goal used =
        some found) :
    Group.Succeeds (emitSimple config d context found.args) := by
  have hv := simpleValue d
  rcases lookup_of_match hAsks hv.formed h with
    ⟨ρ, θ, hρ, hUnify, hLookup⟩
  have hBinds :=
    bindsVar_of_unify hPlain.typed hAsks hv hv.kind hρ hUsed
      hUnify
  rcases holds_parts hPlain hBinds.parts hLookup with
    ⟨hSubject, hProperty⟩
  apply succeeds_emitSimple config d context hSubject hProperty
  apply holds_held (v := valueVariable d)
  · rw [← hBinds.value]
    apply hLookup
    exact mem_occurrences_patternOf.mpr
      (Or.inr (Or.inr (List.mem_singleton_self _)))
  · exact kind_le_of_ground hPlain.value

/- A quantity that matches is emitted. -/
theorem succeeds_quantity
    (config : WikidataConfig)
    (context : EmissionContext)
    (hPlain : t.Plain)
    (hAsks : t.Asks .value goal snak)
    (hUsed : Target.openNames ⊆ used)
    (h :
      Entry.matchPattern?
          (patternOf .value
            [some (deepTerm .quantity quantityVariables)])
          goal used =
        some found) :
    Group.Succeeds (emitQuantity config context found.args) := by
  have hVar : ∀ P ∈ quantityArgs, ∀ name, P (.var name) := by
    simp [quantityArgs, Arg.Given, Arg.Optional]
  rcases holds_deep hPlain hAsks hUsed deepValue_quantity h rfl
      hVar parts_quantity with
    ⟨⟨hSubject, hProperty⟩,
      _ | ⟨hAmount, _ | ⟨hUnit, _ | ⟨hLower, _ | ⟨hUpper, _⟩⟩⟩⟩⟩
  exact
    succeeds_emitQuantity config context hSubject hProperty
      hAmount hUnit hLower hUpper

/- A time that matches is emitted. -/
theorem succeeds_time
    (config : WikidataConfig)
    (context : EmissionContext)
    (hPlain : t.Plain)
    (hAsks : t.Asks .value goal snak)
    (hUsed : Target.openNames ⊆ used)
    (h :
      Entry.matchPattern?
          (patternOf .value
            [some (deepTerm .time timeVariables)])
          goal used =
        some found) :
    Group.Succeeds (emitTime config context found.args) := by
  have hVar : ∀ P ∈ timeArgs, ∀ name, P (.var name) := by
    simp [timeArgs, Arg.Given, Arg.Optional, Arg.Count]
  rcases holds_deep hPlain hAsks hUsed deepValue_time h rfl
      hVar parts_time with
    ⟨⟨hSubject, hProperty⟩,
      _ | ⟨hInstant, _ |
        ⟨hPrecision, _ | ⟨hTimezone, _ | ⟨hCalendar, _⟩⟩⟩⟩⟩
  exact
    succeeds_emitTime config context hSubject hProperty
      hInstant hPrecision hTimezone hCalendar

/- No entry fails on a plain target. -/
theorem serviceable
    {config : WikidataConfig}
    {options : Options}
    {f : Filter}
    (hPlain : t.Plain)
    {e : Entry}
    (he : e ∈ entries config) :
    Compile.Serviceable
      ⟨⟨entries config, codec config⟩, options, f⟩ t e := by
  intro _
  rcases hPlain.typed.exists_statement e.snakKind with
    ⟨goal, snak, hAsks⟩
  refine ⟨goal, hAsks.statement, ?_⟩
  intro used found hReserved hPlan
  have hUsed := openNames_subset hReserved
  apply Compile.succeeds_emitBranch hPlain.subjectSnaks
    hPlain.valueSnaks
  rcases mem_entries he with
    ⟨d, _, id, rfl⟩ | rfl | rfl | rfl | rfl
  all_goals
    have hMatch := (plan?_entryOf ..).symm.trans hPlan
  · exact succeeds_simple config d _ hPlain hAsks hUsed hMatch
  · exact succeeds_quantity config _ hPlain hAsks hUsed hMatch
  · exact succeeds_time config _ hPlain hAsks hUsed hMatch
  · rcases holds_nil (k := .someValue) hPlain (by decide) hAsks
        hUsed hMatch with
      ⟨hSubject, hProperty⟩
    exact succeeds_emitSomeValue config _ hSubject hProperty
  · rcases holds_nil (k := .noValue) hPlain (by decide) hAsks
        hUsed hMatch with
      ⟨hSubject, hProperty⟩
    exact succeeds_emitNoValue config _ hSubject hProperty

end Wikidata

end StatementQuery
