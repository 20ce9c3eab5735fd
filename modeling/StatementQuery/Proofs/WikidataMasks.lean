import StatementQuery.Proofs.CutTexts
import StatementQuery.Proofs.IndependentAlternatives
import StatementQuery.Proofs.WikidataColumns

/-
  The masks of a filter hold of what its rows decode to.

  Each mask is enforced at several places.  Fixed values that
  are masked out are dropped when a filter is built.  Entries
  are excluded by their snaks and datatypes.  The kind of an
  open subject is left to the store: the branch tests how the
  identifier starts, and the decoder reads its kind from the
  same letter.  The value of a string entry may be fixed to an
  identifier, but its column is always read as a string.

  Key definitions include:
    * `Row.passes`
    * `Filter.Admits`
    * `Wikidata.Form`
    * `Wikidata.Reading`

  Main declarations:
    * `Wikidata.admits_subject`
    * `Wikidata.Form.binds`
    * `Wikidata.exists_reading`
    * `Wikidata.masks_respected`
-/

------------------------------------------------------------
-- Filters On How A Column Starts
------------------------------------------------------------

namespace StatementQuery

/- The text of a node. -/
def Node.str? : Node → Option String
| .iri i => some i.text
| .literal l => some l.value
| .var _ => none

/- The text that a test asks a column to start with. -/
def Expr.start? (name : String) : Expr → Option String
| .call test [.call view [.node (.var column)], .node (.literal l)] =>
    if test = "STRSTARTS" ∧ view = "STR" ∧ column = name then
      some l.value
    else none
| _ => none

namespace Row

/- Whether a column starts with one of some texts. -/
def startsWith
    (row : Row)
    (name : String)
    (starts : List String) :
    Bool :=
  match (row.lookup name).bind Node.str? with
  | some text =>
      starts.any fun start => start.toList.isPrefixOf text.toList
  | none => false

/- Whether a column passes a filter on how it starts. -/
def passes (row : Row) (name : String) : Pattern → Bool
| .filter (.or tests) =>
    match tests.mapM (Expr.start? name) with
    | some starts => row.startsWith name starts
    | none => true
| _ => true

end Row

/- The tests of a filter on how a column starts are read back. -/
theorem Expr.mapM_start?
    (name : String)
    (starts : List String) :
    (starts.map (Expr.strStarts (.var name))).mapM
        (Expr.start? name) =
      some starts := by
  induction starts with
  | nil => rfl
  | cons start starts ih =>
      simp [Expr.strStarts, Expr.start?, Node.string] at ih ⊢
      simp [ih]

/- To pass such a filter, a column has to start so. -/
theorem Row.passes_startsFilter
    (row : Row)
    (name : String)
    (starts : List String) :
    row.passes name (Wikidata.startsFilter name starts) =
      row.startsWith name starts := by
  rw [Wikidata.startsFilter, passes, Expr.mapM_start?]

end StatementQuery

------------------------------------------------------------
-- What Columns Are Read As
------------------------------------------------------------

namespace StatementQuery

namespace CompiledQuery

/- A value that is bound by a row is read from a column. -/
theorem exists_node_of_value
    {q : CompiledQuery}
    {row : Row}
    {vs : List Variable}
    {entries : List (Variable × Option Term)}
    (h : q.decodeVariables row vs = .ok entries)
    {v : Variable}
    {g : Ground}
    (hv : Bindings.value ⟨entries⟩ v = some (.ground g)) :
    ∃ n w,
      row.lookup v.name = some n ∧
        q.decodeNode? v.kind n = some w ∧
        w.kind ≤ v.kind ∧ g = .value w := by
  have hGet :
      Bindings.get? ⟨entries⟩ v = some (some (.ground g)) := by
    cases hGet : Bindings.get? ⟨entries⟩ v with
    | none =>
        rw [Bindings.value_of_get?_none hGet] at hv
        cases hv
    | some side =>
        rw [Bindings.value_of_get? hGet] at hv
        rw [hv]
  have hRead : q.decodeVariable row v = .ok (some (.ground g)) :=
    decodeVariable_of_mem h _ (Bindings.exists_entry hGet)
  unfold decodeVariable at hRead
  split at hRead
  · rename_i n hNode
    rcases exists_of_bind_eq_ok hRead with ⟨w, hColumn, hRead⟩
    cases hRead
    rcases decodeColumn_eq_ok_iff.mp hColumn with
      ⟨hDecode, hKind⟩
    exact ⟨n, w, hNode, hDecode, hKind, rfl⟩
  · cases hRead

end CompiledQuery

namespace DatatypeMask

/- A mask of all entities admits each kind of them. -/
theorem admits_of_contains_entities
    {m : DatatypeMask}
    (h : Mask.contains m entities = true)
    (k : EntityKind) :
    m.admits (.entity k) = true := by
  have hPart : entities &&& of (.entity k) = of (.entity k) := by
    cases k <;> decide
  simp only [admits, Mask.contains, beq_iff_eq] at h ⊢
  rw [← hPart, ← BitVec.and_assoc, h]

end DatatypeMask

namespace Wikidata

variable {config : WikidataConfig}

/- An identifier of an entity starts with the entity's letter. -/
theorem text_of_decodeIri?
    {i : Iri}
    {e : Entity}
    (h : decodeIri? config i .entity = some (.entity e)) :
    ∃ letter rest,
      i.text.toList =
          config.entityNamespace.toList ++ letter :: rest ∧
        EntityKind.ofLetter? letter = some e.kind := by
  simp only [decodeIri?, decodeByLetter?, Option.bind_eq_bind,
    Option.bind_eq_some_iff] at h
  rcases h with ⟨localName, hLocal, kind, hKind, hEntity⟩
  cases hEntity
  rcases Option.map_eq_some_iff.mp hLocal with ⟨cs, hAfter, rfl⟩
  have hText := Text.eq_append_of_afterStart? hAfter
  rcases Option.bind_eq_some_iff.mp hKind with
    ⟨letter, hHead, hLetter⟩
  rw [String.toList_ofList] at hHead
  rcases List.head?_eq_some_iff.mp hHead with ⟨rest, rfl⟩
  exact ⟨letter, rest, hText, hLetter⟩

/- No literal is an entity. -/
theorem decode?_ne_entity
    (l : Literal)
    (k : Kind)
    (language : String)
    (e : Entity) :
    l.decode? k language ≠ some (.entity e) := by
  unfold Literal.decode? Literal.decodePlain
  split
  · simp
  · split <;> simp
  · split
    · simp [Value.amount]
    · split
      · simp [Value.instant]
      · split
        · split <;> simp
        · simp

/- A column for strings is not read as an identifier. -/
theorem decode?_string_ne
    (l : Literal)
    (language content : String) :
    l.decode? .string language ≠ some (.externalId content) := by
  unfold Literal.decode? Literal.decodePlain
  split
  · simp
  · simp
  · split
    · simp [Value.amount]
    · split
      · simp [Value.instant]
      · split <;> simp

/-
  An open subject is of a kind that the mask admits, if its
  column starts as the mask asks for.
-/
theorem admits_subject
    {q : CompiledQuery}
    (hCodec : q.codec = codec config)
    {row : Row}
    {name : String}
    {n : Node}
    (hNode : row.lookup name = some n)
    {e : Entity}
    (hRead : q.decodeNode? .entity n = some (.entity e))
    {m : DatatypeMask}
    (hStarts :
      Mask.contains m DatatypeMask.entities = false →
        row.startsWith name (subjectStarts config m) = true) :
    m.admits (.entity e.kind) = true := by
  cases hAll : Mask.contains m DatatypeMask.entities with
  | true => exact DatatypeMask.admits_of_contains_entities hAll _
  | false =>
      have hStart := hStarts hAll
      cases n with
      | var other => cases hRead
      | literal l =>
          exact absurd hRead (decode?_ne_entity l _ _ e)
      | iri i =>
          simp only [CompiledQuery.decodeNode?, hCodec, codec]
            at hRead
          rcases text_of_decodeIri? hRead with
            ⟨letter, rest, hText, hLetter⟩
          simp only [Row.startsWith, hNode, Option.bind_some,
            Node.str?, subjectStarts, List.any_map,
            List.any_eq_true, Function.comp_apply,
            String.toList_append, List.isPrefixOf_iff_prefix,
            hText, List.prefix_append_right_inj] at hStart
          rcases hStart with ⟨k, hk, hPrefix⟩
          have hSame : k.letter = letter := by
            simpa using hPrefix
          have hKind : e.kind = k := by
            rw [← hSame] at hLetter
            cases k <;> simpa [EntityKind.letter,
              EntityKind.ofLetter?, eq_comm] using hLetter
          rw [hKind]
          exact (List.mem_filter.mp hk).2

end Wikidata

end StatementQuery

------------------------------------------------------------
-- What Masks Leave Of A Filter
------------------------------------------------------------

namespace StatementQuery

namespace Fingerprint

/- The values that a fingerprint asks for are kept ones. -/
theorem keep_of_mem_alternatives
    {fp : Fingerprint}
    {keep : Ground → Bool}
    (hKept : fp.Leaves (KeptBy keep))
    {g : Ground}
    (h : .value g ∈ fp.alternatives) :
    keep g = true := by
  rcases mem_alternatives_cases fp h with
    hAny | ⟨_, hValue, hLeaf⟩ | ⟨_, _, hSnaks, _⟩
  · cases hAny
  · cases hValue
    exact hKept _ hLeaf g rfl
  · cases hSnaks

end Fingerprint

namespace Filter

/-
  A statement has a subject, a kind of snak and, if its snak has
  one, a value that the masks of a filter ask for.
-/
structure Admits (f : Filter) (x : Statement) : Prop where
  subject : f.subjectMask.admits (.entity x.subject.kind) = true
  snak :
    Mask.contains f.snakMask (SnakMask.of x.snak.snakKind) = true
  value :
    ∀ i w, x.snak = .value i w →
      f.valueMask.admits w.datatype = true

/- What a target fixes is within the masks of its filter. -/
structure Retains (f : Filter) (t : Target) : Prop where
  subject :
    ∀ g, t.subject = .ground g → within f.subjectMask g = true
  value : ∀ g, t.value = .ground g → within f.valueMask g = true

variable {f : Filter} {t : Target}

theorem Built.retains
    (h : f.Built)
    {codec : Codec}
    (hCodec :
      ∀ v p, (codec.normalizeValue v p).datatype = v.datatype)
    (ht : t ∈ Target.all codec f) :
    f.Retains t := by
  simp only [Target.all, List.mem_flatMap, List.mem_map] at ht
  rcases ht with ⟨s, hs, p, hp, v, hv, rfl⟩
  constructor
  · intro g hg
    cases s with
    | value g' =>
        cases hg
        exact Fingerprint.keep_of_mem_alternatives h.subjectKept hs
    | _ => cases hg
  · intro g hg
    cases v with
    | value g' =>
        cases hg
        have hKept :=
          Fingerprint.keep_of_mem_alternatives h.valueKept hv
        cases g' with
        | value w =>
            simpa [within, Codec.normalizeGround, Ground.datatype?,
              hCodec] using hKept
        | _ => exact hKept
    | _ => cases hg

/-
  The value of a target may be any value, unless snaks are asked
  of it; then it is an entity.
-/
theorem Checked.typed_cases
    (h : f.Checked)
    {codec : Codec}
    (ht : t ∈ Target.all codec f) :
    t.Typed .value ∨ t.Typed .entity ∧ t.valueSnaks ≠ [] := by
  simp only [Target.all, List.mem_flatMap, List.mem_map] at ht
  rcases ht with ⟨s, hs, p, hp, v, hv, rfl⟩
  have hTyped := h.typed codec hs hp hv
  rcases Fingerprint.mem_alternatives_cases _ hv with
    rfl | ⟨g, rfl, _⟩ | ⟨g, gs, rfl, _⟩
  · exact Or.inl hTyped
  · exact Or.inl hTyped
  · exact Or.inr ⟨hTyped, List.cons_ne_nil g gs⟩

end Filter

namespace Entry

/- What the datatype of an entry that is not excluded is like. -/
theorem datatype_of_excludes?
    {e : Entry}
    {f : Filter}
    {t : Target}
    (h : e.excludes? f t = none)
    {d : Datatype}
    (hd : e.datatype = some d) :
    (e.snakKind = .value → f.valueMask.admits d = true) ∧
      (t.valueSnaks ≠ [] → d.isEntity = true) := by
  unfold excludes? at h
  split_ifs at h
  rw [hd, Option.bind_some] at h
  unfold datatypeExcludes? at h
  split_ifs at h with hProperty hValue hSnaks
  constructor
  · intro hKind
    simpa [hKind] using hValue
  · intro hNonempty
    simpa [List.isEmpty_iff, hNonempty] using hSnaks

end Entry

namespace Datatype

/- Only an identifier is of the kind of another datatype. -/
theorem eq_of_kind_le
    {d d' : Datatype}
    (h : d'.kind ≤ d.kind) :
    d' = d ∨ d' = .externalId ∧ d = .string := by
  revert h
  rcases d with e | _ | _ | _ | _ | _ | _ <;>
    rcases d' with e' | _ | _ | _ | _ | _ | _ <;>
    first
      | (cases e <;> cases e' <;> decide)
      | (cases e <;> decide)
      | (cases e' <;> decide)
      | decide

end Datatype

end StatementQuery

------------------------------------------------------------
-- What Patterns Are Bound To
------------------------------------------------------------

namespace StatementQuery

namespace Term

/- The variable that a statement has for its subject. -/
def subjectVariable? (t : Term) : Option Variable :=
  match t.args? with
  | some (some (.var v) :: _) => some v
  | _ => none

end Term

namespace Side

/-
  A variable that stands for an open or fixed part becomes the
  fixed part, or what the variable of the open part becomes.
-/
theorem cases_of_held
    {τ θ : Variable → Side}
    {v w : Variable}
    {t : Term}
    (hBound : θ v = some (Target.held w t))
    {g : Ground}
    (h :
      outcome (some (Side.after τ θ v)) =
        outcome (some (some (.ground g)))) :
    (∃ g', t = .ground g' ∧ g'.same g = true) ∨
      Target.held w t = .var w ∧
        ∃ g', τ w = some (.ground g') ∧ g'.same g = true := by
  rw [Side.after, hBound] at h
  cases t with
  | ground g' =>
      left
      rcases Term.exists_ground_of_outcome h with
        ⟨g'', hEq, hSame⟩
      cases hEq
      exact ⟨g', rfl, hSame⟩
  | _ =>
      right
      rcases Term.exists_ground_of_outcome h with
        ⟨g'', hEq, hSame⟩
      exact ⟨rfl, g'', Option.some.inj hEq, hSame⟩

end Side

namespace Wikidata

variable {config : WikidataConfig}

/-
  The forms of the patterns of entries, by the kind of snaks and
  the datatype of the entry: with a variable for the value, with
  one for each component of it, or without a value.
-/
inductive Form : SnakKind → Option Datatype → Term → Prop where
| simple
    (d : Datatype) :
    Form .value (some d)
      (patternOf .value [some (.var (valueVariable d))])
| deep
    {c : Constructor}
    {vs : List Variable}
    {d : Datatype}
    (hDeep : DeepValue c vs)
    (hKind : c.kind = d.kind)
    (hd : d = .quantity ∨ d = .time) :
    Form .value (some d) (patternOf .value [some (deepTerm c vs)])
| bare
    {k : SnakKind}
    (hk : k ≠ .value) :
    Form k none (patternOf k [])

theorem form_of_mem
    {e : Entry}
    (he : e ∈ entries config)
    {p : Term}
    (hp : p ∈ e.patterns) :
    Form e.snakKind e.datatype p := by
  rcases mem_entries he with
    ⟨d, _, id, rfl⟩ | rfl | rfl | rfl | rfl <;>
    cases List.mem_singleton.mp hp
  · exact .simple d
  · exact .deep deepValue_quantity rfl (Or.inl rfl)
  · exact .deep deepValue_time rfl (Or.inr rfl)
  · exact .bare (k := .someValue) (by decide)
  · exact .bare (k := .noValue) (by decide)

/-
  The value of a pattern with one: it is of the kind of the
  entry's datatype, and a variable for strings.
-/
def HasValue
    (d : Option Datatype)
    (args : List (Option Term)) :
    Prop :=
  ∃ d' b,
    d = some d' ∧ args = [some b] ∧ b.kind = d'.kind ∧
      (d' = .string → b = .var (valueVariable .string))

theorem Form.exists_args
    {k : SnakKind}
    {d : Option Datatype}
    {p : Term}
    (h : Form k d p) :
    ∃ args, p = patternOf k args ∧
      (k = .value → HasValue d args) := by
  cases h with
  | simple d =>
      refine ⟨_, rfl, fun _ => ⟨d, _, rfl, rfl, rfl, ?_⟩⟩
      rintro rfl
      rfl
  | @deep c vs d _ hKind hd =>
      refine ⟨_, rfl, fun _ => ⟨d, _, rfl, rfl, hKind, ?_⟩⟩
      rintro rfl
      rcases hd with hd | hd <;> cases hd
  | bare hk => exact ⟨[], rfl, fun h => absurd h hk⟩

variable {t : Target} {goal snak : Term}
variable {ρ : String → String} {used : List String}
variable {θ : Bindings}

/- A target is typed, whether snaks are asked of its value or not. -/
theorem exists_typed
    {P : Prop}
    (h : t.Typed .value ∨ t.Typed .entity ∧ P) :
    ∃ j, t.Typed j :=
  h.elim (fun hTyped => ⟨_, hTyped⟩) fun hTyped => ⟨_, hTyped.1⟩

/- A pattern with a variable is bound to the value as well. -/
theorem bindsVar_of_typed
    {d : Datatype}
    (hTyped :
      t.Typed .value ∨ t.Typed .entity ∧ d.isEntity = true)
    (hAsks : t.Asks .value goal snak)
    (hρ :
      Renames ρ
        (patternOf .value
          [some (.var (valueVariable d))]).occurrences
        used)
    (hUsed : Target.openNames ⊆ used)
    (hUnify :
      unify
          [(some
              ((patternOf .value
                  [some (.var (valueVariable d))]).mapVariables
                (Variable.renamed ρ)),
            some goal)] =
        .ok θ) :
    BindsVar θ ρ t (valueVariable d) := by
  have hv := simpleValue d
  rcases hTyped with hTyped | ⟨hTyped, hEntity⟩
  · exact bindsVar_of_unify hTyped hAsks hv hv.kind hρ hUsed hUnify
  · have hKind : (valueVariable d).kind ≤ .entity := by
      rcases d with e | _ | _ | _ | _ | _ | _
      · cases e <;> decide
      all_goals cases hEntity
    exact bindsVar_of_unify hTyped hAsks hv hKind hρ hUsed hUnify

/-
  A pattern that matches a target that is not excluded is bound
  to the parts of the target.
-/
theorem Form.binds
    {k : SnakKind}
    {d : Option Datatype}
    {p : Term}
    (h : Form k d p)
    (hp : p.WellFormed)
    (hTyped :
      t.Typed .value ∨
        t.Typed .entity ∧ ∀ d', d = some d' → d'.isEntity = true)
    (hAsks : t.Asks k goal snak)
    (hρ : Renames ρ p.occurrences used)
    (hUsed : Target.openNames ⊆ used)
    (hUnify :
      unify
          [(some (p.mapVariables (Variable.renamed ρ)),
            some goal)] =
        .ok θ) :
    Binds θ ρ t := by
  cases h with
  | simple d =>
      have hTypedAt :=
        hTyped.imp_right fun h => And.intro h.1 (h.2 d rfl)
      exact
        (bindsVar_of_typed hTypedAt hAsks hρ hUsed hUnify).parts
  | deep hDeep _ hd =>
      rcases hTyped with hTyped | ⟨_, hEntity⟩
      · exact
          (bindsDeep_of_unify hTyped hAsks hDeep hρ hUsed
            hUnify).parts
      · have hd' := hEntity _ rfl
        rcases hd with rfl | rfl <;> cases hd'
  | bare hk =>
      rcases exists_typed hTyped with ⟨j, hTyped⟩
      rcases exists_unify_of_nil hTyped hAsks hk hp hρ hUsed with
        ⟨θ', hUnify', hBinds⟩
      rw [hUnify] at hUnify'
      cases hUnify'
      exact hBinds

/-
  The subject of a template is what the pattern's is bound to, up
  to the spelling of numbers.
-/
theorem exists_subject_template
    {k : SnakKind}
    {args : List (Option Term)}
    (hp : (patternOf k args).WellFormed)
    {found : PatternMatch}
    {κ : Kinding}
    {u : Term}
    (h : Entry.Matches (patternOf k args) goal used found ρ κ u)
    {s : Term}
    (hs :
      found.bindings.value (subjectVariable.renamed ρ) = some s) :
    ∃ b as, found.template.args? = some (some b :: as) ∧
      b.canonical = s.canonical := by
  rcases Term.args?_of_subst (c := .statement) rfl hp.shaped rfl
      rfl h.fits h.subst with
    ⟨hKind, values, hValues, hParts⟩
  have hTemplate :
      found.template.args?.map (List.map (Option.map Term.canonical)) =
        some (values.map (Option.map Term.canonical)) := by
    have hTemplateKind :
        found.template.kind = Constructor.statement.kind := by
      rw [← Term.kind_canonical, ← h.same, Term.kind_canonical,
        hKind]
    rw [← Term.args?_canonical rfl hTemplateKind, ← h.same,
      Term.args?_canonical rfl hKind, hValues]
    rfl
  cases values with
  | nil => cases hParts
  | cons first rest =>
      have hFirst : first = some s := by
        have hHead := List.head_eq_of_cons_eq hParts
        exact (Option.some.inj hHead).symm.trans hs
      subst hFirst
      rcases Option.map_eq_some_iff.mp hTemplate with
        ⟨as, hArgs, hSame⟩
      rcases List.map_eq_cons_iff.mp hSame with
        ⟨a, as', rfl, ha, _⟩
      rcases Option.map_eq_some_iff.mp ha with ⟨b, rfl, hb⟩
      exact ⟨b, as', hArgs, hb⟩

/- A variable for the subject is the variable of the template. -/
theorem subjectVariable?_template
    {k : SnakKind}
    {args : List (Option Term)}
    (hp : (patternOf k args).WellFormed)
    {found : PatternMatch}
    {κ : Kinding}
    {u : Term}
    (h : Entry.Matches (patternOf k args) goal used found ρ κ u)
    {v : Variable}
    (hv :
      found.bindings.value (subjectVariable.renamed ρ) =
        some (.var v)) :
    found.template.subjectVariable? = some v := by
  rcases exists_subject_template hp h hv with ⟨b, as, hArgs, hb⟩
  have hVar : b = .var v := by
    cases b with
    | var w => exact hb
    | _ => cases hb
  subst hVar
  simp [Term.subjectVariable?, hArgs]

end Wikidata

end StatementQuery

------------------------------------------------------------
-- Rows That Are Read
------------------------------------------------------------

namespace StatementQuery

namespace Term

/- A ground instance of a term is of the term's kind. -/
theorem kind_le_of_outcome
    {b : Term}
    (hShaped : b.WellShaped)
    {κ : Kinding}
    {f : Variable → Side}
    (hf : ∀ v ∈ b.occurrences, Side.Fits κ v.kind (f v))
    {g : Ground}
    (h : outcome (b.subst f) = outcome (some (some (.ground g)))) :
    g.kind ≤ b.kind := by
  rcases exists_ground_of_outcome h with ⟨g', hg', hSame⟩
  have hKind : g'.kind ≤ b.kind :=
    (fits_subst hShaped hf hg' _ rfl).1
  have hEq : g'.kind = g.kind :=
    Ground.kind_eq_of_canonical_eq ((Ground.same_iff g' g).mp hSame)
  rwa [← hEq]

end Term

namespace Filter

/- What is within a mask has a datatype that it admits. -/
theorem admits_of_within
    {m : DatatypeMask}
    {g : Ground}
    {w : Value}
    (h : within m g = true)
    (hSame : g.same (.value w) = true) :
    m.admits w.datatype = true := by
  cases g with
  | value v =>
      have hCanonical : v.canonical = w.canonical :=
        (Value.same_iff v w).mp hSame
      have hEq : v.datatype = w.datatype := by
        rw [← Value.datatype_canonical, hCanonical,
          Value.datatype_canonical]
      rw [← hEq]
      exact h
  | _ => cases hSame

end Filter

namespace Wikidata

variable {config : WikidataConfig} {f : Filter} {t : Target}
variable {q : CompiledQuery} {row : Row}
variable {vs : List Variable}
variable {columns : List (Variable × Option Term)}
variable {θ : Bindings} {ρ : String → String}

/- A subject is fixed within the mask, or starts as it asks. -/
theorem admits_subject_of_binds
    (hCodec : q.codec = codec config)
    (hRead : q.decodeVariables row vs = .ok columns)
    (hRetains : f.Retains t)
    (hBinds : Binds θ ρ t)
    {e : Entity}
    (hSubject :
      outcome
          (some
            (Side.after (Bindings.value ⟨columns⟩) θ.value
              (subjectVariable.renamed ρ))) =
        outcome (some (some (.ground (.value (.entity e))))))
    (hStarts :
      Target.held subjectVariable t.subject =
          .var subjectVariable →
        Mask.contains f.subjectMask DatatypeMask.entities = false →
          row.startsWith subjectVariable.name
              (subjectStarts config f.subjectMask) =
            true) :
    f.subjectMask.admits (.entity e.kind) = true := by
  rcases Side.cases_of_held hBinds.subject hSubject with
    ⟨g, hg, hSame⟩ | ⟨hOpen, g, hg, hSame⟩
  · exact Filter.admits_of_within (hRetains.subject g hg) hSame
  · rcases CompiledQuery.exists_node_of_value hRead hg with
      ⟨n, w, hNode, hDecode, _, rfl⟩
    cases Ground.eq_of_same_entity hSame
    exact admits_subject hCodec hNode hDecode (hStarts hOpen)

/- An identifier for a string is fixed within the mask. -/
theorem admits_externalId
    (hCodec : q.codec = codec config)
    (hRead : q.decodeVariables row vs = .ok columns)
    (hRetains : f.Retains t)
    (hBinds : BindsVar θ ρ t (valueVariable .string))
    {w : Value}
    (hValue :
      outcome
          (some
            (Side.after (Bindings.value ⟨columns⟩) θ.value
              ((valueVariable .string).renamed ρ))) =
        outcome (some (some (.ground (.value w)))))
    (hw : w.datatype = .externalId) :
    f.valueMask.admits w.datatype = true := by
  rcases Side.cases_of_held hBinds.value hValue with
    ⟨g, hg, hSame⟩ | ⟨_, g, hg, hSame⟩
  · exact Filter.admits_of_within (hRetains.value g hg) hSame
  · rcases CompiledQuery.exists_node_of_value hRead hg with
      ⟨n, v, _, hDecode, _, rfl⟩
    cases w with
    | externalId content =>
        have hEq : v = .externalId content := by
          cases v <;> simp_all [Ground.same, Value.same]
        subst hEq
        cases n with
        | var name => cases hDecode
        | literal l => exact absurd hDecode (decode?_string_ne l _ _)
        | iri i =>
            simp only [CompiledQuery.decodeNode?, hCodec] at hDecode
            cases hDecode
    | _ => cases hw

/- The spelling of numbers changes no datatype. -/
theorem datatype_normalizeValue
    (v : Value) :
    (normalizeValue v).datatype = v.datatype := by
  cases v <;> rfl

/- A target that is not excluded is served by a typed value. -/
theorem typed_of_excludes?
    (hChecked : f.Checked)
    (ht : t ∈ Target.all (codec config) f)
    {e : Entry}
    (h : e.excludes? f t = none) :
    t.Typed .value ∨
      t.Typed .entity ∧
        ∀ d, e.datatype = some d → d.isEntity = true := by
  rcases hChecked.typed_cases ht with hTyped | ⟨hTyped, hSnaks⟩
  · exact Or.inl hTyped
  · exact Or.inr
      ⟨hTyped, fun d hd =>
        (Entry.datatype_of_excludes? h hd).2 hSnaks⟩

/- Such a target asks for a statement. -/
theorem exists_asks
    {P : Prop}
    (h : t.Typed .value ∨ t.Typed .entity ∧ P)
    {k : SnakKind}
    {goal : Term}
    (hGoal : t.statement k = .ok goal) :
    ∃ snak, t.Asks k goal snak := by
  rcases exists_typed h with ⟨j, hTyped⟩
  rcases hTyped.exists_statement k with ⟨goal', snak, hAsks⟩
  cases Except.ok.inj (hAsks.statement.symm.trans hGoal)
  exact ⟨snak, hAsks⟩

variable {options : Options} {index : Nat}
variable {a : Compile.Addition} {p : Term}

/- A branch tests how an open subject starts. -/
theorem startsWith_of_made
    (hMade : Compile.Made (taskOf config options f) index a)
    (he : a.entry ∈ entries config)
    (hp : p ∈ a.entry.patterns)
    {name : String}
    (hName : a.found.args.lookup "subject" = some (.var name))
    (hPasses : a.branch.all (row.passes name) = true)
    (hMask :
      Mask.contains f.subjectMask DatatypeMask.entities = false) :
    row.startsWith name (subjectStarts config f.subjectMask) =
      true := by
  rcases hMade.exists_written
      (covers_emit he hp ⟨codec config, f, options⟩
        a.found.args) with
    ⟨written, hCovers, hSubset⟩
  have hTest := hSubset (hCovers.restricted name hName hMask)
  rw [← Row.passes_startsFilter]
  exact List.all_eq_true.mp hPasses _ hTest

/- A ground instance of a pattern, part by part. -/
theorem outcome_patternOf
    {k : SnakKind}
    {args : List (Option Term)}
    (hp :
      ((patternOf k args).mapVariables
        (Variable.renamed ρ)).WellShaped)
    {κ : Kinding}
    {g : Variable → Side}
    (hg :
      ∀ v ∈ ((patternOf k args).mapVariables
          (Variable.renamed ρ)).occurrences,
        Side.Fits κ v.kind (g v))
    {x : Statement}
    (hx :
      outcome
          (((patternOf k args).mapVariables
            (Variable.renamed ρ)).subst g) =
        outcome (some (some (.ground (.statement x))))) :
    outcome (some (g (subjectVariable.renamed ρ))) =
        outcome
          (some (some (.ground (.value (.entity x.subject))))) ∧
      x.snak.snakKind = k ∧
      ∀ i w b, x.snak = .value i w → args = [some b] →
        outcome ((b.mapVariables (Variable.renamed ρ)).subst g) =
            outcome (some (some (.ground (.value w)))) ∧
          w.kind ≤ b.kind := by
  rw [mapVariables_patternOf] at hp hg hx
  rcases Term.outcome_statement (k := k) hp rfl rfl rfl rfl hg hx
    with ⟨hSubject, _, hKind, hValue⟩
  refine ⟨hSubject, hKind, ?_⟩
  rintro i w b hw rfl
  have hOutcome := List.head_eq_of_cons_eq (hValue i w hw)
  refine ⟨hOutcome, ?_⟩
  have hArg :
      some (b.mapVariables (Variable.renamed ρ)) ∈
        some (.var (propertyVariable.renamed ρ)) ::
          renamedArgs ρ [some b] := by
    simp [renamedArgs]
  rcases Term.within_args (Term.within_snak hp rfl) rfl hArg _ rfl
    with ⟨hShaped, hOccurrences⟩
  have hLe :=
    Term.kind_le_of_outcome hShaped
      (fun v hv => hg v (hOccurrences v hv)) hOutcome
  exact hLe.trans (Term.kind_mapVariables_le fun _ _ => le_refl _)

/-
  How a branch is matched: a pattern of its entry, with names
  apart from those of the target, is bound to the parts of the
  target.
-/
structure Matched
    (a : Compile.Addition)
    (args : List (Option Term))
    (goal snak : Term)
    (ρ : String → String)
    (κ : Kinding)
    (u : Term) :
    Prop where
  mem : patternOf a.entry.snakKind args ∈ a.entry.patterns
  formed : (patternOf a.entry.snakKind args).WellFormed
  form : a.entry.snakKind = .value → HasValue a.entry.datatype args
  asks : a.target.Asks a.entry.snakKind goal snak
  found :
    Entry.matchPattern? (patternOf a.entry.snakKind args) goal
        (a.pool.used ++ Target.openNames) =
      some a.found
  matching :
    Entry.Matches (patternOf a.entry.snakKind args) goal
      (a.pool.used ++ Target.openNames) a.found ρ κ u
  parts : Binds a.found.bindings ρ a.target

theorem exists_matched
    (hFilter : f.Checked)
    (hMade : Compile.Made (taskOf config options f) index a)
    (hMem :
      (a.target, a.entry) ∈
        Target.all (codec config) f ×ˢ entries config) :
    ∃ args goal snak ρ κ u, Matched a args goal snak ρ κ u := by
  rcases List.mem_product.mp hMem with ⟨ht, he⟩
  have hTyped := typed_of_excludes? hFilter ht hMade.admitted
  rcases hMade.plan with ⟨goal, hGoal, hPlan⟩
  rcases exists_asks hTyped hGoal with ⟨snak, hAsks⟩
  rcases List.exists_of_findSome?_eq_some hPlan with
    ⟨p, hp, hMatch⟩
  have hForm := form_of_mem he hp
  have hPattern := wellFormed_patterns config a.entry he p hp
  -- The names of the target may be taken to be in use.
  rw [← Entry.matchPattern?_append_openNames] at hMatch
  rcases Entry.exists_matches hPattern hAsks.formed hMatch with
    ⟨ρ, κ, u, hMatches⟩
  have hUnify := hMatches.unified
  rw [hMatches.pattern] at hUnify
  have hParts :=
    hForm.binds hPattern hTyped hAsks hMatches.renames
      (List.subset_append_right _ _) hUnify
  rcases hForm.exists_args with ⟨args, rfl, hArgs⟩
  exact
    ⟨args, goal, snak, ρ, κ, u, hp, hPattern, hArgs, hAsks, hMatch,
      hMatches, hParts⟩

/-
  How a row is read by a plan.  The pattern of the plan is bound
  to the parts of its target, and with these bindings and the
  columns of the row it becomes the statement.
-/
structure Reading
    (a : Compile.Addition)
    (columns : List (Variable × Option Term))
    (x : Statement)
    (ρ : String → String)
    (args : List (Option Term)) :
    Prop where
  mem : patternOf a.entry.snakKind args ∈ a.entry.patterns
  parts : Binds a.found.bindings ρ a.target
  form : a.entry.snakKind = .value → HasValue a.entry.datatype args
  string :
    a.entry.snakKind = .value → a.entry.datatype = some .string →
      args = [some (.var (valueVariable .string))] →
        BindsVar a.found.bindings ρ a.target (valueVariable .string)
  lookup :
    a.found.args.lookup subjectVariable.name =
      Entry.argOf?
        (some (a.found.bindings.value (subjectVariable.renamed ρ)))
  template :
    ∀ v,
      a.found.bindings.value (subjectVariable.renamed ρ) =
          some (.var v) →
        a.found.template.subjectVariable? = some v
  subject :
    outcome
        (some
          (Side.after (Bindings.value ⟨columns⟩)
            a.found.bindings.value (subjectVariable.renamed ρ))) =
      outcome (some (some (.ground (.value (.entity x.subject)))))
  kind : x.snak.snakKind = a.entry.snakKind
  value :
    ∀ i w b, x.snak = .value i w → args = [some b] →
      outcome
          ((b.mapVariables (Variable.renamed ρ)).subst
            (Side.after (Bindings.value ⟨columns⟩)
              a.found.bindings.value)) =
          outcome (some (some (.ground (.value w)))) ∧
        w.kind ≤ b.kind

theorem exists_reading
    (hFilter : f.Checked)
    (hMade : Compile.Made (taskOf config options f) index a)
    (hMem :
      (a.target, a.entry) ∈
        Target.all (codec config) f ×ˢ entries config)
    (hClosed : Bindings.Closed ⟨columns⟩)
    {x : Statement}
    (hStatement :
      a.found.template.instantiateWith .exact ⟨columns⟩ =
        .ok (some (.ground (.statement x)))) :
    ∃ ρ args, Reading a columns x ρ args := by
  rcases List.mem_product.mp hMem with ⟨ht, he⟩
  have hTyped := typed_of_excludes? hFilter ht hMade.admitted
  rcases exists_matched hFilter hMade hMem with
    ⟨args, goal, snak, ρ, κ, u, hMatched⟩
  have hMatches := hMatched.matching
  have hPattern := hMatched.formed
  have hRenamed := Term.wellFormed_renamed hPattern hMatches.renames
  rcases Entry.spec_after (hMatches.pattern ▸ hRenamed)
      hMatched.asks.formed hMatches.unified hMatched.found hClosed
      hStatement with
    ⟨κ', hAfter⟩
  rcases hAfter _ (Or.inl rfl) with ⟨hFits, hOutcome⟩
  have hUnify := hMatches.unified
  rw [hMatches.pattern] at hUnify hFits hOutcome
  rcases outcome_patternOf hRenamed.shaped hFits hOutcome with
    ⟨hSubject, hKind, hValue⟩
  refine
    ⟨ρ, args, hMatched.mem, hMatched.parts, hMatched.form, ?_, ?_,
      ?_, hSubject, hKind, hValue⟩
  · rintro hEntry hString rfl
    have hTypedAt :=
      hTyped.imp_right fun h => And.intro h.1 (h.2 _ hString)
    have hAsks := hMatched.asks
    have hρ := hMatches.renames
    rw [hEntry] at hAsks hρ hUnify
    exact bindsVar_of_typed hTypedAt hAsks hρ
      (List.subset_append_right _ _) hUnify
  · exact hMatches.lookup subjectVariable
      (mem_occurrences_patternOf.mpr (Or.inl rfl))
  · intro v hv
    exact subjectVariable?_template hPattern hMatches hv

/-
  A statement that is read from a row by a plan is as the masks
  ask for, if the row passes what the branch tests of an open
  subject.
-/
theorem admits_of_made
    (hFilter : f.Built)
    (hMade : Compile.Made (taskOf config options f) index a)
    (hMem :
      (a.target, a.entry) ∈
        Target.all (codec config) f ×ˢ entries config)
    (hCodec : q.codec = codec config)
    (hRead : q.decodeVariables row vs = .ok columns)
    {x : Statement}
    (hStatement :
      a.found.template.instantiateWith .exact ⟨columns⟩ =
        .ok (some (.ground (.statement x))))
    (hPasses :
      ∀ v, a.found.template.subjectVariable? = some v →
        a.branch.all (row.passes v.name) = true) :
    f.Admits x := by
  rcases List.mem_product.mp hMem with ⟨ht, he⟩
  have hRetains : f.Retains a.target :=
    hFilter.retains (fun v _ => datatype_normalizeValue v) ht
  rcases exists_reading hFilter.toChecked hMade hMem
      (CompiledQuery.closed_of_decodeVariables hRead) hStatement
    with ⟨ρ, args, hReading⟩
  refine ⟨?_, ?_, ?_⟩
  · apply admits_subject_of_binds hCodec hRead hRetains
      hReading.parts hReading.subject
    intro hOpen hMask
    have hBound := hReading.parts.subject
    rw [hOpen] at hBound
    have hLookup := hReading.lookup
    rw [hBound] at hLookup
    exact
      startsWith_of_made hMade he hReading.mem hLookup
        (hPasses _ (hReading.template _ hBound)) hMask
  · rw [hReading.kind]
    exact (Entry.spec_of_excludes? hMade.admitted).1
  · intro i w hw
    have hEntry : a.entry.snakKind = .value := by
      rw [← hReading.kind, hw]
      rfl
    rcases hReading.form hEntry with
      ⟨d, b, hd, hArgs, hKind, hString⟩
    rcases hReading.value i w b hw hArgs with ⟨hOutcome, hLe⟩
    rw [hKind] at hLe
    rcases Datatype.eq_of_kind_le hLe with hEq | ⟨hEq, rfl⟩
    · rw [hEq]
      exact
        (Entry.datatype_of_excludes? hMade.admitted hd).1 hEntry
    · cases hString rfl
      exact
        admits_externalId hCodec hRead hRetains
          (hReading.string hEntry hd hArgs) hOutcome hEq

/-
  A row of a branch that passes what the branch tests of an open
  subject, and is read as a statement, is read as one whose
  subject, kind of snak and value the masks of the filter ask
  for.
-/
theorem masks_respected
    {draft f : Filter}
    (hFilter : draft.build = .ok f)
    (config : WikidataConfig)
    (options : Options) :
    ∃ m q,
      mapping config = .ok m ∧
        (compile m options f).result = .ok q ∧
        ∀ (k : Nat) plan, q.plans[k]? = some plan →
          ∃ branches branch,
            q.query.patterns = [.union branches] ∧
              branches[k]? = some branch ∧
              ∀ row d,
                q.branchIndex row = .ok k →
                (∀ v, plan.template.subjectVariable? = some v →
                  branch.all (row.passes v.name) = true) →
                q.decode row = .ok d →
                  f.Admits d.statement := by
  rcases exists_compiled config options
      (Filter.checked_of_build hFilter) with
    ⟨q, hCompile⟩
  refine ⟨_, q, mapping_eq config, hCompile, ?_⟩
  intro k plan hPlan
  have hCodec : q.codec = codec config := by
    rcases exists_of_result_compile hCompile with ⟨_, _, rfl⟩
    rfl
  rcases Compile.exists_additions hCompile with
    ⟨added, hPlans, hPatterns, _, hMade, hKeys⟩
  rw [hPlans, List.getElem?_map] at hPlan
  rcases Option.map_eq_some_iff.mp hPlan with ⟨a, ha, rfl⟩
  have hMem : a ∈ added := List.mem_of_getElem? ha
  refine ⟨added.map Compile.Addition.branch, a.branch, ?_, ?_, ?_⟩
  · rw [hPatterns]
    cases added with
    | nil => cases hMem
    | cons _ _ => rfl
  · rw [List.getElem?_map, ha]
    rfl
  · intro row d hIndex hPasses hDecode
    rcases CompiledQuery.exists_entries_of_decode hDecode with
      ⟨k', plan, columns, hIndex', hPlan', hRead, _, hStatement⟩
    cases Except.ok.inj (hIndex.symm.trans hIndex')
    rw [hPlans, List.getElem?_map, hPlan] at hPlan'
    cases hPlan'
    exact
      admits_of_made (Filter.built_of_build hFilter)
        (hMade k a ha) (hKeys.subset (List.mem_map_of_mem hMem))
        hCodec hRead hStatement hPasses

/- Strings of items and of lexemes. -/
def wordings : Filter where
  subjectMask :=
    DatatypeMask.of (.entity .item) |||
      DatatypeMask.of (.entity .lexeme)
  snakMask := SnakMask.of .value
  valueMask := DatatypeMask.of .string

/- A row for a string of an entity. -/
def wordingRow (name : String) : Row :=
  [("branch", .integer 0),
    ("subject", .iri ⟨entityNamespace ++ name⟩),
    ("property", .iri ⟨entityNamespace ++ "P5187"⟩),
    ("value", .string "cat")]

/- What it says of a lexeme. -/
def wordingStatement : Statement where
  subject := ⟨.lexeme, ⟨entityNamespace ++ "L7"⟩⟩
  snak := .value ⟨entityNamespace ++ "P5187"⟩ (.string "cat")

theorem masks_respected_wordings :
    ∃ m q plan branches branch d,
      mapping {} = .ok m ∧
        (compile m {} wordings).result = .ok q ∧
        q.plans[0]? = some plan ∧
        q.query.patterns = [.union branches] ∧
        branches[0]? = some branch ∧
        plan.template.subjectVariable? = some subjectVariable ∧
        branch.all ((wordingRow "L7").passes "subject") = true ∧
        branch.all ((wordingRow "P31").passes "subject") = false ∧
        q.decode (wordingRow "L7") = .ok d ∧
        d.statement = wordingStatement ∧
        wordings.Admits d.statement := by
  have hPlans :
      ((compile ⟨entries {}, codec {}⟩ {}
          wordings).result.toOption.map fun q =>
        (q.plans.map fun plan => plan.template.subjectVariable?,
          q.query.patterns.map fun
            | .union branches => branches.map fun branch =>
                ["L7", "P31"].map fun name =>
                  branch.all ((wordingRow name).passes "subject")
            | _ => [])) =
        some ([some subjectVariable], [[[true, false]]]) := by
    decide +kernel
  have hRead :
      ((compile ⟨entries {}, codec {}⟩ {}
          wordings).result.toOption.bind fun q =>
        (q.decode (wordingRow "L7")).toOption.map
          DecodedStatement.statement) =
        some wordingStatement := by
    decide +kernel
  have hFilter : wordings.build = .ok wordings := rfl
  rcases masks_respected hFilter {} {} with
    ⟨m, q, hMapping, hCompile, hAll⟩
  cases Except.ok.inj ((mapping_eq {}).symm.trans hMapping)
  rw [hCompile] at hPlans hRead
  rcases Option.map_eq_some_iff.mp hRead with
    ⟨d, hDecode, hStatement⟩
  have hDecode := eq_ok_of_toOption hDecode
  rcases Prod.mk.inj (Option.some.inj hPlans) with
    ⟨hSubjects, hTests⟩
  rcases List.map_eq_singleton_iff.mp hSubjects with
    ⟨plan, hOne, hSubject⟩
  have hPlan : q.plans[0]? = some plan := by
    rw [hOne]
    rfl
  rcases hAll 0 plan hPlan with
    ⟨branches, branch, hPatterns, hBranch, hAdmits⟩
  rw [hPatterns] at hTests
  rcases List.map_eq_singleton_iff.mp
      (List.head_eq_of_cons_eq hTests) with
    ⟨only, rfl, hBoth⟩
  cases Option.some.inj hBranch
  rcases List.cons.inj hBoth with ⟨hPasses, hRest⟩
  have hFails := List.head_eq_of_cons_eq hRest
  have hIndex : q.branchIndex (wordingRow "L7") = .ok 0 := by
    rcases CompiledQuery.exists_entries_of_decode hDecode with
      ⟨k, _, _, hIndex, hAt, _⟩
    rw [hOne] at hAt
    cases k with
    | zero => exact hIndex
    | succ k => cases hAt
  refine
    ⟨_, q, plan, _, branch, d, hMapping, hCompile, hPlan,
      hPatterns, rfl, hSubject, hPasses, hFails, hDecode,
      hStatement, ?_⟩
  apply hAdmits _ _ hIndex _ hDecode
  intro v hv
  cases Option.some.inj (hSubject.symm.trans hv)
  exact hPasses

end Wikidata

end StatementQuery
