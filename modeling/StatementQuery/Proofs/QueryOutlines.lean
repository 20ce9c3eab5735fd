import StatementQuery.Proofs.CutTexts
import StatementQuery.Proofs.QuotedLiterals
import StatementQuery.Query.Pattern

/-
  The text of a query tells how its patterns are nested.

  The outline of a query is the tree of its groups, with the
  printed line of each pattern at the leaves.  A group is a union
  of one branch, a union without branches has no place in it, and
  a comment is as many leaves as it has lines.  The outline is read
  from the text line by line: a line is a leaf, opens a group,
  closes the innermost one, or continues the union before it.

  Key definitions include:
    * `Outline`
    * `Pattern.outline`
    * `Query.verbatim`
    * `Outline.Reader.next?`
    * `Outline.read?`

  Main declarations:
    * `Outline.linesAll_outlineAll`
    * `Pattern.printed_linesAll`
    * `Outline.Reader.run_linesAll`
    * `Query.read?_render`
    * `Query.render_eq_iff_outline`
-/

------------------------------------------------------------
-- Outlines
------------------------------------------------------------

namespace StatementQuery

/- A tree of groups with lines at its leaves. -/
inductive Outline where
| line (text : String)
| optional (items : List Outline)
| notExists (items : List Outline)
| union (branches : List (List Outline))

namespace Pattern

mutual

/- The outline of a pattern. -/
def outline : Pattern → List Outline
| .optional ps => [.optional (outlineAll ps)]
| .notExists ps => [.notExists (outlineAll ps)]
| .group ps => [.union [outlineAll ps]]
| .union branches =>
    if branches.isEmpty then []
    else [.union (outlineBranches branches)]
| leaf => (leaf.lines 0).map fun l => .line l.text

/- The outline of several patterns. -/
def outlineAll : List Pattern → List Outline
| [] => []
| p :: ps => p.outline ++ outlineAll ps

/- The outlines of alternatives. -/
def outlineBranches : List (List Pattern) → List (List Outline)
| [] => []
| ps :: branches => outlineAll ps :: outlineBranches branches

end

end Pattern

/- A union of more than one branch. -/
theorem Pattern.linesUnion_cons_cons
    (depth : Nat)
    (ps ps' : List Pattern)
    (branches : List (List Pattern)) :
    linesUnion depth (ps :: ps' :: branches) =
      ⟨depth, "".push '{'⟩ :: linesAll (depth + 1) ps ++
        ⟨depth, "".push '}'⟩ :: ⟨depth, "UNION"⟩ ::
        linesUnion depth (ps' :: branches) := by
  rw [linesUnion]
  simp

/- The outline of a query. -/
def Query.outline (q : Query) : List Outline :=
  Pattern.outlineAll q.patterns

namespace Outline

mutual

/- The lines of an outline. -/
def lines (depth : Nat) : Outline → List Line
| .line text => [⟨depth, text⟩]
| .optional items =>
    ⟨depth, "OPTIONAL ".push '{'⟩ :: linesAll (depth + 1) items ++
      [⟨depth, "".push '}'⟩]
| .notExists items =>
    ⟨depth, "FILTER NOT EXISTS ".push '{'⟩ ::
      linesAll (depth + 1) items ++ [⟨depth, "".push '}'⟩]
| .union branches => linesUnion depth branches

/- The lines of several outlines. -/
def linesAll (depth : Nat) : List Outline → List Line
| [] => []
| o :: os => o.lines depth ++ linesAll depth os

/- The lines of alternatives, each a group. -/
def linesUnion (depth : Nat) : List (List Outline) → List Line
| [] => []
| [os] =>
    ⟨depth, "".push '{'⟩ :: linesAll (depth + 1) os ++
      [⟨depth, "".push '}'⟩]
| os :: branches =>
    ⟨depth, "".push '{'⟩ :: linesAll (depth + 1) os ++
      ⟨depth, "".push '}'⟩ :: ⟨depth, "UNION"⟩ ::
      linesUnion depth branches

end

theorem linesUnion_cons_cons
    (depth : Nat)
    (os os' : List Outline)
    (branches : List (List Outline)) :
    linesUnion depth (os :: os' :: branches) =
      ⟨depth, "".push '{'⟩ :: linesAll (depth + 1) os ++
        ⟨depth, "".push '}'⟩ :: ⟨depth, "UNION"⟩ ::
        linesUnion depth (os' :: branches) := by
  rw [linesUnion]
  simp

theorem linesAll_append
    (depth : Nat)
    (os os' : List Outline) :
    linesAll depth (os ++ os') =
      linesAll depth os ++ linesAll depth os' := by
  induction os with
  | nil => rfl
  | cons o os ih => simp [linesAll, ih]

/- Leaves are written one after the other. -/
theorem linesAll_leaves
    (depth : Nat)
    (texts : List String) :
    linesAll depth (texts.map .line) =
      texts.map fun text => ⟨depth, text⟩ := by
  induction texts with
  | nil => rfl
  | cons text texts ih => simp [linesAll, lines, ih]

mutual

/- The outline of a pattern has the lines of the pattern. -/
theorem linesAll_outline
    (depth : Nat) :
    (p : Pattern) → linesAll depth p.outline = p.lines depth
| .triple s p o => by
    simp [Pattern.outline, Pattern.lines, linesAll, lines]
| .bind e name => by
    simp [Pattern.outline, Pattern.lines, linesAll, lines]
| .filter e => by
    simp [Pattern.outline, Pattern.lines, linesAll, lines]
| .values name nodes => by
    simp [Pattern.outline, Pattern.lines, linesAll, lines]
| .comment text => by
    have hLeaves :=
      linesAll_leaves depth ((Text.lines text).map ("# " ++ ·))
    simpa [Pattern.outline, Pattern.lines, List.map_map,
      Function.comp_def] using hLeaves
| .optional ps => by
    simp [Pattern.outline, Pattern.lines, linesAll, lines,
      linesAll_outlineAll (depth + 1) ps]
| .notExists ps => by
    simp [Pattern.outline, Pattern.lines, linesAll, lines,
      linesAll_outlineAll (depth + 1) ps]
| .group ps => by
    simp [Pattern.outline, Pattern.lines, linesAll, lines,
      linesUnion, linesAll_outlineAll (depth + 1) ps]
| .union [] => by
    simp [Pattern.outline, Pattern.lines, linesAll,
      Pattern.linesUnion]
| .union (ps :: branches) => by
    simpa [Pattern.outline, Pattern.lines, linesAll, lines] using
      linesUnion_outlineBranches depth (ps :: branches)

theorem linesAll_outlineAll
    (depth : Nat) :
    (ps : List Pattern) →
      linesAll depth (Pattern.outlineAll ps) =
        Pattern.linesAll depth ps
| [] => rfl
| p :: ps => by
    rw [Pattern.outlineAll, linesAll_append, linesAll_outline,
      linesAll_outlineAll, Pattern.linesAll]

theorem linesUnion_outlineBranches
    (depth : Nat) :
    (branches : List (List Pattern)) →
      linesUnion depth (Pattern.outlineBranches branches) =
        Pattern.linesUnion depth branches
| [] => rfl
| [ps] => by
    simp [Pattern.outlineBranches, linesUnion, Pattern.linesUnion,
      linesAll_outlineAll (depth + 1) ps]
| ps :: ps' :: branches => by
    have hRest :=
      linesUnion_outlineBranches depth (ps' :: branches)
    rw [Pattern.outlineBranches] at hRest
    rw [Pattern.outlineBranches, Pattern.outlineBranches,
      linesUnion_cons_cons, hRest, Pattern.linesUnion_cons_cons,
      linesAll_outlineAll (depth + 1) ps]

end

end Outline

end StatementQuery

------------------------------------------------------------
-- Texts Of One Line
------------------------------------------------------------

namespace StatementQuery

/- A text has no line feed. -/
def OneLine (s : String) : Prop :=
  '\n' ∉ s.toList

instance (s : String) : Decidable (OneLine s) :=
  inferInstanceAs (Decidable ('\n' ∉ s.toList))

namespace OneLine

theorem append
    {s t : String}
    (hs : OneLine s)
    (ht : OneLine t) :
    OneLine (s ++ t) := by
  unfold OneLine at *
  simp [hs, ht]

theorem join
    {ss : List String}
    (h : ∀ s ∈ ss, OneLine s) :
    OneLine (String.join ss) := by
  unfold OneLine
  rw [String.toList_join, List.mem_flatMap]
  rintro ⟨s, hs, hMem⟩
  exact h s hs hMem

end OneLine

namespace Node

/- The texts of a node that are written as they are. -/
def verbatim : Node → List String
| .var name => [name]
| .iri i => [i.text]
| .literal l => l.language.toList ++ (l.datatype.map Iri.text).toList

theorem oneLine_render
    {n : Node}
    (h : ∀ s ∈ n.verbatim, OneLine s) :
    OneLine n.render := by
  cases n with
  | var name =>
      have hName : OneLine name := h name (by simp [verbatim])
      exact .append (by decide) hName
  | iri i =>
      have hText : OneLine i.text := h i.text (by simp [verbatim])
      exact .append (.append (by decide) hText) (by decide)
  | literal l =>
      unfold OneLine render
      rw [String.toList_ofList]
      unfold Literal.renderChars
      split
      · rename_i hBare
        rcases Literal.exists_readInt? hBare with ⟨n, hInt⟩
        intro hMem
        have hChar := Numeral.of_mem_of_readInt? hInt hMem
        revert hChar
        decide
      · have hQuoted : '\n' ∉ l.renderQuoted := by
          simp [Literal.renderQuoted, Literal.notMem_escape]
        have hSuffix : '\n' ∉ l.renderSuffix := by
          unfold Literal.renderSuffix
          split
          · rename_i language hLanguage
            have hOne : OneLine language :=
              h language (by simp [verbatim, hLanguage])
            simpa [OneLine] using hOne
          · rename_i datatype hNone hDatatype
            have hOne : OneLine datatype.text :=
              h datatype.text (by simp [verbatim, hDatatype])
            simpa [OneLine, Iri.render] using hOne
          · simp
        simp [hQuoted, hSuffix]

end Node

namespace Expr

/- The texts of a token that are written as they are. -/
def Token.verbatim : Token → List String
| .node n => n.verbatim
| .call name => [name]
| _ => []

/- The texts of an expression that are written as they are. -/
def verbatim (e : Expr) : List String :=
  e.tokens.flatMap Token.verbatim

theorem oneLine_render
    {e : Expr}
    (h : ∀ s ∈ e.verbatim, OneLine s) :
    OneLine e.render := by
  apply OneLine.join
  intro s hs
  rcases List.mem_map.mp hs with ⟨t, ht, rfl⟩
  have hToken : ∀ s ∈ t.verbatim, OneLine s := fun s hs =>
    h s (List.mem_flatMap.mpr ⟨t, ht, hs⟩)
  cases t with
  | node n => exact Node.oneLine_render hToken
  | call name => exact hToken name (by simp [Token.verbatim])
  | bool b => cases b <;> decide
  | _ => all_goals decide

end Expr

end StatementQuery

------------------------------------------------------------
-- Leaves
------------------------------------------------------------

namespace StatementQuery

namespace Outline

/- What a line does to the groups around it. -/
inductive Mark where
| leaf
| optional
| notExists
| branch
| closing
| union
deriving DecidableEq

/- What a line with a text does. -/
def Mark.ofText (text : String) : Mark :=
  if text = "OPTIONAL ".push '{' then .optional
  else if text = "FILTER NOT EXISTS ".push '{' then .notExists
  else if text = "".push '{' then .branch
  else if text = "".push '}' then .closing
  else if text = "UNION" then .union
  else .leaf

/- A text that starts as no line of a group does. -/
def StartsLeaf (text : String) : Prop :=
  ∃ c cs, text.toList = c :: cs ∧
    c ∉ [' ', 'F', 'O', 'U', '{', '}']

namespace StartsLeaf

theorem append
    {s : String}
    (h : StartsLeaf s)
    (t : String) :
    StartsLeaf (s ++ t) := by
  rcases h with ⟨c, cs, hText, hc⟩
  exact ⟨c, cs ++ t.toList, by simp [hText], hc⟩

theorem mark
    {text : String}
    (h : StartsLeaf text) :
    Mark.ofText text = .leaf := by
  rcases h with ⟨c, cs, hText, hc⟩
  have hOther :
      ∀ s : String, s.toList.head? ≠ some c → text ≠ s := by
    rintro _ hHead rfl
    simp [hText] at hHead
  simp only [List.mem_cons, List.not_mem_nil, or_false,
    not_or] at hc
  rcases hc with ⟨_, hF, hO, hU, hOpen, hClose⟩
  unfold Mark.ofText
  rw [if_neg (hOther _ (by simpa using Ne.symm hO)),
    if_neg (hOther _ (by simpa using Ne.symm hF)),
    if_neg (hOther _ (by simpa using Ne.symm hOpen)),
    if_neg (hOther _ (by simpa using Ne.symm hClose)),
    if_neg (hOther _ (by simpa using Ne.symm hU))]

theorem start
    {text : String}
    (h : StartsLeaf text) :
    text.toList.head? ≠ some ' ' := by
  rcases h with ⟨c, cs, hText, hc⟩
  simp only [List.mem_cons, not_or] at hc
  simpa [hText] using hc.1

end StartsLeaf

/- A filter on an expression is told from one on a group. -/
theorem mark_filter
    (text : String) :
    Mark.ofText ("FILTER(" ++ text) = .leaf := by
  have hOther :
      ∀ s : String,
        s.toList.take 7 ≠ "FILTER(".toList →
          "FILTER(" ++ text ≠ s := by
    rintro _ hTake rfl
    simp at hTake
  unfold Mark.ofText
  rw [if_neg (hOther _ (by decide)), if_neg (hOther _ (by decide)),
    if_neg (hOther _ (by decide)), if_neg (hOther _ (by decide)),
    if_neg (hOther _ (by decide))]

end Outline

/- The text of a node starts a leaf. -/
theorem Node.startsLeaf_render
    (n : Node) :
    Outline.StartsLeaf n.render := by
  cases n with
  | var name =>
      exact ⟨'?', name.toList, by simp [render], by decide⟩
  | iri i =>
      exact
        ⟨'<', i.text.toList ++ ['>'], by simp [render, Iri.render],
          by decide⟩
  | literal l =>
      unfold Outline.StartsLeaf render
      rw [String.toList_ofList]
      unfold Literal.renderChars
      split
      · rename_i hBare
        rcases Literal.exists_readInt? hBare with ⟨n, hInt⟩
        cases hValue : l.value.toList with
        | nil =>
            rw [hValue] at hInt
            cases hInt
        | cons c cs =>
            refine ⟨c, cs, rfl, ?_⟩
            have hChar :=
              Numeral.of_mem_of_readInt? hInt
                (hValue ▸ List.mem_cons_self)
            intro hMem
            simp only [List.mem_cons, List.not_mem_nil,
              or_false] at hMem
            rcases hMem with rfl | rfl | rfl | rfl | rfl | rfl <;>
              revert hChar <;> decide
      · exact
          ⟨'"', Literal.escape l.value.toList ++ ['"'] ++
            l.renderSuffix, by simp [Literal.renderQuoted],
            by decide⟩

namespace Pattern

theorem startsLeaf_renderTriple
    (s p o : Node) :
    Outline.StartsLeaf (renderTriple s p o) := by
  unfold renderTriple
  simp only [String.append_assoc]
  exact s.startsLeaf_render.append _

theorem startsLeaf_bind
    (text : String) :
    Outline.StartsLeaf ("BIND(" ++ text) :=
  .append ⟨'B', "IND(".toList, rfl, by decide⟩ text

theorem startsLeaf_renderValues
    (name : String)
    (nodes : List Node) :
    Outline.StartsLeaf (renderValues name nodes) := by
  unfold renderValues
  simp only [String.append_assoc]
  exact .append ⟨'V', "ALUES ?".toList, rfl, by decide⟩ _

theorem startsLeaf_comment
    (text : String) :
    Outline.StartsLeaf ("# " ++ text) :=
  .append ⟨'#', [' '], rfl, by decide⟩ text

end Pattern

end StatementQuery

------------------------------------------------------------
-- Lines Of Patterns
------------------------------------------------------------

namespace StatementQuery

namespace Pattern

mutual

/- The texts of a pattern that are written as they are. -/
def verbatim : Pattern → List String
| .triple s p o => s.verbatim ++ p.verbatim ++ o.verbatim
| .bind e name => e.verbatim ++ [name]
| .filter e => e.verbatim
| .values name nodes => name :: nodes.flatMap Node.verbatim
| .optional ps => verbatimAll ps
| .notExists ps => verbatimAll ps
| .group ps => verbatimAll ps
| .union branches => verbatimUnion branches
| .comment _ => []

/- The texts of patterns that are written as they are. -/
def verbatimAll : List Pattern → List String
| [] => []
| p :: ps => p.verbatim ++ verbatimAll ps

/- The texts of alternatives that are written as they are. -/
def verbatimUnion : List (List Pattern) → List String
| [] => []
| ps :: branches => verbatimAll ps ++ verbatimUnion branches

end

end Pattern

/- The texts of a query that are written as they are. -/
def Query.verbatim (q : Query) : List String :=
  Pattern.verbatimAll q.patterns

/-
  A line at some depth or deeper, whose text is on one line and
  does not start with a blank.
-/
structure Line.Printed (depth : Nat) (l : Line) : Prop where
  deep : depth ≤ l.depth
  oneLine : OneLine l.text
  start : l.text.toList.head? ≠ some ' '

namespace Line.Printed

variable {depth : Nat} {text : String} {ls : List Line}

/- The line of a leaf. -/
theorem of_leaf
    (hLeaf : Outline.StartsLeaf text)
    (hLine : OneLine text) :
    Printed depth ⟨depth, text⟩ :=
  ⟨le_refl depth, hLine, hLeaf.start⟩

/- The line of a group. -/
theorem of_mark
    (h : Outline.Mark.ofText text ≠ .leaf) :
    Printed depth ⟨depth, text⟩ := by
  have hText :
      text ∈
        ["OPTIONAL ".push '{', "FILTER NOT EXISTS ".push '{',
          "".push '{', "".push '}', "UNION"] := by
    unfold Outline.Mark.ofText at h
    split_ifs at h <;> simp_all
  have hPlain :
      ∀ text ∈
          ["OPTIONAL ".push '{', "FILTER NOT EXISTS ".push '{',
            "".push '{', "".push '}', "UNION"],
        OneLine text ∧ text.toList.head? ≠ some ' ' := by
    decide
  exact ⟨le_refl depth, (hPlain text hText).1, (hPlain text hText).2⟩

/- Lines between the two lines of a group. -/
theorem of_group
    (hOpening : Outline.Mark.ofText text ≠ .leaf)
    (h : ∀ l ∈ ls, Printed (depth + 1) l) :
    ∀ l ∈ (⟨depth, text⟩ : Line) :: ls ++ [⟨depth, "".push '}'⟩],
      Printed depth l := by
  intro l hl
  simp only [List.cons_append, List.mem_cons, List.mem_append,
    List.not_mem_nil, or_false] at hl
  rcases hl with rfl | hl | rfl
  · exact of_mark hOpening
  · have hPrinted := h l hl
    exact
      ⟨(Nat.le_succ depth).trans hPrinted.deep, hPrinted.oneLine,
        hPrinted.start⟩
  · exact of_mark (by decide)

end Line.Printed

namespace Text

/- The lines of a text are on one line each. -/
theorem oneLine_lines
    {text line : String}
    (h : line ∈ lines text) :
    OneLine line := by
  rcases List.mem_map.mp h with ⟨cs, hcs, rfl⟩
  unfold OneLine
  rw [String.toList_ofList]
  exact notMem_of_mem_linesFrom (by simp) hcs

end Text

namespace Pattern

theorem oneLine_renderTriple
    {s p o : Node}
    (h :
      ∀ text ∈ (Pattern.triple s p o).verbatim, OneLine text) :
    OneLine (renderTriple s p o) := by
  have hNode :
      ∀ n ∈ [s, p, o], OneLine n.render := by
    intro n hn
    apply Node.oneLine_render
    intro text hText
    apply h
    simp only [List.mem_cons, List.not_mem_nil, or_false] at hn
    rcases hn with rfl | rfl | rfl <;> simp [verbatim, hText]
  have hPredicate : OneLine (renderPredicate p) := by
    unfold renderPredicate
    split
    · decide
    · exact hNode p (by simp)
  exact
    .append
      (.append
        (.append
          (.append (.append (hNode s (by simp)) (by decide))
            hPredicate)
          (by decide))
        (hNode o (by simp)))
      (by decide)

theorem oneLine_renderValues
    {name : String}
    {nodes : List Node}
    (h :
      ∀ text ∈ (Pattern.values name nodes).verbatim,
        OneLine text) :
    OneLine (renderValues name nodes) := by
  have hName : OneLine name := h name (by simp [verbatim])
  have hNodes :
      OneLine (String.join (nodes.map fun n => " " ++ n.render)) := by
    apply OneLine.join
    intro text hText
    rcases List.mem_map.mp hText with ⟨n, hn, rfl⟩
    apply OneLine.append (by decide)
    apply Node.oneLine_render
    intro text hText
    apply h
    simp only [verbatim, List.mem_cons, List.mem_flatMap]
    exact Or.inr ⟨n, hn, hText⟩
  exact
    .append
      (.append (.append (.append (by decide) hName) (by decide))
        hNodes)
      (by decide)

mutual

/- The lines of a pattern are printed at its depth or deeper. -/
theorem printed_lines
    (depth : Nat) :
    (p : Pattern) → (∀ text ∈ p.verbatim, OneLine text) →
      ∀ l ∈ p.lines depth, l.Printed depth
| .triple s p o, h => by
    rw [lines, List.forall_mem_singleton]
    exact .of_leaf (startsLeaf_renderTriple s p o)
      (oneLine_renderTriple h)
| .bind e name, h => by
    rw [lines, List.forall_mem_singleton]
    apply Line.Printed.of_leaf
    · simp only [String.append_assoc]
      exact startsLeaf_bind _
    · have hExpr : OneLine e.render :=
        Expr.oneLine_render fun text hText =>
          h text (List.mem_append_left _ hText)
      have hName : OneLine name :=
        h name (List.mem_append_right _ (List.mem_singleton_self _))
      exact
        .append
          (.append
            (.append (.append (by decide) hExpr) (by decide)) hName)
          (by decide)
| .filter e, h => by
    rw [lines, List.forall_mem_singleton]
    refine ⟨le_refl depth, ?_, by simp⟩
    exact
      .append (.append (by decide) (Expr.oneLine_render h))
        (by decide)
| .values name nodes, h => by
    rw [lines, List.forall_mem_singleton]
    exact .of_leaf (startsLeaf_renderValues name nodes)
      (oneLine_renderValues h)
| .comment text, _ => by
    intro l hl
    rcases List.mem_map.mp hl with ⟨line, hLine, rfl⟩
    exact .of_leaf (startsLeaf_comment line)
      (.append (by decide) (Text.oneLine_lines hLine))
| .optional ps, h =>
    Line.Printed.of_group (by decide)
      (printed_linesAll (depth + 1) ps h)
| .notExists ps, h =>
    Line.Printed.of_group (by decide)
      (printed_linesAll (depth + 1) ps h)
| .group ps, h =>
    Line.Printed.of_group (by decide)
      (printed_linesAll (depth + 1) ps h)
| .union branches, h => printed_linesUnion depth branches h

theorem printed_linesAll
    (depth : Nat) :
    (ps : List Pattern) →
      (∀ text ∈ verbatimAll ps, OneLine text) →
      ∀ l ∈ linesAll depth ps, l.Printed depth
| [], _ => by simp [linesAll]
| p :: ps, h => by
    intro l hl
    rcases List.mem_append.mp hl with hl | hl
    · exact printed_lines depth p
        (fun text hText => h text (List.mem_append_left _ hText))
        l hl
    · exact printed_linesAll depth ps
        (fun text hText => h text (List.mem_append_right _ hText))
        l hl

theorem printed_linesUnion
    (depth : Nat) :
    (branches : List (List Pattern)) →
      (∀ text ∈ verbatimUnion branches, OneLine text) →
      ∀ l ∈ linesUnion depth branches, l.Printed depth
| [], _ => by simp [linesUnion]
| [ps], h =>
    Line.Printed.of_group (by decide)
      (printed_linesAll (depth + 1) ps fun text hText =>
        h text (List.mem_append_left _ hText))
| ps :: ps' :: branches, h => by
    have hFirst :
        ∀ l ∈ (⟨depth, "".push '{'⟩ : Line) ::
            linesAll (depth + 1) ps ++ [⟨depth, "".push '}'⟩],
          l.Printed depth :=
      Line.Printed.of_group (by decide)
        (printed_linesAll (depth + 1) ps fun text hText =>
          h text (List.mem_append_left _ hText))
    have hRest :=
      printed_linesUnion depth (ps' :: branches) fun text hText =>
        h text (List.mem_append_right _ hText)
    intro l hl
    rw [linesUnion_cons_cons, List.append_cons] at hl
    rcases List.mem_append.mp hl with hl | hl
    · exact hFirst l hl
    · rcases List.mem_cons.mp hl with rfl | hl
      · exact .of_mark (by decide)
      · exact hRest l hl

end

end Pattern

end StatementQuery

------------------------------------------------------------
-- Reading Outlines
------------------------------------------------------------

namespace StatementQuery

namespace Outline

/-
  What opened a group.  A branch keeps the branches that come
  before it in its union.
-/
inductive Opening where
| optional
| notExists
| branch (before : List (List Outline))

/- What a group is when it is closed. -/
def Opening.close (items : List Outline) : Opening → Outline
| .optional => .optional items
| .notExists => .notExists items
| .branch before => .union (before ++ [items])

/-
  What has been read: the items of the innermost group, the
  branches of a union that is to be continued, and the openings
  of the groups around it, with the items before them.
-/
structure Reader where
  items : List Outline := []
  pending : List (List Outline) := []
  outer : List (Opening × List Outline) := []

namespace Reader

/- Start to read a group. -/
def enter (r : Reader) (o : Opening) : Reader :=
  ⟨[], [], (o, r.items) :: r.outer⟩

/- Read a line. -/
def next? (r : Reader) (text : String) : Option Reader :=
  match Mark.ofText text, r.pending with
  | .branch, before => some (r.enter (.branch before))
  | .leaf, [] => some { r with items := r.items ++ [.line text] }
  | .optional, [] => some (r.enter .optional)
  | .notExists, [] => some (r.enter .notExists)
  | .closing, [] =>
      match r.outer with
      | (o, before) :: outer =>
          some ⟨before ++ [o.close r.items], [], outer⟩
      | [] => none
  | .union, [] =>
      match r.items.getLast? with
      | some (.union branches) =>
          some
            { r with
              items := r.items.dropLast
              pending := branches }
      | _ => none
  | _, _ => none

/- Read lines one after the other. -/
def run (r : Reader) (texts : List String) : Option Reader :=
  texts.foldlM next? r

/- What is left when all groups are closed. -/
def finish? (r : Reader) : Option (List Outline) :=
  if r.pending.isEmpty && r.outer.isEmpty then some r.items
  else none

end Reader

/-
  The lines inside the braces of a query, without indentation.
  Only the brace that closes the query is not indented.
-/
def body (text : String) : List String :=
  ((text.toList.splitOn '\n').tail.takeWhile (· ≠ ['}'])).map
    fun row => String.ofList (row.dropWhile (· = ' '))

/- The outline that the text of a query has. -/
def read? (text : String) : Option (List Outline) :=
  (Reader.run {} (body text)).bind Reader.finish?

end Outline

end StatementQuery

------------------------------------------------------------
-- Runs Of The Reader
------------------------------------------------------------

namespace StatementQuery

namespace Outline

namespace Reader

variable {items inner : List Outline}
variable {outer : List (Opening × List Outline)}
variable {r r' : Reader} {texts : List String}

theorem run_append
    (h : run r texts = some r')
    (more : List String) :
    run r (texts ++ more) = run r' more := by
  unfold run at *
  rw [List.foldlM_append, h]
  rfl

theorem run_cons
    {text : String}
    (h : next? r text = some r')
    (more : List String) :
    run r (text :: more) = run r' more := by
  unfold run
  rw [List.foldlM_cons, h]
  rfl

/- Leaves are added to the items. -/
theorem run_leaves
    (h : ∀ text ∈ texts, Mark.ofText text = .leaf) :
    run ⟨items, [], outer⟩ texts =
      some ⟨items ++ texts.map .line, [], outer⟩ := by
  induction texts generalizing items with
  | nil => simp [run]
  | cons text texts ih =>
      have hNext :
          next? ⟨items, [], outer⟩ text =
            some ⟨items ++ [.line text], [], outer⟩ := by
        simp [next?, h text List.mem_cons_self]
      rw [run_cons hNext,
        ih fun text' hMem => h text' (List.mem_cons_of_mem _ hMem)]
      simp

/- A group is added to the items when it is closed. -/
theorem run_group
    (r : Reader)
    (text : String)
    (o : Opening)
    (hOpen : r.next? text = some (r.enter o))
    (hInner :
      run (r.enter o) texts = some ⟨inner, [], (r.enter o).outer⟩) :
    run r (text :: texts ++ ["".push '}']) =
      some ⟨r.items ++ [o.close inner], [], r.outer⟩ := by
  rw [List.cons_append, run_cons hOpen, run_append hInner]
  rfl

/- A union is continued after its last branch. -/
theorem next?_union
    (items : List Outline)
    (branches : List (List Outline))
    (outer : List (Opening × List Outline)) :
    next? ⟨items ++ [.union branches], [], outer⟩ "UNION" =
      some ⟨items, branches, outer⟩ := by
  have hMark : Mark.ofText "UNION" = .union := by decide
  simp [next?, hMark]

mutual

/- The lines of a pattern are read as its outline. -/
theorem run_lines
    (depth : Nat) :
    (p : Pattern) → (items : List Outline) →
      (outer : List (Opening × List Outline)) →
        run ⟨items, [], outer⟩ ((p.lines depth).map Line.text) =
          some ⟨items ++ p.outline, [], outer⟩
| .triple s p o, items, outer => by
    apply run_leaves
    simpa [Pattern.lines] using
      (Pattern.startsLeaf_renderTriple s p o).mark
| .bind e name, items, outer => by
    apply run_leaves
    simpa [Pattern.lines, String.append_assoc] using
      (Pattern.startsLeaf_bind _).mark
| .filter e, items, outer => by
    apply run_leaves
    simpa [Pattern.lines, String.append_assoc] using mark_filter _
| .values name nodes, items, outer => by
    apply run_leaves
    simpa [Pattern.lines] using
      (Pattern.startsLeaf_renderValues name nodes).mark
| .comment text, items, outer => by
    rw [run_leaves]
    · simp [Pattern.outline, Pattern.lines, List.map_map,
        Function.comp_def]
    · intro line hLine
      simp only [Pattern.lines, List.map_map, List.mem_map] at hLine
      rcases hLine with ⟨line, _, rfl⟩
      exact (Pattern.startsLeaf_comment line).mark
| .optional ps, items, outer => by
    simpa [Pattern.lines, Pattern.outline, Opening.close] using
      run_group ⟨items, [], outer⟩ ("OPTIONAL ".push '{') .optional
        rfl
        (run_linesAll (depth + 1) ps [] _)
| .notExists ps, items, outer => by
    simpa [Pattern.lines, Pattern.outline, Opening.close] using
      run_group ⟨items, [], outer⟩ ("FILTER NOT EXISTS ".push '{')
        .notExists rfl (run_linesAll (depth + 1) ps [] _)
| .group ps, items, outer => by
    simpa [Pattern.lines, Pattern.outline, Opening.close] using
      run_group ⟨items, [], outer⟩ ("".push '{') (.branch []) rfl
        (run_linesAll (depth + 1) ps [] _)
| .union [], items, outer => by
    simp [Pattern.lines, Pattern.linesUnion, Pattern.outline, run]
| .union (ps :: branches), items, outer => by
    simpa [Pattern.lines, Pattern.outline] using
      run_linesUnion depth (ps :: branches) (by simp) items [] outer

theorem run_linesAll
    (depth : Nat) :
    (ps : List Pattern) → (items : List Outline) →
      (outer : List (Opening × List Outline)) →
        run ⟨items, [], outer⟩
            ((Pattern.linesAll depth ps).map Line.text) =
          some ⟨items ++ Pattern.outlineAll ps, [], outer⟩
| [], items, outer => by
    simp [Pattern.linesAll, Pattern.outlineAll, run]
| p :: ps, items, outer => by
    rw [Pattern.linesAll, List.map_append,
      run_append (run_lines depth p items outer),
      run_linesAll depth ps, Pattern.outlineAll, List.append_assoc]

theorem run_linesUnion
    (depth : Nat) :
    (branches : List (List Pattern)) → branches ≠ [] →
      (items : List Outline) → (pending : List (List Outline)) →
        (outer : List (Opening × List Outline)) →
          run ⟨items, pending, outer⟩
              ((Pattern.linesUnion depth branches).map Line.text) =
            some
              ⟨items ++
                [.union
                  (pending ++ Pattern.outlineBranches branches)],
                [], outer⟩
| [], h, _, _, _ => absurd rfl h
| [ps], _, items, pending, outer => by
    simpa [Pattern.linesUnion, Pattern.outlineBranches,
      Opening.close] using
      run_group ⟨items, pending, outer⟩ ("".push '{') (.branch pending)
        rfl (run_linesAll (depth + 1) ps [] _)
| ps :: ps' :: branches, _, items, pending, outer => by
    -- The first branch is an item until the union is continued,
    -- and then one of the branches that are pending.
    have hFirst :=
      run_group ⟨items, pending, outer⟩ ("".push '{') (.branch pending)
        rfl (run_linesAll (depth + 1) ps [] _)
    have hRest :=
      run_linesUnion depth (ps' :: branches) (by simp) items
        (pending ++ [Pattern.outlineAll ps]) outer
    have hMore := run_append hFirst
      ("UNION" ::
        (Pattern.linesUnion depth (ps' :: branches)).map Line.text)
    rw [Opening.close, List.nil_append,
      run_cons (next?_union _ _ _), hRest] at hMore
    simpa [Pattern.linesUnion_cons_cons,
      Pattern.outlineBranches] using hMore

end

end Reader

end Outline

end StatementQuery

------------------------------------------------------------
-- Texts Of Queries
------------------------------------------------------------

namespace StatementQuery

namespace Line

/- The characters of a line, without its end. -/
def row (l : Line) : List Char :=
  List.replicate (2 * l.depth) ' ' ++ l.text.toList

theorem toList_render
    (l : Line) :
    l.render.toList = l.row ++ ['\n'] := by
  have hIndent :
      ∀ n,
        (String.join (List.replicate n "  ")).toList =
          List.replicate (2 * n) ' ' := by
    intro n
    induction n with
    | zero => rfl
    | succ n ih =>
        rw [List.replicate_succ, String.join_cons,
          String.toList_append, ih, Nat.mul_succ, Nat.add_comm,
          List.replicate_add]
        rfl
  simp [render, row, hIndent]

/- The text of a line is what follows its indentation. -/
theorem Printed.dropWhile_row
    {depth : Nat}
    {l : Line}
    (h : l.Printed depth) :
    String.ofList (l.row.dropWhile (· = ' ')) = l.text := by
  have hText :
      l.text.toList.dropWhile (· = ' ') = l.text.toList := by
    have hStart := h.start
    cases hChars : l.text.toList with
    | nil => rfl
    | cons c cs =>
        rw [hChars] at hStart
        exact List.dropWhile_cons_of_neg (by simpa using hStart)
  rw [row, List.dropWhile_append_of_pos, hText,
    String.ofList_toList]
  intro c hc
  simpa using (List.mem_replicate.mp hc).2

/- A line that is indented does not close the query. -/
theorem Printed.row_ne
    {l : Line}
    (h : l.Printed 1) :
    l.row ≠ ['}'] := by
  have hDeep := h.deep
  have hIndent : 2 * l.depth = 2 * l.depth - 1 + 1 := by omega
  rw [row, hIndent, List.replicate_succ]
  simp

theorem Printed.notMem_row
    {depth : Nat}
    {l : Line}
    (h : l.Printed depth) :
    '\n' ∉ l.row := by
  have hLine := h.oneLine
  unfold OneLine at hLine
  simp [row, hLine]

end Line

namespace Query

/- The rows after the brace that closes a query. -/
def limitRows (q : Query) : List (List Char) :=
  match q.limit with
  | some n => ["LIMIT ".toList ++ Numeral.digits n.toNat]
  | none => []

/- The first row of a query. -/
def headRow (q : Query) : List Char :=
  (if q.distinct then "SELECT DISTINCT * WHERE ".push '{'
    else "SELECT * WHERE ".push '{').toList

/- The rows of a query. -/
def rows (q : Query) : List (List Char) :=
  q.headRow ::
    (Pattern.linesAll 1 q.patterns).map Line.row ++
      ['}'] :: q.limitRows

/- Rows that end in line feeds come before others. -/
theorem flatMap_intercalate
    (ls : List Line)
    (row : List Char)
    (more : List (List Char)) :
    ls.flatMap (fun l => l.row ++ ['\n']) ++
        ['\n'].intercalate (row :: more) =
      ['\n'].intercalate (ls.map Line.row ++ row :: more) := by
  induction ls with
  | nil => rfl
  | cons l ls ih =>
      rw [List.flatMap_cons, List.append_assoc, ih]
      cases ls <;> simp [List.intercalate_cons_cons]

theorem toList_render
    (q : Query) :
    q.render.toList = ['\n'].intercalate q.rows := by
  have hHead : q.renderHead.toList = q.headRow ++ ['\n'] := by
    unfold renderHead headRow
    split <;> rfl
  have hEnd :
      ("".push '}').toList ++ q.renderLimit.toList =
        ['\n'].intercalate (['}'] :: q.limitRows) := by
    unfold renderLimit limitRows
    cases q.limit with
    | none => rfl
    | some n =>
        simp [List.intercalate_cons_cons, Numeral.digits]
  have hBody :=
    flatMap_intercalate (Pattern.linesAll 1 q.patterns) ['}']
      q.limitRows
  simp only [render, String.toList_append, String.toList_join,
    List.flatMap_map, Line.toList_render, hHead, List.append_assoc]
  rw [hEnd, hBody, rows]
  cases (Pattern.linesAll 1 q.patterns) <;>
    simp [List.intercalate_cons_cons]

variable {q q' : Query}

/- The rows are the parts between the line feeds of the text. -/
theorem splitOn_render
    (h : ∀ text ∈ q.verbatim, OneLine text) :
    q.render.toList.splitOn '\n' = q.rows := by
  rw [toList_render]
  apply List.splitOn_intercalate
  · intro row hRow
    simp only [rows, List.cons_append, List.mem_cons,
      List.mem_append, List.mem_map] at hRow
    rcases hRow with rfl | ⟨l, hl, rfl⟩ | rfl | hRow
    · unfold headRow
      split <;> decide
    · exact (Pattern.printed_linesAll 1 q.patterns h l hl).notMem_row
    · decide
    · unfold limitRows at hRow
      split at hRow
      · cases List.mem_singleton.mp hRow
        intro hMem
        rcases List.mem_append.mp hMem with hMem | hMem
        · revert hMem
          decide
        · cases Numeral.allDigits_digits _ _ hMem
      · cases hRow
  · simp [rows]

/- The lines inside the braces are those of the patterns. -/
theorem body_render
    (h : ∀ text ∈ q.verbatim, OneLine text) :
    Outline.body q.render =
      (Pattern.linesAll 1 q.patterns).map Line.text := by
  have hPrinted := Pattern.printed_linesAll 1 q.patterns h
  unfold Outline.body
  rw [splitOn_render h, rows, List.cons_append, List.tail_cons,
    List.takeWhile_append_of_pos]
  · rw [List.takeWhile_cons_of_neg (by simp), List.append_nil,
      List.map_map]
    exact List.map_congr_left fun l hl =>
      (hPrinted l hl).dropWhile_row
  · intro row hRow
    rcases List.mem_map.mp hRow with ⟨l, hl, rfl⟩
    simpa using (hPrinted l hl).row_ne

/- The outline of a query is read from its text. -/
theorem read?_render
    (h : ∀ text ∈ q.verbatim, OneLine text) :
    Outline.read? q.render = some q.outline := by
  unfold Outline.read?
  rw [body_render h, Outline.Reader.run_linesAll 1 q.patterns [] []]
  rfl

/- The rows tell whether rows are distinct. -/
theorem headRow_inj :
    q'.headRow = q.headRow ↔ q'.distinct = q.distinct := by
  unfold headRow
  cases q'.distinct <;> cases q.distinct <;> decide

/- And how many there may be. -/
theorem limitRows_inj :
    q'.limitRows = q.limitRows ↔ q'.limit = q.limit := by
  have hDigits :
      ∀ m n : UInt64,
        Numeral.digits m.toNat = Numeral.digits n.toNat ↔ m = n := by
    intro m n
    refine ⟨fun h => ?_, fun h => by rw [h]⟩
    have hValue := congrArg Numeral.value h
    rw [Numeral.value_digits, Numeral.value_digits] at hValue
    exact UInt64.toNat_inj.mp hValue
  unfold limitRows
  cases q'.limit <;> cases q.limit <;> simp [hDigits]

/-
  The outline of a query is read from its text, if the texts in it
  that are written as they are have no line feeds.  Two such
  queries have the same text exactly if they have the same outline
  and ask for the same number of rows, distinct or not.
-/
theorem render_eq_iff_outline
    (q : Query)
    (hq : ∀ text ∈ q.verbatim, OneLine text) :
    Outline.read? q.render = some q.outline ∧
      ∀ q' : Query, (∀ text ∈ q'.verbatim, OneLine text) →
        (q'.render = q.render ↔
          q'.outline = q.outline ∧
            q'.distinct = q.distinct ∧ q'.limit = q.limit) := by
  refine ⟨read?_render hq, fun q' hq' => ?_⟩
  have hLines :
      q'.outline = q.outline →
        Pattern.linesAll 1 q'.patterns =
          Pattern.linesAll 1 q.patterns := by
    intro hOutline
    rw [← Outline.linesAll_outlineAll, ← Outline.linesAll_outlineAll]
    exact congrArg (Outline.linesAll 1) hOutline
  constructor
  · intro hText
    have hOutline : q'.outline = q.outline := by
      have hRead := read?_render hq'
      rw [hText, read?_render hq] at hRead
      exact (Option.some.inj hRead).symm
    have hRows : q'.rows = q.rows := by
      rw [← splitOn_render hq', ← splitOn_render hq, hText]
    simp only [rows, List.cons_append, hLines hOutline,
      List.cons.injEq, List.append_cancel_left_eq, true_and] at hRows
    exact
      ⟨hOutline, headRow_inj.mp hRows.1, limitRows_inj.mp hRows.2⟩
  · rintro ⟨hOutline, hDistinct, hLimit⟩
    have hRows : q'.rows = q.rows := by
      rw [rows, rows, hLines hOutline, headRow_inj.mpr hDistinct,
        limitRows_inj.mpr hLimit]
    rw [← String.toList_inj, toList_render, toList_render, hRows]

/-
  A group with a comment of two lines, a union without branches,
  and alternatives with groups inside.
-/
def labels : Query where
  distinct := true
  limit := some 10
  patterns :=
    [.group
        [.comment "Cities\nand towns",
          .triple (.var "s") (.iri Rdf.type) (.var "class")],
      .union [],
      .union
        [[.optional [.filter (.strStarts (.var "s") "a\nb")]],
          [.notExists [.values "s" [.string "\n", .integer 7]]]]]

/- The same with other groups and comments. -/
def labelsRegrouped : Query where
  distinct := true
  limit := some 10
  patterns :=
    [.union
        [[.comment "Cities", .comment "and towns", .comment "",
          .triple (.var "s") (.iri Rdf.type) (.var "class")]],
      .union
        [[.optional [.filter (.strStarts (.var "s") "a\nb")]],
          [.notExists [.values "s" [.string "\n", .integer 7]]]]]

theorem render_eq_iff_outline_labels :
    (∀ text ∈ labels.verbatim, OneLine text) ∧
      (∀ text ∈ labelsRegrouped.verbatim, OneLine text) ∧
      Outline.read? labels.render = some labels.outline ∧
      labelsRegrouped.render = labels.render := by
  have hLabels : ∀ text ∈ labels.verbatim, OneLine text := by
    decide
  have hRegrouped :
      ∀ text ∈ labelsRegrouped.verbatim, OneLine text := by
    decide
  rcases render_eq_iff_outline labels hLabels with ⟨hRead, hIff⟩
  exact
    ⟨hLabels, hRegrouped, hRead,
      (hIff labelsRegrouped hRegrouped).mpr ⟨rfl, rfl, rfl⟩⟩

end Query

end StatementQuery
