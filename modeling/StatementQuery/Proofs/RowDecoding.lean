import StatementQuery.Compile.Decode
import StatementQuery.Proofs.Numerals
import StatementQuery.Proofs.Templates

/-
  Rows that are read back.

  The row of a statement names a branch and has, for every
  part of the statement that stands at a variable of the
  branch's template, a node in the column of that variable.
  If every such node is read back as its part, the row is read
  back as the statement.

  Key definitions include:
    * `CompiledQuery.rowOf`
    * `CompiledQuery.Legible`

  Main declarations:
    * `Cell.lookup_columns`
    * `CompiledQuery.decodeVariables_eq_map`
    * `CompiledQuery.exists_decode`
-/

------------------------------------------------------------
-- Columns Of Rows
------------------------------------------------------------

namespace StatementQuery

/-
  The row of a statement: the index of a branch, and the node
  of each part that stands at a variable of a template.
-/
def CompiledQuery.rowOf
    (q : CompiledQuery)
    (index : Nat)
    (t : Term)
    (s : Statement) :
    Row :=
  (q.branchVariable, .integer index) ::
    (t.components (some (.statement s))).filterMap fun part =>
      (q.codec.encode? part.2).map (part.1, ·)

namespace Cell

/- The node of a cell, if it has a part. -/
def node (codec : Codec) (cell : Cell) : Option Node :=
  cell.2.bind codec.encode?

/- The nodes of cells, in the columns of their variables. -/
def columns (codec : Codec) (cells : List Cell) : Row :=
  cells.filterMap fun cell =>
    (cell.node codec).map (cell.1.name, ·)

/- The columns of cells are those of their parts. -/
theorem columns_eq_filterMap_present
    (codec : Codec)
    (cells : List Cell) :
    columns codec cells =
      (present cells).filterMap fun part =>
        (codec.encode? part.2).map (part.1, ·) := by
  unfold columns present
  rw [List.filterMap_filterMap]
  apply List.filterMap_congr
  rintro ⟨v, g⟩ _
  cases g <;> rfl

/- There is no column but those of the cells. -/
theorem lookup_columns_of_notMem
    (codec : Codec)
    {cells : List Cell}
    {name : String}
    (h : name ∉ cells.map fun cell => cell.1.name) :
    (columns codec cells).lookup name = none := by
  rw [List.lookup_eq_none_iff]
  rintro ⟨n, node⟩ hMem
  rcases List.mem_filterMap.mp hMem with ⟨cell, hCell, hNode⟩
  rcases Option.map_eq_some_iff.mp hNode with ⟨_, _, hEq⟩
  cases hEq
  have hNe : name ≠ cell.1.name := by
    rintro rfl
    exact h (List.mem_map.mpr ⟨cell, hCell, rfl⟩)
  simpa using hNe

/- The column of a cell has its node. -/
theorem lookup_columns
    (codec : Codec)
    {cells : List Cell}
    (hNodup : (cells.map fun cell => cell.1.name).Nodup)
    {cell : Cell}
    (hCell : cell ∈ cells) :
    (columns codec cells).lookup cell.1.name =
      cell.node codec := by
  induction cells with
  | nil => cases hCell
  | cons first cells ih =>
      rw [List.map_cons, List.nodup_cons] at hNodup
      unfold columns
      rw [List.filterMap_cons]
      rcases List.mem_cons.mp hCell with rfl | hCell
      · cases hNode : cell.node codec with
        | none => exact lookup_columns_of_notMem codec hNodup.1
        | some n => simp
      · have hNe : cell.1.name ≠ first.1.name := by
          intro hEq
          apply hNodup.1
          rw [← hEq]
          exact List.mem_map.mpr ⟨cell, hCell, rfl⟩
        cases hNode : first.node codec with
        | none => exact ih hNodup.2 hCell
        | some n =>
            simp only [Option.map_some, List.lookup_cons,
              beq_eq_false_iff_ne.mpr hNe]
            exact ih hNodup.2 hCell

end Cell

end StatementQuery

------------------------------------------------------------
-- Reading Rows
------------------------------------------------------------

namespace StatementQuery

namespace CompiledQuery

/- The part of a cell is read back from its node. -/
def Legible (q : CompiledQuery) (cell : Cell) : Prop :=
  ∀ g, cell.2 = some g →
    ∃ v w,
      g = .value v ∧
        q.decodeNode? cell.1.kind (q.codec.encodeValue v) =
          some w ∧
        w.same v = true ∧ w.kind ≤ cell.1.kind

/- A column gives what its node stands for, if it fits. -/
theorem decodeColumn_eq_ok_iff
    {q : CompiledQuery}
    {x : Variable}
    {n : Node}
    {w : Value} :
    q.decodeColumn x n = .ok w ↔
      q.decodeNode? x.kind n = some w ∧ w.kind ≤ x.kind := by
  unfold decodeColumn
  cases hDecode : q.decodeNode? x.kind n with
  | none => simp
  | some value =>
      by_cases hKind : value.kind ≤ x.kind
      · simp only [if_pos hKind, Except.ok.injEq,
          Option.some.injEq]
        constructor
        · rintro rfl
          exact ⟨rfl, hKind⟩
        · exact fun h => h.1
      · simp only [if_neg hKind, reduceCtorEq, false_iff,
          Option.some.injEq, not_and]
        rintro rfl
        exact hKind

/- Variables that can all be read are bound to their values. -/
theorem decodeVariables_eq_map
    {q : CompiledQuery}
    {row : Row}
    {value : Variable → Side}
    {vs : List Variable}
    (h : ∀ v ∈ vs, q.decodeVariable row v = .ok (value v)) :
    q.decodeVariables row vs =
      .ok (vs.map fun v => (v, value v)) := by
  induction vs with
  | nil => rfl
  | cons v vs ih =>
      rw [decodeVariables, h v List.mem_cons_self,
        ih (fun w hw => h w (List.mem_cons_of_mem _ hw))]
      rfl

/- A legible cell is read back. -/
theorem exists_decodeVariable
    {q : CompiledQuery}
    {row : Row}
    {cell : Cell}
    (h : q.Legible cell)
    (hRow : row.lookup cell.1.name = cell.node q.codec) :
    ∃ side,
      q.decodeVariable row cell.1 = .ok side ∧
        outcome (some side) =
          outcome (some (cell.2.map .ground)) ∧
        ∀ u, side = some u →
          (∃ g, u = .ground g) ∧ u.kind ≤ cell.1.kind := by
  rcases cell with ⟨x, part⟩
  cases part with
  | none =>
      refine ⟨none, ?_, rfl, by simp⟩
      rw [decodeVariable, hRow]
      rfl
  | some g =>
      rcases h g rfl with ⟨v, w, rfl, hDecode, hSame, hKind⟩
      refine ⟨some (.ground (.value w)), ?_, ?_, ?_⟩
      · have hNode :
            row.lookup x.name =
              some (q.codec.encodeValue v) :=
          hRow
        have hColumn :=
          decodeColumn_eq_ok_iff.mpr ⟨hDecode, hKind⟩
        simp only [decodeVariable, hNode, hColumn]
        rfl
      · rw [Value.same_iff] at hSame
        simp [outcome, Term.canonical, Ground.canonical, hSame]
      · rintro u ⟨⟩
        exact ⟨⟨_, rfl⟩, hKind⟩

/- What a row gives a variable, absent if it cannot be read. -/
def readSide (q : CompiledQuery) (row : Row) (v : Variable) : Side :=
  (q.decodeVariable row v).toOption.join

/- What is read is what a row gives. -/
theorem readSide_of_decodeVariable
    {q : CompiledQuery}
    {row : Row}
    {v : Variable}
    {side : Side}
    (h : q.decodeVariable row v = .ok side) :
    q.readSide row v = side := by
  rw [readSide, h]
  rfl

/- The index of the branch is read back. -/
theorem branchIndex_rowOf
    (q : CompiledQuery)
    {index : Nat}
    (h : index < UInt64.size)
    (t : Term)
    (s : Statement) :
    q.branchIndex (q.rowOf index t s) = .ok index := by
  simp [branchIndex, rowOf, Node.integer, Node.typed,
    Numeral.readIndex?_signed h]

/- A row has the index of its branch, and a column per cell. -/
theorem rowOf_eq_columns
    (q : CompiledQuery)
    (index : Nat)
    {t : Term}
    {s : Statement}
    {cells : List Cell}
    (hReads : Side.Reads (some t) (some (.statement s)) cells) :
    q.rowOf index t s =
      (q.branchVariable, .integer index) ::
        Cell.columns q.codec cells := by
  have hComponents :
      t.components (some (.statement s)) = Cell.present cells :=
    hReads.components
  rw [rowOf, Cell.columns_eq_filterMap_present, hComponents]

/- Each cell has a column of its own. -/
theorem lookup_rowOf
    {q : CompiledQuery}
    (index : Nat)
    {t : Term}
    {s : Statement}
    {cells : List Cell}
    (hReads : Side.Reads (some t) (some (.statement s)) cells)
    (hNodup : (cells.map fun cell => cell.1.name).Nodup)
    (hBranch :
      q.branchVariable ∉ cells.map fun cell => cell.1.name)
    {cell : Cell}
    (hCell : cell ∈ cells) :
    (q.rowOf index t s).lookup cell.1.name =
      cell.node q.codec := by
  have hNe : cell.1.name ≠ q.branchVariable := by
    intro hEq
    apply hBranch
    rw [← hEq]
    exact List.mem_map.mpr ⟨cell, hCell, rfl⟩
  rw [rowOf_eq_columns q index hReads, List.lookup_cons,
    beq_eq_false_iff_ne.mpr hNe]
  exact Cell.lookup_columns q.codec hNodup hCell

/-
  A row is read back as the statement it was made of, if its
  columns are different and every part can be read back.
-/
theorem exists_decode
    {q : CompiledQuery}
    {index : Nat}
    {plan : BranchPlan}
    {s : Statement}
    {cells : List Cell}
    (hPlan : q.plans[index]? = some plan)
    (hIndex : index < UInt64.size)
    (hReads :
      Side.Reads (some plan.template) (some (.statement s)) cells)
    (hNodup : (cells.map fun cell => cell.1.name).Nodup)
    (hBranch :
      q.branchVariable ∉ cells.map fun cell => cell.1.name)
    (hLegible : ∀ cell ∈ cells, q.Legible cell) :
    ∃ d,
      q.decode (q.rowOf index plan.template s) = .ok d ∧
        d.statement.same s = true := by
  -- Each variable of the template is that of a legible cell.
  have hCells :
      ∀ cell ∈ cells, ∃ side,
        q.decodeVariable (q.rowOf index plan.template s) cell.1 =
            .ok side ∧
          outcome (some side) =
            outcome (some (cell.2.map .ground)) ∧
          ∀ u, side = some u →
            (∃ g, u = .ground g) ∧ u.kind ≤ cell.1.kind := by
    intro cell hCell
    exact exists_decodeVariable (hLegible cell hCell)
      (lookup_rowOf index hReads hNodup hBranch hCell)
  have hVars :
      ∀ v, v ∈ plan.template.vars ↔ v ∈ cells.map Prod.fst := by
    intro v
    have hOccurrences :
        plan.template.occurrences = cells.map Prod.fst :=
      hReads.occurrences
    rw [Term.vars, Variable.mem_sorted, hOccurrences]
  have hRead :
      ∀ v ∈ plan.template.vars,
        q.decodeVariable (q.rowOf index plan.template s) v =
          .ok (q.readSide (q.rowOf index plan.template s) v) := by
    intro v hv
    rcases List.mem_map.mp ((hVars v).mp hv) with
      ⟨cell, hCell, rfl⟩
    rcases hCells cell hCell with ⟨side, hSide, _⟩
    rw [readSide_of_decodeVariable hSide]
    exact hSide
  have hValue :
      ∀ cell ∈ cells,
        Bindings.value
            ⟨plan.template.vars.map fun v =>
              (v, q.readSide (q.rowOf index plan.template s) v)⟩
            cell.1 =
          q.readSide (q.rowOf index plan.template s) cell.1 := by
    intro cell hCell
    apply Bindings.value_table (q.readSide _)
    exact (hVars _).mpr (List.mem_map.mpr ⟨cell, hCell, rfl⟩)
  have hStatement :
      ∃ s',
        statementOf plan.template
            ⟨plan.template.vars.map fun v =>
              (v, q.readSide (q.rowOf index plan.template s) v)⟩ =
          .ok s' ∧
        s'.same s = true := by
    apply hReads.exists_statementOf
    · intro cell hCell
      rcases hCells cell hCell with ⟨side, hSide, hPart, _⟩
      rw [hValue cell hCell, readSide_of_decodeVariable hSide]
      exact hPart
    · intro cell hCell
      rcases hCells cell hCell with ⟨side, hSide, _, hKinds⟩
      rw [hValue cell hCell, readSide_of_decodeVariable hSide]
      exact hKinds
  rcases hStatement with ⟨s', hStatement, hSame⟩
  have hDecode :
      ∃ rank,
        q.decode (q.rowOf index plan.template s) =
          .ok ⟨s', plan.entryId, rank⟩ := by
    simp only [decode, branchIndex_rowOf q hIndex, bind,
      Except.bind, hPlan, decodeVariables_eq_map hRead,
      hStatement]
    exact ⟨_, rfl⟩
  rcases hDecode with ⟨rank, hDecode⟩
  exact ⟨_, hDecode, hSame⟩

end CompiledQuery

end StatementQuery
