import StatementQuery.Proofs.PatternMatching

/-
  Runs of the unifier in which every variable is met once.

  When no name occurs twice, the equations of a work list do
  not disturb one another: each ends as the binding of one
  variable to one side, and bindings found before stay as they
  are.  Such a run can be followed to its end.

  Key definitions include:
    * `Unify.Part`
    * `Unify.partsBindings`
    * `Unify.Aligns`
    * `Unify.Meets`

  Main declarations:
    * `Unify.solve_of_aligns`
    * `Unify.get?_partsBindings`
    * `Unify.Meets.unify_eq`
-/

------------------------------------------------------------
-- Parts
------------------------------------------------------------

namespace StatementQuery

namespace Unify

/- A variable and the one side that it meets. -/
abbrev Part := Variable × Side

namespace Part

/- What the variable of a part ends as. -/
def value (p : Part) : Side :=
  match p.2 with
  | some (.var y) => some (.var (survivor p.1 y))
  | s => s

/- The bindings that a part asks for. -/
def bindings (p : Part) : Bindings :=
  match p.2 with
  | some (.var y) => mergeInto p.1 y
  | s => .singleton p.1 s

/- The names of a part. -/
def names (p : Part) : List String :=
  p.1.name :: (Side.occurrences p.2).map Variable.name

/- Two parts that have no name in common. -/
def Apart (p q : Part) : Prop :=
  ∀ n ∈ p.names, n ∉ q.names

/- The variable of a part gets its value. -/
theorem get?_bindings
    (p : Part) :
    p.bindings.get? p.1 = some p.value := by
  rcases p with ⟨x, _ | (g | y | ⟨c, args⟩)⟩
  · simp [bindings, value]
  · simp [bindings, value]
  · simp [bindings, value, get?_mergeInto]
  · simp [bindings, value]

/- Only variables of the part are bound. -/
theorem get?_bindings_of_notMem
    {p : Part}
    {v : Variable}
    (h : v.name ∉ p.names) :
    p.bindings.get? v = none := by
  rcases p with ⟨x, s⟩
  have hx : v ≠ x := by
    rintro rfl
    exact h (by simp [names])
  rcases s with _ | (g | y | ⟨c, args⟩)
  · simp [bindings, hx]
  · simp [bindings, hx]
  · have hy : v ≠ y := by
      rintro rfl
      exact h
        (by simp [names, Side.occurrences, Term.occurrences])
    simp [bindings, get?_mergeInto, hx, hy]
  · simp [bindings, hx]

/- Every variable that is bound gets the value of the part. -/
theorem value_of_mem_bindings
    {p : Part}
    {entry : Variable × Side}
    (hEntry : entry ∈ p.bindings.entries) :
    entry.2 = p.value := by
  rcases p with ⟨x, _ | (g | y | ⟨c, args⟩)⟩
  · cases List.mem_singleton.mp hEntry
    rfl
  · cases List.mem_singleton.mp hEntry
    rfl
  · simp only [bindings, mergeInto, Bindings.insert] at hEntry
    rcases Bindings.mem_insertEntry hEntry with rfl | hEntry
    · rfl
    · split at hEntry
      · cases hEntry
      · cases List.mem_singleton.mp hEntry
        rfl
  · cases List.mem_singleton.mp hEntry
    rfl

/- The bindings of a part are a function. -/
theorem functional_bindings
    (p : Part) :
    p.bindings.Functional := by
  apply Bindings.functional_of_eq fun _ => p.value
  intro entry hEntry
  exact value_of_mem_bindings hEntry

/- The value of a part has no other names. -/
theorem names_value
    {p : Part}
    {v : Variable}
    (h : v ∈ Side.occurrences p.value) :
    v.name ∈ p.names := by
  rcases p with ⟨x, _ | (g | y | ⟨c, args⟩)⟩
  · cases h
  · cases h
  · cases List.mem_singleton.mp h
    simp [names, Side.occurrences, Term.occurrences, survivor,
      Variable.withKind]
  · exact List.mem_cons_of_mem _ (List.mem_map_of_mem h)

end Part

end Unify

end StatementQuery

------------------------------------------------------------
-- Bindings Of Parts
------------------------------------------------------------

namespace StatementQuery

namespace Unify

/- The bindings of parts, one after the other. -/
def partsBindings (ps : List Part) : Bindings :=
  ps.foldl (fun θ p => θ.union p.bindings) .empty

/- The bindings of a further part are added last. -/
theorem partsBindings_append
    (ps : List Part)
    (p : Part) :
    partsBindings (ps ++ [p]) =
      (partsBindings ps).union p.bindings := by
  simp [partsBindings]

/- A variable that no part binds is not bound. -/
theorem get?_partsBindings_of_unbound
    {ps : List Part}
    {v : Variable}
    (h : ∀ p ∈ ps, p.bindings.get? v = none) :
    (partsBindings ps).get? v = none := by
  induction ps using List.reverseRecOn with
  | nil => rfl
  | append_singleton ps p ih =>
      have hRest := ih fun q hq => h q (by simp [hq])
      rw [partsBindings_append,
        Bindings.get?_union p.functional_bindings,
        h p (by simp), hRest]
      rfl

/- The variables of a part are bound as the part binds them. -/
theorem get?_partsBindings_of_mem
    {ps : List Part}
    (hApart : ps.Pairwise Part.Apart)
    {p : Part}
    (hp : p ∈ ps)
    {v : Variable}
    (hv : v.name ∈ p.names) :
    (partsBindings ps).get? v = p.bindings.get? v := by
  induction ps using List.reverseRecOn with
  | nil => simp at hp
  | append_singleton ps q ih =>
      rw [partsBindings_append,
        Bindings.get?_union q.functional_bindings]
      rw [List.pairwise_append] at hApart
      rcases List.mem_append.mp hp with hRest | hLast
      · have hNot : v.name ∉ q.names :=
          hApart.2.2 p hRest q (by simp) v.name hv
        rw [Part.get?_bindings_of_notMem hNot, ih hApart.1 hRest]
        rfl
      · cases List.mem_singleton.mp hLast
        have hBefore : (partsBindings ps).get? v = none := by
          apply get?_partsBindings_of_unbound
          intro q hq
          apply Part.get?_bindings_of_notMem
          intro hMem
          exact hApart.2.2 q hq p (by simp) v.name hMem hv
        rw [hBefore, Option.or_none]

/- The variable of each of the parts gets its value. -/
theorem get?_partsBindings
    {ps : List Part}
    (hApart : ps.Pairwise Part.Apart)
    {p : Part}
    (hp : p ∈ ps) :
    (partsBindings ps).get? p.1 = some p.value := by
  rw [get?_partsBindings_of_mem hApart hp (by simp [Part.names]),
    Part.get?_bindings]

/- The values of the bindings of parts have no other names. -/
theorem names_of_mem_partsBindings
    {ps : List Part}
    {entry : Variable × Side}
    (hEntry : entry ∈ (partsBindings ps).entries)
    {v : Variable}
    (hv : v ∈ Side.occurrences entry.2) :
    ∃ p ∈ ps, v.name ∈ p.names := by
  induction ps using List.reverseRecOn with
  | nil => cases hEntry
  | append_singleton ps p ih =>
      rw [partsBindings_append] at hEntry
      rcases Bindings.mem_union hEntry with hOld | hNew
      · rcases ih hOld with ⟨q, hq, hName⟩
        exact ⟨q, by simp [hq], hName⟩
      · refine ⟨p, by simp, Part.names_value ?_⟩
        rw [← Part.value_of_mem_bindings hNew]
        exact hv

end Unify

end StatementQuery

------------------------------------------------------------
-- Following A Run
------------------------------------------------------------

namespace StatementQuery

namespace Unify

/- Bindings of other variables leave a side as it is. -/
theorem substitute_of_unbound
    {σ : Bindings}
    {s : Side}
    (h : ∀ v ∈ Side.occurrences s, σ.get? v = none) :
    substitute σ s = .ok s := by
  cases s with
  | none => rfl
  | some t =>
      simp [substitute, Term.instantiateSide,
        Term.instantiateWith_of_unbound .plain h,
        Except.mapError]

/- Bindings of other variables leave equations as they are. -/
theorem substituteAll_of_unbound
    {σ : Bindings}
    {eqs : List Equation}
    (h : ∀ v ∈ Equation.occurrences eqs, σ.get? v = none) :
    substituteAll σ eqs = .ok eqs := by
  induction eqs with
  | nil => rfl
  | cons e eqs ih =>
      rcases e with ⟨s, t⟩
      simp only [Equation.occurrences, List.flatMap_cons,
        List.mem_append] at h
      have hs : substitute σ s = .ok s :=
        substitute_of_unbound fun v hv =>
          h v (Or.inl (Or.inl hv))
      have ht : substitute σ t = .ok t :=
        substitute_of_unbound fun v hv =>
          h v (Or.inl (Or.inr hv))
      have hRest := ih fun v hv => h v (Or.inr hv)
      simp only [substituteAll, hs, ht, hRest]
      rfl

/- Bindings of other variables leave values as they are. -/
theorem substituteValues_of_unbound
    {σ : Bindings}
    {entries : List (Variable × Side)}
    (h :
      ∀ entry ∈ entries, ∀ v ∈ Side.occurrences entry.2,
        σ.get? v = none) :
    substituteValues σ entries = .ok entries := by
  induction entries with
  | nil => rfl
  | cons entry entries ih =>
      rcases entry with ⟨x, s⟩
      have hs : substitute σ s = .ok s :=
        substitute_of_unbound (h (x, s) (by simp))
      have hRest := ih fun e he => h e (by simp [he])
      simp only [substituteValues, hs, hRest]
      rfl

/-
  Equations that come down to parts, up to the equations that
  are left: each of them asks for the bindings of a part that
  shares no name with those after it, is replaced by equations
  between arguments, or is dropped.
-/
inductive Aligns :
    List Equation → List Part → List Equation → Prop where
| done
    (rest : List Equation) :
    Aligns rest [] rest
| bind
    {e : Equation}
    {p : Part}
    {eqs rest : List Equation}
    {ps : List Part}
    (hStep : step e.1 e.2 = .ok (.bindTo p.bindings))
    (hApart :
      ∀ v ∈ Equation.occurrences eqs, v.name ∉ p.names)
    (hRest : Aligns eqs ps rest) :
    Aligns (e :: eqs) (p :: ps) rest
| replace
    {e : Equation}
    {eqs parts rest : List Equation}
    {ps : List Part}
    (hStep : step e.1 e.2 = .ok (.replaceBy parts))
    (hRest : Aligns (parts ++ eqs) ps rest) :
    Aligns (e :: eqs) ps rest
| drop
    {e : Equation}
    {eqs rest : List Equation}
    {ps : List Part}
    (hStep : step e.1 e.2 = .ok .drop)
    (hRest : Aligns eqs ps rest) :
    Aligns (e :: eqs) ps rest

/- A run takes the parts one after the other. -/
theorem solve_of_aligns
    {eqs rest : List Equation}
    {ps : List Part}
    (h : Aligns eqs ps rest)
    (count : Nat)
    {before : List Part}
    (hApart : (before ++ ps).Pairwise Part.Apart) :
    solve (count + ps.length) ⟨eqs, partsBindings before⟩ =
      solve count ⟨rest, partsBindings (before ++ ps)⟩ := by
  induction h generalizing before with
  | done rest => simp
  | @bind e p eqs rest ps hStep hFree hRest ih =>
      rcases e with ⟨s, t⟩
      have hOld :
          ∀ entry ∈ (partsBindings before).entries,
            ∀ v ∈ Side.occurrences entry.2,
              p.bindings.get? v = none := by
        intro entry hEntry v hv
        rcases names_of_mem_partsBindings hEntry hv with
          ⟨q, hq, hName⟩
        rw [List.pairwise_append] at hApart
        exact Part.get?_bindings_of_notMem
          (hApart.2.2 q hq p (by simp) v.name hName)
      have hNew :
          ∀ v ∈ Equation.occurrences eqs,
            p.bindings.get? v = none := by
        intro v hv
        exact Part.get?_bindings_of_notMem (hFree v hv)
      have hBind :
          Unify.bind ⟨eqs, partsBindings before⟩ p.bindings =
            .ok ⟨eqs, partsBindings (before ++ [p])⟩ := by
        simp only [Unify.bind, substituteAll_of_unbound hNew,
          substituteValues_of_unbound hOld,
          partsBindings_append]
        rfl
      have hNext :
          solve (count + ps.length)
              ⟨eqs, partsBindings (before ++ [p])⟩ =
            solve count
              ⟨rest, partsBindings (before ++ [p] ++ ps)⟩ :=
        ih (by simpa using hApart)
      rw [List.append_assoc] at hNext
      rw [List.length_cons, ← Nat.add_assoc, solve,
        reduce_of_bindTo hStep]
      simp only [hBind]
      exact hNext
  | @replace e eqs parts rest ps hStep hRest ih =>
      rcases e with ⟨s, t⟩
      rw [← ih hApart]
      conv_lhs => rw [solve]
      conv_rhs => rw [solve]
      rw [reduce_of_replace hStep]
  | @drop e eqs rest ps hStep hRest ih =>
      rcases e with ⟨s, t⟩
      rw [← ih hApart]
      conv_lhs => rw [solve]
      conv_rhs => rw [solve]
      rw [reduce_of_drop hStep]

end Unify

end StatementQuery

------------------------------------------------------------
-- The End Of A Run
------------------------------------------------------------

namespace StatementQuery

namespace Unify

/- There is a name for each of the parts. -/
theorem length_le_nameCount
    {eqs : List Equation}
    {ps : List Part}
    (hApart : ps.Pairwise Part.Apart)
    (hNames :
      ∀ p ∈ ps, ∃ v ∈ Equation.occurrences eqs,
        v.name = p.1.name) :
    ps.length ≤ Equation.nameCount eqs := by
  have hNodup : (ps.map fun p => p.1.name).Nodup := by
    rw [List.nodup_iff_pairwise_ne, List.pairwise_map]
    apply hApart.imp
    intro p q hpq hEq
    exact hpq p.1.name (by simp [Part.names])
      (by simp [Part.names, hEq])
  have hSubset :
      (ps.map fun p => p.1.name) ⊆
        ((Equation.occurrences eqs).map
          Variable.name).eraseDups := by
    intro n hn
    rcases List.mem_map.mp hn with ⟨p, hp, rfl⟩
    rcases hNames p hp with ⟨v, hv, hName⟩
    rw [List.mem_eraseDups, ← hName]
    exact List.mem_map_of_mem hv
  have hLength := (hNodup.subperm hSubset).length_le
  simpa [Equation.nameCount] using hLength

/-
  Equations come down to parts that share no name, up to the
  equations that are left.
-/
structure Meets
    (eqs : List Equation)
    (ps : List Part)
    (rest : List Equation) :
    Prop where
  oneKind : Variable.OneKind (Equation.occurrences eqs)
  aligns : Aligns eqs ps rest
  apart : ps.Pairwise Part.Apart
  names :
    ∀ p ∈ ps, ∃ v ∈ Equation.occurrences eqs,
      v.name = p.1.name

/- What is left of equations after their parts. -/
theorem Meets.exists_solve
    {eqs rest : List Equation}
    {ps : List Part}
    (h : Meets eqs ps rest) :
    ∃ count,
      unify eqs = solve count ⟨rest, partsBindings ps⟩ := by
  have hLength := length_le_nameCount h.apart h.names
  refine ⟨Equation.nameCount eqs - ps.length, ?_⟩
  have hRun :
      solve (Equation.nameCount eqs - ps.length + ps.length)
          ⟨eqs, partsBindings []⟩ =
        solve (Equation.nameCount eqs - ps.length)
          ⟨rest, partsBindings ([] ++ ps)⟩ :=
    solve_of_aligns h.aligns _ h.apart
  rw [Nat.sub_add_cancel hLength] at hRun
  have hStart : start eqs = .ok ⟨eqs, .empty⟩ :=
    start_of_atKinds (Variable.atKinds_kinding h.oneKind)
  simp only [unify, hStart]
  exact hRun

/- The variable of each of the parts has its value. -/
theorem Meets.value_eq
    {eqs rest : List Equation}
    {ps : List Part}
    (h : Meets eqs ps rest)
    {p : Part}
    (hp : p ∈ ps) :
    (partsBindings ps).value p.1 = p.value :=
  Bindings.value_of_get? (get?_partsBindings h.apart hp)

/- Equations that come down to parts have their bindings. -/
theorem Meets.unify_eq
    {eqs : List Equation}
    {ps : List Part}
    (h : Meets eqs ps []) :
    unify eqs = .ok (partsBindings ps) := by
  rcases h.exists_solve with ⟨count, hRun⟩
  rw [hRun, solve]
  simp [reduce]

/- Equations of which one cannot hold are not unified. -/
theorem Meets.unify_ne
    {eqs rest : List Equation}
    {ps : List Part}
    {s t : Side}
    {failure : UnifyFailure}
    (h : Meets eqs ps ((s, t) :: rest))
    (hStep : step s t = .error failure)
    (θ : Bindings) :
    unify eqs ≠ .ok θ := by
  rcases h.exists_solve with ⟨count, hRun⟩
  rw [hRun, solve, reduce_of_error hStep]
  simp

end Unify

end StatementQuery

------------------------------------------------------------
-- Steps Of A Run
------------------------------------------------------------

namespace StatementQuery

namespace Unify

namespace Part

/-
  A variable can be bound to the side it meets: one of its
  kind in which it does not occur, or a variable of a wider
  kind.
-/
def Suits (p : Part) : Prop :=
  match p.2 with
  | none => True
  | some (.var y) => p.1.kind ≤ y.kind ∧ p.1.name ≠ y.name
  | some t =>
      t.kind ≤ p.1.kind ∧
        ∀ v ∈ t.occurrences, v.name ≠ p.1.name

end Part

/- A term of its kind can take the place of a variable. -/
theorem eliminate_of_le
    {x : Variable}
    {t : Term}
    (hKind : t.kind ≤ x.kind)
    (hNames : ∀ v ∈ t.occurrences, v.name ≠ x.name) :
    eliminate x (some t) = .ok (.singleton x (some t)) := by
  have hOccurs :
      ¬ (t.occurrences.map Variable.name).contains x.name := by
    simpa using hNames
  simp only [eliminate]
  rw [if_neg (not_not.mpr hKind), if_neg hOccurs]

/- A variable on the left is bound to what suits it. -/
theorem step_var
    {p : Part}
    (h : p.Suits) :
    step (some (.var p.1)) p.2 = .ok (.bindTo p.bindings) := by
  rcases p with ⟨x, _ | (g | y | ⟨c, args⟩)⟩
  · rfl
  · have hKind : (Term.ground g).kind ≤ x.kind := h.1
    rw [step_of_var_left (by simp), eliminate_of_le hKind h.2]
    rfl
  · have hNe : x ≠ y := fun hEq => h.2 (by rw [hEq])
    rw [step_of_vars hNe, merge_of_le h.1]
    rfl
  · have hKind : (Term.app c args).kind ≤ x.kind := h.1
    rw [step_of_var_left (by simp), eliminate_of_le hKind h.2]
    rfl

/- So is one that meets an application on its left. -/
theorem step_app_var
    {x : Variable}
    {c : Constructor}
    {args : List (Option Term)}
    (h : Part.Suits (x, some (.app c args))) :
    step (some (.app c args)) (some (.var x)) =
      .ok (.bindTo
        (Part.bindings (x, some (.app c args)))) := by
  have hKind : (Term.app c args).kind ≤ x.kind := h.1
  rw [step_of_var_right (by simp), eliminate_of_le hKind h.2]
  rfl

/- An application meets a term of the same constructor. -/
theorem step_app
    {c : Constructor}
    {x : Variable}
    {u t : Term}
    {as bs : List (Option Term)}
    {eqs : List Equation}
    (hKind : t.kind = c.kind)
    (hArgs : t.args? = some (some u :: bs))
    (hDiffer : u ≠ .var x)
    (hPairs : pairArgs? as bs = some eqs) :
    step (some (.app c (some (.var x) :: as))) (some t) =
      .ok (.replaceBy ((some (.var x), some u) :: eqs)) := by
  have hSame :
      Term.sameOption (some (.app c (some (.var x) :: as)))
          (some t) =
        false := by
    cases t with
    | ground g => rfl
    | var v => rfl
    | app d brgs =>
        cases hArgs
        have hHead : (Term.var x).same u = false := by
          cases u with
          | var y =>
              have hNe : x ≠ y := fun hEq =>
                hDiffer (by rw [hEq])
              simpa [Term.same] using hNe
          | _ => all_goals rfl
        rw [Term.sameOption, Term.same, Term.sameArgs, hHead,
          Bool.false_and, Bool.and_false]
  have hParts :
      decompose? (some (.app c (some (.var x) :: as))) (some t) =
        some ((some (.var x), some u) :: eqs) := by
    have hOwn :
        (Term.app c (some (.var x) :: as)).kind = t.kind :=
      hKind.symm
    have hOwnArgs :
        (Term.app c (some (.var x) :: as)).args? =
          some (some (.var x) :: as) := rfl
    simp [decompose?, hOwn, Term.isGround, hOwnArgs, hArgs,
      pairArgs?, hPairs]
  cases t with
  | var v => cases hArgs
  | ground g => simp [step, hSame, hParts]
  | app d brgs => simp [step, hSame, hParts]

end Unify

end StatementQuery

------------------------------------------------------------
-- Statements
------------------------------------------------------------

namespace StatementQuery

namespace Term

/- The variables of a term are those of its arguments. -/
theorem exists_arg_of_mem_occurrences
    {t : Term}
    {args : List (Option Term)}
    (h : t.args? = some args)
    {v : Variable}
    (hv : v ∈ t.occurrences) :
    ∃ arg ∈ args, v ∈ Side.occurrences arg := by
  cases t with
  | ground g => cases hv
  | var w => cases h
  | app c brgs =>
      cases h
      rcases (mem_occurrences_app v c args).mp hv with
        ⟨t, ht, hv⟩
      exact ⟨some t, ht, hv⟩

end Term

namespace Unify

/- A part has no name in common with arguments. -/
def Part.Avoids (p : Part) (args : List (Option Term)) : Prop :=
  ∀ arg ∈ args, ∀ v ∈ Side.occurrences arg, v.name ∉ p.names

/-
  A pattern of statements meets a statement: its subject meets
  the subject and its property meets the property, and then
  what else there is in the snaks.
-/
theorem aligns_statement
    {s p : Variable}
    {c : Constructor}
    {goal subject snak property : Term}
    {as bs : List (Option Term)}
    {eqs rest : List Equation}
    {ps : List Part}
    (hGoal : goal.kind = .statement)
    (hGoalArgs : goal.args? = some [some subject, some snak])
    (hSnak : snak.kind = c.kind)
    (hSnakArgs : snak.args? = some (some property :: bs))
    (hSubject : Part.Suits (s, some subject))
    (hProperty : Part.Suits (p, some property))
    (hPairs : pairArgs? as bs = some eqs)
    (hFree :
      Part.Avoids (s, some subject)
        (some (.var p) :: some property :: (as ++ bs)))
    (hFree' : Part.Avoids (p, some property) (as ++ bs))
    (hRest : Aligns eqs ps rest) :
    Aligns
      [(some
          (.app .statement
            [some (.var s), some (.app c (some (.var p) :: as))]),
        some goal)]
      ((s, some subject) :: (p, some property) :: ps) rest := by
  have hSelf :
      ∀ x t, Part.Suits (x, some t) → t ≠ .var x := by
    rintro x t hSuits rfl
    exact hSuits.2 rfl
  -- From the last equation to the first.
  have hProperties :
      Aligns ((some (.var p), some property) :: eqs)
        ((p, some property) :: ps) rest := by
    refine .bind (step_var hProperty) ?_ hRest
    intro v hv
    rcases List.mem_flatMap.mp hv with ⟨e, he, hv⟩
    rcases mem_of_mem_pairArgs? hPairs he with ⟨hLeft, hRight⟩
    rcases List.mem_append.mp hv with hv | hv
    · exact hFree' e.1 (List.mem_append_left _ hLeft) v hv
    · exact hFree' e.2 (List.mem_append_right _ hRight) v hv
  have hSnaks :
      Aligns
        [(some (.app c (some (.var p) :: as)), some snak)]
        ((p, some property) :: ps) rest := by
    refine
      .replace
        (step_app hSnak hSnakArgs (hSelf p property hProperty)
          hPairs)
        ?_
    simpa using hProperties
  have hSubjects :
      Aligns
        [(some (.var s), some subject),
          (some (.app c (some (.var p) :: as)), some snak)]
        ((s, some subject) :: (p, some property) :: ps)
        rest := by
    refine .bind (step_var hSubject) ?_ hSnaks
    intro v hv
    have hSides :
        v ∈ (Term.app c (some (.var p) :: as)).occurrences ∨
          v ∈ snak.occurrences := by
      simpa [Equation.occurrences, Side.occurrences] using hv
    rcases hSides with hv | hv
    · rcases Term.exists_arg_of_mem_occurrences rfl hv with
        ⟨arg, hArg, hv⟩
      refine hFree arg ?_ v hv
      rcases List.mem_cons.mp hArg with rfl | hArg
      · simp
      · simp [hArg]
    · rcases Term.exists_arg_of_mem_occurrences hSnakArgs hv
        with ⟨arg, hArg, hv⟩
      refine hFree arg ?_ v hv
      rcases List.mem_cons.mp hArg with rfl | hArg
      · simp
      · simp [hArg]
  refine
    .replace
      (step_app hGoal hGoalArgs (hSelf s subject hSubject) rfl)
      ?_
  exact hSubjects

/- Variables meet closed sides one after the other. -/
theorem aligns_closed
    {ps : List Part}
    (hSuits : ∀ p ∈ ps, p.Suits)
    (hClosed : ∀ p ∈ ps, Side.occurrences p.2 = [])
    (hApart : ps.Pairwise Part.Apart) :
    Aligns (ps.map fun p => (some (.var p.1), p.2)) ps [] := by
  induction ps with
  | nil => exact .done []
  | cons p ps ih =>
      rw [List.pairwise_cons] at hApart
      have hRest :=
        ih (fun q hq => hSuits q (by simp [hq]))
          (fun q hq => hClosed q (by simp [hq])) hApart.2
      refine .bind (step_var (hSuits p (by simp))) ?_ hRest
      intro v hv hName
      rcases List.mem_flatMap.mp hv with ⟨e, he, hv⟩
      rcases List.mem_map.mp he with ⟨q, hq, rfl⟩
      rcases List.mem_append.mp hv with hv | hv
      · cases List.mem_singleton.mp hv
        exact hApart.1 q hq _ hName (by simp [Part.names])
      · rw [hClosed q (by simp [hq])] at hv
        cases hv

/- A variable is not bound to a term of another kind. -/
theorem step_var_ground
    {x : Variable}
    {g : Ground}
    (h : ¬ g.kind ≤ x.kind) :
    step (some (.var x)) (some (.ground g)) =
      .error (.clash (some (.var x)) (some (.ground g))) := by
  have hKind : ¬ (Term.ground g).kind ≤ x.kind := h
  simp [step, Term.sameOption, Term.same, eliminate, hKind,
    Except.map]

/- An application does not meet a term of another kind. -/
theorem step_app_ground
    {c : Constructor}
    {args : List (Option Term)}
    {g : Ground}
    (h : g.kind ≠ c.kind) :
    step (some (.app c args)) (some (.ground g)) =
      .error
        (.clash (some (.app c args)) (some (.ground g))) := by
  have hKind :
      (Term.app c args).kind ≠ (Term.ground g).kind :=
    Ne.symm h
  simp [step, Term.sameOption, Term.same, decompose?, hKind]

end Unify

end StatementQuery
