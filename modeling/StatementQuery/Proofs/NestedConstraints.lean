import StatementQuery.Compile.Basic
import StatementQuery.Proofs.PatternMatching
import StatementQuery.Proofs.SolverEvaluation

/-
  Snaks that a filter asks of a subject or of a value.

  The branch of an entry settles the subject or the value to
  a focus, and looks for a statement with that focus as its
  subject among the entries again.  Where the focus is a
  variable, the entry that is found is to speak of that
  variable.  It does if the focus is no narrower than the
  subject of its pattern; otherwise the two variables are
  merged into the one of the pattern, and nothing links the
  statement to the branch.

  Key definitions include:
    * `Unify.Matching`
    * `Compile.Serves`
    * `Compile.Nests`
    * `Compile.Links`

  Main declarations:
    * `Unify.get?_of_solve`
    * `Compile.Nests.links`
    * `Compile.nestedSubject_iff`
-/

------------------------------------------------------------
-- Work Lists With Ground Right Sides
------------------------------------------------------------

namespace StatementQuery

namespace Unify

/- Equations whose right sides hold no variable. -/
def Matching (eqs : List Equation) : Prop :=
  ∀ e ∈ eqs, Side.occurrences e.2 = []

/- An equation with a closed right side binds its left side. -/
theorem eq_singleton_of_step
    {s t : Side}
    {σ : Bindings}
    (ht : Side.occurrences t = [])
    (h : step s t = .ok (.bindTo σ)) :
    ∃ x, s = some (.var x) ∧ σ = .singleton x t := by
  rcases bindTo_cases h with
    ⟨x, y, _, rfl, _⟩ | ⟨x, u, hSides, _, hEliminate⟩
  · simp [Side.occurrences, Term.occurrences] at ht
  · rcases hSides with ⟨rfl, rfl⟩ | ⟨_, rfl⟩
    · exact ⟨x, rfl, (eliminate_ok hEliminate).1⟩
    · simp [Side.occurrences, Term.occurrences] at ht

/-
  The bindings that a matching work list asks for bind one of
  its variables to a closed side.
-/
theorem reduce_matching
    {eqs rest : List Equation}
    {σ : Bindings}
    (hMatching : Matching eqs)
    (h : reduce eqs = .ok (some (σ, rest))) :
    Matching rest ∧
      Equation.occurrences rest ⊆ Equation.occurrences eqs ∧
      ∃ x u,
        σ = .singleton x u ∧ Side.occurrences u = [] ∧
          x ∈ Equation.occurrences eqs := by
  fun_induction reduce eqs with
  | case1 => cases h
  | case2 s t rest' e hStep => cases h
  | case3 s t rest' hStep ih =>
      have hSub :
          Equation.occurrences rest' ⊆
            Equation.occurrences ((s, t) :: rest') := by
        intro v hv
        simp only [Equation.occurrences, List.flatMap_cons]
        exact List.mem_append_right _ hv
      rcases ih (fun e he => hMatching e (by simp [he])) h with
        ⟨hRest, hRestSub, x, u, hσ, hu, hx⟩
      exact
        ⟨hRest, fun v hv => hSub (hRestSub hv),
          x, u, hσ, hu, hSub hx⟩
  | case4 s t rest' parts hStep ih =>
      have hParts := decompose?_of_step hStep
      have hSub := occurrences_decompose? hParts rest'
      have hMatching' : Matching (parts ++ rest') := by
        intro e he
        rcases List.mem_append.mp he with hPart | hRest
        · have hRight :=
            (occurrences_of_mem_decompose? hParts hPart).2
          have ht : Side.occurrences t = [] :=
            hMatching (s, t) (by simp)
          rw [ht] at hRight
          exact List.subset_nil.mp hRight
        · exact hMatching e (by simp [hRest])
      rcases ih hMatching' h with
        ⟨hRest, hRestSub, x, u, hσ, hu, hx⟩
      exact
        ⟨hRest, fun v hv => hSub (hRestSub hv),
          x, u, hσ, hu, hSub hx⟩
  | case5 s t rest' σ' hStep =>
      cases h
      have ht : Side.occurrences t = [] :=
        hMatching (s, t) (by simp)
      rcases eq_singleton_of_step ht hStep with ⟨x, rfl, rfl⟩
      refine
        ⟨fun e he => hMatching e (by simp [he]), ?_,
          x, t, rfl, ht, ?_⟩
      · intro v hv
        simp only [Equation.occurrences, List.flatMap_cons]
        exact List.mem_append_right _ hv
      · simp [Equation.occurrences, Side.occurrences,
          Term.occurrences]

/- A closed value brings no variable into a side. -/
theorem occurrences_substitute
    {P : Variable → Prop}
    {κ : Kinding}
    {x : Variable}
    {u s s' : Side}
    (hMoves : Moves P (.singleton x u) κ)
    (hu : Side.occurrences u = [])
    (hs : Side.Within P s)
    (h : substitute (.singleton x u) s = .ok s') :
    Side.occurrences s' ⊆ Side.occurrences s := by
  have hSubst := subst_of_substitute hMoves hs h
  intro w hw
  cases s with
  | none =>
      cases hSubst
      exact hw
  | some t =>
      cases s' with
      | none => simp [Side.occurrences] at hw
      | some t' =>
          rcases Term.exists_of_mem_occurrences_subst
              (hs t rfl).1 hSubst hw with ⟨v, hv, hw⟩
          by_cases hvx : v = x
          · rw [hvx, Bindings.value_singleton_self, hu] at hw
            cases hw
          · rw [Bindings.value_singleton_of_ne hvx] at hw
            cases List.mem_singleton.mp hw
            exact hv

/-
  Recording such bindings keeps the work list matching, and
  brings variables neither into it nor into bound values.
-/
theorem bind_matching
    {κ κ' : Kinding}
    {x : Variable}
    {u : Side}
    {state next : State}
    (hMoves : Moves κ.Has (.singleton x u) κ')
    (hScoped : Scoped κ.Has state)
    (hMatching : Matching state.pending)
    (hu : Side.occurrences u = [])
    (h : bind state (.singleton x u) = .ok next) :
    Matching next.pending ∧
      Equation.occurrences next.pending ⊆
        Equation.occurrences state.pending ∧
      ∀ v s', next.solved.get? v = some s' →
        (v = x ∧ Side.occurrences s' = []) ∨
          ∃ s, state.solved.get? v = some s ∧
            Side.occurrences s' ⊆ Side.occurrences s := by
  refine ⟨?_, ?_, ?_⟩
  · intro e' he'
    rcases exists_of_mem_substituteAll (bind_ok h).1 he' with
      ⟨e, he, _, hRight⟩
    have hSub :=
      occurrences_substitute hMoves hu
        (hScoped.pending e he).2 hRight
    rw [hMatching e he] at hSub
    exact List.subset_nil.mp hSub
  · intro v hv
    rcases List.mem_flatMap.mp hv with ⟨e', he', hv⟩
    rcases exists_of_mem_substituteAll (bind_ok h).1 he' with
      ⟨e, he, hLeft, hRight⟩
    have hWithin := hScoped.pending e he
    refine List.mem_flatMap.mpr ⟨e, he, ?_⟩
    rcases List.mem_append.mp hv with hv | hv
    · exact List.mem_append_left _
        (occurrences_substitute hMoves hu hWithin.1 hLeft hv)
    · exact List.mem_append_right _
        (occurrences_substitute hMoves hu hWithin.2 hRight hv)
  · intro v s' hv
    rcases get?_bind_cases hMoves.functional h hv with
      hNew | ⟨s, hOld, hSubst⟩
    · rw [Bindings.get?_singleton] at hNew
      split at hNew
      · rename_i hvx
        cases hNew
        exact Or.inl ⟨hvx, hu⟩
      · cases hNew
    · exact Or.inr
        ⟨s, hOld,
          occurrences_substitute hMoves hu
            (hScoped.solved v s hOld).1 hSubst⟩

/-
  A run on a matching work list binds variables of the work
  list to closed sides, and no variable is brought into what
  was bound before.
-/
theorem get?_of_solve
    {names : Nat}
    {κ : Kinding}
    {state : State}
    {θ : Bindings}
    (hScoped : Scoped κ.Has state)
    (hMatching : Matching state.pending)
    (h : solve names state = .ok θ)
    {v : Variable}
    {s' : Side}
    (hv : θ.get? v = some s') :
    (v ∈ Equation.occurrences state.pending ∧
        Side.occurrences s' = []) ∨
      ∃ s, state.solved.get? v = some s ∧
        Side.occurrences s' ⊆ Side.occurrences s := by
  induction names using Nat.strong_induction_on
    generalizing κ state with
  | _ names ih =>
      rcases solve_cases h with
        ⟨hDone, rfl⟩ |
          ⟨σ, rest, next, names', rfl, hReduce, hBind, hRun⟩
      · exact Or.inr ⟨s', hv, fun w hw => hw⟩
      · rcases reduce_some hScoped.pending hReduce with
          ⟨⟨κ', hMoves⟩, hRest, _⟩
        rcases reduce_matching hMatching hReduce with
          ⟨hMatching', hSub, x, u, rfl, hu, hx⟩
        have hScoped' : Scoped κ.Has ⟨rest, state.solved⟩ :=
          ⟨hRest, hScoped.solved, hScoped.keys⟩
        have hNext := scoped_bind hMoves hScoped' hBind
        rcases bind_matching hMoves hScoped' hMatching' hu hBind
          with ⟨hMatching'', hSub', hValues⟩
        rcases ih names' (Nat.lt_succ_self names') hNext
            hMatching'' hRun with
          ⟨hOccurs, hClosed⟩ | ⟨s, hs, hSubset⟩
        · exact Or.inl ⟨hSub (hSub' hOccurs), hClosed⟩
        · rcases hValues v s hs with
            ⟨rfl, hClosed⟩ | ⟨s₀, hs₀, hSubset'⟩
          · rw [hClosed] at hSubset
            exact Or.inl ⟨hx, List.subset_nil.mp hSubset⟩
          · exact Or.inr
              ⟨s₀, hs₀, fun w hw => hSubset' (hSubset hw)⟩

end Unify

end StatementQuery

------------------------------------------------------------
-- A Variable As The Subject
------------------------------------------------------------

namespace StatementQuery

/- A statement with a subject and a snak. -/
def Term.statementOf (subject snak : Term) : Term :=
  .app .statement [some subject, some snak]

namespace Unify

/-
  Unifying two statements whose subjects are variables merges
  the subjects first; the snaks are left.
-/
theorem unify_statements
    {κ : Kinding}
    {s f : Variable}
    {q : Term}
    {n : Ground}
    {θ : Bindings}
    (hKinds :
      Variable.AtKinds κ
        (Equation.occurrences
          [(some (Term.statementOf (.var s) q),
            some (Term.statementOf (.var f) (.ground n)))]))
    (hNames : s.name ≠ f.name)
    (h :
      unify
          [(some (Term.statementOf (.var s) q),
            some (Term.statementOf (.var f) (.ground n)))] =
        .ok θ) :
    ∃ σ next names,
      merge s f = .ok σ ∧
        bind ⟨[(some q, some (.ground n))], .empty⟩ σ =
          .ok next ∧
        solve names next = .ok θ := by
  rcases exists_of_bind_eq_ok h with ⟨state, hStart, hSolve⟩
  rw [start_of_atKinds hKinds] at hStart
  cases hStart
  have hDiffer : s ≠ f := by
    rintro rfl
    exact hNames rfl
  have hParts :
      step (some (Term.statementOf (.var s) q))
          (some (Term.statementOf (.var f) (.ground n))) =
        .ok (.replaceBy
          [(some (.var s), some (.var f)),
            (some q, some (.ground n))]) := by
    simp [step, Term.statementOf, Term.sameOption, Term.same,
      Term.sameArgs, hDiffer, decompose?, Term.kind,
      Term.isGround, Term.args?, pairArgs?]
  have hMerge :
      step (some (.var s)) (some (.var f)) =
        (merge s f).map .bindTo := by
    simp [step, Term.sameOption, Term.same, hDiffer]
  have hReduce := reduce_of_replace hParts []
  cases hσ : merge s f with
  | error e =>
      rw [hσ] at hMerge
      rw [List.append_nil, reduce_of_error hMerge] at hReduce
      rcases solve_cases hSolve with
        ⟨hDone, _⟩ | ⟨_, _, _, _, _, hReduce', _⟩
      · rw [hReduce] at hDone
        cases hDone
      · rw [hReduce] at hReduce'
        cases hReduce'
  | ok σ =>
      rw [hσ] at hMerge
      rw [List.append_nil, reduce_of_bindTo hMerge] at hReduce
      rcases solve_cases hSolve with
        ⟨hDone, _⟩ |
          ⟨τ, rest, next, names, _, hReduce', hBind, hRun⟩
      · rw [hReduce] at hDone
        cases hDone
      · rw [hReduce] at hReduce'
        cases hReduce'
        exact ⟨σ, next, names, rfl, hBind, hRun⟩

/- Only a variable has a variable as its normal form. -/
theorem eq_var_of_outcome
    {s : Side}
    {w : Variable}
    (h : outcome (some s) = outcome (some (some (.var w)))) :
    s = some (.var w) := by
  rcases s with _ | (g | v | ⟨c, args⟩)
  · cases h
  · cases h
  · cases h
    rfl
  · cases h

/- The survivor is left only where one of the two was. -/
theorem mem_of_survivor_mem
    {κ : Kinding}
    {gone kept : Variable}
    {q : Term}
    {n : Ground}
    {next : State}
    (hMoves :
      Moves κ.Has (mergeInto gone kept)
        (mergedKinds κ gone kept))
    (hKept : κ.Has kept)
    (hq : Side.Within κ.Has (some q))
    (hBind :
      bind ⟨[(some q, some (.ground n))], .empty⟩
          (mergeInto gone kept) =
        .ok next)
    (h :
      survivor gone kept ∈ Equation.occurrences next.pending) :
    gone ∈ q.occurrences ∨ kept ∈ q.occurrences := by
  rcases List.mem_flatMap.mp h with ⟨⟨s', t'⟩, he', h⟩
  rcases exists_of_mem_substituteAll (bind_ok hBind).1 he' with
    ⟨e, he, hLeft, hRight⟩
  cases List.mem_singleton.mp he
  have hGround : some (.ground n) = t' := Except.ok.inj hRight
  simp only [← hGround, Side.occurrences, Term.occurrences,
    List.append_nil] at h
  have hSubst := subst_of_substitute hMoves hq hLeft
  cases s' with
  | none => cases h
  | some q' =>
      rcases Term.exists_of_mem_occurrences_subst
          (hq q rfl).1 hSubst h with ⟨v, hv, hw⟩
      by_cases hMerged : v = gone ∨ v = kept
      · rcases hMerged with rfl | rfl
        · exact Or.inl hv
        · exact Or.inr hv
      · -- Any other variable stays, and is not the survivor.
        rw [value_mergeInto_of_not hMerged] at hw
        have hName : kept.name = v.name := by
          rw [← List.mem_singleton.mp hw]
          rfl
        rw [eq_of_has hKept ((hq q rfl).2 v hv) hName]
        exact Or.inr hv

/-
  Two merged variables both end as the survivor, or both end
  as closed sides; the latter only if one of them occurs in
  what is left.
-/
theorem values_of_merge
    {κ : Kinding}
    {gone kept : Variable}
    {q : Term}
    {n : Ground}
    {names : Nat}
    {next : State}
    {θ : Bindings}
    (hGone : κ.Has gone)
    (hKept : κ.Has kept)
    (hNe : gone ≠ kept)
    (hLe : gone.kind ≤ kept.kind)
    (hq : Side.Within κ.Has (some q))
    (hBind :
      bind ⟨[(some q, some (.ground n))], .empty⟩
          (mergeInto gone kept) =
        .ok next)
    (hSolve : solve names next = .ok θ) :
    (∀ v, v = gone ∨ v = kept →
      θ.value v = some (.var (survivor gone kept))) ∨
      (gone ∈ q.occurrences ∨ kept ∈ q.occurrences) ∧
        ∀ v, v = gone ∨ v = kept →
          ∀ w, θ.value v ≠ some (.var w) := by
  have hWithin :
      Within κ.Has [(some q, some (.ground n))] := by
    intro e he
    cases List.mem_singleton.mp he
    refine ⟨hq, ?_⟩
    intro t ht
    cases ht
    exact ⟨.ground n, by simp [Term.occurrences]⟩
  have hMoves := moves_mergeInto hGone hKept hNe hLe
  have hNext := scoped_bind hMoves (scoped_of_within hWithin) hBind
  have hMatching : Matching next.pending := by
    intro e' he'
    rcases exists_of_mem_substituteAll (bind_ok hBind).1 he' with
      ⟨e, he, _, hRight⟩
    cases List.mem_singleton.mp he
    rw [← Except.ok.inj hRight]
    rfl
  rcases solves_of_solve hNext hSolve with ⟨κ', hSolves, _, _⟩
  have hAbsorbs :=
    absorbs_of_solves hMoves.functional hBind hSolves
  have hEnd :
      ∀ v, v = gone ∨ v = kept →
        outcome (some (θ.value v)) =
          outcome (some (θ.value (survivor gone kept))) := by
    intro v hv
    have hAbsorbed := hAbsorbs v
    rw [value_mergeInto hv] at hAbsorbed
    exact hAbsorbed.symm
  have hSurvivor :
      next.solved.get? (survivor gone kept) = none := by
    apply hNext.unbound
    have hName : kept.name ≠ gone.name := by
      intro hName
      exact hNe (eq_of_has hGone hKept hName.symm)
    simp [Kinding.Has, mergedKinds, survivor,
      Variable.withKind, hName]
  cases hGet : θ.get? (survivor gone kept) with
  | none =>
      left
      intro v hv
      have hValue := hEnd v hv
      rw [Bindings.value_of_get?_none hGet] at hValue
      exact eq_var_of_outcome hValue
  | some s' =>
      right
      rcases get?_of_solve hNext hMatching hSolve hGet with
        ⟨hOccurs, hClosed⟩ | ⟨s, hs, _⟩
      · refine
          ⟨mem_of_survivor_mem hMoves hKept hq hBind hOccurs, ?_⟩
        intro v hv w hw
        have hValue := hEnd v hv
        rw [Bindings.value_of_get? hGet, hw] at hValue
        have hVar := eq_var_of_outcome hValue.symm
        simp [hVar, Side.occurrences, Term.occurrences]
          at hClosed
      · rw [hSurvivor] at hs
        cases hs

/-
  The two subjects end as one variable, or as closed sides if
  one of them occurs in the open snak.  That variable is the
  right one unless it is narrower than the left one.
-/
theorem subjects_of_unify
    {κ : Kinding}
    {s f : Variable}
    {q : Term}
    {n : Ground}
    {θ : Bindings}
    (hKinds :
      Variable.AtKinds κ
        (Equation.occurrences
          [(some (Term.statementOf (.var s) q),
            some (Term.statementOf (.var f) (.ground n)))]))
    (hq : q.WellShaped)
    (hNames : s.name ≠ f.name)
    (h :
      unify
          [(some (Term.statementOf (.var s) q),
            some (Term.statementOf (.var f) (.ground n)))] =
        .ok θ) :
    ∃ k : Variable,
      (¬ f.kind < s.kind ∧ k.name = f.name ∨
        f.kind < s.kind ∧ k.name = s.name) ∧
      (θ.value f = some (.var k) ∧ θ.value s = some (.var k) ∨
        (s ∈ q.occurrences ∨ f ∈ q.occurrences) ∧
          ∀ w, θ.value f ≠ some (.var w) ∧
            θ.value s ≠ some (.var w)) := by
  rcases unify_statements hKinds hNames h with
    ⟨σ, next, names, hMerge, hBind, hSolve⟩
  rcases merge_ok hMerge with ⟨gone, kept, hCase, hLe, rfl⟩
  have hNe : s ≠ f := by
    rintro rfl
    exact hNames rfl
  have hOccurs :
      ∀ v, v = s ∨ v = f ∨ v ∈ q.occurrences → κ.Has v := by
    intro v hv
    apply hKinds
    simp only [Equation.occurrences, Side.occurrences,
      Term.statementOf, Term.occurrences, Term.occurrencesArgs,
      List.flatMap_cons, List.flatMap_nil, List.append_nil,
      List.mem_append, List.mem_singleton]
    tauto
  have hs : κ.Has s := hOccurs s (Or.inl rfl)
  have hf : κ.Has f := hOccurs f (Or.inr (Or.inl rfl))
  have hqWithin : Side.Within κ.Has (some q) := by
    intro t ht
    cases ht
    exact ⟨hq, fun v hv => hOccurs v (Or.inr (Or.inr hv))⟩
  rcases hCase with ⟨rfl, rfl, hNot⟩ | ⟨rfl, rfl, hLt⟩
  · refine ⟨survivor gone kept, Or.inl ⟨hNot, rfl⟩, ?_⟩
    rcases values_of_merge hs hf hNe hLe hqWithin hBind hSolve
      with hEnd | ⟨hMem, hClosed⟩
    · exact Or.inl
        ⟨hEnd kept (Or.inr rfl), hEnd gone (Or.inl rfl)⟩
    · exact Or.inr
        ⟨hMem, fun w =>
          ⟨hClosed kept (Or.inr rfl) w,
            hClosed gone (Or.inl rfl) w⟩⟩
  · refine ⟨survivor gone kept, Or.inr ⟨hLt, rfl⟩, ?_⟩
    rcases values_of_merge hf hs hNe.symm hLe hqWithin hBind
        hSolve with hEnd | ⟨hMem, hClosed⟩
    · exact Or.inl
        ⟨hEnd gone (Or.inl rfl), hEnd kept (Or.inr rfl)⟩
    · exact Or.inr
        ⟨hMem.symm, fun w =>
          ⟨hClosed gone (Or.inl rfl) w,
            hClosed kept (Or.inr rfl) w⟩⟩

end Unify

end StatementQuery

------------------------------------------------------------
-- What A Nested Entry Speaks Of
------------------------------------------------------------

namespace StatementQuery

namespace Term

/- A statement pattern whose subject is a variable. -/
theorem eq_statementOf
    {p q : Term}
    {s : Variable}
    (hp : p.WellShaped)
    (h : p.statementParts? = some (.var s, q)) :
    p = statementOf (.var s) q := by
  unfold statementParts? at h
  split at h
  · rename_i hKind
    cases hp with
    | var v => cases h
    | ground g =>
        cases hArgs : g.args? with
        | none => simp [args?, hArgs] at h
        | some gs =>
            rcases gs with _ | ⟨_ | a, _ | ⟨_ | b, rest⟩⟩ <;>
              simp [args?, hArgs] at h
    | @app c args hSlots hOpen hArgs =>
        have hc : c = .statement :=
          Constructor.kind_injective hKind
        subst hc
        rcases List.length_eq_two.mp hSlots.length_eq.symm with
          ⟨a, b, rfl⟩
        rcases a with _ | a <;> rcases b with _ | b <;>
          simp [args?] at h
        rw [h.1, h.2]
        rfl
  · cases h

/- The snak of a well-shaped statement is well shaped. -/
theorem wellShaped_of_statementOf
    {subject snak : Term}
    (h : (statementOf subject snak).WellShaped) :
    snak.WellShaped := by
  rcases h with _ | _ | ⟨_, _, hArgs⟩
  exact hArgs snak (by simp)

end Term

namespace Entry

/-
  The subject of a pattern that matches a statement about a
  variable `f`.  Both end as one variable `k`, unless the
  pattern has its subject in its snak too.  It is `f` unless
  `f` is narrower than the subject of the pattern; then it is
  a variable that is in use nowhere else.
-/
theorem subject_of_match
    {p q : Term}
    {s f : Variable}
    {n : Ground}
    {used : List String}
    {found : PatternMatch}
    (hp : p.WellFormed)
    (hParts : p.statementParts? = some (.var s, q))
    (hGoal : (Term.statementOf (.var f) (.ground n)).WellFormed)
    (hUsed : f.name ∈ used)
    (hMatch :
      matchPattern? p (Term.statementOf (.var f) (.ground n))
          used =
        some found) :
    ∃ k : Variable,
      (¬ f.kind < s.kind ∧ k.name = f.name ∨
        f.kind < s.kind ∧ k.name ∉ used) ∧
      (Term.settle? found.bindings (.var f) =
            some (some (.var k)) ∧
          found.args.lookup s.name = some (.var k.name) ∨
        s ∈ q.occurrences ∧
          (∀ v, Term.settle? found.bindings (.var f) ≠
            some (some (.var v))) ∧
          ∀ name, found.args.lookup s.name ≠
            some (.var name)) := by
  have hp' := Term.eq_statementOf hp.shaped hParts
  subst hp'
  rcases matchPattern?_eq_some hp hMatch with
    ⟨ρ, hρ, hPattern, hUnify, hArgs⟩
  have hs : s ∈ (Term.statementOf (.var s) q).occurrences := by
    simp [Term.statementOf, Term.occurrences,
      Term.occurrencesArgs]
  have hq :
      ∀ v ∈ q.occurrences,
        v ∈ (Term.statementOf (.var s) q).occurrences := by
    intro v hv
    simp [Term.statementOf, Term.occurrences,
      Term.occurrencesArgs, hv]
  have hGoalNames :
      ∀ v ∈ (Term.statementOf (.var f)
          (.ground n)).occurrences, v.name ∈ used := by
    intro v hv
    simp only [Term.statementOf, Term.occurrences,
      Term.occurrencesArgs, List.append_nil,
      List.mem_singleton] at hv
    rw [hv]
    exact hUsed
  have hApart : ∀ v ∈ q.occurrences, ρ v.name ≠ f.name := by
    intro v hv hName
    apply hρ.fresh v (hq v hv)
    rw [hName]
    exact hUsed
  have hNames : (s.renamed ρ).name ≠ f.name := by
    intro hName
    apply hρ.fresh s hs
    have hEq : ρ s.name = f.name := hName
    rw [hEq]
    exact hUsed
  have hRenamed := Term.wellFormed_renamed hp hρ
  rw [hPattern] at hUnify
  rcases Term.settled_of_unify hRenamed hGoal hUnify with
    ⟨_, _, hSettled⟩
  rw [hArgs s hs, Term.settle?_var hSettled,
    Term.settle?_var hSettled]
  have hKinds :=
    Variable.atKinds_kinding
      (Term.oneKind_renamed hp hGoal hρ hGoalNames)
  have hShaped :
      (q.mapVariables (Variable.renamed ρ)).WellShaped := by
    apply Term.wellShaped_mapVariables
    · intro v _
      exact le_refl v.kind
    · exact Term.wellShaped_of_statementOf hp.shaped
  rcases Unify.subjects_of_unify hKinds hShaped hNames hUnify
    with ⟨k, hk, hEnd⟩
  refine ⟨k, ?_, ?_⟩
  · rcases hk with hk | ⟨hLt, hName⟩
    · exact Or.inl hk
    · refine Or.inr ⟨hLt, ?_⟩
      rw [hName]
      exact hρ.fresh s hs
  · rcases hEnd with ⟨hf, hs'⟩ | ⟨hMem, hClosed⟩
    · rw [hf, hs']
      exact Or.inl ⟨rfl, rfl⟩
    · right
      refine ⟨?_, ?_, ?_⟩
      · rcases hMem with hMem | hMem
        · rcases (Term.mem_occurrences_mapVariables _ q _).mp
            hMem with ⟨v, hv, hEq⟩
          have hName : v.name = s.name :=
            hρ.injective v (hq v hv) s hs
              (congrArg Variable.name hEq)
          have hSame : v = s :=
            Variable.eq_of_name_of_kind hName
              (hp.oneKind v (hq v hv) s hs hName)
          rw [← hSame]
          exact hv
        · rcases (Term.mem_occurrences_mapVariables _ q _).mp
            hMem with ⟨v, hv, hEq⟩
          exact absurd (congrArg Variable.name hEq)
            (hApart v hv)
      · intro v hv
        exact (hClosed v).1 (Option.some.inj hv)
      · intro name hArg
        rcases argOf?_eq_var hArg with ⟨w, hw, _⟩
        exact (hClosed w).2 hw

end Entry

end StatementQuery

------------------------------------------------------------
-- Branches And Nested Entries
------------------------------------------------------------

namespace StatementQuery

namespace Target

/- The parts of a target that snaks are asked of. -/
def constrained (t : Target) : List (Term × List Ground) :=
  [(t.subject, t.subjectSnaks), (t.value, t.valueSnaks)]

end Target

namespace Compile

/-
  An entry serves a target of a filter through a match, while
  some names are in use.
-/
structure Serves
    (task : Task)
    (used : List String)
    (t : Target)
    (e : Entry)
    (found : PatternMatch) :
    Prop where
  target : t ∈ Target.all task.mapping.codec task.filter
  entry : e ∈ task.mapping.entries
  admitted : e.excludes? task.filter t = none
  reserved : reservedNames task.options ⊆ used
  plan :
    ∃ goal,
      t.statement e.snakKind = .ok goal ∧
        e.plan? goal used = some found

/-
  An entry expresses that a focus has a snak through one of
  its patterns, while some names are in use.
-/
structure Nests
    (task : Task)
    (used : List String)
    (focus : Term)
    (snak : Ground)
    (e : Entry)
    (p : Term)
    (found : PatternMatch) :
    Prop where
  entry : e ∈ task.mapping.entries
  kind : e.snakKind.kind = snak.kind
  pattern : p ∈ e.patterns
  plan :
    ∃ goal,
      Term.apply .statement
          [some focus, some (.ground snak)] = .ok goal ∧
        Entry.matchPattern? p goal used = some found

end Compile

namespace Target

/- Snaks are asked of a subject or a value that is open. -/
theorem constrained_eq_var
    {codec : Codec}
    {f : Filter}
    {t : Target}
    {part : Term × List Ground}
    {snak : Ground}
    (ht : t ∈ all codec f)
    (hPart : part ∈ t.constrained)
    (hSnak : snak ∈ part.2) :
    part.1 = .var ⟨subjectName, .entity⟩ ∨
      part.1 = .var ⟨valueName, .entity⟩ := by
  rcases List.mem_flatMap.mp ht with ⟨s, _, ht⟩
  rcases List.mem_flatMap.mp ht with ⟨p, _, ht⟩
  rcases List.mem_map.mp ht with ⟨v, _, rfl⟩
  rcases List.mem_pair.mp hPart with rfl | rfl
  · cases s with
    | snaks gs => exact Or.inl rfl
    | any => cases hSnak
    | value g => cases hSnak
  · cases v with
    | snaks gs => exact Or.inr rfl
    | any => cases hSnak
    | value g => cases hSnak

end Target

namespace Compile

/- The match of a served target is of a pattern of the entry. -/
theorem Serves.exists_pattern
    {task : Task}
    {used : List String}
    {t : Target}
    {e : Entry}
    {found : PatternMatch}
    (h : Serves task used t e found) :
    ∃ p ∈ e.patterns, ∃ goal,
      t.statement e.snakKind = .ok goal ∧
        Entry.matchPattern? p goal used = some found := by
  rcases h.plan with ⟨goal, hGoal, hPlan⟩
  rcases List.exists_of_findSome?_eq_some hPlan with
    ⟨p, hp, hMatch⟩
  exact ⟨p, hp, goal, hGoal, hMatch⟩

/-
  A focus that stays a variable is of an entity, and its name
  is in use after the branch has been planned.
-/
theorem focus_spec
    {task : Task}
    {used : List String}
    {t : Target}
    {e : Entry}
    {found : PatternMatch}
    {part : Term × List Ground}
    {snak : Ground}
    {focus : Variable}
    (hPatterns :
      ∀ e ∈ task.mapping.entries,
        ∀ p ∈ e.patterns, p.WellFormed)
    (hServes : Serves task used t e found)
    (hPart : part ∈ t.constrained)
    (hSnak : snak ∈ part.2)
    (hFocus :
      Term.settle? found.bindings part.1 =
        some (some (.var focus))) :
    focus.kind ≤ .entity ∧
      focus.name ∈ used ++ found.names := by
  rcases hServes.exists_pattern with
    ⟨p, hp, goal, hGoal, hMatch⟩
  have hFormed := hPatterns e hServes.entry p hp
  rcases Target.spec_statement hServes.target hGoal with
    ⟨hGoalFormed, hGoalNames⟩
  rcases Entry.settled_of_matchPattern? hFormed hGoalFormed hMatch
    with ⟨κ, hNarrows, hSettled⟩
  have hOpen :
      ∀ n ∈ Target.openNames, n ∈ used ++ found.names := by
    intro n hn
    apply List.mem_append_left
    apply hServes.reserved
    simp only [Target.openNames, List.mem_cons,
      List.not_mem_nil, or_false] at hn
    simp only [reservedNames, List.mem_cons]
    tauto
  have hVariable :
      ∃ v : Variable,
        part.1 = .var v ∧ v.kind = .entity ∧
          v.name ∈ Target.openNames := by
    rcases Target.constrained_eq_var hServes.target hPart hSnak
      with hVar | hVar
    · exact ⟨_, hVar, rfl, by simp [Target.openNames]⟩
    · exact ⟨_, hVar, rfl, by simp [Target.openNames]⟩
  rcases hVariable with ⟨v, hVar, hKind, hName⟩
  rw [hVar, Term.settle?_var hSettled] at hFocus
  have hValue := Option.some.inj hFocus
  cases hGet : found.bindings.get? v with
  | none =>
      rw [Bindings.value_of_get?_none hGet] at hValue
      cases hValue
      exact ⟨le_of_eq hKind, hOpen focus.name hName⟩
  | some s =>
      rw [Bindings.value_of_get? hGet] at hValue
      rcases hSettled.solved v s hGet with ⟨hWithin, hLe⟩
      rw [hValue] at hWithin
      have hFocusKind := hLe (.var focus) hValue
      rw [hKind] at hFocusKind
      refine ⟨hFocusKind, ?_⟩
      have hHas : κ.Has focus :=
        (hWithin (.var focus) rfl).2 focus
          (by simp [Term.occurrences])
      rcases hNarrows focus.name focus.kind hHas with
        ⟨w, hw, hwName, _⟩
      rw [← hwName]
      rcases hw with hw | hw
      · apply List.mem_append_right
        apply List.mem_append_left
        exact (Variable.mem_names w.name _).mpr ⟨w, hw, rfl⟩
      · exact hOpen w.name (hGoalNames w hw)

/- A statement about a focus is built as it is. -/
theorem apply_statement
    {focus : Variable}
    {snak : Ground}
    {goal : Term}
    (hFocus : focus.kind ≤ .entity)
    (hSnak : snak.kind ≤ .snak)
    (h :
      Term.apply .statement
          [some (.var focus), some (.ground snak)] =
        .ok goal) :
    goal = Term.statementOf (.var focus) (.ground snak) ∧
      goal.WellFormed := by
  have hSlots :
      List.Forall₂ Slot.Admits Constructor.statement.slots
        [some (.var focus), some (.ground snak)] :=
    .cons hFocus (.cons hSnak .nil)
  have hKinds :
      Variable.AtKinds (Variable.kinding [focus])
        (Term.occurrencesArgs
          [some (.var focus), some (.ground snak)]) := by
    apply Variable.atKinds_kinding
    intro v hv w hw _
    rw [List.mem_singleton.mp hv, List.mem_singleton.mp hw]
  have hApply := Term.apply_eq_assemble? hSlots hKinds
  rw [h] at hApply
  refine ⟨Option.some.inj hApply, Term.wellFormed_apply ?_ h⟩
  intro u hu
  rcases List.mem_pair.mp hu with hu | hu <;> cases hu
  · exact .var focus
  · exact .ground snak

/-
  What a nested entry is given for the subject `s` of a pattern
  with the snak `q`, where it is to speak of a focus while some
  names are in use.
-/
structure Links
    (used : List String)
    (focus s : Variable)
    (q : Term)
    (found : PatternMatch) :
    Prop where
  /- It is the focus, if that is no narrower and left open. -/
  focus_iff :
    found.args.get s.name = .ok (.var focus.name) ↔
      ¬ focus.kind < s.kind ∧
        ∃ v, Term.settle? found.bindings (.var focus) =
          some (some (.var v))
  stays_open :
    s ∉ q.occurrences →
      ∃ v, Term.settle? found.bindings (.var focus) =
        some (some (.var v))
  /- If the focus is narrower, it is no name of the branch. -/
  apart :
    focus.kind < s.kind →
      ∀ n, found.args.get s.name = .ok (.var n) → n ∉ used

/-
  A nested entry is linked to a focus that is an entity and has
  a name that is in use.
-/
theorem Nests.links
    {task : Task}
    {used : List String}
    {e : Entry}
    {found : PatternMatch}
    {snak : Ground}
    {focus s : Variable}
    {p q : Term}
    (hPatterns :
      ∀ e ∈ task.mapping.entries,
        ∀ p ∈ e.patterns, p.WellFormed)
    (hKind : focus.kind ≤ .entity)
    (hName : focus.name ∈ used)
    (h : Nests task used (.var focus) snak e p found)
    (hSubject : p.statementParts? = some (.var s, q)) :
    Links used focus s q found := by
  rcases h.plan with ⟨goal, hGoal, hMatch⟩
  have hSnakKind : snak.kind ≤ .snak := by
    rw [← h.kind]
    cases e.snakKind <;> decide
  rcases apply_statement hKind hSnakKind hGoal with
    ⟨rfl, hFormed⟩
  have hp := hPatterns e h.entry p h.pattern
  have hGet :
      ∀ n, found.args.get s.name = .ok (.var n) ↔
        found.args.lookup s.name = some (.var n) := by
    intro n
    unfold Args.get
    cases found.args.lookup s.name <;> simp
  rcases Entry.subject_of_match hp hSubject hFormed hName hMatch
    with ⟨k, hk, ⟨hOpen, hArg⟩ | ⟨hOccurs, hClosed, hArg⟩⟩
  · refine ⟨⟨?_, ?_⟩, fun _ => ⟨k, hOpen⟩, ?_⟩
    · intro hEq
      rw [hGet, hArg] at hEq
      have hSame : k.name = focus.name := by simpa using hEq
      rcases hk with ⟨hNot, _⟩ | ⟨_, hFresh⟩
      · exact ⟨hNot, k, hOpen⟩
      · rw [hSame] at hFresh
        exact absurd hName hFresh
    · rintro ⟨hNot, _⟩
      rcases hk with ⟨_, hSame⟩ | ⟨hLt, _⟩
      · rw [hGet, hArg, hSame]
      · exact absurd hLt hNot
    · intro hLt n hn
      rw [hGet, hArg] at hn
      have hSame : k.name = n := by simpa using hn
      rcases hk with ⟨hNot, _⟩ | ⟨_, hFresh⟩
      · exact absurd hLt hNot
      · rw [← hSame]
        exact hFresh
  · refine ⟨⟨?_, ?_⟩, ?_, ?_⟩
    · intro hEq
      exact absurd ((hGet _).mp hEq) (hArg focus.name)
    · rintro ⟨_, v, hv⟩
      exact absurd hv (hClosed v)
    · intro hNot
      exact absurd hOccurs hNot
    · intro _ n hn
      exact absurd ((hGet n).mp hn) (hArg n)

/-
  Whether a nested entry speaks of the focus of its branch: it
  does exactly if the focus is no narrower than the subject of
  the entry's pattern, and is left open by the match.  A focus
  is left open unless that subject occurs in the snak of the
  pattern too.  Where the focus is narrower, a variable that
  the entry is given is one that the branch does not use.
-/
theorem nestedSubject_iff
    {task : Task}
    {used used' : List String}
    {t : Target}
    {e e' : Entry}
    {found found' : PatternMatch}
    {part : Term × List Ground}
    {snak : Ground}
    {focus s : Variable}
    {p q : Term}
    (hPatterns :
      ∀ e ∈ task.mapping.entries,
        ∀ p ∈ e.patterns, p.WellFormed)
    (hServes : Serves task used t e found)
    (hPart : part ∈ t.constrained)
    (hSnak : snak ∈ part.2)
    (hFocus :
      Term.settle? found.bindings part.1 =
        some (some (.var focus)))
    (hUsed : used ++ found.names ⊆ used')
    (hNests : Nests task used' (.var focus) snak e' p found')
    (hSubject : p.statementParts? = some (.var s, q)) :
    (found'.args.get s.name = .ok (.var focus.name) ↔
        ¬ focus.kind < s.kind ∧
          ∃ v, Term.settle? found'.bindings (.var focus) =
            some (some (.var v))) ∧
      (s ∉ q.occurrences →
        ∃ v, Term.settle? found'.bindings (.var focus) =
          some (some (.var v))) ∧
      (focus.kind < s.kind →
        ∀ n, found'.args.get s.name = .ok (.var n) →
          n ∉ used') := by
  rcases focus_spec hPatterns hServes hPart hSnak hFocus with
    ⟨hKind, hName⟩
  have hLinks :=
    hNests.links hPatterns hKind (hUsed hName) hSubject
  exact ⟨hLinks.focus_iff, hLinks.stays_open, hLinks.apart⟩

/- What is asked of the values: to be instances of a class. -/
def instanceSnak : Ground :=
  .snak
    (.value ⟨"http://www.wikidata.org/entity/P31"⟩
      (.item ⟨"http://www.wikidata.org/entity/Q5"⟩))

/- Statements of any subject with items as values. -/
def itemPattern (subject property value : String) : Term :=
  Term.statementOf (.var ⟨subject, .entity⟩)
    (.app .valueSnak
      [some (.var ⟨property, .property⟩),
        some (.var ⟨value, .item⟩)])

/- The entry of a store of such statements. -/
def itemEntry : Entry where
  id := 0
  patterns := [itemPattern "s" "p" "v"]
  snakKind := .value
  subjectKind := .entity
  datatype := some (.entity .item)
  emit := fun _ _ => pure none

/- Statements whose value is an instance of the class. -/
def instanceTask : Task where
  mapping := ⟨[itemEntry], .verbatim⟩
  options := {}
  filter := { value := .snaks [instanceSnak] }

/- The one target of the filter. -/
def instanceTarget : Target :=
  .ofAlternatives .verbatim .any .any (.snaks [instanceSnak])

/- The match of the branch: its value is an item. -/
def instanceMatch : PatternMatch where
  pattern := itemPattern "s0" "p0" "v0"
  bindings :=
    ⟨[(⟨"p0", .property⟩, some (.var ⟨"property", .property⟩)),
      (⟨"s0", .entity⟩, some (.var ⟨"subject", .entity⟩)),
      (⟨"v0", .item⟩, some (.var ⟨"value", .item⟩)),
      (⟨"value", .entity⟩, some (.var ⟨"value", .item⟩))]⟩
  template := itemPattern "subject" "property" "value"
  args :=
    [("p", .var "property"), ("s", .var "subject"),
      ("v", .var "value")]

/- The nested match: its subject is no variable of the branch. -/
def instanceNested : PatternMatch where
  pattern := itemPattern "s1" "p1" "v1"
  bindings :=
    ⟨[(⟨"p1", .property⟩,
        some (.ground (.value (.property
          ⟨"http://www.wikidata.org/entity/P31"⟩)))),
      (⟨"s1", .entity⟩, some (.var ⟨"s1", .item⟩)),
      (⟨"v1", .item⟩,
        some (.ground (.value (.item
          ⟨"http://www.wikidata.org/entity/Q5"⟩)))),
      (⟨"value", .item⟩, some (.var ⟨"s1", .item⟩))]⟩
  template :=
    Term.statementOf (.var ⟨"s1", .item⟩) (.ground instanceSnak)
  args :=
    [("p", .value (.value (.property
        ⟨"http://www.wikidata.org/entity/P31"⟩))),
      ("s", .var "s1"),
      ("v", .value (.value (.item
        ⟨"http://www.wikidata.org/entity/Q5"⟩)))]

theorem nestedSubject_iff_instances :
    Serves instanceTask (reservedNames {}) instanceTarget
        itemEntry instanceMatch ∧
      Nests instanceTask (reservedNames {} ++ instanceMatch.names)
        (.var ⟨"value", .item⟩) instanceSnak itemEntry
        (itemPattern "s" "p" "v") instanceNested ∧
      instanceNested.args.get "s" ≠ .ok (.var "value") ∧
      "s1" ∉ reservedNames {} ++ instanceMatch.names := by
  have hServes :
      Serves instanceTask (reservedNames {}) instanceTarget
        itemEntry instanceMatch := by
    refine
      ⟨List.mem_singleton.mpr rfl, List.mem_singleton.mpr rfl,
        rfl, fun n hn => hn, _, rfl, ?_⟩
    simp only [Entry.plan?, Entry.matchPattern?,
      Term.matchWith?, Unify.unify_eq_unifyFor]
    rfl
  have hNests :
      Nests instanceTask (reservedNames {} ++ instanceMatch.names)
        (.var ⟨"value", .item⟩) instanceSnak itemEntry
        (itemPattern "s" "p" "v") instanceNested := by
    refine
      ⟨List.mem_singleton.mpr rfl, rfl,
        List.mem_singleton.mpr rfl, _, rfl, ?_⟩
    simp only [Entry.matchPattern?, Term.matchWith?,
      Unify.unify_eq_unifyFor]
    rfl
  have hPatterns :
      ∀ e ∈ instanceTask.mapping.entries,
        ∀ p ∈ e.patterns, p.WellFormed := by
    intro e he p hp
    cases List.mem_singleton.mp he
    cases List.mem_singleton.mp hp
    decide
  have hPart :
      (instanceTarget.value, [instanceSnak]) ∈
        instanceTarget.constrained :=
    List.mem_cons_of_mem _ (List.mem_singleton.mpr rfl)
  have hNarrower : Kind.item < Kind.entity := by decide
  have hIff :=
    nestedSubject_iff hPatterns hServes hPart
      (List.mem_singleton.mpr rfl) rfl (fun n hn => hn) hNests
      rfl
  refine ⟨hServes, hNests, ?_, ?_⟩
  · rw [Ne, hIff.1]
    exact fun h => h.1 hNarrower
  · exact hIff.2.2 hNarrower "s1" rfl

end Compile

end StatementQuery
