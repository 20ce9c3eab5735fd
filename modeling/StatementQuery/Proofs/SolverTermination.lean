import Mathlib.Logic.Relation
import StatementQuery.Proofs.UnifierCompleteness

/-
  The loop of the solver ends.

  A turn of the loop takes the first equation of the work list.
  It stops the loop, or makes the work list simpler, or records
  bindings.  A turn that records bindings takes a name out of
  the work list for good, and brings none in.  A turn that
  simplifies brings no name in and makes the work list lighter.
  So a run from well-formed equations has finitely many turns,
  and ends in what unification returns.

  Key definitions include:
    * `Unify.Turn`
    * `Unify.turn`
    * `Unify.Leads`
    * `Unify.runFor`
    * `Unify.TakesOut`

  Main declarations:
    * `Unify.exists_takesOut`
    * `Unify.nameCount_of_record`
    * `Unify.weight_of_simplify`
    * `Unify.exists_runFor`
    * `unify_terminates`
-/

------------------------------------------------------------
-- Turns Of The Loop
------------------------------------------------------------

namespace StatementQuery

namespace Unify

/- What taking the first equation of a work list comes to. -/
inductive Turn where
| stop (result : Except UnifyFailure Bindings)
| simplify (next : State)
| record (next : State)

/- One turn of the loop. -/
def turn (state : State) : Turn :=
  match state.pending with
  | [] => .stop (.ok state.solved)
  | (s, t) :: rest =>
      match step s t with
      | .error e => .stop (.error e)
      | .ok .drop => .simplify ⟨rest, state.solved⟩
      | .ok (.replaceBy parts) =>
          .simplify ⟨parts ++ rest, state.solved⟩
      | .ok (.bindTo θ) =>
          match bind ⟨rest, state.solved⟩ θ with
          | .error e => .stop (.error e)
          | .ok next => .record next

/- One state leads to the next. -/
def Leads (state next : State) : Prop :=
  turn state = .simplify next ∨ turn state = .record next

/- What the loop returns within a number of turns. -/
def runFor :
    Nat → State → Option (Except UnifyFailure Bindings)
| 0, _ => none
| n + 1, state =>
    match turn state with
    | .stop result => some result
    | .simplify next => runFor n next
    | .record next => runFor n next

/- How a turn makes a work list simpler. -/
theorem simplify_cases
    {state next : State}
    (h : turn state = .simplify next) :
    next.solved = state.solved ∧
      ∃ s t rest,
        state.pending = (s, t) :: rest ∧
          (step s t = .ok .drop ∧ next.pending = rest ∨
            ∃ parts,
              step s t = .ok (.replaceBy parts) ∧
                next.pending = parts ++ rest) := by
  unfold turn at h
  split at h
  · cases h
  · rename_i s t rest hPending
    split at h
    · cases h
    · rename_i hStep
      cases h
      exact ⟨rfl, s, t, rest, hPending, Or.inl ⟨hStep, rfl⟩⟩
    · rename_i parts hStep
      cases h
      exact
        ⟨rfl, s, t, rest, hPending,
          Or.inr ⟨parts, hStep, rfl⟩⟩
    · split at h <;> cases h

/- How a turn records bindings. -/
theorem record_cases
    {state next : State}
    (h : turn state = .record next) :
    ∃ s t rest σ,
      state.pending = (s, t) :: rest ∧
        step s t = .ok (.bindTo σ) ∧
        bind ⟨rest, state.solved⟩ σ = .ok next := by
  unfold turn at h
  split at h
  · cases h
  · rename_i s t rest hPending
    split at h
    · cases h
    · cases h
    · cases h
    · rename_i σ hStep
      split at h
      · cases h
      · rename_i next' hBind
        cases h
        exact ⟨s, t, rest, σ, hPending, hStep, hBind⟩

/- What stops the loop is what solving ends with. -/
theorem solve_of_stop
    {state : State}
    {result : Except UnifyFailure Bindings}
    (h : turn state = .stop result)
    (count : Nat) :
    solve count state = result := by
  unfold turn at h
  split at h
  · rename_i hPending
    cases h
    have hReduce : reduce state.pending = .ok none := by
      rw [hPending, reduce]
    unfold solve
    simp only [hReduce]
  · rename_i s t rest hPending
    split at h
    · rename_i e hStep
      cases h
      unfold solve
      simp only [hPending, reduce_of_error hStep]
    · cases h
    · cases h
    · rename_i σ hStep
      split at h
      · rename_i e hBind
        cases h
        unfold solve
        simp only [hPending, reduce_of_bindTo hStep, hBind]
      · cases h

/- Simplifying first makes no difference to solving. -/
theorem solve_of_simplify
    {state next : State}
    (h : turn state = .simplify next)
    (count : Nat) :
    solve count state = solve count next := by
  rcases simplify_cases h with
    ⟨hSolved, s, t, rest, hPending, hCase⟩
  have hReduce : reduce state.pending = reduce next.pending := by
    rw [hPending]
    rcases hCase with ⟨hStep, hNext⟩ | ⟨parts, hStep, hNext⟩
    · rw [hNext, reduce_of_drop hStep]
    · rw [hNext, reduce_of_replace hStep]
  unfold solve
  rw [hReduce, hSolved]

/- Recording bindings uses up one name. -/
theorem solve_of_record
    {state next : State}
    (h : turn state = .record next)
    (count : Nat) :
    solve (count + 1) state = solve count next := by
  rcases record_cases h with
    ⟨s, t, rest, σ, hPending, hStep, hBind⟩
  rw [solve]
  simp only [hPending, reduce_of_bindTo hStep, hBind]

end Unify

end StatementQuery

------------------------------------------------------------
-- Names That Leave
------------------------------------------------------------

namespace StatementQuery

namespace Unify

/- The names of the rest are among those of a work list. -/
theorem names_rest
    (s t : Side)
    (rest : List Equation) :
    names rest ⊆ names ((s, t) :: rest) := by
  intro n hn
  rw [names_cons]
  simp [hn]

/- The names of the first equation are among them, too. -/
theorem names_first
    (s t : Side)
    (rest : List Equation) :
    names [(s, t)] ⊆ names ((s, t) :: rest) := by
  intro n hn
  rw [names_cons] at hn ⊢
  simp only [names, Equation.occurrences, List.flatMap_nil,
    List.map_nil, List.append_nil, List.mem_append] at hn
  simp only [List.mem_append]
  exact hn.imp id Or.inl

/-
  Bindings that take a variable out of the scope: it is bound,
  and the values are over other names among the given ones.
-/
structure TakesOut
    (κ : Kinding)
    (σ : Bindings)
    (ns : List String)
    (x : Variable) :
    Prop where
  scope : κ.Has x
  name : x.name ∈ ns
  bound : ∃ u, σ.get? x = some u
  values :
    ∀ v u, σ.get? v = some u →
      ∀ w ∈ Side.occurrences u,
        w.name ∈ ns ∧ w.name ≠ x.name

/- Merging two variables takes one of them out. -/
theorem takesOut_mergeInto
    {κ : Kinding}
    {gone kept : Variable}
    {ns : List String}
    (hGone : κ.Has gone)
    (hKept : κ.Has kept)
    (hNe : gone ≠ kept)
    (hns : gone.name ∈ ns ∧ kept.name ∈ ns) :
    TakesOut κ (mergeInto gone kept) ns gone := by
  refine ⟨hGone, hns.1, ?_, ?_⟩
  · rw [get?_mergeInto, if_pos (Or.inl rfl)]
    exact ⟨_, rfl⟩
  · intro v u hv w hw
    have hu : u = some (.var (survivor gone kept)) :=
      snd_of_mem_mergeInto (Bindings.exists_entry hv)
    have hwEq : w = survivor gone kept := by
      simpa [hu, Side.occurrences, Term.occurrences] using hw
    rw [hwEq]
    refine ⟨hns.2, ?_⟩
    intro hName
    exact hNe (eq_of_has hGone hKept hName.symm)

/- Eliminating a variable takes it out. -/
theorem takesOut_eliminate
    {κ : Kinding}
    {x : Variable}
    {s : Side}
    {σ : Bindings}
    {ns : List String}
    (hx : κ.Has x)
    (h : eliminate x s = .ok σ)
    (hxName : x.name ∈ ns)
    (hNames : ∀ v ∈ Side.occurrences s, v.name ∈ ns) :
    TakesOut κ σ ns x := by
  rcases eliminate_ok h with ⟨rfl, _, hOccurs⟩
  refine ⟨hx, hxName, ⟨s, by simp⟩, ?_⟩
  intro v u hv w hw
  rw [Bindings.get?_singleton] at hv
  split at hv
  · cases hv
    exact ⟨hNames w hw, hOccurs w hw⟩
  · cases hv

/- Bindings that an equation asks for take a variable out. -/
theorem exists_takesOut
    {κ : Kinding}
    {s t : Side}
    {σ : Bindings}
    (hs : Side.Within κ.Has s)
    (ht : Side.Within κ.Has t)
    (h : step s t = .ok (.bindTo σ)) :
    ∃ x, TakesOut κ σ (names [(s, t)]) x := by
  have hNames :
      ∀ v, v ∈ Side.occurrences s ∨ v ∈ Side.occurrences t →
        v.name ∈ names [(s, t)] := by
    intro v hv
    refine List.mem_map.mpr ⟨v, ?_, rfl⟩
    simpa [Equation.occurrences] using hv
  have hSelf :
      ∀ x, x ∈ Side.occurrences (some (.var x)) := by
    intro x
    simp [Side.occurrences, Term.occurrences]
  rcases bindTo_cases h with
    ⟨x, y, rfl, rfl, hNe, hMerge⟩ |
      ⟨x, u, hSides, _, hEliminate⟩
  · have hx := hNames x (Or.inl (hSelf x))
    have hy := hNames y (Or.inr (hSelf y))
    rcases merge_ok hMerge with ⟨gone, kept, hCase, _, rfl⟩
    rcases hCase with ⟨rfl, rfl, _⟩ | ⟨rfl, rfl, _⟩
    · exact
        ⟨_, takesOut_mergeInto hs.var ht.var hNe ⟨hx, hy⟩⟩
    · exact
        ⟨_, takesOut_mergeInto ht.var hs.var hNe.symm ⟨hy, hx⟩⟩
  · rcases hSides with ⟨rfl, rfl⟩ | ⟨rfl, rfl⟩
    · exact
        ⟨x, takesOut_eliminate hs.var hEliminate
          (hNames x (Or.inl (hSelf x)))
          fun v hv => hNames v (Or.inr hv)⟩
    · exact
        ⟨x, takesOut_eliminate ht.var hEliminate
          (hNames x (Or.inr (hSelf x)))
          fun v hv => hNames v (Or.inl hv)⟩

/- The variables of an instance are from values. -/
theorem exists_of_mem_occurrences_substitute
    {P : Variable → Prop}
    {σ : Bindings}
    {κ : Kinding}
    (hMoves : Moves P σ κ)
    {s s' : Side}
    (hs : Side.Within P s)
    (h : substitute σ s = .ok s')
    {w : Variable}
    (hw : w ∈ Side.occurrences s') :
    ∃ v ∈ Side.occurrences s,
      w ∈ Side.occurrences (σ.value v) := by
  have hSubst := subst_of_substitute hMoves hs h
  cases s with
  | none =>
      cases hSubst
      cases hw
  | some t =>
      cases s' with
      | none => cases hw
      | some u =>
          exact Term.exists_of_mem_occurrences_subst
            (hs t rfl).1 hSubst hw

/- The variables of new equations are from values. -/
theorem exists_of_mem_occurrences_bind
    {P : Variable → Prop}
    {σ : Bindings}
    {κ : Kinding}
    {state next : State}
    (hMoves : Moves P σ κ)
    (hScoped : Scoped P state)
    (h : bind state σ = .ok next)
    {w : Variable}
    (hw : w ∈ Equation.occurrences next.pending) :
    ∃ v ∈ Equation.occurrences state.pending,
      P v ∧ w ∈ Side.occurrences (σ.value v) := by
  rcases List.mem_flatMap.mp hw with ⟨e', he', hw⟩
  rcases exists_of_mem_substituteAll (bind_ok h).1 he' with
    ⟨e, he, hLeft, hRight⟩
  rcases hScoped.pending e he with ⟨hs, ht⟩
  rcases List.mem_append.mp hw with hw | hw
  · rcases exists_of_mem_occurrences_substitute hMoves hs hLeft hw
      with ⟨v, hv, hwv⟩
    refine ⟨v, ?_, hs.occurrences hv, hwv⟩
    exact List.mem_flatMap.mpr
      ⟨e, he, List.mem_append_left _ hv⟩
  · rcases exists_of_mem_occurrences_substitute hMoves ht hRight hw
      with ⟨v, hv, hwv⟩
    refine ⟨v, ?_, ht.occurrences hv, hwv⟩
    exact List.mem_flatMap.mpr
      ⟨e, he, List.mem_append_right _ hv⟩

/- A name that is taken out is gone, and none comes in. -/
theorem TakesOut.names_bind
    {κ κ' : Kinding}
    {σ : Bindings}
    {ns : List String}
    {x : Variable}
    {state next : State}
    (hOut : TakesOut κ σ ns x)
    (hMoves : Moves κ.Has σ κ')
    (hScoped : Scoped κ.Has state)
    (h : bind state σ = .ok next) :
    ∀ n ∈ names next.pending,
      n ≠ x.name ∧ (n ∈ ns ∨ n ∈ names state.pending) := by
  intro n hn
  rcases List.mem_map.mp hn with ⟨w, hw, rfl⟩
  rcases exists_of_mem_occurrences_bind hMoves hScoped h hw with
    ⟨v, hv, hvScope, hwv⟩
  cases hGet : σ.get? v with
  | some u =>
      rw [Bindings.value_of_get? hGet] at hwv
      rcases hOut.values v u hGet w hwv with ⟨hMem, hNe⟩
      exact ⟨hNe, Or.inl hMem⟩
  | none =>
      rw [Bindings.value_of_get?_none hGet] at hwv
      have hEq : w = v := by
        simpa [Side.occurrences, Term.occurrences] using hwv
      rw [hEq]
      refine ⟨?_, Or.inr (List.mem_map.mpr ⟨v, hv, rfl⟩)⟩
      -- Only one variable of a name is in scope.
      intro hName
      rcases hOut.bound with ⟨u, hu⟩
      rw [← eq_of_has hvScope hOut.scope hName, hGet] at hu
      cases hu

end Unify

end StatementQuery

------------------------------------------------------------
-- What A Turn Does
------------------------------------------------------------

namespace StatementQuery

namespace Unify

/- Fewer names make the number of names no larger. -/
theorem nameCount_le
    {eqs eqs' : List Equation}
    (hSub : names eqs' ⊆ names eqs) :
    Equation.nameCount eqs' ≤ Equation.nameCount eqs := by
  have hSubset :
      (names eqs').eraseDups ⊆ (names eqs).eraseDups := by
    intro n hn
    rw [List.mem_eraseDups] at hn ⊢
    exact hSub hn
  exact ((nodup_eraseDups _).subperm hSubset).length_le

/- Simplifying keeps a state in scope. -/
theorem scoped_of_simplify
    {P : Variable → Prop}
    {state next : State}
    (hScoped : Scoped P state)
    (h : turn state = .simplify next) :
    Scoped P next := by
  rcases simplify_cases h with
    ⟨hSolved, s, t, rest, hPending, hCase⟩
  have hWithin : Within P ((s, t) :: rest) := by
    rw [← hPending]
    exact hScoped.pending
  refine ⟨?_, ?_, ?_⟩
  · rcases hCase with ⟨_, hNext⟩ | ⟨parts, hStep, hNext⟩
    · rw [hNext]
      intro e he
      exact hWithin e (by simp [he])
    · rw [hNext]
      exact within_of_replace hWithin hStep
  · rw [hSolved]
    exact hScoped.solved
  · rw [hSolved]
    exact hScoped.keys

/- Simplifying brings no name in. -/
theorem nameCount_of_simplify
    {state next : State}
    (h : turn state = .simplify next) :
    Equation.nameCount next.pending ≤
      Equation.nameCount state.pending := by
  rcases simplify_cases h with ⟨_, s, t, rest, hPending, hCase⟩
  apply nameCount_le
  rw [hPending]
  rcases hCase with ⟨_, hNext⟩ | ⟨parts, hStep, hNext⟩
  · rw [hNext]
    exact names_rest s t rest
  · rw [hNext]
    exact names_decompose? (decompose?_of_step hStep) rest

/- Simplifying makes a work list lighter. -/
theorem weight_of_simplify
    {state next : State}
    (h : turn state = .simplify next) :
    Equation.weight next.pending <
      Equation.weight state.pending := by
  rcases simplify_cases h with ⟨_, s, t, rest, hPending, hCase⟩
  rw [hPending]
  rcases hCase with ⟨_, hNext⟩ | ⟨parts, hStep, hNext⟩
  · rw [hNext, Equation.weight]
    omega
  · have hParts := weight_step s t parts hStep
    rw [hNext, Equation.weight_append, Equation.weight]
    omega

/- Recording bindings takes a name out of a work list. -/
theorem nameCount_of_record
    {κ : Kinding}
    {state next : State}
    (hScoped : Scoped κ.Has state)
    (h : turn state = .record next) :
    Equation.nameCount next.pending <
        Equation.nameCount state.pending ∧
      ∃ κ' : Kinding, Scoped κ'.Has next := by
  rcases record_cases h with
    ⟨s, t, rest, σ, hPending, hStep, hBind⟩
  have hWithin : Within κ.Has ((s, t) :: rest) := by
    rw [← hPending]
    exact hScoped.pending
  rcases hWithin (s, t) (by simp) with ⟨hs, ht⟩
  rcases moves_of_step hs ht hStep with ⟨κ', hMoves⟩
  rcases exists_takesOut hs ht hStep with ⟨x, hOut⟩
  have hRest : Scoped κ.Has ⟨rest, state.solved⟩ :=
    ⟨fun e he => hWithin e (by simp [he]), hScoped.solved,
      hScoped.keys⟩
  have hNames := hOut.names_bind hMoves hRest hBind
  refine ⟨?_, κ', scoped_bind hMoves hRest hBind⟩
  rw [hPending]
  apply nameCount_lt (names_first s t rest hOut.name)
  · intro hMem
    exact (hNames x.name hMem).1 rfl
  · intro n hn
    rcases (hNames n hn).2 with hFirst | hOther
    · exact names_first s t rest hFirst
    · exact names_rest s t rest hOther

end Unify

end StatementQuery

------------------------------------------------------------
-- Runs Of The Loop
------------------------------------------------------------

namespace StatementQuery

namespace Unify

/- Every state that a run comes to is in scope. -/
theorem exists_scoped_of_leads
    {κ : Kinding}
    {state now : State}
    (hScoped : Scoped κ.Has state)
    (h : Relation.ReflTransGen Leads state now) :
    ∃ κ' : Kinding, Scoped κ'.Has now := by
  induction h with
  | refl => exact ⟨κ, hScoped⟩
  | tail _ hLeads ih =>
      rcases ih with ⟨κ', hNow⟩
      rcases hLeads with hSimplify | hRecord
      · exact ⟨κ', scoped_of_simplify hNow hSimplify⟩
      · exact (nameCount_of_record hNow hRecord).2

/-
  The loop returns what solving returns, if there are names
  enough to be used up.
-/
theorem exists_runFor
    {κ : Kinding}
    {count : Nat}
    {state : State}
    (hScoped : Scoped κ.Has state)
    (hCount : Equation.nameCount state.pending ≤ count) :
    ∃ n, runFor n state = some (solve count state) := by
  -- Bindings lower the count, and between them the weight falls.
  induction count using Nat.strong_induction_on
    generalizing κ state with
  | _ count ihCount =>
      induction hWeight : Equation.weight state.pending
        using Nat.strong_induction_on generalizing state with
      | _ weight ihWeight =>
          cases hTurn : turn state with
          | stop result =>
              refine ⟨1, ?_⟩
              simp only [runFor, hTurn,
                solve_of_stop hTurn count]
          | simplify next =>
              have hLighter := weight_of_simplify hTurn
              rw [hWeight] at hLighter
              rcases ihWeight _ hLighter
                  (scoped_of_simplify hScoped hTurn)
                  (le_trans (nameCount_of_simplify hTurn) hCount)
                  rfl with
                ⟨n, hRun⟩
              refine ⟨n + 1, ?_⟩
              rw [solve_of_simplify hTurn count]
              simp only [runFor, hTurn, hRun]
          | record next =>
              rcases nameCount_of_record hScoped hTurn with
                ⟨hFewer, κ', hNext⟩
              have hLess :
                  Equation.nameCount next.pending < count :=
                lt_of_lt_of_le hFewer hCount
              cases count with
              | zero => exact absurd hLess (Nat.not_lt_zero _)
              | succ count =>
                  rcases ihCount count (Nat.lt_succ_self count)
                      hNext (Nat.le_of_lt_succ hLess) with
                    ⟨n, hRun⟩
                  refine ⟨n + 1, ?_⟩
                  rw [solve_of_record hTurn count]
                  simp only [runFor, hTurn, hRun]

end Unify

/-
  The loop of the solver ends after finitely many turns, with
  what unification returns.  At every state that it comes to,
  recording bindings lowers the number of names in the work
  list, and simplifying does not raise it and makes the work
  list lighter.
-/
theorem unify_terminates
    {eqs : List Equation}
    {state : Unify.State}
    (hEqs : ∀ e ∈ eqs, Equation.WellFormed e)
    (hStart : Unify.start eqs = .ok state) :
    (∃ n, Unify.runFor n state = some (unify eqs)) ∧
      ∀ now next, Relation.ReflTransGen Unify.Leads state now →
        (Unify.turn now = .record next →
          Equation.nameCount next.pending <
            Equation.nameCount now.pending) ∧
        (Unify.turn now = .simplify next →
          Equation.nameCount next.pending ≤
              Equation.nameCount now.pending ∧
            Equation.weight next.pending <
              Equation.weight now.pending) := by
  rcases Unify.start_ok (Equation.within_of_wellFormed hEqs)
      hStart with
    ⟨κ, hScoped, _⟩
  constructor
  · have hUnify :
        unify eqs =
          Unify.solve (Equation.nameCount state.pending)
            state := by
      unfold unify
      rw [hStart]
      rfl
    rw [hUnify]
    exact Unify.exists_runFor hScoped (le_refl _)
  · intro now next hRun
    rcases Unify.exists_scoped_of_leads hScoped hRun with
      ⟨κ', hNow⟩
    constructor
    · intro hRecord
      exact (Unify.nameCount_of_record hNow hRecord).1
    · intro hSimplify
      exact
        ⟨Unify.nameCount_of_simplify hSimplify,
          Unify.weight_of_simplify hSimplify⟩

/-
  The equations of a quantity, with the number at its least
  kind.  The ground quantity is decomposed into itself and the
  parts that it does not have.
-/
def quantityStart : Unify.State :=
  ⟨[(some
        (.app .quantity
          [some (.var ⟨"n", .quantity⟩),
            some (.var ⟨"unit", .item⟩), none, none]),
      some (.ground oneAndAHalf)),
    (some (.var ⟨"n", .quantity⟩),
      some
        (.ground
          (.value (.quantity ⟨⟨15, 1⟩, none, none, none⟩))))],
    ⟨[(⟨"n", .value⟩, some (.var ⟨"n", .quantity⟩))]⟩⟩

theorem unify_terminates_quantityEquations :
    Unify.start quantityEquations = .ok quantityStart ∧
      (∃ n,
        Unify.runFor n quantityStart =
          some (unify quantityEquations)) ∧
      ∀ now next,
        Relation.ReflTransGen Unify.Leads quantityStart now →
          (Unify.turn now = .record next →
            Equation.nameCount next.pending <
              Equation.nameCount now.pending) ∧
          (Unify.turn now = .simplify next →
            Equation.nameCount next.pending ≤
                Equation.nameCount now.pending ∧
              Equation.weight next.pending <
                Equation.weight now.pending) := by
  have hStart :
      Unify.start quantityEquations = .ok quantityStart := rfl
  refine ⟨hStart, unify_terminates ?_ hStart⟩
  intro e he
  rcases List.mem_pair.mp he with rfl | rfl
  · rintro t (ht | ht) <;> cases ht <;> decide
  · rintro t (ht | ht) <;> cases ht <;> decide

end StatementQuery
