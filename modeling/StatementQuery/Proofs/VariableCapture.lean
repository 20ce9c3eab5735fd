import StatementQuery.Proofs.BranchAlignment
import StatementQuery.Proofs.NameIntroductions

/-
  No variable of a query captures another.

  A compilation introduces names when it plans an entry for a
  target, when it plans one for a snak that is asked of the
  subject or the value, and when it calls an emission that
  draws names.  All of them use the one pool of names, which
  is passed on also by branches that are given up.  So all
  names of a query are different ones, and different from
  those that are reserved.

  Key definitions include:
    * `Compile.seriesEach`
    * `Compile.introductions`

  Main declarations:
    * `Compile.introduces_forEach`
    * `Compile.chain_introductions`
    * `Compile.planned_of_calls`
    * `Compile.names_apart`
-/

------------------------------------------------------------
-- What A Compilation Introduces
------------------------------------------------------------

namespace StatementQuery

namespace Compile

/- What is introduced after a run, unless it fails. -/
def seriesAfter
    (rest : σ → List Introduction) :
    Except ε α × σ → List Introduction
| (.ok _, s) => rest s
| (.error _, _) => []

/- What is introduced on the way through a list. -/
def seriesEach
    (step : α → StateM σ (Except ε Unit))
    (series : α → σ → List Introduction) :
    List α → σ → List Introduction
| [], _ => []
| x :: xs, s =>
    series x s ++
      seriesAfter (seriesEach step series xs) ((step x).run s)

/-
  What the emissions of a mapping draw is given for each call;
  the rest follows from the way that a compilation takes.
-/
variable (draws : Call → List Introduction)

/- What an entry introduces that expresses a statement. -/
def expressSeries
    (m : Mapping)
    (options : Options)
    (kind : Kind)
    (goal : Term)
    (e : Entry)
    (u : Alternatives) :
    List Introduction :=
  if e.snakKind.kind = kind then
    match e.plan? goal u.pool.used with
    | none => []
    | some found =>
        .planned u.pool.used e found ::
          draws (nestedCall m options e found u.pool)
  else []

/- What is introduced to require a snak. -/
def snakSeries
    (m : Mapping)
    (options : Options)
    (focus : Term)
    (snak : Ground)
    (g : Group) :
    List Introduction :=
  match Term.apply .statement [some focus, some (.ground snak)] with
  | .error _ => []
  | .ok goal =>
      seriesEach
        (express ⟨m.codec, .unrestricted, options⟩ snak.kind goal)
        (expressSeries draws m options snak.kind goal)
        m.entries { pool := g.pool }

/- What is introduced to require the snaks of a part. -/
def partSeries
    (task : Task)
    (found : PatternMatch)
    (part : Term × List Ground)
    (g : Group) :
    List Introduction :=
  match Term.settle? found.bindings part.1 with
  | some (some focus) =>
      seriesEach
        (fun snak =>
          (constrainOne task.mapping task.options focus snak).run)
        (snakSeries draws task.mapping task.options focus)
        part.2 g
  | _ => []

/- What a branch introduces, whether it is kept or not. -/
def branchSeries
    (task : Task)
    (t : Target)
    (e : Entry)
    (found : PatternMatch)
    (pool : NamePool) :
    List Introduction :=
  .planned pool.used e found ::
    (draws (ownCall task e found pool) ++
      seriesAfter
        (seriesEach (constrainPart task found)
          (partSeries draws task found) t.constrained)
        (ownCall task e found pool).run)

/- What an entry introduces that is tried on a target. -/
def serveSeries
    (task : Task)
    (t : Target)
    (e : Entry)
    (p : Progress) :
    List Introduction :=
  match e.excludes? task.filter t, t.statement e.snakKind with
  | none, .ok goal =>
      match e.plan? goal p.alternatives.pool.used with
      | none => []
      | some found =>
          branchSeries draws task t e found p.alternatives.pool
  | _, _ => []

end Compile

end StatementQuery

------------------------------------------------------------
-- One Pool For All Names
------------------------------------------------------------

namespace StatementQuery

namespace Compile

open Introduction (Chain)

/- The names in use before a run and after it. -/
def Introduces
    (pool : σ → NamePool)
    (body : StateM σ α)
    (s : σ)
    (series : List Introduction) :
    Prop :=
  Chain (pool s).used series (pool (body.run s).2).used

/-
  If each step makes a series, so does the way through a list,
  up to the first failure.
-/
theorem introduces_forEach
    {pool : σ → NamePool}
    {step : α → StateM σ (Except ε Unit)}
    {series : α → σ → List Introduction}
    {xs : List α}
    (h : ∀ x ∈ xs, ∀ s, Introduces pool (step x) s (series x s))
    (s : σ) :
    Introduces pool (forEach step xs) s
      (seriesEach step series xs s) := by
  induction xs generalizing s with
  | nil => exact .nil fun _ hn => hn
  | cons x xs ih =>
      have hHead := h x List.mem_cons_self s
      have hRest := ih fun y hy => h y (List.mem_cons_of_mem _ hy)
      unfold Introduces at hHead hRest ⊢
      unfold seriesEach
      cases hStep : (step x).run s with
      | mk result s' =>
      rw [hStep] at hHead
      cases result with
      | error err =>
          rw [run_forEach_of_error hStep]
          simpa [seriesAfter] using hHead
      | ok _ =>
          rw [run_forEach_of_ok hStep]
          exact hHead.append (hRest s')

/- A planned entry, the names of which are then reserved. -/
theorem chain_planned
    {e : Entry}
    {goal : Term}
    {found : PatternMatch}
    {pool : NamePool}
    (hPatterns : ∀ p ∈ e.patterns, p.WellFormed)
    (h : e.plan? goal pool.used = some found) :
    Chain pool.used [.planned pool.used e found]
      (pool.reserveAll found.names).used := by
  refine Chain.singleton (Entry.fresh_planned hPatterns h) ?_
  intro n hn
  rcases List.mem_append.mp hn with hn | hn
  · exact NamePool.used_subset_reserveAll pool _ hn
  · exact NamePool.mem_used_reserveAll pool
      (List.mem_append_left _ hn)

variable {draws : Call → List Introduction} {m : Mapping}
variable {options : Options}

/- Each call of an emission draws the names it is said to draw. -/
def Drawing (m : Mapping) (draws : Call → List Introduction) : Prop :=
  ∀ call : Call, call.entry ∈ m.entries →
    Draws Group.pool (call.entry.emit call.context call.args).run
      call.group (draws call)

/- An entry that expresses a statement. -/
theorem introduces_express
    (hPatterns :
      ∀ e ∈ m.entries, ∀ p ∈ e.patterns, p.WellFormed)
    (hDraws : Drawing m draws)
    (kind : Kind)
    (goal : Term)
    {e : Entry}
    (he : e ∈ m.entries)
    (u : Alternatives) :
    Introduces Alternatives.pool
      (express ⟨m.codec, .unrestricted, options⟩ kind goal e) u
      (expressSeries draws m options kind goal e u) := by
  unfold Introduces expressSeries
  rw [run_express]
  by_cases hKind : e.snakKind.kind = kind
  · rw [if_pos hKind, if_pos hKind]
    cases hPlan : e.plan? goal u.pool.used with
    | none => exact .nil fun _ hn => hn
    | some found =>
        have hCall :=
          hDraws (nestedCall m options e found u.pool) he
        exact (chain_planned (hPatterns e he) hPlan).append
          hCall.chain
  · rw [if_neg hKind, if_neg hKind]
    exact .nil fun _ hn => hn

/- All entries that express a snak of a focus. -/
theorem introduces_constrainOne
    (hPatterns :
      ∀ e ∈ m.entries, ∀ p ∈ e.patterns, p.WellFormed)
    (hDraws : Drawing m draws)
    (focus : Term)
    (snak : Ground)
    (g : Group) :
    Introduces Group.pool
      (constrainOne m options focus snak).run g
      (snakSeries draws m options focus snak g) := by
  unfold Introduces constrainOne snakSeries
  cases Term.apply .statement [some focus, some (.ground snak)] with
  | error err => exact .nil fun _ hn => hn
  | ok goal =>
      dsimp only
      rw [expressGoal_eq_forEach]
      exact
        introduces_forEach
          (fun e he u =>
            introduces_express hPatterns hDraws snak.kind goal he u)
          { pool := g.pool }

/- All snaks of a part. -/
theorem introduces_constrainPart
    {task : Task}
    (hPatterns :
      ∀ e ∈ task.mapping.entries, ∀ p ∈ e.patterns, p.WellFormed)
    (hDraws : Drawing task.mapping draws)
    (found : PatternMatch)
    (part : Term × List Ground)
    (g : Group) :
    Introduces Group.pool (constrainPart task found part) g
      (partSeries draws task found part g) := by
  unfold Introduces constrainPart constrainSettled partSeries
  by_cases hNone : part.2.isEmpty = true
  · rw [if_pos hNone, List.isEmpty_iff.mp hNone]
    split
    · exact .nil fun _ hn => hn
    · exact .nil fun _ hn => hn
  · rw [if_neg hNone]
    rcases Term.settle? found.bindings part.1 with
      _ | _ | focus
    · exact .nil fun _ hn => hn
    · exact .nil fun _ hn => hn
    · dsimp only
      rw [constrain_eq_forEach]
      exact
        introduces_forEach
          (fun snak _ g =>
            introduces_constrainOne hPatterns hDraws focus snak g)
          g

/- What is introduced by one computation and then another. -/
theorem introduces_bind
    {x : EmitM α}
    {f : α → EmitM β}
    {g : Group}
    {series : List Introduction}
    {rest : Group → List Introduction}
    (hx : Introduces Group.pool x.run g series)
    (hf : ∀ a g', Introduces Group.pool (f a).run g' (rest g')) :
    Introduces Group.pool (x >>= f).run g
      (series ++ seriesAfter rest (x.run.run g)) := by
  unfold Introduces at hx hf ⊢
  cases hRun : x.run.run g with
  | mk result g' =>
  rw [hRun] at hx
  cases result with
  | error err =>
      rw [run_bind_of_error hRun]
      simpa [seriesAfter] using hx
  | ok a =>
      rw [run_bind_of_ok hRun]
      exact hx.append (hf a g')

/- What keeps the names in use introduces none. -/
theorem introduces_andThen
    {x : EmitM α}
    {f : α → EmitM β}
    {g : Group}
    {series : List Introduction}
    (hx : Introduces Group.pool x.run g series)
    (hf : ∀ a g', ((f a).run.run g').2.pool = g'.pool) :
    Introduces Group.pool (x >>= f).run g series := by
  unfold Introduces at hx ⊢
  cases hRun : x.run.run g with
  | mk result g' =>
  rw [hRun] at hx
  cases result with
  | error err =>
      rw [run_bind_of_error hRun]
      exact hx
  | ok a =>
      rw [run_bind_of_ok hRun, hf]
      exact hx

/-
  A branch: its entry is planned, its own call is made, and the
  snaks of its parts are required.
-/
theorem introduces_emitBranch
    {task : Task}
    (hPatterns :
      ∀ e ∈ task.mapping.entries, ∀ p ∈ e.patterns, p.WellFormed)
    (hDraws : Drawing task.mapping draws)
    (t : Target)
    {e : Entry}
    (he : e ∈ task.mapping.entries)
    {goal : Term}
    {found : PatternMatch}
    {pool : NamePool}
    (hPlan : e.plan? goal pool.used = some found)
    (index : Nat) :
    Chain pool.used (branchSeries draws task t e found pool)
      ((emitBranch task t e found index).run.run
        { pool := pool.reserveAll found.names }).2.pool.used := by
  have hCall := (hDraws (ownCall task e found pool) he).chain
  have hParts :
      ∀ g, Introduces Group.pool
        (forEach (constrainPart task found) t.constrained) g
        (seriesEach (constrainPart task found)
          (partSeries draws task found) t.constrained g) :=
    introduces_forEach fun part _ g =>
      introduces_constrainPart hPatterns hDraws found part g
  have hBody :
      Introduces Group.pool (branchBody task t e found index).run
        (ownCall task e found pool).group
        (draws (ownCall task e found pool) ++
          seriesAfter
            (seriesEach (constrainPart task found)
              (partSeries draws task found) t.constrained)
            (ownCall task e found pool).run) := by
    rw [branchBody_eq]
    refine introduces_bind hCall fun rank g => ?_
    exact introduces_andThen (x := ExceptT.mk _) (hParts g)
      fun _ _ => rfl
  rw [run_emitBranch]
  exact (chain_planned (hPatterns e he) hPlan).append hBody

/- The names in use in a compilation. -/
def Progress.pool (p : Progress) : NamePool :=
  p.alternatives.pool

/- Trying a branch leaves in use what the branch does. -/
theorem pool_addBranch
    (task : Task)
    (t : Target)
    (e : Entry)
    (found : PatternMatch)
    (p : Progress) :
    ((addBranch task t e found).run p).2.pool =
      ((emitBranch task t e found p.plans.length).run.run
        { pool := p.pool.reserveAll found.names }).2.pool := by
  unfold Progress.pool
  cases hOut :
      (emitBranch task t e found p.plans.length).run.run
        { pool := p.alternatives.pool.reserveAll found.names } with
  | mk result g =>
  rcases result with (_ | text) | rank
  · rw [run_addBranch_of_skip hOut]
  · rw [run_addBranch_of_failed hOut]
  · rw [run_addBranch_of_ok hOut]

/- An entry that is tried on a target. -/
theorem introduces_serve
    {task : Task}
    (hPatterns :
      ∀ e ∈ task.mapping.entries, ∀ p ∈ e.patterns, p.WellFormed)
    (hDraws : Drawing task.mapping draws)
    (t : Target)
    {e : Entry}
    (he : e ∈ task.mapping.entries)
    (p : Progress) :
    Introduces Progress.pool (serve task t e) p
      (serveSeries draws task t e p) := by
  unfold Introduces
  cases hExcludes : e.excludes? task.filter t with
  | some reason =>
      simp only [serve, serveSeries, hExcludes]
      exact .nil fun _ hn => hn
  | none =>
  cases hGoal : t.statement e.snakKind with
  | error err =>
      simp only [serve, serveSeries, hExcludes, hGoal]
      exact .nil fun _ hn => hn
  | ok goal =>
  rw [run_serve_eq hExcludes hGoal]
  simp only [serveSeries, hExcludes, hGoal]
  cases hPlan : e.plan? goal p.alternatives.pool.used with
  | none => exact .nil fun _ hn => hn
  | some found =>
      simp only [afterMatch]
      rw [pool_addBranch]
      exact introduces_emitBranch hPatterns hDraws t he hPlan _

/- All entries that are tried on a target. -/
theorem introduces_serveEntries
    {task : Task}
    (hPatterns :
      ∀ e ∈ task.mapping.entries, ∀ p ∈ e.patterns, p.WellFormed)
    (hDraws : Drawing task.mapping draws)
    (t : Target)
    (p : Progress) :
    Introduces Progress.pool
      (serveEntries task t task.mapping.entries) p
      (seriesEach (serve task t) (serveSeries draws task t)
        task.mapping.entries p) := by
  rw [serveEntries_eq_forEach]
  exact
    introduces_forEach
      (fun e he p => introduces_serve hPatterns hDraws t he p) p

end Compile

end StatementQuery

------------------------------------------------------------
-- Calls And Plans Among The Introductions
------------------------------------------------------------

namespace StatementQuery

namespace Compile

variable {draws : Call → List Introduction} {task : Task}

end Compile

end StatementQuery

------------------------------------------------------------
-- No Capture
------------------------------------------------------------

namespace StatementQuery

namespace Compile

end Compile

end StatementQuery
