import Mathlib.Data.List.ProdSigma
import StatementQuery.Proofs.CompileFailures
import StatementQuery.Proofs.DecodedStatements

/-
  Branches and plans of a compilation, side by side.

  A compilation adds a branch to its query and a plan to its
  plans in one step or does neither.  So they stand in the
  same order, which is that of the targets and, for a target,
  of the entries, and the branch at an index ends by binding
  the branch variable to that index.

  Key definitions include:
    * `Compile.Addition`
    * `Compile.Made`
    * `Compile.Adds`

  Main declarations:
    * `Compile.exists_of_emitBranch`
    * `Compile.adds_serveTargets`
    * `Compile.exists_additions`
    * `Compile.branches_aligned`
-/

------------------------------------------------------------
-- Branches That Are Kept
------------------------------------------------------------

namespace StatementQuery

namespace Compile

/- A branch that was kept, with all that went into it. -/
structure Addition where
  target : Target
  entry : Entry
  /- The names in use before the match was made. -/
  pool : NamePool
  found : PatternMatch
  rank : Option String
  /- The group that holds the patterns of the branch. -/
  group : Group

namespace Addition

/- The plan of a branch. -/
def plan (a : Addition) : BranchPlan :=
  planOf a.entry a.found a.rank

/- The patterns of a branch. -/
def branch (a : Addition) : List Pattern :=
  a.group.patterns

/- The target that a branch is for, and the entry. -/
def key (a : Addition) : Target × Entry :=
  (a.target, a.entry)

end Addition

/- A branch that a compilation makes, at an index. -/
structure Made (task : Task) (index : Nat) (a : Addition) : Prop where
  admitted : a.entry.excludes? task.filter a.target = none
  plan :
    ∃ goal,
      a.target.statement a.entry.snakKind = .ok goal ∧
        a.entry.plan? goal a.pool.used = some a.found
  emitted :
    (emitBranch task a.target a.entry a.found index).run.run
        { pool := a.pool.reserveAll a.found.names } =
      (.ok a.rank, a.group)

/- What a compilation makes is a plan of its target and entry. -/
theorem Made.arisesFrom
    {task : Task}
    {index : Nat}
    {a : Addition}
    (h : Made task index a) :
    ArisesFrom task a.target a.entry a.plan := by
  rcases h.plan with ⟨goal, hGoal, hFound⟩
  exact
    ⟨h.admitted, goal, a.pool.used, a.found, a.rank, hGoal,
      hFound, rfl⟩

/- A computation goes on from what its first part leaves. -/
theorem run_bind_of_ok
    {x : EmitM α}
    {f : α → EmitM β}
    {g g' : Group}
    {a : α}
    (h : x.run.run g = (.ok a, g')) :
    (x >>= f).run.run g = (f a).run.run g' := by
  have hRun :
      (x >>= f).run.run g =
        (ExceptT.bindCont f (x.run.run g).1).run
          (x.run.run g).2 := rfl
  rw [hRun, h]
  rfl

/- A computation ends where its first part is given up. -/
theorem run_bind_of_error
    {x : EmitM α}
    {f : α → EmitM β}
    {g g' : Group}
    {err : EntryError}
    (h : x.run.run g = (.error err, g')) :
    (x >>= f).run.run g = (.error err, g') := by
  have hRun :
      (x >>= f).run.run g =
        (ExceptT.bindCont f (x.run.run g).1).run
          (x.run.run g).2 := rfl
  rw [hRun, h]
  rfl

/- A computation succeeds if both of its parts do. -/
theorem exists_of_run_bind_ok
    {x : EmitM α}
    {f : α → EmitM β}
    {g g'' : Group}
    {b : β}
    (h : (x >>= f).run.run g = (.ok b, g'')) :
    ∃ a g', x.run.run g = (.ok a, g') ∧
      (f a).run.run g' = (.ok b, g'') := by
  cases hx : x.run.run g with
  | mk result g' =>
  cases result with
  | error err =>
      rw [run_bind_of_error hx] at h
      cases h
  | ok a =>
      rw [run_bind_of_ok hx] at h
      exact ⟨a, g', rfl, h⟩

/- The snaks of the parts are required one part after another. -/
theorem constrainParts_eq
    (task : Task)
    (t : Target)
    (found : PatternMatch) :
    (do
        constrainSettled task.mapping task.options found.bindings
          t.subject t.subjectSnaks
        constrainSettled task.mapping task.options found.bindings
          t.value t.valueSnaks : EmitM Unit) =
      ExceptT.mk
        (forEach (constrainPart task found) t.constrained) := by
  apply ExceptT.ext
  rw [ExceptT.run_bind]
  unfold Target.constrained
  rw [forEach]
  congr 1
  funext result
  cases result with
  | error err => rfl
  | ok _ =>
      apply StateT.ext
      intro g
      have hLast :
          (forEach (constrainPart task found)
              [(t.value, t.valueSnaks)]).run g =
            (constrainPart task found
              (t.value, t.valueSnaks)).run g := by
        rw [forEach, StateT.run_bind]
        rcases
          (constrainPart task found (t.value, t.valueSnaks)).run g
          with ⟨_ | _, g'⟩ <;> rfl
      exact hLast.symm

/-
  A branch is what its own call writes, then the snaks asked of
  the parts, then the index.
-/
theorem branchBody_eq
    (task : Task)
    (t : Target)
    (e : Entry)
    (found : PatternMatch)
    (index : Nat) :
    branchBody task t e found index =
      (do
        let rank ←
          e.emit ⟨task.mapping.codec, task.filter, task.options⟩
            found.args
        ExceptT.mk
          (forEach (constrainPart task found) t.constrained)
        Group.bindAs (.node (.integer index))
          (.var task.options.branchVariable)
        pure rank) := by
  unfold branchBody
  congr 1
  funext rank
  rw [← constrainParts_eq, bind_assoc]

/- A branch succeeds if each of its steps does. -/
theorem exists_of_emitBranch
    {task : Task}
    {t : Target}
    {e : Entry}
    {found : PatternMatch}
    {index : Nat}
    {pool : NamePool}
    {rank : Option String}
    {g : Group}
    (h :
      (emitBranch task t e found index).run.run
          { pool := pool.reserveAll found.names } =
        (.ok rank, g)) :
    ∃ own last,
      (ownCall task e found pool).run = (.ok rank, own) ∧
        (forEach (constrainPart task found) t.constrained).run
            own = (.ok (), last) ∧
        g.patterns =
          last.patterns ++
            [.bind (.node (.integer index))
              task.options.branchVariable] := by
  rw [run_emitBranch, branchBody_eq] at h
  rcases exists_of_run_bind_ok h with ⟨rank', own, hOwn, h⟩
  rcases exists_of_run_bind_ok h with ⟨_, last, hParts, h⟩
  cases h
  exact ⟨own, last, hOwn, hParts, rfl⟩

/- A branch ends with its index. -/
theorem Made.getLast?_branch
    {task : Task}
    {index : Nat}
    {a : Addition}
    (h : Made task index a) :
    a.branch.getLast? =
      some
        (.bind (.node (.integer index))
          task.options.branchVariable) := by
  rcases exists_of_emitBranch h.emitted with
    ⟨own, last, _, _, hPatterns⟩
  unfold Addition.branch
  rw [hPatterns, List.getLast?_concat]

end Compile

end StatementQuery

------------------------------------------------------------
-- Adding Branches And Plans
------------------------------------------------------------

namespace StatementQuery

namespace Compile

/-
  A computation adds branches and plans side by side, for some
  of the given targets and entries and in their order.
-/
def Adds
    (task : Task)
    (keys : List (Target × Entry))
    (body : CompileM α) :
    Prop :=
  ∀ p : Progress,
    p.alternatives.branches.length = p.plans.length →
      ∃ added : List Addition,
        (body.run p).2.plans =
            p.plans ++ added.map Addition.plan ∧
          (body.run p).2.alternatives.branches =
            p.alternatives.branches ++
              added.map Addition.branch ∧
          (∀ k a, added[k]? = some a →
            Made task (p.plans.length + k) a) ∧
          (added.map Addition.key).Sublist keys

namespace Adds

variable {task : Task} {keys keys' : List (Target × Entry)}

/- What changes neither branches nor plans adds none. -/
theorem of_keeps
    {body : CompileM α}
    (hPlans : ∀ p, (body.run p).2.plans = p.plans)
    (hBranches :
      ∀ p, (body.run p).2.alternatives.branches =
        p.alternatives.branches) :
    Adds task keys body := by
  intro p _
  refine ⟨[], ?_, ?_, ?_, List.nil_sublist keys⟩
  · rw [hPlans p, List.map_nil, List.append_nil]
  · rw [hBranches p, List.map_nil, List.append_nil]
  · intro k a hAt
    cases hAt

theorem pure (a : α) : Adds task keys (Pure.pure a : CompileM α) :=
  of_keeps (fun _ => rfl) (fun _ => rfl)

/- What is passed over adds nothing. -/
theorem record
    (event : CompileEvent) :
    Adds task keys
      (do
        Compile.record event
        Pure.pure (.ok ()) :
          CompileM (Except CompileError Unit)) :=
  of_keeps (fun _ => rfl) (fun _ => rfl)

/- What is added first stands first. -/
theorem bind
    {body : CompileM α}
    {next : α → CompileM β}
    (h : Adds task keys body)
    (h' : ∀ a, Adds task keys' (next a)) :
    Adds task (keys ++ keys') (body >>= next) := by
  intro p hAligned
  rcases h p hAligned with
    ⟨added, hPlans, hBranches, hMade, hKeys⟩
  have hAligned' :
      (body.run p).2.alternatives.branches.length =
        (body.run p).2.plans.length := by
    simp [hPlans, hBranches, hAligned]
  rcases h' (body.run p).1 (body.run p).2 hAligned' with
    ⟨added', hPlans', hBranches', hMade', hKeys'⟩
  refine ⟨added ++ added', ?_, ?_, ?_, ?_⟩
  · rw [List.map_append, ← List.append_assoc, ← hPlans]
    exact hPlans'
  · rw [List.map_append, ← List.append_assoc, ← hBranches]
    exact hBranches'
  · intro k a hAt
    rcases Nat.lt_or_ge k added.length with hk | hk
    · rw [List.getElem?_append_left hk] at hAt
      exact hMade k a hAt
    · rw [List.getElem?_append_right hk] at hAt
      have hIndex :
          (body.run p).2.plans.length + (k - added.length) =
            p.plans.length + k := by
        rw [hPlans, List.length_append, List.length_map]
        omega
      exact hIndex ▸ hMade' _ a hAt
  · rw [List.map_append]
    exact hKeys.append hKeys'

/- One computation after another that does not fail. -/
theorem andThen
    {body next : CompileM (Except CompileError Unit)}
    (h : Adds task keys body)
    (h' : Adds task keys' next) :
    Adds task (keys ++ keys')
      (do
        match ← body with
        | .ok () => next
        | .error err => Pure.pure (.error err)) := by
  apply h.bind
  intro result
  cases result with
  | ok _ => exact h'
  | error err => exact .pure _

end Adds

/- An entry that is tried on a target adds one branch or none. -/
theorem adds_serve
    (task : Task)
    (t : Target)
    (e : Entry) :
    Adds task [(t, e)] (serve task t e) := by
  intro p hAligned
  cases hExcludes : e.excludes? task.filter t with
  | some reason =>
      unfold serve
      rw [hExcludes]
      exact Adds.record (.skipped e.id reason) p hAligned
  | none =>
  cases hGoal : t.statement e.snakKind with
  | error err =>
      unfold serve
      rw [hExcludes, hGoal]
      exact Adds.pure (Except.error (CompileError.term err)) p hAligned
  | ok goal =>
  rw [run_serve_eq hExcludes hGoal]
  cases hFound : e.plan? goal p.alternatives.pool.used with
  | none => exact Adds.record (.skipped e.id .noPattern) p hAligned
  | some found =>
  obtain ⟨result, g, hRun⟩ :
      ∃ result g,
        (emitBranch task t e found p.plans.length).run.run
            { pool :=
                p.alternatives.pool.reserveAll found.names } =
          (result, g) := ⟨_, _, rfl⟩
  simp only [afterMatch]
  cases result with
  | ok rank =>
      rw [run_addBranch_of_ok hRun]
      refine
        ⟨[⟨t, e, p.alternatives.pool, found, rank, g⟩], rfl, rfl,
          ?_, List.Sublist.refl _⟩
      intro k a hAt
      rcases List.getElem?_eq_some_iff.mp hAt with ⟨hk, rfl⟩
      obtain rfl : k = 0 := Nat.lt_one_iff.mp hk
      exact ⟨hExcludes, ⟨goal, hGoal, hFound⟩, hRun⟩
  | error err =>
      -- The names of the branch stay in use; nothing else does.
      cases err with
      | skip =>
          rw [run_addBranch_of_skip hRun]
          exact
            Adds.record (.skipped e.id .emission)
              { p with
                alternatives :=
                  ⟨g.pool, p.alternatives.branches⟩ }
              hAligned
      | failed text =>
          rw [run_addBranch_of_failed hRun]
          exact
            Adds.pure (Except.error (CompileError.entry e.id text))
              { p with
                alternatives :=
                  ⟨g.pool, p.alternatives.branches⟩ }
              hAligned

/- Entries add their branches in their order. -/
theorem adds_serveEntries
    (task : Task)
    (t : Target)
    (es : List Entry) :
    Adds task (es.map fun e => (t, e)) (serveEntries task t es) := by
  induction es with
  | nil => exact .pure _
  | cons e es ih => exact (adds_serve task t e).andThen ih

/- Targets get their branches in their order. -/
theorem adds_serveTargets
    (task : Task)
    (ts : List Target) :
    Adds task (ts ×ˢ task.mapping.entries)
      (serveTargets task ts) := by
  induction ts with
  | nil => exact .pure _
  | cons t ts ih =>
      rw [List.product_cons]
      exact (adds_serveEntries task t _).andThen ih

/-
  A compiled query has the branches that were kept, each with
  its plan, in the order of targets and entries.
-/
theorem exists_additions
    {m : Mapping}
    {options : Options}
    {f : Filter}
    {q : CompiledQuery}
    (h : (compile m options f).result = .ok q) :
    ∃ added : List Addition,
      q.plans = added.map Addition.plan ∧
        q.query.patterns =
          [Alternatives.pattern (added.map Addition.branch)] ∧
        q.branchVariable = options.branchVariable ∧
        (∀ k a, added[k]? = some a →
          Made ⟨m, options, f⟩ k a) ∧
        (added.map Addition.key).Sublist
          (Target.all m.codec f ×ˢ m.entries) := by
  rcases exists_of_result_compile h with ⟨p, hRun, rfl⟩
  have hAdds :
      Adds ⟨m, options, f⟩ (Target.all m.codec f ×ˢ m.entries)
        (serveFilter ⟨m, options, f⟩) := by
    unfold serveFilter
    split
    · exact .record _
    · have hStart :
          Adds ⟨m, options, f⟩ []
            (record
              (.started (Target.all m.codec f).length
                m.entries.length)) :=
        .of_keeps (fun _ => rfl) (fun _ => rfl)
      exact hStart.bind fun _ => adds_serveTargets ⟨m, options, f⟩ _
  rcases hAdds (start options) rfl with
    ⟨added, hPlans, hBranches, hMade, hKeys⟩
  rw [hRun] at hPlans hBranches
  refine ⟨added, hPlans, ?_, rfl, ?_, hKeys⟩
  · exact congrArg (fun bs => [Alternatives.pattern bs]) hBranches
  · intro k a hAt
    simpa [start] using hMade k a hAt

end Compile

end StatementQuery

------------------------------------------------------------
-- Branches, Markers And Plans
------------------------------------------------------------

namespace StatementQuery

namespace Mapping

/- Entries are numbered in the order of their registration. -/
theorem map_id_of_entriesFrom
    {index : Nat}
    {registrations : List Registration}
    {entries : List Entry}
    (h : entriesFrom index registrations = .ok entries) :
    entries.map Entry.id = List.range' index entries.length := by
  induction registrations generalizing index entries with
  | nil =>
      cases h
      rfl
  | cons r rs ih =>
      rcases exists_of_bind_eq_ok h with ⟨first, hFirst, h⟩
      rcases exists_of_bind_eq_ok h with ⟨rest, hRest, h⟩
      cases h
      rcases exists_of_bind_eq_ok hFirst with ⟨s, _, hEntry⟩
      cases hEntry
      rw [List.map_cons, ih hRest, List.length_cons,
        List.range'_succ]

/- Entries that come later have greater numbers. -/
theorem pairwise_id_of_build
    {codec : Codec}
    {registrations : List Registration}
    {m : Mapping}
    (h : build codec registrations = .ok m) :
    m.entries.Pairwise fun e e' => e.id < e'.id := by
  rcases exists_of_bind_eq_ok h with ⟨entries, hEntries, h⟩
  cases h
  rw [← List.pairwise_map (f := Entry.id) (R := (· < ·)),
    map_id_of_entriesFrom hEntries]
  exact List.pairwise_lt_range'

end Mapping

namespace Target

/- The target of a combination of three alternatives. -/
def ofCombination
    (codec : Codec)
    (c : Alternative × Alternative × Alternative) :
    Target :=
  ofAlternatives codec c.1 c.2.1 c.2.2

/- The targets of a filter are those of all combinations. -/
theorem all_eq_map
    (codec : Codec)
    (f : Filter) :
    all codec f =
      (f.subject.alternatives ×ˢ
        f.property.alternatives ×ˢ f.value.alternatives).map
        (ofCombination codec) := by
  simp only [all, SProd.sprod, List.product, List.map_flatMap,
    List.map_map]
  rfl

/- A product of images has the images of the pairs. -/
theorem map_product
    (g : α → β)
    (xs : List α)
    (ys : List γ) :
    xs.map g ×ˢ ys =
      (xs ×ˢ ys).map fun pair => (g pair.1, pair.2) := by
  simp only [SProd.sprod, List.product, List.flatMap_map,
    List.map_flatMap, List.map_map]
  rfl

end Target

namespace Compile

/-
  The branches of a query and its plans are as many; each
  branch ends with its index; and the plans are in the order of
  the combinations of alternatives and, for a combination, of
  the numbers of the entries.
-/
theorem branches_aligned
    {codec : Codec}
    {registrations : List Registration}
    {m : Mapping}
    (hMapping : Mapping.build codec registrations = .ok m)
    {options : Options}
    {f : Filter}
    {q : CompiledQuery}
    (h : (compile m options f).result = .ok q) :
    (q.plans = [] → q.query.patterns = [.filter (.bool false)]) ∧
      (q.plans ≠ [] →
        ∃ branches : List (List Pattern),
          q.query.patterns = [.union branches] ∧
            branches.length = q.plans.length ∧
            ∀ (k : Nat) branch, branches[k]? = some branch →
              branch.getLast? =
                some
                  (.bind (.node (.integer k))
                    q.branchVariable)) ∧
      (m.entries.Pairwise fun e e' => e.id < e'.id) ∧
      ∃ served :
          List
            ((Alternative × Alternative × Alternative) × Entry),
        served.Sublist
            ((f.subject.alternatives ×ˢ
              f.property.alternatives ×ˢ
                f.value.alternatives) ×ˢ m.entries) ∧
          List.Forall₂
            (fun key plan =>
              plan.entryId = key.2.id ∧
                ArisesFrom ⟨m, options, f⟩
                  (.ofCombination m.codec key.1) key.2 plan)
            served q.plans := by
  rcases exists_additions h with
    ⟨added, hPlans, hPatterns, hVariable, hMade, hKeys⟩
  refine ⟨?_, ?_, Mapping.pairwise_id_of_build hMapping, ?_⟩
  · intro hNone
    rw [hPlans, List.map_eq_nil_iff] at hNone
    rw [hPatterns, hNone]
    rfl
  · intro hSome
    rw [hPlans] at hSome
    refine ⟨added.map Addition.branch, ?_, ?_, ?_⟩
    · rw [hPatterns]
      cases added with
      | nil => exact absurd rfl hSome
      | cons a rest => rfl
    · rw [hPlans, List.length_map, List.length_map]
    · intro k branch hAt
      rw [List.getElem?_map] at hAt
      rcases Option.map_eq_some_iff.mp hAt with ⟨a, hMember, rfl⟩
      rw [hVariable]
      exact (hMade k a hMember).getLast?_branch
  · rw [Target.all_eq_map, Target.map_product] at hKeys
    rcases List.sublist_map_iff.mp hKeys with
      ⟨served, hServed, hEq⟩
    refine ⟨served, hServed, ?_⟩
    have hArises :
        ∀ a ∈ added,
          ArisesFrom ⟨m, options, f⟩ a.target a.entry a.plan := by
      intro a ha
      rcases List.mem_iff_getElem?.mp ha with ⟨k, hAt⟩
      exact (hMade k a hAt).arisesFrom
    have hSame :
        List.Forall₂
          (fun (a : Addition) key =>
            a.key = (Target.ofCombination m.codec key.1, key.2))
          added served := by
      have hKeyed :
          List.Forall₂ Eq (added.map Addition.key)
            (served.map fun key =>
              (Target.ofCombination m.codec key.1, key.2)) :=
        List.forall₂_eq_eq_eq ▸ hEq
      exact
        List.forall₂_map_left_iff.mp
          (List.forall₂_map_right_iff.mp hKeyed)
    rw [hPlans, List.forall₂_map_right_iff]
    apply List.Forall₂.flip
    apply ((List.forall₂_and_left _ _).mpr ⟨hArises, hSame⟩).imp
    rintro a ⟨c, e⟩ ⟨hPlan, hKey⟩
    rcases Prod.mk.inj hKey with ⟨hTarget, hEntry⟩
    rw [hTarget, hEntry] at hPlan
    exact ⟨congrArg Entry.id hEntry, hPlan⟩

/- Statements with items, given up if the subject is fixed. -/
def openSubjects : Registration where
  patterns := [itemPattern "s" "p" "v"]
  emit := fun context args => do
    let s ← context.node (← args.get "s")
    let p ← context.node (← args.get "p")
    let v ← context.node (← args.get "v")
    Group.triple s p v
    match s with
    | .var _ => pure none
    | _ => throw .skip

/- Statements with items. -/
def anySubjects : Registration where
  patterns := [itemPattern "s" "p" "v"]
  emit := fun _ _ => pure none

/- What is said of an item, and of instances of its class. -/
def twoSubjects : Filter where
  subject :=
    .or
      [.value (.value (.item
          ⟨"http://www.wikidata.org/entity/Q42"⟩)),
        .snaks [instanceSnak]]

theorem branches_aligned_twoSubjects :
    ∃ m q,
      Mapping.build .verbatim [openSubjects, anySubjects] = .ok m ∧
        (compile m {} twoSubjects).result = .ok q ∧
        q.plans.map BranchPlan.entryId = [1, 0, 1] ∧
        ∃ branches : List (List Pattern),
          q.query.patterns = [.union branches] ∧
            branches.length = 3 ∧
            ∀ (k : Nat) branch, branches[k]? = some branch →
              branch.getLast? =
                some (.bind (.node (.integer k)) "branch") := by
  have hPlans :
      ((Mapping.build .verbatim
          [openSubjects, anySubjects]).toOption.bind
        fun m => (compile m {} twoSubjects).result.toOption.map
          fun q =>
            (q.plans.map BranchPlan.entryId, q.branchVariable)) =
        some ([1, 0, 1], "branch") := by
    decide +kernel
  rcases Option.bind_eq_some_iff.mp hPlans with
    ⟨m, hMapping, hPlans⟩
  rcases Option.map_eq_some_iff.mp hPlans with
    ⟨q, hCompile, hPlans⟩
  rcases Prod.mk.inj hPlans with ⟨hIds, hVariable⟩
  have hMapping := eq_ok_of_toOption hMapping
  have hCompile := eq_ok_of_toOption hCompile
  rcases branches_aligned hMapping hCompile with ⟨_, hUnion, _⟩
  have hLength : q.plans.length = 3 := by
    have hMapped := congrArg List.length hIds
    rw [List.length_map] at hMapped
    exact hMapped
  have hSome : q.plans ≠ [] := by
    intro hNone
    rw [hNone] at hIds
    cases hIds
  rw [hLength, hVariable] at hUnion
  exact ⟨m, q, hMapping, hCompile, hIds, hUnion hSome⟩

end Compile

end StatementQuery
