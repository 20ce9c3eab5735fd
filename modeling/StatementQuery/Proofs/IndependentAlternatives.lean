import StatementQuery.Proofs.BlindEmissions

/-
  Alternatives of a filter, compiled together and one by one.

  A filter is compiled one combination of alternatives after
  another, and only the names in use pass from one to the next.
  No entry of a Wikidata store looks at names.  So the plans of
  a filter are, but for the names of variables, those of the
  filters that have one of its combinations each.

  Key definitions include:
    * `Filter.combinations`
    * `Filter.only`
    * `BranchPlan.Variant`
    * `Compile.Parallel`

  Main declarations:
    * `Filter.Built.build_only`
    * `Wikidata.parallel_serve`
    * `Compile.plans_forEach`
    * `Wikidata.plans_of_combinations`
-/

------------------------------------------------------------
-- Filters With One Combination
------------------------------------------------------------

namespace StatementQuery

namespace Fingerprint

/- A leaf that is no value to be left out. -/
def KeptBy (keep : Ground → Bool) (leaf : Fingerprint) : Prop :=
  ∀ g, leaf = .value g → keep g = true

mutual

/- What is retained has no value that is left out. -/
theorem leaves_retain_keptBy
    (keep : Ground → Bool) :
    ∀ fp : Fingerprint, (fp.retain keep).Leaves (KeptBy keep)
| .full => by simp [retain, Leaves, leaves, KeptBy]
| .empty => by simp [retain, Leaves, leaves, KeptBy]
| .snaks _ => by simp [retain, Leaves, leaves, KeptBy]
| .value g => by
    rw [retain]
    split <;> simp_all [Leaves, leaves, KeptBy]
| .or fps => by
    rw [retain]
    exact leaves_or.mpr (leaves_retainAll_keptBy keep fps)

theorem leaves_retainAll_keptBy
    (keep : Ground → Bool) :
    ∀ fps : List Fingerprint,
      ∀ fp ∈ retainAll keep fps, fp.Leaves (KeptBy keep)
| [] => by simp [retainAll]
| fp :: fps => by
    rw [retainAll]
    exact List.forall_mem_cons.2
      ⟨leaves_retain_keptBy keep fp,
        leaves_retainAll_keptBy keep fps⟩

end

end Fingerprint

namespace Alternative

/- The fingerprint that leaves no other choice. -/
def fingerprint : Alternative → Fingerprint
| .any => .full
| .value g => .value g
| .snaks gs => .snaks gs

/- The fingerprint of an alternative asks for something. -/
theorem isEmpty_fingerprint
    (a : Alternative) :
    a.fingerprint.isEmpty = false := by
  cases a <;> rfl

variable {a : Alternative} {fp : Fingerprint}

/- An alternative is the only one of its fingerprint. -/
theorem alternatives_fingerprint
    (h : a ∈ fp.alternatives) :
    a.fingerprint.alternatives = [a] := by
  rcases Fingerprint.mem_alternatives_cases fp h with
    rfl | ⟨g, rfl, _⟩ | ⟨g, gs, rfl, _⟩ <;> rfl

/- The fingerprint of an alternative is in normal form. -/
theorem normalize_fingerprint
    (h : a ∈ fp.alternatives) :
    a.fingerprint.normalize = a.fingerprint := by
  rcases Fingerprint.mem_alternatives_cases fp h with
    rfl | ⟨g, rfl, _⟩ | ⟨g, gs, rfl, _⟩ <;>
    simp [fingerprint, Fingerprint.normalize]

/- The leaf of an alternative is full or one that was there. -/
theorem leaves_fingerprint
    {P : Fingerprint → Prop}
    (hFull : P .full)
    (hLeaves : fp.Leaves P)
    (h : a ∈ fp.alternatives) :
    a.fingerprint.Leaves P := by
  rcases Fingerprint.mem_alternatives_cases fp h with
    rfl | ⟨g, rfl, hLeaf⟩ | ⟨g, gs, rfl, hLeaf⟩
  · exact List.forall_mem_singleton.mpr hFull
  · exact List.forall_mem_singleton.mpr (hLeaves _ hLeaf)
  · exact List.forall_mem_singleton.mpr (hLeaves _ hLeaf)

/- A fingerprint whose value is kept stays as it is. -/
theorem normalize_retain_fingerprint
    {keep : Ground → Bool}
    (hKept : a.fingerprint.Leaves (Fingerprint.KeptBy keep))
    (h : a ∈ fp.alternatives) :
    (a.fingerprint.retain keep).normalize = a.fingerprint := by
  have hRetain : a.fingerprint.retain keep = a.fingerprint := by
    cases a with
    | any => rfl
    | snaks gs => rfl
    | value g =>
        have hKeep : keep g = true :=
          hKept (.value g) List.mem_cons_self g rfl
        simp [fingerprint, Fingerprint.retain, hKeep]
  rw [hRetain, normalize_fingerprint h]

end Alternative

namespace Filter

/- The combinations of alternatives of a filter, in order. -/
def combinations
    (f : Filter) :
    List (Alternative × Alternative × Alternative) :=
  f.subject.alternatives ×ˢ
    f.property.alternatives ×ˢ f.value.alternatives

/- A filter with one combination of alternatives only. -/
def only
    (f : Filter)
    (c : Alternative × Alternative × Alternative) :
    Filter :=
  { f with
    subject := c.1.fingerprint
    property := c.2.1.fingerprint
    value := c.2.2.fingerprint }

/- What building a filter makes sure of. -/
structure Built (f : Filter) : Prop extends Checked f where
  subjectKept :
    f.subject.Leaves (Fingerprint.KeptBy (within f.subjectMask))
  valueKept :
    f.value.Leaves (Fingerprint.KeptBy (within f.valueMask))
  language : f.language ≠ some ""

variable {f : Filter}

theorem built_of_build
    {draft : Filter}
    (h : draft.build = .ok f) :
    f.Built := by
  have hChecked := checked_of_build h
  unfold build at h
  split at h
  · cases h
  · rename_i hError
    cases h
    simp only [error?, Option.or_eq_none_iff] at hError
    rcases hError with ⟨_, _, _, hLanguage⟩
    refine ⟨hChecked, ?_, ?_, ?_⟩
    · apply Fingerprint.leaves_normalize
      · simp [Fingerprint.KeptBy]
      · simp [Fingerprint.KeptBy]
      · exact Fingerprint.leaves_retain_keptBy _ _
    · apply Fingerprint.leaves_normalize
      · simp [Fingerprint.KeptBy]
      · simp [Fingerprint.KeptBy]
      · exact Fingerprint.leaves_retain_keptBy _ _
    · intro hEmpty
      have hGiven : draft.language = some "" := hEmpty
      rw [if_pos hGiven] at hLanguage
      cases hLanguage

/- A filter that is built has nothing wrong with it. -/
theorem Built.error?_eq_none
    (h : f.Built) :
    f.error? = none := by
  simp only [error?, Option.or_eq_none_iff,
    List.findSome?_eq_none_iff]
  exact
    ⟨h.subject, h.property, h.value, if_neg h.language⟩

variable {c : Alternative × Alternative × Alternative}

theorem mem_combinations :
    c ∈ f.combinations ↔
      c.1 ∈ f.subject.alternatives ∧
        c.2.1 ∈ f.property.alternatives ∧
        c.2.2 ∈ f.value.alternatives := by
  rcases c with ⟨s, p, v⟩
  simp only [combinations, List.mem_product]

/- One combination of a filter that is built passes as well. -/
theorem Built.only
    (h : f.Built)
    (hc : c ∈ f.combinations) :
    (f.only c).Built := by
  rcases mem_combinations.mp hc with ⟨hs, hp, hv⟩
  refine ⟨⟨?_, ?_, ?_⟩, ?_, ?_, h.language⟩
  · exact Alternative.leaves_fingerprint rfl h.subject hs
  · exact Alternative.leaves_fingerprint rfl h.property hp
  · exact Alternative.leaves_fingerprint rfl h.value hv
  · exact Alternative.leaves_fingerprint
      (by simp [Fingerprint.KeptBy]) h.subjectKept hs
  · exact Alternative.leaves_fingerprint
      (by simp [Fingerprint.KeptBy]) h.valueKept hv

/- A filter with one combination is built as it is. -/
theorem Built.build_only
    (h : f.Built)
    (hc : c ∈ f.combinations) :
    (f.only c).build = .ok (f.only c) := by
  have hOnly := h.only hc
  rcases mem_combinations.mp hc with ⟨hs, hp, hv⟩
  have hSubject :
      (c.1.fingerprint.retain (within f.subjectMask)).normalize =
        c.1.fingerprint :=
    Alternative.normalize_retain_fingerprint hOnly.subjectKept hs
  have hProperty :
      c.2.1.fingerprint.normalize = c.2.1.fingerprint :=
    Alternative.normalize_fingerprint hp
  have hValue :
      (c.2.2.fingerprint.retain (within f.valueMask)).normalize =
        c.2.2.fingerprint :=
    Alternative.normalize_retain_fingerprint hOnly.valueKept hv
  unfold build
  rw [hOnly.error?_eq_none]
  simp only [normalize, Filter.only, hSubject, hProperty, hValue]

/- A combination of a filter that can match can match. -/
theorem isEmpty_only
    (h : f.isEmpty = false)
    (hc : c ∈ f.combinations) :
    (f.only c).isEmpty = false := by
  have hValue := (mem_combinations.mp hc).2.2
  simp only [isEmpty, Bool.or_eq_false_iff] at h
  rcases h with ⟨⟨⟨⟨hMasks, _⟩, _⟩, _⟩, hSnak⟩
  simp only [isEmpty, Filter.only, Bool.or_eq_false_iff,
    Alternative.isEmpty_fingerprint, and_true]
  refine ⟨hMasks, ?_⟩
  -- Only an alternative that is open has the full fingerprint.
  cases hOpen : f.value.isFull with
  | false =>
      rw [hOpen, Bool.not_false, Bool.true_and] at hSnak
      rw [hSnak, Bool.and_false]
  | true =>
      have hFull : f.value = .full := by
        cases hFingerprint : f.value <;>
          simp_all [Fingerprint.isFull]
      rw [hFull] at hValue
      rw [List.mem_singleton.mp hValue]
      rfl

/- The one target of one combination. -/
theorem all_only
    (codec : Codec)
    (hc : c ∈ f.combinations) :
    Target.all codec (f.only c) = [Target.ofCombination codec c] := by
  rcases mem_combinations.mp hc with ⟨hs, hp, hv⟩
  simp only [Target.all, Filter.only,
    Alternative.alternatives_fingerprint hs,
    Alternative.alternatives_fingerprint hp,
    Alternative.alternatives_fingerprint hv]
  rfl

end Filter

end StatementQuery

------------------------------------------------------------
-- Plans That Differ In Names
------------------------------------------------------------

namespace StatementQuery

/-
  Plans of one entry whose templates differ in the names of
  variables, other than those of the open parts of a target.
-/
def BranchPlan.Variant (plan plan' : BranchPlan) : Prop :=
  plan.entryId = plan'.entryId ∧
    ∃ π : Equiv.Perm String,
      (∀ name ∈ Target.openNames, π name = name) ∧
        plan'.template =
          plan.template.mapVariables (Variable.renamed π)

namespace Compile

/-
  Computations that add variants of each other's plans, if both
  come to their end.
-/
def Parallel
    (x y : CompileM (Except CompileError Unit)) :
    Prop :=
  ∀ ⦃p q p' q'⦄,
    x.run p = (.ok (), p') → y.run q = (.ok (), q') →
      ∃ added added',
        p'.plans = p.plans ++ added ∧
          q'.plans = q.plans ++ added' ∧
          List.Forall₂ BranchPlan.Variant added added'

/- Computations that add no plans are parallel. -/
theorem Parallel.of_keeps
    {x y : CompileM (Except CompileError Unit)}
    (hx : ∀ p, (x.run p).2.plans = p.plans)
    (hy : ∀ p, (y.run p).2.plans = p.plans) :
    Parallel x y := by
  intro p q p' q' hRun hRun'
  have hPlans := hx p
  have hPlans' := hy q
  rw [hRun] at hPlans
  rw [hRun'] at hPlans'
  exact
    ⟨[], [], by rw [hPlans, List.append_nil],
      by rw [hPlans', List.append_nil], .nil⟩

/- What comes to its end has come to the end of each step. -/
theorem exists_of_forEach_cons
    {σ ε : Type}
    {step : α → StateM σ (Except ε Unit)}
    {x : α}
    {xs : List α}
    {s s'' : σ}
    (h : (forEach step (x :: xs)).run s = (.ok (), s'')) :
    ∃ s', (step x).run s = (.ok (), s') ∧
      (forEach step xs).run s' = (.ok (), s'') := by
  cases hStep : (step x).run s with
  | mk result s' =>
  rw [forEach, StateT.run_bind, hStep] at h
  cases result with
  | error err => cases h
  | ok _ => exact ⟨s', rfl, h⟩

/- Steps that are parallel, one after another. -/
theorem parallel_forEach
    {step step' : α → CompileM (Except CompileError Unit)}
    {xs : List α}
    (h : ∀ x ∈ xs, Parallel (step x) (step' x)) :
    Parallel (forEach step xs) (forEach step' xs) := by
  induction xs with
  | nil => exact .of_keeps (fun _ => rfl) (fun _ => rfl)
  | cons x xs ih =>
      intro p q p'' q'' hRun hRun'
      rcases exists_of_forEach_cons hRun with ⟨p', hStep, hRest⟩
      rcases exists_of_forEach_cons hRun' with
        ⟨q', hStep', hRest'⟩
      rcases h x List.mem_cons_self hStep hStep' with
        ⟨first, first', hFirst, hFirst', hVariants⟩
      rcases ih (fun y hy => h y (List.mem_cons_of_mem _ hy))
          hRest hRest' with
        ⟨rest, rest', hPlans, hPlans', hVariants'⟩
      refine
        ⟨first ++ rest, first' ++ rest', ?_, ?_,
          List.rel_append hVariants hVariants'⟩
      · rw [hPlans, hFirst, List.append_assoc]
      · rw [hPlans', hFirst', List.append_assoc]

/-
  Steps one after another add what parallel ones add, each of
  which starts without a plan.
-/
theorem plans_forEach
    {step single : α → CompileM (Except CompileError Unit)}
    {xs : List α}
    (h : ∀ x ∈ xs, Parallel (step x) (single x))
    {before after : α → Progress}
    (hNone : ∀ x ∈ xs, (before x).plans = [])
    (hSingle :
      ∀ x ∈ xs, (single x).run (before x) = (.ok (), after x))
    {p p' : Progress}
    (hRun : (forEach step xs).run p = (.ok (), p')) :
    ∃ added,
      p'.plans = p.plans ++ added ∧
        List.Forall₂ BranchPlan.Variant added
          (xs.flatMap fun x => (after x).plans) := by
  induction xs generalizing p with
  | nil =>
      cases hRun
      exact ⟨[], (List.append_nil _).symm, .nil⟩
  | cons x xs ih =>
      rcases exists_of_forEach_cons hRun with ⟨r, hStep, hRest⟩
      rcases h x List.mem_cons_self hStep
          (hSingle x List.mem_cons_self) with
        ⟨first, alone, hFirst, hAlone, hVariants⟩
      rw [hNone x List.mem_cons_self, List.nil_append] at hAlone
      rcases ih (fun y hy => h y (List.mem_cons_of_mem _ hy))
          (fun y hy => hNone y (List.mem_cons_of_mem _ hy))
          (fun y hy => hSingle y (List.mem_cons_of_mem _ hy))
          hRest with
        ⟨rest, hPlans, hVariants'⟩
      refine ⟨first ++ rest, ?_, ?_⟩
      · rw [hPlans, hFirst, List.append_assoc]
      · rw [List.flatMap_cons, hAlone]
        exact List.rel_append hVariants hVariants'

/- Steps for images are steps for what they are images of. -/
theorem forEach_map
    {σ ε : Type}
    (step : β → StateM σ (Except ε Unit))
    (g : α → β)
    (xs : List α) :
    forEach step (xs.map g) =
      forEach (fun x => step (g x)) xs := by
  induction xs with
  | nil => rfl
  | cons x xs ih => rw [List.map_cons, forEach, forEach, ih]

/- The plans of a query are those of its served targets. -/
theorem exists_served_of_compile
    {m : Mapping}
    {options : Options}
    {f : Filter}
    {q : CompiledQuery}
    (hSome : f.isEmpty = false)
    (h : (compile m options f).result = .ok q) :
    ∃ p,
      (forEach (fun t => serveEntries ⟨m, options, f⟩ t m.entries)
            (Target.all m.codec f)).run
          (started ⟨m, options, f⟩) =
        (.ok (), p) ∧
      q.plans = p.plans := by
  rcases exists_of_result_compile h with ⟨p, hRun, rfl⟩
  have hTask :
      (⟨m, options, f⟩ : Task).filter.isEmpty = false := hSome
  exact ⟨p, (run_serveFilter_eq hTask).symm.trans hRun, rfl⟩

/- A branch that is tried has a plan, or is given up. -/
theorem plans_of_addBranch
    {task : Task}
    {t : Target}
    {e : Entry}
    {found : PatternMatch}
    {p p' : Progress}
    (h : (addBranch task t e found).run p = (.ok (), p')) :
    let result :=
      ((emitBranch task t e found p.plans.length).run.run
        { pool := p.alternatives.pool.reserveAll found.names }).1
    (result = .error .skip ∧ p'.plans = p.plans) ∨
      ∃ rank,
        result = .ok rank ∧
          p'.plans = p.plans ++ [planOf e found rank] := by
  cases hOut :
      (emitBranch task t e found p.plans.length).run.run
        { pool := p.alternatives.pool.reserveAll found.names } with
  | mk result g =>
  rcases result with (_ | text) | rank
  · rw [run_addBranch_of_skip hOut] at h
    cases h
    exact Or.inl ⟨rfl, rfl⟩
  · rw [run_addBranch_of_failed hOut] at h
    cases h
  · rw [run_addBranch_of_ok hOut] at h
    cases h
    exact Or.inr ⟨rank, rfl, rfl⟩

/- Branches that end alike, of copies, have variants of a plan. -/
theorem variants_of_addBranch
    {task task' : Task}
    {t : Target}
    {e : Entry}
    {found found' : PatternMatch}
    {π : Equiv.Perm String}
    (hKeeps : ∀ name ∈ Target.openNames, π name = name)
    (hCopies : PatternMatch.Copies π found found')
    {p q p' q' : Progress}
    (hAlike :
      Group.Alike (fun _ _ => True)
        ((emitBranch task t e found p.plans.length).run.run
          { pool :=
              p.alternatives.pool.reserveAll found.names }).1
        ((emitBranch task' t e found' q.plans.length).run.run
          { pool :=
              q.alternatives.pool.reserveAll found'.names }).1)
    (hRun : (addBranch task t e found).run p = (.ok (), p'))
    (hRun' : (addBranch task' t e found').run q = (.ok (), q')) :
    ∃ added added',
      p'.plans = p.plans ++ added ∧
        q'.plans = q.plans ++ added' ∧
        List.Forall₂ BranchPlan.Variant added added' := by
  rcases plans_of_addBranch hRun with
    ⟨hSkip, hPlans⟩ | ⟨rank, hOk, hPlans⟩
  · rcases plans_of_addBranch hRun' with
      ⟨_, hPlans'⟩ | ⟨rank', hOk', _⟩
    · exact
        ⟨[], [], by rw [hPlans, List.append_nil],
          by rw [hPlans', List.append_nil], .nil⟩
    · rw [hSkip, hOk'] at hAlike
      cases hAlike
  · rcases plans_of_addBranch hRun' with
      ⟨hSkip', _⟩ | ⟨rank', _, hPlans'⟩
    · rw [hOk, hSkip'] at hAlike
      cases hAlike
    · exact
        ⟨_, _, hPlans, hPlans',
          .cons ⟨rfl, π, hKeeps, hCopies.template⟩ .nil⟩

end Compile

end StatementQuery

------------------------------------------------------------
-- Combinations One By One
------------------------------------------------------------

namespace StatementQuery

namespace Wikidata

variable {config : WikidataConfig}
variable {f : Filter}
variable {c : Alternative × Alternative × Alternative}

/-
  An entry serves a target under any names in use, and under
  any fingerprints of the filter, by variants of one plan.
-/
theorem parallel_serve
    (options : Options)
    {t : Target}
    (ht : t ∈ Target.all (codec config) f)
    {e : Entry}
    (he : e ∈ entries config)
    (c : Alternative × Alternative × Alternative) :
    Compile.Parallel
      (Compile.serve (taskOf config options f) t e)
      (Compile.serve (taskOf config options (f.only c)) t e) := by
  have hMasks :
      e.excludes? (taskOf config options (f.only c)).filter t =
        e.excludes? (taskOf config options f).filter t := rfl
  cases hExcludes :
      e.excludes? (taskOf config options f).filter t with
  | some reason =>
      rw [hExcludes] at hMasks
      unfold Compile.serve
      rw [hMasks, hExcludes]
      exact .of_keeps (fun _ => rfl) (fun _ => rfl)
  | none =>
  rw [hExcludes] at hMasks
  intro p q p' q' hRun hRun'
  cases hGoal : t.statement e.snakKind with
  | error err =>
      unfold Compile.serve at hRun
      rw [hExcludes, hGoal] at hRun
      cases hRun
  | ok goal =>
  rw [Compile.run_serve_eq hExcludes hGoal] at hRun
  rw [Compile.run_serve_eq hMasks hGoal] at hRun'
  rcases Target.spec_statement ht hGoal with ⟨hFormed, hNames⟩
  rcases Entry.plan?_copies (wellFormed_patterns config e he)
      hFormed hNames p.alternatives.pool.used
      q.alternatives.pool.used with
    ⟨hPlan, hPlan'⟩ |
      ⟨found, found', π, hPlan, hPlan', hKeeps, hCopies⟩
  · rw [hPlan] at hRun
    rw [hPlan'] at hRun'
    cases hRun
    cases hRun'
    exact
      ⟨[], [], (List.append_nil _).symm, (List.append_nil _).symm,
        .nil⟩
  · rw [hPlan] at hRun
    rw [hPlan'] at hRun'
    rcases Target.isPart_of_mem ht with ⟨hSubject, _, hValue⟩
    have hAlike :=
      alike_emitBranch options f (f.only c) hSubject hValue he
        hFormed hPlan hPlan' hKeeps hCopies p.plans.length
        q.plans.length
    exact
      Compile.variants_of_addBranch hKeeps hCopies hAlike hRun
        hRun'

/- All entries serve a target by variants of their plans. -/
theorem parallel_serveEntries
    (options : Options)
    {t : Target}
    (ht : t ∈ Target.all (codec config) f)
    (c : Alternative × Alternative × Alternative) :
    Compile.Parallel
      (Compile.serveEntries (taskOf config options f) t
        (entries config))
      (Compile.serveEntries (taskOf config options (f.only c)) t
        (entries config)) := by
  rw [Compile.serveEntries_eq_forEach,
    Compile.serveEntries_eq_forEach]
  exact Compile.parallel_forEach
    fun e he => parallel_serve options ht he c

/- One combination is compiled, and its one target served. -/
theorem exists_compiled_only
    (config : WikidataConfig)
    (options : Options)
    (hBuilt : f.Built)
    (hSome : f.isEmpty = false)
    (hc : c ∈ f.combinations) :
    ∃ q p,
      (compile ⟨entries config, codec config⟩ options
            (f.only c)).result =
          .ok q ∧
        (Compile.serveEntries (taskOf config options (f.only c))
              (Target.ofCombination (codec config) c)
              (entries config)).run
            (Compile.started (taskOf config options (f.only c))) =
          (.ok (), p) ∧
        q.plans = p.plans := by
  rcases exists_compiled config options
      (hBuilt.only hc).toChecked with
    ⟨q, hCompile⟩
  rcases Compile.exists_served_of_compile
      (Filter.isEmpty_only hSome hc) hCompile with
    ⟨p, hRun, hPlans⟩
  have hTarget :
      Target.all (codec config) (f.only c) =
        [Target.ofCombination (codec config) c] :=
    Filter.all_only (codec config) hc
  simp only [hTarget] at hRun
  rcases Compile.exists_of_forEach_cons hRun with
    ⟨p', hStep, hEnd⟩
  cases hEnd
  exact ⟨q, p, hCompile, hStep, hPlans⟩

/-
  A filter that can match is compiled into the plans of its
  combinations of alternatives, each compiled alone and in
  their order, but for the names of variables.
-/
theorem plans_of_combinations
    {draft f : Filter}
    (hFilter : draft.build = .ok f)
    (hSome : f.isEmpty = false)
    (config : WikidataConfig)
    (options : Options) :
    ∃ m q,
    ∃ part :
        Alternative × Alternative × Alternative → CompiledQuery,
      mapping config = .ok m ∧
        (compile m options f).result = .ok q ∧
        (∀ c ∈ f.combinations,
          (f.only c).build = .ok (f.only c) ∧
            (compile m options (f.only c)).result =
              .ok (part c)) ∧
        List.Forall₂ BranchPlan.Variant q.plans
          (f.combinations.flatMap fun c => (part c).plans) := by
  have hBuilt := Filter.built_of_build hFilter
  rcases exists_compiled config options hBuilt.toChecked with
    ⟨q, hCompile⟩
  rcases Compile.exists_served_of_compile hSome hCompile with
    ⟨p, hRun, hWhole⟩
  have hQuery : Nonempty CompiledQuery := ⟨q⟩
  have hProgress : Nonempty Compile.Progress := ⟨p⟩
  choose! part after hPart hAfter hPlans using
    fun c (hc : c ∈ f.combinations) =>
      exists_compiled_only config options hBuilt hSome hc
  refine
    ⟨_, q, part, mapping_eq config, hCompile,
      fun c hc => ⟨hBuilt.build_only hc, hPart c hc⟩, ?_⟩
  have hAll :
      Target.all (codec config) f =
        f.combinations.map (Target.ofCombination (codec config)) :=
    Target.all_eq_map (codec config) f
  simp only [hAll] at hRun
  rw [Compile.forEach_map] at hRun
  have hParallel :
      ∀ c ∈ f.combinations,
        Compile.Parallel
          (Compile.serveEntries (taskOf config options f)
            (Target.ofCombination (codec config) c)
            (entries config))
          (Compile.serveEntries (taskOf config options (f.only c))
            (Target.ofCombination (codec config) c)
            (entries config)) := by
    intro c hc
    apply parallel_serveEntries
    rw [hAll]
    exact List.mem_map_of_mem hc
  rcases Compile.plans_forEach hParallel (fun c _ => rfl) hAfter
      hRun with
    ⟨added, hAdded, hVariants⟩
  have hAdded' : q.plans = added := hWhole.trans hAdded
  rw [hAdded', List.flatMap_congr hPlans]
  exact hVariants

/- Subjects of the case below. -/
def firstItem : Ground :=
  .value (.item ⟨"http://www.wikidata.org/entity/Q42"⟩)

def secondItem : Ground :=
  .value (.item ⟨"http://www.wikidata.org/entity/Q64"⟩)

/- What is said of either of two items, with quantities. -/
def quantitiesOfTwo : Filter where
  subject := .or [.value firstItem, .value secondItem]
  snakMask := SnakMask.of .value
  valueMask := DatatypeMask.of .quantity

/-
  The plan for the second item has names of its own, where the
  item alone has those of the first.
-/
theorem plans_of_combinations_quantitiesOfTwo :
    ∃ m q,
    ∃ part :
        Alternative × Alternative × Alternative → CompiledQuery,
      mapping {} = .ok m ∧
        (compile m {} quantitiesOfTwo).result = .ok q ∧
        (∀ c ∈ quantitiesOfTwo.combinations,
          (compile m {} (quantitiesOfTwo.only c)).result =
            .ok (part c)) ∧
        q.plans.map BranchPlan.columns =
          [["amount0", "lower0", "property", "unit0", "upper0"],
            ["amount1", "lower1", "property", "unit1", "upper1"]] ∧
        (part (.value secondItem, .any, .any)).plans.map
            BranchPlan.columns =
          [["amount0", "lower0", "property", "unit0", "upper0"]] ∧
        List.Forall₂ BranchPlan.Variant q.plans
          (quantitiesOfTwo.combinations.flatMap fun c =>
            (part c).plans) := by
  have hWhole :
      ((compile ⟨entries {}, codec {}⟩ {}
          quantitiesOfTwo).result.toOption.map fun q =>
        q.plans.map BranchPlan.columns) =
        some
          [["amount0", "lower0", "property", "unit0", "upper0"],
            ["amount1", "lower1", "property", "unit1",
              "upper1"]] := by
    decide +kernel
  have hAlone :
      ((compile ⟨entries {}, codec {}⟩ {}
          (quantitiesOfTwo.only
            (.value secondItem, .any, .any))).result.toOption.map
          fun q => q.plans.map BranchPlan.columns) =
        some
          [["amount0", "lower0", "property", "unit0",
            "upper0"]] := by
    decide +kernel
  have hFilter : quantitiesOfTwo.build = .ok quantitiesOfTwo := rfl
  have hMem :
      (.value secondItem, .any, .any) ∈
        quantitiesOfTwo.combinations :=
    List.mem_cons_of_mem _ List.mem_cons_self
  rcases plans_of_combinations hFilter (by decide) {} {} with
    ⟨m, q, part, hMapping, hCompile, hPart, hVariants⟩
  cases Except.ok.inj ((mapping_eq {}).symm.trans hMapping)
  rw [hCompile] at hWhole
  rw [(hPart _ hMem).2] at hAlone
  exact
    ⟨_, q, part, hMapping, hCompile, fun c hc => (hPart c hc).2,
      Option.some.inj hWhole, Option.some.inj hAlone, hVariants⟩

end Wikidata

end StatementQuery
