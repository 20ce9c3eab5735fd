import StatementQuery.Proofs.BranchAlignment
import StatementQuery.Proofs.RenamedMatches
import StatementQuery.Proofs.WikidataFailures

/-
  Emissions that do not look at names.

  Whether the emission of an entry of a Wikidata store gives up
  depends on which of its arguments are open, fixed or absent,
  and on what they are fixed to, but not on the names of those
  that are open.  So branches of matches that differ in names
  only are both kept or both given up, unless one of them
  fails.

  Key definitions include:
    * `Group.Alike`
    * `Group.Agree`
    * `Args.Copies`

  Main declarations:
    * `Group.Agree.bind`
    * `Wikidata.agree_emit`
    * `Compile.agree_constrainSettled`
    * `Wikidata.alike_emitBranch`
-/

------------------------------------------------------------
-- Computations With The Same Outcome
------------------------------------------------------------

namespace StatementQuery

namespace Group

/-
  Results that are both there, and related, or both given up.
  Of results of which one is a failure, nothing is said.
-/
inductive Alike
    (R : α → β → Prop) :
    Except EntryError α → Except EntryError β → Prop where
| ok {a : α} {b : β} (h : R a b) : Alike R (.ok a) (.ok b)
| skip : Alike R (.error .skip) (.error .skip)
| failed (text : String) (y : Except EntryError β) :
    Alike R (.error (.failed text)) y
| failed' (x : Except EntryError α) (text : String) :
    Alike R x (.error (.failed text))

/- A result is like itself. -/
theorem Alike.refl
    (x : Except EntryError α) :
    Alike (fun _ _ => True) x x := by
  rcases x with (_ | text) | a
  · exact .skip
  · exact .failed text _
  · exact .ok trivial

/- Results of which neither is given up are alike. -/
theorem Alike.of_ne_skip
    {x : Except EntryError α}
    {y : Except EntryError β}
    (hx : x ≠ .error .skip)
    (hy : y ≠ .error .skip) :
    Alike (fun _ _ => True) x y := by
  rcases x with (_ | text) | a
  · exact absurd rfl hx
  · exact .failed text _
  rcases y with (_ | text) | b
  · exact absurd rfl hy
  · exact .failed' _ text
  · exact .ok trivial

/- Computations whose results are alike in any two groups. -/
def Agree
    (R : α → β → Prop)
    (x : EmitM α)
    (y : EmitM β) :
    Prop :=
  ∀ g g', Alike R (x.run.run g).1 (y.run.run g').1

namespace Agree

theorem pure
    {R : α → β → Prop}
    {a : α}
    {b : β}
    (h : R a b) :
    Agree R (Pure.pure a) (Pure.pure b) :=
  fun _ _ => .ok h

theorem skip
    {R : α → β → Prop} :
    Agree R (throw .skip) (throw .skip) :=
  fun _ _ => .skip

/- What only adds to a group is never given up. -/
theorem lift
    (x : GroupM α)
    (y : GroupM β) :
    Agree (fun _ _ => True) (liftM x : EmitM α)
      (liftM y : EmitM β) :=
  fun _ _ => .ok trivial

theorem bind
    {R : α → β → Prop}
    {S : γ → δ → Prop}
    {x : EmitM α}
    {y : EmitM β}
    {f : α → EmitM γ}
    {f' : β → EmitM δ}
    (h : Agree R x y)
    (hf : ∀ a b, R a b → Agree S (f a) (f' b)) :
    Agree S (x >>= f) (y >>= f') := by
  intro g g'
  have hAlike := h g g'
  cases hx : x.run.run g with
  | mk r h₁ =>
  cases hy : y.run.run g' with
  | mk r' h₂ =>
  rw [hx, hy] at hAlike
  cases hAlike with
  | @ok a b hR =>
      rw [Compile.run_bind_of_ok hx, Compile.run_bind_of_ok hy]
      exact hf a b hR h₁ h₂
  | skip =>
      rw [Compile.run_bind_of_error hx,
        Compile.run_bind_of_error hy]
      exact .skip
  | failed text _ =>
      rw [Compile.run_bind_of_error hx]
      exact .failed text _
  | failed' _ text =>
      rw [Compile.run_bind_of_error hy]
      exact .failed' _ text

/- What adds to the groups first makes no difference. -/
theorem after
    {S : γ → δ → Prop}
    {x : GroupM α}
    {y : GroupM β}
    {f : α → EmitM γ}
    {f' : β → EmitM δ}
    (hf : ∀ a b, Agree S (f a) (f' b)) :
    Agree S ((liftM x : EmitM α) >>= f)
      ((liftM y : EmitM β) >>= f') :=
  (lift x y).bind fun a b _ => hf a b

/- Values that are alike are used alike. -/
theorem bind_except
    {R : α → β → Prop}
    {S : γ → δ → Prop}
    {x : Except EntryError α}
    {y : Except EntryError β}
    {f : α → EmitM γ}
    {f' : β → EmitM δ}
    (h : Alike R x y)
    (hf : ∀ a b, R a b → Agree S (f a) (f' b)) :
    Agree S ((liftM x : EmitM α) >>= f)
      ((liftM y : EmitM β) >>= f') := by
  apply bind (R := R) _ hf
  intro g g'
  cases h with
  | ok hR => exact .ok hR
  | skip => exact .skip
  | failed text _ => exact .failed text _
  | failed' _ text => exact .failed' _ text

end Agree

end Group

end StatementQuery

------------------------------------------------------------
-- Emissions Of The Entries
------------------------------------------------------------

namespace StatementQuery

/- Arguments whose names are permuted. -/
def Args.Copies
    (ρ : Equiv.Perm String)
    (args args' : Args) :
    Prop :=
  ∀ name,
    args'.lookup name = (args.lookup name).map (Arg.renamed ρ)

namespace Args.Copies

variable {ρ : Equiv.Perm String} {args args' : Args}

/- What is looked up in both is an argument and its copy. -/
theorem bind_get
    {S : γ → δ → Prop}
    (h : Args.Copies ρ args args')
    (name : String)
    {f : Arg → EmitM γ}
    {f' : Arg → EmitM δ}
    (hf : ∀ arg, Group.Agree S (f arg) (f' (arg.renamed ρ))) :
    Group.Agree S ((liftM (args.get name) : EmitM Arg) >>= f)
      ((liftM (args'.get name) : EmitM Arg) >>= f') := by
  have hLookup := h name
  apply Group.Agree.bind_except
    (R := fun arg arg' => arg' = arg.renamed ρ)
  · unfold Args.get
    cases hArg : args.lookup name with
    | none =>
        rw [hArg] at hLookup
        rw [hLookup]
        exact .skip
    | some arg =>
        rw [hArg] at hLookup
        rw [hLookup]
        exact .ok rfl
  · rintro arg _ rfl
    exact hf arg

end Args.Copies

namespace EmissionContext

variable {context context' : EmissionContext}

/- The node of an argument depends on the codec only. -/
theorem node_congr
    (h : context.codec = context'.codec)
    (arg : Arg) :
    context.node arg = context'.node arg := by
  cases arg with
  | var name => rfl
  | absent => rfl
  | value g =>
      simp only [node]
      rw [h]

/- The nodes of an argument and its copy, if they are fixed. -/
theorem alike_node
    (h : context.codec = context'.codec)
    (ρ : Equiv.Perm String)
    (arg : Arg) :
    Group.Alike (fun n n' => ∀ g, arg = .value g → n' = n)
      (context.node arg) (context'.node (arg.renamed ρ)) := by
  cases arg with
  | var name => exact .ok fun g hg => by cases hg
  | absent => exact .skip
  | value g =>
      have hSame :
          context'.node ((Arg.value g).renamed ρ) =
            context.node (.value g) := (node_congr h _).symm
      rw [hSame]
      rcases context.node (.value g) with (_ | text) | n
      · exact .skip
      · exact .failed text _
      · exact .ok fun _ _ => rfl

end EmissionContext

namespace Wikidata

variable {context context' : EmissionContext}
variable {ρ : Equiv.Perm String} {args args' : Args}

/- So are the nodes of whole quantities. -/
theorem alike_integerNode
    (h : context.codec = context'.codec)
    (g : Ground) :
    Group.Alike (fun _ _ => True) (integerNode context (.value g))
      (integerNode context' (.value g)) := by
  have hSame :
      integerNode context' (.value g) =
        integerNode context (.value g) := by
    unfold integerNode
    simp only [EmissionContext.node_congr h]
  rw [hSame]
  exact .refl _

namespace Claim

/- Linking a subject gives up by what the property is. -/
theorem agree_linkSubject
    (config : WikidataConfig)
    (arg : Arg)
    {property property' : Node}
    (hProperty : ∀ g, arg = .value g → property' = property)
    (subject subject' statement statement' : Node) :
    Group.Agree (fun _ _ => True)
      (linkSubject config arg subject property statement)
      (linkSubject config (arg.renamed ρ) subject' property'
        statement') := by
  cases arg with
  | absent => exact .skip
  | var name =>
      apply Group.Agree.after
      intro claim claim'
      apply Group.Agree.after
      intro _ _
      exact .after fun _ _ => .pure trivial
  | value g =>
      rw [hProperty g rfl]
      by_cases hKnown :
          ∃ i j, g = .value (.entity ⟨.property, i⟩) ∧
            property = .iri j
      · rcases hKnown with ⟨i, j, rfl, rfl⟩
        exact .after fun _ _ => .pure trivial
      · have hSkip :
            ∀ s o,
              linkSubject config (.value g) s property o =
                throw .skip := by
          intro s o
          unfold linkSubject
          split
          · rename_i hArg
            cases hArg
            exact absurd ⟨_, _, rfl, rfl⟩ hKnown
          · rename_i hVar
            cases hVar
          · rfl
        simp only [Arg.renamed, hSkip]
        exact .skip

/- A claim starts by what its arguments are. -/
theorem agree_start
    (config : WikidataConfig)
    (datatype : Option Datatype)
    (h : context.codec = context'.codec)
    (hArgs : Args.Copies ρ args args') :
    Group.Agree (fun _ _ => True)
      (start config datatype context args)
      (start config datatype context' args') := by
  unfold start
  apply hArgs.bind_get
  intro subjectArg
  apply Group.Agree.bind_except
    (EmissionContext.alike_node h ρ subjectArg)
  intro subject subject' _
  apply hArgs.bind_get
  intro arg
  apply Group.Agree.bind_except (EmissionContext.alike_node h ρ arg)
  intro property property' hProperty
  apply Group.Agree.after
  intro statement statement'
  apply (agree_linkSubject config arg hProperty _ _ _ _).bind
  intro ref ref' _
  apply Group.Agree.after
  intro _ _
  apply Group.Agree.after
  intro _ _
  exact .after fun _ _ => .pure trivial

end Claim

/- A component is given up by what it is. -/
theorem agree_component
    {encode encode' : Arg → Except EntryError Node}
    (deep deep' : Node)
    (predicate : String)
    (placeholder : Option Node)
    (arg : Arg)
    (h :
      ∀ g, Group.Alike (fun _ _ => True) (encode (.value g))
        (encode' (.value g))) :
    Group.Agree (fun _ _ => True)
      (component encode deep predicate placeholder arg)
      (component encode' deep' predicate placeholder
        (arg.renamed ρ)) := by
  cases arg with
  | var name => exact .lift _ _
  | absent => exact .lift _ _
  | value g =>
      exact Group.Agree.bind_except (h g) fun _ _ _ => .lift _ _

/- Nodes of fixed components are alike. -/
theorem alike_node_value
    (h : context.codec = context'.codec)
    (g : Ground) :
    Group.Alike (fun _ _ => True) (context.node (.value g))
      (context'.node (.value g)) := by
  rw [EmissionContext.node_congr h]
  exact Group.Alike.refl _

theorem agree_emitSimple
    (config : WikidataConfig)
    (d : Datatype)
    (h : context.codec = context'.codec)
    (hArgs : Args.Copies ρ args args') :
    Group.Agree (fun _ _ => True)
      (emitSimple config d context args)
      (emitSimple config d context' args') := by
  unfold emitSimple
  apply (Claim.agree_start config (some d) h hArgs).bind
  intro claim claim' _
  apply hArgs.bind_get
  intro arg
  apply Group.Agree.bind_except (EmissionContext.alike_node h ρ arg)
  intro value value' _
  apply Group.Agree.after
  intro predicate predicate'
  apply Group.Agree.after
  intro _ _
  apply Group.Agree.after
  intro _ _
  exact .after fun _ _ => .pure trivial

theorem agree_emitQuantity
    (config : WikidataConfig)
    (h : context.codec = context'.codec)
    (hArgs : Args.Copies ρ args args') :
    Group.Agree (fun _ _ => True)
      (emitQuantity config context args)
      (emitQuantity config context' args') := by
  have hNode := alike_node_value h
  unfold emitQuantity
  apply (Claim.agree_start config _ h hArgs).bind
  intro claim claim' _
  apply Group.Agree.after
  intro deep deep'
  apply hArgs.bind_get
  intro amountArg
  apply Group.Agree.bind_except
    (EmissionContext.alike_node h ρ amountArg)
  intro amount amount' _
  apply Group.Agree.after
  intro _ _
  apply hArgs.bind_get
  intro unit
  apply (agree_component deep deep' _ _ unit hNode).bind
  intro _ _ _
  apply hArgs.bind_get
  intro lower
  apply (agree_component deep deep' _ _ lower hNode).bind
  intro _ _ _
  apply hArgs.bind_get
  intro upper
  apply (agree_component deep deep' _ _ upper hNode).bind
  intro _ _ _
  exact .pure trivial

theorem agree_emitTime
    (config : WikidataConfig)
    (h : context.codec = context'.codec)
    (hArgs : Args.Copies ρ args args') :
    Group.Agree (fun _ _ => True)
      (emitTime config context args)
      (emitTime config context' args') := by
  have hInteger := alike_integerNode h
  unfold emitTime
  apply (Claim.agree_start config _ h hArgs).bind
  intro claim claim' _
  apply Group.Agree.after
  intro deep deep'
  apply hArgs.bind_get
  intro instantArg
  apply Group.Agree.bind_except
    (EmissionContext.alike_node h ρ instantArg)
  intro instant instant' _
  apply Group.Agree.after
  intro _ _
  apply hArgs.bind_get
  intro precision
  apply (agree_component deep deep' _ _ precision hInteger).bind
  intro _ _ _
  apply hArgs.bind_get
  intro timezone
  apply (agree_component deep deep' _ _ timezone hInteger).bind
  intro _ _ _
  apply hArgs.bind_get
  intro calendar
  apply
    (agree_component deep deep' _ _ calendar
      (alike_node_value h)).bind
  intro _ _ _
  exact .pure trivial

theorem agree_emitSomeValue
    (config : WikidataConfig)
    (h : context.codec = context'.codec)
    (hArgs : Args.Copies ρ args args') :
    Group.Agree (fun _ _ => True)
      (emitSomeValue config context args)
      (emitSomeValue config context' args') := by
  unfold emitSomeValue
  apply (Claim.agree_start config none h hArgs).bind
  intro claim claim' _
  apply Group.Agree.after
  intro predicate predicate'
  apply Group.Agree.after
  intro placeholder placeholder'
  apply Group.Agree.after
  intro _ _
  exact .after fun _ _ => .pure trivial

theorem agree_emitNoValue
    (config : WikidataConfig)
    (h : context.codec = context'.codec)
    (hArgs : Args.Copies ρ args args') :
    Group.Agree (fun _ _ => True)
      (emitNoValue config context args)
      (emitNoValue config context' args') := by
  unfold emitNoValue
  apply (Claim.agree_start config none h hArgs).bind
  intro claim claim' _
  apply Group.Agree.after
  intro type type'
  exact .after fun _ _ => .pure trivial

/- No emission of an entry looks at names. -/
theorem agree_emit
    {config : WikidataConfig}
    {e : Entry}
    (he : e ∈ entries config)
    (h : context.codec = context'.codec)
    (hArgs : Args.Copies ρ args args') :
    Group.Agree (fun _ _ => True) (e.emit context args)
      (e.emit context' args') := by
  rcases mem_entries he with
    ⟨d, _, id, rfl⟩ | rfl | rfl | rfl | rfl
  · exact agree_emitSimple config d h hArgs
  · exact agree_emitQuantity config h hArgs
  · exact agree_emitTime config h hArgs
  · exact agree_emitSomeValue config h hArgs
  · exact agree_emitNoValue config h hArgs

end Wikidata

end StatementQuery

------------------------------------------------------------
-- Branches
------------------------------------------------------------

namespace StatementQuery

namespace Compile

/- Requiring snaks of a focus is never given up. -/
theorem constrain_ne_skip
    (m : Mapping)
    (options : Options)
    (focus : Term)
    (snaks : List Ground)
    (g : Group) :
    ((constrain m options focus snaks).run.run g).1 ≠
      .error .skip := by
  intro h
  rw [constrain_eq_forEach, forEach_eq_error_iff] at h
  rcases h with ⟨snak, g', _, hSkip⟩
  cases hGoal :
      Term.apply .statement [some focus, some (.ground snak)] with
  | error err =>
      unfold constrainOne at hSkip
      rw [hGoal] at hSkip
      cases hSkip
  | ok goal =>
      rw [result_constrainOne hGoal, forEach_eq_error_iff] at hSkip
      rcases hSkip with ⟨e, u, _, hSkip⟩
      rcases express_eq_error_iff.mp hSkip with
        ⟨_, _, _, _, _, hFailed⟩
      cases hFailed

/- Snaks are required of what the focus settles to. -/
theorem constrainSettled_of_settles
    (m : Mapping)
    (options : Options)
    {θ : Bindings}
    {focus s : Term}
    (h : Term.settle? θ focus = some (some s))
    {snaks : List Ground}
    (hSome : snaks.isEmpty = false) :
    constrainSettled m options θ focus snaks =
      constrain m options s snaks := by
  unfold constrainSettled
  rw [hSome, h]
  rfl

/- A focus that does not settle is given up. -/
theorem constrainSettled_of_not_settles
    (m : Mapping)
    (options : Options)
    {θ : Bindings}
    {focus : Term}
    (h : ¬ ∃ s, Term.settle? θ focus = some (some s))
    {snaks : List Ground}
    (hSome : snaks.isEmpty = false) :
    constrainSettled m options θ focus snaks = throw .skip := by
  unfold constrainSettled
  rw [if_neg (by simp [hSome])]
  split
  · exact absurd ⟨_, by assumption⟩ h
  · rfl

/- Snaks are required where both foci settle, or neither does. -/
theorem agree_constrainSettled
    (m : Mapping)
    (options : Options)
    {θ θ' : Bindings}
    {focus : Term}
    (hFocus :
      (∃ s, Term.settle? θ focus = some (some s)) ↔
        ∃ s, Term.settle? θ' focus = some (some s))
    (snaks : List Ground) :
    Group.Agree (fun _ _ => True)
      (constrainSettled m options θ focus snaks)
      (constrainSettled m options θ' focus snaks) := by
  cases hSnaks : snaks.isEmpty with
  | true =>
      unfold constrainSettled
      rw [if_pos hSnaks, if_pos hSnaks]
      exact .pure trivial
  | false =>
      by_cases hSettles : ∃ s, Term.settle? θ focus = some (some s)
      · rcases hFocus.mp hSettles with ⟨s', hs'⟩
        rcases hSettles with ⟨s, hs⟩
        rw [constrainSettled_of_settles m options hs hSnaks,
          constrainSettled_of_settles m options hs' hSnaks]
        intro g g'
        exact
          .of_ne_skip (constrain_ne_skip m options s snaks g)
            (constrain_ne_skip m options s' snaks g')
      · rw [constrainSettled_of_not_settles m options hSettles hSnaks,
          constrainSettled_of_not_settles m options
            (mt hFocus.mpr hSettles) hSnaks]
        exact .skip

/- A part of a target settles under copies as it does. -/
theorem exists_settle?_iff
    {π : Equiv.Perm String}
    (hKeeps : ∀ name ∈ Target.openNames, π name = name)
    {θ θ' : Bindings}
    (hCopies : Bindings.Copies π θ θ')
    {κ κ' : Kinding}
    (hSettled : Unify.Settled κ θ)
    (hSettled' : Unify.Settled κ' θ')
    {focus : Term}
    (hPart : Target.IsPart focus) :
    (∃ s, Term.settle? θ focus = some (some s)) ↔
      ∃ s, Term.settle? θ' focus = some (some s) := by
  rcases hPart with ⟨g, rfl⟩ | ⟨v, rfl, hName⟩
  · have hGround :
        ∀ τ, Term.settle? τ (.ground g) =
          some (some (.ground g)) := by
      intro τ
      apply Term.settleFor_of_unbound
      intro v hv
      simp [Term.occurrences] at hv
    rw [hGround θ, hGround θ']
  · have hSame : v.renamed π = v :=
      Variable.eq_of_name_of_kind (hKeeps v.name hName) rfl
    have hValue := hCopies.value v
    rw [hSame] at hValue
    rw [Term.settle?_var hSettled, Term.settle?_var hSettled',
      hValue]
    cases θ.value v with
    | none => simp
    | some s => simp [Side.renamed]

end Compile

namespace Entry

/- The bindings of a match of well-formed patterns are settled. -/
theorem settled_of_plan?
    {e : Entry}
    (hPatterns : ∀ p ∈ e.patterns, p.WellFormed)
    {goal : Term}
    (hGoal : goal.WellFormed)
    {used : List String}
    {found : PatternMatch}
    (h : e.plan? goal used = some found) :
    ∃ κ, Unify.Settled κ found.bindings := by
  rcases List.exists_of_findSome?_eq_some h with ⟨p, hp, hMatch⟩
  rcases settled_of_matchPattern? (hPatterns p hp) hGoal
      hMatch with
    ⟨κ, _, hSettled⟩
  exact ⟨κ, hSettled⟩

end Entry

namespace Wikidata

variable {config : WikidataConfig}

/-
  Branches of matches that differ in names only are both kept
  or both given up, unless one of them fails.
-/
theorem alike_emitBranch
    (options : Options)
    (f f' : Filter)
    {t : Target}
    (hSubject : Target.IsPart t.subject)
    (hValue : Target.IsPart t.value)
    {e : Entry}
    (he : e ∈ entries config)
    {goal : Term}
    (hGoal : goal.WellFormed)
    {pool pool' : NamePool}
    {found found' : PatternMatch}
    (hPlan : e.plan? goal pool.used = some found)
    (hPlan' : e.plan? goal pool'.used = some found')
    {π : Equiv.Perm String}
    (hKeeps : ∀ name ∈ Target.openNames, π name = name)
    (hCopies : PatternMatch.Copies π found found')
    (index index' : Nat) :
    Group.Alike (fun _ _ => True)
      ((Compile.emitBranch (taskOf config options f) t e found
          index).run.run
        { pool := pool.reserveAll found.names }).1
      ((Compile.emitBranch (taskOf config options f') t e found'
          index').run.run
        { pool := pool'.reserveAll found'.names }).1 := by
  have hPatterns := wellFormed_patterns config e he
  rcases Entry.settled_of_plan? hPatterns hGoal hPlan with
    ⟨κ, hSettled⟩
  rcases Entry.settled_of_plan? hPatterns hGoal hPlan' with
    ⟨κ', hSettled'⟩
  have hSettles :
      ∀ focus, Target.IsPart focus →
        ((∃ s, Term.settle? found.bindings focus = some (some s)) ↔
          ∃ s,
            Term.settle? found'.bindings focus = some (some s)) :=
    fun _ hPart =>
      Compile.exists_settle?_iff hKeeps hCopies.bindings hSettled
        hSettled' hPart
  have hAgree :
      Group.Agree (fun _ _ => True)
        (Compile.branchBody (taskOf config options f) t e found
          index)
        (Compile.branchBody (taskOf config options f') t e found'
          index') := by
    unfold Compile.branchBody
    refine Group.Agree.bind (agree_emit he ?_ hCopies.args) ?_
    · rfl
    intro rank rank' _
    apply (Compile.agree_constrainSettled _ _
      (hSettles t.subject hSubject) t.subjectSnaks).bind
    intro _ _ _
    apply (Compile.agree_constrainSettled _ _
      (hSettles t.value hValue) t.valueSnaks).bind
    intro _ _ _
    exact .after fun _ _ => .pure trivial
  rw [Compile.run_emitBranch, Compile.run_emitBranch]
  exact hAgree _ _

end Wikidata

end StatementQuery
