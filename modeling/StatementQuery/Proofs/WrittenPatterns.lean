import StatementQuery.Proofs.BranchAlignment

/-
  What is written into a group.

  A computation on a group only adds patterns after those that
  are there.  What it adds is described by a property of the
  result and of the patterns that are added; of two
  computations one after the other, the second is described
  with what the first has added in front.

  Key definitions include:
    * `Group.Writes`
    * `Group.Emits`
    * `Node.ShownIn`
    * `Node.ShownOptionally`

  Main declarations:
    * `Group.Writes.bind`
    * `Group.Emits.bind`
    * `Group.Writes.forEach`
    * `Compile.writes_constrainPart`
-/

------------------------------------------------------------
-- Computations On Groups
------------------------------------------------------------

namespace StatementQuery

namespace Group

/-
  A computation adds patterns to a group, and the result and
  the patterns that are added have a property.
-/
def Writes
    (x : GroupM α)
    (Q : α → List Pattern → Prop) :
    Prop :=
  ∀ g, ∃ written,
    (x.run g).2.patterns = g.patterns ++ written ∧
      Q (x.run g).1 written

/- So does one that may be given up, unless it is. -/
def Emits
    (x : EmitM α)
    (Q : α → List Pattern → Prop) :
    Prop :=
  Writes x.run fun result written => ∀ a, result = .ok a → Q a written

namespace Writes

variable {Q : α → List Pattern → Prop}
variable {R : β → List Pattern → Prop}

theorem mono
    {Q' : α → List Pattern → Prop}
    {x : GroupM α}
    (hx : Writes x Q)
    (h : ∀ a w, Q a w → Q' a w) :
    Writes x Q' := by
  intro g
  rcases hx g with ⟨w, hPatterns, hQ⟩
  exact ⟨w, hPatterns, h _ w hQ⟩

theorem pure
    {a : α}
    (h : Q a []) :
    Writes (Pure.pure a : GroupM α) Q := by
  intro g
  exact ⟨[], (List.append_nil _).symm, h⟩

theorem bind
    {x : GroupM α}
    {f : α → GroupM β}
    (hx : Writes x Q)
    (hf :
      ∀ a w, Q a w →
        Writes (f a) fun b w' => R b (w ++ w')) :
    Writes (x >>= f) R := by
  intro g
  rcases hx g with ⟨w, hPatterns, hQ⟩
  rcases hf _ w hQ (x.run g).2 with ⟨w', hPatterns', hR⟩
  refine ⟨w ++ w', ?_, hR⟩
  rw [← List.append_assoc, ← hPatterns]
  exact hPatterns'

theorem add
    (p : Pattern) :
    Writes (Group.add p) fun _ w => w = [p] :=
  fun _ => ⟨[p], rfl, rfl⟩

/- A pattern is added, whatever it is. -/
theorem anything_add
    (p : Pattern) :
    Writes (Group.add p) fun _ _ => True :=
  (add p).mono fun _ _ _ => trivial

theorem triple
    (s p o : Node) :
    Writes (Group.triple s p o) fun _ w => w = [.triple s p o] :=
  add _

/- A fresh variable is not written by itself. -/
theorem freshVar
    (base : String) :
    Writes (Group.freshVar base)
      fun n w => w = [] ∧ ∃ name, n = .var name :=
  fun _ => ⟨[], (List.append_nil _).symm, rfl, _, rfl⟩

/- What is written into a group inside is returned. -/
theorem nested
    {body : GroupM α}
    (h : Writes body Q) :
    Writes (Group.nested body)
      fun out w => w = [] ∧ Q out.2 out.1 := by
  intro g
  rcases h { pool := g.pool } with ⟨w, hPatterns, hQ⟩
  refine ⟨[], (List.append_nil _).symm, rfl, ?_⟩
  rw [List.nil_append] at hPatterns
  rw [← hPatterns] at hQ
  exact hQ

/- An optional group is written unless it is empty. -/
theorem optional
    {body : GroupM α}
    (h : Writes body Q) :
    Writes (Group.optional body)
      fun a w => ∃ inner, Q a inner ∧
        (inner ≠ [] → w = [.optional inner]) := by
  unfold Group.optional
  apply (nested h).bind
  rintro ⟨inner, a⟩ w ⟨rfl, hQ⟩
  dsimp only
  split
  · apply (add (.optional inner)).bind
    rintro _ w rfl
    exact pure ⟨inner, hQ, fun _ => rfl⟩
  · rename_i hEmpty
    apply pure
    refine ⟨inner, hQ, fun hSome => absurd ?_ hSome⟩
    simpa using hEmpty

/- So is a group that must not match. -/
theorem notExists
    {body : GroupM α}
    (h : Writes body Q) :
    Writes (Group.notExists body) fun _ _ => True := by
  unfold Group.notExists
  apply (nested h).bind
  rintro ⟨inner, a⟩ w _
  dsimp only
  split
  · exact (add _).bind fun _ _ _ => pure trivial
  · exact pure trivial

/- Alternatives are written as one pattern. -/
theorem union
    (body : AlternativesM α) :
    Writes (Group.union body)
      fun _ w => ∃ branches, w = [Alternatives.pattern branches] :=
  fun _ => ⟨_, rfl, _, rfl⟩

/- What is written on the way through a list. -/
theorem forEach
    {P : Pattern → Prop}
    {step : α → GroupM (Except ε Unit)}
    (h : ∀ x, Writes (step x) fun _ w => ∀ p ∈ w, P p)
    (xs : List α) :
    Writes (Compile.forEach step xs) fun _ w => ∀ p ∈ w, P p := by
  induction xs with
  | nil => exact pure fun p hp => by cases hp
  | cons x xs ih =>
      apply (h x).bind
      intro result w hw
      cases result with
      | ok _ =>
          apply ih.mono
          intro _ w' hw' p hp
          exact (List.mem_append.mp hp).elim (hw p) (hw' p)
      | error err =>
          apply pure
          simpa using hw

end Writes

namespace Emits

variable {Q : α → List Pattern → Prop}
variable {R : β → List Pattern → Prop}

theorem pure
    {a : α}
    (h : Q a []) :
    Emits (Pure.pure a : EmitM α) Q :=
  Writes.pure fun _ hEq => Except.ok.inj hEq ▸ h

/- What is given up has no result to describe. -/
theorem skip : Emits (throw .skip : EmitM α) Q :=
  Writes.pure fun _ hEq => by cases hEq

theorem lift
    {x : GroupM α}
    (hx : Writes x Q) :
    Emits (liftM x : EmitM α) Q := by
  intro g
  rcases hx g with ⟨w, hPatterns, hQ⟩
  refine ⟨w, hPatterns, ?_⟩
  rintro a hEq
  cases hEq
  exact hQ

theorem bind
    {x : EmitM α}
    {f : α → EmitM β}
    (hx : Emits x Q)
    (hf :
      ∀ a w, Q a w →
        Emits (f a) fun b w' => R b (w ++ w')) :
    Emits (x >>= f) R := by
  intro g
  rcases hx g with ⟨w, hPatterns, hQ⟩
  cases hRun : x.run.run g with
  | mk result g' =>
  rw [hRun] at hPatterns hQ
  cases result with
  | error err =>
      refine ⟨w, ?_, ?_⟩
      · rw [Compile.run_bind_of_error hRun]
        exact hPatterns
      · rw [Compile.run_bind_of_error hRun]
        intro b hEq
        cases hEq
  | ok a =>
      rcases hf a w (hQ a rfl) g' with ⟨w', hPatterns', hR⟩
      refine ⟨w ++ w', ?_, ?_⟩
      · rw [Compile.run_bind_of_ok hRun, hPatterns', hPatterns,
          List.append_assoc]
      · rw [Compile.run_bind_of_ok hRun]
        exact hR

/- The same with what has been written before in front. -/
theorem bind_onto
    {before : List Pattern}
    {x : EmitM α}
    {f : α → EmitM β}
    (hx : Emits x fun a w => Q a (before ++ w))
    (hf :
      ∀ a now, Q a now →
        Emits (f a) fun b w => R b (now ++ w)) :
    Emits (x >>= f) fun b w => R b (before ++ w) := by
  apply hx.bind
  intro a w hQ
  apply (hf a (before ++ w) hQ).mono
  intro result w' h b hOk
  rw [← List.append_assoc]
  exact h b hOk

/- A value that is not there is given up. -/
theorem bind_except
    {x : Except EntryError α}
    {f : α → EmitM β}
    (h : ∀ a, x = .ok a → Emits (f a) R) :
    Emits ((liftM x : EmitM α) >>= f) R := by
  cases x with
  | ok a => exact h a rfl
  | error err =>
      intro g
      refine ⟨[], (List.append_nil _).symm, ?_⟩
      intro b hEq
      cases hEq

/- What a name stands for is looked up. -/
theorem bind_get
    {args : Args}
    {name : String}
    {f : Arg → EmitM β}
    (h : ∀ arg, args.lookup name = some arg → Emits (f arg) R) :
    Emits ((liftM (args.get name) : EmitM Arg) >>= f) R := by
  apply bind_except
  intro arg hArg
  apply h
  unfold Args.get at hArg
  split at hArg
  · cases hArg
    assumption
  · cases hArg

end Emits

end Group

end StatementQuery

------------------------------------------------------------
-- Nodes In Triples
------------------------------------------------------------

namespace StatementQuery

namespace Node

/- A node stands in a triple directly in a list. -/
def ShownIn (n : Node) (patterns : List Pattern) : Prop :=
  ∃ s p o,
    Pattern.triple s p o ∈ patterns ∧ (n = s ∨ n = p ∨ n = o)

/- A node stands in a triple of an optional group in a list. -/
def ShownOptionally (n : Node) (patterns : List Pattern) : Prop :=
  ∃ inner, Pattern.optional inner ∈ patterns ∧ n.ShownIn inner

variable {n : Node} {ps qs : List Pattern}

theorem ShownIn.mono
    (h : n.ShownIn ps)
    (hSubset : ps ⊆ qs) :
    n.ShownIn qs := by
  rcases h with ⟨s, p, o, hTriple, hn⟩
  exact ⟨s, p, o, hSubset hTriple, hn⟩

theorem ShownOptionally.mono
    (h : n.ShownOptionally ps)
    (hSubset : ps ⊆ qs) :
    n.ShownOptionally qs := by
  rcases h with ⟨inner, hOptional, hn⟩
  exact ⟨inner, hSubset hOptional, hn⟩

end Node

namespace Arg

/- An argument that is open stands in a triple of a list. -/
def ShownIn (arg : Arg) (patterns : List Pattern) : Prop :=
  ∀ name, arg = .var name → (Node.var name).ShownIn patterns

/- Or in an optional group of a list. -/
def ShownOptionally (arg : Arg) (patterns : List Pattern) : Prop :=
  ∀ name, arg = .var name →
    (Node.var name).ShownOptionally patterns

/- An argument is shown where its node is. -/
theorem shownIn_of_node
    {context : EmissionContext}
    {arg : Arg}
    {n : Node}
    (hNode : context.node arg = .ok n)
    {patterns : List Pattern}
    (h : n.ShownIn patterns) :
    arg.ShownIn patterns := by
  rintro name rfl
  cases hNode
  exact h

end Arg

end StatementQuery

------------------------------------------------------------
-- Snaks Of The Parts
------------------------------------------------------------

namespace StatementQuery

/- Whether a pattern is a triple. -/
def Pattern.isTriple : Pattern → Bool
| .triple _ _ _ => true
| _ => false

namespace Compile

/- Requiring a snak adds alternatives to a group. -/
theorem writes_constrainOne
    (m : Mapping)
    (options : Options)
    (focus : Term)
    (snak : Ground) :
    Group.Writes (constrainOne m options focus snak).run
      fun _ w => ∀ p ∈ w, p.isTriple = false := by
  unfold constrainOne
  split
  · exact Group.Writes.pure fun p hp => by cases hp
  · apply (Group.Writes.union _).mono
    rintro _ w ⟨branches, rfl⟩ p hp
    cases List.mem_singleton.mp hp
    cases branches <;> rfl

/- Requiring the snaks of a part adds alternatives to a group. -/
theorem writes_constrainPart
    (task : Task)
    (found : PatternMatch)
    (part : Term × List Ground) :
    Group.Writes (constrainPart task found part)
      fun _ w => ∀ p ∈ w, p.isTriple = false := by
  unfold constrainPart constrainSettled
  split
  · exact Group.Writes.pure fun p hp => by cases hp
  · split
    · rw [constrain_eq_forEach]
      exact Group.Writes.forEach
        (fun snak => writes_constrainOne _ _ _ snak) _
    · exact Group.Writes.pure fun p hp => by cases hp

/-
  A branch is what its own call writes, and around it patterns
  other than triples.
-/
theorem Made.exists_own
    {task : Task}
    {index : Nat}
    {a : Addition}
    (h : Made task index a)
    {Q : Option String → List Pattern → Prop}
    (hEmits :
      Group.Emits
        (a.entry.emit
          ⟨task.mapping.codec, task.filter, task.options⟩
          a.found.args) Q) :
    ∃ lead written rest,
      a.branch = lead ++ written ++ rest ∧ Q a.rank written ∧
        (∀ p ∈ lead, p.isTriple = false) ∧
        ∀ p ∈ rest, p.isTriple = false := by
  rcases exists_of_emitBranch h.emitted with
    ⟨own, last, hOwn, hParts, hBranch⟩
  rcases hEmits (ownCall task a.entry a.found a.pool).group with
    ⟨written, hWritten, hQ⟩
  rcases Group.Writes.forEach (writes_constrainPart task a.found)
      a.target.constrained own with ⟨more, hMore, hOther⟩
  have hOwnPatterns :
      own.patterns =
        (ownCall task a.entry a.found a.pool).group.patterns ++
          written :=
    congrArg (fun out => out.2.patterns) hOwn ▸ hWritten
  rw [hParts] at hMore
  refine
    ⟨(ownCall task a.entry a.found a.pool).group.patterns, written,
      more ++
        [.bind (.node (.integer index)) task.options.branchVariable],
      ?_, hQ a.rank (congrArg Prod.fst hOwn), ?_, ?_⟩
  · unfold Addition.branch
    rw [hBranch, hMore, hOwnPatterns, List.append_assoc _ more]
  · intro p hp
    simp only [ownCall] at hp
    split at hp
    · cases List.mem_singleton.mp hp
      rfl
    · cases hp
  · intro p hp
    rcases List.mem_append.mp hp with hp | hp
    · exact hOther p hp
    · cases List.mem_singleton.mp hp
      rfl

/- A branch has all that its own call writes. -/
theorem Made.exists_written
    {task : Task}
    {index : Nat}
    {a : Addition}
    (h : Made task index a)
    {Q : Option String → List Pattern → Prop}
    (hEmits :
      Group.Emits
        (a.entry.emit
          ⟨task.mapping.codec, task.filter, task.options⟩
          a.found.args) Q) :
    ∃ written, Q a.rank written ∧ written ⊆ a.branch := by
  rcases h.exists_own hEmits with
    ⟨lead, written, rest, hBranch, hQ, _⟩
  refine ⟨written, hQ, ?_⟩
  rw [hBranch, List.append_assoc]
  intro p hp
  exact List.mem_append_right _ (List.mem_append_left _ hp)

end Compile

end StatementQuery
