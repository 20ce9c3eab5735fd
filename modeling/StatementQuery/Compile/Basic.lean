import StatementQuery.Compile.Plan

/-
  Compiling a filter into a query.

  For every target of the filter and every entry that can
  serve it, the query has one branch: the graph patterns of
  the entry's emission, then the snaks that the filter asks of
  the subject and of the value, and last the index of the
  branch.  Each branch has a plan by which its rows are read.

  Key definitions include:
    * `BranchPlan`
    * `CompiledQuery`
    * `CompileEvent`
    * `Compile.constrain`
    * `Compile.emitBranch`
    * `compile`
-/

------------------------------------------------------------
-- Compiled Queries
------------------------------------------------------------

namespace StatementQuery

/- How to read the rows of a branch. -/
structure BranchPlan where
  entryId : Nat
  pattern : Term
  bindings : Bindings
  template : Term
  rankVariable : Option String

namespace BranchPlan

/- The columns that a plan reads. -/
def columns (p : BranchPlan) : List String :=
  p.template.names

end BranchPlan

/- A query, and how to read its rows. -/
structure CompiledQuery where
  query : Query
  plans : List BranchPlan
  branchVariable : String
  defaultLanguage : String
  codec : Codec

namespace CompiledQuery

/- Whether a query cannot return any row. -/
def isAlwaysFalse (q : CompiledQuery) : Bool :=
  q.plans.isEmpty

end CompiledQuery

/- Why a filter cannot be compiled. -/
inductive CompileError where
| entry (id : Nat) (text : String)
| term (e : TermError)

namespace CompileError

/- The text of an error. -/
def message : CompileError → String
| .entry id text =>
    "entry " ++ id.repr ++ " failed: " ++ text
| .term e => e.message

end CompileError

/- What happens during compilation. -/
inductive CompileEvent where
| matchesNothing
| started (targets entries : Nat)
| skipped (entry : Nat) (reason : SkipReason)
| finished (branches : Nat)

end StatementQuery

------------------------------------------------------------
-- Snaks Of A Subject Or A Value
------------------------------------------------------------

namespace StatementQuery

namespace Compile

/-
  One alternative for each entry that can express a
  statement.  An entry that does not apply is left out, and a
  failure ends the alternatives.
-/
def expressGoal
    (context : EmissionContext)
    (kind : Kind)
    (goal : Term) :
    List Entry → AlternativesM (Except EntryError Unit)
| [] => pure (.ok ())
| e :: es => do
    if e.snakKind.kind = kind then
      let u ← get
      match e.plan? goal u.pool.used with
      | none => expressGoal context kind goal es
      | some found =>
          Alternatives.reserveAll found.names
          let body : EmitM (Option String) :=
            e.emit context found.args
          match ← Alternatives.branch body.run with
          | .error (.failed text) => pure (.error (.failed text))
          | _ => expressGoal context kind goal es
    else expressGoal context kind goal es

/- Require a term to have a snak. -/
def constrainOne
    (m : Mapping)
    (options : Options)
    (focus : Term)
    (snak : Ground) :
    EmitM Unit :=
  match Term.apply .statement [some focus, some (.ground snak)] with
  | .error e => throw (.failed e.message)
  | .ok goal =>
      ExceptT.mk
        (Group.union
          (expressGoal ⟨m.codec, .unrestricted, options⟩
            snak.kind goal m.entries))

/- Require a term to have every one of some snaks. -/
def constrain
    (m : Mapping)
    (options : Options)
    (focus : Term) :
    List Ground → EmitM Unit
| [] => pure ()
| snak :: snaks => do
    constrainOne m options focus snak
    constrain m options focus snaks

/- Require what a term settles to, to have some snaks. -/
def constrainSettled
    (m : Mapping)
    (options : Options)
    (θ : Bindings)
    (focus : Term)
    (snaks : List Ground) :
    EmitM Unit :=
  if snaks.isEmpty then pure ()
  else
    match Term.settle? θ focus with
    | some (some settled) => constrain m options settled snaks
    | _ => throw .skip

end Compile

end StatementQuery

------------------------------------------------------------
-- Branches
------------------------------------------------------------

namespace StatementQuery

namespace Compile

/- What stays the same while a filter is compiled. -/
structure Task where
  mapping : Mapping
  options : Options
  filter : Filter

/- What has been compiled so far. -/
structure Progress where
  alternatives : Alternatives
  plans : List BranchPlan := []
  events : List CompileEvent := []

/- A computation that adds branches to a query. -/
abbrev CompileM := StateM Progress

/- Record an event. -/
def record (event : CompileEvent) : CompileM Unit :=
  modify fun p => { p with events := p.events ++ [event] }

/- Add alternatives to the query. -/
def addAlternatives (body : AlternativesM α) : CompileM α := do
  let p ← get
  let (a, u) := body.run p.alternatives
  set { p with alternatives := u }
  pure a

/- The patterns of one branch, and its rank variable. -/
def emitBranch
    (task : Task)
    (t : Target)
    (e : Entry)
    (found : PatternMatch)
    (index : Nat) :
    EmitM (Option String) := do
  if task.options.debugComments then
    Group.comment ("entry " ++ e.id.repr)
  let rank ←
    e.emit ⟨task.mapping.codec, task.filter, task.options⟩
      found.args
  constrainSettled task.mapping task.options found.bindings
    t.subject t.subjectSnaks
  constrainSettled task.mapping task.options found.bindings
    t.value t.valueSnaks
  Group.bindAs (.node (.integer index))
    (.var task.options.branchVariable)
  pure rank

/- Add the branch of an entry that serves a target. -/
def addBranch
    (task : Task)
    (t : Target)
    (e : Entry)
    (found : PatternMatch) :
    CompileM (Except CompileError Unit) := do
  addAlternatives (Alternatives.reserveAll found.names)
  let p ← get
  let body := emitBranch task t e found p.plans.length
  match ← addAlternatives (Alternatives.branch body.run) with
  | .ok rank =>
      let plan : BranchPlan :=
        { entryId := e.id
          pattern := found.pattern
          bindings := found.bindings
          template := found.template
          rankVariable := rank }
      modify fun p => { p with plans := p.plans ++ [plan] }
      pure (.ok ())
  | .error .skip =>
      record (.skipped e.id .emission)
      pure (.ok ())
  | .error (.failed text) => pure (.error (.entry e.id text))

/- Let an entry serve a target, if it can. -/
def serve
    (task : Task)
    (t : Target)
    (e : Entry) :
    CompileM (Except CompileError Unit) := do
  match e.excludes? task.filter t with
  | some reason =>
      record (.skipped e.id reason)
      pure (.ok ())
  | none =>
      match t.statement e.snakKind with
      | .error err => pure (.error (.term err))
      | .ok goal =>
          let p ← get
          match e.plan? goal p.alternatives.pool.used with
          | none =>
              record (.skipped e.id .noPattern)
              pure (.ok ())
          | some found => addBranch task t e found

/- Let each of some entries serve a target. -/
def serveEntries
    (task : Task)
    (t : Target) :
    List Entry → CompileM (Except CompileError Unit)
| [] => pure (.ok ())
| e :: es => do
    match ← serve task t e with
    | .ok () => serveEntries task t es
    | .error err => pure (.error err)

/- Serve each of some targets. -/
def serveTargets
    (task : Task) :
    List Target → CompileM (Except CompileError Unit)
| [] => pure (.ok ())
| t :: ts => do
    match ← serveEntries task t task.mapping.entries with
    | .ok () => serveTargets task ts
    | .error err => pure (.error err)

/- Serve all targets of the filter, if it can match at all. -/
def serveFilter (task : Task) : CompileM (Except CompileError Unit) :=
  if task.filter.isEmpty then do
    record .matchesNothing
    pure (.ok ())
  else do
    let targets := Target.all task.mapping.codec task.filter
    record (.started targets.length task.mapping.entries.length)
    serveTargets task targets

/- The names that every query reserves. -/
def reservedNames (options : Options) : List String :=
  [Target.subjectName, Target.propertyName, Target.valueName,
    options.branchVariable]

end Compile

end StatementQuery

------------------------------------------------------------
-- Compilation
------------------------------------------------------------

namespace StatementQuery

/- The result of a compilation, and what happened in it. -/
structure Compilation where
  result : Except CompileError CompiledQuery
  events : List CompileEvent

/- Compile a filter into a query. -/
def compile
    (m : Mapping)
    (options : Options)
    (f : Filter) :
    Compilation :=
  let pool :=
    NamePool.empty.reserveAll (Compile.reservedNames options)
  let task : Compile.Task := ⟨m, options, f⟩
  let (result, p) :=
    (Compile.serveFilter task).run { alternatives := { pool } }
  match result with
  | .error e => ⟨.error e, p.events⟩
  | .ok () =>
      { result :=
          .ok
            { query :=
                { distinct := options.distinct
                  limit := options.limit
                  patterns :=
                    [Alternatives.pattern p.alternatives.branches] }
              plans := p.plans
              branchVariable := options.branchVariable
              defaultLanguage := options.defaultLanguage
              codec := m.codec }
        events := p.events ++ [.finished p.plans.length] }

end StatementQuery
