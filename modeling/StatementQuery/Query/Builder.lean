import StatementQuery.Names
import StatementQuery.Query.Pattern

/-
  Building the patterns of a query.

  Groups are built inside one another, and all of them draw
  fresh names from one pool, so a name is handed out at most
  once in a query.  A name stays used also when the group it
  was drawn for is dropped.

  Key definitions include:
    * `NamePool`
    * `NamePool.fresh`
    * `Group`
    * `GroupM`
    * `Group.optional`
    * `Group.union`
    * `Alternatives.branch`
-/

------------------------------------------------------------
-- Names In Use
------------------------------------------------------------

namespace StatementQuery

/- The names in use in a query, the newest first. -/
structure NamePool where
  used : List String := []

namespace NamePool

/- No names. -/
def empty : NamePool :=
  ⟨[]⟩

/- Whether a name is in use. -/
def isUsed (pool : NamePool) (name : String) : Bool :=
  pool.used.contains name

/- Mark a name as used. -/
def reserve (pool : NamePool) (name : String) : NamePool :=
  if pool.isUsed name then pool else ⟨name :: pool.used⟩

/- Mark several names as used. -/
def reserveAll (pool : NamePool) (names : List String) : NamePool :=
  names.foldl reserve pool

/- The supply of names for a base: itself, then numbered. -/
def supply (base : String) : NameSupply :=
  ⟨[sanitizeName base], sanitizeName base⟩

/- A name not in use before, and the pool that has it. -/
def fresh (pool : NamePool) (base : String) : String × NamePool :=
  let name := (supply base).fresh pool.used
  (name, pool.reserve name)

end NamePool

end StatementQuery

------------------------------------------------------------
-- Groups
------------------------------------------------------------

namespace StatementQuery

/- A group of patterns under construction. -/
structure Group where
  pool : NamePool
  patterns : List Pattern := []

/- A computation that adds to a group. -/
abbrev GroupM := StateM Group

namespace Group

/- Add a pattern. -/
def add (p : Pattern) : GroupM Unit :=
  modify fun g => { g with patterns := g.patterns ++ [p] }

/- Add a triple. -/
def triple (s p o : Node) : GroupM Unit :=
  add (.triple s p o)

/- Bind a variable to an expression; a constant is left. -/
def bindAs (e : Expr) (target : Node) : GroupM Unit :=
  match target.varName? with
  | some name => add (.bind e name)
  | none => pure ()

/- Add a filter. -/
def filter (e : Expr) : GroupM Unit :=
  add (.filter e)

/- Restrict a node to given nodes. -/
def values (target : Node) (nodes : List Node) : GroupM Unit :=
  match target.varName? with
  | some name => add (.values name nodes)
  | none => add (.filter (.isIn target nodes))

/- Add a comment. -/
def comment (text : String) : GroupM Unit :=
  add (.comment text)

/- Mark a name as used. -/
def reserve (name : String) : GroupM Unit :=
  modify fun g => { g with pool := g.pool.reserve name }

/- A variable with a name not in use before. -/
def freshVar (base : String) : GroupM Node := do
  let g ← get
  let (name, pool) := g.pool.fresh base
  set { g with pool }
  pure (.var name)

/- Whether nothing has been added yet. -/
def isEmpty : GroupM Bool := do
  let g ← get
  pure g.patterns.isEmpty

/- Build a group inside this one, and return its patterns. -/
def nested (body : GroupM α) : GroupM (List Pattern × α) := do
  let g ← get
  let (a, inner) := body.run { pool := g.pool }
  set { g with pool := inner.pool }
  pure (inner.patterns, a)

/- Add what a computation builds, as one piece. -/
def inline (body : GroupM α) : GroupM α := do
  let (patterns, a) ← nested body
  modify fun g => { g with patterns := g.patterns ++ patterns }
  pure a

/- Add an optional group, unless it is empty. -/
def optional (body : GroupM α) : GroupM α := do
  let (patterns, a) ← nested body
  if !patterns.isEmpty then add (.optional patterns)
  pure a

/- Add a group that must not match, unless it is empty. -/
def notExists (body : GroupM α) : GroupM α := do
  let (patterns, a) ← nested body
  if !patterns.isEmpty then add (.notExists patterns)
  pure a

/- Add a group. -/
def group (body : GroupM α) : GroupM α := do
  let (patterns, a) ← nested body
  add (.group patterns)
  pure a

end Group

end StatementQuery

------------------------------------------------------------
-- Alternatives
------------------------------------------------------------

namespace StatementQuery

/- Alternatives under construction. -/
structure Alternatives where
  pool : NamePool
  branches : List (List Pattern) := []

/- A computation that adds alternatives. -/
abbrev AlternativesM := StateM Alternatives

namespace Alternatives

/- Add a branch, which is kept only when it succeeds. -/
def branch
    (body : GroupM (Except ε α)) :
    AlternativesM (Except ε α) := do
  let u ← get
  let (result, inner) := body.run { pool := u.pool }
  let branches :=
    match result with
    | .ok _ => u.branches ++ [inner.patterns]
    | .error _ => u.branches
  set { u with pool := inner.pool, branches }
  pure result

/- Mark names as used. -/
def reserveAll (names : List String) : AlternativesM Unit :=
  modify fun u => { u with pool := u.pool.reserveAll names }

/- The pattern of alternatives; without any, nothing matches. -/
def pattern (branches : List (List Pattern)) : Pattern :=
  match branches with
  | [] => .filter (.bool false)
  | branches => .union branches

end Alternatives

namespace Group

/- Add alternatives. -/
def union (body : AlternativesM α) : GroupM α := do
  let g ← get
  let (a, u) := body.run { pool := g.pool }
  set { g with pool := u.pool }
  add (Alternatives.pattern u.branches)
  pure a

end Group

end StatementQuery
