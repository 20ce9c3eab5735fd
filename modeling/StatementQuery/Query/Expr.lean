import StatementQuery.Query.Node

/-
  Expressions of filters and bindings, with their text.

  The text of an expression is the text of its tokens.
  Conjunctions, disjunctions, comparisons and membership tests
  stand in parentheses inside another expression.

  Key definitions include:
    * `Expr`
    * `Expr.Token`
    * `Expr.tokens`
    * `Expr.render`
-/

------------------------------------------------------------
-- Expressions
------------------------------------------------------------

namespace StatementQuery

/- An expression over nodes. -/
inductive Expr where
| node (n : Node)
| bool (b : Bool)
| eq (a b : Node)
| ne (a b : Node)
| isIn (a : Node) (nodes : List Node)
| and (items : List Expr)
| or (items : List Expr)
| not (e : Expr)
| call (name : String) (args : List Expr)

namespace Expr

/- A literal has the given language tag. -/
def langEq (n : Node) (language : String) : Expr :=
  .call "sameTerm"
    [.call "LANG" [.node n], .node (.string language)]

/- The text of a node starts with the given text. -/
def strStarts (n : Node) (start : String) : Expr :=
  .call "STRSTARTS"
    [.call "STR" [.node n], .node (.string start)]

/- Whether an expression needs parentheses in another one. -/
def isCompound : Expr → Bool
| .and _ | .or _ | .eq _ _ | .ne _ _ | .isIn _ _ => true
| _ => false

end Expr

end StatementQuery

------------------------------------------------------------
-- Tokens
------------------------------------------------------------

namespace StatementQuery

namespace Expr

/- A token of the text of an expression. -/
inductive Token where
| node (n : Node)
| bool (b : Bool)
| call (name : String)
| opening
| closing
| comma
| eq
| ne
| isIn
| and
| or
| not
deriving DecidableEq

namespace Token

/- The text of a token, with the blanks around it. -/
def text : Token → String
| .node n => n.render
| .bool b => if b then "true" else "false"
| .call name => name
| .opening => "("
| .closing => ")"
| .comma => ", "
| .eq => " = "
| .ne => " != "
| .isIn => " IN "
| .and => " && "
| .or => " || "
| .not => "!"

end Token

/- Tokens in parentheses. -/
def parenthesize (tokens : List Token) : List Token :=
  .opening :: tokens ++ [.closing]

/- Lists of tokens with a separator between them. -/
def separate (sep : Token) : List (List Token) → List Token
| [] => []
| [tokens] => tokens
| tokens :: rest => tokens ++ sep :: separate sep rest

mutual

/- The tokens of an expression. -/
def tokens : Expr → List Token
| .node n => [.node n]
| .bool b => [.bool b]
| .eq a b => [.node a, .eq, .node b]
| .ne a b => [.node a, .ne, .node b]
| .isIn a nodes =>
    .node a :: .isIn ::
      parenthesize
        (separate .comma (nodes.map fun n => [Token.node n]))
| .and [] => [.bool true]
| .and (e :: es) => separate .and (itemTokens (e :: es))
| .or [] => [.bool false]
| .or (e :: es) => separate .or (itemTokens (e :: es))
| .not e => .not :: parenthesize e.tokens
| .call name args =>
    .call name ::
      parenthesize (separate .comma (itemTokens args))

/- The tokens of each operand of an expression. -/
def itemTokens : List Expr → List (List Token)
| [] => []
| e :: es =>
    (if e.isCompound then parenthesize e.tokens else e.tokens) ::
      itemTokens es

end

/- The text of an expression. -/
def render (e : Expr) : String :=
  String.join (e.tokens.map Token.text)

end Expr

end StatementQuery
