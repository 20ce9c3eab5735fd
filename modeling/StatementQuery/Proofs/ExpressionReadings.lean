import StatementQuery.Query.Expr

/-
  The text of an expression is read with its meaning.

  A reading is a tree of the grammar in which texts of expressions
  are read: disjunctions of conjunctions of relations, where a
  comparison does not take another one for an operand, and all
  else stands in parentheses.  The tokens of a reading can be
  parsed in one way only.  The tokens of an expression have a
  reading, and it is true when the expression is, whatever the
  atoms are taken to be.

  Key definitions include:
    * `Expr.Reading.Disjunction`
    * `Expr.Reading.parse`
    * `Expr.form`
    * `Expr.truth`

  Main declarations:
    * `Expr.Reading.parseDisjunction_tokens`
    * `Expr.Reading.parse_tokens`
    * `Expr.tokens_form`
    * `Expr.truth_form`
    * `Expr.parsed_with_meaning`
-/

------------------------------------------------------------
-- The Grammar
------------------------------------------------------------

namespace StatementQuery

namespace Expr

namespace Reading

mutual

/- An operand that stands for itself, or is in parentheses. -/
inductive Primary where
| node (n : Node)
| bool (b : Bool)
| paren (d : Disjunction)
| call (name : String) (args : Arguments)

/- An operand, or the negation of one. -/
inductive Unary where
| plain (p : Primary)
| not (p : Primary)

/- Two operands that are compared, a membership test, or one. -/
inductive Relation where
| plain (a : Unary)
| eq (a b : Unary)
| ne (a b : Unary)
| isIn (a : Unary) (args : Arguments)

/- Relations that must all hold. -/
inductive Conjunction where
| last (r : Relation)
| more (r : Relation) (rest : Conjunction)

/- Conjunctions of which one must hold. -/
inductive Disjunction where
| last (c : Conjunction)
| more (c : Conjunction) (rest : Disjunction)

/- What stands in the parentheses of a call or a test. -/
inductive Arguments where
| empty
| list (items : Items)

/- One or more disjunctions with commas between them. -/
inductive Items where
| last (d : Disjunction)
| more (d : Disjunction) (rest : Items)

end

mutual

/- The tokens of a primary operand. -/
def Primary.tokens : Primary → List Token
| .node n => [.node n]
| .bool b => [.bool b]
| .paren d => .opening :: (d.tokens ++ [.closing])
| .call name args => .call name :: args.tokens

/- The tokens of an operand. -/
def Unary.tokens : Unary → List Token
| .plain p => p.tokens
| .not p => .not :: p.tokens

/- The tokens of a relation. -/
def Relation.tokens : Relation → List Token
| .plain a => a.tokens
| .eq a b => a.tokens ++ .eq :: b.tokens
| .ne a b => a.tokens ++ .ne :: b.tokens
| .isIn a args => a.tokens ++ .isIn :: args.tokens

/- The tokens of a conjunction. -/
def Conjunction.tokens : Conjunction → List Token
| .last r => r.tokens
| .more r rest => r.tokens ++ .and :: rest.tokens

/- The tokens of a disjunction. -/
def Disjunction.tokens : Disjunction → List Token
| .last c => c.tokens
| .more c rest => c.tokens ++ .or :: rest.tokens

/- The tokens of arguments, with their parentheses. -/
def Arguments.tokens : Arguments → List Token
| .empty => [.opening, .closing]
| .list items => .opening :: (items.tokens ++ [.closing])

/- The tokens of items. -/
def Items.tokens : Items → List Token
| .last d => d.tokens
| .more d rest => d.tokens ++ .comma :: rest.tokens

end

end Reading

end Expr

end StatementQuery

------------------------------------------------------------
-- The Parser
------------------------------------------------------------

namespace StatementQuery

namespace Expr

namespace Reading

mutual

/- Read a primary operand, with so many calls at most. -/
def parsePrimary :
    Nat → List Token → Option (Primary × List Token)
| 0, _ => none
| _ + 1, .node n :: ts => some (.node n, ts)
| _ + 1, .bool b :: ts => some (.bool b, ts)
| n + 1, .opening :: ts =>
    match parseDisjunction n ts with
    | some (d, .closing :: ts) => some (.paren d, ts)
    | _ => none
| n + 1, .call name :: ts =>
    match parseArguments n ts with
    | some (args, ts) => some (.call name args, ts)
    | none => none
| _, _ => none

/- Read an operand. -/
def parseUnary : Nat → List Token → Option (Unary × List Token)
| 0, _ => none
| n + 1, .not :: ts =>
    match parsePrimary n ts with
    | some (p, ts) => some (.not p, ts)
    | none => none
| n + 1, ts =>
    match parsePrimary n ts with
    | some (p, ts) => some (.plain p, ts)
    | none => none

/- Read a relation. -/
def parseRelation :
    Nat → List Token → Option (Relation × List Token)
| 0, _ => none
| n + 1, ts =>
    match parseUnary n ts with
    | some (a, .eq :: ts) =>
        match parseUnary n ts with
        | some (b, ts) => some (.eq a b, ts)
        | none => none
    | some (a, .ne :: ts) =>
        match parseUnary n ts with
        | some (b, ts) => some (.ne a b, ts)
        | none => none
    | some (a, .isIn :: ts) =>
        match parseArguments n ts with
        | some (args, ts) => some (.isIn a args, ts)
        | none => none
    | some (a, ts) => some (.plain a, ts)
    | none => none

/- Read a conjunction. -/
def parseConjunction :
    Nat → List Token → Option (Conjunction × List Token)
| 0, _ => none
| n + 1, ts =>
    match parseRelation n ts with
    | some (r, .and :: ts) =>
        match parseConjunction n ts with
        | some (rest, ts) => some (.more r rest, ts)
        | none => none
    | some (r, ts) => some (.last r, ts)
    | none => none

/- Read a disjunction. -/
def parseDisjunction :
    Nat → List Token → Option (Disjunction × List Token)
| 0, _ => none
| n + 1, ts =>
    match parseConjunction n ts with
    | some (c, .or :: ts) =>
        match parseDisjunction n ts with
        | some (rest, ts) => some (.more c rest, ts)
        | none => none
    | some (c, ts) => some (.last c, ts)
    | none => none

/- Read arguments. -/
def parseArguments :
    Nat → List Token → Option (Arguments × List Token)
| 0, _ => none
| _ + 1, .opening :: .closing :: ts => some (.empty, ts)
| n + 1, .opening :: ts =>
    match parseItems n ts with
    | some (items, .closing :: ts) => some (.list items, ts)
    | _ => none
| _, _ => none

/- Read items. -/
def parseItems : Nat → List Token → Option (Items × List Token)
| 0, _ => none
| n + 1, ts =>
    match parseDisjunction n ts with
    | some (d, .comma :: ts) =>
        match parseItems n ts with
        | some (rest, ts) => some (.more d rest, ts)
        | none => none
    | some (d, ts) => some (.last d, ts)
    | none => none

end

end Reading

end Expr

end StatementQuery

------------------------------------------------------------
-- Readings Are Parsed
------------------------------------------------------------

namespace StatementQuery

namespace Expr

/-
  How loosely a token binds what stands before it to what comes
  after it.
-/
def Token.looseness : Token → Nat
| .eq | .ne | .isIn => 1
| .and => 2
| .or => 3
| .comma => 4
| _ => 5

namespace Reading

/- What comes next is bound more loosely. -/
def Follows (looseness : Nat) (rest : List Token) : Prop :=
  ∀ t, rest.head? = some t → looseness < t.looseness

theorem Follows.nil
    (looseness : Nat) :
    Follows looseness [] := by
  rintro t ⟨⟩

theorem Follows.cons
    {looseness : Nat}
    {t : Token}
    (h : looseness < t.looseness)
    (rest : List Token) :
    Follows looseness (t :: rest) := by
  rintro _ ⟨⟩
  exact h

theorem Follows.mono
    {looseness looseness' : Nat}
    {rest : List Token}
    (h : Follows looseness rest)
    (hLe : looseness' ≤ looseness) :
    Follows looseness' rest :=
  fun t ht => Nat.lt_of_le_of_lt hLe (h t ht)

mutual

/- How many calls it takes to read a primary operand. -/
def Primary.size : Primary → Nat
| .node _ => 1
| .bool _ => 1
| .paren d => d.size + 1
| .call _ args => args.size + 1

/- How many calls it takes to read an operand. -/
def Unary.size : Unary → Nat
| .plain p => p.size + 1
| .not p => p.size + 1

/- How many calls it takes to read a relation. -/
def Relation.size : Relation → Nat
| .plain a => a.size + 1
| .eq a b => a.size + b.size + 1
| .ne a b => a.size + b.size + 1
| .isIn a args => a.size + args.size + 1

/- How many calls it takes to read a conjunction. -/
def Conjunction.size : Conjunction → Nat
| .last r => r.size + 1
| .more r rest => r.size + rest.size + 1

/- How many calls it takes to read a disjunction. -/
def Disjunction.size : Disjunction → Nat
| .last c => c.size + 1
| .more c rest => c.size + rest.size + 1

/- How many calls it takes to read arguments. -/
def Arguments.size : Arguments → Nat
| .empty => 1
| .list items => items.size + 1

/- How many calls it takes to read items. -/
def Items.size : Items → Nat
| .last d => d.size + 1
| .more d rest => d.size + rest.size + 1

end

mutual

/- No reading takes more calls than six for each token. -/
theorem Primary.size_le :
    (p : Primary) → p.size + 5 ≤ 6 * p.tokens.length
| .node _ => by simp [Primary.size, Primary.tokens]
| .bool _ => by simp [Primary.size, Primary.tokens]
| .paren d => by
    have hInner := d.size_le
    simp only [Primary.size, Primary.tokens, List.length_cons,
      List.length_append, List.length_nil]
    omega
| .call _ args => by
    have hArgs := args.size_le
    simp only [Primary.size, Primary.tokens, List.length_cons]
    omega

theorem Unary.size_le :
    (a : Unary) → a.size + 4 ≤ 6 * a.tokens.length
| .plain p => by
    have hOperand := p.size_le
    simp only [Unary.size, Unary.tokens]
    omega
| .not p => by
    have hOperand := p.size_le
    simp only [Unary.size, Unary.tokens, List.length_cons]
    omega

theorem Relation.size_le :
    (r : Relation) → r.size + 3 ≤ 6 * r.tokens.length
| .plain a => by
    have hOperand := a.size_le
    simp only [Relation.size, Relation.tokens]
    omega
| .eq a b => by
    have hLeft := a.size_le
    have hRight := b.size_le
    simp only [Relation.size, Relation.tokens, List.length_append,
      List.length_cons]
    omega
| .ne a b => by
    have hLeft := a.size_le
    have hRight := b.size_le
    simp only [Relation.size, Relation.tokens, List.length_append,
      List.length_cons]
    omega
| .isIn a args => by
    have hLeft := a.size_le
    have hRight := args.size_le
    simp only [Relation.size, Relation.tokens, List.length_append,
      List.length_cons]
    omega

theorem Conjunction.size_le :
    (c : Conjunction) → c.size + 2 ≤ 6 * c.tokens.length
| .last r => by
    have hFirst := r.size_le
    simp only [Conjunction.size, Conjunction.tokens]
    omega
| .more r rest => by
    have hFirst := r.size_le
    have hRest := rest.size_le
    simp only [Conjunction.size, Conjunction.tokens,
      List.length_append, List.length_cons]
    omega

theorem Disjunction.size_le :
    (d : Disjunction) → d.size + 1 ≤ 6 * d.tokens.length
| .last c => by
    have hFirst := c.size_le
    simp only [Disjunction.size, Disjunction.tokens]
    omega
| .more c rest => by
    have hFirst := c.size_le
    have hRest := rest.size_le
    simp only [Disjunction.size, Disjunction.tokens,
      List.length_append, List.length_cons]
    omega

theorem Arguments.size_le :
    (args : Arguments) → args.size + 5 ≤ 6 * args.tokens.length
| .empty => by simp [Arguments.size, Arguments.tokens]
| .list items => by
    have hItems := items.size_le
    simp only [Arguments.size, Arguments.tokens, List.length_cons,
      List.length_append, List.length_nil]
    omega

theorem Items.size_le :
    (items : Items) → items.size ≤ 6 * items.tokens.length
| .last d => by
    have hFirst := d.size_le
    simp only [Items.size, Items.tokens]
    omega
| .more d rest => by
    have hFirst := d.size_le
    have hRest := rest.size_le
    simp only [Items.size, Items.tokens, List.length_append,
      List.length_cons]
    omega

end

/- Tokens that start neither with `!` nor with a closing one. -/
theorem Primary.exists_tokens
    (p : Primary) :
    ∃ t ts, p.tokens = t :: ts ∧ t ≠ .not ∧ t ≠ .closing := by
  cases p <;> exact ⟨_, _, rfl, by simp, by simp⟩

/- Tokens that do not start with a closing one. -/
def Opens (ts : List Token) : Prop :=
  ∃ t rest, ts = t :: rest ∧ t ≠ .closing

theorem Opens.append
    {ts : List Token}
    (h : Opens ts)
    (more : List Token) :
    Opens (ts ++ more) := by
  rcases h with ⟨t, rest, rfl, ht⟩
  exact ⟨t, rest ++ more, rfl, ht⟩

theorem Unary.opens
    (a : Unary) :
    Opens a.tokens := by
  cases a with
  | plain p =>
      rcases p.exists_tokens with ⟨t, ts, hTokens, _, hClosing⟩
      exact ⟨t, ts, hTokens, hClosing⟩
  | not p => exact ⟨.not, p.tokens, rfl, by simp⟩

theorem Relation.opens
    (r : Relation) :
    Opens r.tokens := by
  cases r with
  | plain a => exact a.opens
  | eq a b => exact a.opens.append _
  | ne a b => exact a.opens.append _
  | isIn a args => exact a.opens.append _

theorem Conjunction.opens
    (c : Conjunction) :
    Opens c.tokens := by
  cases c with
  | last r => exact r.opens
  | more r rest => exact r.opens.append _

theorem Disjunction.opens
    (d : Disjunction) :
    Opens d.tokens := by
  cases d with
  | last c => exact c.opens
  | more c rest => exact c.opens.append _

theorem Items.opens
    (items : Items) :
    Opens items.tokens := by
  cases items with
  | last d => exact d.opens
  | more d rest => exact d.opens.append _

section Steps

variable {n : Nat} {ts rest : List Token}

/- An operand that is not negated is a primary one. -/
theorem parseUnary_plain
    {p : Primary}
    (h : parsePrimary n ts = some (p, rest))
    {t : Token}
    {more : List Token}
    (hTokens : ts = t :: more)
    (ht : t ≠ .not) :
    parseUnary (n + 1) ts = some (.plain p, rest) := by
  subst hTokens
  cases t <;> simp_all [parseUnary]

/- A relation ends where no comparison follows. -/
theorem parseRelation_plain
    {a : Unary}
    (h : parseUnary n ts = some (a, rest))
    (hRest : Follows 1 rest) :
    parseRelation (n + 1) ts = some (.plain a, rest) := by
  unfold parseRelation
  rw [h]
  cases rest with
  | nil => rfl
  | cons t more =>
      have ht := hRest t rfl
      cases t <;> first | rfl | exact absurd ht (by decide)

/- A conjunction ends where no `&&` follows. -/
theorem parseConjunction_last
    {r : Relation}
    (h : parseRelation n ts = some (r, rest))
    (hRest : Follows 2 rest) :
    parseConjunction (n + 1) ts = some (.last r, rest) := by
  unfold parseConjunction
  rw [h]
  cases rest with
  | nil => rfl
  | cons t more =>
      have ht := hRest t rfl
      cases t <;> first | rfl | exact absurd ht (by decide)

/- A disjunction ends where no `||` follows. -/
theorem parseDisjunction_last
    {c : Conjunction}
    (h : parseConjunction n ts = some (c, rest))
    (hRest : Follows 3 rest) :
    parseDisjunction (n + 1) ts = some (.last c, rest) := by
  unfold parseDisjunction
  rw [h]
  cases rest with
  | nil => rfl
  | cons t more =>
      have ht := hRest t rfl
      cases t <;> first | rfl | exact absurd ht (by decide)

/- Items end where no comma follows. -/
theorem parseItems_last
    {d : Disjunction}
    (h : parseDisjunction n ts = some (d, rest))
    (hRest : Follows 4 rest) :
    parseItems (n + 1) ts = some (.last d, rest) := by
  unfold parseItems
  rw [h]
  cases rest with
  | nil => rfl
  | cons t more =>
      have ht := hRest t rfl
      cases t <;> first | rfl | exact absurd ht (by decide)

/- Arguments that are not empty have items. -/
theorem parseArguments_list
    {items : Items}
    (h : parseItems n ts = some (items, .closing :: rest))
    (hOpens : Opens ts) :
    parseArguments (n + 1) (.opening :: ts) =
      some (.list items, rest) := by
  rcases hOpens with ⟨t, more, rfl, ht⟩
  cases t <;> simp_all [parseArguments]

end Steps

mutual

/-
  What is read from the tokens of a reading, before others that
  are bound more loosely, is the reading.
-/
theorem parsePrimary_tokens
    (p : Primary)
    (n : Nat)
    (hn : p.size ≤ n)
    (rest : List Token) :
    parsePrimary n (p.tokens ++ rest) = some (p, rest) := by
  cases n with
  | zero => cases p <;> simp [Primary.size] at hn
  | succ n =>
  cases p with
  | node m => rfl
  | bool b => rfl
  | paren d =>
      have hInner :=
        parseDisjunction_tokens d n (Nat.le_of_succ_le_succ hn)
          (.closing :: rest) (.cons (by decide) rest)
      simp [Primary.tokens, parsePrimary, hInner]
  | call name args =>
      have hArgs :=
        parseArguments_tokens args n (Nat.le_of_succ_le_succ hn)
          rest
      simp [Primary.tokens, parsePrimary, hArgs]
termination_by structural p

theorem parseUnary_tokens
    (a : Unary)
    (n : Nat)
    (hn : a.size ≤ n)
    (rest : List Token) :
    parseUnary n (a.tokens ++ rest) = some (a, rest) := by
  cases n with
  | zero => cases a <;> simp [Unary.size] at hn
  | succ n =>
  cases a with
  | plain p =>
      have hOperand :=
        parsePrimary_tokens p n (Nat.le_of_succ_le_succ hn) rest
      rcases p.exists_tokens with ⟨t, ts, hTokens, ht, _⟩
      have hStart : p.tokens ++ rest = t :: (ts ++ rest) := by
        rw [hTokens]
        rfl
      exact parseUnary_plain hOperand hStart ht
  | not p =>
      have hOperand :=
        parsePrimary_tokens p n (Nat.le_of_succ_le_succ hn) rest
      simp [Unary.tokens, parseUnary, hOperand]
termination_by structural a

theorem parseRelation_tokens
    (r : Relation)
    (n : Nat)
    (hn : r.size ≤ n)
    (rest : List Token)
    (hRest : Follows 1 rest) :
    parseRelation n (r.tokens ++ rest) = some (r, rest) := by
  cases n with
  | zero => cases r <;> simp [Relation.size] at hn
  | succ n =>
  cases r with
  | plain a =>
      exact parseRelation_plain
        (parseUnary_tokens a n (Nat.le_of_succ_le_succ hn) rest)
        hRest
  | eq a b =>
      simp only [Relation.size] at hn
      have hLeft :=
        parseUnary_tokens a n (by omega) (.eq :: (b.tokens ++ rest))
      have hRight := parseUnary_tokens b n (by omega) rest
      simp [Relation.tokens, parseRelation, hLeft, hRight]
  | ne a b =>
      simp only [Relation.size] at hn
      have hLeft :=
        parseUnary_tokens a n (by omega) (.ne :: (b.tokens ++ rest))
      have hRight := parseUnary_tokens b n (by omega) rest
      simp [Relation.tokens, parseRelation, hLeft, hRight]
  | isIn a args =>
      simp only [Relation.size] at hn
      have hLeft :=
        parseUnary_tokens a n (by omega)
          (.isIn :: (args.tokens ++ rest))
      have hRight := parseArguments_tokens args n (by omega) rest
      simp [Relation.tokens, parseRelation, hLeft, hRight]
termination_by structural r

theorem parseConjunction_tokens
    (c : Conjunction)
    (n : Nat)
    (hn : c.size ≤ n)
    (rest : List Token)
    (hRest : Follows 2 rest) :
    parseConjunction n (c.tokens ++ rest) = some (c, rest) := by
  cases n with
  | zero => cases c <;> simp [Conjunction.size] at hn
  | succ n =>
  cases c with
  | last r =>
      exact parseConjunction_last
        (parseRelation_tokens r n (Nat.le_of_succ_le_succ hn) rest
          (hRest.mono (by decide)))
        hRest
  | more r more =>
      simp only [Conjunction.size] at hn
      have hFirst :=
        parseRelation_tokens r n (by omega)
          (.and :: (more.tokens ++ rest)) (.cons (by decide) _)
      have hMore :=
        parseConjunction_tokens more n (by omega) rest hRest
      simp [Conjunction.tokens, parseConjunction, hFirst, hMore]
termination_by structural c

theorem parseDisjunction_tokens
    (d : Disjunction)
    (n : Nat)
    (hn : d.size ≤ n)
    (rest : List Token)
    (hRest : Follows 3 rest) :
    parseDisjunction n (d.tokens ++ rest) = some (d, rest) := by
  cases n with
  | zero => cases d <;> simp [Disjunction.size] at hn
  | succ n =>
  cases d with
  | last c =>
      exact parseDisjunction_last
        (parseConjunction_tokens c n (Nat.le_of_succ_le_succ hn)
          rest (hRest.mono (by decide)))
        hRest
  | more c more =>
      simp only [Disjunction.size] at hn
      have hFirst :=
        parseConjunction_tokens c n (by omega)
          (.or :: (more.tokens ++ rest)) (.cons (by decide) _)
      have hMore :=
        parseDisjunction_tokens more n (by omega) rest hRest
      simp [Disjunction.tokens, parseDisjunction, hFirst, hMore]
termination_by structural d

theorem parseArguments_tokens
    (args : Arguments)
    (n : Nat)
    (hn : args.size ≤ n)
    (rest : List Token) :
    parseArguments n (args.tokens ++ rest) = some (args, rest) := by
  cases n with
  | zero => cases args <;> simp [Arguments.size] at hn
  | succ n =>
  cases args with
  | empty => rfl
  | list items =>
      have hItems :=
        parseItems_tokens items n (Nat.le_of_succ_le_succ hn)
          (.closing :: rest) (.cons (by decide) rest)
      have hList :=
        parseArguments_list hItems (items.opens.append _)
      simpa [Arguments.tokens] using hList
termination_by structural args

theorem parseItems_tokens
    (items : Items)
    (n : Nat)
    (hn : items.size ≤ n)
    (rest : List Token)
    (hRest : Follows 4 rest) :
    parseItems n (items.tokens ++ rest) = some (items, rest) := by
  cases n with
  | zero => cases items <;> simp [Items.size] at hn
  | succ n =>
  cases items with
  | last d =>
      exact parseItems_last
        (parseDisjunction_tokens d n (Nat.le_of_succ_le_succ hn)
          rest (hRest.mono (by decide)))
        hRest
  | more d more =>
      simp only [Items.size] at hn
      have hFirst :=
        parseDisjunction_tokens d n (by omega)
          (.comma :: (more.tokens ++ rest)) (.cons (by decide) _)
      have hMore := parseItems_tokens more n (by omega) rest hRest
      simp [Items.tokens, parseItems, hFirst, hMore]
termination_by structural items

end

end Reading

end Expr

end StatementQuery

------------------------------------------------------------
-- Expressions As Readings
------------------------------------------------------------

namespace StatementQuery

namespace Expr

namespace Reading

/- A node as an operand. -/
def Unary.ofNode (n : Node) : Unary :=
  .plain (.node n)

/- A relation by itself. -/
def Disjunction.ofRelation (r : Relation) : Disjunction :=
  .last (.last r)

/- An operand by itself. -/
def Disjunction.ofUnary (a : Unary) : Disjunction :=
  .ofRelation (.plain a)

/- The conjunction of operands. -/
def Conjunction.ofUnaries (a : Unary) : List Unary → Conjunction
| [] => .last (.plain a)
| b :: bs => .more (.plain a) (ofUnaries b bs)

/- The disjunction of operands. -/
def Disjunction.ofUnaries (a : Unary) : List Unary → Disjunction
| [] => .ofUnary a
| b :: bs => .more (.last (.plain a)) (ofUnaries b bs)

/- Operands as items. -/
def Items.ofUnaries (a : Unary) : List Unary → Items
| [] => .last (.ofUnary a)
| b :: bs => .more (.ofUnary a) (ofUnaries b bs)

/- Operands as arguments. -/
def Arguments.ofUnaries : List Unary → Arguments
| [] => .empty
| a :: as => .list (.ofUnaries a as)

theorem Conjunction.tokens_ofUnaries
    (a : Unary)
    (as : List Unary) :
    (ofUnaries a as).tokens =
      separate .and ((a :: as).map Unary.tokens) := by
  induction as generalizing a with
  | nil => rfl
  | cons b bs ih =>
      simp only [ofUnaries, tokens, Relation.tokens, ih]
      simp [separate]

theorem Disjunction.tokens_ofUnaries
    (a : Unary)
    (as : List Unary) :
    (ofUnaries a as).tokens =
      separate .or ((a :: as).map Unary.tokens) := by
  induction as generalizing a with
  | nil => rfl
  | cons b bs ih =>
      simp only [ofUnaries, tokens, Conjunction.tokens,
        Relation.tokens, ih]
      simp [separate]

theorem Items.tokens_ofUnaries
    (a : Unary)
    (as : List Unary) :
    (ofUnaries a as).tokens =
      separate .comma ((a :: as).map Unary.tokens) := by
  induction as generalizing a with
  | nil => rfl
  | cons b bs ih =>
      simp only [ofUnaries, tokens, Disjunction.ofUnary,
        Disjunction.ofRelation, Disjunction.tokens,
        Conjunction.tokens, Relation.tokens, ih]
      simp [separate]

theorem Arguments.tokens_ofUnaries
    (as : List Unary) :
    (ofUnaries as).tokens =
      parenthesize (separate .comma (as.map Unary.tokens)) := by
  cases as with
  | nil => rfl
  | cons a as =>
      rw [ofUnaries, tokens, Items.tokens_ofUnaries]
      rfl

end Reading

open Reading

/-
  How an expression is written inside another one: as an operand,
  or in parentheses.
-/
inductive Form where
| operand (a : Unary)
| compound (d : Disjunction)

namespace Form

/- The form inside another expression. -/
def unary : Form → Unary
| .operand a => a
| .compound d => .plain (.paren d)

/- The form by itself. -/
def reading : Form → Disjunction
| .operand a => .ofUnary a
| .compound d => d

/- Whether the form needs parentheses. -/
def isCompound : Form → Bool
| .operand _ => false
| .compound _ => true

theorem tokens_unary
    (f : Form) :
    f.unary.tokens =
      if f.isCompound then parenthesize f.reading.tokens
      else f.reading.tokens := by
  cases f <;> rfl

end Form

mutual

/- The form of an expression. -/
def form : Expr → Form
| .node n => .operand (.ofNode n)
| .bool b => .operand (.plain (.bool b))
| .eq a b => .compound (.ofRelation (.eq (.ofNode a) (.ofNode b)))
| .ne a b => .compound (.ofRelation (.ne (.ofNode a) (.ofNode b)))
| .isIn a nodes =>
    .compound
      (.ofRelation
        (.isIn (.ofNode a) (.ofUnaries (nodes.map .ofNode))))
| .and [] => .compound (.ofUnary (.plain (.bool true)))
| .and (e :: es) =>
    .compound (.last (.ofUnaries e.form.unary (operands es)))
| .or [] => .compound (.ofUnary (.plain (.bool false)))
| .or (e :: es) =>
    .compound (.ofUnaries e.form.unary (operands es))
| .not e => .operand (.not (.paren e.form.reading))
| .call name args =>
    .operand (.plain (.call name (.ofUnaries (operands args))))

/- Expressions as operands. -/
def operands : List Expr → List Unary
| [] => []
| e :: es => e.form.unary :: operands es

end

theorem isCompound_form
    (e : Expr) :
    e.form.isCompound = e.isCompound := by
  cases e with
  | and items =>
      cases items <;> simp [form, Form.isCompound, isCompound]
  | or items =>
      cases items <;> simp [form, Form.isCompound, isCompound]
  | _ => simp [form, Form.isCompound, isCompound]

mutual

/- The reading of an expression has the tokens of it. -/
theorem tokens_form :
    (e : Expr) → e.form.reading.tokens = e.tokens
| .node _ => by
    rw [form, tokens]
    rfl
| .bool _ => by
    rw [form, tokens]
    rfl
| .eq _ _ => by
    rw [form, tokens]
    rfl
| .ne _ _ => by
    rw [form, tokens]
    rfl
| .isIn a nodes => by
    have hNodes := Arguments.tokens_ofUnaries (nodes.map .ofNode)
    rw [List.map_map] at hNodes
    rw [form, tokens]
    exact congrArg (fun ts => .node a :: .isIn :: ts) hNodes
| .and [] => by
    rw [form, tokens]
    rfl
| .and (e :: es) => by
    have hItems := tokens_operands (e :: es)
    rw [operands] at hItems
    rw [form, tokens, ← hItems]
    exact Conjunction.tokens_ofUnaries _ _
| .or [] => by
    rw [form, tokens]
    rfl
| .or (e :: es) => by
    have hItems := tokens_operands (e :: es)
    rw [operands] at hItems
    rw [form, tokens, ← hItems]
    exact Disjunction.tokens_ofUnaries _ _
| .not e => by
    have hInner := tokens_form e
    rw [form, tokens, ← hInner]
    rfl
| .call name args => by
    have hArgs := Arguments.tokens_ofUnaries (operands args)
    rw [tokens_operands args] at hArgs
    rw [form, tokens, ← hArgs]
    rfl

theorem tokens_operands :
    (es : List Expr) →
      (operands es).map Unary.tokens = itemTokens es
| [] => by simp [operands, itemTokens]
| e :: es => by
    rw [operands, itemTokens, List.map_cons, Form.tokens_unary,
      isCompound_form, tokens_form e, tokens_operands es]

end

end Expr

end StatementQuery

------------------------------------------------------------
-- Truth
------------------------------------------------------------

namespace StatementQuery

namespace Expr

/- What is true of the atoms, each told by its tokens. -/
abbrev Assignment := List Token → Bool

namespace Reading

variable (v : Assignment)

mutual

/- Whether a primary operand is true. -/
def Primary.truth : Primary → Bool
| .paren d => d.truth
| atom => v atom.tokens

/- Whether an operand is true. -/
def Unary.truth : Unary → Bool
| .plain p => p.truth
| .not p => !p.truth

/- Whether a relation is true. -/
def Relation.truth : Relation → Bool
| .plain a => a.truth
| atom => v atom.tokens

/- Whether a conjunction is true. -/
def Conjunction.truth : Conjunction → Bool
| .last r => r.truth
| .more r rest => r.truth && rest.truth

/- Whether a disjunction is true. -/
def Disjunction.truth : Disjunction → Bool
| .last c => c.truth
| .more c rest => c.truth || rest.truth

end

theorem Conjunction.truth_ofUnaries
    (a : Unary)
    (as : List Unary) :
    (ofUnaries a as).truth v = (a :: as).all (Unary.truth v) := by
  induction as generalizing a with
  | nil => simp [ofUnaries, truth, Relation.truth]
  | cons b bs ih => simp [ofUnaries, truth, Relation.truth, ih]

theorem Disjunction.truth_ofUnary
    (a : Unary) :
    (ofUnary a).truth v = a.truth v := by
  simp [ofUnary, ofRelation, truth, Conjunction.truth,
    Relation.truth]

theorem Disjunction.truth_ofUnaries
    (a : Unary)
    (as : List Unary) :
    (ofUnaries a as).truth v = (a :: as).any (Unary.truth v) := by
  induction as generalizing a with
  | nil => simp [ofUnaries, truth_ofUnary]
  | cons b bs ih =>
      simp [ofUnaries, truth, Conjunction.truth, Relation.truth, ih]

end Reading

mutual

/-
  Whether an expression is true.  Without operands a conjunction
  is true and a disjunction is false.
-/
def truth (v : Assignment) : Expr → Bool
| .and es => truthAll v es
| .or es => truthAny v es
| .not e => !e.truth v
| atom => v atom.tokens

/- Whether all of some expressions are true. -/
def truthAll (v : Assignment) : List Expr → Bool
| [] => true
| e :: es => e.truth v && truthAll v es

/- Whether one of some expressions is true. -/
def truthAny (v : Assignment) : List Expr → Bool
| [] => false
| e :: es => e.truth v || truthAny v es

end

mutual

/-
  The truth values that an expression is written with where a
  conjunction or disjunction has no operands.
-/
def units : Expr → List Bool
| .and [] => [true]
| .and (e :: es) => e.units ++ unitsAll es
| .or [] => [false]
| .or (e :: es) => e.units ++ unitsAll es
| .not e => e.units
| _ => []

/- The same of several expressions. -/
def unitsAll : List Expr → List Bool
| [] => []
| e :: es => e.units ++ unitsAll es

end

open Reading

/- An expression is as true inside another one as by itself. -/
theorem Form.truth_unary
    (v : Assignment)
    (f : Form) :
    f.unary.truth v = f.reading.truth v := by
  cases f with
  | operand a => exact (Disjunction.truth_ofUnary v a).symm
  | compound d => simp [unary, reading, Unary.truth, Primary.truth]

/- An atom is as true as its tokens are taken to be. -/
theorem truth_form_of_atom
    {v : Assignment}
    {e : Expr}
    (hAtom : e.truth v = v e.tokens)
    (hReading : e.form.reading.truth v = v e.form.reading.tokens) :
    e.form.reading.truth v = e.truth v := by
  rw [hAtom, hReading, tokens_form]

mutual

/- The reading of an expression is true when the expression is. -/
theorem truth_form
    (v : Assignment) :
    (e : Expr) → (∀ b ∈ e.units, v [.bool b] = b) →
      e.form.reading.truth v = e.truth v
| .node _, _ =>
    truth_form_of_atom (by simp [truth]) (by rw [form]; rfl)
| .bool _, _ =>
    truth_form_of_atom (by simp [truth]) (by rw [form]; rfl)
| .eq _ _, _ =>
    truth_form_of_atom (by simp [truth]) (by rw [form]; rfl)
| .ne _ _, _ =>
    truth_form_of_atom (by simp [truth]) (by rw [form]; rfl)
| .isIn _ _, _ =>
    truth_form_of_atom (by simp [truth]) (by rw [form]; rfl)
| .call _ _, _ =>
    truth_form_of_atom (by simp [truth]) (by rw [form]; rfl)
| .and [], h => by
    have hUnit := h true (by simp [units])
    rw [form, truth, truthAll]
    exact hUnit
| .and (e :: es), h => by
    have hItems :=
      (truth_operands v (e :: es) fun b hb => h b hb).1
    rw [operands] at hItems
    rw [form, truth, ← hItems, Form.reading, Disjunction.truth,
      Conjunction.truth_ofUnaries]
| .or [], h => by
    have hUnit := h false (by simp [units])
    rw [form, truth, truthAny]
    exact hUnit
| .or (e :: es), h => by
    have hItems :=
      (truth_operands v (e :: es) fun b hb => h b hb).2
    rw [operands] at hItems
    rw [form, truth, ← hItems, Form.reading,
      Disjunction.truth_ofUnaries]
| .not e, h => by
    have hInner := truth_form v e h
    rw [form, truth, ← hInner, Form.reading,
      Disjunction.truth_ofUnary, Unary.truth, Primary.truth]

theorem truth_operands
    (v : Assignment) :
    (es : List Expr) → (∀ b ∈ unitsAll es, v [.bool b] = b) →
      (operands es).all (Unary.truth v) = truthAll v es ∧
        (operands es).any (Unary.truth v) = truthAny v es
| [], _ => by simp [operands, truthAll, truthAny]
| e :: es, h => by
    have hFirst :=
      truth_form v e fun b hb => h b (List.mem_append_left _ hb)
    have hRest :=
      truth_operands v es fun b hb => h b (List.mem_append_right _ hb)
    simp [operands, truthAll, truthAny, Form.truth_unary, hFirst,
      hRest]

end

end Expr

end StatementQuery
