import StatementQuery.Proofs.DecimalNumber
import StatementQuery.Proofs.WellFormed

/-
  Equality of terms as equality of canonical forms.

  The canonical form of a term has all its decimals in normal
  form.  Two terms are the same exactly when their canonical
  forms are equal, so being the same is an equivalence.

  Key definitions include:
    * `Ground.canonical`
    * `Term.canonical`

  Main declarations:
    * `Ground.same_iff`
    * `Term.same_iff`
    * `Term.sameOption_iff`
-/

------------------------------------------------------------
-- Canonical Ground Terms
------------------------------------------------------------

namespace StatementQuery

namespace Quantity

/- A quantity with its numbers in normal form. -/
def canonical (q : Quantity) : Quantity where
  amount := q.amount.normalize
  unit := q.unit
  lower := q.lower.map Decimal.normalize
  upper := q.upper.map Decimal.normalize

/- Bounds are the same when their normal forms agree. -/
theorem sameBound_iff
    (a b : Option Decimal) :
    sameBound a b = true ↔
      a.map Decimal.normalize = b.map Decimal.normalize := by
  cases a <;> cases b <;>
    simp [sameBound, Decimal.same_iff]

/- Quantities are the same when their canonical forms agree. -/
theorem same_iff
    (q r : Quantity) :
    q.same r = true ↔ q.canonical = r.canonical := by
  simp [same, canonical, Decimal.same_iff, sameBound_iff,
    and_assoc]

end Quantity

namespace Value

/- A value with its numbers in normal form. -/
def canonical : Value → Value
| .quantity q => .quantity q.canonical
| v => v

/- A canonical value is its own canonical form. -/
@[simp] theorem canonical_canonical
    (v : Value) :
    v.canonical.canonical = v.canonical := by
  cases v <;>
    simp [canonical, Quantity.canonical, Function.comp_def]

/- Values are the same when their canonical forms agree. -/
theorem same_iff
    (v w : Value) :
    v.same w = true ↔ v.canonical = w.canonical := by
  cases v <;> cases w <;>
    simp [same, canonical, Quantity.same_iff]

@[simp] theorem datatype_canonical
    (v : Value) :
    v.canonical.datatype = v.datatype := by
  cases v <;> rfl

@[simp] theorem kind_canonical
    (v : Value) :
    v.canonical.kind = v.kind := by
  simp [kind]

end Value

namespace Snak

/- A snak with its numbers in normal form. -/
def canonical : Snak → Snak
| .value p v => .value p v.canonical
| s => s

/- A canonical snak is its own canonical form. -/
@[simp] theorem canonical_canonical
    (s : Snak) :
    s.canonical.canonical = s.canonical := by
  cases s <;> simp [canonical]

/- Snaks are the same when their canonical forms agree. -/
theorem same_iff
    (s t : Snak) :
    s.same t = true ↔ s.canonical = t.canonical := by
  cases s <;> cases t <;>
    simp [same, canonical, Value.same_iff]

@[simp] theorem kind_canonical
    (s : Snak) :
    s.canonical.kind = s.kind := by
  cases s <;> rfl

end Snak

namespace Statement

/- A statement with its numbers in normal form. -/
def canonical (s : Statement) : Statement :=
  ⟨s.subject, s.snak.canonical⟩

/- Statements are the same when their canonical forms agree. -/
theorem same_iff
    (s t : Statement) :
    s.same t = true ↔ s.canonical = t.canonical := by
  simp [same, canonical, Snak.same_iff]

end Statement

namespace Ground

/- A ground term with its numbers in normal form. -/
def canonical : Ground → Ground
| .value v => .value v.canonical
| .snak s => .snak s.canonical
| .statement s => .statement s.canonical

/- A canonical ground term is its own canonical form. -/
@[simp] theorem canonical_canonical
    (g : Ground) :
    g.canonical.canonical = g.canonical := by
  cases g <;> simp [canonical, Statement.canonical]

/- Ground terms are the same when canonical forms agree. -/
theorem same_iff
    (g h : Ground) :
    g.same h = true ↔ g.canonical = h.canonical := by
  cases g <;> cases h <;>
    simp [same, canonical, Value.same_iff, Snak.same_iff,
      Statement.same_iff]

@[simp] theorem kind_canonical
    (g : Ground) :
    g.canonical.kind = g.kind := by
  cases g <;> simp [canonical, kind]

/- Ground terms that are the same have one kind. -/
theorem kind_eq_of_canonical_eq
    {g h : Ground}
    (hEq : g.canonical = h.canonical) :
    g.kind = h.kind := by
  rw [← kind_canonical g, hEq, kind_canonical h]

end Ground

end StatementQuery

------------------------------------------------------------
-- Canonical Terms
------------------------------------------------------------

namespace StatementQuery

namespace Term

mutual

/- A term with its numbers in normal form. -/
def canonical : Term → Term
| .ground g => .ground g.canonical
| .var v => .var v
| .app c args => .app c (canonicalArgs args)

/- Arguments with their numbers in normal form. -/
def canonicalArgs : List (Option Term) → List (Option Term)
| [] => []
| none :: args => none :: canonicalArgs args
| some t :: args => some t.canonical :: canonicalArgs args

end

/- Arguments are brought into canonical form one by one. -/
theorem canonicalArgs_eq_map
    (args : List (Option Term)) :
    canonicalArgs args = args.map (Option.map canonical) := by
  induction args with
  | nil => rfl
  | cons arg args ih =>
      cases arg with
      | none => simp [canonicalArgs, ih]
      | some t => simp [canonicalArgs, ih]

/- A canonical term is its own canonical form. -/
@[simp] theorem canonical_canonical
    (t : Term) :
    t.canonical.canonical = t.canonical := by
  induction t with
  | ground g => simp [canonical]
  | var v => rfl
  | app c args ih =>
      simp only [canonical, canonicalArgs_eq_map, List.map_map]
      congr 1
      apply List.map_congr_left
      intro arg hArg
      cases arg with
      | none => rfl
      | some t => simp [ih t hArg]

/- Arguments are the same when each of them is. -/
theorem sameArgs_iff
    (args brgs : List (Option Term))
    (h :
      ∀ t, some t ∈ args → ∀ u,
        t.same u = true ↔ t.canonical = u.canonical) :
    sameArgs args brgs = true ↔
      canonicalArgs args = canonicalArgs brgs := by
  induction args generalizing brgs with
  | nil =>
      cases brgs with
      | nil => simp [sameArgs]
      | cons brg brgs =>
          cases brg <;> simp [sameArgs, canonicalArgs]
  | cons arg args ih =>
      have hRest :
          ∀ t, some t ∈ args → ∀ u,
            t.same u = true ↔ t.canonical = u.canonical := by
        intro t ht
        exact h t (by simp [ht])
      cases brgs with
      | nil => cases arg <;> simp [sameArgs, canonicalArgs]
      | cons brg brgs =>
          cases arg with
          | none =>
              cases brg <;>
                simp [sameArgs, canonicalArgs, ih brgs hRest]
          | some t =>
              cases brg with
              | none => simp [sameArgs, canonicalArgs]
              | some u =>
                  simp [sameArgs, canonicalArgs, ih brgs hRest,
                    h t (by simp) u]

/- Terms are the same when their canonical forms agree. -/
theorem same_iff
    (t u : Term) :
    t.same u = true ↔ t.canonical = u.canonical := by
  induction t generalizing u with
  | ground g =>
      cases u <;> simp [same, canonical, Ground.same_iff]
  | var v =>
      cases u <;> simp [same, canonical]
  | app c args ih =>
      cases u with
      | ground g => simp [same, canonical]
      | var w => simp [same, canonical]
      | app d brgs =>
          simp [same, canonical, sameArgs_iff args brgs ih]

/- Sides are the same when their canonical forms agree. -/
theorem sameOption_iff
    (s t : Option Term) :
    sameOption s t = true ↔
      s.map canonical = t.map canonical := by
  cases s <;> cases t <;> simp [sameOption, same_iff]

@[simp] theorem kind_canonical
    (t : Term) :
    t.canonical.kind = t.kind := by
  cases t <;> simp [canonical, kind]

/- The variables of a term are those of its canonical form. -/
@[simp] theorem occurrences_canonical
    (t : Term) :
    t.canonical.occurrences = t.occurrences := by
  induction t with
  | ground g => rfl
  | var v => rfl
  | app c args ih =>
      simp only [canonical, occurrences]
      induction args with
      | nil => rfl
      | cons arg args ihArgs =>
          have hRest :
              ∀ t, some t ∈ args →
                t.canonical.occurrences = t.occurrences := by
            intro t ht
            exact ih t (by simp [ht])
          cases arg with
          | none =>
              simpa [canonicalArgs, occurrencesArgs] using
                ihArgs hRest
          | some t =>
              simp [canonicalArgs, occurrencesArgs,
                ihArgs hRest, ih t (by simp)]

/- Whether an argument is open shows in its canonical form. -/
@[simp] theorem isOpenArg_map_canonical
    (arg : Option Term) :
    isOpenArg (arg.map canonical) = isOpenArg arg := by
  cases arg with
  | none => rfl
  | some t => cases t <;> rfl

end Term

end StatementQuery
