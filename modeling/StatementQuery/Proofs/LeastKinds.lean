import StatementQuery.Proofs.KindOrder
import StatementQuery.Variable

/-
  The least kind of each name in a list of variables.

  The table of least kinds has an entry for every name, at a
  kind that is one of the kinds the name occurs with and lies
  below all of them.  There is a table as soon as every name
  has some kind below all of its kinds.

  Main declarations:
    * `lookup_cons_ite`
    * `nodup_eraseDups`
    * `Variable.mem_sorted`
    * `Variable.leastKindsFrom_ok`
    * `Variable.exists_leastKinds`
    * `Variable.AtKinds`
    * `Variable.OneKind`
-/

------------------------------------------------------------
-- Lists And Tables
------------------------------------------------------------

namespace StatementQuery

/- A key looked up in a list with one more entry. -/
theorem lookup_cons_ite
    {α β : Type}
    [DecidableEq α]
    (a k : α)
    (b : β)
    (entries : List (α × β)) :
    ((k, b) :: entries).lookup a =
      if a = k then some b else entries.lookup a := by
  by_cases hEq : a = k
  · simp [hEq]
  · simp [List.lookup_cons, hEq, beq_false_of_ne hEq]

/- No member of a list stays twice. -/
theorem nodup_eraseDups
    {α : Type}
    [DecidableEq α]
    (as : List α) :
    as.eraseDups.Nodup := by
  induction hLength : as.length using Nat.strongRecOn
    generalizing as with
  | _ length ih =>
      cases as with
      | nil => simp
      | cons a as =>
          have hShorter :
              (as.filter fun b => !b == a).length < length := by
            rw [← hLength, List.length_cons]
            exact Nat.lt_succ_of_le (List.length_filter_le _ as)
          rw [List.eraseDups_cons, List.nodup_cons]
          refine ⟨?_, ih _ hShorter _ rfl⟩
          simp [List.mem_eraseDups]

end StatementQuery

------------------------------------------------------------
-- Members Of Sets
------------------------------------------------------------

namespace StatementQuery

namespace Variable

/- Two variables of one name and one kind are equal. -/
theorem eq_of_name_of_kind
    {v w : Variable}
    (hName : v.name = w.name)
    (hKind : v.kind = w.kind) :
    v = w := by
  cases v
  cases w
  simp_all

/- Insertion adds one variable. -/
theorem mem_insert
    (v w : Variable)
    (vs : List Variable) :
    w ∈ insert v vs ↔ w = v ∨ w ∈ vs := by
  induction vs with
  | nil => simp [insert]
  | cons u us ih =>
      unfold insert
      by_cases hEq : v = u
      · subst hEq
        simp
      · by_cases hBefore : v.before u
        · simp [hEq, hBefore]
        · simp [hEq, hBefore, ih, or_left_comm]

/- Sorting keeps the members of a list. -/
@[simp] theorem mem_sorted
    (w : Variable)
    (vs : List Variable) :
    w ∈ sorted vs ↔ w ∈ vs := by
  induction vs with
  | nil => simp [sorted]
  | cons v vs ih =>
      have hStep : sorted (v :: vs) = insert v (sorted vs) :=
        rfl
      rw [hStep, mem_insert, ih, List.mem_cons]

/- The names of a list are those of its members. -/
@[simp] theorem mem_names
    (n : String)
    (vs : List Variable) :
    n ∈ names vs ↔ ∃ v ∈ vs, v.name = n := by
  simp [names]

end Variable

end StatementQuery

------------------------------------------------------------
-- Tables Of Least Kinds
------------------------------------------------------------

namespace StatementQuery

namespace Variable

/-
  What a table of least kinds holds: kinds below those it
  started from and below those of the variables, and each of
  them one of these.
-/
theorem leastKindsFrom_ok
    (vs : List Variable)
    (table result : List (String × Kind))
    (h : leastKindsFrom table vs = .ok result) :
    (∀ n k, table.lookup n = some k →
      ∃ l, result.lookup n = some l ∧ l ≤ k) ∧
    (∀ v ∈ vs,
      ∃ l, result.lookup v.name = some l ∧ l ≤ v.kind) ∧
    (∀ n l, result.lookup n = some l →
      table.lookup n = some l ∨
        ∃ v ∈ vs, v.name = n ∧ v.kind = l) := by
  induction vs generalizing table with
  | nil =>
      cases h
      refine ⟨fun n k hLookup => ⟨k, hLookup, le_refl k⟩, ?_, ?_⟩
      · simp
      · intro n l hLookup
        exact Or.inl hLookup
  | cons v vs ih =>
      unfold leastKindsFrom at h
      -- The kind that is entered for the name of `v`.
      have hStep :
          ∃ least,
            leastKindsFrom ((v.name, least) :: table) vs =
              .ok result ∧
            least ≤ v.kind ∧
            (∀ k, table.lookup v.name = some k → least ≤ k) ∧
            (table.lookup v.name = some least ∨
              least = v.kind) := by
        cases hSeen : table.lookup v.name with
        | none =>
            simp only [hSeen] at h
            exact ⟨v.kind, h, le_refl _, by simp, Or.inr rfl⟩
        | some seen =>
            simp only [hSeen] at h
            cases hMeet : seen.meet v.kind with
            | none => simp [hMeet] at h
            | some least =>
                simp only [hMeet] at h
                refine
                  ⟨least, h, Kind.meet_le_right hMeet, ?_, ?_⟩
                · intro k hk
                  cases hk
                  exact Kind.meet_le_left hMeet
                · rcases Kind.meet_eq_some_iff.mp hMeet with
                    ⟨_, rfl⟩ | ⟨_, rfl⟩
                  · exact Or.inl rfl
                  · exact Or.inr rfl
      rcases hStep with
        ⟨least, hRest, hLeKind, hLeSeen, hOrigin⟩
      rcases ih ((v.name, least) :: table) hRest with
        ⟨hBelow, hVars, hFrom⟩
      have hOwn :
          ∃ l, result.lookup v.name = some l ∧ l ≤ least := by
        apply hBelow
        simp
      refine ⟨?_, ?_, ?_⟩
      · intro n k hLookup
        by_cases hName : n = v.name
        · subst hName
          rcases hOwn with ⟨l, hl, hLe⟩
          exact ⟨l, hl, le_trans hLe (hLeSeen k hLookup)⟩
        · apply hBelow
          simpa [lookup_cons_ite, hName] using hLookup
      · intro w hw
        rcases List.mem_cons.mp hw with rfl | hw
        · rcases hOwn with ⟨l, hl, hLe⟩
          exact ⟨l, hl, le_trans hLe hLeKind⟩
        · exact hVars w hw
      · intro n l hLookup
        rcases hFrom n l hLookup with hTable | ⟨w, hw, hEq⟩
        · by_cases hName : n = v.name
          · subst hName
            have hl : least = l := by
              simpa [lookup_cons_ite] using hTable
            subst hl
            rcases hOrigin with hSeen | hKind
            · exact Or.inl hSeen
            · exact Or.inr ⟨v, by simp, rfl, hKind.symm⟩
          · left
            simpa [lookup_cons_ite, hName] using hTable
        · exact Or.inr ⟨w, by simp [hw], hEq⟩

/- Names with a kind below all their kinds have a table. -/
theorem exists_leastKindsFrom
    (bound : String → Kind)
    (vs : List Variable)
    (table : List (String × Kind))
    (hTable :
      ∀ n k, table.lookup n = some k → bound n ≤ k)
    (hVars : ∀ v ∈ vs, bound v.name ≤ v.kind) :
    ∃ result, leastKindsFrom table vs = .ok result := by
  induction vs generalizing table with
  | nil => exact ⟨table, rfl⟩
  | cons v vs ih =>
      have hRest : ∀ w ∈ vs, bound w.name ≤ w.kind := by
        intro w hw
        exact hVars w (by simp [hw])
      have hOwn : bound v.name ≤ v.kind :=
        hVars v (by simp)
      -- Entering a kind above the bound keeps all above it.
      have hEnter :
          ∀ least, bound v.name ≤ least →
            ∀ n k,
              ((v.name, least) :: table).lookup n = some k →
                bound n ≤ k := by
        intro least hLeast n k hLookup
        rw [lookup_cons_ite] at hLookup
        split at hLookup
        · rename_i hName
          cases hLookup
          exact hName ▸ hLeast
        · exact hTable n k hLookup
      unfold leastKindsFrom
      cases hSeen : table.lookup v.name with
      | none => exact ih _ (hEnter v.kind hOwn) hRest
      | some seen =>
          rcases
              Kind.exists_meet_of_le
                (hTable v.name seen hSeen) hOwn with
            ⟨least, hMeet, hLeast⟩
          simp only [hMeet]
          exact ih _ (hEnter least hLeast) hRest

/- The table of a set, and what it holds. -/
theorem leastKinds_ok
    (vs : List Variable)
    (table : List (String × Kind))
    (h : leastKinds vs = .ok table) :
    (∀ v ∈ vs,
      ∃ l, table.lookup v.name = some l ∧ l ≤ v.kind) ∧
    (∀ n l, table.lookup n = some l →
      ∃ v ∈ vs, v.name = n ∧ v.kind = l) := by
  rcases leastKindsFrom_ok (sorted vs) [] table h with
    ⟨_, hVars, hFrom⟩
  refine ⟨fun v hv => hVars v ((mem_sorted v vs).mpr hv), ?_⟩
  intro n l hLookup
  rcases hFrom n l hLookup with hNone | ⟨v, hv, hEq⟩
  · simp at hNone
  · exact ⟨v, (mem_sorted v vs).mp hv, hEq⟩

/- Names with a kind below all their kinds have a table. -/
theorem exists_leastKinds
    (bound : String → Kind)
    (vs : List Variable)
    (hVars : ∀ v ∈ vs, bound v.name ≤ v.kind) :
    ∃ table, leastKinds vs = .ok table := by
  apply exists_leastKindsFrom bound
  · simp
  · intro v hv
    exact hVars v ((mem_sorted v vs).mp hv)

/- The narrowed variable lies below the variable. -/
theorem narrow_kind_le
    {vs : List Variable}
    {table : List (String × Kind)}
    (h : leastKinds vs = .ok table)
    {v : Variable}
    (hv : v ∈ vs) :
    (narrow table v).kind ≤ v.kind := by
  rcases (leastKinds_ok vs table h).1 v hv with
    ⟨l, hLookup, hLe⟩
  simpa [narrow, withKind, hLookup] using hLe

end Variable

end StatementQuery

------------------------------------------------------------
-- Lists In Which Each Name Has One Kind
------------------------------------------------------------

namespace StatementQuery

/- The names that may occur, each with one kind. -/
abbrev Kinding := String → Option Kind

namespace Variable

/- Every variable is declared at the kind of its name. -/
def AtKinds (κ : Kinding) (vs : List Variable) : Prop :=
  ∀ v ∈ vs, κ v.name = some v.kind

/- Every name occurs at one kind only. -/
def OneKind (vs : List Variable) : Prop :=
  ∀ v ∈ vs, ∀ w ∈ vs, v.name = w.name → v.kind = w.kind

instance (vs : List Variable) : Decidable (OneKind vs) :=
  inferInstanceAs
    (Decidable
      (∀ v ∈ vs, ∀ w ∈ vs, v.name = w.name → v.kind = w.kind))

/- The kind of the first variable of a name. -/
def kinding (vs : List Variable) : Kinding := fun n =>
  (vs.find? fun v => v.name = n).map Variable.kind

/- One kind for each name is a choice of kinds. -/
theorem atKinds_kinding
    {vs : List Variable}
    (h : OneKind vs) :
    AtKinds (kinding vs) vs := by
  intro v hv
  unfold kinding
  cases hFind : vs.find? fun w => w.name = v.name with
  | none =>
      have hNone := List.find?_eq_none.mp hFind v hv
      simp at hNone
  | some w =>
      have hMem := List.mem_of_find?_eq_some hFind
      have hName := List.find?_some hFind
      simp only [decide_eq_true_eq] at hName
      simp [h v hv w hMem hName.symm]

/- A choice of kinds leaves one kind for each name. -/
theorem oneKind_of_atKinds
    {vs : List Variable}
    {κ : Kinding}
    (h : AtKinds κ vs) :
    OneKind vs := by
  intro v hv w hw hName
  have hEq : some v.kind = some w.kind := by
    rw [← h v hv, ← h w hw, hName]
  exact Option.some.inj hEq

/-
  Narrowing changes nothing where each name has one kind
  already.
-/
theorem exists_leastKinds_of_atKinds
    {vs : List Variable}
    {κ : Kinding}
    (h : AtKinds κ vs) :
    ∃ table,
      leastKinds vs = .ok table ∧
        ∀ v ∈ vs, narrow table v = v := by
  have hBound : ∀ v ∈ vs, (κ v.name).getD .term ≤ v.kind := by
    intro v hv
    simp [h v hv]
  rcases exists_leastKinds (fun n => (κ n).getD .term) vs hBound
    with ⟨table, hTable⟩
  refine ⟨table, hTable, ?_⟩
  intro v hv
  rcases leastKinds_ok vs table hTable with ⟨hVars, hFrom⟩
  rcases hVars v hv with ⟨l, hLookup, _⟩
  rcases hFrom v.name l hLookup with ⟨w, hw, hName, hKind⟩
  refine eq_of_name_of_kind ?_ ?_
  · rfl
  · simp only [narrow, withKind, hLookup, Option.getD_some]
    rw [← hKind]
    exact oneKind_of_atKinds h w hw v hv hName

end Variable

end StatementQuery
