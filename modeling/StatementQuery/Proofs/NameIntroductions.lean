import StatementQuery.Proofs.CompileRuns
import StatementQuery.Proofs.TemplateInstances
import StatementQuery.Proofs.UnifierCompleteness

/-
  Where the names of a query come from.

  A name enters a query when it is drawn from the pool, or when
  a pattern is renamed apart for an entry that is planned.
  Either way it is one that is not in use at that time, and it
  is in use from then on; so in a series of introductions no
  name comes twice.  What is built with the operations on
  groups and alternatives makes such a series.

  Key definitions include:
    * `ValidName`
    * `Introduction`
    * `Introduction.Chain`
    * `Draws`

  Main declarations:
    * `NameSupply.validName_fresh`
    * `Introduction.Chain.append`
    * `Introduction.Chain.nodup_names`
    * `Draws.chain`
    * `Entry.fresh_planned`
-/

------------------------------------------------------------
-- Valid Names
------------------------------------------------------------

namespace StatementQuery

/- A name of ASCII letters, digits and underscores, not empty. -/
def ValidName (name : String) : Prop :=
  name.toList ≠ [] ∧ ∀ c ∈ name.toList, isNameChar c = true

/- What is left of any name when it is sanitized is valid. -/
theorem validName_sanitizeName
    (name : String) :
    ValidName (sanitizeName name) := by
  unfold sanitizeName
  split
  · constructor
    · decide
    · simp [isNameChar]
  · rename_i hSome
    rw [List.isEmpty_iff] at hSome
    constructor
    · simpa using hSome
    · intro c hc
      rw [String.toList_ofList] at hc
      rcases List.mem_map.mp hc with ⟨c', _, rfl⟩
      split
      · assumption
      · decide

namespace NameSupply

/- A supply of valid names. -/
structure Proper (supply : NameSupply) : Prop where
  listed : ∀ name ∈ supply.listed, ValidName name
  base : ValidName supply.base

/- The names of a query are drawn from proper supplies. -/
theorem proper_supply
    (base : String) :
    (NamePool.supply base).Proper := by
  refine ⟨?_, validName_sanitizeName base⟩
  intro name hName
  cases List.mem_singleton.mp hName
  exact validName_sanitizeName base

/- So are the names of patterns. -/
theorem proper_patternSupply
    (name : String) :
    (Entry.patternSupply name).Proper :=
  ⟨fun _ hName => absurd hName List.not_mem_nil,
    validName_sanitizeName name⟩

/- A number after a valid base makes a valid name. -/
theorem validName_numbered
    {base : String}
    (h : ValidName base)
    (i : Nat) :
    ValidName (numbered base i) := by
  have hList :
      (numbered base i).toList =
        (stem base).toList ++ Numeral.digits i := by
    simp [numbered, Nat.repr, Numeral.digits]
  have hDigits : Numeral.digits i ≠ [] := Nat.toDigits_ne_nil
  refine ⟨by simp [hList, hDigits], ?_⟩
  intro c hc
  rw [hList] at hc
  rcases List.mem_append.mp hc with hc | hc
  · -- The stem has characters of the base only.
    rw [stem, String.toList_ofList, List.mem_reverse] at hc
    exact h.2 c
      (List.mem_reverse.mp
        ((List.dropWhile_sublist Char.isDigit).subset hc))
  · have hDigit := Numeral.allDigits_digits _ _ hc
    simp [isNameChar, Char.isAlphanum, hDigit]

/- What is drawn from a proper supply is valid. -/
theorem validName_fresh
    {supply : NameSupply}
    (h : supply.Proper)
    (taken : List String) :
    ValidName (supply.fresh taken) := by
  unfold fresh
  cases hFind :
      (supply.candidates taken).find? fun name =>
        !taken.contains name with
  | none => exact h.base
  | some name =>
      rcases List.mem_append.mp (List.mem_of_find?_eq_some hFind)
        with hName | hName
      · exact h.listed name hName
      · rcases List.mem_map.mp hName with ⟨i, _, rfl⟩
        exact validName_numbered h.base i

end NameSupply

namespace Term

/- Fresh variables have valid names. -/
theorem validName_of_mem_renamingFrom
    {supply : String → NameSupply}
    (hSupply : ∀ name, (supply name).Proper)
    {taken : List String}
    {chosen : List (String × String)}
    (hChosen :
      ∀ n m, chosen.lookup n = some m → ValidName m)
    {vs : List Variable}
    {v w : Variable}
    (h :
      (v, some (.var w)) ∈ renamingFrom supply taken chosen vs) :
    ValidName w.name := by
  induction vs generalizing taken chosen with
  | nil => cases h
  | cons u us ih =>
      unfold renamingFrom at h
      split at h
      · rename_i name hName
        rcases List.mem_cons.mp h with hHead | hTail
        · cases hHead
          exact hChosen _ name hName
        · exact ih hChosen hTail
      · have hFresh :=
          NameSupply.validName_fresh (hSupply u.name) taken
        rcases List.mem_cons.mp h with hHead | hTail
        · cases hHead
          exact hFresh
        · refine ih ?_ hTail
          intro n m hLookup
          rw [lookup_cons_ite] at hLookup
          split at hLookup
          · cases hLookup
            exact hFresh
          · exact hChosen n m hLookup

end Term

end StatementQuery

------------------------------------------------------------
-- Introductions
------------------------------------------------------------

namespace StatementQuery

/-
  Names that enter a query, with the names in use before: one
  that is drawn, or those of a pattern renamed apart.
-/
inductive Introduction where
| drawn (used : List String) (name : String)
| planned (used : List String) (e : Entry) (found : PatternMatch)

namespace Introduction

/- The names in use before. -/
def used : Introduction → List String
| .drawn used _ => used
| .planned used _ _ => used

/- The names that are introduced. -/
def names : Introduction → List String
| .drawn _ name => [name]
| .planned _ _ found => found.pattern.names

/-
  A planned entry is matched through one of its patterns, in
  which different variables get different names.
-/
def Renames : Introduction → Prop
| .drawn _ _ => True
| .planned _ e found =>
    ∃ p ∈ e.patterns, ∃ ρ : String → String,
      found.pattern = p.mapVariables (Variable.renamed ρ) ∧
        ∀ v ∈ p.occurrences, ∀ w ∈ p.occurrences,
          v ≠ w → ρ v.name ≠ ρ w.name

/- The names that are introduced are new, and valid. -/
structure Fresh (i : Introduction) : Prop where
  nodup : i.names.Nodup
  apart : ∀ n ∈ i.names, n ∉ i.used
  valid : ∀ n ∈ i.names, ValidName n
  renames : i.Renames

/-
  A series of introductions, while the names in use grow from
  those before to those after.
-/
structure Chain
    (before : List String)
    (series : List Introduction)
    (after : List String) :
    Prop where
  grows : before ⊆ after
  fresh : ∀ i ∈ series, i.Fresh
  starts : ∀ i ∈ series, before ⊆ i.used
  ends : ∀ i ∈ series, i.used ++ i.names ⊆ after
  ordered : series.Pairwise fun i j => i.used ++ i.names ⊆ j.used

namespace Chain

variable {before between after : List String}
variable {series series' : List Introduction}

/- Nothing is introduced while names are reserved. -/
theorem nil
    (h : before ⊆ after) :
    Chain before [] after :=
  ⟨h, by simp, by simp, by simp, .nil⟩

/- One introduction, after which its names are in use. -/
theorem singleton
    {i : Introduction}
    (hFresh : i.Fresh)
    (hEnds : i.used ++ i.names ⊆ after) :
    Chain i.used [i] after := by
  refine ⟨?_, ?_, ?_, ?_, List.pairwise_singleton _ _⟩
  · intro n hn
    exact hEnds (List.mem_append_left _ hn)
  · intro j hj
    cases List.mem_singleton.mp hj
    exact hFresh
  · intro j hj
    cases List.mem_singleton.mp hj
    exact fun _ hn => hn
  · intro j hj
    cases List.mem_singleton.mp hj
    exact hEnds

/- One series after another. -/
theorem append
    (h : Chain before series between)
    (h' : Chain between series' after) :
    Chain before (series ++ series') after := by
  refine
    ⟨fun _ hn => h'.grows (h.grows hn),
      List.forall_mem_append.mpr ⟨h.fresh, h'.fresh⟩,
      List.forall_mem_append.mpr ⟨h.starts, ?_⟩,
      List.forall_mem_append.mpr ⟨?_, h'.ends⟩,
      List.pairwise_append.mpr ⟨h.ordered, h'.ordered, ?_⟩⟩
  · intro i hi n hn
    exact h'.starts i hi (h.grows hn)
  · intro i hi n hn
    exact h'.grows (h.ends i hi hn)
  · intro i hi j hj n hn
    exact h'.starts j hj (h.ends i hi hn)

end Chain

end Introduction

end StatementQuery

------------------------------------------------------------
-- Names That Are Drawn
------------------------------------------------------------

namespace StatementQuery

/-
  A computation that is built with the operations on groups and
  alternatives, and the names that it draws from the pool.
-/
inductive Draws :
    {σ α : Type} →
      (σ → NamePool) →
        StateM σ α → σ → List Introduction → Prop where
| pure
    {σ α : Type}
    (pool : σ → NamePool)
    (a : α)
    (s : σ) :
    Draws pool (Pure.pure a : StateM σ α) s []
| get
    {σ : Type}
    (pool : σ → NamePool)
    (s : σ) :
    Draws pool (MonadState.get : StateM σ σ) s []
| bind
    {σ α β : Type}
    {pool : σ → NamePool}
    {x : StateM σ α}
    {f : α → StateM σ β}
    {s : σ}
    {series series' : List Introduction}
    (hx : Draws pool x s series)
    (hf : Draws pool (f (x.run s).1) (x.run s).2 series') :
    Draws pool (x >>= f) s (series ++ series')
| add
    (p : Pattern)
    (g : Group) :
    Draws Group.pool (Group.add p) g []
| reserve
    (name : String)
    (g : Group) :
    Draws Group.pool (Group.reserve name) g []
| freshVar
    (base : String)
    (g : Group) :
    Draws Group.pool (Group.freshVar base) g
      [.drawn g.pool.used (g.pool.fresh base).1]
| nested
    {α : Type}
    {body : GroupM α}
    {g : Group}
    {series : List Introduction}
    (hBody : Draws Group.pool body { pool := g.pool } series) :
    Draws Group.pool (Group.nested body) g series
| union
    {α : Type}
    {body : AlternativesM α}
    {g : Group}
    {series : List Introduction}
    (hBody :
      Draws Alternatives.pool body { pool := g.pool } series) :
    Draws Group.pool (Group.union body) g series
| branch
    {ε α : Type}
    {body : GroupM (Except ε α)}
    {u : Alternatives}
    {series : List Introduction}
    (hBody : Draws Group.pool body { pool := u.pool } series) :
    Draws Alternatives.pool (Alternatives.branch body) u series
| reserveAll
    (names : List String)
    (u : Alternatives) :
    Draws Alternatives.pool (Alternatives.reserveAll names) u []

namespace Draws

/- A name that is drawn is new, and in use from then on. -/
theorem chain_freshVar
    (pool : NamePool)
    (base : String) :
    Introduction.Chain pool.used
      [.drawn pool.used (pool.fresh base).1]
      (pool.fresh base).2.used := by
  have hFresh :
      (Introduction.drawn pool.used
        (pool.fresh base).1).Fresh := by
    refine ⟨List.nodup_singleton _, ?_, ?_, trivial⟩
    · intro n hn
      cases List.mem_singleton.mp hn
      exact NameSupply.fresh_notMem _ _
    · intro n hn
      cases List.mem_singleton.mp hn
      exact NameSupply.validName_fresh
        (NameSupply.proper_supply base) _
  refine Introduction.Chain.singleton hFresh ?_
  intro n hn
  rcases List.mem_append.mp hn with hn | hn
  · exact NamePool.used_subset_reserve pool _ hn
  · cases List.mem_singleton.mp hn
    exact NamePool.mem_used_reserve pool _

/- What is built draws its names in a series. -/
theorem chain
    {σ α : Type}
    {pool : σ → NamePool}
    {x : StateM σ α}
    {s : σ}
    {series : List Introduction}
    (h : Draws pool x s series) :
    Introduction.Chain (pool s).used series
      (pool (x.run s).2).used := by
  induction h with
  | pure pool a s => exact .nil fun _ hn => hn
  | get pool s => exact .nil fun _ hn => hn
  | bind _ _ ihx ihf => exact ihx.append ihf
  | add p g => exact .nil fun _ hn => hn
  | reserve name g =>
      exact .nil (NamePool.used_subset_reserve g.pool name)
  | freshVar base g => exact chain_freshVar g.pool base
  | nested _ ih => exact ih
  | union _ ih => exact ih
  | branch _ ih => exact ih
  | reserveAll names u =>
      exact .nil (NamePool.used_subset_reserveAll u.pool names)

end Draws

end StatementQuery

------------------------------------------------------------
-- Names Of Planned Entries
------------------------------------------------------------

namespace StatementQuery

namespace Entry

variable {p goal : Term} {used : List String}
variable {e : Entry} {found : PatternMatch}

/-
  A match is of the pattern under new names, which are valid
  and not in use.
-/
theorem exists_renames_valid
    (hp : p.WellFormed)
    (h : matchPattern? p goal used = some found) :
    ∃ ρ : String → String,
      Renames ρ p.occurrences used ∧
        found.pattern = p.mapVariables (Variable.renamed ρ) ∧
        ∀ v ∈ p.occurrences, ValidName (ρ v.name) := by
  rcases p.exists_renaming used patternSupply with
    ⟨ρ, hEntries, hρ⟩
  refine ⟨ρ, hρ, ?_, ?_⟩
  · simp only [matchPattern?, hEntries,
      Term.instantiate_renaming hp hρ] at h
    split at h
    · split at h
      · cases h
        rfl
      · cases h
    · cases h
  · intro v hv
    have hEntry :
        Term.renamingEntry ρ v ∈
          (p.renamingBindings used patternSupply).entries := by
      rw [hEntries]
      apply List.mem_map_of_mem
      exact (Variable.mem_sorted v p.occurrences).mpr hv
    exact Term.validName_of_mem_renamingFrom
      NameSupply.proper_patternSupply (by simp) hEntry

/- The names of a planned entry are new, and valid. -/
theorem fresh_planned
    (hPatterns : ∀ p ∈ e.patterns, p.WellFormed)
    (h : e.plan? goal used = some found) :
    (Introduction.planned used e found).Fresh := by
  rcases List.exists_of_findSome?_eq_some h with ⟨p, hp, hMatch⟩
  rcases exists_renames_valid (hPatterns p hp) hMatch with
    ⟨ρ, hρ, hPattern, hValid⟩
  have hNames :
      ∀ n ∈ found.pattern.names,
        ∃ v ∈ p.occurrences, ρ v.name = n := by
    intro n hn
    rcases (Variable.mem_names n _).mp hn with ⟨w, hw, rfl⟩
    rw [hPattern] at hw
    rcases (Term.mem_occurrences_mapVariables _ p w).mp hw with
      ⟨v, hv, rfl⟩
    exact ⟨v, hv, rfl⟩
  refine
    ⟨nodup_eraseDups _, ?_, ?_, p, hp, ρ, hPattern, ?_⟩
  · intro n hn
    rcases hNames n hn with ⟨v, hv, rfl⟩
    exact hρ.fresh v hv
  · intro n hn
    rcases hNames n hn with ⟨v, hv, rfl⟩
    exact hValid v hv
  · intro v hv w hw hDiffer hSame
    have hName := hρ.injective v hv w hw hSame
    exact hDiffer
      (Variable.eq_of_name_of_kind hName
        ((hPatterns p hp).oneKind v hv w hw hName))

end Entry

end StatementQuery
