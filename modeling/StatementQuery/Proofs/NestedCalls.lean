import StatementQuery.Proofs.VariableCapture

/-
  Nested entries in the run of a compilation.

  A compilation comes to the branch of an entry, in the branch to
  a snak that is asked of the subject or of the value, and for the
  snak to an entry again.  Names that are in use stay in use on
  the way.  So the branch has the names that every query reserves,
  and the nested entry is planned with all names of the branch in
  use: what it is given for its subject is what the kinds of the
  subject and of the focus say, in every call of the compilation.

  Main declarations:
    * `Compile.Comes.used_subset`
    * `Compile.Tries.serves`
    * `Compile.Expresses.exists_nests`
    * `Compile.used_subset_nested`
    * `Compile.Calls.own_or_linked`
-/

------------------------------------------------------------
-- Names Stay In Use
------------------------------------------------------------

namespace StatementQuery

namespace Compile

/- Names in use stay so on the way, if each step keeps them. -/
theorem Comes.used_subset
    (pool : σ → NamePool)
    {step : α → StateM σ (Except ε Unit)}
    {s s' : σ}
    {xs : List α}
    {x : α}
    (h : Comes step s xs x s')
    (hStep :
      ∀ y ∈ xs, ∀ s,
        (pool s).used ⊆ (pool ((step y).run s).2).used) :
    (pool s).used ⊆ (pool s').used := by
  induction h with
  | head => exact fun _ hn => hn
  | @tail s s' _ _ y _ hRun _ ih =>
      have hHead := hStep y List.mem_cons_self s
      rw [hRun] at hHead
      have hRest := ih fun y hy =>
        hStep y (List.mem_cons_of_mem _ hy)
      exact fun n hn => hRest (hHead hn)

variable {task : Task} {draws : Call → List Introduction}
variable {t : Target} {e e' : Entry}
variable {found found' : PatternMatch} {p : Progress}

/-
  A branch that a compilation comes to serves its target, with
  the names in use that every query reserves.
-/
theorem Tries.serves
    (hPatterns :
      ∀ e ∈ task.mapping.entries, ∀ p ∈ e.patterns, p.WellFormed)
    (hDraws : Drawing task.mapping draws)
    (h : Tries task t e found p) :
    Serves task p.pool.used t e found := by
  refine ⟨h.mem.1, h.mem.2, h.admitted, ?_, h.plan⟩
  rcases h.comes with ⟨p', hTarget, hEntry⟩
  have hTargets :=
    hTarget.used_subset Progress.pool fun t _ p =>
      (introduces_serveEntries hPatterns hDraws t p).grows
  have hEntries :=
    hEntry.used_subset Progress.pool fun e he p =>
      (introduces_serve hPatterns hDraws t he p).grows
  intro n hn
  exact hEntries (hTargets (NamePool.mem_used_reserveAll _ hn))

/- An entry that expresses a snak is nested, by a pattern of it. -/
theorem Expresses.exists_nests
    {focus goal : Term}
    {snaks : List Ground}
    {g : Group}
    {snak : Ground}
    {u : Alternatives}
    (h :
      Expresses task.mapping task.options focus snaks g snak goal
        e' found' u) :
    ∃ pattern,
      Nests task u.pool.used focus snak e' pattern found' := by
  rcases h.comes with ⟨_, _, hEntry⟩
  rcases List.exists_of_findSome?_eq_some h.plan with
    ⟨pattern, hMem, hMatch⟩
  exact
    ⟨pattern, hEntry.mem, h.kind, hMem, goal, h.built, hMatch⟩

/-
  Where an entry is nested in a branch, the names that were in
  use for the branch and those of its match are in use.
-/
theorem used_subset_nested
    (hPatterns :
      ∀ e ∈ task.mapping.entries, ∀ p ∈ e.patterns, p.WellFormed)
    (hDraws : Drawing task.mapping draws)
    (he : e ∈ task.mapping.entries)
    {pool : NamePool}
    {rank : Option String}
    {g g' : Group}
    {part : Term × List Ground}
    {focus goal : Term}
    {snak : Ground}
    {u : Alternatives}
    (hOwn : (ownCall task e found pool).run = (.ok rank, g))
    (hPart :
      Comes (constrainPart task found) g t.constrained part g')
    (hExpresses :
      Expresses task.mapping task.options focus part.2 g' snak
        goal e' found' u) :
    pool.used ++ found.names ⊆ u.pool.used := by
  rcases hExpresses.comes with ⟨g'', hSnak, hEntry⟩
  have hCall :
      (pool.reserveAll found.names).used ⊆ g.pool.used := by
    have hGrows := (hDraws (ownCall task e found pool) he).chain.grows
    have hRun :
        ((ownCall task e found pool).run).2.pool = g.pool := by
      rw [hOwn]
    rw [← hRun]
    exact hGrows
  have hParts :=
    hPart.used_subset Group.pool fun part _ g =>
      (introduces_constrainPart hPatterns hDraws found part g).grows
  have hSnaks :=
    hSnak.used_subset Group.pool fun snak _ g =>
      (introduces_constrainOne hPatterns hDraws focus snak g).grows
  have hEntries :=
    hEntry.used_subset Alternatives.pool fun e he u =>
      (introduces_express hPatterns hDraws snak.kind goal he
        u).grows
  intro n hn
  apply hEntries
  apply hSnaks
  apply hParts
  apply hCall
  rcases List.mem_append.mp hn with hn | hn
  · exact NamePool.used_subset_reserveAll pool _ hn
  · exact NamePool.mem_used_reserveAll pool hn

end Compile

end StatementQuery

------------------------------------------------------------
-- What Nested Calls Speak Of
------------------------------------------------------------

namespace StatementQuery

namespace Compile

/-
  Each call that a compilation makes is the one a branch starts
  with, or is nested in the branch, for a snak that is asked of
  what the subject or the value settles to.  Where that is a
  variable, and so is the subject of the pattern that expresses
  the snak, the kinds of the two say what the call is given.
-/
theorem Calls.own_or_linked
    {codec : Codec}
    {registrations : List Registration}
    (hPatterns :
      ∀ r ∈ registrations, ∀ p ∈ r.patterns, p.WellFormed)
    {m : Mapping}
    (hMapping : Mapping.build codec registrations = .ok m)
    {draws : Call → List Introduction}
    (hDraws : Drawing m draws)
    {options : Options}
    {f : Filter}
    {e : Entry}
    {call : Call}
    (h : Calls ⟨m, options, f⟩ e call) :
    ∃ t found p,
      Tries ⟨m, options, f⟩ t e found p ∧
        (call = ownCall ⟨m, options, f⟩ e found p.pool ∨
          ∃ part ∈ t.constrained, ∃ snak ∈ part.2,
            ∃ focus pattern found' pool,
              Term.settle? found.bindings part.1 =
                  some (some focus) ∧
                Nests ⟨m, options, f⟩ pool.used focus snak
                  call.entry pattern found' ∧
                call =
                  nestedCall m options call.entry found' pool ∧
                ∀ v s q, focus = .var v →
                  pattern.statementParts? = some (.var s, q) →
                    Links pool.used v s q found') := by
  have hEntries := Mapping.wellFormed_of_build hPatterns hMapping
  cases h with
  | @own t e found p hTries =>
      exact ⟨t, found, p, hTries, Or.inl rfl⟩
  | @nested t e e' found found' p rank g g' part focus goal snak u
      hTries hOwn hPart hFocus hExpresses =>
      rcases hExpresses.comes with ⟨_, hComes, _⟩
      have hSnak := hComes.mem
      rcases hExpresses.exists_nests with ⟨pattern, hNests⟩
      refine
        ⟨t, found, p, hTries, Or.inr
          ⟨part, hPart.mem, snak, hSnak, focus, pattern, found',
            u.pool, hFocus, hNests, rfl, ?_⟩⟩
      rintro v s q rfl hSubject
      rcases focus_spec hEntries (hTries.serves hEntries hDraws)
          hPart.mem hSnak hFocus with
        ⟨hKind, hName⟩
      have hUsed :=
        used_subset_nested hEntries hDraws hTries.mem.2 hOwn hPart
          hExpresses
      exact hNests.links hEntries hKind (hUsed hName) hSubject

end Compile

end StatementQuery
