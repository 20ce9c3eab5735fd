import StatementQuery.Proofs.ConstructedTerms
import StatementQuery.Proofs.DecodedStatements
import StatementQuery.Proofs.RenamedVariants
import StatementQuery.Proofs.TermPreservation

/-
  Generalized terms and the terms they were made from.

  Generalizing a term takes it apart, ground or not, puts fresh
  variables in place of absent arguments and builds it again.
  The new variables have names of their own, and each of them
  occurs once.  Matching the result with the original meets
  each of them with an absent argument, so all are bound to
  the absent value, and instantiating them gives the original.

  Key definitions include:
    * `Term.Opens`
    * `Term.OpensArgs`
    * `Term.Opened`
    * `Term.Saturated`

  Main declarations:
    * `Term.OpenedArgs.exists_apply`
    * `Term.opened_of_opens`
    * `Term.exists_opens`
    * `Term.aligns_of_opens`
    * `Term.generalize_undone`
-/

------------------------------------------------------------
-- Opening Absent Arguments
------------------------------------------------------------

namespace StatementQuery

namespace Term

mutual

/-
  Opening a term: what has no arguments is left alone, and what
  has arguments is built again from them.  There is no rule for
  a constructor that fails.
-/
inductive Opens
    (supply : NameSupply) :
    List String → Term → Term → List Variable → Prop where
| leaf
    {taken : List String}
    {t : Term}
    (hArgs : t.args? = none) :
    Opens supply taken t t []
| node
    {taken : List String}
    {t u : Term}
    {c : Constructor}
    {args filled : List (Option Term)}
    {added : List Variable}
    (hKind : t.kind = c.kind)
    (hArgs : t.args? = some args)
    (hFilled :
      OpensArgs supply c.isStructural c.slots taken args filled
        added)
    (hApply : apply c filled = .ok u) :
    Opens supply taken t u added

/-
  Opening arguments: an absent one is a variable of the first
  name that is not taken, and the others are opened below snaks
  and statements.  There is no rule for a lack of names.
-/
inductive OpensArgs
    (supply : NameSupply) :
    Bool → List Slot → List String → List (Option Term) →
      List (Option Term) → List Variable → Prop where
| nil
    {deep : Bool}
    {taken : List String} :
    OpensArgs supply deep [] taken [] [] []
| absent
    {deep : Bool}
    {taken : List String}
    {slot : Slot}
    {slots : List Slot}
    {args filled : List (Option Term)}
    {added : List Variable}
    {name : String}
    (hName :
      ((supply.candidates taken).find? fun name =>
        !taken.contains name) = some name)
    (hRest :
      OpensArgs supply deep slots (name :: taken) args filled
        added) :
    OpensArgs supply deep (slot :: slots) taken (none :: args)
      (some (.var ⟨name, slot.kind⟩) :: filled)
      (⟨name, slot.kind⟩ :: added)
| kept
    {taken : List String}
    {slot : Slot}
    {slots : List Slot}
    {args filled : List (Option Term)}
    {added : List Variable}
    {t : Term}
    (hRest :
      OpensArgs supply false slots taken args filled added) :
    OpensArgs supply false (slot :: slots) taken
      (some t :: args) (some t :: filled) added
| opened
    {taken : List String}
    {slot : Slot}
    {slots : List Slot}
    {args filled : List (Option Term)}
    {first rest : List Variable}
    {t u : Term}
    (hFirst : Opens supply taken t u first)
    (hRest :
      OpensArgs supply true slots
        ((first.map Variable.name).reverse ++ taken) args filled
        rest) :
    OpensArgs supply true (slot :: slots) taken
      (some t :: args) (some u :: filled) (first ++ rest)

end

end Term

end StatementQuery

------------------------------------------------------------
-- What Opening Changes
------------------------------------------------------------

namespace StatementQuery

namespace Term

/- A well-formed term whose names are all taken. -/
structure Known (taken : List String) (t : Term) : Prop where
  formed : t.WellFormed
  names : ∀ v ∈ t.occurrences, v.name ∈ taken

/- A term is known as well if more names are taken. -/
theorem Known.mono
    {taken taken' : List String}
    {t : Term}
    (h : Known taken t)
    (hSubset : taken ⊆ taken') :
    Known taken' t :=
  ⟨h.formed, fun v hv => hSubset (h.names v hv)⟩

/- The variables of a term are those of its arguments. -/
theorem occurrencesArgs_args?
    {t : Term}
    {args : List (Option Term)}
    (h : t.args? = some args) :
    occurrencesArgs args = t.occurrences := by
  cases t with
  | var v => cases h
  | app c args' =>
      cases h
      rfl
  | ground g =>
      rcases Option.map_eq_some_iff.mp h with ⟨gs, _, rfl⟩
      apply occurrencesArgs_of_closed
      apply List.any_eq_false.mpr
      intro arg hArg
      rcases List.mem_map.mp hArg with ⟨a, _, rfl⟩
      cases a <;> simp [isOpenArg, isGround]

/- The arguments of a known term are known. -/
theorem Known.arg
    {taken : List String}
    {t u : Term}
    {args : List (Option Term)}
    (h : Known taken t)
    (hArgs : t.args? = some args)
    (hu : some u ∈ args) :
    Known taken u := by
  have hWithin : Side.Within (· ∈ t.occurrences) (some t) := by
    rintro w ⟨⟩
    exact ⟨h.formed.shaped, fun _ hv => hv⟩
  rcases within_args hWithin hArgs hu u rfl with
    ⟨hShaped, hScope⟩
  refine ⟨⟨hShaped, ?_⟩, fun v hv => h.names v (hScope v hv)⟩
  intro v hv w hw hName
  exact h.formed.oneKind v (hScope v hv) w (hScope w hw) hName

/- A term that has arguments is built from them. -/
theorem apply_args?
    {t : Term}
    {c : Constructor}
    {args : List (Option Term)}
    (ht : t.WellFormed)
    (hKind : t.kind = c.kind)
    (hArgs : t.args? = some args) :
    apply c args = .ok t := by
  cases t with
  | var v => cases hArgs
  | app d args' =>
      cases hArgs
      rw [← Constructor.kind_injective hKind]
      exact apply_of_wellFormed ht
  | ground g =>
      rcases Option.map_eq_some_iff.mp hArgs with ⟨gs, hgs, rfl⟩
      exact apply_args?_ground hKind hgs

/- New variables, each of a name of its own. -/
structure Fresh
    (taken : List String)
    (added : List Variable) : Prop where
  notTaken : ∀ v ∈ added, v.name ∉ taken
  nodup : (added.map Variable.name).Nodup

/- How an opened term differs from the original. -/
structure Opened
    (taken : List String)
    (t u : Term)
    (added : List Variable) : Prop where
  formed : u.WellFormed
  kind : u.kind = t.kind
  occurrences :
    ∀ v, v ∈ u.occurrences ↔ v ∈ t.occurrences ∨ v ∈ added
  fresh : Fresh taken added
  unchanged : added = [] → u = t

/- How opened arguments differ from the original ones. -/
structure OpenedArgs
    (taken : List String)
    (slots : List Slot)
    (args filled : List (Option Term))
    (added : List Variable) : Prop where
  admits : List.Forall₂ Slot.Admits slots filled
  shaped : ∀ u, some u ∈ filled → u.WellShaped
  occurrences :
    ∀ v, v ∈ occurrencesArgs filled ↔
      v ∈ occurrencesArgs args ∨ v ∈ added
  fresh : Fresh taken added
  unchanged : added = [] → filled = args

/- Known variables and new ones have one kind for each name. -/
theorem Fresh.oneKind
    {taken : List String}
    {added vs ws : List Variable}
    (h : Fresh taken added)
    (hNames : ∀ v ∈ vs, v.name ∈ taken)
    (hOneKind : Variable.OneKind vs)
    (hws : ∀ v ∈ ws, v ∈ vs ∨ v ∈ added) :
    Variable.OneKind ws := by
  intro v hv w hw hName
  rcases hws v hv with hv | hv <;> rcases hws w hw with hw | hw
  · exact hOneKind v hv w hw hName
  · exact absurd (hName ▸ hNames v hv) (h.notTaken w hw)
  · exact absurd (hName ▸ hNames w hw) (h.notTaken v hv)
  · rw [List.inj_on_of_nodup_map h.nodup hv hw hName]

/- From opened arguments a term is built as it was. -/
theorem OpenedArgs.exists_apply
    {taken : List String}
    {t : Term}
    {c : Constructor}
    {args filled : List (Option Term)}
    {added : List Variable}
    (h : OpenedArgs taken c.slots args filled added)
    (ht : Known taken t)
    (hKind : t.kind = c.kind)
    (hArgs : t.args? = some args) :
    ∃ u, apply c filled = .ok u ∧ u.args? = some filled ∧
      (added ≠ [] → u = .app c filled) ∧
      Opened taken t u added := by
  by_cases hAdded : added = []
  · -- Nothing was absent, so the term is built as it was.
    subst hAdded
    have hFilled := h.unchanged rfl
    subst hFilled
    exact
      ⟨t, apply_args? ht.formed hKind hArgs, hArgs,
        fun hSome => absurd rfl hSome, ht.formed, rfl, by simp,
        h.fresh, fun _ => rfl⟩
  · -- There is a new variable, so an application is built.
    have hOccurs :
        ∀ v, v ∈ (Term.app c filled).occurrences ↔
          v ∈ t.occurrences ∨ v ∈ added := by
      intro v
      rw [← occurrencesArgs_args? hArgs]
      exact h.occurrences v
    have hOpen : filled.any isOpenArg = true := by
      rcases List.exists_mem_of_ne_nil _ hAdded with ⟨v, hv⟩
      have hMem := (h.occurrences v).mpr (Or.inr hv)
      by_contra hClosed
      rw [occurrencesArgs_of_closed
        (Bool.eq_false_iff.mpr hClosed)] at hMem
      cases hMem
    have hFormed : (Term.app c filled).WellFormed :=
      ⟨.app h.admits hOpen h.shaped,
        h.fresh.oneKind ht.names ht.formed.oneKind
          fun v hv => (hOccurs v).mp hv⟩
    exact
      ⟨.app c filled, apply_of_wellFormed hFormed, rfl,
        fun _ => rfl, hFormed, hKind.symm, hOccurs, h.fresh,
        fun hNone => absurd hNone hAdded⟩

/- No argument is left to be opened. -/
theorem openedArgs_nil
    (taken : List String) :
    OpenedArgs taken [] [] [] [] :=
  ⟨.nil, nofun, by simp, ⟨nofun, .nil⟩, fun _ => rfl⟩

/- A variable in place of an absent argument. -/
theorem OpenedArgs.absent
    {taken : List String}
    {slot : Slot}
    {slots : List Slot}
    {args filled : List (Option Term)}
    {added : List Variable}
    {name : String}
    (hName : name ∉ taken)
    (h : OpenedArgs (name :: taken) slots args filled added) :
    OpenedArgs taken (slot :: slots) (none :: args)
      (some (.var ⟨name, slot.kind⟩) :: filled)
      (⟨name, slot.kind⟩ :: added) := by
  refine ⟨.cons (le_refl slot.kind) h.admits, ?_, ?_, ⟨?_, ?_⟩,
    nofun⟩
  · intro u hu
    rcases List.mem_cons.mp hu with hu | hu
    · cases hu
      exact .var _
    · exact h.shaped u hu
  · intro v
    simp only [occurrencesArgs, Term.occurrences,
      List.singleton_append, List.mem_cons, h.occurrences]
    tauto
  · intro v hv
    rcases List.mem_cons.mp hv with rfl | hv
    · exact hName
    · exact fun hTaken =>
        h.fresh.notTaken v hv (List.mem_cons_of_mem _ hTaken)
  · rw [List.map_cons, List.nodup_cons]
    refine ⟨?_, h.fresh.nodup⟩
    intro hMem
    rcases List.mem_map.mp hMem with ⟨v, hv, hEq⟩
    exact h.fresh.notTaken v hv (hEq ▸ List.mem_cons_self)

/- An argument in place of one that is opened. -/
theorem OpenedArgs.opened
    {taken : List String}
    {slot : Slot}
    {slots : List Slot}
    {args filled : List (Option Term)}
    {first rest : List Variable}
    {t u : Term}
    (hKind : t.kind ≤ slot.kind)
    (hFirst : Opened taken t u first)
    (h :
      OpenedArgs ((first.map Variable.name).reverse ++ taken)
        slots args filled rest) :
    OpenedArgs taken (slot :: slots) (some t :: args)
      (some u :: filled) (first ++ rest) := by
  have hApart :
      ∀ v ∈ rest, v.name ∉ first.map Variable.name ∧
        v.name ∉ taken := by
    intro v hv
    have hNot := h.fresh.notTaken v hv
    simpa only [List.mem_append, List.mem_reverse, not_or]
      using hNot
  refine ⟨.cons ?_ h.admits, ?_, ?_, ⟨?_, ?_⟩, ?_⟩
  · rw [Slot.Admits, hFirst.kind]
    exact hKind
  · intro w hw
    rcases List.mem_cons.mp hw with hw | hw
    · cases hw
      exact hFirst.formed.shaped
    · exact h.shaped w hw
  · intro v
    simp only [occurrencesArgs, List.mem_append,
      hFirst.occurrences, h.occurrences]
    tauto
  · intro v hv
    rcases List.mem_append.mp hv with hv | hv
    · exact hFirst.fresh.notTaken v hv
    · exact (hApart v hv).2
  · rw [List.map_append]
    refine hFirst.fresh.nodup.append h.fresh.nodup ?_
    intro n hn hn'
    rcases List.mem_map.mp hn' with ⟨v, hv, rfl⟩
    exact (hApart v hv).1 hn
  · intro hNone
    rcases List.append_eq_nil_iff.mp hNone with ⟨hNil, hNil'⟩
    rw [hFirst.unchanged hNil, h.unchanged hNil']

/- A known term is opened to itself, with no variable added. -/
theorem Known.opened_self
    {taken : List String}
    {t : Term}
    (h : Known taken t) :
    Opened taken t t [] :=
  ⟨h.formed, rfl, by simp, ⟨nofun, .nil⟩, fun _ => rfl⟩

mutual

/- An opened term differs in what is added only. -/
theorem opened_of_opens
    {supply : NameSupply}
    {taken : List String}
    {t u : Term}
    {added : List Variable} :
    Opens supply taken t u added → Known taken t →
      Opened taken t u added
| .leaf _, ht => ht.opened_self
| .node hKind hArgs hFilled hApply, ht => by
    have hSlots := admits_args? ht.formed.shaped hKind hArgs
    have hOpened :=
      openedArgs_of_opensArgs hFilled hSlots
        fun w hw => ht.arg hArgs hw
    rcases hOpened.exists_apply ht hKind hArgs with
      ⟨u', hApply', _, _, hOpened⟩
    cases hApply.symm.trans hApply'
    exact hOpened

/- Opened arguments differ in what is added only. -/
theorem openedArgs_of_opensArgs
    {supply : NameSupply}
    {deep : Bool}
    {slots : List Slot}
    {taken : List String}
    {args filled : List (Option Term)}
    {added : List Variable} :
    OpensArgs supply deep slots taken args filled added →
      List.Forall₂ Slot.Admits slots args →
        (∀ t, some t ∈ args → Known taken t) →
          OpenedArgs taken slots args filled added
| .nil, _, _ => openedArgs_nil _
| .absent hName hRest, .cons _ hSlots, hKnown => by
    refine .absent (by simpa using List.find?_some hName) ?_
    refine openedArgs_of_opensArgs hRest hSlots ?_
    intro t ht
    exact (hKnown t (List.mem_cons_of_mem _ ht)).mono
      (List.subset_cons_self _ _)
| .kept hRest, .cons hSlot hSlots, hKnown =>
    .opened hSlot (hKnown _ List.mem_cons_self).opened_self
      (openedArgs_of_opensArgs hRest hSlots
        fun t ht => hKnown t (List.mem_cons_of_mem _ ht))
| .opened hFirst hRest, .cons hSlot hSlots, hKnown => by
    refine .opened hSlot
      (opened_of_opens hFirst (hKnown _ List.mem_cons_self)) ?_
    refine openedArgs_of_opensArgs hRest hSlots ?_
    intro t ht
    exact (hKnown t (List.mem_cons_of_mem _ ht)).mono
      (List.subset_append_right _ _)

end

/- What is known of a term that is built again. -/
theorem spec_node
    {supply : NameSupply}
    {taken : List String}
    {t u : Term}
    {c : Constructor}
    {args filled : List (Option Term)}
    {added : List Variable}
    (ht : Known taken t)
    (hKind : t.kind = c.kind)
    (hArgs : t.args? = some args)
    (hFilled :
      OpensArgs supply c.isStructural c.slots taken args filled
        added)
    (hApply : apply c filled = .ok u) :
    u.args? = some filled ∧
      (added ≠ [] → u = .app c filled) ∧
      OpenedArgs taken c.slots args filled added ∧
      Opened taken t u added := by
  have hSlots := admits_args? ht.formed.shaped hKind hArgs
  have hOpenedArgs :=
    openedArgs_of_opensArgs hFilled hSlots
      fun w hw => ht.arg hArgs hw
  rcases hOpenedArgs.exists_apply ht hKind hArgs with
    ⟨u', hApply', hArgs', hApp, hOpened⟩
  cases hApply.symm.trans hApply'
  exact ⟨hArgs', hApp, hOpenedArgs, hOpened⟩

end Term

end StatementQuery

------------------------------------------------------------
-- Generalization
------------------------------------------------------------

namespace StatementQuery

/- There is a name that is not taken. -/
theorem NameSupply.find?_candidates
    (supply : NameSupply)
    (taken : List String) :
    ((supply.candidates taken).find? fun name =>
        !taken.contains name) =
      some (supply.fresh taken) := by
  rcases supply.exists_candidate taken with
    ⟨name, hName, hFree⟩
  have hSome :
      ((supply.candidates taken).find? fun name =>
        !taken.contains name).isSome = true :=
    List.find?_isSome.mpr ⟨name, hName, by simpa using hFree⟩
  rcases Option.isSome_iff_exists.mp hSome with ⟨first, hFirst⟩
  rw [NameSupply.fresh, hFirst, Option.getD_some]

namespace Term

/- A term is opened to a result, with the names then taken. -/
def OpensTo
    (supply : NameSupply)
    (taken : List String)
    (t : Term)
    (result : Term × List String) : Prop :=
  ∃ added : List Variable,
    Opens supply taken t result.1 added ∧
      result.2 = (added.map Variable.name).reverse ++ taken

/- Arguments are opened to a result, with the names then taken. -/
def OpensArgsTo
    (supply : NameSupply)
    (deep : Bool)
    (slots : List Slot)
    (taken : List String)
    (args : List (Option Term))
    (result : List (Option Term) × List String) : Prop :=
  ∃ added : List Variable,
    OpensArgs supply deep slots taken args result.1 added ∧
      result.2 = (added.map Variable.name).reverse ++ taken

section Results

variable {supply : NameSupply} {deep : Bool}
variable {slot : Slot} {slots : List Slot}
variable {taken : List String} {args : List (Option Term)}
variable {result : List (Option Term) × List String}

theorem opensArgsTo_nil :
    OpensArgsTo supply deep [] taken [] ([], taken) :=
  ⟨[], .nil, rfl⟩

/- A fresh variable in place of an absent argument. -/
theorem opensArgsTo_absent
    (h :
      OpensArgsTo supply deep slots (supply.fresh taken :: taken)
        args result) :
    OpensArgsTo supply deep (slot :: slots) taken (none :: args)
      (some (.var ⟨supply.fresh taken, slot.kind⟩) :: result.1,
        result.2) := by
  rcases h with ⟨added, hRest, hTaken⟩
  refine
    ⟨_, .absent (supply.find?_candidates taken) hRest, ?_⟩
  simp [hTaken]

/- An argument that is left as it is. -/
theorem opensArgsTo_kept
    {t : Term}
    (h : OpensArgsTo supply false slots taken args result) :
    OpensArgsTo supply false (slot :: slots) taken
      (some t :: args) (some t :: result.1, result.2) := by
  rcases h with ⟨added, hRest, hTaken⟩
  exact ⟨added, .kept hRest, hTaken⟩

/- An argument that is opened. -/
theorem opensArgsTo_opened
    {t : Term}
    {first : Term × List String}
    (hFirst : OpensTo supply taken t first)
    (h : OpensArgsTo supply true slots first.2 args result) :
    OpensArgsTo supply true (slot :: slots) taken
      (some t :: args) (some first.1 :: result.1, result.2) := by
  rcases hFirst with ⟨added, hOpens, hTaken⟩
  rcases h with ⟨rest, hRest, hTaken'⟩
  rw [hTaken] at hRest hTaken'
  refine ⟨added ++ rest, .opened hOpens hRest, ?_⟩
  simp [hTaken']

/- A term is built again, whatever it would be replaced by. -/
theorem opensTo_applyOr
    {t : Term}
    {c : Constructor}
    (ht : Known taken t)
    (hKind : t.kind = c.kind)
    (hArgs : t.args? = some args)
    (h :
      OpensArgsTo supply c.isStructural c.slots taken args
        result)
    (fallback : Term) :
    OpensTo supply taken t
      (applyOr fallback c result.1, result.2) := by
  rcases h with ⟨added, hFilled, hTaken⟩
  have hSlots := admits_args? ht.formed.shaped hKind hArgs
  have hOpened :=
    openedArgs_of_opensArgs hFilled hSlots
      fun w hw => ht.arg hArgs hw
  rcases hOpened.exists_apply ht hKind hArgs with
    ⟨u, hApply, _⟩
  refine ⟨added, ?_, hTaken⟩
  rw [applyOr, hApply]
  exact .node hKind hArgs hFilled hApply

/- Absent arguments are filled one by one. -/
theorem opensArgsTo_fillAbsent
    (hLength : slots.length = args.length) :
    OpensArgsTo supply false slots taken args
      (fillAbsent supply slots args taken) := by
  induction slots generalizing args taken with
  | nil =>
      rw [List.length_eq_zero_iff.mp hLength.symm]
      exact opensArgsTo_nil
  | cons slot slots ih =>
      cases args with
      | nil => cases hLength
      | cons arg args =>
          have hRest := Nat.succ.inj hLength
          cases arg with
          | none => exact opensArgsTo_absent (ih hRest)
          | some t => exact opensArgsTo_kept (ih hRest)

end Results

/- A ground term has no names that could be taken. -/
theorem known_ground
    (taken : List String)
    (g : Ground) :
    Known taken (.ground g) :=
  ⟨wellFormed_ground g, nofun⟩

/- An entity is left as it is. -/
theorem opensTo_entity
    (supply : NameSupply)
    (taken : List String)
    (e : Entity) :
    OpensTo supply taken (.ground (.value (.entity e)))
      (.ground (.value (.entity e)), taken) :=
  ⟨[],
    .node (c := .entity e.kind) rfl rfl (.kept .nil)
      (apply_args? (wellFormed_ground _) rfl rfl),
    rfl⟩

/- Parts of a value that are absent are filled. -/
theorem opensTo_fillAbsent
    {supply : NameSupply}
    {taken : List String}
    {c : Constructor}
    {args : List (Option Term)}
    (g : Ground)
    (hShallow : c.isStructural = false)
    (hKind : g.kind = c.kind)
    (hArgs : (Term.ground g).args? = some args) :
    OpensTo supply taken (.ground g)
      (applyOr (.ground g) c
          (fillAbsent supply c.slots args taken).1,
        (fillAbsent supply c.slots args taken).2) := by
  have hSlots :=
    admits_args? (wellFormed_ground g).shaped hKind hArgs
  refine opensTo_applyOr (known_ground taken g) hKind hArgs ?_ _
  rw [hShallow]
  exact opensArgsTo_fillAbsent hSlots.length_eq

end Term

/- A value is opened, unless it has no parts. -/
theorem Value.opensTo
    (supply : NameSupply)
    (taken : List String)
    (v : Value) :
    Term.OpensTo supply taken (.ground (.value v))
      (v.generalize supply taken) := by
  cases v with
  | entity e =>
      rcases e with ⟨_ | _ | _, i⟩
      · exact Term.opensTo_fillAbsent (c := .entity .item)
          (.value (.item i)) rfl rfl rfl
      · exact Term.opensTo_fillAbsent (c := .entity .property)
          (.value (.property i)) rfl rfl rfl
      · exact Term.opensTo_fillAbsent (c := .entity .lexeme)
          (.value (.lexeme i)) rfl rfl rfl
  | iri i =>
      exact Term.opensTo_fillAbsent (c := .iri)
        (.value (.iri i)) rfl rfl rfl
  | text content language =>
      exact Term.opensTo_fillAbsent (c := .text)
        (.value (.text content language)) rfl rfl rfl
  | string content => exact ⟨[], .leaf rfl, rfl⟩
  | externalId content => exact ⟨[], .leaf rfl, rfl⟩
  | quantity q =>
      exact Term.opensTo_fillAbsent (c := .quantity)
        (.value (.quantity q)) rfl rfl rfl
  | time t =>
      exact Term.opensTo_fillAbsent (c := .time)
        (.value (.time t)) rfl rfl rfl

/- A snak is opened through its value. -/
theorem Snak.opensTo
    (supply : NameSupply)
    (taken : List String)
    (s : Snak) :
    Term.OpensTo supply taken (.ground (.snak s))
      (s.generalize supply taken) := by
  have hProperty :=
    Term.opensTo_entity supply taken ⟨.property, s.property⟩
  cases s with
  | value p v =>
      exact Term.opensTo_applyOr (c := .valueSnak)
        (Term.known_ground taken _) rfl rfl
        (Term.opensArgsTo_opened hProperty
          (Term.opensArgsTo_opened (v.opensTo supply taken)
            Term.opensArgsTo_nil))
        _
  | someValue p =>
      exact Term.opensTo_applyOr (c := .someValueSnak)
        (Term.known_ground taken _) rfl rfl
        (Term.opensArgsTo_opened hProperty Term.opensArgsTo_nil)
        _
  | noValue p =>
      exact Term.opensTo_applyOr (c := .noValueSnak)
        (Term.known_ground taken _) rfl rfl
        (Term.opensArgsTo_opened hProperty Term.opensArgsTo_nil)
        _

/- A ground term is opened through its snak. -/
theorem Ground.opensTo
    (supply : NameSupply)
    (taken : List String)
    (g : Ground) :
    Term.OpensTo supply taken (.ground g)
      (g.generalize supply taken) := by
  cases g with
  | value v => exact v.opensTo supply taken
  | snak s => exact s.opensTo supply taken
  | statement s =>
      have hSubject :=
        Term.opensTo_entity supply taken s.subject
      exact Term.opensTo_applyOr (c := .statement)
        (Term.known_ground taken _) rfl rfl
        (Term.opensArgsTo_opened hSubject
          (Term.opensArgsTo_opened (s.snak.opensTo supply taken)
            Term.opensArgsTo_nil))
        _

namespace Term

/- Arguments are generalized one by one. -/
theorem opensArgsTo_generalizeArgs
    {supply : NameSupply}
    {slots : List Slot}
    {args : List (Option Term)}
    {taken : List String}
    (ih :
      ∀ t, some t ∈ args → ∀ taken, Known taken t →
        OpensTo supply taken t (generalizeFrom supply t taken))
    (hKnown : ∀ t, some t ∈ args → Known taken t)
    (hLength : slots.length = args.length) :
    OpensArgsTo supply true slots taken args
      (generalizeArgs supply slots args taken) := by
  induction slots generalizing args taken with
  | nil =>
      rw [List.length_eq_zero_iff.mp hLength.symm]
      simp only [generalizeArgs]
      exact opensArgsTo_nil
  | cons slot slots ihSlots =>
      cases args with
      | nil => cases hLength
      | cons arg args =>
          have hRest := Nat.succ.inj hLength
          have ihRest := fun t ht => ih t (List.mem_cons_of_mem _ ht)
          have hKnownRest :=
            fun t ht => hKnown t (List.mem_cons_of_mem _ ht)
          cases arg with
          | none =>
              simp only [generalizeArgs, freshVariable]
              refine opensArgsTo_absent (ihSlots ihRest ?_ hRest)
              intro t ht
              exact (hKnownRest t ht).mono
                (List.subset_cons_self _ _)
          | some t =>
              simp only [generalizeArgs]
              have hFirst :=
                ih t List.mem_cons_self taken
                  (hKnown t List.mem_cons_self)
              refine opensArgsTo_opened hFirst
                (ihSlots ihRest ?_ hRest)
              intro u hu
              rcases hFirst with ⟨added, _, hTaken⟩
              rw [hTaken]
              exact (hKnownRest u hu).mono
                (List.subset_append_right _ _)

/- A known term is opened to its generalization. -/
theorem opensTo_generalizeFrom
    (supply : NameSupply)
    {t : Term}
    {taken : List String}
    (ht : Known taken t) :
    OpensTo supply taken t (generalizeFrom supply t taken) := by
  induction t generalizing taken with
  | ground g =>
      rw [generalizeFrom]
      exact g.opensTo supply taken
  | var v =>
      rw [generalizeFrom]
      exact ⟨[], .leaf rfl, rfl⟩
  | app c args ih =>
      rw [generalizeFrom]
      have hSlots :=
        admits_args? (c := c) ht.formed.shaped rfl rfl
      refine opensTo_applyOr (c := c) ht rfl rfl ?_ _
      cases hDeep : c.isStructural with
      | true =>
          exact opensArgsTo_generalizeArgs
            (fun t htMem taken hKnown => ih t htMem hKnown)
            (fun t htMem => ht.arg rfl htMem) hSlots.length_eq
      | false => exact opensArgsTo_fillAbsent hSlots.length_eq

/- A well-formed term is known if its names are taken. -/
theorem WellFormed.known
    {t : Term}
    (ht : t.WellFormed)
    (avoid : List String) :
    Known (avoid ++ t.names) t := by
  refine ⟨ht, fun v hv => List.mem_append_right _ ?_⟩
  exact (Variable.mem_names _ _).mpr ⟨v, hv, rfl⟩

/-
  A well-formed term is opened to its generalization: neither a
  constructor fails nor do names run out.
-/
theorem exists_opens
    {t : Term}
    (ht : t.WellFormed)
    (avoid : List String)
    (supply : NameSupply) :
    ∃ added : List Variable,
      Opens supply (avoid ++ t.names) t
        (t.generalize avoid supply) added := by
  rcases opensTo_generalizeFrom supply (ht.known avoid) with
    ⟨added, hOpens, _⟩
  exact ⟨added, hOpens⟩

end Term

end StatementQuery

------------------------------------------------------------
-- Nothing Is Left Absent
------------------------------------------------------------

namespace StatementQuery

namespace Term

/- A term that is reached through snaks and statements. -/
inductive Reaches : Term → Term → Prop where
| refl
    (t : Term) :
    Reaches t t
| arg
    {t u w : Term}
    {c : Constructor}
    {args : List (Option Term)}
    (hKind : t.kind = c.kind)
    (hDeep : c.isStructural = true)
    (hArgs : t.args? = some args)
    (hu : some u ∈ args)
    (hw : Reaches u w) :
    Reaches t w

/- No term that is reached lacks an argument. -/
def Saturated (t : Term) : Prop :=
  ∀ w args, Reaches t w → w.args? = some args → none ∉ args

/- What has no arguments lacks none. -/
theorem saturated_of_leaf
    {t : Term}
    (h : t.args? = none) :
    t.Saturated := by
  intro w args hReaches hArgs
  cases hReaches with
  | refl =>
      rw [h] at hArgs
      cases hArgs
  | arg _ _ hArgs' _ _ =>
      rw [h] at hArgs'
      cases hArgs'

/- A term lacks no argument if it has all, and they lack none. -/
theorem saturated_of_args
    {t : Term}
    {c : Constructor}
    {args : List (Option Term)}
    (hKind : t.kind = c.kind)
    (hArgs : t.args? = some args)
    (hPresent : none ∉ args)
    (hDeep :
      c.isStructural = true →
        ∀ u, some u ∈ args → u.Saturated) :
    t.Saturated := by
  intro w args' hReaches hArgs'
  cases hReaches with
  | refl =>
      cases hArgs.symm.trans hArgs'
      exact hPresent
  | @arg _ u _ d args'' hKind' hDeep' hArgs'' hu hw =>
      cases hArgs.symm.trans hArgs''
      cases Constructor.kind_injective (hKind.symm.trans hKind')
      exact hDeep hDeep' u hu w args' hw hArgs'

mutual

/- An opened term lacks no argument. -/
theorem saturated_of_opens
    {supply : NameSupply}
    {taken : List String}
    {t u : Term}
    {added : List Variable} :
    Opens supply taken t u added → Known taken t → u.Saturated
| .leaf hArgs, _ => saturated_of_leaf hArgs
| .node hKind hArgs hFilled hApply, ht => by
    rcases spec_node ht hKind hArgs hFilled hApply with
      ⟨hArgs', _, _, hOpened⟩
    rcases saturated_of_opensArgs hFilled
        fun w hw => ht.arg hArgs hw with
      ⟨hPresent, hDeep⟩
    exact saturated_of_args (hOpened.kind.trans hKind) hArgs'
      hPresent hDeep

/- Opened arguments are all there and, below, lack none. -/
theorem saturated_of_opensArgs
    {supply : NameSupply}
    {deep : Bool}
    {slots : List Slot}
    {taken : List String}
    {args filled : List (Option Term)}
    {added : List Variable} :
    OpensArgs supply deep slots taken args filled added →
      (∀ t, some t ∈ args → Known taken t) →
        none ∉ filled ∧
          (deep = true → ∀ u, some u ∈ filled → u.Saturated)
| .nil, _ => ⟨nofun, nofun⟩
| .absent _ hRest, hKnown => by
    rcases saturated_of_opensArgs hRest fun t ht =>
        (hKnown t (List.mem_cons_of_mem _ ht)).mono
          (List.subset_cons_self _ _) with
      ⟨hPresent, hDeep⟩
    refine ⟨by simpa using hPresent, fun h u hu => ?_⟩
    rcases List.mem_cons.mp hu with hu | hu
    · cases hu
      exact saturated_of_leaf rfl
    · exact hDeep h u hu
| .kept hRest, hKnown => by
    rcases saturated_of_opensArgs hRest fun t ht =>
        hKnown t (List.mem_cons_of_mem _ ht) with
      ⟨hPresent, _⟩
    exact ⟨by simpa using hPresent, nofun⟩
| .opened hFirst hRest, hKnown => by
    have hHead :=
      saturated_of_opens hFirst (hKnown _ List.mem_cons_self)
    rcases saturated_of_opensArgs hRest fun t ht =>
        (hKnown t (List.mem_cons_of_mem _ ht)).mono
          (List.subset_append_right _ _) with
      ⟨hPresent, hDeep⟩
    refine ⟨by simpa using hPresent, fun h u hu => ?_⟩
    rcases List.mem_cons.mp hu with hu | hu
    · cases hu
      exact hHead
    · exact hDeep h u hu

end

end Term

end StatementQuery

------------------------------------------------------------
-- Back To The Original
------------------------------------------------------------

namespace StatementQuery

namespace Term

/- Bindings that make new variables absent and no others. -/
structure Removes
    (θ : Bindings)
    (added old : List Variable) : Prop where
  added : ∀ v ∈ added, θ.get? v = some none
  old : ∀ v ∈ old, θ.get? v = none

/- An application is built again from its own arguments. -/
theorem instantiateWith_app
    {mode : InstantiateMode}
    {θ : Bindings}
    {t : Term}
    {c : Constructor}
    {args filled : List (Option Term)}
    (ht : t.WellFormed)
    (hKind : t.kind = c.kind)
    (hArgs : t.args? = some args)
    (hTouched : isTouched θ (.app c filled) = true)
    (hBack :
      instantiateArgs mode θ c 0 c.slots filled =
        .ok (some args)) :
    (Term.app c filled).instantiateWith mode θ =
      .ok (some t) := by
  rw [instantiateWith, if_pos hTouched, hBack]
  simp only
  rw [apply_args? ht hKind hArgs]
  rfl

mutual

/- Without what was added, an opened term is the original. -/
theorem instantiateWith_of_opens
    {supply : NameSupply}
    {taken : List String}
    {t u : Term}
    {added : List Variable}
    {θ : Bindings}
    (mode : InstantiateMode) :
    Opens supply taken t u added → Known taken t →
      Removes θ added t.occurrences →
        u.instantiateWith mode θ = .ok (some t)
| .leaf _, _, hθ => instantiateWith_of_unbound mode hθ.old
| .node hKind hArgs hFilled hApply, ht, hθ => by
    rcases spec_node ht hKind hArgs hFilled hApply with
      ⟨_, hApp, _, hOpened⟩
    by_cases hAdded : added = []
    · rw [hOpened.unchanged hAdded]
      exact instantiateWith_of_unbound mode hθ.old
    · rcases List.exists_mem_of_ne_nil _ hAdded with ⟨v, hv⟩
      have hOccurs := (hOpened.occurrences v).mpr (Or.inr hv)
      rw [hApp hAdded] at hOccurs ⊢
      refine instantiateWith_app ht.formed hKind hArgs ?_ ?_
      · exact List.any_eq_true.mpr
          ⟨v, hOccurs, by simp [Bindings.binds, hθ.added v hv]⟩
      · exact instantiateArgs_of_opensArgs mode _ 0 hFilled
          (admits_args? ht.formed.shaped hKind hArgs)
          (fun w hw => ht.arg hArgs hw)
          ⟨hθ.added, (occurrencesArgs_args? hArgs).symm ▸ hθ.old⟩

/- Without what was added, opened arguments are the original. -/
theorem instantiateArgs_of_opensArgs
    {supply : NameSupply}
    {deep : Bool}
    {slots : List Slot}
    {taken : List String}
    {args filled : List (Option Term)}
    {added : List Variable}
    {θ : Bindings}
    (mode : InstantiateMode)
    (c : Constructor)
    (position : Nat) :
    OpensArgs supply deep slots taken args filled added →
      List.Forall₂ Slot.Admits slots args →
        (∀ t, some t ∈ args → Known taken t) →
          Removes θ added (occurrencesArgs args) →
            instantiateArgs mode θ c position slots filled =
              .ok (some args)
| .nil, _, _, _ => by rw [instantiateArgs.eq_def]
| .absent hName hRest, .cons hSlot hSlots, hKnown, hθ => by
    have hBack :=
      instantiateArgs_of_opensArgs mode c (position + 1) hRest
        hSlots
        (fun t ht =>
          (hKnown t (List.mem_cons_of_mem _ ht)).mono
            (List.subset_cons_self _ _))
        ⟨fun v hv => hθ.added v (List.mem_cons_of_mem _ hv),
          hθ.old⟩
    have hGet := hθ.added _ List.mem_cons_self
    have hOptional : Slot.isOptional _ = true := hSlot
    simp [instantiateArgs, instantiateArg, instantiateWith,
      instantiateVariable, hGet, hOptional, hBack]
| .kept hRest, .cons _ hSlots, hKnown, hθ => by
    have hBack :=
      instantiateArgs_of_opensArgs mode c (position + 1) hRest
        hSlots
        (fun t ht => hKnown t (List.mem_cons_of_mem _ ht))
        ⟨hθ.added,
          fun v hv => hθ.old v (List.mem_append_right _ hv)⟩
    have hFirst :=
      instantiateWith_of_unbound mode
        fun v hv => hθ.old v (List.mem_append_left _ hv)
    simp [instantiateArgs, instantiateArg, hFirst, hBack]
| .opened hFirst hRest, .cons _ hSlots, hKnown, hθ => by
    have hBack :=
      instantiateArgs_of_opensArgs mode c (position + 1) hRest
        hSlots
        (fun t ht =>
          (hKnown t (List.mem_cons_of_mem _ ht)).mono
            (List.subset_append_right _ _))
        ⟨fun v hv => hθ.added v (List.mem_append_right _ hv),
          fun v hv => hθ.old v (List.mem_append_right _ hv)⟩
    have hHead :=
      instantiateWith_of_opens mode hFirst
        (hKnown _ List.mem_cons_self)
        ⟨fun v hv => hθ.added v (List.mem_append_left _ hv),
          fun v hv => hθ.old v (List.mem_append_left _ hv)⟩
    simp [instantiateArgs, instantiateArg, hHead, hBack]

end

end Term

end StatementQuery

------------------------------------------------------------
-- Matching With The Original
------------------------------------------------------------

namespace StatementQuery

namespace Term

open Unify

/- A variable that meets an absent argument. -/
def absentPart (v : Variable) : Part :=
  (v, none)

/- Equal terms are dropped. -/
theorem step_self
    (t : Term) :
    step (some t) (some t) = .ok .drop := by
  unfold step
  rw [if_pos (show sameOption (some t) (some t) = true from
    same_self t)]

/- A term with a variable of its own is no other term. -/
theorem sameOption_eq_false
    {t u : Term}
    {v : Variable}
    (hu : v ∈ u.occurrences)
    (ht : v ∉ t.occurrences) :
    sameOption (some u) (some t) = false := by
  apply Bool.eq_false_iff.mpr
  intro hSame
  have hCanonical : u.canonical = t.canonical :=
    (same_iff u t).mp hSame
  rw [← occurrences_canonical, hCanonical,
    occurrences_canonical] at hu
  exact ht hu

/- Opened arguments are paired with the original ones. -/
theorem pairArgs?_of_opensArgs
    {supply : NameSupply}
    {deep : Bool}
    {slots : List Slot}
    {taken : List String}
    {args filled : List (Option Term)}
    {added : List Variable}
    (h : OpensArgs supply deep slots taken args filled added) :
    pairArgs? filled args = some (filled.zip args) := by
  cases h with
  | nil => rfl
  | absent _ hRest =>
      simp [pairArgs?, isVariable, pairArgs?_of_opensArgs hRest]
  | kept hRest =>
      simp [pairArgs?, pairArgs?_of_opensArgs hRest]
  | opened _ hRest =>
      simp [pairArgs?, pairArgs?_of_opensArgs hRest]

/- An application is taken apart with a term of its kind. -/
theorem decompose?_app
    {t : Term}
    {c : Constructor}
    {args filled : List (Option Term)}
    {parts : List Equation}
    (hKind : t.kind = c.kind)
    (hArgs : t.args? = some args)
    (hParts : pairArgs? filled args = some parts) :
    decompose? (some (.app c filled)) (some t) = some parts := by
  have hSame : (Term.app c filled).kind = t.kind := hKind.symm
  rw [decompose?, if_neg]
  · rw [hArgs]
    exact hParts
  · simp [hSame, isGround]

/- The variables of pairs are those of either list. -/
theorem mem_of_mem_zip
    {filled args : List (Option Term)}
    {v : Variable}
    (h : v ∈ Equation.occurrences (filled.zip args)) :
    v ∈ occurrencesArgs filled ∨ v ∈ occurrencesArgs args := by
  rcases List.mem_flatMap.mp h with ⟨⟨a, b⟩, hMem, hv⟩
  rcases List.of_mem_zip hMem with ⟨ha, hb⟩
  rcases List.mem_append.mp hv with hv | hv
  · cases a with
    | none => cases hv
    | some t =>
        exact Or.inl
          ((mem_occurrencesArgs v filled).mpr ⟨t, ha, hv⟩)
  · cases b with
    | none => cases hv
    | some t =>
        exact Or.inr
          ((mem_occurrencesArgs v args).mpr ⟨t, hb, hv⟩)

/-
  The variables that an argument adds do not occur after it:
  not in what is opened later, nor in the original arguments.
-/
theorem apart_of_openedArgs
    {before after : List String}
    {slots : List Slot}
    {args filled : List (Option Term)}
    {added first : List Variable}
    {eqs : List Equation}
    (h : OpenedArgs after slots args filled added)
    (hKnown : ∀ t, some t ∈ args → Known before t)
    (hFirst : ∀ v ∈ first, v.name ∉ before ∧ v.name ∈ after)
    (hEqs :
      ∀ v ∈ Equation.occurrences eqs, ∀ w ∈ first,
        v.name ≠ w.name) :
    ∀ v ∈ Equation.occurrences (filled.zip args ++ eqs),
      ∀ w ∈ first, v.name ≠ w.name := by
  intro v hv w hw hName
  have hOld : v ∉ occurrencesArgs args := by
    intro hv
    rcases (mem_occurrencesArgs v args).mp hv with ⟨t, ht, hvt⟩
    have hBefore := (hKnown t ht).names v hvt
    exact (hFirst w hw).1 (hName ▸ hBefore)
  rw [Equation.occurrences, List.flatMap_append] at hv
  rcases List.mem_append.mp hv with hv | hv
  · rcases mem_of_mem_zip hv with hv | hv
    · rcases (h.occurrences v).mp hv with hv | hv
      · exact hOld hv
      · exact h.fresh.notTaken v hv (hName ▸ (hFirst w hw).2)
    · exact hOld hv
  · exact hEqs v hv w hw hName

/- A variable that was added is met first, and not again. -/
theorem aligns_absent
    {taken : List String}
    {slot : Slot}
    {slots : List Slot}
    {args filled : List (Option Term)}
    {added : List Variable}
    {name : String}
    {eqs rest : List Equation}
    {ps : List Part}
    (hName : name ∉ taken)
    (hOpened : OpenedArgs (name :: taken) slots args filled added)
    (hKnown : ∀ t, some t ∈ args → Known taken t)
    (hEqs : ∀ v ∈ Equation.occurrences eqs, v.name ≠ name)
    (hRest : Aligns (filled.zip args ++ eqs) ps rest) :
    Aligns
      ((some (.var ⟨name, slot.kind⟩), none) ::
        (filled.zip args ++ eqs))
      (absentPart ⟨name, slot.kind⟩ :: ps) rest := by
  have hApart :
      ∀ v ∈ Equation.occurrences (filled.zip args ++ eqs),
        ∀ w ∈ [(⟨name, slot.kind⟩ : Variable)],
          v.name ≠ w.name := by
    refine apart_of_openedArgs hOpened hKnown ?_ ?_
    · simpa using hName
    · simpa using hEqs
  refine .bind rfl ?_ hRest
  intro v hv hMem
  exact hApart v hv _ List.mem_cons_self
    (List.mem_singleton.mp hMem)

mutual

/- An opened term and the original come down to what is added. -/
theorem aligns_of_opens
    {supply : NameSupply}
    {taken : List String}
    {t u : Term}
    {added : List Variable}
    {eqs rest : List Equation}
    {ps : List Part} :
    Opens supply taken t u added → Known taken t →
      (∀ v ∈ Equation.occurrences eqs, ∀ w ∈ added,
        v.name ≠ w.name) →
        Aligns eqs ps rest →
          Aligns ((some u, some t) :: eqs)
            (added.map absentPart ++ ps) rest
| .leaf _, _, _, hRest => .drop (step_self _) hRest
| .node hKind hArgs hFilled hApply, ht, hEqs, hRest => by
    rcases spec_node ht hKind hArgs hFilled hApply with
      ⟨_, hApp, _, hOpened⟩
    by_cases hAdded : added = []
    · rw [hOpened.unchanged hAdded, hAdded]
      exact .drop (step_self _) hRest
    · rcases List.exists_mem_of_ne_nil _ hAdded with ⟨v, hv⟩
      have hNew := (hOpened.occurrences v).mpr (Or.inr hv)
      have hNotOld : v ∉ t.occurrences :=
        fun hOld => hOpened.fresh.notTaken v hv (ht.names v hOld)
      have hDiffer := sameOption_eq_false hNew hNotOld
      rw [hApp hAdded] at hDiffer ⊢
      refine
        .replace
          (step_of_decompose? hDiffer
            (decompose?_app hKind hArgs
              (pairArgs?_of_opensArgs hFilled)))
          ?_
      exact aligns_of_opensArgs hFilled
        (admits_args? ht.formed.shaped hKind hArgs)
        (fun w hw => ht.arg hArgs hw) hEqs hRest

/- Opened arguments and the original ones come down to it. -/
theorem aligns_of_opensArgs
    {supply : NameSupply}
    {deep : Bool}
    {slots : List Slot}
    {taken : List String}
    {args filled : List (Option Term)}
    {added : List Variable}
    {eqs rest : List Equation}
    {ps : List Part} :
    OpensArgs supply deep slots taken args filled added →
      List.Forall₂ Slot.Admits slots args →
        (∀ t, some t ∈ args → Known taken t) →
          (∀ v ∈ Equation.occurrences eqs, ∀ w ∈ added,
            v.name ≠ w.name) →
            Aligns eqs ps rest →
              Aligns (filled.zip args ++ eqs)
                (added.map absentPart ++ ps) rest
| .nil, _, _, _, hRest => hRest
| .absent hName hFilled, .cons _ hSlots, hKnown, hEqs, hRest => by
    have hTail := fun t ht => hKnown t (List.mem_cons_of_mem _ ht)
    have hOpened :=
      openedArgs_of_opensArgs hFilled hSlots
        fun t ht => (hTail t ht).mono (List.subset_cons_self _ _)
    refine
      aligns_absent (by simpa using List.find?_some hName) hOpened
        hTail (fun v hv => hEqs v hv _ List.mem_cons_self) ?_
    exact aligns_of_opensArgs hFilled hSlots
      (fun t ht => (hTail t ht).mono (List.subset_cons_self _ _))
      (fun v hv w hw => hEqs v hv w (List.mem_cons_of_mem _ hw))
      hRest
| .kept hFilled, .cons _ hSlots, hKnown, hEqs, hRest =>
    .drop (step_self _)
      (aligns_of_opensArgs hFilled hSlots
        (fun t ht => hKnown t (List.mem_cons_of_mem _ ht)) hEqs
        hRest)
| .opened hFirst hFilled, .cons _ hSlots, hKnown, hEqs, hRest => by
    have hHead := hKnown _ List.mem_cons_self
    have hTail := fun t ht => hKnown t (List.mem_cons_of_mem _ ht)
    have hFresh := (opened_of_opens hFirst hHead).fresh
    have hOpened :=
      openedArgs_of_opensArgs hFilled hSlots
        fun t ht =>
          (hTail t ht).mono (List.subset_append_right _ _)
    rw [List.map_append, List.append_assoc]
    refine
      aligns_of_opens hFirst hHead
        (apart_of_openedArgs hOpened hTail ?_ ?_) ?_
    · intro v hv
      exact
        ⟨hFresh.notTaken v hv,
          List.mem_append_left _
            (List.mem_reverse.mpr (List.mem_map_of_mem hv))⟩
    · intro v hv w hw
      exact hEqs v hv w (List.mem_append_left _ hw)
    · exact aligns_of_opensArgs hFilled hSlots
        (fun t ht =>
          (hTail t ht).mono (List.subset_append_right _ _))
        (fun v hv w hw => hEqs v hv w (List.mem_append_right _ hw))
        hRest

end

end Term

end StatementQuery

------------------------------------------------------------
-- Generalization Undone
------------------------------------------------------------

namespace StatementQuery

namespace Term

open Unify

/- The bindings that make variables absent. -/
def removal (added : List Variable) : Bindings :=
  .ofList (added.map fun v => (v, none))

/- Meeting absent arguments makes variables absent. -/
theorem partsBindings_absentPart
    (added : List Variable) :
    partsBindings (added.map absentPart) = removal added := by
  induction added using List.reverseRecOn with
  | nil => rfl
  | append_singleton added v ih =>
      rw [List.map_append, List.map_singleton,
        partsBindings_append, ih, removal, removal,
        List.map_append, List.map_singleton,
        Bindings.ofList_concat]
      rfl

variable {taken : List String} {t u : Term}
variable {added : List Variable}

/- New variables meet absent arguments apart from each other. -/
theorem Fresh.apart
    (h : Fresh taken added) :
    (added.map absentPart).Pairwise Part.Apart := by
  have hNames := h.nodup
  rw [List.nodup_iff_pairwise_ne, List.pairwise_map] at hNames
  rw [List.pairwise_map]
  apply hNames.imp
  intro v w hNe n hn hn'
  rw [List.mem_singleton.mp hn] at hn'
  exact hNe (List.mem_singleton.mp hn')

/- Only new variables are made absent. -/
theorem Opened.removes
    (h : Opened taken t u added)
    (ht : Known taken t) :
    Removes (removal added) added t.occurrences := by
  rw [← partsBindings_absentPart]
  constructor
  · intro v hv
    exact get?_partsBindings h.fresh.apart
      (List.mem_map_of_mem hv)
  · intro v hv
    apply get?_partsBindings_of_unbound
    intro p hp
    rcases List.mem_map.mp hp with ⟨w, hw, rfl⟩
    apply Part.get?_bindings_of_notMem
    intro hMem
    have hName : v.name = w.name := List.mem_singleton.mp hMem
    exact h.fresh.notTaken w hw (hName ▸ ht.names v hv)

/- An opened term meets the original in what was added only. -/
theorem meets_of_opens
    {supply : NameSupply}
    (hOpens : Opens supply taken t u added)
    (ht : Known taken t) :
    Meets [(some u, some t)] (added.map absentPart) [] := by
  have hOpened := opened_of_opens hOpens ht
  have hOccurs :
      ∀ v, v ∈ Equation.occurrences [(some u, some t)] ↔
        v ∈ t.occurrences ∨ v ∈ added := by
    intro v
    simp only [Equation.occurrences, Side.occurrences,
      List.flatMap_cons, List.flatMap_nil, List.append_nil,
      List.mem_append, hOpened.occurrences]
    tauto
  constructor
  · exact hOpened.fresh.oneKind ht.names ht.formed.oneKind
      fun v hv => (hOccurs v).mp hv
  · have hAligns :
        Aligns [(some u, some t)] (added.map absentPart ++ []) [] :=
      aligns_of_opens hOpens ht (by simp [Equation.occurrences])
        (.done [])
    rw [List.append_nil] at hAligns
    exact hAligns
  · exact hOpened.fresh.apart
  · intro p hp
    rcases List.mem_map.mp hp with ⟨v, hv, rfl⟩
    exact ⟨v, (hOccurs v).mpr (Or.inr hv), rfl⟩

/-
  Generalizing a well-formed term ends, with variables of new
  and distinct names in place of all absent arguments that are
  reached through snaks and statements.  Matching the result
  with the term makes exactly these variables absent, and
  instantiating them gives the term back.
-/
theorem generalize_undone
    (ht : t.WellFormed)
    (avoid : List String)
    (supply : NameSupply) :
    ∃ added : List Variable,
      Opens supply (avoid ++ t.names) t
          (t.generalize avoid supply) added ∧
        (added.map Variable.name).Nodup ∧
        (∀ v ∈ added, v.name ∉ avoid ∧ v.name ∉ t.names) ∧
        (∀ v, v ∈ (t.generalize avoid supply).vars ↔
          v ∈ t.vars ∨ v ∈ added) ∧
        (t.generalize avoid supply).Saturated ∧
        (t.generalize avoid supply).matchWith? t =
          some (removal added) ∧
        (t.generalize avoid supply).instantiate (removal added) =
          .ok (some t) := by
  have hKnown := ht.known avoid
  rcases exists_opens ht avoid supply with ⟨added, hOpens⟩
  have hOpened := opened_of_opens hOpens hKnown
  refine
    ⟨added, hOpens, hOpened.fresh.nodup, ?_, ?_,
      saturated_of_opens hOpens hKnown, ?_, ?_⟩
  · intro v hv
    have hNot := hOpened.fresh.notTaken v hv
    rw [List.mem_append, not_or] at hNot
    exact hNot
  · intro v
    simp only [vars, Variable.mem_sorted]
    exact hOpened.occurrences v
  · rw [matchWith?, (meets_of_opens hOpens hKnown).unify_eq,
      partsBindings_absentPart]
    rfl
  · exact instantiateWith_of_opens .lenient hOpens hKnown
      (hOpened.removes hKnown)

/- An open subject, and a weight without unit and bounds. -/
def sparse : Term :=
  .app .statement
    [some (.var ⟨"g0", .entity⟩),
      some
        (.ground
          (.snak
            (.value ⟨"http://www.wikidata.org/entity/P2067"⟩
              (.quantity { amount := ⟨5, 0⟩ }))))]

theorem generalize_undone_sparse :
    sparse.WellFormed ∧
      (sparse.generalize ["lower"]
            ⟨["unit", "lower"], "g"⟩).names =
        ["g0", "g1", "g2", "unit"] ∧
      ∃ added : List Variable,
        (∀ v, v ∈ (sparse.generalize ["lower"]
              ⟨["unit", "lower"], "g"⟩).vars ↔
            v ∈ sparse.vars ∨ v ∈ added) ∧
          (sparse.generalize ["lower"]
                ⟨["unit", "lower"], "g"⟩).matchWith? sparse =
            some (removal added) ∧
          (sparse.generalize ["lower"]
                ⟨["unit", "lower"], "g"⟩).instantiate
              (removal added) =
            .ok (some sparse) := by
  have hFormed : sparse.WellFormed := by
    decide
  rcases generalize_undone hFormed ["lower"]
      ⟨["unit", "lower"], "g"⟩ with
    ⟨added, _, _, _, hVars, _, hMatch, hBack⟩
  exact
    ⟨hFormed, by decide +kernel, added, hVars, hMatch, hBack⟩

end Term

end StatementQuery
