import StatementQuery.Proofs.Substitution

/-
  Terms over the constructors that keep their arguments:
  entities, snaks and statements.

  All their slots are required, the result is never refused,
  and the arguments can be read off it again.  A variable in
  an application is of a lower rank than the application, so
  no ground term can stand for both.

  Key definitions include:
    * `Constructor.isFaithful`
    * `Kind.rank`
    * `Term.Faithful`

  Main declarations:
    * `Ground.args?_build`
    * `Term.rank_lt_of_mem_occurrences`
    * `Term.exists_subst_of_present`
-/

------------------------------------------------------------
-- Faithful Constructors
------------------------------------------------------------

namespace StatementQuery

namespace Constructor

/- Whether a constructor keeps its arguments as they are. -/
def isFaithful : Constructor → Bool
| .entity _ | .valueSnak | .someValueSnak | .noValueSnak
| .statement => true
| _ => false

/- Times are not built faithfully. -/
theorem ne_time_of_isFaithful
    {c : Constructor}
    (h : c.isFaithful = true) :
    c ≠ .time := by
  rintro rfl
  cases h

/- The slots of a faithful constructor are all required. -/
theorem isOptional_of_isFaithful
    {c : Constructor}
    (h : c.isFaithful = true)
    {slot : Slot}
    (hSlot : slot ∈ c.slots) :
    slot.isOptional = false := by
  have hAll :
      ∀ slot ∈ c.slots, slot.isOptional = false := by
    cases c with
    | iri | text | quantity | time => cases h
    | _ =>
        all_goals
          simp [slots, Slot.required]
  exact hAll slot hSlot

end Constructor

namespace Ground

/- The ground terms that a faithful constructor builds. -/
theorem cases_of_isFaithful
    {c : Constructor}
    {g : Ground}
    (h : c.isFaithful = true)
    (hKind : g.kind = c.kind) :
    (∃ k i, c = .entity k ∧ g = .value (.entity ⟨k, i⟩)) ∨
      (∃ p v, c = .valueSnak ∧ g = .snak (.value p v)) ∨
      (∃ p, c = .someValueSnak ∧ g = .snak (.someValue p)) ∨
      (∃ p, c = .noValueSnak ∧ g = .snak (.noValue p)) ∨
      ∃ s, c = .statement ∧ g = .statement s := by
  have hSnak :
      c.kind ≤ .snak → ∃ s, g = .snak s := by
    intro hLe
    exact exists_snak_of_kind_le (hKind ▸ hLe)
  cases c with
  | iri | text | quantity | time => cases h
  | entity k =>
      rcases exists_iri_of_kind_le (le_of_eq hKind) with ⟨i, rfl⟩
      exact Or.inl ⟨k, i, rfl, rfl⟩
  | valueSnak | someValueSnak | noValueSnak =>
      all_goals
        rcases hSnak (by decide) with ⟨s, rfl⟩
        cases s <;> simp_all [kind, Snak.kind, Constructor.kind]
  | statement =>
      rcases kind_cases g with
        ⟨v, rfl, hLe⟩ | ⟨s, rfl, hLe⟩ | ⟨s, rfl, _⟩
      · rw [hKind] at hLe
        exact absurd hLe (by decide)
      · rw [hKind] at hLe
        exact absurd hLe (by decide)
      · simp

/- The arguments are read off a faithful result. -/
theorem args?_build
    {c : Constructor}
    {gs : List (Option Ground)}
    {g : Ground}
    (h : c.isFaithful = true)
    (hSlots :
      List.Forall₂ Slot.Admits c.slots
        (gs.map (Option.map Term.ground)))
    (hBuild : build c gs = .ok g) :
    g.args? = some gs := by
  have hLength : gs.length = c.slots.length := by
    simpa using hSlots.length_eq.symm
  cases c with
  | iri | text | quantity | time => cases h
  | entity k =>
      rcases List.length_eq_one_iff.mp hLength with ⟨a, rfl⟩
      rcases hSlots with _ | ⟨hA, _⟩
      rcases exists_of_admits_required hA with ⟨x, rfl, hx⟩
      rcases exists_iri_of_kind_le_iri hx with ⟨i, rfl⟩
      cases hBuild
      rfl
  | valueSnak =>
      rcases List.length_eq_two.mp hLength with ⟨a, b, rfl⟩
      rcases hSlots with _ | ⟨hA, _ | ⟨hB, _⟩⟩
      rcases exists_of_admits_required hA with ⟨x, rfl, hx⟩
      rcases exists_of_admits_required hB with ⟨y, rfl, hy⟩
      rcases @exists_iri_of_kind_le x .property hx with ⟨i, rfl⟩
      rcases exists_value_of_kind_le hy with ⟨v, rfl⟩
      cases hBuild
      rfl
  | someValueSnak =>
      rcases List.length_eq_one_iff.mp hLength with ⟨a, rfl⟩
      rcases hSlots with _ | ⟨hA, _⟩
      rcases exists_of_admits_required hA with ⟨x, rfl, hx⟩
      rcases @exists_iri_of_kind_le x .property hx with ⟨i, rfl⟩
      cases hBuild
      rfl
  | noValueSnak =>
      rcases List.length_eq_one_iff.mp hLength with ⟨a, rfl⟩
      rcases hSlots with _ | ⟨hA, _⟩
      rcases exists_of_admits_required hA with ⟨x, rfl, hx⟩
      rcases @exists_iri_of_kind_le x .property hx with ⟨i, rfl⟩
      cases hBuild
      rfl
  | statement =>
      rcases List.length_eq_two.mp hLength with ⟨a, b, rfl⟩
      rcases hSlots with _ | ⟨hA, _ | ⟨hB, _⟩⟩
      rcases exists_of_admits_required hA with ⟨x, rfl, hx⟩
      rcases exists_of_admits_required hB with ⟨y, rfl, hy⟩
      rcases exists_entity_of_kind_le hx with ⟨e, rfl⟩
      rcases exists_snak_of_kind_le hy with ⟨s, rfl⟩
      cases hBuild
      rfl

/- Faithful ground terms have present arguments. -/
theorem exists_args?
    {c : Constructor}
    {g : Ground}
    (h : c.isFaithful = true)
    (hKind : g.kind = c.kind) :
    ∃ gs : List Ground, g.args? = some (gs.map some) := by
  rcases cases_of_isFaithful h hKind with
    ⟨k, i, _, rfl⟩ | ⟨p, v, _, rfl⟩ | ⟨p, _, rfl⟩ |
      ⟨p, _, rfl⟩ | ⟨s, _, rfl⟩
  · exact ⟨[.value (.iri i)], rfl⟩
  · exact ⟨[.value (.property p), .value v], rfl⟩
  · exact ⟨[.value (.property p)], rfl⟩
  · exact ⟨[.value (.property p)], rfl⟩
  · exact ⟨[.value (.entity s.subject), .snak s.snak], rfl⟩

/- The same faithful terms have the same arguments. -/
theorem args?_canonical
    {c : Constructor}
    {g : Ground}
    (h : c.isFaithful = true)
    (hKind : g.kind = c.kind) :
    g.canonical.args? =
      g.args?.map (List.map (Option.map canonical)) := by
  rcases cases_of_isFaithful h hKind with
    ⟨k, i, _, rfl⟩ | ⟨p, v, _, rfl⟩ | ⟨p, _, rfl⟩ |
      ⟨p, _, rfl⟩ | ⟨s, _, rfl⟩ <;>
    rfl

end Ground

end StatementQuery

------------------------------------------------------------
-- Ranks
------------------------------------------------------------

namespace StatementQuery

namespace Kind

/- How deep faithful terms of a kind can be nested. -/
def rank : Kind → Nat
| .iri | .text | .string | .externalId | .quantity | .time
| .dataValue | .shallowDataValue | .deepDataValue => 0
| .value | .entity | .item | .property | .lexeme => 1
| .snak | .valueSnak | .someValueSnak | .noValueSnak => 2
| .term | .statement => 3

/- Narrower kinds are of no higher rank. -/
theorem rank_le_of_le
    {k l : Kind}
    (h : k ≤ l) :
    k.rank ≤ l.rank := by
  have hAll : ∀ m ∈ k.lineage, k.rank ≤ m.rank := by
    cases k <;> decide
  exact hAll l h

end Kind

/- The slots of a faithful constructor are of lower rank. -/
theorem Constructor.rank_slot_lt
    {c : Constructor}
    (h : c.isFaithful = true)
    {slot : Slot}
    (hSlot : slot ∈ c.slots) :
    slot.kind.rank < c.kind.rank := by
  have hAll :
      ∀ slot ∈ c.slots, slot.kind.rank < c.kind.rank := by
    cases c with
    | iri | text | quantity | time => cases h
    | entity k => cases k <;> decide
    | _ => all_goals decide
  exact hAll slot hSlot

namespace Term

/- A term over the faithful constructors. -/
def Faithful (t : Term) : Prop :=
  t.Over fun c => c.isFaithful = true

mutual

/- Whether a term is over the faithful constructors. -/
def isFaithful : Term → Bool
| .ground _ => true
| .var _ => true
| .app c args => c.isFaithful && isFaithfulArgs args

/- Whether arguments are over the faithful constructors. -/
def isFaithfulArgs : List (Option Term) → Bool
| [] => true
| none :: args => isFaithfulArgs args
| some t :: args => t.isFaithful && isFaithfulArgs args

end

/- Terms that pass the check are faithful. -/
theorem faithful_of_isFaithful
    {t : Term}
    (h : t.isFaithful = true) :
    t.Faithful := by
  induction t with
  | ground g => exact .ground g
  | var v => exact .var v
  | app c args ih =>
      simp only [isFaithful, Bool.and_eq_true] at h
      refine .app h.1 ?_
      intro t ht
      apply ih t ht
      have hArgs := h.2
      clear ih h
      induction args with
      | nil => simp at ht
      | cons arg args ihArgs =>
          cases arg with
          | none =>
              exact ihArgs (by simpa using ht) hArgs
          | some u =>
              simp only [isFaithfulArgs, Bool.and_eq_true]
                at hArgs
              rcases List.mem_cons.mp ht with hEq | hRest
              · cases hEq
                exact hArgs.1
              · exact ihArgs hRest hArgs.2

/- A variable in a term is of no higher rank. -/
theorem rank_le_of_mem_occurrences
    {t : Term}
    (hShaped : t.WellShaped)
    (hOver : t.Faithful)
    {v : Variable}
    (hv : v ∈ t.occurrences) :
    v.kind.rank ≤ t.kind.rank := by
  induction t with
  | ground g => simp [occurrences] at hv
  | var w =>
      have hEq : v = w := by simpa [occurrences] using hv
      rw [hEq]
      exact le_refl w.kind.rank
  | app c args ih =>
      rcases hShaped with _ | _ | ⟨hSlots, _, hArgs⟩
      rcases hOver with _ | _ | ⟨hHead, hRest⟩
      rcases (mem_occurrences_app v c args).mp hv with
        ⟨t, ht, hv⟩
      rcases exists_slot_of_mem hSlots ht with
        ⟨slot, hSlot, hKind⟩
      have hArg := ih t ht (hArgs t ht) (hRest t ht) hv
      have hKindRank := Kind.rank_le_of_le hKind
      have hSlotRank := Constructor.rank_slot_lt hHead hSlot
      exact le_trans hArg
        (le_trans hKindRank (le_of_lt hSlotRank))

/- A variable in an application is of a lower rank. -/
theorem rank_lt_of_mem_occurrences
    {c : Constructor}
    {args : List (Option Term)}
    (hShaped : (Term.app c args).WellShaped)
    (hOver : (Term.app c args).Faithful)
    {v : Variable}
    (hv : v ∈ (Term.app c args).occurrences) :
    v.kind.rank < c.kind.rank := by
  rcases hShaped with _ | _ | ⟨hSlots, _, hArgs⟩
  rcases hOver with _ | _ | ⟨hHead, hRest⟩
  rcases (mem_occurrences_app v c args).mp hv with ⟨t, ht, hv⟩
  rcases exists_slot_of_mem hSlots ht with ⟨slot, hSlot, hKind⟩
  have hArg :=
    rank_le_of_mem_occurrences (hArgs t ht) (hRest t ht) hv
  have hKindRank := Kind.rank_le_of_le hKind
  have hSlotRank := Constructor.rank_slot_lt hHead hSlot
  exact lt_of_le_of_lt (le_trans hArg hKindRank) hSlotRank

end Term

end StatementQuery

------------------------------------------------------------
-- Substitution In Faithful Terms
------------------------------------------------------------

namespace StatementQuery

namespace Term

/- The arguments of a faithful application are present. -/
theorem exists_args_of_faithful
    {c : Constructor}
    {args : List (Option Term)}
    (h : c.isFaithful = true)
    (hSlots : List.Forall₂ Slot.Admits c.slots args) :
    ∃ ts : List Term, args = ts.map some := by
  have hPresent : ∀ arg ∈ args, arg ≠ none := by
    rintro arg hArg rfl
    rcases List.forall₂_iff_get.mp hSlots with ⟨hLength, hGet⟩
    rcases List.mem_iff_get.mp hArg with ⟨i, hi⟩
    have hSlot : i.val < c.slots.length := by
      rw [hLength]
      exact i.isLt
    have hAdmits := hGet i.val hSlot i.isLt
    rw [List.get_eq_getElem] at hi
    simp only [List.get_eq_getElem, hi, Slot.Admits] at hAdmits
    have hRequired :=
      Constructor.isOptional_of_isFaithful h
        (List.getElem_mem hSlot)
    rw [hRequired] at hAdmits
    cases hAdmits
  clear hSlots
  induction args with
  | nil => exact ⟨[], rfl⟩
  | cons arg args ih =>
      rcases ih fun a ha => hPresent a (by simp [ha]) with
        ⟨ts, rfl⟩
      rcases Option.ne_none_iff_exists'.mp
          (hPresent arg (by simp)) with
        ⟨t, rfl⟩
      exact ⟨t :: ts, rfl⟩

/- Where every variable is present, so is the term. -/
theorem exists_subst_of_present
    {κ : Kinding}
    {f : Variable → Side}
    {t : Term}
    (hShaped : t.WellShaped)
    (hOver : t.Faithful)
    (hFits : ∀ v ∈ t.occurrences, Side.Fits κ v.kind (f v))
    (hPresent :
      ∀ v ∈ t.occurrences,
        ∃ u, f v = some u ∧ u.Faithful) :
    ∃ u, t.subst f = some (some u) ∧ u.Faithful := by
  induction t with
  | ground g => exact ⟨.ground g, rfl, .ground g⟩
  | var v =>
      rcases hPresent v (by simp [occurrences]) with
        ⟨u, hu, hFaithful⟩
      exact ⟨u, by rw [subst, hu], hFaithful⟩
  | app c args ih =>
      have hResult : (Term.app c args).subst f ≠ none := by
        apply subst_ne_none hShaped _ hFits
        exact hOver.imp fun d hd =>
          Constructor.ne_time_of_isFaithful hd
      rcases hShaped with _ | _ | ⟨hSlots, _, hArgs⟩
      rcases hOver with _ | _ | ⟨hHead, hRest⟩
      have hEach :
          ∀ t, some t ∈ args →
            ∃ u, t.subst f = some (some u) ∧
              u.Faithful := by
        intro t ht
        have hMem :
            ∀ v ∈ t.occurrences,
              v ∈ (Term.app c args).occurrences := by
          intro v hv
          exact (mem_occurrences_app v c args).mpr ⟨t, ht, hv⟩
        apply ih t ht (hArgs t ht) (hRest t ht)
        · exact fun v hv => hFits v (hMem v hv)
        · exact fun v hv => hPresent v (hMem v hv)
      rcases Option.ne_none_iff_exists'.mp hResult with ⟨r, hr⟩
      rw [subst_app] at hr
      have hLength :
          c.slots.length =
            (args.map (Side.subst f)).length := by
        simpa using hSlots.length_eq
      rcases combine_eq_some hLength hr with
        ⟨rfl, hGather⟩ | ⟨values, u, hValues, hFills, hu, rfl⟩
      · -- No argument is absent, before or after.
        rcases exists_args_of_faithful hHead hSlots with
          ⟨ts, rfl⟩
        rcases List.mem_map.mp (absent_mem_of_gather hGather)
          with ⟨arg, hArg, hAbsent⟩
        rcases List.mem_map.mp hArg with ⟨t, ht, rfl⟩
        rcases hEach t hArg with ⟨u, hu, _⟩
        rw [Side.subst, hu] at hAbsent
        cases hAbsent
      · refine ⟨u, by rw [subst_app, hr], ?_⟩
        rcases assemble?_eq_some hu with
          ⟨_, rfl⟩ | ⟨g, _, _, rfl⟩
        · refine .app hHead ?_
          intro w hw
          rcases exists_arg_of_mem_values hValues hw with
            ⟨t, ht, htw⟩
          rcases hEach t ht with ⟨w', hw', hFaithful⟩
          rw [hw'] at htw
          cases htw
          exact hFaithful
        · exact .ground g

/- A well-shaped term without variables is ground. -/
theorem exists_ground_of_occurrences_eq_nil
    {t : Term}
    (hShaped : t.WellShaped)
    (h : ∀ v, v ∉ t.occurrences) :
    ∃ g, t = .ground g := by
  induction t with
  | ground g => exact ⟨g, rfl⟩
  | var v => exact absurd (by simp [occurrences]) (h v)
  | app c args ih =>
      rcases hShaped with _ | _ | ⟨_, hOpen, hArgs⟩
      rcases List.any_eq_true.mp hOpen with ⟨arg, hArg, hArgOpen⟩
      cases arg with
      | none => simp [isOpenArg] at hArgOpen
      | some t =>
          have hNone : ∀ v, v ∉ t.occurrences := by
            intro v hv
            apply h v
            exact (mem_occurrences_app v c args).mpr
              ⟨t, hArg, hv⟩
          rcases ih t hArg (hArgs t hArg) hNone with ⟨g, rfl⟩
          simp [isOpenArg, isGround] at hArgOpen

/- The kind of an application is that of its instances. -/
theorem kind_subst_app
    {f : Variable → Side}
    {c : Constructor}
    {args : List (Option Term)}
    {u : Term}
    (hShaped : (Term.app c args).WellShaped)
    (h : (Term.app c args).subst f = some (some u)) :
    u.kind = c.kind := by
  rcases hShaped with _ | _ | ⟨hSlots, _, _⟩
  rw [subst_app] at h
  have hLength :
      c.slots.length = (args.map (Side.subst f)).length := by
    simpa using hSlots.length_eq
  rcases combine_eq_some hLength h with
    ⟨hAbsent, _⟩ | ⟨values, t, _, _, ht, hEq⟩
  · cases hAbsent
  · cases hEq
    rcases assemble?_eq_some ht with ⟨_, rfl⟩ | ⟨g, _, hBuild, rfl⟩
    · rfl
    · exact Ground.kind_of_build hBuild

end Term

end StatementQuery
