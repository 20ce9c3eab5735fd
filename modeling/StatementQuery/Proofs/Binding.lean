import StatementQuery.Proofs.Substitution

/-
  What recording bindings does to a state of the solver.

  The variables in scope are those that the work list and the
  bound values may hold.  Bindings move a scope to kinds for
  the names that stay: every value fits its variable, and a
  variable that is bound leaves the scope for good.  Whatever
  solves the state after the bindings are recorded has
  absorbed them, and so solves the state before.

  Key definitions include:
    * `Bindings.Functional`
    * `Side.Within`
    * `Unify.Scoped`
    * `Unify.Moves`
    * `Unify.Solves`

  Main declarations:
    * `Unify.scoped_bind`
    * `Unify.solves_of_bind`
-/

------------------------------------------------------------
-- Looking Up Bindings
------------------------------------------------------------

namespace StatementQuery

namespace Bindings

/- Every entry is the one that is found for its variable. -/
def Functional (θ : Bindings) : Prop :=
  ∀ entry ∈ θ.entries, θ.get? entry.1 = some entry.2

@[simp] theorem get?_empty
    (v : Variable) :
    empty.get? v = none :=
  rfl

@[simp] theorem get?_singleton
    (v w : Variable)
    (value : Side) :
    (singleton v value).get? w =
      if w = v then some value else none := by
  simp [get?, singleton, lookup_cons_ite]

/- A binding that is put in is found, and hides no other. -/
@[simp] theorem get?_insert
    (θ : Bindings)
    (v w : Variable)
    (value : Side) :
    (θ.insert v value).get? w =
      if w = v then some value else θ.get? w := by
  rcases θ with ⟨entries⟩
  simp only [get?, insert]
  induction entries with
  | nil => simp [insertEntry, lookup_cons_ite]
  | cons entry entries ih =>
      rcases entry with ⟨x, other⟩
      unfold insertEntry
      by_cases hSame : v = x
      · rw [if_pos hSame, lookup_cons_ite, lookup_cons_ite,
          ← hSame]
        by_cases hw : w = v
        · simp [hw]
        · simp [hw]
      · rw [if_neg hSame]
        by_cases hBefore : v.before x = true
        · rw [if_pos hBefore, lookup_cons_ite]
        · rw [if_neg hBefore, lookup_cons_ite, ih,
            lookup_cons_ite]
          by_cases hw : w = v
          · simp [hw, hSame]
          · simp [hw]

/- What is put in is the new entry, or was there before. -/
theorem mem_insertEntry
    {v : Variable}
    {value : Side}
    {entries : List (Variable × Side)}
    {entry : Variable × Side}
    (h : entry ∈ insertEntry v value entries) :
    entry = (v, value) ∨ entry ∈ entries := by
  induction entries with
  | nil => simpa [insertEntry] using h
  | cons first entries ih =>
      rcases first with ⟨w, other⟩
      unfold insertEntry at h
      split at h
      · rcases List.mem_cons.mp h with hNew | hOld
        · exact Or.inl hNew
        · exact Or.inr (List.mem_cons_of_mem _ hOld)
      · split at h
        · rcases List.mem_cons.mp h with hNew | hOld
          · exact Or.inl hNew
          · exact Or.inr hOld
        · rcases List.mem_cons.mp h with hFirst | hRest
          · exact Or.inr (by simp [hFirst])
          · rcases ih hRest with hNew | hOld
            · exact Or.inl hNew
            · exact Or.inr (List.mem_cons_of_mem _ hOld)

/- A variable is bound when it has an entry. -/
theorem exists_entry
    {θ : Bindings}
    {v : Variable}
    {value : Side}
    (h : θ.get? v = some value) :
    (v, value) ∈ θ.entries := by
  rcases θ with ⟨entries⟩
  simp only [get?] at h ⊢
  induction entries with
  | nil => simp at h
  | cons entry entries ih =>
      rcases entry with ⟨x, other⟩
      rw [lookup_cons_ite] at h
      by_cases hv : v = x
      · rw [if_pos hv] at h
        cases h
        simp [hv]
      · rw [if_neg hv] at h
        exact List.mem_cons_of_mem _ (ih h)

/- Entries that are put in one after the other are all found. -/
theorem get?_foldl_insert
    (entries : List (Variable × Side))
    (found : Variable → Option Side)
    (hFound : ∀ entry ∈ entries, found entry.1 = some entry.2)
    (θ : Bindings)
    (w : Variable) :
    (entries.foldl
        (fun θ entry => θ.insert entry.1 entry.2) θ).get? w =
      if w ∈ entries.map Prod.fst then found w
      else θ.get? w := by
  induction entries generalizing θ with
  | nil => simp
  | cons entry entries ih =>
      have hHead := hFound entry (by simp)
      have hRest : ∀ e ∈ entries, found e.1 = some e.2 := by
        intro e he
        exact hFound e (by simp [he])
      rw [List.foldl_cons, ih hRest, get?_insert]
      by_cases hTail : w ∈ entries.map Prod.fst
      · simp only [List.map_cons, List.mem_cons, hTail, or_true,
          if_true]
      · by_cases hw : w = entry.1
        · rw [if_neg hTail, if_pos hw]
          simp [hw, hHead]
        · simp only [List.map_cons, List.mem_cons, hTail, hw,
            or_false, if_false]

/- The bindings of a union are those of `σ`, then those of `θ`. -/
theorem get?_union
    {θ σ : Bindings}
    (hσ : σ.Functional)
    (w : Variable) :
    (θ.union σ).get? w = (σ.get? w).or (θ.get? w) := by
  have hFold := get?_foldl_insert σ.entries σ.get? hσ θ w
  have hUnion :
      (θ.union σ).get? w =
        if w ∈ σ.entries.map Prod.fst then σ.get? w
        else θ.get? w := hFold
  rw [hUnion]
  cases hGet : σ.get? w with
  | some value =>
      have hMem : w ∈ σ.entries.map Prod.fst :=
        List.mem_map.mpr ⟨(w, value), exists_entry hGet, rfl⟩
      simp [hMem]
  | none =>
      have hMem : w ∉ σ.entries.map Prod.fst := by
        intro hMem
        rcases List.mem_map.mp hMem with ⟨entry, hEntry, rfl⟩
        rw [hσ entry hEntry] at hGet
        cases hGet
      simp [hMem]

/- The entries of a union are from one side or the other. -/
theorem mem_union
    {θ σ : Bindings}
    {entry : Variable × Side}
    (h : entry ∈ (θ.union σ).entries) :
    entry ∈ θ.entries ∨ entry ∈ σ.entries := by
  rcases σ with ⟨entries⟩
  unfold union at h
  induction entries generalizing θ with
  | nil => exact Or.inl h
  | cons first entries ih =>
      rcases ih h with hFirst | hRest
      · rcases mem_insertEntry hFirst with rfl | hOld
        · exact Or.inr (by simp)
        · exact Or.inl hOld
      · exact Or.inr (List.mem_cons_of_mem _ hRest)

/- The value of a variable that is bound. -/
theorem value_of_get?
    {θ : Bindings}
    {v : Variable}
    {s : Side}
    (h : θ.get? v = some s) :
    θ.value v = s := by
  simp [value, h]

/- A variable that is not bound stands for itself. -/
theorem value_of_get?_none
    {θ : Bindings}
    {v : Variable}
    (h : θ.get? v = none) :
    θ.value v = some (.var v) := by
  simp [value, h]

/- A single binding puts its side for its variable. -/
theorem value_singleton_self
    (x : Variable)
    (s : Side) :
    (singleton x s).value x = s :=
  value_of_get? (by simp)

/- It leaves all other variables as they are. -/
theorem value_singleton_of_ne
    {x v : Variable}
    (h : v ≠ x)
    (s : Side) :
    (singleton x s).value v = some (.var v) :=
  value_of_get?_none (by simp [h])

end Bindings

end StatementQuery

------------------------------------------------------------
-- Scopes
------------------------------------------------------------

namespace StatementQuery

/- The variables declared at the kind of their name. -/
def Kinding.Has (κ : Kinding) (v : Variable) : Prop :=
  κ v.name = some v.kind

namespace Side

/- A side that is well shaped over variables in scope. -/
def Within (P : Variable → Prop) (s : Side) : Prop :=
  ∀ t, s = some t → t.WellShaped ∧ ∀ v ∈ t.occurrences, P v

/- A side that fits a kind is over the kinds of its names. -/
theorem Fits.within
    {κ : Kinding}
    {k : Kind}
    {s : Side}
    (h : Fits κ k s) :
    Within κ.Has s := by
  intro t ht
  exact ⟨(h t ht).2.shaped, (h t ht).2.atKinds⟩

/- Every variable of a side in scope is in scope. -/
theorem Within.occurrences
    {P : Variable → Prop}
    {s : Side}
    (h : Within P s)
    {v : Variable}
    (hv : v ∈ Side.occurrences s) :
    P v := by
  cases s with
  | none => simp [Side.occurrences] at hv
  | some t => exact (h t rfl).2 v hv

/- A variable that is a side in scope is in scope. -/
theorem Within.var
    {P : Variable → Prop}
    {x : Variable}
    (h : Within P (some (.var x))) :
    P x :=
  h.occurrences (by simp [Side.occurrences, Term.occurrences])

end Side

namespace Unify

/-
  The work list and the bound values are over variables in
  scope, and a bound variable is wider than those of its name
  in scope.
-/
structure Scoped
    (P : Variable → Prop)
    (state : State) :
    Prop where
  pending :
    ∀ e ∈ state.pending,
      Side.Within P e.1 ∧ Side.Within P e.2
  solved :
    ∀ v s, state.solved.get? v = some s →
      Side.Within P s ∧ ∀ t, s = some t → t.kind ≤ v.kind
  keys :
    ∀ v s, state.solved.get? v = some s →
      ∀ w, P w → w.name = v.name → w.kind < v.kind

/-
  Bindings that take every variable in scope to a side over
  the given kinds, and leave none that they bind.
-/
structure Moves
    (P : Variable → Prop)
    (σ : Bindings)
    (κ : Kinding) :
    Prop where
  functional : σ.Functional
  fits : ∀ v, P v → Side.Fits κ v.kind (σ.value v)
  keys :
    ∀ v s, σ.get? v = some s →
      P v ∧ ∀ k, κ v.name = some k → k < v.kind
  narrows :
    ∀ n k, κ n = some k →
      ∃ w, P w ∧ w.name = n ∧ k ≤ w.kind

/- A variable in scope that is not bound keeps its kind. -/
theorem Moves.has_of_unbound
    {P : Variable → Prop}
    {σ : Bindings}
    {κ : Kinding}
    (hMoves : Moves P σ κ)
    {v : Variable}
    (hv : P v)
    (hUnbound : σ.get? v = none) :
    κ.Has v := by
  have hFits := hMoves.fits v hv
  rw [Bindings.value_of_get?_none hUnbound] at hFits
  exact (hFits (.var v) rfl).2.kind_var

/- Applying bindings to a side in scope is substitution. -/
theorem subst_of_substitute
    {P : Variable → Prop}
    {σ : Bindings}
    {κ : Kinding}
    (hMoves : Moves P σ κ)
    {s s' : Side}
    (hs : Side.Within P s)
    (h : substitute σ s = .ok s') :
    Side.subst σ.value s = some s' := by
  have hSubst :
      (Term.instantiateSide .plain σ s).toOption =
        Side.subst σ.value s := by
    apply Term.instantiateSide_eq_subst rfl
    · intro t ht
      exact (hs t ht).1
    · intro v hv
      exact hMoves.fits v (hs.occurrences hv)
  unfold substitute at h
  rw [← hSubst]
  cases hResult : Term.instantiateSide .plain σ s with
  | error e => simp [hResult, Except.mapError] at h
  | ok r =>
      rw [hResult] at h
      cases h
      rfl

/- A side that fits and has a substitute is replaced by it. -/
theorem substitute_of_subst
    {κ : Kinding}
    {σ : Bindings}
    {s s' : Side}
    (hShaped : ∀ t, s = some t → t.WellShaped)
    (hFits :
      ∀ v ∈ Side.occurrences s, Side.Fits κ v.kind (σ.value v))
    (h : Side.subst σ.value s = some s') :
    substitute σ s = .ok s' := by
  have hSubst :
      (Term.instantiateSide .plain σ s).toOption =
        Side.subst σ.value s :=
    Term.instantiateSide_eq_subst rfl hShaped hFits
  rw [h] at hSubst
  rw [substitute, eq_ok_of_toOption hSubst]
  rfl

/- Applying bindings takes a side in scope to the new kinds. -/
theorem fits_of_subst
    {P : Variable → Prop}
    {σ : Bindings}
    {κ : Kinding}
    (hMoves : Moves P σ κ)
    {k : Kind}
    {s s' : Side}
    (hs : Side.Within P s)
    (hKind : ∀ t, s = some t → t.kind ≤ k)
    (h : Side.subst σ.value s = some s') :
    Side.Fits κ k s' := by
  cases s with
  | none =>
      cases h
      exact Side.fits_none κ k
  | some t =>
      have hFits : Side.Fits κ t.kind s' := by
        apply Term.fits_subst (hs t rfl).1 _ h
        intro v hv
        exact hMoves.fits v ((hs t rfl).2 v hv)
      exact hFits.mono (hKind t rfl)

end Unify

end StatementQuery

------------------------------------------------------------
-- Recording Bindings
------------------------------------------------------------

namespace StatementQuery

namespace Unify

/- Every equation has its instance in the new work list. -/
theorem exists_of_mem_pending
    {σ : Bindings}
    {eqs eqs' : List Equation}
    (h : substituteAll σ eqs = .ok eqs')
    {e : Equation}
    (he : e ∈ eqs) :
    ∃ e' ∈ eqs',
      substitute σ e.1 = .ok e'.1 ∧
        substitute σ e.2 = .ok e'.2 := by
  induction eqs generalizing eqs' with
  | nil => simp at he
  | cons first eqs ih =>
      rcases first with ⟨s, t⟩
      rcases exists_of_bind_eq_ok h with ⟨rest, hRest, h⟩
      rcases exists_of_bind_eq_ok h with ⟨s', hs, h⟩
      rcases exists_of_bind_eq_ok h with ⟨t', ht, h⟩
      cases h
      rcases List.mem_cons.mp he with rfl | he
      · exact ⟨(s', t'), by simp, hs, ht⟩
      · rcases ih hRest he with ⟨e', he', hSides⟩
        exact ⟨e', by simp [he'], hSides⟩

/- Every new equation is the instance of an old one. -/
theorem exists_of_mem_substituteAll
    {σ : Bindings}
    {eqs eqs' : List Equation}
    (h : substituteAll σ eqs = .ok eqs')
    {e' : Equation}
    (he' : e' ∈ eqs') :
    ∃ e ∈ eqs,
      substitute σ e.1 = .ok e'.1 ∧
        substitute σ e.2 = .ok e'.2 := by
  induction eqs generalizing eqs' with
  | nil =>
      cases h
      simp at he'
  | cons first eqs ih =>
      rcases first with ⟨s, t⟩
      rcases exists_of_bind_eq_ok h with ⟨rest, hRest, h⟩
      rcases exists_of_bind_eq_ok h with ⟨s', hs, h⟩
      rcases exists_of_bind_eq_ok h with ⟨t', ht, h⟩
      cases h
      rcases List.mem_cons.mp he' with rfl | he'
      · exact ⟨(s, t), by simp, hs, ht⟩
      · rcases ih hRest he' with ⟨e, he, hSides⟩
        exact ⟨e, by simp [he], hSides⟩

/- The new values are the instances of the old ones. -/
theorem get?_substituteValues
    {σ : Bindings}
    {entries entries' : List (Variable × Side)}
    (h : substituteValues σ entries = .ok entries')
    (v : Variable) :
    (∀ s, Bindings.get? ⟨entries⟩ v = some s →
      ∃ s', substitute σ s = .ok s' ∧
        Bindings.get? ⟨entries'⟩ v = some s') ∧
    (Bindings.get? ⟨entries⟩ v = none →
      Bindings.get? ⟨entries'⟩ v = none) := by
  induction entries generalizing entries' with
  | nil =>
      cases h
      simp [Bindings.get?]
  | cons entry entries ih =>
      rcases entry with ⟨w, value⟩
      rcases exists_of_bind_eq_ok h with ⟨value', hValue, h⟩
      rcases exists_of_bind_eq_ok h with ⟨rest, hRest, h⟩
      cases h
      simp only [Bindings.get?, lookup_cons_ite]
      by_cases hv : v = w
      · simp only [hv, if_true, Option.some.injEq]
        refine ⟨?_, by simp⟩
        rintro s rfl
        exact ⟨value', hValue, rfl⟩
      · simp only [hv, if_false]
        exact ih hRest

/- Every new value is the instance of an old one. -/
theorem exists_of_mem_substituteValues
    {σ : Bindings}
    {entries entries' : List (Variable × Side)}
    (h : substituteValues σ entries = .ok entries')
    {entry' : Variable × Side}
    (hEntry' : entry' ∈ entries') :
    ∃ s, (entry'.1, s) ∈ entries ∧
      substitute σ s = .ok entry'.2 := by
  induction entries generalizing entries' with
  | nil =>
      cases h
      simp at hEntry'
  | cons entry entries ih =>
      rcases entry with ⟨v, s⟩
      rcases exists_of_bind_eq_ok h with ⟨s', hs', h⟩
      rcases exists_of_bind_eq_ok h with ⟨rest, hRest, h⟩
      cases h
      rcases List.mem_cons.mp hEntry' with rfl | hMem
      · exact ⟨s, by simp, hs'⟩
      · rcases ih hRest hMem with ⟨s'', hOld, hSubst⟩
        exact ⟨s'', by simp [hOld], hSubst⟩

/- Values that have substitutes one by one have them all. -/
theorem substituteValues_of_each
    {σ : Bindings}
    {entries : List (Variable × Side)}
    (h : ∀ entry ∈ entries, ∃ s, substitute σ entry.2 = .ok s) :
    ∃ entries', substituteValues σ entries = .ok entries' := by
  induction entries with
  | nil => exact ⟨[], rfl⟩
  | cons entry entries ih =>
      rcases entry with ⟨v, s⟩
      rcases ih fun e he => h e (by simp [he]) with
        ⟨entries', hEntries⟩
      rcases h (v, s) (by simp) with ⟨s', hs'⟩
      refine ⟨(v, s') :: entries', ?_⟩
      simp only [substituteValues, hEntries, hs']
      rfl

/- What recording bindings makes of a state. -/
theorem bind_ok
    {state next : State}
    {σ : Bindings}
    (h : bind state σ = .ok next) :
    substituteAll σ state.pending = .ok next.pending ∧
      ∃ values,
        substituteValues σ state.solved.entries = .ok values ∧
          next.solved = Bindings.union ⟨values⟩ σ := by
  rcases exists_of_bind_eq_ok h with ⟨pending, hPending, h⟩
  rcases exists_of_bind_eq_ok h with ⟨values, hValues, h⟩
  cases h
  exact ⟨hPending, values, hValues, rfl⟩

/- A new binding is recorded as it is. -/
theorem get?_bind_of_bound
    {state next : State}
    {σ : Bindings}
    (hσ : σ.Functional)
    (h : bind state σ = .ok next)
    {v : Variable}
    {s : Side}
    (hv : σ.get? v = some s) :
    next.solved.get? v = some s := by
  rcases bind_ok h with ⟨_, values, _, hSolved⟩
  rw [hSolved, Bindings.get?_union hσ, hv]
  rfl

/- The value of an old binding is brought up to date. -/
theorem get?_bind_of_unbound
    {state next : State}
    {σ : Bindings}
    (hσ : σ.Functional)
    (h : bind state σ = .ok next)
    {v : Variable}
    {s : Side}
    (hv : σ.get? v = none)
    (hs : state.solved.get? v = some s) :
    ∃ s', substitute σ s = .ok s' ∧
      next.solved.get? v = some s' := by
  rcases bind_ok h with ⟨_, values, hValues, hSolved⟩
  rcases (get?_substituteValues hValues v).1 s hs with
    ⟨s', hSubst, hGet⟩
  refine ⟨s', hSubst, ?_⟩
  rw [hSolved, Bindings.get?_union hσ, hv, hGet]
  rfl

/- Every binding is a new one or was there before. -/
theorem get?_bind_cases
    {state next : State}
    {σ : Bindings}
    (hσ : σ.Functional)
    (h : bind state σ = .ok next)
    {v : Variable}
    {s' : Side}
    (hv : next.solved.get? v = some s') :
    σ.get? v = some s' ∨
      ∃ s, state.solved.get? v = some s ∧
        substitute σ s = .ok s' := by
  cases hNew : σ.get? v with
  | some s =>
      rw [get?_bind_of_bound hσ h hNew] at hv
      exact Or.inl hv
  | none =>
      cases hOld : state.solved.get? v with
      | some s =>
          rcases get?_bind_of_unbound hσ h hNew hOld with
            ⟨s'', hSubst, hGet⟩
          rw [hGet] at hv
          cases hv
          exact Or.inr ⟨s, rfl, hSubst⟩
      | none =>
          rcases bind_ok h with ⟨_, values, hValues, hSolved⟩
          have hNone := (get?_substituteValues hValues v).2 hOld
          rw [hSolved, Bindings.get?_union hσ, hNew, hNone] at hv
          cases hv

/- A variable that is bound is not bound again. -/
theorem unbound_of_solved
    {P : Variable → Prop}
    {σ : Bindings}
    {κ : Kinding}
    {state : State}
    (hMoves : Moves P σ κ)
    (hScoped : Scoped P state)
    {v : Variable}
    {s : Side}
    (h : state.solved.get? v = some s) :
    σ.get? v = none := by
  cases hNew : σ.get? v with
  | none => rfl
  | some s' =>
      have hScope := (hMoves.keys v s' hNew).1
      exact absurd (hScoped.keys v s h v hScope rfl)
        (lt_irrefl v.kind)

/- Recording bindings moves the scope of a state. -/
theorem scoped_bind
    {P : Variable → Prop}
    {σ : Bindings}
    {κ : Kinding}
    {state next : State}
    (hMoves : Moves P σ κ)
    (hScoped : Scoped P state)
    (h : bind state σ = .ok next) :
    Scoped κ.Has next := by
  have hSide :
      ∀ s s', Side.Within P s → substitute σ s = .ok s' →
        Side.Within κ.Has s' := by
    intro s s' hs hSubst t ht
    have hFits : Side.Fits κ .term s' := by
      apply fits_of_subst hMoves hs
      · intro u _
        exact u.kind.le_term
      · exact subst_of_substitute hMoves hs hSubst
    exact hFits.within t ht
  constructor
  · intro e' he'
    rcases exists_of_mem_substituteAll (bind_ok h).1 he' with
      ⟨e, he, hLeft, hRight⟩
    have hWithin := hScoped.pending e he
    exact
      ⟨hSide e.1 e'.1 hWithin.1 hLeft,
        hSide e.2 e'.2 hWithin.2 hRight⟩
  · intro v s' hv
    have hFits : Side.Fits κ v.kind s' := by
      rcases get?_bind_cases hMoves.functional h hv with
        hNew | ⟨s, hOld, hSubst⟩
      · rw [← Bindings.value_of_get? hNew]
        exact hMoves.fits v (hMoves.keys v s' hNew).1
      · rcases hScoped.solved v s hOld with ⟨hWithin, hKind⟩
        apply fits_of_subst hMoves hWithin hKind
        exact subst_of_substitute hMoves hWithin hSubst
    exact ⟨hFits.within, fun t ht => (hFits t ht).1⟩
  · intro v s' hv w hw hName
    have hw' : κ v.name = some w.kind := by
      rw [← hName]
      exact hw
    rcases get?_bind_cases hMoves.functional h hv with
      hNew | ⟨s, hOld, _⟩
    · exact (hMoves.keys v s' hNew).2 w.kind hw'
    · rcases hMoves.narrows v.name w.kind hw' with
        ⟨x, hx, hxName, hLe⟩
      exact lt_of_le_of_lt hLe
        (hScoped.keys v s hOld x hx hxName)

end Unify

end StatementQuery

------------------------------------------------------------
-- Solutions Of A State
------------------------------------------------------------

namespace StatementQuery

/- The two sides of an equation have the same instances. -/
def Equation.Agrees
    (f : Variable → Side)
    (e : Equation) :
    Prop :=
  outcome (Side.subst f e.1) = outcome (Side.subst f e.2)

namespace Unify

/- Replacing variables by `σ` first makes no difference. -/
def Absorbs (f : Variable → Side) (σ : Bindings) : Prop :=
  ∀ v,
    outcome (Side.subst f (σ.value v)) = outcome (some (f v))

/-
  Bindings that fit the variables of a state, and under which
  its equations, and its bound variables and their values,
  agree.
-/
structure Solves
    (κ : Kinding)
    (P : Variable → Prop)
    (state : State)
    (θ : Bindings) :
    Prop where
  fits :
    ∀ v, P v ∨ (∃ s, state.solved.get? v = some s) →
      Side.Fits κ v.kind (θ.value v)
  pending : ∀ e ∈ state.pending, e.Agrees θ.value
  solved :
    ∀ v s, state.solved.get? v = some s →
      outcome (Side.subst θ.value s) =
        outcome (some (θ.value v))

/- A side and its instance have the same instances. -/
theorem outcome_of_absorbs
    {P : Variable → Prop}
    {σ : Bindings}
    {κ κ' : Kinding}
    (hMoves : Moves P σ κ)
    {f : Variable → Side}
    (hFits : ∀ v, P v → Side.Fits κ' v.kind (f v))
    (hAbsorbs : Absorbs f σ)
    {s s' : Side}
    (hs : Side.Within P s)
    (h : substitute σ s = .ok s') :
    outcome (Side.subst f s') = outcome (Side.subst f s) := by
  have hSubst := subst_of_substitute hMoves hs h
  cases s with
  | none =>
      cases hSubst
      rfl
  | some t =>
      have hTermFits :
          ∀ v ∈ t.occurrences, Side.Fits κ' v.kind (f v) := by
        intro v hv
        exact hFits v ((hs t rfl).2 v hv)
      exact Term.outcome_subst_absorb (hs t rfl).1 hTermFits
        (fun v _ => hAbsorbs v) hSubst

/- A solution of the next state has absorbed the bindings. -/
theorem absorbs_of_solves
    {σ : Bindings}
    {κ : Kinding}
    {Q : Variable → Prop}
    {state next : State}
    {θ : Bindings}
    (hσ : σ.Functional)
    (h : bind state σ = .ok next)
    (hSolves : Solves κ Q next θ) :
    Absorbs θ.value σ := by
  intro v
  cases hv : σ.get? v with
  | none =>
      rw [Bindings.value_of_get?_none hv]
      rfl
  | some s =>
      rw [Bindings.value_of_get? hv]
      exact hSolves.solved v s (get?_bind_of_bound hσ h hv)

/- A solution of the next state is one of the state. -/
theorem solves_of_bind
    {P : Variable → Prop}
    {σ : Bindings}
    {κ κ' : Kinding}
    {state next : State}
    {θ : Bindings}
    (hMoves : Moves P σ κ)
    (hScoped : Scoped P state)
    (h : bind state σ = .ok next)
    (hSolves : Solves κ' κ.Has next θ) :
    Solves κ' P state θ := by
  have hAbsorbs :=
    absorbs_of_solves hMoves.functional h hSolves
  have hFits :
      ∀ v, P v → Side.Fits κ' v.kind (θ.value v) := by
    intro v hv
    apply hSolves.fits
    cases hNew : σ.get? v with
    | none =>
        exact Or.inl (hMoves.has_of_unbound hv hNew)
    | some s =>
        exact Or.inr
          ⟨s, get?_bind_of_bound hMoves.functional h hNew⟩
  have hKeys :
      ∀ v s, state.solved.get? v = some s →
        σ.get? v = none :=
    fun v s hv => unbound_of_solved hMoves hScoped hv
  constructor
  · rintro v (hv | ⟨s, hs⟩)
    · exact hFits v hv
    · rcases get?_bind_of_unbound hMoves.functional h
          (hKeys v s hs) hs with
        ⟨s', _, hs'⟩
      exact hSolves.fits v (Or.inr ⟨s', hs'⟩)
  · intro e he
    rcases exists_of_mem_pending (bind_ok h).1 he with
      ⟨e', he', hLeft, hRight⟩
    have hWithin := hScoped.pending e he
    have hLeft' :=
      outcome_of_absorbs hMoves hFits hAbsorbs hWithin.1 hLeft
    have hRight' :=
      outcome_of_absorbs hMoves hFits hAbsorbs hWithin.2 hRight
    unfold Equation.Agrees
    rw [← hLeft', ← hRight']
    exact hSolves.pending e' he'
  · intro v s hs
    rcases get?_bind_of_unbound hMoves.functional h
        (hKeys v s hs) hs with
      ⟨s', hSubst, hs'⟩
    rw [← outcome_of_absorbs hMoves hFits hAbsorbs
      (hScoped.solved v s hs).1 hSubst]
    exact hSolves.solved v s' hs'

end Unify

end StatementQuery
