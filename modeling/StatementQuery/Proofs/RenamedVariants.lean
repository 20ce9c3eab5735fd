import Mathlib.Data.List.Lex
import Mathlib.Data.Prod.Lex
import StatementQuery.Proofs.LinearMatching
import StatementQuery.Proofs.RenamedMatches
import StatementQuery.Proofs.SolverTermination

/-
  Renamed terms are variants of the terms they come from.

  Renaming gives every variable of a term another name and
  nothing else.  If the new names are none of the old ones,
  unifying the renamed term with the original takes every new
  variable back to the one it was made from, and instantiating
  the renamed term with what was found gives the original.

  The run is followed turn by turn.  At each turn the sides of
  an equation differ only in variables that have not been
  traced back yet, so an equation is dropped, decomposed, or
  traces one more variable back.

  Key definitions include:
    * `Variable.key`
    * `Variable.retraced`
    * `Unify.Retraces`

  Main declarations:
    * `Bindings.ofList_perm`
    * `Unify.Retraces.turn_cases`
    * `Term.rename_variant`
-/

------------------------------------------------------------
-- The Order Of Variables
------------------------------------------------------------

namespace StatementQuery

/- Texts are ordered by their code points. -/
theorem Text.compareChars_eq_lt_iff
    (as bs : List Char) :
    compareChars as bs = .lt ↔
      as.map Char.toNat < bs.map Char.toNat := by
  fun_induction compareChars as bs with
  | case1 => simp
  | case2 => simp
  | case3 => simp
  | case4 a as b bs h => simp [List.cons_lt_cons_iff, h]
  | case5 a as b bs h h' =>
      have hNot :
          ¬ (a :: as).map Char.toNat < (b :: bs).map Char.toNat := by
        simp only [List.map_cons, List.cons_lt_cons_iff]
        omega
      exact iff_of_false nofun hNot
  | case6 a as b bs h h' ih =>
      have hHead : a.toNat = b.toNat := by
        omega
      simp [hHead, ih]

/- Two texts have the same place if they are the same. -/
theorem Text.compareChars_eq_eq_iff
    (as bs : List Char) :
    compareChars as bs = .eq ↔
      as.map Char.toNat = bs.map Char.toNat := by
  fun_induction compareChars as bs with
  | case1 => simp
  | case2 => simp
  | case3 => simp
  | case4 a as b bs h => simp; omega
  | case5 a as b bs h h' => simp; omega
  | case6 a as b bs h h' ih =>
      have hHead : a.toNat = b.toNat := by
        omega
      simp [hHead, ih]

namespace Variable

/- What decides the place of a variable. -/
def key (v : Variable) : List Nat ×ₗ Nat :=
  toLex (v.name.toList.map Char.toNat, v.kind.position)

/- Variables are ordered by their names, then by kinds. -/
theorem before_iff
    (v w : Variable) :
    v.before w = true ↔ v.key < w.key := by
  unfold before key Text.order
  rw [Prod.Lex.toLex_lt_toLex, ← Text.compareChars_eq_lt_iff,
    ← Text.compareChars_eq_eq_iff]
  cases Text.compareChars v.name.toList w.name.toList <;> simp

/- No two variables have the same place. -/
theorem key_injective : Function.Injective key := by
  intro v w h
  rcases Prod.mk.inj (toLex.injective h) with ⟨hName, hKind⟩
  have hChars : v.name.toList = w.name.toList :=
    List.map_injective_iff.mpr
      (fun a b hCode => Char.toNat_inj.mp hCode) hName
  refine eq_of_name_of_kind (String.toList_injective hChars) ?_
  revert hKind
  cases v.kind <;> cases w.kind <;> simp [Kind.position]

/- An ascending list with one more variable is ascending. -/
theorem pairwise_insert
    (v : Variable)
    {vs : List Variable}
    (h : vs.Pairwise fun x y => x.key < y.key) :
    (insert v vs).Pairwise fun x y => x.key < y.key := by
  induction vs with
  | nil => exact List.pairwise_singleton _ v
  | cons w ws ih =>
      rcases List.pairwise_cons.mp h with ⟨hHead, hTail⟩
      unfold insert
      by_cases hEq : v = w
      · rw [if_pos hEq]
        exact h
      · rw [if_neg hEq]
        by_cases hBefore : v.before w = true
        · rw [if_pos hBefore]
          have hLt := (before_iff v w).mp hBefore
          refine List.pairwise_cons.mpr ⟨?_, h⟩
          intro x hx
          rcases List.mem_cons.mp hx with rfl | hx
          · exact hLt
          · exact lt_trans hLt (hHead x hx)
        · rw [if_neg hBefore]
          refine List.pairwise_cons.mpr ⟨?_, ih hTail⟩
          intro x hx
          rcases (mem_insert v x ws).mp hx with rfl | hx
          · rw [before_iff, not_lt] at hBefore
            exact lt_of_le_of_ne hBefore
              fun hKey => hEq (key_injective hKey).symm
          · exact hHead x hx

/- A set holds every variable once. -/
theorem nodup_sorted
    (vs : List Variable) :
    (sorted vs).Nodup := by
  have hAscending :
      (sorted vs).Pairwise fun x y => x.key < y.key := by
    induction vs with
    | nil => exact List.Pairwise.nil
    | cons v vs ih => exact pairwise_insert v ih
  apply hAscending.imp
  intro x y hLt hEq
  exact absurd hLt (hEq ▸ lt_irrefl _)

end Variable

end StatementQuery

------------------------------------------------------------
-- The Order Of Bindings
------------------------------------------------------------

namespace StatementQuery

namespace Bindings

/- A binding is put before those of later variables. -/
theorem insertEntry_of_lt
    {v w : Variable}
    (h : v.key < w.key)
    (a b : Option Term)
    (entries : List (Variable × Option Term)) :
    insertEntry v a ((w, b) :: entries) =
      (v, a) :: (w, b) :: entries := by
  have hNe : v ≠ w := by
    intro hEq
    exact absurd h (hEq ▸ lt_irrefl _)
  rw [insertEntry, if_neg hNe,
    if_pos ((Variable.before_iff v w).mpr h)]

/- A binding is put after those of earlier variables. -/
theorem insertEntry_of_gt
    {v w : Variable}
    (h : w.key < v.key)
    (a b : Option Term)
    (entries : List (Variable × Option Term)) :
    insertEntry v a ((w, b) :: entries) =
      (w, b) :: insertEntry v a entries := by
  have hNe : v ≠ w := by
    intro hEq
    exact absurd h (hEq ▸ lt_irrefl _)
  rw [insertEntry, if_neg hNe, if_neg]
  rw [Variable.before_iff]
  exact h.not_gt

/- A binding takes the place of that of its variable. -/
theorem insertEntry_self
    (v : Variable)
    (a b : Option Term)
    (entries : List (Variable × Option Term)) :
    insertEntry v a ((v, b) :: entries) =
      (v, a) :: entries := by
  rw [insertEntry, if_pos rfl]

/- Two bindings are put in place in either order. -/
theorem insertEntry_comm_of_lt
    {v w : Variable}
    (h : v.key < w.key)
    (a b : Option Term)
    (entries : List (Variable × Option Term)) :
    insertEntry w b (insertEntry v a entries) =
      insertEntry v a (insertEntry w b entries) := by
  induction entries with
  | nil =>
      simp only [insertEntry, insertEntry_of_gt h,
        insertEntry_of_lt h]
  | cons entry entries ih =>
      rcases entry with ⟨x, other⟩
      rcases lt_trichotomy v.key x.key with hv | hv | hv
      · rw [insertEntry_of_lt hv, insertEntry_of_gt h]
        rcases lt_trichotomy w.key x.key with hw | hw | hw
        · rw [insertEntry_of_lt hw, insertEntry_of_lt h]
        · cases Variable.key_injective hw
          rw [insertEntry_self, insertEntry_of_lt h]
        · rw [insertEntry_of_gt hw, insertEntry_of_lt hv]
      · cases Variable.key_injective hv
        rw [insertEntry_self, insertEntry_of_gt h,
          insertEntry_of_gt h, insertEntry_self]
      · have hw := lt_trans hv h
        rw [insertEntry_of_gt hv, insertEntry_of_gt hw,
          insertEntry_of_gt hw, insertEntry_of_gt hv, ih]

/- Two variables are bound in either order. -/
theorem insert_comm
    (θ : Bindings)
    {v w : Variable}
    (hNe : v ≠ w)
    (a b : Option Term) :
    (θ.insert v a).insert w b = (θ.insert w b).insert v a := by
  rcases lt_or_gt_of_ne
      fun h => hNe (Variable.key_injective h) with h | h
  · exact congrArg mk (insertEntry_comm_of_lt h a b θ.entries)
  · exact congrArg mk
      (insertEntry_comm_of_lt h b a θ.entries).symm

/- The last binding of a list is put into the others. -/
theorem ofList_concat
    (entries : List (Variable × Option Term))
    (entry : Variable × Option Term) :
    ofList (entries ++ [entry]) =
      (ofList entries).insert entry.1 entry.2 := by
  rw [ofList, List.foldl_append]
  rfl

/- Bindings of distinct variables do not depend on order. -/
theorem ofList_perm
    {entries entries' : List (Variable × Option Term)}
    (hKeys : (entries.map Prod.fst).Nodup)
    (h : entries.Perm entries') :
    ofList entries = ofList entries' := by
  apply h.foldl_eq'
  intro x hx y hy θ
  by_cases hEq : x = y
  · rw [hEq]
  · refine θ.insert_comm ?_ x.2 y.2
    intro hFst
    exact hEq (List.inj_on_of_nodup_map hKeys hx hy hFst)

end Bindings

end StatementQuery

------------------------------------------------------------
-- Tracing Variables Back
------------------------------------------------------------

namespace StatementQuery

/-
  A renaming of variables, each name of which has one kind, to
  names that none of them has.
-/
structure Separates
    (ρ : String → String)
    (vs : List Variable) :
    Prop where
  apart : ∀ v ∈ vs, ∀ w ∈ vs, ρ v.name ≠ w.name
  injective :
    ∀ v ∈ vs, ∀ w ∈ vs, ρ v.name = ρ w.name → v.name = w.name
  oneKind : Variable.OneKind vs

namespace Variable

/- A variable that is traced back, or its new name. -/
def retraced
    (ρ : String → String)
    (done : List Variable)
    (v : Variable) :
    Variable :=
  if v ∈ done then v else v.renamed ρ

/- One variable under its old name again, any other as it is. -/
def restored
    (ρ : String → String)
    (v w : Variable) :
    Variable :=
  if w = v.renamed ρ then v else w

/- The binding that traces a variable back. -/
def retracingEntry
    (ρ : String → String)
    (v : Variable) :
    Variable × Option Term :=
  (v.renamed ρ, some (.var v))

@[simp] theorem kind_retraced
    (ρ : String → String)
    (done : List Variable)
    (v : Variable) :
    (v.retraced ρ done).kind = v.kind := by
  unfold retraced
  split <;> rfl

end Variable

namespace Separates

variable {ρ : String → String} {vs done : List Variable}

/- Names that are avoided separate the variables. -/
theorem of_renames
    {avoid : List String}
    (h : Renames ρ vs avoid)
    (hAvoid : ∀ v ∈ vs, v.name ∈ avoid)
    (hKinds : Variable.OneKind vs) :
    Separates ρ vs := by
  refine ⟨?_, h.injective, hKinds⟩
  intro v hv w hw hName
  apply h.fresh v hv
  rw [hName]
  exact hAvoid w hw

/- Only one variable has a new name. -/
theorem renamed_inj
    (h : Separates ρ vs)
    {v w : Variable}
    (hv : v ∈ vs)
    (hw : w ∈ vs)
    (hEq : v.renamed ρ = w.renamed ρ) :
    v = w := by
  have hName : v.name = w.name :=
    h.injective v hv w hw (congrArg Variable.name hEq)
  exact Variable.eq_of_name_of_kind hName
    (h.oneKind v hv w hw hName)

/- A new name is none of the old ones. -/
theorem renamed_ne
    (h : Separates ρ vs)
    {v w : Variable}
    (hv : v ∈ vs)
    (hw : w ∈ vs) :
    v.renamed ρ ≠ w := by
  intro hEq
  exact h.apart v hv w hw (congrArg Variable.name hEq)

/- A variable that stays is traced back. -/
theorem mem_of_retraced_eq
    (h : Separates ρ vs)
    {v : Variable}
    (hv : v ∈ vs)
    (hEq : v.retraced ρ done = v) :
    v ∈ done := by
  by_contra hNot
  rw [Variable.retraced, if_neg hNot] at hEq
  exact h.renamed_ne hv hv hEq

/- Tracing one more variable back. -/
theorem restored_retraced
    (h : Separates ρ vs)
    {v w : Variable}
    (hv : v ∈ vs)
    (hw : w ∈ vs) :
    Variable.restored ρ v (w.retraced ρ done) =
      w.retraced ρ (done ++ [v]) := by
  unfold Variable.restored Variable.retraced
  by_cases hDone : w ∈ done
  · have hNe : w ≠ v.renamed ρ := (h.renamed_ne hv hw).symm
    simp [hDone, hNe]
  · by_cases hEq : w = v
    · subst hEq
      simp [hDone]
    · have hNe : w.renamed ρ ≠ v.renamed ρ := by
        intro hSame
        exact hEq (h.renamed_inj hw hv hSame)
      simp [hDone, hEq, hNe]

/- The new names and the old ones have one kind each. -/
theorem oneKind_append
    (h : Separates ρ vs) :
    Variable.OneKind (vs.map (Variable.renamed ρ) ++ vs) := by
  intro v hv w hw hName
  rw [List.mem_append, List.mem_map] at hv hw
  rcases hv with ⟨v', hv', rfl⟩ | hv
  · rcases hw with ⟨w', hw', rfl⟩ | hw
    · exact h.oneKind v' hv' w' hw'
        (h.injective v' hv' w' hw' hName)
    · exact absurd hName (h.apart v' hv' w hw)
  · rcases hw with ⟨w', hw', rfl⟩ | hw
    · exact absurd hName.symm (h.apart w' hw' v hv)
    · exact h.oneKind v hv w hw hName

/- A variable at any stage has the kind of its name. -/
theorem has_retraced
    (h : Separates ρ vs)
    {v : Variable}
    (hv : v ∈ vs) :
    (Variable.kinding (vs.map (Variable.renamed ρ) ++ vs)).Has
      (v.retraced ρ done) := by
  apply Variable.atKinds_kinding h.oneKind_append
  rw [List.mem_append, List.mem_map]
  unfold Variable.retraced
  split
  · exact Or.inr hv
  · exact Or.inl ⟨v, hv, rfl⟩

end Separates

end StatementQuery

------------------------------------------------------------
-- One More Variable
------------------------------------------------------------

namespace StatementQuery

namespace Unify

variable {ρ : String → String} {vs done : List Variable}

/- A side with some of its variables traced back. -/
def retracedSide
    (ρ : String → String)
    (done : List Variable) :
    Side → Side :=
  Option.map (Term.mapVariables (Variable.retraced ρ done))

/- Substituting one variable traces it back in a side. -/
theorem substitute_retraced
    (hSep : Separates ρ vs)
    {v : Variable}
    (hv : v ∈ vs)
    {s : Side}
    (hs : Side.Within (· ∈ vs) s) :
    substitute (.singleton (v.renamed ρ) (some (.var v)))
        (retracedSide ρ done s) =
      .ok (retracedSide ρ (done ++ [v]) s) := by
  cases s with
  | none => rfl
  | some u =>
      rcases hs u rfl with ⟨hShaped, hVars⟩
      have hMember :
          ∀ w ∈ (u.mapVariables
              (Variable.retraced ρ done)).occurrences,
            ∃ x ∈ vs, x.retraced ρ done = w := by
        intro w hw
        rcases (Term.mem_occurrences_mapVariables _ u w).mp hw
          with ⟨x, hx, hEq⟩
        exact ⟨x, hVars x hx, hEq⟩
      have hInstance :
          (u.mapVariables
              (Variable.retraced ρ done)).instantiateWith .plain
              (.singleton (v.renamed ρ) (some (.var v))) =
            .ok
              (some
                ((u.mapVariables
                  (Variable.retraced ρ done)).mapVariables
                    (Variable.restored ρ v))) := by
        apply Term.instantiateWith_mapVariables
          (κ :=
            Variable.kinding (vs.map (Variable.renamed ρ) ++ vs))
        · apply Term.wellShaped_mapVariables _ hShaped
          intro x _
          exact le_of_eq (Variable.kind_retraced ρ done x)
        · intro w hw
          rcases hMember w hw with ⟨x, hx, rfl⟩
          rw [hSep.restored_retraced hv hx, Variable.kind_retraced,
            Variable.kind_retraced]
        · intro w hw
          rcases hMember w hw with ⟨x, hx, rfl⟩
          rw [hSep.restored_retraced hv hx]
          exact hSep.has_retraced hx
        · intro w _
          by_cases hEq : w = v.renamed ρ
          · simp [Variable.restored, hEq]
          · simp [Variable.restored, hEq]
      have hTraced :
          (u.mapVariables
              (Variable.retraced ρ done)).mapVariables
                (Variable.restored ρ v) =
            u.mapVariables (Variable.retraced ρ (done ++ [v])) := by
        rw [Term.mapVariables_mapVariables]
        apply Term.mapVariables_congr
        intro x hx
        exact hSep.restored_retraced hv (hVars x hx)
      rw [hTraced] at hInstance
      simp only [retracedSide, Option.map_some, substitute,
        Term.instantiateSide, hInstance]
      rfl

/- The old variables are not replaced. -/
theorem substitute_old
    (hSep : Separates ρ vs)
    {v : Variable}
    (hv : v ∈ vs)
    {s : Side}
    (hs : ∀ w ∈ Side.occurrences s, w ∈ vs) :
    substitute (.singleton (v.renamed ρ) (some (.var v))) s =
      .ok s := by
  apply substitute_of_unbound
  intro w hw
  rw [Bindings.get?_singleton, if_neg]
  exact (hSep.renamed_ne hv (hs w hw)).symm

/- An equation that has come from one between equal sides. -/
def IsRetraced
    (ρ : String → String)
    (vs done : List Variable)
    (e : Equation) :
    Prop :=
  e.1 = retracedSide ρ done e.2 ∧ Side.Within (· ∈ vs) e.2

/- One variable is traced back in all equations. -/
theorem substituteAll_retraced
    (hSep : Separates ρ vs)
    {v : Variable}
    (hv : v ∈ vs)
    {eqs : List Equation}
    (hEqs : ∀ e ∈ eqs, IsRetraced ρ vs done e) :
    substituteAll (.singleton (v.renamed ρ) (some (.var v))) eqs =
      .ok
        (eqs.map fun e =>
          (retracedSide ρ (done ++ [v]) e.2, e.2)) := by
  induction eqs with
  | nil => rfl
  | cons e eqs ih =>
      rcases e with ⟨s, t⟩
      rcases hEqs (s, t) (by simp) with ⟨hLeft, hWithin⟩
      have hRest := ih fun e he => hEqs e (by simp [he])
      have hOld :=
        substitute_old hSep hv fun w hw => hWithin.occurrences hw
      simp only at hLeft
      subst hLeft
      simp only [substituteAll, hRest, hOld,
        substitute_retraced hSep hv hWithin, List.map_cons]
      rfl

/- The bindings that trace variables back stay as they are. -/
theorem substituteValues_retraced
    (hSep : Separates ρ vs)
    {v : Variable}
    (hv : v ∈ vs)
    (hDone : ∀ w ∈ done, w ∈ vs) :
    substituteValues (.singleton (v.renamed ρ) (some (.var v)))
        (Bindings.ofList
          (done.map (Variable.retracingEntry ρ))).entries =
      .ok
        (Bindings.ofList
          (done.map (Variable.retracingEntry ρ))).entries := by
  apply substituteValues_of_unbound
  intro entry hEntry w hw
  have hMem : entry ∈ done.map (Variable.retracingEntry ρ) := by
    have hUnion :
        Bindings.ofList (done.map (Variable.retracingEntry ρ)) =
          Bindings.empty.union
            ⟨done.map (Variable.retracingEntry ρ)⟩ := rfl
    rw [hUnion] at hEntry
    exact (Bindings.mem_union hEntry).resolve_left (by
      simp [Bindings.empty])
  rcases List.mem_map.mp hMem with ⟨x, hx, rfl⟩
  have hwx : w = x := by
    simpa [Variable.retracingEntry, Side.occurrences,
      Term.occurrences] using hw
  rw [Bindings.get?_singleton, if_neg]
  rw [hwx]
  exact (hSep.renamed_ne hv (hDone x hx)).symm

end Unify

end StatementQuery

------------------------------------------------------------
-- One Turn
------------------------------------------------------------

namespace StatementQuery

namespace Unify

/-
  A state of the run between a renamed term and the original:
  the variables that are done are bound, and all others are
  still in the work list.
-/
structure Retraces
    (ρ : String → String)
    (vs done : List Variable)
    (state : State) :
    Prop where
  pending : ∀ e ∈ state.pending, IsRetraced ρ vs done e
  solved :
    state.solved =
      .ofList (done.map (Variable.retracingEntry ρ))
  nodup : done.Nodup
  within : ∀ v ∈ done, v ∈ vs
  covers :
    ∀ v ∈ vs,
      v ∈ done ∨
        ∃ e ∈ state.pending, v ∈ Side.occurrences e.2

section Turns

variable {ρ : String → String} {vs done : List Variable}
variable {s : Side} {rest : List Equation} {solved : Bindings}

/- All variables of equal sides are traced back. -/
theorem mem_of_sameOption
    (hSep : Separates ρ vs)
    (hs : Side.Within (· ∈ vs) s)
    (hSame :
      Term.sameOption (retracedSide ρ done s) s = true)
    {v : Variable}
    (hv : v ∈ Side.occurrences s) :
    v ∈ done := by
  cases s with
  | none => cases hv
  | some u =>
      rcases hs u rfl with ⟨_, hVars⟩
      have hCanonical :
          (u.mapVariables (Variable.retraced ρ done)).canonical =
            u.canonical :=
        (Term.same_iff _ u).mp hSame
      have hOccurrences :
          u.occurrences.map (Variable.retraced ρ done) =
            u.occurrences.map id := by
        rw [← Term.occurrences_mapVariables, List.map_id,
          ← Term.occurrences_canonical, hCanonical,
          Term.occurrences_canonical]
      exact hSep.mem_of_retraced_eq (hVars v hv)
        (List.map_inj_left.mp hOccurrences v hv)

/- Equal sides are dropped. -/
theorem Retraces.drop
    (hSep : Separates ρ vs)
    (h :
      Retraces ρ vs done
        ⟨(retracedSide ρ done s, s) :: rest, solved⟩)
    (hSame :
      Term.sameOption (retracedSide ρ done s) s = true) :
    Retraces ρ vs done ⟨rest, solved⟩ := by
  refine
    ⟨fun e he => h.pending e (List.mem_cons_of_mem _ he),
      h.solved, h.nodup, h.within, ?_⟩
  intro v hv
  rcases h.covers v hv with hDone | ⟨e, he, hOccurs⟩
  · exact Or.inl hDone
  · rcases List.mem_cons.mp he with rfl | he
    · exact Or.inl
        (mem_of_sameOption hSep (h.pending _ (by simp)).2 hSame
          hOccurs)
    · exact Or.inr ⟨e, he, hOccurs⟩

/- The arguments of an application are paired with their own. -/
theorem pairArgs?_map
    (g : Term → Term)
    (args : List (Option Term)) :
    pairArgs? (args.map (Option.map g)) args =
      some
        ((args.filter Option.isSome).map fun arg =>
          (arg.map g, arg)) := by
  induction args with
  | nil => rfl
  | cons arg args ih =>
      cases arg with
      | none => simpa [pairArgs?] using ih
      | some t => simp [pairArgs?, ih]

/- Applications are decomposed. -/
theorem Retraces.decompose
    {c : Constructor}
    {args : List (Option Term)}
    (h :
      Retraces ρ vs done
        ⟨(retracedSide ρ done (some (.app c args)),
            some (.app c args)) :: rest, solved⟩) :
    Retraces ρ vs done
      ⟨((args.filter Option.isSome).map fun arg =>
          (retracedSide ρ done arg, arg)) ++ rest, solved⟩ := by
  have hWithin := (h.pending _ List.mem_cons_self).2
  refine ⟨?_, h.solved, h.nodup, h.within, ?_⟩
  · intro e he
    rcases List.mem_append.mp he with he | he
    · rcases List.mem_map.mp he with ⟨arg, hArg, rfl⟩
      exact
        ⟨rfl,
          Term.within_args hWithin rfl
            (List.mem_filter.mp hArg).1⟩
    · exact h.pending e (List.mem_cons_of_mem _ he)
  · intro v hv
    rcases h.covers v hv with hDone | ⟨e, he, hOccurs⟩
    · exact Or.inl hDone
    · rcases List.mem_cons.mp he with rfl | he
      · rcases (Term.mem_occurrences_app v c args).mp hOccurs
          with ⟨t, ht, hvt⟩
        have hMem : some t ∈ args.filter Option.isSome :=
          List.mem_filter.mpr ⟨ht, rfl⟩
        exact Or.inr
          ⟨_, List.mem_append_left _
              (List.mem_map_of_mem hMem), hvt⟩
      · exact Or.inr ⟨e, List.mem_append_right _ he, hOccurs⟩

/- A new variable is merged into the one it was made from. -/
theorem step_renamed
    {v : Variable}
    (hName : ρ v.name ≠ v.name) :
    step (some (.var (v.renamed ρ))) (some (.var v)) =
      .ok
        (.bindTo (.singleton (v.renamed ρ) (some (.var v)))) := by
  have hSuits : Part.Suits (v.renamed ρ, some (.var v)) :=
    ⟨le_refl v.kind, hName⟩
  rw [step_var hSuits]
  simp [Part.bindings, mergeInto, survivor, Variable.renamed,
    Variable.withName, Variable.withKind, Bindings.insert,
    Bindings.insertEntry, Bindings.empty, Bindings.singleton]

/- A variable is bound to the one it was made from. -/
theorem Retraces.exists_bind
    (hSep : Separates ρ vs)
    {v : Variable}
    (hNot : v ∉ done)
    (h :
      Retraces ρ vs done
        ⟨(retracedSide ρ done (some (.var v)),
            some (.var v)) :: rest, solved⟩) :
    ∃ next,
      Unify.bind ⟨rest, solved⟩
          (.singleton (v.renamed ρ) (some (.var v))) =
        .ok next ∧
      Retraces ρ vs (done ++ [v]) next := by
  have hv : v ∈ vs :=
    ((h.pending _ List.mem_cons_self).2 _ rfl).2 v (by
      simp [Term.occurrences])
  have hRest : ∀ e ∈ rest, IsRetraced ρ vs done e :=
    fun e he => h.pending e (List.mem_cons_of_mem _ he)
  have hSolved := h.solved
  simp only at hSolved
  subst hSolved
  refine
    ⟨⟨rest.map fun e => (retracedSide ρ (done ++ [v]) e.2, e.2),
        .ofList
          ((done ++ [v]).map (Variable.retracingEntry ρ))⟩,
      ?_, ?_⟩
  · simp only [Unify.bind, substituteAll_retraced hSep hv hRest,
      substituteValues_retraced hSep hv h.within, List.map_append]
    rw [List.map_singleton, Bindings.ofList_concat]
    rfl
  · refine ⟨?_, rfl, ?_, ?_, ?_⟩
    · intro e he
      rcases List.mem_map.mp he with ⟨e', he', rfl⟩
      exact ⟨rfl, (hRest e' he').2⟩
    · simpa using h.nodup.concat hNot
    · intro w hw
      rcases List.mem_append.mp hw with hw | hw
      · exact h.within w hw
      · rw [List.mem_singleton.mp hw]
        exact hv
    · intro w hw
      rcases h.covers w hw with hDone | ⟨e, he, hOccurs⟩
      · exact Or.inl (List.mem_append_left _ hDone)
      · rcases List.mem_cons.mp he with rfl | he
        · have hwv : w = v := by
            simpa [Side.occurrences, Term.occurrences] using
              hOccurs
          simp [hwv]
        · exact Or.inr ⟨_, List.mem_map_of_mem he, hOccurs⟩

/-
  A turn drops an equation, decomposes it, or traces one more
  variable back; the run stops with nothing left to do.
-/
theorem Retraces.turn_cases
    (hSep : Separates ρ vs)
    {state : State}
    (h : Retraces ρ vs done state) :
    (state.pending = [] ∧ turn state = .stop (.ok state.solved)) ∨
      (∃ next,
        turn state = .simplify next ∧
          Retraces ρ vs done next) ∨
      ∃ v next,
        turn state = .record next ∧
          Retraces ρ vs (done ++ [v]) next := by
  rcases state with ⟨pending, solved⟩
  cases pending with
  | nil => exact Or.inl ⟨rfl, rfl⟩
  | cons e rest =>
      rcases e with ⟨left, s⟩
      obtain rfl : left = retracedSide ρ done s :=
        (h.pending _ List.mem_cons_self).1
      cases hSame :
          Term.sameOption (retracedSide ρ done s) s with
      | true =>
          exact Or.inr
            (Or.inl
              ⟨_, by simp [turn, step, hSame],
                h.drop hSep hSame⟩)
      | false =>
          rcases s with _ | (g | v | ⟨c, args⟩)
          · cases hSame
          · have hSelf := Term.same_self (.ground g)
            exact absurd (hSame.symm.trans hSelf) (by decide)
          · have hNot : v ∉ done := by
              intro hDone
              have hStays : v.retraced ρ done = v := if_pos hDone
              simp [retracedSide, Term.mapVariables, hStays,
                Term.sameOption, Term.same] at hSame
            rcases h.exists_bind hSep hNot with
              ⟨next, hBind, hNext⟩
            refine Or.inr (Or.inr ⟨v, next, ?_, hNext⟩)
            have hv : v ∈ vs :=
              ((h.pending _ List.mem_cons_self).2 _ rfl).2 v (by
                simp [Term.occurrences])
            have hSide :
                retracedSide ρ done (some (.var v)) =
                  some (.var (v.renamed ρ)) := by
              simp [retracedSide, Term.mapVariables,
                Variable.retraced, hNot]
            simp only [turn, hSide,
              step_renamed (hSep.apart v hv v hv), hBind]
          · have hParts :
                decompose? (retracedSide ρ done (some (.app c args)))
                    (some (.app c args)) =
                  some
                    ((args.filter Option.isSome).map fun arg =>
                      (retracedSide ρ done arg, arg)) := by
              simp only [retracedSide, Option.map_some,
                Term.mapVariables, Term.mapVariablesArgs_eq_map,
                decompose?, Term.kind, Term.isGround, Term.args?,
                pairArgs?_map]
              simp
            refine Or.inr (Or.inl ⟨_, ?_, h.decompose⟩)
            simp only [turn, step_of_decompose? hSame hParts]

/- Every run ends with all variables traced back. -/
theorem Retraces.exists_result
    (hSep : Separates ρ vs)
    {state : State}
    (h : Retraces ρ vs done state)
    {n : Nat}
    {result : Except UnifyFailure Bindings}
    (hRun : runFor n state = some result) :
    ∃ all : List Variable,
      result =
          .ok (.ofList (all.map (Variable.retracingEntry ρ))) ∧
        all.Nodup ∧ ∀ v, v ∈ all ↔ v ∈ vs := by
  induction n generalizing done state with
  | zero => cases hRun
  | succ n ih =>
      rw [runFor] at hRun
      rcases h.turn_cases hSep with
        ⟨hPending, hTurn⟩ | ⟨next, hTurn, hNext⟩ |
          ⟨v, next, hTurn, hNext⟩
      · rw [hTurn, h.solved] at hRun
        cases hRun
        refine ⟨done, rfl, h.nodup, fun v => ⟨h.within v, ?_⟩⟩
        intro hv
        simpa [hPending] using h.covers v hv
      · rw [hTurn] at hRun
        exact ih hNext hRun
      · rw [hTurn] at hRun
        exact ih hNext hRun

end Turns

end Unify

end StatementQuery

------------------------------------------------------------
-- Variants
------------------------------------------------------------

namespace StatementQuery

namespace Term

variable {ρ : String → String} {t : Term}

/- The bindings that trace the variables of a term back. -/
def retracing (ρ : String → String) (t : Term) : Bindings :=
  .ofList (t.vars.map (Variable.retracingEntry ρ))

/- The first state of the run traces nothing back. -/
theorem retraces_start
    (ht : t.WellFormed) :
    Unify.Retraces ρ t.occurrences []
      ⟨[(some (t.mapVariables (Variable.renamed ρ)), some t)],
        .empty⟩ := by
  have hNone : Variable.retraced ρ [] = Variable.renamed ρ := by
    funext v
    simp [Variable.retraced]
  refine ⟨?_, rfl, List.nodup_nil, by simp, ?_⟩
  · intro e he
    rw [List.mem_singleton.mp he]
    refine ⟨by simp [Unify.retracedSide, hNone], ?_⟩
    intro u hu
    cases hu
    exact ⟨ht.shaped, fun v hv => hv⟩
  · intro v hv
    exact Or.inr ⟨_, List.mem_singleton_self _, hv⟩

/- A renamed term and the original unify by tracing back. -/
theorem unify_renamed
    (ht : t.WellFormed)
    (hSep : Separates ρ t.occurrences) :
    unify [(some (t.mapVariables (Variable.renamed ρ)), some t)] =
      .ok (retracing ρ t) := by
  have hOccurrences :
      Equation.occurrences
          [(some (t.mapVariables (Variable.renamed ρ)), some t)] =
        t.occurrences.map (Variable.renamed ρ) ++
          t.occurrences := by
    simp [Equation.occurrences, Side.occurrences,
      occurrences_mapVariables]
  have hKinds := Variable.atKinds_kinding hSep.oneKind_append
  have hWithin :
      Unify.Within
        (Variable.kinding
          (t.occurrences.map (Variable.renamed ρ) ++
            t.occurrences)).Has
        [(some (t.mapVariables (Variable.renamed ρ)), some t)] := by
    intro e he
    rw [List.mem_singleton.mp he]
    constructor
    · intro u hu
      cases hu
      refine ⟨wellShaped_mapVariables (fun v _ => le_rfl) ht.shaped, ?_⟩
      intro v hv
      rw [occurrences_mapVariables] at hv
      exact hKinds v (List.mem_append_left _ hv)
    · intro u hu
      cases hu
      exact
        ⟨ht.shaped,
          fun v hv => hKinds v (List.mem_append_right _ hv)⟩
  rcases Unify.exists_runFor (Unify.scoped_of_within hWithin)
      (le_refl _) with
    ⟨n, hRun⟩
  rcases (retraces_start ht).exists_result hSep hRun with
    ⟨all, hResult, hNodup, hAll⟩
  have hStart := Unify.start_of_atKinds (hOccurrences ▸ hKinds)
  have hUnify :
      unify
          [(some (t.mapVariables (Variable.renamed ρ)), some t)] =
        .ok (.ofList (all.map (Variable.retracingEntry ρ))) := by
    simp only [unify, hStart]
    exact hResult
  have hPerm : all.Perm t.vars := by
    apply (List.perm_ext_iff_of_nodup hNodup
      (Variable.nodup_sorted _)).mpr
    intro v
    rw [hAll, Variable.mem_sorted]
  have hKeys :
      ((all.map (Variable.retracingEntry ρ)).map
        Prod.fst).Nodup := by
    rw [List.map_map]
    apply List.Nodup.map_on _ hNodup
    intro v hv w hw hEq
    exact hSep.renamed_inj ((hAll v).mp hv) ((hAll w).mp hw) hEq
  rw [hUnify, Bindings.ofList_perm hKeys (hPerm.map _)]
  rfl

/- The variable of a term that a renamed one comes from. -/
def origin
    (ρ : String → String)
    (t : Term)
    (w : Variable) :
    Variable :=
  (t.vars.find? fun v => v.renamed ρ = w).getD w

/- A renamed variable comes from the variable. -/
theorem origin_renamed
    (hSep : Separates ρ t.occurrences)
    {v : Variable}
    (hv : v ∈ t.occurrences) :
    t.origin ρ (v.renamed ρ) = v := by
  have hVars : v ∈ t.vars := (Variable.mem_sorted v _).mpr hv
  unfold origin
  cases hFind : t.vars.find? fun x => x.renamed ρ = v.renamed ρ with
  | none =>
      rw [List.find?_eq_none] at hFind
      exact absurd (decide_eq_true rfl) (hFind v hVars)
  | some x =>
      have hx : x ∈ t.occurrences :=
        (Variable.mem_sorted x _).mp
          (List.mem_of_find?_eq_some hFind)
      have hEq : x.renamed ρ = v.renamed ρ := by
        simpa using List.find?_some hFind
      exact hSep.renamed_inj hx hv hEq

/- Each renamed variable is traced back. -/
theorem get?_retracing
    (hSep : Separates ρ t.occurrences)
    {v : Variable}
    (hv : v ∈ t.occurrences) :
    (retracing ρ t).get? (v.renamed ρ) =
      some (some (.var v)) := by
  have hEntries :
      ∀ entry ∈ t.vars.map (Variable.retracingEntry ρ),
        some (some (Term.var (t.origin ρ entry.1))) =
          some entry.2 := by
    intro entry hEntry
    rcases List.mem_map.mp hEntry with ⟨w, hw, rfl⟩
    simp [Variable.retracingEntry,
      origin_renamed hSep ((Variable.mem_sorted w _).mp hw)]
  have hMem :
      v.renamed ρ ∈
        (t.vars.map (Variable.retracingEntry ρ)).map
          Prod.fst := by
    rw [List.map_map]
    exact List.mem_map.mpr
      ⟨v, (Variable.mem_sorted v _).mpr hv, rfl⟩
  have hFold :=
    Bindings.get?_foldl_insert _
      (fun w => some (some (Term.var (t.origin ρ w)))) hEntries
      .empty (v.renamed ρ)
  rw [if_pos hMem, origin_renamed hSep hv] at hFold
  exact hFold

/- Tracing the variables back gives the original term. -/
theorem instantiate_retracing
    (ht : t.WellFormed)
    (hSep : Separates ρ t.occurrences) :
    (t.mapVariables (Variable.renamed ρ)).instantiate
        (retracing ρ t) =
      .ok (some t) := by
  have hOrigin :
      ∀ v ∈ t.occurrences, t.origin ρ (v.renamed ρ) = v :=
    fun v hv => origin_renamed hSep hv
  have hOld :
      (t.mapVariables (Variable.renamed ρ)).mapVariables
          (t.origin ρ) =
        t := by
    rw [mapVariables_mapVariables]
    exact mapVariables_eq_self _ t hOrigin
  have hMember :
      ∀ w ∈ (t.mapVariables (Variable.renamed ρ)).occurrences,
        ∃ v ∈ t.occurrences, v.renamed ρ = w :=
    fun w hw => (mem_occurrences_mapVariables _ t w).mp hw
  have hShaped :
      (t.mapVariables (Variable.renamed ρ)).WellShaped :=
    wellShaped_mapVariables (fun v _ => le_refl v.kind) ht.shaped
  have hInstance :
      (t.mapVariables (Variable.renamed ρ)).instantiate
          (retracing ρ t) =
        .ok
          (some
            ((t.mapVariables (Variable.renamed ρ)).mapVariables
              (t.origin ρ))) := by
    apply instantiateWith_mapVariables
      (κ := Variable.kinding t.occurrences) _ hShaped
    · intro w hw
      rcases hMember w hw with ⟨v, hv, rfl⟩
      rw [hOrigin v hv]
      exact le_refl v.kind
    · intro w hw
      rcases hMember w hw with ⟨v, hv, rfl⟩
      rw [hOrigin v hv]
      exact Variable.atKinds_kinding ht.oneKind v hv
    · intro w hw
      rcases hMember w hw with ⟨v, hv, rfl⟩
      rw [hOrigin v hv]
      exact Or.inl (get?_retracing hSep hv)
  rw [hInstance, hOld]

/-
  Renaming a term always succeeds and gives every variable a
  name that is not avoided, different names for different ones,
  and leaves its kind and everything else as it is.  If the
  names of the term itself are avoided, matching the renamed
  term with the original traces every variable back, and
  instantiating the renamed term so gives the original.
-/
theorem rename_variant
    (ht : t.WellFormed)
    (avoid : List String)
    (supply : String → NameSupply) :
    ∃ ρ : String → String,
      Renames ρ t.occurrences avoid ∧
        t.instantiateWith .exact
            (t.renamingBindings avoid supply) =
          .ok (some (t.rename avoid supply)) ∧
        t.rename avoid supply =
          t.mapVariables (Variable.renamed ρ) ∧
        (t.rename avoid supply).kind = t.kind ∧
        (t.names ⊆ avoid →
          (t.rename avoid supply).matchWith? t =
              some (retracing ρ t) ∧
            (t.rename avoid supply).instantiate
                (retracing ρ t) =
              .ok (some t)) := by
  rcases exists_renaming t avoid supply with ⟨ρ, hEntries, hρ⟩
  have hInstance := instantiate_renaming ht hρ
  rw [← hEntries] at hInstance
  have hRename :
      t.rename avoid supply =
        t.mapVariables (Variable.renamed ρ) := by
    rw [rename, hInstance]
  refine ⟨ρ, hρ, ?_, hRename, ?_, ?_⟩
  · rw [hRename]
    exact hInstance
  · rw [hRename]
    cases t <;> rfl
  · intro hNames
    have hSep : Separates ρ t.occurrences := by
      apply Separates.of_renames hρ _ ht.oneKind
      intro v hv
      exact hNames ((Variable.mem_names _ _).mpr ⟨v, hv, rfl⟩)
    rw [hRename, matchWith?, unify_renamed ht hSep]
    exact ⟨rfl, instantiate_retracing ht hSep⟩

/- A value snak with a variable that occurs twice. -/
def pairedBounds : Term :=
  .app .valueSnak
    [some (.var ⟨"p0", .property⟩),
      some
        (.app .quantity
          [some (.var ⟨"p1", .quantity⟩), none,
            some (.var ⟨"q", .quantity⟩),
            some (.var ⟨"q", .quantity⟩)])]

/- A name that is taken, twice, and then numbered ones. -/
def numberedNames (name : String) : NameSupply :=
  ⟨["p1", "p1"], name⟩

theorem rename_variant_pairedBounds :
    pairedBounds.WellFormed ∧
      pairedBounds.names = ["p0", "p1", "q"] ∧
      ∃ ρ : String → String,
        Renames ρ pairedBounds.occurrences ["p0", "p1", "q"] ∧
          (pairedBounds.rename ["p0", "p1", "q"]
              numberedNames).instantiate
              (retracing ρ pairedBounds) =
            .ok (some pairedBounds) := by
  have hFormed : pairedBounds.WellFormed := by
    decide
  have hNames : pairedBounds.names = ["p0", "p1", "q"] := by
    decide
  rcases rename_variant hFormed ["p0", "p1", "q"] numberedNames with
    ⟨ρ, hρ, _, _, _, hMatch⟩
  exact
    ⟨hFormed, hNames, ρ, hρ, (hMatch (by rw [hNames]; simp)).2⟩

end Term

end StatementQuery
