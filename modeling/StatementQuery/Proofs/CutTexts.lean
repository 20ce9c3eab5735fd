import Mathlib.Data.List.Infix
import StatementQuery.Text.Split

/-
  The parts of texts that are cut.

  A text is cut at its first separator, at its last one, before
  its last character or after its start.  Where a cut is made,
  the text is its parts put together again, and no part that is
  searched for a separator has one.

  Main declarations:
    * `Text.splitFirst_eq_some_iff`
    * `Text.splitLast_eq_none_iff`
    * `Text.splitLast_append`
    * `Text.dropLast?_eq_some_iff`
    * `Text.notMem_of_mem_linesFrom`
-/

------------------------------------------------------------
-- Separators
------------------------------------------------------------

namespace StatementQuery

namespace Text

/- A text is cut at its first separator. -/
theorem splitFirst_append
    {sep : Char}
    {lead : List Char}
    (h : sep ∉ lead)
    (trail : List Char) :
    splitFirst sep (lead ++ sep :: trail) =
      some (lead, trail) := by
  induction lead with
  | nil => simp [splitFirst]
  | cons c lead ih =>
      have hHead : c ≠ sep := by
        rintro rfl
        exact h (by simp)
      have hTail : sep ∉ lead := fun hMem => h (by simp [hMem])
      simp [splitFirst, hHead, ih hTail]

/- A text without separator is not cut. -/
theorem splitFirst_of_notMem
    {sep : Char}
    {cs : List Char}
    (h : sep ∉ cs) :
    splitFirst sep cs = none := by
  induction cs with
  | nil => rfl
  | cons c cs ih =>
      have hHead : c ≠ sep := by
        rintro rfl
        exact h (by simp)
      have hTail : sep ∉ cs := fun hMem => h (by simp [hMem])
      simp [splitFirst, hHead, ih hTail]

/- The parts of a cut text are before and after a separator. -/
theorem splitFirst_eq_some_iff
    {sep : Char}
    {cs lead trail : List Char} :
    splitFirst sep cs = some (lead, trail) ↔
      cs = lead ++ sep :: trail ∧ sep ∉ lead := by
  constructor
  · intro h
    induction cs generalizing lead with
    | nil => cases h
    | cons c cs ih =>
        unfold splitFirst at h
        split at h
        next hSep =>
          cases h
          simp [hSep]
        next hSep =>
          rcases Option.map_eq_some_iff.mp h with
            ⟨⟨l, r⟩, hSplit, hEq⟩
          cases hEq
          rcases ih hSplit with ⟨rfl, hNot⟩
          refine ⟨rfl, ?_⟩
          simpa [Ne.symm hSep] using hNot
  · rintro ⟨rfl, hNot⟩
    exact splitFirst_append hNot trail

/- Two texts are the same around their first separators. -/
theorem append_cons_inj
    {sep : Char}
    {lead lead' trail trail' : List Char}
    (h : sep ∉ lead)
    (h' : sep ∉ lead')
    (hEq : lead ++ sep :: trail = lead' ++ sep :: trail') :
    lead = lead' ∧ trail = trail' := by
  have hSplit := splitFirst_append h trail
  rw [hEq, splitFirst_append h' trail'] at hSplit
  exact Prod.mk.inj (Option.some.inj hSplit.symm)

/- A text is not cut where no character is a separator. -/
theorem splitLast_eq_none_iff
    {p : Char → Bool}
    {cs : List Char} :
    splitLast p cs = none ↔ ∀ c ∈ cs, p c = false := by
  induction cs with
  | nil => simp [splitLast]
  | cons c cs ih =>
      unfold splitLast
      cases hSplit : splitLast p cs with
      | none =>
          have hRest := ih.mp hSplit
          cases hSep : p c with
          | true => simp [hSep]
          | false => simpa [hSep] using hRest
      | some parts =>
          have hRest : ¬ ∀ d ∈ cs, p d = false := fun h => by
            rw [ih.mpr h] at hSplit
            cases hSplit
          simp only [List.forall_mem_cons, hRest, and_false,
            iff_false]
          simp

/- A text is cut at its last separator. -/
theorem splitLast_append
    {p : Char → Bool}
    (lead : List Char)
    {sep : Char}
    (hSep : p sep = true)
    {trail : List Char}
    (h : ∀ c ∈ trail, p c = false) :
    splitLast p (lead ++ sep :: trail) =
      some (lead, sep, trail) := by
  induction lead with
  | nil =>
      simp [splitLast, splitLast_eq_none_iff.mpr h, hSep]
  | cons c lead ih => simp [splitLast, ih]

/- The parts of a text around its last separator. -/
theorem eq_append_of_splitLast
    {p : Char → Bool}
    {cs lead trail : List Char}
    {sep : Char}
    (h : splitLast p cs = some (lead, sep, trail)) :
    cs = lead ++ sep :: trail ∧ p sep = true := by
  induction cs generalizing lead with
  | nil => cases h
  | cons c cs ih =>
      unfold splitLast at h
      split at h
      next l d r hSplit =>
        cases h
        rcases ih hSplit with ⟨rfl, hSep⟩
        exact ⟨rfl, hSep⟩
      next =>
        split at h
        next hSep =>
          cases h
          exact ⟨rfl, hSep⟩
        next => cases h

end Text

end StatementQuery

------------------------------------------------------------
-- Starts And Ends
------------------------------------------------------------

namespace StatementQuery

namespace Text

/- The last character is dropped where it is the given one. -/
theorem dropLast?_append
    (last : Char)
    (cs : List Char) :
    dropLast? last (cs ++ [last]) = some cs := by
  simp [dropLast?]

/- The text before a dropped last character. -/
theorem dropLast?_eq_some_iff
    {last : Char}
    {cs lead : List Char} :
    dropLast? last cs = some lead ↔ cs = lead ++ [last] := by
  constructor
  · intro h
    unfold dropLast? at h
    split at h
    next hLast =>
      cases h
      exact (List.dropLast_append_getLast? last hLast).symm
    next => cases h
  · rintro rfl
    exact dropLast?_append last lead

/- What stands after a start is found again. -/
theorem afterStart?_append
    (start cs : List Char) :
    afterStart? start (start ++ cs) = some cs := by
  induction start with
  | nil => rfl
  | cons c start ih => simp [afterStart?, ih]

/- A text is its start and what comes after it. -/
theorem eq_append_of_afterStart?
    {start cs rest : List Char}
    (h : afterStart? start cs = some rest) :
    cs = start ++ rest := by
  fun_induction afterStart? start cs with
  | case1 cs => simpa using h
  | case2 => cases h
  | case3 as c cs ih => simp [ih h]
  | case4 => cases h

end Text

end StatementQuery

------------------------------------------------------------
-- Lines
------------------------------------------------------------

namespace StatementQuery

namespace Text

theorem mem_of_mem_chomp
    {c : Char}
    {line : List Char}
    (h : c ∈ chomp line) :
    c ∈ line := by
  unfold chomp dropLast? at h
  split at h
  · exact List.mem_of_mem_dropLast h
  · exact h

/- A line that is started without a line feed ends without one. -/
theorem notMem_of_mem_linesFrom
    {cs start line : List Char}
    (hStart : '\n' ∉ start)
    (h : line ∈ linesFrom start cs) :
    '\n' ∉ line := by
  induction cs generalizing start with
  | nil =>
      unfold linesFrom at h
      split at h
      · cases h
      · cases List.mem_singleton.mp h
        exact hStart
  | cons c cs ih =>
      unfold linesFrom at h
      split at h
      · rcases List.mem_cons.mp h with rfl | h
        · exact fun hFeed => hStart (mem_of_mem_chomp hFeed)
        · exact ih (by simp) h
      · rename_i hc
        exact ih (by simp [hStart, Ne.symm hc]) h

end Text

end StatementQuery
