import StatementQuery.Proofs.Numerals
import StatementQuery.Query.Node

/-
  The value of a literal does not leave its quotes.

  A string token starts at a double quote and ends at the next one
  that is not escaped.  Between the two, quotes, backslashes and
  line breaks are written with a backslash, and all else may stand
  for itself.  The text of a literal, followed by any text at all,
  starts with the token that its quotes enclose, and the value of
  the token is that of the literal.

  Key definitions include:
    * `StringToken`
    * `StringToken.Body`
    * `StringToken.read?`

  Main declarations:
    * `StringToken.read?_eq_some_iff`
    * `Literal.body_escape`
    * `Literal.value_eq_of_renderQuoted_append`
    * `Node.literal_confined`
-/

------------------------------------------------------------
-- String Tokens
------------------------------------------------------------

namespace StatementQuery

/-
  A string at the start of a text: what is written between its
  quotes, what that stands for, and what follows.
-/
structure StringToken where
  body : List Char
  value : List Char
  rest : List Char
deriving DecidableEq

namespace StringToken

/- A token with its quotes. -/
def text (t : StringToken) : List Char :=
  '"' :: t.body ++ ['"']

/- The character that a letter stands for after a backslash. -/
def escaped? : Char → Option Char
| '\\' => some '\\'
| '"' => some '"'
| 'n' => some '\n'
| 'r' => some '\r'
| 't' => some '\t'
| _ => none

/- The characters that do not stand for themselves. -/
def special : List Char :=
  ['"', '\\', '\n', '\r']

/- A character, and how it is written between quotes. -/
inductive Written : List Char → Char → Prop
| plain {c : Char} (h : c ∉ special) : Written [c] c
| escape {letter c : Char} (h : escaped? letter = some c) :
    Written ['\\', letter] c

/- A text between quotes, and what it stands for. -/
inductive Body : List Char → List Char → Prop
| nil : Body [] []
| cons {unit body value : List Char} {c : Char} :
    Written unit c → Body body value →
      Body (unit ++ body) (c :: value)

/- Put a character in front, as it is written. -/
def push (unit : List Char) (c : Char) (t : StringToken) :
    StringToken :=
  ⟨unit ++ t.body, c :: t.value, t.rest⟩

/- Read a string, from after its opening quote. -/
def scan? : List Char → Option StringToken
| [] => none
| '"' :: cs => some ⟨[], [], cs⟩
| '\\' :: letter :: cs =>
    match escaped? letter with
    | some c => (scan? cs).map (push ['\\', letter] c)
    | none => none
| c :: cs =>
    if c ∈ special then none
    else (scan? cs).map (push [c] c)

/- Read a string, from its opening quote. -/
def read? : List Char → Option StringToken
| '"' :: cs => scan? cs
| _ => none

end StringToken

end StatementQuery

------------------------------------------------------------
-- Reading String Tokens
------------------------------------------------------------

namespace StatementQuery

namespace StringToken

/- One character is read as it is written. -/
theorem scan?_written
    {unit : List Char}
    {c : Char}
    (h : Written unit c)
    (cs : List Char) :
    scan? (unit ++ cs) = (scan? cs).map (push unit c) := by
  cases h with
  | plain hPlain =>
      have hQuote : c ≠ '"' := by
        rintro rfl
        exact hPlain (by decide)
      have hBackslash : c ≠ '\\' := by
        rintro rfl
        exact hPlain (by decide)
      rw [List.singleton_append, scan?, if_neg hPlain]
      · exact hQuote
      · intro _ _ hc
        exact absurd hc hBackslash
  | escape hEscaped =>
      simp [scan?, hEscaped]

/- A body is read up to the quote that follows it. -/
theorem scan?_body
    {body value : List Char}
    (h : Body body value)
    (rest : List Char) :
    scan? (body ++ '"' :: rest) = some ⟨body, value, rest⟩ := by
  induction h with
  | nil => rfl
  | cons hWritten _ ih =>
      rw [List.append_assoc, scan?_written hWritten, ih]
      rfl

/- What is read is a body with a quote after it. -/
theorem eq_of_scan?
    {cs : List Char}
    {t : StringToken}
    (h : scan? cs = some t) :
    cs = t.body ++ '"' :: t.rest ∧ Body t.body t.value := by
  fun_induction scan? cs generalizing t with
  | case1 => cases h
  | case2 cs =>
      cases h
      exact ⟨rfl, .nil⟩
  | case3 letter cs c hEscaped ih =>
      rcases Option.map_eq_some_iff.mp h with ⟨u, hu, rfl⟩
      rcases ih hu with ⟨rfl, hBody⟩
      exact ⟨by simp [push], .cons (.escape hEscaped) hBody⟩
  | case4 => cases h
  | case5 => cases h
  | case6 c cs _ _ hPlain ih =>
      rcases Option.map_eq_some_iff.mp h with ⟨u, hu, rfl⟩
      rcases ih hu with ⟨rfl, hBody⟩
      exact ⟨by simp [push], .cons (.plain hPlain) hBody⟩

/-
  The tokens that are read are those of the grammar, so a text
  starts with one token at most.
-/
theorem read?_eq_some_iff
    {cs : List Char}
    {t : StringToken} :
    read? cs = some t ↔
      cs = t.text ++ t.rest ∧ Body t.body t.value := by
  constructor
  · intro h
    unfold read? at h
    split at h
    · rcases eq_of_scan? h with ⟨rfl, hBody⟩
      exact ⟨by simp [text], hBody⟩
    · cases h
  · rintro ⟨rfl, hBody⟩
    have hScan := scan?_body hBody t.rest
    simpa [text, read?] using hScan

end StringToken

end StatementQuery

------------------------------------------------------------
-- Literals As String Tokens
------------------------------------------------------------

namespace StatementQuery

namespace Literal

open StringToken

/- A character is written so that it is read back. -/
theorem written_escapeChar
    (c : Char) :
    Written (escapeChar c) c := by
  unfold escapeChar
  split_ifs with hBackslash hQuote hFeed hReturn hTab
  · subst hBackslash
    exact .escape rfl
  · subst hQuote
    exact .escape rfl
  · subst hFeed
    exact .escape rfl
  · subst hReturn
    exact .escape rfl
  · subst hTab
    exact .escape rfl
  · exact .plain (by simp [special, *])

/- What is written between the quotes stands for the value. -/
theorem body_escape
    (cs : List Char) :
    Body (escape cs) cs := by
  induction cs with
  | nil => exact .nil
  | cons c cs ih => exact .cons (written_escapeChar c) ih

/- No line ends between the quotes. -/
theorem notMem_escape
    (cs : List Char) :
    '\n' ∉ escape cs := by
  unfold escape
  rw [List.mem_flatMap]
  rintro ⟨c, _, hMem⟩
  unfold escapeChar at hMem
  split_ifs at hMem with _ _ hFeed
  all_goals simp at hMem
  exact hFeed hMem.symm

/- The token of a literal, before any text. -/
def token (l : Literal) (rest : List Char) : StringToken :=
  ⟨escape l.value.toList, l.value.toList, rest⟩

theorem read?_renderQuoted_append
    (l : Literal)
    (rest : List Char) :
    read? (l.renderQuoted ++ rest) = some (l.token rest) :=
  read?_eq_some_iff.mpr ⟨rfl, body_escape l.value.toList⟩

/- Quotes that start one text enclose one value. -/
theorem value_eq_of_renderQuoted_append
    {l m : Literal}
    {rest rest' : List Char}
    (h : l.renderQuoted ++ rest = m.renderQuoted ++ rest') :
    l.value = m.value := by
  have hRead := read?_renderQuoted_append l rest
  rw [h, read?_renderQuoted_append] at hRead
  have hValue : m.value.toList = l.value.toList :=
    congrArg StringToken.value (Option.some.inj hRead)
  exact (String.toList_injective hValue).symm

/- A bare integer is a numeral. -/
theorem exists_readInt?
    {l : Literal}
    (h : l.isBareInteger = true) :
    ∃ n, Numeral.readInt? l.value.toList = some n := by
  simp only [isBareInteger, Bool.and_eq_true,
    Option.isSome_iff_exists] at h
  rcases h with ⟨_, n, hRead⟩
  exact ⟨n, (Option.filter_eq_some_iff.mp hRead).1⟩

/-
  The literals in quotes are those whose text is no integer.
-/
theorem readInt?_renderChars_eq_none_iff
    {l : Literal} :
    Numeral.readInt? l.renderChars = none ↔
      l.renderChars = l.renderQuoted ++ l.renderSuffix := by
  constructor
  · intro h
    have hBare : ¬ l.isBareInteger = true := by
      intro hBare
      rcases exists_readInt? hBare with ⟨n, hn⟩
      rw [renderChars, if_pos hBare, hn] at h
      cases h
    rw [renderChars, if_neg hBare]
  · intro h
    rw [Option.eq_none_iff_forall_ne_some]
    intro n hn
    -- An integer has digits and a sign, and no quote.
    have hQuote : '"' ∈ l.renderChars := by
      simp [h, renderQuoted]
    have hChar := Numeral.of_mem_of_readInt? hn hQuote
    revert hChar
    decide

end Literal

/-
  Unless a literal is written as an integer, its text is read,
  before any other text, as one string: from the opening quote to
  the closing one, with the value of the literal, and what follows
  the closing quote is left.  No other token starts there, and
  literals of other values have other texts in quotes, whatever
  follows them.
-/
theorem Node.literal_confined
    {l : Literal}
    (hQuoted :
      Numeral.readInt? (Node.literal l).render.toList = none) :
    (Node.literal l).render.toList =
        l.renderQuoted ++ l.renderSuffix ∧
      (∀ after : List Char, ∃ t : StringToken,
        StringToken.read? ((Node.literal l).render.toList ++ after) =
            some t ∧
          t.text = l.renderQuoted ∧
          t.value = l.value.toList ∧
          t.rest = l.renderSuffix ++ after ∧
          ∀ u : StringToken, StringToken.Body u.body u.value →
            (Node.literal l).render.toList ++ after =
              u.text ++ u.rest → u = t) ∧
      ∀ (m : Literal) (rest rest' : List Char),
        m.value ≠ l.value →
          m.renderQuoted ++ rest' ≠ l.renderQuoted ++ rest := by
  have hRender :
      (Node.literal l).render.toList =
        l.renderQuoted ++ l.renderSuffix := by
    rw [render, String.toList_ofList] at hQuoted ⊢
    exact Literal.readInt?_renderChars_eq_none_iff.mp hQuoted
  refine ⟨hRender, ?_, ?_⟩
  · intro after
    have hRead :
        StringToken.read?
            ((Node.literal l).render.toList ++ after) =
          some (l.token (l.renderSuffix ++ after)) := by
      rw [hRender, List.append_assoc]
      exact l.read?_renderQuoted_append (l.renderSuffix ++ after)
    refine ⟨_, hRead, rfl, rfl, rfl, ?_⟩
    intro u hBody hText
    have hOther := StringToken.read?_eq_some_iff.mpr ⟨hText, hBody⟩
    exact Option.some.inj (hOther.symm.trans hRead)
  · intro m rest rest' hValue hText
    exact hValue (Literal.value_eq_of_renderQuoted_append hText)

/- An integer with an escaped quote and a line break in it. -/
def Literal.intruder : Literal :=
  ⟨"7\\\" .\n", none, some Xsd.integer⟩

/- What an intruder starts with, up to its quote. -/
def Literal.backslashed : Literal :=
  ⟨"7\\", none, none⟩

theorem Node.literal_confined_intruder :
    Numeral.readInt? (Node.literal .intruder).render.toList = none ∧
      (∃ t : StringToken,
        StringToken.read?
            ((Node.literal .intruder).render.toList ++ ['"']) =
            some t ∧
          t.text = "\"7\\\\\\\" .\\n\"".toList ∧
          t.value = "7\\\" .\n".toList) ∧
      ∀ rest rest' : List Char,
        Literal.backslashed.renderQuoted ++ rest' ≠
          Literal.intruder.renderQuoted ++ rest := by
  have hQuoted :
      Numeral.readInt? (Node.literal .intruder).render.toList =
        none := by
    decide
  rcases Node.literal_confined hQuoted with ⟨_, hRead, hOther⟩
  rcases hRead ['"'] with ⟨t, ht, hText, hValue, _⟩
  refine ⟨hQuoted, ⟨t, ht, ?_, hValue⟩, ?_⟩
  · rw [hText]
    decide
  · intro rest rest'
    exact hOther .backslashed rest rest' (by decide)

end StatementQuery
