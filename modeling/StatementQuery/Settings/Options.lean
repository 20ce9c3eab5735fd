/-
  Settings of the compiler and of the Wikidata mapping.

  Key definitions include:
    * `Options`
    * `WikidataConfig`
-/

------------------------------------------------------------
-- Settings
------------------------------------------------------------

namespace StatementQuery

/- Settings of the compiler. -/
structure Options where
  /- The most rows a query may return. -/
  limit : Option UInt64 := none
  /- Whether a query returns each row once. -/
  distinct : Bool := false
  /- Whether each branch starts with a comment. -/
  debugComments : Bool := false
  /- The language of text that comes without one. -/
  defaultLanguage : String := "en"
  /- The variable that holds the index of the branch. -/
  branchVariable : String := "branch"
deriving DecidableEq

/- Where the Wikidata mapping finds entities and properties. -/
structure WikidataConfig where
  entityNamespace : String := "http://www.wikidata.org/entity/"
  propertyNamespace : String := "http://www.wikidata.org/prop/"
deriving DecidableEq

end StatementQuery
