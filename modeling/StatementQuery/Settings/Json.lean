import StatementQuery.Json.Reader
import StatementQuery.Settings.Options

/-
  Settings as JSON texts.

  Key definitions include:
    * `Options.ofJson`
    * `Options.toJson`
    * `WikidataConfig.ofJson`
    * `WikidataConfig.toJson`
-/

------------------------------------------------------------
-- Values Of Fields
------------------------------------------------------------

namespace StatementQuery

namespace JsonScalar

/- A truth value. -/
def toBool? : JsonScalar → Option Bool
| .bool b => some b
| _ => none

/- A string. -/
def toText? : JsonScalar → Option String
| .text s => some s
| _ => none

/- A number of 64 bits. -/
def toWord? : JsonScalar → Option UInt64
| .number n =>
    (n.natural?.filter (· < UInt64.size)).map UInt64.ofNat
| _ => none

/- A number of 64 bits, or null for none. -/
def toOptionalWord? : JsonScalar → Option (Option UInt64)
| .null => some none
| value => value.toWord?.map some

end JsonScalar

/- The text of an object, from the texts of its values. -/
def renderObject (fields : List (String × String)) : String :=
  "".push '{' ++
    String.intercalate ","
      (fields.map fun (name, value) =>
        JsonText.quote name ++ ":" ++ value) ++
    "".push '}'

/- The text of a truth value. -/
def renderBool (b : Bool) : String :=
  if b then "true" else "false"

end StatementQuery

------------------------------------------------------------
-- Settings Of The Compiler
------------------------------------------------------------

namespace StatementQuery

namespace Options

/- The fields of the settings, in order. -/
def fields : List (JsonField Options) :=
  [⟨"limit", fun v o =>
      v.toOptionalWord?.map fun limit => { o with limit }⟩,
    ⟨"distinct", fun v o =>
      v.toBool?.map fun distinct => { o with distinct }⟩,
    ⟨"debug_comments", fun v o =>
      v.toBool?.map fun debugComments => { o with debugComments }⟩,
    ⟨"default_language", fun v o =>
      v.toText?.map fun defaultLanguage =>
        { o with defaultLanguage }⟩,
    ⟨"branch_variable", fun v o =>
      v.toText?.map fun branchVariable =>
        { o with branchVariable }⟩]

/- The settings that a text gives. -/
def ofJson (text : String) : Except JsonError Options :=
  JsonReader.read fields {} text

/- The text of settings. -/
def toJson (o : Options) : String :=
  renderObject
    [("limit",
        match o.limit with
        | some n => n.toNat.repr
        | none => "null"),
      ("distinct", renderBool o.distinct),
      ("debug_comments", renderBool o.debugComments),
      ("default_language", JsonText.quote o.defaultLanguage),
      ("branch_variable", JsonText.quote o.branchVariable)]

end Options

end StatementQuery

------------------------------------------------------------
-- Settings Of The Wikidata Mapping
------------------------------------------------------------

namespace StatementQuery

namespace WikidataConfig

/- The fields of the settings, in order. -/
def fields : List (JsonField WikidataConfig) :=
  [⟨"entity_prefix", fun v c =>
      v.toText?.map fun entityNamespace =>
        { c with entityNamespace }⟩,
    ⟨"prop_prefix", fun v c =>
      v.toText?.map fun propertyNamespace =>
        { c with propertyNamespace }⟩]

/- The settings that a text gives. -/
def ofJson (text : String) : Except JsonError WikidataConfig :=
  JsonReader.read fields {} text

/- The text of settings. -/
def toJson (c : WikidataConfig) : String :=
  renderObject
    [("entity_prefix", JsonText.quote c.entityNamespace),
      ("prop_prefix", JsonText.quote c.propertyNamespace)]

end WikidataConfig

end StatementQuery
