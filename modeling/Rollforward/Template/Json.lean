import Rollforward.Json.Field
import Rollforward.Json.Quantity
import Rollforward.Json.Reader
import Rollforward.Json.Writer
import Rollforward.Template.Basic

/-!
# `Rollforward.Template.Json`: templates in JSON

Each field is written under the first of its names and read under any of them.
-/

set_option autoImplicit false

namespace Rollforward

open Json (orDefault required nullable toText? toName? toList? partsOf)

namespace RuleKind

/-- The kind as a value. -/
def toJson (k : RuleKind) : Json := .text k.name

/-- The kind of a value. -/
def ofJson? (v : Json) : Option RuleKind := (toName? v).bind ofName?

end RuleKind

namespace Severity

/-- The severity as a value. -/
def toJson (s : Severity) : Json := .text s.name

/-- The severity of a value. -/
def ofJson? (v : Json) : Option Severity := (toName? v).bind ofName?

end Severity

namespace Rule

/-- The names of the fields of a rule. -/
def fields : List Json.FieldNames :=
  [["id", "rule_id"], ["formula", "rule"], ["kind", "rule_type"], ["tolerance"], ["severity"],
    ["message"], ["required_items", "required_line_items"]]

/-- The rule as a value. -/
def toJson (r : Rule) : Json :=
  .record [("id", .text r.id), ("formula", .text r.formula), ("kind", r.kind.toJson),
    ("tolerance", .optional .float r.tolerance), ("severity", r.severity.toJson),
    ("message", .text r.message), ("required_items", .array (r.requiredItems.map .text))]

/-- The rule of a value. -/
def ofJson? (v : Json) : Option Rule :=
  match partsOf fields v with
  | some [id, formula, kind, tolerance, severity, message, requiredItems] => do
    return {
      id := ← required toText? id
      formula := ← required toText? formula
      kind := ← orDefault RuleKind.ofJson? .assertion kind
      tolerance := ← orDefault (nullable Json.toFloat?) none tolerance
      severity := ← orDefault Severity.ofJson? .error severity
      message := ← orDefault toText? "" message
      requiredItems := ← orDefault (toList? toText?) [] requiredItems }
  | _ => none

end Rule

namespace LineItem

/-- The names of the fields of an item. -/
def fields : List Json.FieldNames :=
  [["code"], ["display_name"], ["category"], ["formula"],
    ["raw_input_reference", "base_value_source"]]

/-- The item as a value. -/
def toJson (i : LineItem) : Json :=
  .record [("code", .text i.code), ("display_name", .optional .text i.displayName),
    ("category", .optional .text i.category), ("formula", .optional .text i.formula),
    ("raw_input_reference", .optional .text i.rawReference)]

/-- The item of a value. -/
def ofJson? (v : Json) : Option LineItem :=
  match partsOf fields v with
  | some [code, displayName, category, formula, rawReference] => do
    return {
      code := ← required toText? code
      displayName := ← orDefault (nullable toText?) none displayName
      category := ← orDefault (nullable toText?) none category
      formula := ← orDefault (nullable toText?) none formula
      rawReference := ← orDefault (nullable toText?) none rawReference }
  | _ => none

end LineItem

namespace Template

/-- The names of the fields of a template. -/
def fields : List Json.FieldNames :=
  [["code", "template_code"], ["line_items"], ["validation_rules"]]

/-- The template as a value. -/
def toJson (t : Template) : Json :=
  .record [("code", .text t.code), ("line_items", .array (t.items.map LineItem.toJson)),
    ("validation_rules", .array (t.rules.map Rule.toJson))]

/-- The template of a value. -/
def ofJson? (v : Json) : Option Template :=
  match partsOf fields v with
  | some [code, items, rules] => do
    return {
      code := ← orDefault toText? "" code
      items := ← required (toList? LineItem.ofJson?) items
      rules := ← orDefault (toList? Rule.ofJson?) [] rules }
  | _ => none

/-- The template that a text writes. -/
def read? (s : String) : Option Template := (Json.read s).bind ofJson?

/-- The template as text. -/
def write (t : Template) : String := t.toJson.toText

end Template

end Rollforward
