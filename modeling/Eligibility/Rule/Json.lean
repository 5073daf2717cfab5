import Eligibility.Formula.Json
import Eligibility.Rule.Basic

/-!
# Rules in JSON

A rule is a record of `id`, `rule_text`, `ast`, `is_combined`, `sequence_number` and `source_ids`.
The number may be `null` or missing, and no sources are written as no field.

## Main definitions

* `Rule.toJson`, `Rule.ofJson?` — rules as documents.
-/

set_option relaxedAutoImplicit false
set_option autoImplicit false

namespace Eligibility

namespace Rule

/-- A rule as a document. -/
def toJson (r : Rule) : Json :=
  .object <|
    [("id", .ofNat r.id), ("rule_text", .string r.text), ("ast", r.formula.toJson),
      ("is_combined", .bool (r.kind == .combined)),
      ("sequence_number", r.number.elim .null .ofNat)] ++
    (if r.sources.isEmpty then [] else [("source_ids", .array (r.sources.map .ofNat))])

/-- The number that a field holds, which may be `null`. -/
def numberOf? : Json → Option (Option Nat)
  | .null => some none
  | v => v.natural?.map some

/-- The ids that a field holds. -/
def idsOf? : Json → Option (List Nat)
  | .array items => items.mapM Json.natural?
  | _ => none

/-- The rule with the given fields. -/
def ofFields? : List (Option Json) → Option Rule
  | [some id, some (.string text), some ast, some (.bool combined), number, sources] => do
    let draft : Draft :=
      ⟨text, ← Formula.ofJson? ast, if combined then .combined else .base,
        ← numberOf? (number.getD .null), ← idsOf? (sources.getD (.array []))⟩
    return ⟨draft, ← id.natural?⟩
  | _ => none

/-- The rule that a document stands for. -/
def ofJson? (v : Json) : Option Rule := do
  let fields ← (← v.record?).fields?
    ["id", "rule_text", "ast", "is_combined", "sequence_number", "source_ids"] 5
  ofFields? fields

end Rule

end Eligibility
