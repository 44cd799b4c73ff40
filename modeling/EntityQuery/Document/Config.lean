import EntityQuery.Json.Decode
import EntityQuery.Json.Reader
import EntityQuery.Plan.Config

/-!
# Documents of settings

Settings are a record of which every field may be missing. What is missing has its default.
-/

namespace EntityQuery.Config

/-- The document of settings. -/
def toJson (c : Config) : Json :=
  .object [("max_depth", Json.ofNat c.maxDepth), ("parameter_prefix", .string c.parameterPrefix),
    ("reserved_parameters", Json.ofList .string c.reservedParameters),
    ("alias_suffix", .string c.aliasSuffix), ("root_alias", Json.ofOption .string c.rootAlias?),
    ("max_page_size", Json.ofOption Json.ofNat c.maxPageSize?),
    ("max_expand_depth", Json.ofNat c.maxExpandDepth)]

/-- The settings that a document holds. -/
def ofJson? : Json.Decoder Config := fun json =>
  match Json.asRecord ["max_depth", "parameter_prefix", "reserved_parameters", "alias_suffix",
    "root_alias", "max_page_size", "max_expand_depth"] json with
  | some [maxDepth, parameterPrefix, reserved, aliasSuffix, rootAlias, maxPageSize,
      maxExpandDepth] => do
    let maxDepth ← Json.withDefault default.maxDepth Json.asNat64 maxDepth
    let parameterPrefix ← Json.withDefault default.parameterPrefix Json.asString parameterPrefix
    let reserved ← Json.withDefault [] (Json.asList Json.asString) reserved
    let aliasSuffix ← Json.withDefault default.aliasSuffix Json.asString aliasSuffix
    let rootAlias? ← Json.withDefault none (Json.asOption Json.asString) rootAlias
    let maxPageSize? ← Json.withDefault none (Json.asOption Json.asNat64) maxPageSize
    let maxExpandDepth ← Json.withDefault default.maxExpandDepth Json.asNat64 maxExpandDepth
    return { maxDepth, parameterPrefix, aliasSuffix, rootAlias?, maxPageSize?, maxExpandDepth,
             reservedParameters := reserved.foldl (fun names name => insertName name names) [] }
  | _ => none

/-- The settings that a text holds as JSON. -/
def ofText? (text : String) : Option Config := (Json.read? text).bind ofJson?

end EntityQuery.Config
