/-!
# Kinds of documents

Each kind has a name for messages and a list of its top-level fields.
-/

set_option autoImplicit false

namespace PlanWire

inductive DocumentKind where
  | plan
  | state
  | providerSchemas
  | metadataFunctions
  | validationReport
  | versionReport
  deriving DecidableEq

def DocumentKind.name : DocumentKind → String
  | .plan => "plan"
  | .state => "state"
  | .providerSchemas => "provider schemas"
  | .metadataFunctions => "metadata functions"
  | .validationReport => "validate output"
  | .versionReport => "version output"

/-- The top-level fields of a kind. A strict reading allows no others. -/
def DocumentKind.fieldNames : DocumentKind → List String
  | .plan => ["format_version", "terraform_version", "variables", "planned_values",
      "resource_drift", "resource_changes", "output_changes", "prior_state", "configuration",
      "relevant_attributes", "checks", "timestamp", "errored", "applyable", "complete"]
  | .state => ["format_version", "terraform_version", "values", "checks"]
  | .providerSchemas => ["format_version", "provider_schemas"]
  | .metadataFunctions => ["format_version", "function_signatures"]
  | .validationReport =>
    ["format_version", "valid", "error_count", "warning_count", "diagnostics"]
  | .versionReport =>
    ["terraform_version", "terraform_revision", "platform", "provider_selections",
      "terraform_outdated"]

end PlanWire
