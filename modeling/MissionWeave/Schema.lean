import MissionWeave.Json.Parse

/-!
# `SchemaCatalog`

The catalog compiles the embedded JSON Schemas and asks jsoncons for a
verdict.  The validator is a parameter of the model, `Validate`: it takes the
name of a schema and an instance, and it may throw.

What the codecs rely on is `DependsOnData`: the verdict on an instance is a
matter of its JSON data.  `DependsOnNarrowData` relies on that only for instances
that hold no wide integer, which jsoncons also takes for a string.
-/

namespace MissionWeave

structure ValidationIssue where
  keyword : String
  instanceLocation : String
  schemaLocation : String
  message : String

structure ValidationResult where
  valid : Bool
  issue : Option ValidationIssue

/-- `SchemaCatalog::validate`. -/
abbrev Validate := String → Json → Except Thrown ValidationResult

/-- The catalog finds the instance valid. -/
def Validates (validate : Validate) (schemaName : String) (document : Json) : Prop :=
  ∃ result, validate schemaName document = .ok result ∧ result.valid = true

/-- The verdict on an instance is a matter of its JSON data. -/
def DependsOnData (validate : Validate) : Prop :=
  ∀ schemaName v w, Json.SameData v w →
    Validates validate schemaName v → Validates validate schemaName w

/-- The verdict is a matter of the data among instances without wide integers. -/
def DependsOnNarrowData (validate : Validate) : Prop :=
  ∀ schemaName v w, Json.SameNarrowData v w →
    Validates validate schemaName v → Validates validate schemaName w

theorem DependsOnData.narrow {validate : Validate} (h : DependsOnData validate) :
    DependsOnNarrowData validate := fun schemaName v w hsame => h schemaName v w hsame.sameData

/-- A catalog that finds every instance valid. -/
def acceptAll : Validate := fun _ _ => .ok ⟨true, none⟩

theorem dependsOnData_acceptAll : DependsOnData acceptAll :=
  fun _ _ _ _ _ => ⟨_, rfl, rfl⟩

end MissionWeave
