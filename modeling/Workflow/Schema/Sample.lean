import Workflow.Schema.Basic

/-!
# A sample registry

Schemas of a few small providers, for trying out graphs: `flux` generates,
`blur` and `composite` transform, `describe` looks at images and `writer`
writes.
-/

namespace Workflow.Registry

/-- The bounds of a number, given as whole numbers. -/
def ranged (type : ParamType) (minimum maximum : Int) : ParamSpec :=
  { type, minimum := Double.ofInt? minimum, maximum := Double.ofInt? maximum }

/-- The sample registry. -/
def sample : Registry :=
  ofSchemas [
    ({ name := "flux", kind := some .generate } : ProviderSchema)
      |>.declare "prompt" { type := .string, required := true }
      |>.declare "width" (ranged .integer 64 2048)
      |>.declare "height" (ranged .integer 64 2048)
      |>.declare "seed" { type := .integer }
      |>.declare "referenceImages" { type := .array },
    ({ name := "blur", kind := some .transform } : ProviderSchema)
      |>.declare "radius" { ranged .number 0 100 with required := true },
    ({ name := "composite", kind := some .transform } : ProviderSchema)
      |>.declare "overlays" { type := .array, required := true }
      |>.declare "blendMode"
        { type := .string, allowed := some ["normal", "multiply", "screen"] },
    ({ name := "describe", kind := some .vision } : ProviderSchema)
      |>.declare "prompt" { type := .string },
    ({ name := "writer", kind := some .text } : ProviderSchema)
      |>.declare "prompt" { type := .string, required := true }
      |>.declare "temperature" (ranged .number 0 2)]

end Workflow.Registry
