/-
What a caller can ask for.  Only the swizzle overrides, the sampler overrides and whether the length of
the code is known have a say in how code is read; the rest changes the text that is written.
-/
import ShaderLift.Semantic
import ShaderLift.Swizzle

namespace ShaderLift

/-- Inputs with this meaning have their components exchanged: reads of component `i` are turned to
component `swizzle i`. -/
structure SwizzleOverride where
  usage : Usage
  index : Nat
  /-- The numbers given, of which the lower two bits count. -/
  swizzle : Nat × Nat × Nat × Nat
  deriving Repr, DecidableEq

/-- The component that reads of `l` are turned to. -/
def SwizzleOverride.lane (o : SwizzleOverride) (l : Lane) : Lane :=
  match l with
  | .x => .ofIndex o.swizzle.1
  | .y => .ofIndex o.swizzle.2.1
  | .z => .ofIndex o.swizzle.2.2.1
  | .w => .ofIndex o.swizzle.2.2.2

/-- The texture of a sampler, whatever the code says; it may be made unknown. -/
structure SamplerOverride where
  index : Nat
  kind : Option TextureKind
  deriving Repr, DecidableEq

structure Options where
  /-- The name of the entry point; an empty name stands for `main`. -/
  mainName : String := "main"
  swizzles : List SwizzleOverride := []
  samplers : List SamplerOverride := []
  /-- Whether the vertical axis is flipped by a uniform. -/
  flipRenderTarget : Bool := false
  /-- Whether depth is mapped to the range of the target. -/
  depthClipping : Bool := false
  /-- Whether the code given is all of the shader, so that its end has to come last. -/
  knownSize : Bool := true
  filename : Option String := none
  deriving Repr, DecidableEq

def Options.entryPoint (o : Options) : String :=
  if o.mainName = "" then "main" else o.mainName

end ShaderLift
