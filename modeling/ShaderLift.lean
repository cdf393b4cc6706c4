import ShaderLift.Main
import ShaderLift.Proofs.Dialects
import ShaderLift.Proofs.Stages
import ShaderLift.Proofs.Overrides
import ShaderLift.Proofs.Pairing
import ShaderLift.Proofs.Wishes
import ShaderLift.Proofs.InRange
import ShaderLift.Proofs.CommandOutcome
import ShaderLift.Proofs.Positions
import ShaderLift.Proofs.FixedFunction
import ShaderLift.Proofs.Preshader.Encoding
import ShaderLift.Proofs.Preshader.OutputMap
import ShaderLift.Proofs.MatrixRows
import ShaderLift.Proofs.Choices
import ShaderLift.Proofs.Components
import ShaderLift.Proofs.SamplerDeclarations
import ShaderLift.Proofs.Scopes
import ShaderLift.Proofs.TypeSizes
import ShaderLift.Proofs.Colors
import ShaderLift.Proofs.Histories
import ShaderLift.Proofs.Literals
