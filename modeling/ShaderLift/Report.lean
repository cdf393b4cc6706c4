/-
The report on a lifted shader: all that the host has to know, the faults and the text of the program.
-/
import ShaderLift.Lifted
import ShaderLift.Text.Json

namespace ShaderLift.Report

def kindName : ConstantKind → String
  | .float => "float4"
  | .int => "int4"
  | .bool => "bool"

def stageName : Option Stage → String
  | some .vertex => "vertex"
  | some .pixel => "pixel"
  | none => "unknown"

def ofUniform (u : Uniform) : Json :=
  .object [
    ("name", .string u.name),
    ("kind", .string (kindName u.kind)),
    ("index", .number u.index),
    ("arrayCount", .number u.arrayCount),
    ("constant", .bool u.constant)]

def ofConstant (c : Constant) : Json :=
  .object [
    ("kind", .string (kindName c.kind)),
    ("index", .number c.index),
    ("raw", .array (c.value.toList.map fun w => .number w.toNat))]

def ofSampler (s : SamplerBinding) : Json :=
  .object [
    ("name", .string s.name),
    ("index", .number s.index),
    ("kind", .string (TextureKind.reportName s.kind)),
    ("texbem", .bool s.bump)]

def ofAttribute (a : AttributeBinding) : Json :=
  .object [
    ("name", .string a.name),
    ("usage", .string a.usage.text),
    ("index", .number a.index)]

def ofSymbol (s : Symbol) : Json :=
  .object [
    ("name", .string s.name),
    ("registerSet", .string s.registerSet.reportName),
    ("registerIndex", .number s.registerIndex),
    ("registerCount", .number s.registerCount)]

def ofLifted (l : Lifted) : Json :=
  .object [
    ("profile", .string l.profile.name),
    ("shaderType", .string (stageName l.stage)),
    ("version", .string s!"{l.version.major}.{l.version.minor}"),
    ("instructionCount", .number l.instructionCount),
    ("mainFn", .string l.mainName),
    ("uniforms", .array (l.uniforms.map ofUniform)),
    ("constants", .array (l.constants.map ofConstant)),
    ("samplers", .array (l.samplers.map ofSampler)),
    ("attributes", .array (l.attributes.map ofAttribute)),
    ("outputs", .array (l.outputs.map ofAttribute)),
    ("symbols", .array (l.symbols.map ofSymbol)),
    ("preshaderInstructions", .ofOption (fun p => .number p.instructions.length) l.preshader),
    ("errors", .array (l.errors.map fun d => .string d.text)),
    ("glsl", if l.isOk then .string l.output else .null)]

end ShaderLift.Report
