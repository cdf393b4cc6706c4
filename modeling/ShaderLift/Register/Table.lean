/-
Tables with one record a register, in the order of the registers.  A record is made when its register
is first mentioned and changed in place afterwards, so the order of a table never depends on the order
in which the registers came up.

A table can be kept under packed registers as well, one word each.  Registers with numbers of more than 16
bits can be packed alike there.
-/
import ShaderLift.Register

namespace ShaderLift

/-- Records of registers, ordered by register. -/
structure RegisterTable (α : Type) where
  entries : List (Register × α) := []
  deriving Repr

namespace RegisterTable

variable {α : Type}

def empty : RegisterTable α := ⟨[]⟩

def find? (t : RegisterTable α) (r : Register) : Option α :=
  (t.entries.find? fun e => e.1 = r).map Prod.snd

def contains (t : RegisterTable α) (r : Register) : Bool :=
  t.entries.any fun e => e.1 = r

def registers (t : RegisterTable α) : List Register :=
  t.entries.map Prod.fst

/-- Changes the record of `r` in a list of entries by `f`; if there is none, one is put at its place,
starting from `fresh`. -/
def updateEntries (r : Register) (fresh : α) (f : α → α) :
    List (Register × α) → List (Register × α)
  | [] => [(r, f fresh)]
  | e :: rest =>
    if e.1 = r then (r, f e.2) :: rest
    else if r.before e.1 then (r, f fresh) :: e :: rest
    else e :: updateEntries r fresh f rest

/-- Changes the record of `r` by `f`, starting from `fresh` if there is none yet. -/
def update (t : RegisterTable α) (r : Register) (fresh : α) (f : α → α) : RegisterTable α :=
  ⟨updateEntries r fresh f t.entries⟩

end RegisterTable

/-- A register in one word, the code of its file above 16 bits for its number. -/
def Register.key (r : Register) : Word := UInt32.ofNat r.file.code <<< 16 ||| UInt32.ofNat r.number

/-- Records by packed register, in the order of the words.  A record comes with the register that it was
made for. -/
structure PackedTable (α : Type) where
  entries : List (Word × Register × α) := []
  deriving Repr

namespace PackedTable

variable {α : Type}

def find? (t : PackedTable α) (r : Register) : Option α :=
  (t.entries.find? fun e => e.1 = r.key).map fun e => e.2.2

def contains (t : PackedTable α) (r : Register) : Bool :=
  t.entries.any fun e => e.1 = r.key

def records (t : PackedTable α) : List (Register × α) :=
  t.entries.map Prod.snd

def updateEntries (r : Register) (fresh : α) (f : α → α) :
    List (Word × Register × α) → List (Word × Register × α)
  | [] => [(r.key, r, f fresh)]
  | e :: rest =>
    if e.1 = r.key then (e.1, e.2.1, f e.2.2) :: rest
    else if r.key < e.1 then (r.key, r, f fresh) :: e :: rest
    else e :: updateEntries r fresh f rest

/-- Changes the record of `r` by `f`, starting from `fresh` if there is none yet. -/
def update (t : PackedTable α) (r : Register) (fresh : α) (f : α → α) : PackedTable α :=
  ⟨updateEntries r fresh f t.entries⟩

end PackedTable

end ShaderLift
