/-
Decoders that may give up.  An attempt is a value, not a program: the faults found on the way, in the
order in which they were found, and the result unless the decoder gave up.  Faults do not end an
attempt by themselves; a decoder can record one and still produce a result.
-/
import ShaderLift.Fault

namespace ShaderLift

/-- The outcome of a decoder: the faults it found and, unless it gave up, its result. -/
structure Attempt (α : Type) where
  faults : List Fault
  value : Option α
  deriving Repr

namespace Attempt

variable {α β γ : Type}

/-- Goes on with the result of `a`, if there is one. -/
def andThen (a : Attempt α) (f : α → Attempt β) : Attempt β :=
  match a.value with
  | none => ⟨a.faults, none⟩
  | some x =>
    let b := f x
    ⟨a.faults ++ b.faults, b.value⟩

instance : Monad Attempt where
  pure x := ⟨[], some x⟩
  bind := andThen

theorem pure_def (x : α) : (pure x : Attempt α) = ⟨[], some x⟩ := rfl

theorem bind_def (a : Attempt α) (f : α → Attempt β) : a >>= f = a.andThen f := rfl

@[simp] theorem some_andThen (fs : List Fault) (x : α) (f : α → Attempt β) :
    (Attempt.mk fs (some x)).andThen f = ⟨fs ++ (f x).faults, (f x).value⟩ := rfl

@[simp] theorem none_andThen (fs : List Fault) (f : α → Attempt β) :
    (Attempt.mk fs (none : Option α)).andThen f = ⟨fs, none⟩ := rfl

theorem andThen_assoc (a : Attempt α) (f : α → Attempt β) (g : β → Attempt γ) :
    (a.andThen f).andThen g = a.andThen fun x => (f x).andThen g := by
  obtain ⟨fs, _ | x⟩ := a
  · rfl
  · rcases h : f x with ⟨gs, _ | y⟩ <;> simp [andThen, h]

instance : LawfulMonad Attempt := LawfulMonad.mk' Attempt
  (fun a => by obtain ⟨fs, _ | x⟩ := a <;> simp [Functor.map, andThen])
  (fun x f => by simp [bind_def, pure_def, andThen])
  (fun a f g => andThen_assoc a f g)

/-- Gives up without a word. -/
def giveUp : Attempt α := ⟨[], none⟩

def stop (f : Fault) : Attempt α := ⟨[f], none⟩

def note (f : Fault) : Attempt Unit := ⟨[f], some ()⟩

def ofOption : Option α → Attempt α
  | none => giveUp
  | some x => pure x

/-- Goes on only with a result, and names a fault otherwise. -/
def ofOptionOr (f : Fault) : Option α → Attempt α
  | none => stop f
  | some x => pure x

def require (b : Bool) : Attempt Unit :=
  if b then pure () else giveUp

/-- Records a fault if `b` holds, and goes on in any case. -/
def noteIf (b : Bool) (f : Fault) : Attempt Unit :=
  if b then note f else pure ()

end Attempt

end ShaderLift
