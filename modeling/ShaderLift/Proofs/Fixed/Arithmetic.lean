/-
Numbers of fixed width.  The program is defined on natural numbers, which have no upper end, and on lists
that are taken apart by pattern matching.  A machine that runs it has words of 32 and 64 bits and reaches
into its lists by numbers.  The modules of this directory write the program once more for such a machine.
Each sum, difference and product goes through an operation of this file, and so does each place that is
looked up:

    add bits a b     sub a b     mul bits a b     item l i     slice l first last

The operation has no result where the machine would leave its range.  So to say that the program in
`Fixed` has the result that the program itself has is to say that no operation of it ever leaves its
range.
-/
import ShaderLift.Attempt
import Mathlib.Algebra.Group.Nat.Defs

namespace ShaderLift.Fixed

/-! ### Operations -/

section Operations

variable {α : Type}

def add (bits a b : Nat) : Option Nat := if a + b < 2 ^ bits then some (a + b) else none

def mul (bits a b : Nat) : Option Nat := if a * b < 2 ^ bits then some (a * b) else none

def sub (a b : Nat) : Option Nat := if b ≤ a then some (a - b) else none

def narrow (bits a : Nat) : Option Nat := if a < 2 ^ bits then some a else none

/-- The place `i` of something of so many parts, if there is such a place. -/
def place (length i : Nat) : Option Nat := if i < length then some i else none

def item (l : List α) (i : Nat) : Option α := l[i]?

def slice (l : List α) (first last : Nat) : Option (List α) :=
  if first ≤ last ∧ last ≤ l.length then some ((l.take last).drop first) else none

variable {bits a b : Nat}

theorem add_of_lt (h : a + b < 2 ^ bits) : add bits a b = some (a + b) := if_pos h

theorem mul_of_lt (h : a * b < 2 ^ bits) : mul bits a b = some (a * b) := if_pos h

theorem sub_of_le (h : b ≤ a) : sub a b = some (a - b) := if_pos h

theorem narrow_of_lt (h : a < 2 ^ bits) : narrow bits a = some a := if_pos h

theorem place_of_lt (h : a < b) : place b a = some a := if_pos h

theorem slice_of_le {l : List α} (h : a ≤ b) (hl : b ≤ l.length) :
    slice l a b = some ((l.take b).drop a) :=
  if_pos ⟨h, hl⟩

theorem some_bind {β : Type} (a : α) (f : α → Option β) : (some a >>= f) = f a := rfl

theorem ite_eq_some {test : Bool} {x y : Option α} {u v : α} (hx : x = some u) (hy : y = some v) :
    (if test then x else y) = some (if test then u else v) := by
  cases test with
  | true => exact hx
  | false => exact hy

end Operations

/-! ### Searches -/

section Searches

variable {m : Type → Type} [Monad m] [LawfulMonad m] {α : Type}
variable {p : α → m Bool} {q : α → Bool} {l : List α}

theorem findM?_eq (h : ∀ a ∈ l, p a = pure (q a)) : l.findM? p = pure (l.find? q) := by
  induction l with
  | nil => rfl
  | cons a l ih =>
    obtain ⟨ha, hl⟩ := List.forall_mem_cons.mp h
    rw [List.findM?, ha, pure_bind, List.find?_cons]
    cases q a with
    | true => rfl
    | false => exact ih hl

theorem anyM_eq (h : ∀ a ∈ l, p a = pure (q a)) : l.anyM p = pure (l.any q) := by
  induction l with
  | nil => rfl
  | cons a l ih =>
    obtain ⟨ha, hl⟩ := List.forall_mem_cons.mp h
    rw [List.anyM, ha, pure_bind, List.any_cons]
    cases q a with
    | true => rfl
    | false => exact ih hl

theorem mapM_eq {β : Type} {f : α → m β} {g : α → β} (h : ∀ a ∈ l, f a = pure (g a)) :
    l.mapM f = pure (l.map g) := by
  induction l with
  | nil => simp
  | cons a l ih =>
    obtain ⟨ha, hl⟩ := List.forall_mem_cons.mp h
    simp only [List.mapM_cons, ha, ih hl, pure_bind, List.map_cons]

end Searches

/-! ### Decoders -/

/-- An attempt that stops where an operation leaves its range. -/
structure Decoder (α : Type) where
  run : Attempt (Option α)

namespace Decoder

variable {α β γ ι : Type}

def andThen (d : Decoder α) (f : α → Decoder β) : Decoder β :=
  ⟨d.run >>= fun x => x.elim (pure none) fun x => (f x).run⟩

instance : Monad Decoder where
  pure x := ⟨pure (some x)⟩
  bind := andThen

theorem andThen_assoc (d : Decoder α) (f : α → Decoder β) (g : β → Decoder γ) :
    (d.andThen f).andThen g = d.andThen fun x => (f x).andThen g := by
  unfold andThen
  simp only [bind_assoc]
  congr 2
  funext x
  cases x with
  | none => simp
  | some x => rfl

theorem andThen_pure (d : Decoder α) : d.andThen pure = d := by
  obtain ⟨a⟩ := d
  show Decoder.mk (a >>= fun x => _) = _
  congr 1
  refine Eq.trans (congrArg _ ?_) (bind_pure a)
  funext x
  cases x <;> rfl

instance : LawfulMonad Decoder := LawfulMonad.mk' Decoder
  andThen_pure
  (fun x f => by
    show Decoder.mk (pure (some x) >>= _) = _
    rw [pure_bind]
    rfl)
  andThen_assoc

instance : MonadLift Attempt Decoder where
  monadLift a := ⟨some <$> a⟩

instance : MonadLift Option Decoder where
  monadLift x := ⟨pure x⟩

instance : LawfulMonadLift Attempt Decoder where
  monadLift_pure _ := rfl
  monadLift_bind a f := by
    show Decoder.mk (some <$> (a >>= f)) = ⟨(some <$> a) >>= fun x => _⟩
    rw [map_bind, bind_map_left]
    rfl

@[simp] theorem lift_some (x : α) : (liftM (some x) : Decoder α) = pure x := rfl

theorem some_bind (x : α) (f : α → Decoder β) : (liftM (some x) >>= f : Decoder β) = f x := by
  rw [lift_some, pure_bind]

@[simp] theorem lift_ofOption_some (x : α) :
    (liftM (Attempt.ofOption (some x)) : Decoder α) = pure x := rfl

@[simp] theorem lift_require_true : (liftM (Attempt.require true) : Decoder Unit) = pure () := rfl

@[simp] theorem lift_require_false :
    (liftM (Attempt.require false) : Decoder Unit) = liftM (Attempt.giveUp : Attempt Unit) := rfl

@[simp] theorem giveUp_bind (f : α → Decoder β) :
    (liftM (Attempt.giveUp : Attempt α) >>= f : Decoder β) = liftM (Attempt.giveUp : Attempt β) :=
  rfl

theorem lift_bind_congr {a : Attempt α} {f g : α → Decoder β}
    (h : ∀ x, a.value = some x → f x = g x) :
    ((liftM a : Decoder α) >>= f) = (liftM a : Decoder α) >>= g := by
  obtain ⟨faults, _ | x⟩ := a
  · rfl
  · show Decoder.mk ⟨_ ++ (f x).run.faults, (f x).run.value⟩ =
      ⟨⟨_ ++ (g x).run.faults, (g x).run.value⟩⟩
    rw [h x rfl]

def outcome (d : Decoder α) : Option (Attempt α) :=
  match d.run with
  | ⟨faults, some (some x)⟩ => some ⟨faults, some x⟩
  | ⟨_, some none⟩ => none
  | ⟨faults, none⟩ => some ⟨faults, none⟩

theorem outcome_lift (a : Attempt α) : outcome (liftM a) = some a := by
  obtain ⟨faults, _ | x⟩ := a
  · rfl
  · show some (Attempt.mk (faults ++ []) (some x)) = _
    rw [List.append_nil]

theorem mapM_lift {l : List ι} {f : ι → Decoder α} {g : ι → Attempt α}
    (h : ∀ i ∈ l, f i = liftM (g i)) : l.mapM f = liftM (l.mapM g) := by
  induction l with
  | nil => simp
  | cons i l ih =>
    obtain ⟨hi, hl⟩ := List.forall_mem_cons.mp h
    simp only [List.mapM_cons, hi, ih hl, liftM_bind, liftM_pure]

end Decoder

end ShaderLift.Fixed
