import Quill.Builtin
import Quill.Memory

/-!
# The machine and how runs end

A machine is all that a program can change: memory, the number of function
bodies that are running, and what has been printed. A run that ends leaves a
machine, whether it ends with a value or with a diagnostic: what a failing
program has printed and assigned stays printed and assigned.

Programs need not end, so a run has a budget, and one that spends it before its
end has an outcome of its own, which is neither a value nor a failure.
-/

namespace Quill

/-- What a program can change. -/
structure Machine where
  memory : Memory
  /-- How many bodies of declared functions are running. -/
  calls : Nat
  /-- The printed lines with their line ends, the latest first. -/
  printed : List String

namespace Machine

/-- A machine before anything has run. -/
def fresh : Machine :=
  ⟨.fresh, 0, []⟩

/-- What has been printed. -/
def output (m : Machine) : String :=
  String.join m.printed.reverse

/-- Writes a line. -/
def print (m : Machine) (text : String) : Machine :=
  { m with printed := (text ++ "\n") :: m.printed }

/-- Gives a variable a value. -/
def assign (m : Machine) (x : String) (v : Literal) : Machine :=
  { m with memory := m.memory.assign x v }

/-- Declares a function. -/
def declare (m : Machine) (f : FunDecl) : Machine :=
  { m with memory := m.memory.declare f }

/-- Opens a scope that starts with `bindings`; of two for one name the later
holds. -/
def enter (m : Machine) (bindings : Bindings Literal) : Machine :=
  { m with
    memory := bindings.foldl (fun mem (x, v) => mem.bind x v) m.memory.enter }

/-- Closes the innermost scope. -/
def leave (m : Machine) : Machine :=
  { m with memory := m.memory.leave }

/-- Begins the body of a function. -/
def beginCall (m : Machine) : Machine :=
  { m with calls := m.calls + 1 }

/-- Ends the body of a function. -/
def endCall (m : Machine) : Machine :=
  { m with calls := m.calls - 1 }

end Machine

/-- How a run went: its budget was spent, or it ended with a result and left a
machine. -/
inductive Outcome (α : Type) where
  | spent
  | ended (result : Except RuntimeError α) (m : Machine)

namespace Outcome

variable {α β : Type}

/-- Goes on with `f` where the run ended with a value. -/
@[inline] def andThen (o : Outcome α) (f : α → Machine → Outcome β) :
    Outcome β :=
  match o with
  | .spent => .spent
  | .ended (.error e) m => .ended (.error e) m
  | .ended (.ok a) m => f a m

/-- Changes the machine at the end of the run, however it ended. -/
@[inline] def atEnd (o : Outcome α) (f : Machine → Machine) : Outcome α :=
  match o with
  | .spent => .spent
  | .ended r m => .ended r (f m)

/-- A run in two parts ends when its first part fails, or when its second part,
which goes on from the machine that the first one leaves, does. -/
theorem andThen_eq_ended_iff {o : Outcome α} {f : α → Machine → Outcome β}
    {r : Except RuntimeError β} {m : Machine} :
    o.andThen f = .ended r m ↔
      (∃ a m₁, o = .ended (.ok a) m₁ ∧ f a m₁ = .ended r m) ∨
      (∃ e, o = .ended (.error e) m ∧ r = .error e) := by
  constructor
  · intro h
    match o, h with
    | .ended (.ok a) m₁, h => exact .inl ⟨a, m₁, rfl, h⟩
    | .ended (.error e) m₁, h =>
      cases h
      exact .inr ⟨e, rfl, rfl⟩
  · rintro (⟨a, m₁, rfl, h⟩ | ⟨e, rfl, rfl⟩)
    · exact h
    · rfl

theorem atEnd_eq_ended_iff {o : Outcome α} {f : Machine → Machine}
    {r : Except RuntimeError α} {m : Machine} :
    o.atEnd f = .ended r m ↔ ∃ m₁, o = .ended r m₁ ∧ f m₁ = m := by
  constructor
  · intro h
    match o, h with
    | .ended r m₁, h =>
      cases h
      exact ⟨m₁, rfl, rfl⟩
  · rintro ⟨m₁, rfl, rfl⟩
    rfl

end Outcome

/-- Makes a run in a scope of its own that starts with `bindings`. The scope is
closed however the run ends. -/
@[inline] def Machine.inScope {α : Type} (m : Machine)
    (bindings : Bindings Literal) (run : Machine → Outcome α) : Outcome α :=
  (run (m.enter bindings)).atEnd Machine.leave

end Quill
