import Quill.Eval
import Quill.Token.Scan
import Quill.Tree.Reader

/-!
# From source text to output

A source text is scanned and read before any of it runs, so a text that is no
program prints nothing.
-/

namespace Quill

/-- The program that a source text spells. -/
def Program.ofSource (source : String) : Except SyntaxError Program :=
  match scan source with
  | .ok ts => Program.ofTokens ts
  | .error e => .error e

theorem Program.ofSource_of_scan {source : String} {ts : List Token}
    (h : (scan source).toOption = some ts) :
    Program.ofSource source = Program.ofTokens ts := by
  rw [ofSource]
  split
  · next hscan =>
      rw [hscan] at h
      cases h
      rfl
  · next hscan =>
      rw [hscan] at h
      cases h

theorem Program.exists_scan_of_ofSource {source : String} {p : Program}
    (h : Program.ofSource source = .ok p) :
    ∃ ts, scan source = .ok ts ∧ Program.ofTokens ts = .ok p := by
  rw [ofSource] at h
  split at h
  · next ts hts => exact ⟨ts, hts, h⟩
  · cases h

/-- How running a source text ended: with a diagnostic or without, and what it
left. -/
structure Finished where
  diagnostic : Option Diagnostic
  machine : Machine

/-- Runs a source text on a fresh machine; nothing if the budget is spent. -/
def runSource (limit : Option Nat) (n : Nat) (source : String) :
    Option Finished :=
  match Program.ofSource source with
  | .error e => some ⟨some (.parsing e), .fresh⟩
  | .ok p =>
    match runProgram limit n p .fresh with
    | .spent => none
    | .ended (.ok ()) m => some ⟨none, m⟩
    | .ended (.error e) m => some ⟨some (.running e), m⟩

/-- Where printed text goes. -/
inductive Sink where
  | buffer
  | console
  | silent
  deriving DecidableEq, Repr

/-- What can be read back from a sink after `text` was printed: only a buffer
keeps it. -/
def Sink.kept (sink : Sink) (text : String) : String :=
  match sink with
  | .buffer => text
  | .console | .silent => ""

end Quill
