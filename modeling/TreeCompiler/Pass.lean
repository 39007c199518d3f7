import TreeCompiler.Error
import TreeCompiler.Scope

/-!
# Passes over the tables

A pass changes the tables and may fail. What it has changed before it fails stays changed, so the
tables are part of its outcome either way.
-/

namespace TreeCompiler

/-- A computation on the tables that may fail with a cause of type `ε`. -/
abbrev Step (ε α : Type) : Type := ExceptT ε (StateM Tables) α

/-- A computation on the tables that tells where it fails. -/
abbrev Pass (ε α : Type) : Type := Step (Located ε) α

/-- The same computation, which blames a line for its failure. -/
def Step.atLine {ε α : Type} (line : UInt32) (s : Step ε α) : Pass ε α :=
  ExceptT.adapt (.atLine line) s

/-- The same computation, which blames no line for its failure. -/
def Step.nowhere {ε α : Type} (s : Step ε α) : Pass ε α := ExceptT.adapt .nowhere s

namespace Pass

variable {ε α : Type}

/-- The result of a pass on some tables, and the tables it leaves. -/
def runOn (p : Pass ε α) (t : Tables) : Except (Located ε) α × Tables := StateT.run p.run t

/-- Fails at a line. -/
def failAt (line : UInt32) (cause : ε) : Pass ε α := throw (.atLine line cause)

end Pass

end TreeCompiler
