import Retint.Main
import Retint.Proofs.Theme.Produce
import Retint.Proofs.Theme.Atomic
import Retint.Proofs.Theme.Recall
import Retint.Proofs.Bindings
import Retint.Proofs.File.Read
import Retint.Proofs.Less.ImportLine
import Retint.Proofs.Less.Nesting
import Retint.Proofs.Less.Trailing
import Retint.Proofs.Sentinel.Shade
import Retint.Proofs.Sentinel.Allocation
import Retint.Proofs.Theme.Probe
import Retint.Proofs.Css.Lexing
import Retint.Proofs.Css.Reduction
import Retint.Proofs.Css.Compiled.Themed
import Retint.Proofs.Css.Draft
import Retint.Proofs.Css.Minification
import Retint.Proofs.Css.Minified
import Retint.Proofs.Theme.Expression
import Retint.Proofs.Theme.Substitution
import Retint.Proofs.Theme.Template
import Retint.Proofs.Color.Hash
import Retint.Proofs.Theme.Reassembly
import Retint.Proofs.Number.Decimal
import Retint.Proofs.Text.Lines
import Retint.Proofs.Variable.Joining
import Retint.Proofs.Variable.Filter
import Retint.Proofs.Variable.Closure
import Retint.Proofs.Theme.Spared
import Retint.Proofs.Text.Encoding
import Retint.Proofs.Theme.Key
import Retint.Proofs.Theme.Options
import Retint.Proofs.Less.Reread
import Retint.Proofs.Theme.Again
import Retint.Proofs.CommandLine.Ending
import Retint.Proofs.CommandLine.Merge
import Retint.Proofs.Sentinel.OneEach
import Retint.Proofs.Text.Linewise
import Retint.Proofs.Less.Percentage
import Retint.Proofs.Text.Lookbehind
import Retint.Proofs.Less.FadeCalls
import Retint.Proofs.Less.References
import Retint.Proofs.Less.ValueLines
import Retint.Proofs.Theme.WholeColors
import Retint.Proofs.Less.Settled
import Retint.Proofs.Theme.Palette
import Retint.Proofs.Variable.Chain
import Retint.Proofs.Variable.Circle
import Retint.Proofs.Variable.Forward
import Retint.Proofs.Variable.GivenUp
import Retint.Proofs.Variable.Permuted
import Retint.Proofs.Theme.Selector
import Retint.Proofs.Variable.FullName
import Retint.Proofs.Variable.Rows
import Retint.Proofs.Variable.Printed
import Retint.Proofs.Variable.RunTogether
import Retint.Proofs.Color.NumberSign
import Retint.Proofs.Theme.FadesAtOnce
import Retint.Proofs.Css.Addresses
import Retint.Proofs.Css.Literals
