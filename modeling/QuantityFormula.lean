import QuantityFormula.Arithmetic.Executor
import QuantityFormula.Engine
import QuantityFormula.Number.ReadBack
import QuantityFormula.Proofs.Grammar
import QuantityFormula.Proofs.Sign
import QuantityFormula.Proofs.Writing
import QuantityFormula.Proofs.Separators
import QuantityFormula.Proofs.Tokenizing
import QuantityFormula.Proofs.ArithmeticValue
import QuantityFormula.Proofs.Balance
import QuantityFormula.Proofs.Placement
import QuantityFormula.Proofs.Running
import QuantityFormula.Proofs.ReplacementBalance
import QuantityFormula.Proofs.Validation
import QuantityFormula.Proofs.Arguments
import QuantityFormula.Proofs.Computation
import QuantityFormula.Proofs.Heads
import QuantityFormula.Proofs.Literal
import QuantityFormula.Proofs.CallValue
import QuantityFormula.Proofs.Resolving
import QuantityFormula.Proofs.Items
import QuantityFormula.Proofs.Surroundings
import QuantityFormula.Proofs.Blanks
import QuantityFormula.Proofs.Budget
import QuantityFormula.Proofs.EagerCalls
import QuantityFormula.Proofs.ErrorBarrier
import QuantityFormula.Proofs.TextBinding
import QuantityFormula.Proofs.OperandPlaces
import QuantityFormula.Proofs.Passes
import QuantityFormula.Proofs.StackFrames
import QuantityFormula.Proofs.Combination
import QuantityFormula.Proofs.ForeignCharacters
import QuantityFormula.Proofs.Limits
import QuantityFormula.Proofs.FaultOrigins
import QuantityFormula.Proofs.ParenthesisChecks
import QuantityFormula.Proofs.Reuse
import QuantityFormula.Proofs.Allowance
import QuantityFormula.Proofs.CallPasses
import QuantityFormula.Proofs.Inlining
import QuantityFormula.Proofs.Nesting
import QuantityFormula.Proofs.Ordering
import QuantityFormula.Proofs.Postorder
import QuantityFormula.Proofs.LexicalGrammar
import QuantityFormula.Proofs.PrintedTokens
import QuantityFormula.Proofs.WholeWords
import QuantityFormula.Proofs.MissingNames
import QuantityFormula.Proofs.Simultaneity
import QuantityFormula.Proofs.ArgumentLists
import QuantityFormula.Proofs.ArgumentCounts
import QuantityFormula.Proofs.SingleNumbers
import QuantityFormula.Proofs.ShadowedConstants
import QuantityFormula.Proofs.Spans
