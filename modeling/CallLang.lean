import CallLang.Install
import CallLang.Main
import CallLang.Session
import CallLang.Proofs.Grammar
import CallLang.Proofs.Kinds
import CallLang.Proofs.Exact
import CallLang.Proofs.Transparent
import CallLang.Proofs.Coverage
import CallLang.Proofs.Refusal
import CallLang.Proofs.Contexts
import CallLang.Proofs.RoundTrip
import CallLang.Proofs.Extension
import CallLang.Proofs.Recency
import CallLang.Proofs.PrintOrder
import CallLang.Proofs.Endings
import CallLang.Proofs.Prints
import CallLang.Proofs.LeftNesting
import CallLang.Proofs.IntegerLiterals
import CallLang.Proofs.Order
import CallLang.Proofs.Rows
import CallLang.Proofs.Chains
import CallLang.Proofs.Division
import CallLang.Proofs.IntegerSteps
import CallLang.Proofs.Spacing
import CallLang.Proofs.Nesting
import CallLang.Proofs.Prefixes
import CallLang.Proofs.PrintedIntegers
import CallLang.Proofs.Words
import CallLang.Proofs.Kernels
import CallLang.Proofs.RealLiterals
import CallLang.Proofs.PrintedFractions
import CallLang.Proofs.Benchmarks
