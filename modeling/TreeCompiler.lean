import TreeCompiler.Main
import TreeCompiler.CommandLine.Directory
import TreeCompiler.Json.Compact
import TreeCompiler.Tree.Written
import TreeCompiler.Proofs.Pass
import TreeCompiler.Proofs.Counters
import TreeCompiler.Proofs.Threading
import TreeCompiler.Proofs.Tree.Numbering
import TreeCompiler.Proofs.Typing.Checker
import TreeCompiler.Proofs.Declaration
import TreeCompiler.Proofs.Emission.Calls
import TreeCompiler.Proofs.Emission.Closed
import TreeCompiler.Proofs.Emission.Program
import TreeCompiler.Proofs.Emission.Shaped
import TreeCompiler.Proofs.Emission.Symbols
import TreeCompiler.Proofs.Frame.Exact
import TreeCompiler.Proofs.Frame.Geometry
import TreeCompiler.Proofs.Frame.Independence
import TreeCompiler.Proofs.Meaning.Argument
import TreeCompiler.Proofs.Meaning.Call
import TreeCompiler.Proofs.Meaning.Simulation
import TreeCompiler.Proofs.Order.Acceptance
import TreeCompiler.Proofs.Order.Rearranged
import TreeCompiler.Proofs.Order.Replaced
import TreeCompiler.Proofs.Reading.RoundTrip
import TreeCompiler.Proofs.Emission.Need
import TreeCompiler.Proofs.Meaning.Footprint
import TreeCompiler.Proofs.Meaning.Fragment
import TreeCompiler.Proofs.Meaning.Condition
import TreeCompiler.Proofs.Meaning.Subscript
import TreeCompiler.Proofs.Meaning.Guard
import TreeCompiler.Proofs.Emission.Flow
import TreeCompiler.Proofs.Typing.FirstFault
import TreeCompiler.Proofs.Locals.Compiled
import TreeCompiler.Proofs.Types.Nominal
import TreeCompiler.Proofs.Scope.Growth
import TreeCompiler.Proofs.Types.Requested
import TreeCompiler.Proofs.Scope.Store
import TreeCompiler.Proofs.Typing.Handles
import TreeCompiler.Proofs.Stages
import TreeCompiler.Proofs.Tree.Preorder
import TreeCompiler.Proofs.Frame.Picture
import TreeCompiler.Proofs.Frame.Overflow
import TreeCompiler.Proofs.Reading.Insensitive
import TreeCompiler.Proofs.Assembly.Compiled
import TreeCompiler.Proofs.Assembly.RegisterStack
