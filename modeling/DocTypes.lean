import DocTypes.Analysis.Access
import DocTypes.Analysis.Basic
import DocTypes.Analysis.Denotation
import DocTypes.Analysis.NodeTable
import DocTypes.Analysis.Run
import DocTypes.Binding.Hoist
import DocTypes.Binding.HoistStack
import DocTypes.Binding.Names
import DocTypes.Binding.Reference
import DocTypes.Binding.State
import DocTypes.Binding.Visit
import DocTypes.CommandLine.Arguments
import DocTypes.CommandLine.LogFormat
import DocTypes.CommandLine.Run
import DocTypes.Comment.Compile
import DocTypes.Comment.DocComment
import DocTypes.Comment.Tag
import DocTypes.Comment.Target
import DocTypes.Diagnostic
import DocTypes.Handle
import DocTypes.Hierarchy.Bases
import DocTypes.Hierarchy.Build
import DocTypes.Hierarchy.Graph
import DocTypes.Hierarchy.Linearize
import DocTypes.Hierarchy.Order
import DocTypes.Json.Document
import DocTypes.Json.Numeral
import DocTypes.Json.Precision
import DocTypes.Json.Token
import DocTypes.Main
import DocTypes.Proofs.Binding.Closing
import DocTypes.Proofs.Binding.Fate
import DocTypes.Proofs.Binding.Ledger
import DocTypes.Proofs.Hierarchy.Counting
import DocTypes.Proofs.Hierarchy.Finalization
import DocTypes.Proofs.Hierarchy.Frame
import DocTypes.Proofs.Hierarchy.Readiness
import DocTypes.Proofs.Hierarchy.Resolution
import DocTypes.Proofs.Hierarchy.Scheduling
import DocTypes.Proofs.Run
import DocTypes.Proofs.Scopes.Growth
import DocTypes.Proofs.Scopes.Outward
import DocTypes.Proofs.Tree.Shape
import DocTypes.Proofs.Types.Canonical
import DocTypes.Proofs.Types.Canonicity
import DocTypes.Proofs.Types.Sameness
import DocTypes.Proofs.Types.Formers
import DocTypes.Proofs.Types.Interning
import DocTypes.Proofs.Types.Structure
import DocTypes.Proofs.Types.Unions
import DocTypes.Proofs.Types.Uniqueness
import DocTypes.Proofs.Values.Changes
import DocTypes.Registry
import DocTypes.Report.Render
import DocTypes.Report.Unit
import DocTypes.Scopes.Scope
import DocTypes.Scopes.Tree
import DocTypes.Signature.Declared
import DocTypes.Signature.Parameters
import DocTypes.Source.Span
import DocTypes.Store
import DocTypes.Text.Atom
import DocTypes.Tree.Arena
import DocTypes.Tree.Builder
import DocTypes.Tree.Flags
import DocTypes.Tree.Kind
import DocTypes.Tree.Load
import DocTypes.Tree.LoadStack
import DocTypes.Tree.Outline
import DocTypes.Tree.Packed
import DocTypes.Tree.Preorder
import DocTypes.Tree.Reader
import DocTypes.TypeExpr.Meaning
import DocTypes.TypeExpr.Transform
import DocTypes.Types.Arity
import DocTypes.Types.Key
import DocTypes.Types.Printer
import DocTypes.Types.Store
import DocTypes.Types.Substitution
import DocTypes.Typing.Declare
import DocTypes.Typing.Receiver
import DocTypes.Typing.Sites
import DocTypes.Values.Store
import DocTypes.Values.Value
import DocTypes.Proofs.Binding.Covering
import DocTypes.Proofs.Hierarchy.Connection
import DocTypes.Proofs.Hierarchy.Cycles
import DocTypes.Proofs.Handles.Change
import DocTypes.Proofs.Handles.Steps
import DocTypes.Proofs.Handles.Ancestors
import DocTypes.Proofs.Handles.TypeExpr
import DocTypes.Proofs.Handles.Hierarchy
import DocTypes.Proofs.Handles.Signature
import DocTypes.Proofs.Handles.Typing
import DocTypes.Proofs.Handles.Walk
import DocTypes.Proofs.Handles.Names
import DocTypes.Proofs.Handles.Visits
import DocTypes.Proofs.Handles.Access
import DocTypes.Proofs.Handles.Stages
import DocTypes.Proofs.Handles.Run
import DocTypes.Proofs.Handles.Lasting
import DocTypes.Proofs.Levels
import DocTypes.Proofs.Hierarchy.Listing
import DocTypes.Proofs.Hierarchy.Linearization
import DocTypes.Proofs.Hierarchy.Passes
import DocTypes.Proofs.Types.Substitution
import DocTypes.Proofs.Types.Instantiation
import DocTypes.Proofs.Types.Composition
import DocTypes.Proofs.Hierarchy.Inheritance
import DocTypes.Proofs.TypeExpr.Names
import DocTypes.TypeExpr.Frames
import DocTypes.Proofs.TypeExpr.Dependence
import DocTypes.Proofs.TypeExpr.Stack
import DocTypes.Proofs.Binding.Lexical
import DocTypes.Proofs.TypeExpr.Semantics
import DocTypes.Proofs.Reports.Parameters
import DocTypes.Proofs.Reports.Undefined
import DocTypes.Proofs.Lifecycle.Moments
import DocTypes.Proofs.Hierarchy.Rounds
import DocTypes.Proofs.Tree.Loading
import DocTypes.Proofs.Tree.LoadStack
import DocTypes.Proofs.Tree.Loops
import DocTypes.Proofs.Tree.Layout
import DocTypes.Proofs.Values.Representation
import DocTypes.Proofs.Values.Aliases
import DocTypes.Proofs.Nodes.Classes
import DocTypes.Proofs.Nodes.Propagation
import DocTypes.Proofs.Hierarchy.Kinds
import DocTypes.Proofs.Hierarchy.Building
import DocTypes.Proofs.Hierarchy.Arity
import DocTypes.Proofs.Hierarchy.Templates
import DocTypes.Proofs.Hierarchy.Applications
import DocTypes.Proofs.Comment.Agreement
import DocTypes.Proofs.Nodes.Coverage
import DocTypes.Proofs.Types.Arities
import DocTypes.Hierarchy.Components
import DocTypes.Proofs.Hierarchy.Searching
import DocTypes.Proofs.Types.Shapes
import DocTypes.Proofs.Hierarchy.Shapes
import DocTypes.Proofs.Binding.Hoisting
import DocTypes.Proofs.Binding.HoistStack
import DocTypes.Proofs.Reports.Cycles
import DocTypes.Proofs.TypeExpr.Layers
import DocTypes.Proofs.TypeExpr.Recording
import DocTypes.Proofs.TypeExpr.Recursion
