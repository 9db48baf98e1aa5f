import GraphExpr.Expr.Tree
import GraphExpr.Main
import GraphExpr.Proofs.Canonical.Idempotence
import GraphExpr.Proofs.Canonical.Keys
import GraphExpr.Proofs.Eval.Annotations
import GraphExpr.Proofs.Eval.Concealment
import GraphExpr.Proofs.Eval.Converse
import GraphExpr.Proofs.Eval.Conversions
import GraphExpr.Proofs.Eval.Laziness
import GraphExpr.Proofs.Eval.Lists
import GraphExpr.Proofs.Eval.Literals
import GraphExpr.Proofs.Eval.Observation
import GraphExpr.Proofs.Eval.Outages
import GraphExpr.Proofs.Eval.Pages
import GraphExpr.Proofs.Eval.Pagination
import GraphExpr.Proofs.Eval.Partition
import GraphExpr.Proofs.Eval.Ranges
import GraphExpr.Proofs.Eval.Recovery
import GraphExpr.Proofs.Eval.Restriction
import GraphExpr.Proofs.Eval.Scoping
import GraphExpr.Proofs.Eval.Secrecy
import GraphExpr.Proofs.Eval.Session
import GraphExpr.Proofs.Eval.Sites
import GraphExpr.Proofs.Eval.Slices
import GraphExpr.Proofs.Eval.StorageOrder
import GraphExpr.Proofs.Eval.Termination
import GraphExpr.Proofs.Eval.Traversals
import GraphExpr.Proofs.Eval.Users
import GraphExpr.Proofs.Grammar.Fatal
import GraphExpr.Proofs.Grammar.Places
import GraphExpr.Proofs.Grammar.Totality
import GraphExpr.Proofs.Graph.Predicates
import GraphExpr.Proofs.Value.Dates
import GraphExpr.Proofs.Value.KeySorting
import GraphExpr.Proofs.Value.Measure
import GraphExpr.Query.Text
import GraphExpr.Token.Text
