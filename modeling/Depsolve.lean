import Depsolve.Diagnostics
import Depsolve.LockFile.Store
import Depsolve.Manifest.Locate
import Depsolve.Manifest.Override
import Depsolve.Resolver.Resolve
import Depsolve.Synthetic
import Depsolve.Proofs.Graph.Detection
import Depsolve.Proofs.LockFile.Order
import Depsolve.Proofs.LockFile.Relock
import Depsolve.Proofs.Resolver.Cycles
import Depsolve.Proofs.Resolver.Extras
import Depsolve.Proofs.Resolver.Grounds
import Depsolve.Proofs.Resolver.Recursive
import Depsolve.Proofs.Resolver.Registration
import Depsolve.Proofs.Resolver.Work
import Depsolve.Proofs.Version.Precedence
import Depsolve.Proofs.Resolver.Redundant
import Depsolve.Proofs.Registry.Recall
import Depsolve.Proofs.Manifest.Layers
import Depsolve.Proofs.Constraint.Range
import Depsolve.Proofs.Selection.Filters
import Depsolve.Proofs.Resolver.Spelling
import Depsolve.Proofs.Constraint.Grammar
import Depsolve.Proofs.Constraint.Convex
import Depsolve.Proofs.Selection.Blame
import Depsolve.Proofs.Graph.Shortest
import Depsolve.Proofs.LockFile.Integrity
import Depsolve.Proofs.Manifest.Groups
import Depsolve.Proofs.Resolver.Wanted
import Depsolve.Proofs.Synthetic.Disputed
import Depsolve.Proofs.Graph.Countdown
import Depsolve.Proofs.Manifest.Position
import Depsolve.Proofs.Resolver.OpenPath
