import Injection.Session.Answer
import Injection.Resolver.Bound
import Injection.Proofs.Resolver.SearchOrder
import Injection.Proofs.Resolver.ProvidedOnce
import Injection.Proofs.Signature.Layout
import Injection.Proofs.Signature.Rendering
import Injection.Proofs.Token.Tiling
import Injection.Proofs.Resolver.ParentWalk
import Injection.Proofs.Resolver.Pure
import Injection.Proofs.Resolver.Meaning
import Injection.Proofs.Resolver.Caching
import Injection.Proofs.Signature.ClassBody
import Injection.Proofs.Token.Stripping
import Injection.Proofs.Token.Continuing
import Injection.Proofs.Token.RegularExpression
import Injection.Proofs.Token.Longest
import Injection.Proofs.Signature.Heads
import Injection.Proofs.Signature.MemberAccess
import Injection.Proofs.Signature.Splitting
import Injection.Proofs.Resolver.Derivation
import Injection.Proofs.Resolver.Detached
import Injection.Proofs.Resolver.Memoizing
import Injection.Proofs.Resolver.Blame
import Injection.Proofs.Resolver.Locality
import Injection.Proofs.Resolver.Termination
import Injection.Proofs.Resolver.Extending
import Injection.Proofs.Resolver.Rebinding
import Injection.Proofs.Resolver.During
import Injection.Proofs.Resolver.Nesting
import Injection.Proofs.Resolver.Reporting
import Injection.Proofs.Resolver.Stopping
import Injection.Proofs.Identity.Held
import Injection.Proofs.Identity.Aging
import Injection.Proofs.Identity.Construction
import Injection.Proofs.Identity.Instances
import Injection.Proofs.Identity.Sessions
import Injection.Proofs.Threads.Lookup
import Injection.Proofs.Threads.CalledOnce
import Injection.Proofs.Resolver.Injecting
import Injection.Proofs.Registry.Lineage
import Injection.Proofs.Resolver.Locking
import Injection.Proofs.Threads.Machine
import Injection.Proofs.Threads.LockOrder
import Injection.Proofs.Threads.Progress
import Injection.Proofs.Token.Slicing
