import Overloading.Catalog
import Overloading.Json.Signatures
import Overloading.Resolution.Call
import Overloading.SearchPath.Setting
import Overloading.TypeTerm.Reader
import Overloading.Proofs.Binding.Least
import Overloading.Proofs.Resolution.Order
import Overloading.Proofs.Binding.Idempotence
import Overloading.Proofs.Binding.Elementwise
import Overloading.Proofs.Resolution.Convergence
import Overloading.Proofs.Registry.History
import Overloading.Proofs.Registry.Index
import Overloading.Proofs.Resolution.Candidates
import Overloading.Proofs.Resolution.Winner
import Overloading.Proofs.Resolution.Pinning
import Overloading.Proofs.Resolution.Isolation
import Overloading.Proofs.Resolution.Relevance
import Overloading.Proofs.Catalog.Calls
import Overloading.Proofs.Text.Trim
import Overloading.Proofs.TypeTerm.Substitution
import Overloading.Proofs.TypeTerm.RoundTrip
import Overloading.Proofs.TypeTerm.Descent
import Overloading.Proofs.Json.Shipping
import Overloading.Proofs.Resolution.FirstGroup
import Overloading.Proofs.Resolution.Arity
import Overloading.Proofs.Binding.Matching
import Overloading.Proofs.TypeTerm.Concrete
import Overloading.Proofs.Signature.Hash
import Overloading.Proofs.Signature.Key
import Overloading.Proofs.Registry.Numbers
import Overloading.Proofs.SearchPath.Items
import Overloading.Proofs.SearchPath.Shown
import Overloading.Proofs.Registry.Building
import Overloading.Proofs.Binding.Supremum
import Overloading.Proofs.Catalog.Coalesce
import Overloading.Proofs.Catalog.Concat
import Overloading.Proofs.Binding.Scope
import Overloading.Proofs.Signature.Completion
import Overloading.Proofs.Binding.Renaming
