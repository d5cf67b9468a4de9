import Bweso.Lib.Text
import Bweso.Lib.Run
import Bweso.Lib.Result
import Bweso.Lib.Base64
import Bweso.Lib.Cbc
import Bweso.Lib.LastGood
import Bweso.Lib.Entries
import Bweso.Lib.Serde
import Bweso.Lib.Notify
import Bweso.Lib.Recording
import Bweso.Lib.Exposition
import Bweso.Lib.Family
import Bweso.Lib.Python
import Bweso.Lib.Forest
import Bweso.Lib.Reads
import Bweso.Spec.Basic
import Bweso.Spec.Crypto
import Bweso.Spec.Cipher
import Bweso.Spec.Api
import Bweso.Spec.Cache
import Bweso.Spec.Policy
import Bweso.Spec.Auth
import Bweso.Spec.Handler
import Bweso.Spec.Server
import Bweso.Spec.Coverage
import Bweso.Spec.Mount
import Bweso.Spec.Fixture
import Bweso.Spec.Sync
import Bweso.Spec.Metrics
import Bweso.Spec.Kdf
import Bweso.Spec.Inline
import Bweso.Spec.Lifecycle
import Bweso.Spec.Endpoint
import Bweso.Spec.Unlock
import Bweso.Spec.Render
import Bweso.Spec.Scrape
import Bweso.Spec.ImageIdentity
import Bweso.Spec.Sbom
import Bweso.Spec.Accounting
import Bweso.Spec.Bundle
import Bweso.Sanity.Basic
import Bweso.Sanity.Policy
import Bweso.Sanity.Crypto
import Bweso.Sanity.Auth
import Bweso.Sanity.Api
import Bweso.Sanity.Cache
import Bweso.Sanity.Server
import Bweso.Sanity.Refresh
import Bweso.Proofs.Coverage
import Bweso.Proofs.Mount
import Bweso.Proofs.Reload
import Bweso.Proofs.Scoped
import Bweso.Proofs.Resolve
import Bweso.Proofs.NonInterference
import Bweso.Proofs.Fixture
import Bweso.Proofs.SingleFlight
import Bweso.Proofs.Staleness
import Bweso.Proofs.Format
import Bweso.Proofs.Authentic
import Bweso.Proofs.NameLookup
import Bweso.Proofs.Document
import Bweso.Proofs.Nulls
import Bweso.Proofs.Cardinality
import Bweso.Proofs.Permits
import Bweso.Proofs.Recorded
import Bweso.Proofs.Masking
import Bweso.Proofs.Body
import Bweso.Proofs.Kdf
import Bweso.Proofs.Endpoint
import Bweso.Proofs.Requests
import Bweso.Proofs.Inline
import Bweso.Proofs.Legacy
import Bweso.Proofs.Unlock
import Bweso.Proofs.Lifecycle
import Bweso.Proofs.Layout
import Bweso.Proofs.Render
import Bweso.Proofs.Conserved
import Bweso.Proofs.Interval
import Bweso.Proofs.ImageIdentity
import Bweso.Proofs.Sbom
import Bweso.Proofs.Scrape
import Bweso.Proofs.Accounting
import Bweso.Proofs.Bundle
