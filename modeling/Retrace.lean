import Retrace.Codec.Solution
import Retrace.Session.Script
import Retrace.Settings.Yaml
import Retrace.Proofs.Agreement
import Retrace.Proofs.Segments
import Retrace.Proofs.SingleAssignment
import Retrace.Proofs.Rebuild
import Retrace.Proofs.Hooks
import Retrace.Proofs.Tickets
import Retrace.Proofs.CallSites
import Retrace.Proofs.FailStop
import Retrace.Proofs.Replay
import Retrace.Proofs.Requests
import Retrace.Proofs.Lockstep
import Retrace.Proofs.Transparency
import Retrace.Proofs.Exchanges
import Retrace.Proofs.FirstSuccess
import Retrace.Proofs.SiteOrder
import Retrace.Proofs.Harvests
import Retrace.Proofs.Statements
import Retrace.Proofs.Buildable
import Retrace.Proofs.DeclaredTypes
import Retrace.Proofs.RoundTrip
import Retrace.Proofs.Literals
import Retrace.Proofs.Accounts
import Retrace.Proofs.FreshIds
import Retrace.Proofs.WrittenSettings
