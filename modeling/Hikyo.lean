import Hikyo.KeyHierarchy.BootSafety
import Hikyo.KeyHierarchy.RootRotation
import Hikyo.Project.Gate
import Hikyo.Delivery.HistorySecrets
import Hikyo.Delivery.CursorSound
import Hikyo.Delivery.TokenPattern
import Hikyo.Access.Preview
import Hikyo.Access.Delegation
import Hikyo.Access.Widening
import Hikyo.Schema.MemberNames
import Hikyo.Schema.Verdict
import Hikyo.Scim.Spelling
import Hikyo.Coordination.Exclusive
import Hikyo.Coordination.Registry
import Hikyo.Adapter.Settled
import Hikyo.Dynamic.Expiry
import Hikyo.Dynamic.Ceiling
import Hikyo.Compose.Eligibility
import Hikyo.Compose.SnapshotSound
import Hikyo.Reencrypt.Transparent
import Hikyo.Compose.OfflineLog
import Hikyo.Delivery.Conformance
import Hikyo.Access.Mirror
import Hikyo.Delivery.Preimages
import Hikyo.Project.Approvers
import Hikyo.Mcp.Paginate
import Hikyo.Rollout.Controller
import Hikyo.Project.Replay
import Hikyo.Project.Retention
import Hikyo.Project.Substitution
import Hikyo.Envelope.Bearer
import Hikyo.Project.Permanence
import Hikyo.Adapter.Goals
import Hikyo.Admission.TokenBucket
