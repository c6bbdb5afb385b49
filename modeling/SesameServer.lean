import SesameServer.Accounts.Capabilities
import SesameServer.Accounts.Verification
import SesameServer.Admin.Checkpoints
import SesameServer.Authkit.Totp
import SesameServer.Deploy.Convergence
import SesameServer.Deploy.Immutable
import SesameServer.Deploy.Serving
import SesameServer.Limits.AuthLimiter
import SesameServer.Notifications.Attempts
import SesameServer.Notifications.Leases
import SesameServer.Proxies.ClientIp
import SesameServer.Releases.Cohort
import SesameServer.Releases.Payload
import SesameServer.Restore.Restart
import SesameServer.Selfhost.AuditEvidence
import SesameServer.Selfhost.AuditIncremental
import SesameServer.Selfhost.AuditPages
import SesameServer.Selfhost.RateLimit
import SesameServer.Selfhost.Setup
import SesameServer.Selfhost.Upkeep
import SesameServer.Support.AccessLinks
import SesameServer.Sync.Binding
import SesameServer.Sync.Checkpoints
import SesameServer.Sync.Commitment
import SesameServer.Sync.Presence
import SesameServer.Sync.Removal
import SesameServer.Sync.Vaults
import SesameServer.Updates.Checks
