import CipherVault.Account.Listing
import CipherVault.Account.Memberships
import CipherVault.Account.RateLimits
import CipherVault.Account.ScopeTokens
import CipherVault.Account.SingleUse
import CipherVault.Account.StepUp
import CipherVault.Account.Totp
import CipherVault.Account.Webhooks
import CipherVault.Audit.Pages
import CipherVault.Crypto.Piv
import CipherVault.Device.Chain
import CipherVault.Device.History
import CipherVault.Device.Pending
import CipherVault.Device.PullSafety
import CipherVault.Format.Canonical
import CipherVault.Migrate.Diff
import CipherVault.Migrate.Shred
import CipherVault.Network.Identity
import CipherVault.Network.Objects
import CipherVault.Network.Probation
import CipherVault.Network.Quotas
import CipherVault.Network.Rates
import CipherVault.Network.RecoveryLog
import CipherVault.Network.Refunds
import CipherVault.Network.Repair
import CipherVault.Network.Restarts
import CipherVault.Network.Tickets
import CipherVault.Network.Traces
import CipherVault.Network.Undone
import CipherVault.Recovery.Kit
import CipherVault.Recovery.Maintenance
import CipherVault.Release.Signatures
import CipherVault.Snapshot.Chunking
import CipherVault.Snapshot.Integrity
import CipherVault.Snapshot.Nonces
import CipherVault.Snapshot.Recoverable
import CipherVault.Snapshot.Restorable
import CipherVault.Snapshot.Spared
import CipherVault.Store.AccountStore
import CipherVault.Store.EpochKeys
import CipherVault.Store.Keyring
import CipherVault.Store.Migrations
