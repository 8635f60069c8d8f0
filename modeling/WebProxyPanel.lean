import WebProxyPanel.Db
import WebProxyPanel.Lib.Prog
import WebProxyPanel.Blocked
import WebProxyPanel.Maintain
import WebProxyPanel.Users
import WebProxyPanel.Outer
import WebProxyPanel.Wp
import WebProxyPanel.Invariant
import WebProxyPanel.Rows
import WebProxyPanel.UsersSpec
import WebProxyPanel.PoolSpec
import WebProxyPanel.StageSpec
import WebProxyPanel.CommitSpec
import WebProxyPanel.Commits
import WebProxyPanel.Guarantee
import WebProxyPanel.Rules
import WebProxyPanel.UsersSafe
import WebProxyPanel.MaintainSafe
import WebProxyPanel.Lib.Interleave
import WebProxyPanel.Ops
import WebProxyPanel.Steps
import WebProxyPanel.Global
import WebProxyPanel.Counts
import WebProxyPanel.Bijection
import WebProxyPanel.Links
import WebProxyPanel.Secrets
import WebProxyPanel.Firewall
import WebProxyPanel.Sequential
import WebProxyPanel.FailClosed
import WebProxyPanel.Concurrent
import WebProxyPanel.Inputs
import WebProxyPanel.Alone
import WebProxyPanel.Applied
import WebProxyPanel.Ctl
import WebProxyPanel.Confined
import WebProxyPanel.Sync
import WebProxyPanel.Identity
import WebProxyPanel.Arguments
import WebProxyPanel.Ends
import WebProxyPanel.Effect
import WebProxyPanel.People
import WebProxyPanel.EnabledState
import WebProxyPanel.ManualBan
import WebProxyPanel.Reenable
import WebProxyPanel.RowIds
import WebProxyPanel.Migrate
import WebProxyPanel.MigrateOnce
import WebProxyPanel.RollBack
import WebProxyPanel.Maintained
import WebProxyPanel.Throughout
import WebProxyPanel.Window
import WebProxyPanel.Filled
import WebProxyPanel.Goal
import WebProxyPanel.Rotation
import WebProxyPanel.Served
import WebProxyPanel.Recovery
import WebProxyPanel.Lib.Double
import WebProxyPanel.Sizing
import WebProxyPanel.Sessions
import WebProxyPanel.Lib.Encoding
import WebProxyPanel.ClientLinks
import WebProxyPanel.Script
import WebProxyPanel.CounterNames
import WebProxyPanel.Cuts
import WebProxyPanel.Blocks
import WebProxyPanel.TxLock
import WebProxyPanel.Profile
import WebProxyPanel.Attempts
import WebProxyPanel.Limits
import WebProxyPanel.Refusals
import WebProxyPanel.Nested
import WebProxyPanel.Lib.Twin
import WebProxyPanel.Alongside
import WebProxyPanel.NoLeak
import WebProxyPanel.Sure
import WebProxyPanel.Extending
import WebProxyPanel.Lib.Pattern
import WebProxyPanel.Lib.Literal
import WebProxyPanel.Patterns
import WebProxyPanel.Lib.Files
import WebProxyPanel.Storage
import WebProxyPanel.StorageSteps
import WebProxyPanel.StorageOwned
import WebProxyPanel.StorageTold
import WebProxyPanel.StorageSafe
import WebProxyPanel.Durable
import WebProxyPanel.Installed
import WebProxyPanel.StorageRefine
import WebProxyPanel.Proceeds
import WebProxyPanel.NoDeadlock
import WebProxyPanel.Lib.JsonText
import WebProxyPanel.Lib.Among
import WebProxyPanel.Loads
import WebProxyPanel.Machine
import WebProxyPanel.MachineSteps
import WebProxyPanel.CtlRefines
import WebProxyPanel.Traffic
import WebProxyPanel.Journal
import WebProxyPanel.Chronicle
