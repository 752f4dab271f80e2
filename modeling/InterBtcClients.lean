import InterBtcClients.Vault.Types
import InterBtcClients.Runtime.Types
import InterBtcClients.Vault.Rescan
import InterBtcClients.Library.Prog
import InterBtcClients.Vault.PastIssues
import InterBtcClients.Vault.VaultIds
import InterBtcClients.Vault.Cancellation
import InterBtcClients.Library.Valuation
import InterBtcClients.Oracle.Currency
import InterBtcClients.Oracle.Config
import InterBtcClients.Oracle.Consistent
import InterBtcClients.Oracle.Feeds
import InterBtcClients.Runner.Runner
import InterBtcClients.Runner.Checksum
import InterBtcClients.Runner.Download
import InterBtcClients.Runner.Termination
import InterBtcClients.Bitcoin.Types
import InterBtcClients.Bitcoin.Bytes
import InterBtcClients.Bitcoin.Electrs
import InterBtcClients.Bitcoin.Wallet
import InterBtcClients.Bitcoin.Light
import InterBtcClients.Bitcoin.Funding
import InterBtcClients.Bitcoin.Change
import InterBtcClients.Bitcoin.FeeBump
import InterBtcClients.Bitcoin.History
import InterBtcClients.Bitcoin.Pages
import InterBtcClients.Runtime.Addr
import InterBtcClients.Vault.Execution
import InterBtcClients.Library.Interleave
import InterBtcClients.Vault.Startup
import InterBtcClients.Vault.Dispatch
import InterBtcClients.Vault.Recognition
import InterBtcClients.Vault.PrunedIssues
import InterBtcClients.Vault.PrunedRescan
import InterBtcClients.Vault.Readers
import InterBtcClients.Bitcoin.Core
import InterBtcClients.Bitcoin.LightChain
import InterBtcClients.Bitcoin.Chain
import InterBtcClients.Bitcoin.Confirmations
import InterBtcClients.Bitcoin.BlockStream
import InterBtcClients.Bitcoin.StartupScan
import InterBtcClients.Library.Loop
import InterBtcClients.Vault.Inclusion
import InterBtcClients.Vault.Fulfilment
import InterBtcClients.Library.Pool
import InterBtcClients.Library.Log
import InterBtcClients.Faucet.Http
import InterBtcClients.Faucet.Cooldown
import InterBtcClients.Bitcoin.CoreRescan
import InterBtcClients.Bitcoin.CreationLock
import InterBtcClients.Vault.CancellationStart
import InterBtcClients.Relay.Chains
import InterBtcClients.Relay.Runner
import InterBtcClients.Relay.CatchUp
import InterBtcClients.Runtime.Nonce
import InterBtcClients.Runtime.Gaps
import InterBtcClients.Runtime.AtMostOnce
import InterBtcClients.Runtime.Events
import InterBtcClients.Runtime.Shutdown
import InterBtcClients.Runtime.Submission
import InterBtcClients.Library.Inevitable
import InterBtcClients.Vault.Tasks
import InterBtcClients.Vault.Restarts
import InterBtcClients.Library.Session
import InterBtcClients.Runner.OneChild
import InterBtcClients.Vault.Process
import InterBtcClients.Vault.PidFile
import InterBtcClients.Faucet.Limiter
import InterBtcClients.Runtime.Assets
import InterBtcClients.Vault.Names
import InterBtcClients.Library.Covering
import InterBtcClients.Bitcoin.Selection
import InterBtcClients.Bitcoin.Available
import InterBtcClients.Bitcoin.Sizes
import InterBtcClients.Bitcoin.Amounts
import InterBtcClients.Bitcoin.FeeAdequacy
import InterBtcClients.Bitcoin.Economical
import InterBtcClients.Vault.Payment
import InterBtcClients.Vault.Remaining
import InterBtcClients.Vault.BlockEvent
import InterBtcClients.Vault.IssueSet
import InterBtcClients.Vault.IssueWatch
import InterBtcClients.Vault.IssueExecution
import InterBtcClients.Bitcoin.LargestPayment
import InterBtcClients.Library.Tiling
import InterBtcClients.Vault.RescanOrder
import InterBtcClients.Vault.RescanChunks
import InterBtcClients.Runtime.AssetCaches
import InterBtcClients.Runtime.RoundTrip
import InterBtcClients.Runtime.SymbolResolution
import InterBtcClients.Library.Ranking
import InterBtcClients.Vault.Delay
import InterBtcClients.Bitcoin.ReverseStream
import InterBtcClients.Relay.StartHeight
import InterBtcClients.Relay.Initialization
import InterBtcClients.Bitcoin.UnknownScripts
import InterBtcClients.Bitcoin.BumpSafety
import InterBtcClients.Library.Hex
import InterBtcClients.Library.Codec
import InterBtcClients.Faucet.JsonRpc
import InterBtcClients.Vault.Faucet
import InterBtcClients.Vault.Recovery
import InterBtcClients.Library.Join
import InterBtcClients.Library.Median
import InterBtcClients.Library.Near
import InterBtcClients.Oracle.Rounds
import InterBtcClients.Oracle.Robust
import InterBtcClients.Vault.Registration
import InterBtcClients.Vault.Replace
import InterBtcClients.Relay.Relayer
