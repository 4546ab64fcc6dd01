import MetherCEX.Engine.Overfill
import MetherCEX.Engine.BestExecution
import MetherCEX.Engine.EventBuffer
import MetherCEX.Engine.ReplayRefines
import MetherCEX.Wal.Replay
import MetherCEX.Wal.Durability
import MetherCEX.Concurrent.Poller
import MetherCEX.Concurrent.SnapshotConsistency
import MetherCEX.Process.FailedPlacements
import MetherCEX.Process.ForgottenFills
import MetherCEX.Auth.EngineHmac
import MetherCEX.Spot.Immediate
import MetherCEX.Spot.PostOnly
import MetherCEX.Spot.TimePriority
import MetherCEX.Spot.FailedCall
import MetherCEX.Spot.CancelledOff
import MetherCEX.Spot.Leftover
import MetherCEX.Spot.BookStream
import MetherCEX.Settlement.Status
import MetherCEX.Settlement.Persistence
import MetherCEX.Settlement.PollCursor
import MetherCEX.Deposit.Blocked
import MetherCEX.Indexer.Blocks
import MetherCEX.Admin.Decisions
import MetherCEX.Admin.Quorum
import MetherCEX.Engine.MarketIsolation
import MetherCEX.Wal.RestoredRun
import MetherCEX.Spot.LockCoversFills
import MetherCEX.Wal.Compaction
import MetherCEX.Settlement.EventHash
import MetherCEX.Settlement.LedgerChain
import MetherCEX.Spot.FeeReserve
import MetherCEX.Spot.SelfTrades
import MetherCEX.Spot.StaysClosed
import MetherCEX.Spot.TradingBalance
import MetherCEX.BookWriter.Lease
import MetherCEX.BookWriter.Messages
import MetherCEX.P2P.Conservation
import MetherCEX.P2P.Liquidity
import MetherCEX.P2P.Expiry
import MetherCEX.Withdrawal.Cost
import MetherCEX.Indexer.Transfers
import MetherCEX.Settlement.Audit
import MetherCEX.Indexer.Depth
import MetherCEX.Wallet.FundingLocks
import MetherCEX.Wallet.Transfer
import MetherCEX.Withdrawal.HotWallet
import MetherCEX.P2P.EscrowCap
import MetherCEX.Session.Locks
