import Perpetual.BadDebt
import Perpetual.Payout
import Perpetual.Authorisation
import Perpetual.ConcurrentPosts
import Perpetual.SequentialPosts
import Perpetual.Cancellation
import Perpetual.FundingOracle
import Perpetual.PriceProtection
import Perpetual.FundingFrequency
import Perpetual.Timelock
import Perpetual.DeleveragingRuns
import Perpetual.MarkAgreement
import Perpetual.Quote
import Perpetual.MatchLimits
import Perpetual.OperatorNeutrality
import Perpetual.Subscribers
import Perpetual.Takeover
import Perpetual.SafetyBounds
import Perpetual.MirrorSync
import Perpetual.BridgeMoves
import Perpetual.UncrossedBook
import Perpetual.Decimals
import Perpetual.HexText
import Perpetual.OrderTexts
import Perpetual.ClientTrades
import Perpetual.OrderIdentity
import Perpetual.Passes
import Perpetual.EncodedAmounts
import Perpetual.InverseProtection
import Perpetual.LiquidationLimits
import Perpetual.CancelRequests
import Perpetual.LoggedWords
import Perpetual.AdjustedPrices
import Perpetual.FundingRate
import Perpetual.CurrentBalances
import Perpetual.LogReplay
import Perpetual.ContractLogs
import Perpetual.BehindChain
import Perpetual.ClientSignatures
import Perpetual.AccountLedger
import Perpetual.BatchMerging
import Perpetual.BlockOrder
import Perpetual.FundingLimits
import Perpetual.BuiltOperations
import Perpetual.Heartbeats
import Perpetual.PostedOrders
import Perpetual.PublishedRates
import Perpetual.SignedPrices
import Perpetual.Paging
import Perpetual.OrderQueries
import Perpetual.TradeHistoryPages
import Perpetual.Replica
import Perpetual.OrderUpdates
import Perpetual.Proxies
import Perpetual.Strangers
import Perpetual.TradeCauses
import Perpetual.Consent
