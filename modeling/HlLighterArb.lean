import HlLighterArb.Lib.Machine
import HlLighterArb.Types
import HlLighterArb.Exchange
import HlLighterArb.Outcome
import HlLighterArb.Strategy
import HlLighterArb.Core
import HlLighterArb.Hysteresis
import HlLighterArb.Maker.Engine
import HlLighterArb.Maker.Moves
import HlLighterArb.Maker.Fills
import HlLighterArb.Maker.Coupling
import HlLighterArb.Maker.OrderBook
import HlLighterArb.Maker.Delta
import HlLighterArb.Maker.Residual
import HlLighterArb.Maker.Position
import HlLighterArb.Maker.PositionCap
import HlLighterArb.Maker.Placements
import HlLighterArb.Maker.IocSizes
import HlLighterArb.Maker.Speculation
import HlLighterArb.LighterMaker.Engine
import HlLighterArb.LighterMaker.Moves
import HlLighterArb.LighterMaker.Fills
import HlLighterArb.LighterMaker.Placements
import HlLighterArb.LighterMaker.Inventory
import HlLighterArb.Progress
import HlLighterArb.Maker.Stuck
import HlLighterArb.Justified
import HlLighterArb.Marketable
import HlLighterArb.Hl.Signing
import HlLighterArb.Maker.SpeculativeMatch
import HlLighterArb.Lighter.HedgeTotals
import HlLighterArb.Ws.HlWsPost
import HlLighterArb.Ws.HlWsPostLocks
import HlLighterArb.Ws.LighterSendTx
import HlLighterArb.Lighter.PositionFeed
import HlLighterArb.Lighter.IocConfirmation
import HlLighterArb.Lighter.Nonces
import HlLighterArb.Hl.LimitOrder
import HlLighterArb.Hl.ActionAcks
import HlLighterArb.Lighter.AccountFeed
import HlLighterArb.Lighter.LimitOrder
import HlLighterArb.Forgotten
import HlLighterArb.Live.Risk
import HlLighterArb.Live.Loop
import HlLighterArb.Live.ThrowingHedge
import HlLighterArb.Live.Sighted
import HlLighterArb.Live.KillSwitch
import HlLighterArb.Live.Drive
import HlLighterArb.Live.HedgeBreaker
import HlLighterArb.MakerPrices
import HlLighterArb.Hl.WireNumbers
import HlLighterArb.Lighter.FillPrice
import HlLighterArb.Journal.Rows
import HlLighterArb.Journal.Complete
import HlLighterArb.Journal.File
import HlLighterArb.Hl.FillFeed
import HlLighterArb.Hl.TradeFeed
import HlLighterArb.Lighter.AccountMessages
import HlLighterArb.RateLimits
import HlLighterArb.StrategyTwins
import HlLighterArb.Live.Reconciliation
import HlLighterArb.Hl.HexBytes
import HlLighterArb.Lighter.TxResponse
import HlLighterArb.Ws.PostPayload
import HlLighterArb.Hl.Keccak
import HlLighterArb.Ws.Delivery
import HlLighterArb.Lighter.NonceRaces
import HlLighterArb.Ws.LifecycleClient
import HlLighterArb.Ws.Subscriptions
import HlLighterArb.Market.Trader
import HlLighterArb.Live.Inbox
import HlLighterArb.LighterMaker.OrderBook
import HlLighterArb.Lib.JsonParser
import HlLighterArb.Lib.TypedData
import HlLighterArb.Hl.SignedRequests
import HlLighterArb.Lib.FormEncoding
import HlLighterArb.Lighter.SendPaths
import HlLighterArb.Lighter.AccountQuery
import HlLighterArb.Lib.Matches
import HlLighterArb.Hl.Meta
import HlLighterArb.Live.LighterLoop
import HlLighterArb.DryRun
