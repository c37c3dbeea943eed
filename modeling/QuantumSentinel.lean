import QuantumSentinel.Lib.Transition
import QuantumSentinel.Lib.RealFunctions
import QuantumSentinel.Lib.Trellis
import QuantumSentinel.Lib.ForwardBackward
import QuantumSentinel.Regime.GaussianHmm
import QuantumSentinel.Regime.Decoding
import QuantumSentinel.Regime.Training
import QuantumSentinel.Signals.SignalCache
import QuantumSentinel.Signals.OnDemand
import QuantumSentinel.Lib.Dict
import QuantumSentinel.Jobs.Model
import QuantumSentinel.Jobs.Machine
import QuantumSentinel.Jobs.Lifecycle
import QuantumSentinel.Jobs.Cancellation
import QuantumSentinel.Lib.Rounding
import QuantumSentinel.Broker.Ledger
import QuantumSentinel.Broker.LimitFills
import QuantumSentinel.Broker.Sweeper
import QuantumSentinel.Broker.Machine
import QuantumSentinel.Broker.Effects
import QuantumSentinel.Broker.Conservation
import QuantumSentinel.Lib.CostPool
import QuantumSentinel.Broker.Positions
import QuantumSentinel.Broker.PositionFolds
import QuantumSentinel.Broker.FillRace
import QuantumSentinel.Exchange.Types
import QuantumSentinel.Lib.SortedKeys
import QuantumSentinel.Exchange.Book
import QuantumSentinel.Exchange.BookInvariant
import QuantumSentinel.Exchange.BookEffects
import QuantumSentinel.Exchange.Feed
import QuantumSentinel.Exchange.BookIdentity
import QuantumSentinel.Exchange.Engine
import QuantumSentinel.Exchange.PaperExchange
import QuantumSentinel.Exchange.ProfitAndLoss
import QuantumSentinel.Exchange.Desk
import QuantumSentinel.Exchange.PaperOrders
import QuantumSentinel.Exchange.PaperChanges
import QuantumSentinel.Exchange.Sweeps
import QuantumSentinel.Lib.Allocation
import QuantumSentinel.Exchange.Allotment
import QuantumSentinel.Exchange.GreedyFills
import QuantumSentinel.Exchange.PassiveFills
import QuantumSentinel.Exchange.BuyEstimate
import QuantumSentinel.Exchange.FillOrKill
import QuantumSentinel.Exchange.Marketable
import QuantumSentinel.Exchange.Executions
import QuantumSentinel.Exchange.EngineMoves
import QuantumSentinel.Exchange.DeskRuns
import QuantumSentinel.Exchange.Submissions
import QuantumSentinel.Exchange.Expiry
import QuantumSentinel.Exchange.ExecutionReport
import QuantumSentinel.Exchange.Confinement
import QuantumSentinel.Exchange.Latency
import QuantumSentinel.Exchange.LongOnly
import QuantumSentinel.Exchange.ReplaySession
import QuantumSentinel.Exchange.SessionBounds
import QuantumSentinel.Exchange.DeskInvariants
import QuantumSentinel.Exchange.Lifecycle
import QuantumSentinel.Exchange.ShortSales
import QuantumSentinel.Exchange.Settlement
import QuantumSentinel.Auth.Tokens
import QuantumSentinel.Auth.Revocation
import QuantumSentinel.Lib.Bytes
import QuantumSentinel.Lib.Json
import QuantumSentinel.Lib.JsonRead
import QuantumSentinel.Lib.PyObject
import QuantumSentinel.Datasets.Schema
import QuantumSentinel.Datasets.Tables
import QuantumSentinel.Datasets.Rows
import QuantumSentinel.Lib.Rearrange
import QuantumSentinel.Datasets.RowOrder
import QuantumSentinel.Datasets.DuplicateKeys
import QuantumSentinel.Datasets.ContentId
import QuantumSentinel.Datasets.Blob
import QuantumSentinel.Datasets.RoundTrip
import QuantumSentinel.Datasets.AcceptedBlobs
import QuantumSentinel.Datasets.Store
import QuantumSentinel.Backtest.Signals
import QuantumSentinel.Backtest.Execution
import QuantumSentinel.Backtest.Engine
import QuantumSentinel.Backtest.NoLookAhead
import QuantumSentinel.Backtest.EventSimulator
import QuantumSentinel.Backtest.EventNoLookAhead
import QuantumSentinel.Backtest.SignalTiming
import QuantumSentinel.Backtest.Exactness
import QuantumSentinel.Backtest.EventNumbers
import QuantumSentinel.Datasets.EqualBlobs
import QuantumSentinel.Datasets.KeyOrder
import QuantumSentinel.Backtest.BorrowCharges
import QuantumSentinel.Lib.Doubles
import QuantumSentinel.Backtest.Doubles
import QuantumSentinel.Backtest.CashRuns
import QuantumSentinel.Backtest.FlatSignals
import QuantumSentinel.Backtest.Folds
import QuantumSentinel.Orders.Idempotency
import QuantumSentinel.Orders.SingleOrder
import QuantumSentinel.Audit.Chain
import QuantumSentinel.Audit.GroupCommit
import QuantumSentinel.Audit.Appends
import QuantumSentinel.Audit.Status
import QuantumSentinel.Audit.Tamper
import QuantumSentinel.Audit.Incremental
import QuantumSentinel.Audit.EventSignatures
import QuantumSentinel.Risk.KillSwitches
import QuantumSentinel.Integration.Replay
import QuantumSentinel.Orders.SignedOrder
import QuantumSentinel.Crypto.MessageProtocol
import QuantumSentinel.Crypto.Channel
import QuantumSentinel.Lib.JsonValues
import QuantumSentinel.Research.Experiments
import QuantumSentinel.Research.Recording
import QuantumSentinel.Research.Validation
import QuantumSentinel.Jobs.Enqueueing
import QuantumSentinel.Research.Trials
import QuantumSentinel.MarketData.Series
import QuantumSentinel.MarketData.TotalReturn
import QuantumSentinel.MarketData.Windows
import QuantumSentinel.MarketData.Merging
import QuantumSentinel.MarketData.Dividends
import QuantumSentinel.MarketData.Frames
import QuantumSentinel.MarketData.FrameRuns
import QuantumSentinel.MarketData.Reruns
import QuantumSentinel.Quotes.QuoteCache
import QuantumSentinel.Lib.Ranking
import QuantumSentinel.Strategies.LongShort
import QuantumSentinel.Lib.Correlation
import QuantumSentinel.Research.Spearman
import QuantumSentinel.Research.Factors
import QuantumSentinel.Regime.Detectors
import QuantumSentinel.Strategies.KalmanHedge
import QuantumSentinel.Research.InformationCoefficients
import QuantumSentinel.Research.Causality
import QuantumSentinel.Strategies.PairsTrading
import QuantumSentinel.Lib.Bisection
import QuantumSentinel.Portfolio.Projection
import QuantumSentinel.Portfolio.Optimisers
import QuantumSentinel.Portfolio.Optimization
import QuantumSentinel.Crypto.Gaps
import QuantumSentinel.Lib.StepUp
import QuantumSentinel.Signals.Bifurcation
import QuantumSentinel.Portfolio.NearestPoint
import QuantumSentinel.Lib.NearestPoint
import QuantumSentinel.Lib.Bartlett
import QuantumSentinel.Statistics.NeweyWest
import QuantumSentinel.Statistics.MultipleTesting
import QuantumSentinel.Lib.Moments
import QuantumSentinel.Lib.OrderedDict
import QuantumSentinel.Lib.TimeWindow
import QuantumSentinel.Api.RequestLimiter
import QuantumSentinel.Lib.NdArray
import QuantumSentinel.Native.BacktestLoop
import QuantumSentinel.Native.RollingCorr
import QuantumSentinel.Auth.Lockout
import QuantumSentinel.Lib.StandardNormal
import QuantumSentinel.Statistics.DeflatedSharpe
import QuantumSentinel.Native.Agreement
import QuantumSentinel.Jobs.JobProcess
