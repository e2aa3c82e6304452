import PolyglotInfinity.Lib.Transition
import PolyglotInfinity.Lib.RowLock
import PolyglotInfinity.Lib.Extended
import PolyglotInfinity.Lib.Query
import PolyglotInfinity.Lib.Uri
import PolyglotInfinity.Lib.ParseDouble
import PolyglotInfinity.Ledger.Reconcile
import PolyglotInfinity.Ledger.Server
import PolyglotInfinity.Orders.StatusLaws
import PolyglotInfinity.Saga.Outcome
import PolyglotInfinity.Saga.Url
import PolyglotInfinity.Matrix.Ffi
import PolyglotInfinity.Matrix.Cholesky
import PolyglotInfinity.Matrix.Decompose
import PolyglotInfinity.Matrix.Variance
import PolyglotInfinity.PipelineRust.BulkInsert
import PolyglotInfinity.Apm.Percentiles
import PolyglotInfinity.Gateway.ApmDrainer
import PolyglotInfinity.Gateway.Requests
import PolyglotInfinity.Gateway.Interleaving
import PolyglotInfinity.Gateway.Proxy
import PolyglotInfinity.Gateway.Registry
import PolyglotInfinity.Gateway.Delivery
import PolyglotInfinity.Orders.Coordination
import PolyglotInfinity.Ledger.Total
import PolyglotInfinity.Apm.Burst
import PolyglotInfinity.Apm.Encode
import PolyglotInfinity.HotErlang.Server
import PolyglotInfinity.ActorSwift.Portfolio
import PolyglotInfinity.Orders.Publish
import PolyglotInfinity.SolverProlog.Server
import PolyglotInfinity.ActorSwift.Sockets
import PolyglotInfinity.TerminalElm.Update
import PolyglotInfinity.HubElixir.Handler
import PolyglotInfinity.HubElixir.Snapshots
import PolyglotInfinity.BrainPython.Crossovers
import PolyglotInfinity.BrainPython.Frames
import PolyglotInfinity.HubGleam.Decimals
import PolyglotInfinity.HubGleam.Cosine
import PolyglotInfinity.Orders.ToJson
import PolyglotInfinity.Gateway.StatusHandler
import PolyglotInfinity.EngineJulia.Risk
import PolyglotInfinity.Engines.TailRisk
import PolyglotInfinity.GatewayCrystal.MaxDrawdown
import PolyglotInfinity.HubGleam.Drawdown
import PolyglotInfinity.PricerHaskell.Stream
import PolyglotInfinity.Engines.BlackScholes
import PolyglotInfinity.Engines.Dcf
import PolyglotInfinity.Lib.Selection
import PolyglotInfinity.PricerFsharp.ImpliedVol
import PolyglotInfinity.WasmZig.Portfolio
import PolyglotInfinity.WasmZig.ValueAtRisk
import PolyglotInfinity.AnalyticsNim.AutoRegression
import PolyglotInfinity.AnalyticsNim.Statistics
import PolyglotInfinity.EngineDart.Duration
import PolyglotInfinity.EngineDart.Spread
import PolyglotInfinity.EngineR.Server
import PolyglotInfinity.Engines.Garch
import PolyglotInfinity.Lib.Doubles
import PolyglotInfinity.RiskOcaml.Margin
import PolyglotInfinity.RiskOcaml.Monotone
import PolyglotInfinity.RiskOcaml.Score
import PolyglotInfinity.StreamerScala.Stats
import PolyglotInfinity.Engines.Congruential
import PolyglotInfinity.Engines.Xorshift
import PolyglotInfinity.Gateway.RiskWorkflow
import PolyglotInfinity.QuantV.Accounts
import PolyglotInfinity.QuantV.Lookahead
import PolyglotInfinity.QuantV.Results
import PolyglotInfinity.ScorerRuby.Dsl
import PolyglotInfinity.ScorerRuby.Guard
import PolyglotInfinity.StreamLua.Lua
import PolyglotInfinity.StreamLua.Replies
import PolyglotInfinity.TerminalElm.Clock
import PolyglotInfinity.AnalyticsNim.Momentum
import PolyglotInfinity.Apm.Pipeline
import PolyglotInfinity.Gateway.Aggregate
import PolyglotInfinity.Gateway.Collect
import PolyglotInfinity.GatewayCrystal.Fx
import PolyglotInfinity.HubElixir.RedisSubscriber
import PolyglotInfinity.Lib.Backtracking
import PolyglotInfinity.Lib.Copies
import PolyglotInfinity.Lib.Like
import PolyglotInfinity.Lib.RowView
import PolyglotInfinity.Orders.Benchmark
import PolyglotInfinity.Orders.Cleanup
import PolyglotInfinity.Orders.Undisturbed
import PolyglotInfinity.PipelineRust.Summary
import PolyglotInfinity.PortalSvelte.OrderFeed
import PolyglotInfinity.PortalSvelte.SystemStatus
import PolyglotInfinity.SchedulerKotlin.Reports
import PolyglotInfinity.SolverProlog.Portfolio
