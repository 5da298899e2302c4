import LoadReplay.Abort.Signal
import LoadReplay.Abort.Watch
import LoadReplay.Clock.Manual
import LoadReplay.Clock.Shared
import LoadReplay.Config.Basic
import LoadReplay.Config.Document
import LoadReplay.Config.Load
import LoadReplay.Document.Format
import LoadReplay.Document.FromJson
import LoadReplay.Document.Read
import LoadReplay.Document.Tree
import LoadReplay.Json.Lexer
import LoadReplay.Json.Numeral
import LoadReplay.Json.Reader
import LoadReplay.Json.Value
import LoadReplay.Json.Writer
import LoadReplay.Metric.Encode
import LoadReplay.Metric.Percentile
import LoadReplay.Metric.Recorder
import LoadReplay.Metric.Sample
import LoadReplay.Metric.Selection
import LoadReplay.Number.Binary
import LoadReplay.Number.Fixed
import LoadReplay.Number.Layout
import LoadReplay.Number.Reader
import LoadReplay.Number.Scalar
import LoadReplay.Number.Shortest
import LoadReplay.Number.Whole
import LoadReplay.Random.Draw
import LoadReplay.Random.Stream
import LoadReplay.Rehearsal.Outcome
import LoadReplay.Rehearsal.State
import LoadReplay.Rehearsal.Step
import LoadReplay.Rehearsal.Target
import LoadReplay.Run.Budget
import LoadReplay.Run.Controller
import LoadReplay.Run.Crew
import LoadReplay.Run.Dispatch
import LoadReplay.Run.Execution
import LoadReplay.Run.Gauge
import LoadReplay.Run.Monitor
import LoadReplay.Run.Nap
import LoadReplay.Run.Pause
import LoadReplay.Run.Plan
import LoadReplay.Run.Report
import LoadReplay.Run.Scene
import LoadReplay.Run.Solo
import LoadReplay.Run.Turnover
import LoadReplay.Run.User
import LoadReplay.Run.Vigil
import LoadReplay.Scenario.Basic
import LoadReplay.Scenario.Executor
import LoadReplay.Scenario.Ramp
import LoadReplay.Setup.Definition
import LoadReplay.Setup.Error
import LoadReplay.SortedMap
import LoadReplay.Span.Basic
import LoadReplay.Span.Compound
import LoadReplay.Span.Reader
import LoadReplay.Span.Text
import LoadReplay.Store.Files
import LoadReplay.Store.Path
import LoadReplay.Summary.Basic
import LoadReplay.Summary.Digest
import LoadReplay.Summary.File
import LoadReplay.Summary.Store
import LoadReplay.Table.Figures
import LoadReplay.Table.Grid
import LoadReplay.Tag.Basic
import LoadReplay.Tag.Filter
import LoadReplay.Text.Blank
import LoadReplay.Text.Split
import LoadReplay.Text.Width
import LoadReplay.Threshold.Condition
import LoadReplay.Threshold.Rule
import LoadReplay.Toml.Number
import LoadReplay.Toml.Reader
import LoadReplay.Toml.Table
import LoadReplay.Toml.Text
import LoadReplay.Url.Basic
import LoadReplay.Url.Domain
import LoadReplay.Url.Escape
import LoadReplay.Url.Host
import LoadReplay.Url.Reader
import LoadReplay.Workload.Catalog
import LoadReplay.Yaml.Cursor
import LoadReplay.Yaml.Property
import LoadReplay.Yaml.Reader
import LoadReplay.Yaml.Resolve
import LoadReplay.Yaml.Scalar
import LoadReplay.Yaml.Scanner
import LoadReplay.Yaml.Token
import LoadReplay.Proofs.Accounts
import LoadReplay.Proofs.Addresses
import LoadReplay.Proofs.Amounts
import LoadReplay.Proofs.Authorities
import LoadReplay.Proofs.Befalls
import LoadReplay.Proofs.Binary64
import LoadReplay.Proofs.Bookkeeping
import LoadReplay.Proofs.Callers
import LoadReplay.Proofs.CalmLife
import LoadReplay.Proofs.CompoundReading
import LoadReplay.Proofs.CompoundSums
import LoadReplay.Proofs.CompoundText
import LoadReplay.Proofs.ConditionGrammar
import LoadReplay.Proofs.ConditionText
import LoadReplay.Proofs.ConstantConcurrency
import LoadReplay.Proofs.ConstantControl
import LoadReplay.Proofs.ConstantCrew
import LoadReplay.Proofs.ControlTicks
import LoadReplay.Proofs.CountedDown
import LoadReplay.Proofs.Counting
import LoadReplay.Proofs.Coverage
import LoadReplay.Proofs.Draws
import LoadReplay.Proofs.DurationText
import LoadReplay.Proofs.Escaping
import LoadReplay.Proofs.ExecutorText
import LoadReplay.Proofs.FilterText
import LoadReplay.Proofs.Fingerprint
import LoadReplay.Proofs.FixedCrew
import LoadReplay.Proofs.FixedIterations
import LoadReplay.Proofs.FlatLog
import LoadReplay.Proofs.FlatSelection
import LoadReplay.Proofs.GaugeBalance
import LoadReplay.Proofs.Haste
import LoadReplay.Proofs.Histogram
import LoadReplay.Proofs.Identity
import LoadReplay.Proofs.IdleScenarios
import LoadReplay.Proofs.Iteration
import LoadReplay.Proofs.JoinedReports
import LoadReplay.Proofs.JsonReading
import LoadReplay.Proofs.JsonTokens
import LoadReplay.Proofs.Ledger
import LoadReplay.Proofs.Life
import LoadReplay.Proofs.Lives
import LoadReplay.Proofs.LoopProgress
import LoadReplay.Proofs.Naps
import LoadReplay.Proofs.Overflow
import LoadReplay.Proofs.Overrides
import LoadReplay.Proofs.Pacing
import LoadReplay.Proofs.Percentiles
import LoadReplay.Proofs.PlainText
import LoadReplay.Proofs.Plans
import LoadReplay.Proofs.PromptStop
import LoadReplay.Proofs.RampCrew
import LoadReplay.Proofs.RampLine
import LoadReplay.Proofs.RampSafety
import LoadReplay.Proofs.RampTimeline
import LoadReplay.Proofs.Readings
import LoadReplay.Proofs.Replay
import LoadReplay.Proofs.Reproducible
import LoadReplay.Proofs.Results
import LoadReplay.Proofs.Rounding
import LoadReplay.Proofs.Rules
import LoadReplay.Proofs.SampleTimes
import LoadReplay.Proofs.Scaling
import LoadReplay.Proofs.Scene
import LoadReplay.Proofs.SceneTurnover
import LoadReplay.Proofs.Schedules
import LoadReplay.Proofs.Seeds
import LoadReplay.Proofs.SharedClock
import LoadReplay.Proofs.Statistics
import LoadReplay.Proofs.SummaryFiles
import LoadReplay.Proofs.SummaryRecords
import LoadReplay.Proofs.SummaryRows
import LoadReplay.Proofs.TagFigures
import LoadReplay.Proofs.Targets
import LoadReplay.Proofs.ThresholdAbort
import LoadReplay.Proofs.Timeline
import LoadReplay.Proofs.Totals
import LoadReplay.Proofs.Trimming
import LoadReplay.Proofs.Turnover
import LoadReplay.Proofs.UsersLeft
import LoadReplay.Proofs.Validation
import LoadReplay.Proofs.Verdicts
import LoadReplay.Proofs.Wakeups
import LoadReplay.Proofs.WebUrls
import LoadReplay.Proofs.WholeSeconds
