import Upstat.BusConsumer
import Upstat.RedriveDispatcher
import Upstat.SeriesAssembly
import Upstat.IncidentAgreement
import Upstat.PausedIncidents
import Upstat.EvaluatorTickOrder
import Upstat.EvaluatorCrashes
import Upstat.MonitoringSystem
import Upstat.ResumedMonitors
import Upstat.NodataTimer
import Upstat.NotifierOrdering
import Upstat.FlappingEdges
import Upstat.FlappingGuard
import Upstat.DeliveryOutcomes
import Upstat.DurableDeliveries
import Upstat.CooldownStamps
import Upstat.StillDown
import Upstat.RepeatedHandlings
import Upstat.RuleChanges
import Upstat.PrintedQueries
import Upstat.RuleQueries
import Upstat.DerivedQueries
import Upstat.CompiledShapes
import Upstat.CompiledColumns
import Upstat.RowLocks
import Upstat.OrgOwners
import Upstat.ClientAddresses
import Upstat.QuotaWindows
import Upstat.SignInHandoffs
import Upstat.EventBatches
import Upstat.ConfigCopies
import Upstat.AccessSnapshots
import Upstat.UsageWindows
import Upstat.OutboxPublisher
import Upstat.StoredSnapshots
import Upstat.PublishedRows
import Upstat.CheckLeases
import Upstat.EvaluationWindows
import Upstat.MonitorTraces
import Upstat.FreeTextWords
import Upstat.MarkedFields
import Upstat.SeriesKeys
import Upstat.RuleValues
import Upstat.FailureRetries
import Upstat.InsightQueue
import Upstat.SlidingWindows
import Upstat.SSOVerdicts
import Upstat.ProbeAddresses
import Upstat.ProbeRequests
import Upstat.DoubleNumbers
import Upstat.NumberTexts
import Upstat.JsonTexts
import Upstat.StoredDashboards
import Upstat.PortableDashboards
import Upstat.WordTexts
import Upstat.TrimmedAggregations
import Upstat.QueryPills
import Upstat.ParserProgress
import Upstat.BudgetStatus
import Upstat.StaleReads
import Upstat.ChannelOutcomes
import Upstat.RotatedKeys
import Upstat.ThresholdBands
import Upstat.LogPages
import Upstat.StepWidths
import Upstat.RuleRotation
import Upstat.Base64Texts
import Upstat.VisitorSalts
import Upstat.VirtualWindows
import Upstat.SourceAddresses
import Upstat.HourlyInsights
import Upstat.LiveTails
import Upstat.CalendarTexts
import Upstat.UrlParams
import Upstat.TimeRanges
import Upstat.HistogramTotals
import Upstat.AddressGuards
import Upstat.TickAnswers
import Upstat.Occurrences
import Upstat.CallPositions
import Upstat.FollowedWrites
import Upstat.MissedRecoveries
import Upstat.TiedSorts
import Upstat.SeriesOrder
import Upstat.EscapedTexts
import Upstat.QueryValues
import Upstat.SentParameters
import Upstat.LabelClasses
import Upstat.SessionWindows
import Upstat.VisitReports
import Upstat.Rollups
import Upstat.StatsReads
import Upstat.BacktrackingPatterns
import Upstat.ExpiringMaps
import Upstat.FilteredCounts
import Upstat.IncidentNumbers
import Upstat.IngressBodies
import Upstat.MonitorSettings
import Upstat.PostgresMigrations
import Upstat.ProbedTicks
import Upstat.ResultCache
import Upstat.SignInStarts
import Upstat.StatementTexts
import Upstat.StoredTraces
import Upstat.SyntheticRuns
import Upstat.TelemetryMigrations
