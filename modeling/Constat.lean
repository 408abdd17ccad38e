import Constat.Freshness
import Constat.Verdicts
import Constat.Savings
import Constat.Focus.ResourceCost
import Constat.Focus.Legacy
import Constat.Focus.RowCount
import Constat.Focus.Refresh
import Constat.Focus.Keys
import Constat.Currency
import Constat.Outbox
import Constat.RetryOnce
import Constat.TenantKeys
import Constat.TenantWorkers
import Constat.Durability
import Constat.RuleIdempotence
import Constat.ChargebackEvents
import Constat.DrainThreads
import Constat.StoppedStorage
import Constat.ReplayRun
import Constat.Focus.Provenance
import Constat.FactArrivals
import Constat.NewestSource
import Constat.Rules.Timeline
import Constat.StaleReceipts
import Constat.SqsReceive
import Constat.Focus.ExactCosts
import Constat.CacheDiscipline
import Constat.EuroAmounts
import Constat.Focus.Coverage
import Constat.ApiKeys
import Constat.CircuitBreaker
import Constat.Retention
import Constat.CollectTargets
import Constat.Onboarding
import Constat.Listings
import Constat.HistorySummary
import Constat.InsightExport
import Constat.Access
import Constat.ApiHandlers
import Constat.Authorization
import Constat.Fleet
import Constat.Workflow
import Constat.CollectInvariants
import Constat.Evidence
import Constat.Tenancy
import Constat.JobStatus
import Constat.Watchdog
import Constat.QueueFairness
import Constat.RunInsights
import Constat.WebClient
import Constat.Focus.ServiceNames
import Constat.AwsCli
