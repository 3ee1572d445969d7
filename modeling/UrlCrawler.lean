import UrlCrawler.Library.Execution
import UrlCrawler.Library.KeyedTable
import UrlCrawler.Core.Models
import UrlCrawler.Core.Config
import UrlCrawler.Core.Outbound
import UrlCrawler.Core.Coverage
import UrlCrawler.Core.PageCap
import UrlCrawler.Core.FailureIsolation
import UrlCrawler.Core.ReportLog
import UrlCrawler.Core.LinkExtraction
import UrlCrawler.Core.Idempotence
import UrlCrawler.Core.Inflating
import UrlCrawler.Core.RobotsRecords
import UrlCrawler.Core.RobotsEscapes
import UrlCrawler.Core.RobotsCap
import UrlCrawler.Core.Respelling
import UrlCrawler.Core.Rfc3986
import UrlCrawler.Core.Seed
import UrlCrawler.Core.FetchAnswers
import UrlCrawler.Core.RobotsAnswers
import UrlCrawler.Core.Abort
import UrlCrawler.Core.SeedRedirects
import UrlCrawler.Core.CrawlDelay
import UrlCrawler.Core.Endings
import UrlCrawler.Core.Cli
import UrlCrawler.Core.TextOutput
import UrlCrawler.Service.Orm
import UrlCrawler.Service.Repository
import UrlCrawler.Service.Calls
import UrlCrawler.Service.Lifecycle
import UrlCrawler.Service.Attempts
import UrlCrawler.Service.Transactions
import UrlCrawler.Service.CancelRace
import UrlCrawler.Service.Reporter
import UrlCrawler.Service.Worker
import UrlCrawler.Service.System
import UrlCrawler.Service.Fence
import UrlCrawler.Service.StoredPages
import UrlCrawler.Service.FinishedCrawls
import UrlCrawler.Service.CrawlJobs
import UrlCrawler.Service.StatsLease
import UrlCrawler.Service.LateStop
import UrlCrawler.Service.Outcomes
import UrlCrawler.Service.Verdicts
import UrlCrawler.Service.Causes
import UrlCrawler.Service.Paging
import UrlCrawler.Service.SettledPages
import UrlCrawler.Service.Events
import UrlCrawler.Service.PostedCrawls
import UrlCrawler.Service.ServedPages
import UrlCrawler.Service.CreateCrawl
import UrlCrawler.Service.Reaping
import UrlCrawler.Service.ReporterRuns
