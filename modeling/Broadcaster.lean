import Broadcaster.OpenIntent
import Broadcaster.SubscriptionExtension
import Broadcaster.BrokenSchedule
import Broadcaster.NextAfter
import Broadcaster.ScheduleRules
import Broadcaster.PlannerRuns
import Broadcaster.ScheduleRoutes
import Broadcaster.SchedulePages
import Broadcaster.ScheduleMachine
import Broadcaster.ScheduleEdits
import Broadcaster.PlannerRaces
import Broadcaster.ScheduleChange
import Broadcaster.ActiveSchedules
import Broadcaster.ScheduleOwnership
import Broadcaster.RequestIdentity
import Broadcaster.UnitOfWork
import Broadcaster.SendResults
import Broadcaster.PasswordReset
import Broadcaster.CodeGuesses
import Broadcaster.AccountWorker
import Broadcaster.TaskConservation
import Broadcaster.WorkerLosses
import Broadcaster.RepeatedDelivery
import Broadcaster.QueueManager
import Broadcaster.AccessCache
import Broadcaster.AccessAxis
import Broadcaster.QrSessions
import Broadcaster.QrIsolation
import Broadcaster.GroupDeletion
import Broadcaster.ConnectWizard
import Broadcaster.GroupSync
import Broadcaster.ContainerManager
import Broadcaster.RetryWindow
import Broadcaster.RetryChecks
import Broadcaster.AdEditor
import Broadcaster.Events
import Broadcaster.EditorPage
import Broadcaster.AttachmentSafety
import Broadcaster.AttachmentTray
import Broadcaster.EditorClicks
import Broadcaster.CalendarMonths
import Broadcaster.PaidMonth
import Broadcaster.TimeSpelling
import Broadcaster.NearestSlot
import Broadcaster.RepeatedGroups
import Broadcaster.OkResults
import Broadcaster.GroupResync
import Broadcaster.Reconciliation
import Broadcaster.ResyncFuse
import Broadcaster.ResyncRefinement
import Broadcaster.ChatPages
import Broadcaster.ChatTies
import Broadcaster.RateLimiter
import Broadcaster.HistoryScroll
import Broadcaster.Incidents
import Broadcaster.DropTask
import Broadcaster.QueueRows
import Broadcaster.GoStrings
import Broadcaster.LogSearch
import Broadcaster.UploadKeys
import Broadcaster.Redirects
import Broadcaster.ImpersonationBan
import Broadcaster.TableStatements
import Broadcaster.FlatSubscription
import Broadcaster.FirstOccurrences
import Broadcaster.GroupMerge
import Broadcaster.ScheduleRemap
import Broadcaster.Recompress
import Broadcaster.RecompressReport
import Broadcaster.RecompressRuns
import Broadcaster.SqlLike
import Broadcaster.UsersQuery
import Broadcaster.ChatAddressing
import Broadcaster.PromiseChain
import Broadcaster.SendLocks
import Broadcaster.Csv
import Broadcaster.GroupsPage
import Broadcaster.HistoryExport
import Broadcaster.Sessions
import Broadcaster.TelegramSend
import Broadcaster.UpcomingSends
import Broadcaster.UploadStore
import Broadcaster.WaSession
import Broadcaster.MaxSession
import Broadcaster.SendJourney
import Broadcaster.ResyncRaces
import Broadcaster.ContainerRaces
import Broadcaster.TrialRaces
