import Discode.ActiveQuota
import Discode.AnsiSeams
import Discode.BaseUrl
import Discode.BlankChunks
import Discode.ChildEnv
import Discode.ConfigSecrets
import Discode.ControlBind
import Discode.Cooloffs
import Discode.CreationOutcome
import Discode.DeliveryGuarantees
import Discode.DiscordSend
import Discode.FilterOverrides
import Discode.InactivitySweeps
import Discode.HelpChunks
import Discode.InputRateLimit
import Discode.JobRetention
import Discode.LoopSurvival
import Discode.MessageChunks
import Discode.NoticeGuarantees
import Discode.OutboxRelay
import Discode.OutboundRetention
import Discode.OutputQuota
import Discode.OutputReaders
import Discode.ParsedTokens
import Discode.PendingClaims
import Discode.PoisonMessages
import Discode.PromptGuard
import Discode.RecordedReplies
import Discode.RedactedValues
import Discode.RedactionGuarantees
import Discode.ReplyDelivery
import Discode.SchedulerGuarantees
import Discode.StaleArchives
import Discode.StreamRetention
import Discode.Superseded
import Discode.SweepLock
import Discode.Takeovers
import Discode.ToolDeadlines
import Discode.ToolEdits
import Discode.TypingAttribution
import Discode.UnclaimedGuilds
import Discode.UsableAliases
import Discode.WorkspaceJobs
