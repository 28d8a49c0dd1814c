import CordactylBot.Library.Transition
import CordactylBot.Library.EventLog
import CordactylBot.Library.Numeral
import CordactylBot.Library.Incremental
import CordactylBot.Library.Calendar
import CordactylBot.Json.Value
import CordactylBot.Json.Ordered
import CordactylBot.Dpp.Strings
import CordactylBot.Json.Lexer
import CordactylBot.Json.Parser
import CordactylBot.Json.Grammar
import CordactylBot.Json.Spelling
import CordactylBot.Json.Text
import CordactylBot.Json.Serializer
import CordactylBot.Dpp.Rest.Text
import CordactylBot.Dpp.Rest
import CordactylBot.Dpp.HttpsClient
import CordactylBot.Dpp.HttpsClient.Framing
import CordactylBot.Dpp.HttpsClient.Response
import CordactylBot.Dpp.HttpsClient.Completion
import CordactylBot.Dpp.HttpsClient.Delivery
import CordactylBot.Dpp.RequestQueue
import CordactylBot.Dpp.RequestQueue.Limits
import CordactylBot.Dpp.RequestQueue.Serial
import CordactylBot.Dpp.Timestamps
import CordactylBot.Dpp.Embed
import CordactylBot.Dpp.Shape
import CordactylBot.Dpp.Fill
import CordactylBot.Dpp.Message
import CordactylBot.Dpp.DirectMessages
import CordactylBot.Dpp.Timers
import CordactylBot.Dpp.Timers.Queue
import CordactylBot.Dpp.Timers.Schedule
import CordactylBot.Dpp.Cache
import CordactylBot.Translations
import CordactylBot.JsonWrapper
import CordactylBot.JsonWrapper.Paths
import CordactylBot.JsonWrapper.Laws
import CordactylBot.JsonWrapper.Text
import CordactylBot.AcknowledgePayload.System
import CordactylBot.AcknowledgePayload.Payload
import CordactylBot.AcknowledgePayload.Text
import CordactylBot.AcknowledgePayload.Application
import CordactylBot.AcknowledgePayload.Reply
import CordactylBot.QueuedMessages
import CordactylBot.QueuedMessages.Grammar
import CordactylBot.Messages.System
import CordactylBot.Messages.Calls
import CordactylBot.Messages.Accounting
import CordactylBot.Messages.Outcomes
import CordactylBot.Messages.Delivery
import CordactylBot.Messages.Grammar
import CordactylBot.Messages.Completion
import CordactylBot.Messages.Progress
import CordactylBot.Messages.Report
import CordactylBot.Messages.Batch
import CordactylBot.Messages.Carried
import CordactylBot.Deliveries.System
import CordactylBot.Deliveries.Posts
import CordactylBot.Lifecycle.System
import CordactylBot.Lifecycle.Steps
import CordactylBot.Lifecycle.Startup
import CordactylBot.Lifecycle.Order
import CordactylBot.Lifecycle.Shutdown
import CordactylBot.Lifecycle.Replies
import CordactylBot.Lifecycle.Cadence
import CordactylBot.Appeals.System
import CordactylBot.Appeals.Guild
import CordactylBot.Appeals.Answers
import CordactylBot.Appeals.Roles
