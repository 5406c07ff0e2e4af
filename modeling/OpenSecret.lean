import OpenSecret.Audio.Merging
import OpenSecret.Audio.Reparse
import OpenSecret.Audio.TranscriptionForm
import OpenSecret.Caches.Eviction
import OpenSecret.Caches.Maintenance
import OpenSecret.Caches.OneUse
import OpenSecret.Caches.SessionExpiry
import OpenSecret.Completions.Usage
import OpenSecret.Conversations.ConversationPages
import OpenSecret.Conversations.ItemPages
import OpenSecret.Conversations.TitleRace
import OpenSecret.Credentials.Accounts
import OpenSecret.Credentials.OauthEmails
import OpenSecret.Credentials.OauthStates
import OpenSecret.Credentials.Resets
import OpenSecret.CustomRng
import OpenSecret.Kmstool
import OpenSecret.Platform.Grants
import OpenSecret.Platform.PasswordReset
import OpenSecret.Provider.OneRefresh
import OpenSecret.Provider.Routing
import OpenSecret.Prompt.Attachment
import OpenSecret.Prompt.CallNumbering
import OpenSecret.Prompt.Truncating
import OpenSecret.Responses.Acknowledgement
import OpenSecret.Responses.Broadcast
import OpenSecret.Responses.ClientView
import OpenSecret.Responses.Delivery
import OpenSecret.Responses.Durability
import OpenSecret.Responses.Intake
import OpenSecret.Responses.Reassembly
import OpenSecret.Responses.TurnLimit
import OpenSecret.Responses.UsageTotals
import OpenSecret.WebTools.Noninterference
import OpenSecret.WebTools.Recovery
import OpenSecret.WebTools.Sanitizing
