import TimeManager.Framework.Lts
import TimeManager.Framework.Pages
import TimeManager.Framework.Json
import TimeManager.Framework.Checked
import TimeManager.Managers.Data
import TimeManager.Managers.RequesterURL
import TimeManager.Screens.TaskList
import TimeManager.Paging.Server
import TimeManager.Paging.Sequential
import TimeManager.Paging.Interleaved
import TimeManager.Managers.LoginBody
import TimeManager.Managers.JSONDecoder
import TimeManager.Coordinator.App
import TimeManager.Coordinator.Effects
import TimeManager.Coordinator.Stack
import TimeManager.Coordinator.Editing
import TimeManager.Coordinator.Responses
import TimeManager.Coordinator.Visibility
import TimeManager.Coordinator.Sessions
import TimeManager.Framework.Ledger
import TimeManager.Writes.World
import TimeManager.Writes.Creation
import TimeManager.Writes.Refresh
import TimeManager.Coordinator.ListScreens
import TimeManager.Coordinator.FailedLogins
import TimeManager.Paging.Calls
import TimeManager.Paging.Overflow
import TimeManager.Paging.ListParameters
import TimeManager.Paging.Loading
import TimeManager.Paging.Seeding
import TimeManager.Framework.Prefetch
import TimeManager.Paging.Scrolling
import TimeManager.Paging.Stopping
import TimeManager.Framework.Chain
import TimeManager.Paging.NoGaps
import TimeManager.Coordinator.ListContents
import TimeManager.Coordinator.Aborts
import TimeManager.Coordinator.Changes
import TimeManager.Coordinator.Navigation
import TimeManager.Coordinator.Provenance
import TimeManager.Coordinator.Authorization
import TimeManager.Coordinator.Secrecy
import TimeManager.Coordinator.Gate
import TimeManager.Coordinator.Replies
import TimeManager.Coordinator.Recovery
import TimeManager.Framework.Percent
import TimeManager.Managers.URLEncodedForm
import TimeManager.Framework.JsonPrint
import TimeManager.Managers.JSONEncoder
import TimeManager.Coordinator.Browsing
import TimeManager.Coordinator.Alerts
import TimeManager.Coordinator.Forms
import TimeManager.Coordinator.Outbox
