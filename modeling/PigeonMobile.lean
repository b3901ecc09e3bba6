import PigeonMobile.Table
import PigeonMobile.Threads
import PigeonMobile.Json
import PigeonMobile.Store
import PigeonMobile.Api
import PigeonMobile.Timeline
import PigeonMobile.Client
import PigeonMobile.Rooms
import PigeonMobile.Sync
import PigeonMobile.EpochGroup
import PigeonMobile.LogoutTraces
import PigeonMobile.NoDowngrade
import PigeonMobile.InviteCommits
import PigeonMobile.StoreFacts
import PigeonMobile.Ledger
import PigeonMobile.Outbox
import PigeonMobile.OutboxPasses
import PigeonMobile.ExactlyOnce
import PigeonMobile.OwnMessages
import PigeonMobile.Accounts
import PigeonMobile.KilledPass
import PigeonMobile.EpochPass
import PigeonMobile.Deliveries
import PigeonMobile.DeliveryOrder
import PigeonMobile.MemberDevices
import PigeonMobile.EpochAgreement
import PigeonMobile.WelcomeAcks
import PigeonMobile.EventLog
import PigeonMobile.WelcomeGroups
import PigeonMobile.AckOrder
import PigeonMobile.CommitOrder
import PigeonMobile.HeldMessages
import PigeonMobile.SendOrder
import PigeonMobile.Http
import PigeonMobile.SyncOutcomes
import PigeonMobile.Senders
import PigeonMobile.SenderPasses
import PigeonMobile.AcceptedSends
import PigeonMobile.StoreMethods
import PigeonMobile.FoldedState
import PigeonMobile.CursorPages
import PigeonMobile.Scrolling
import PigeonMobile.PendingStream
import PigeonMobile.RoomList
import PigeonMobile.DeviceKeys
import PigeonMobile.EngineSteps
import PigeonMobile.LaunchKeys
import PigeonMobile.KeyLifecycle
import PigeonMobile.RefreshSignals
import PigeonMobile.PassRaces
import PigeonMobile.StalePasses
import PigeonMobile.Batches
import PigeonMobile.EchoDepth
import PigeonMobile.DecimalOrder
import PigeonMobile.QueueOrder
import PigeonMobile.SentContents
import PigeonMobile.ImageMessages
import PigeonMobile.EngineAgreement
import PigeonMobile.SchemaScript
import PigeonMobile.Migration
import PigeonMobile.PageMerge
import PigeonMobile.ChatView
import PigeonMobile.UrlPath
import PigeonMobile.ContentUri
import PigeonMobile.SyncCycle
import PigeonMobile.Stamps
import PigeonMobile.TxnIds
import PigeonMobile.HandleSlot
import PigeonMobile.SyncController
import PigeonMobile.SyncLifecycle
import PigeonMobile.Conduct
import PigeonMobile.ClientConduct
import PigeonMobile.SyncDelivery
import PigeonMobile.Backups
import PigeonMobile.HostedRooms
import PigeonMobile.RunPrefixes
import PigeonMobile.AuthFlow
import PigeonMobile.RoomsScreen
import PigeonMobile.MediaDelivery
import PigeonMobile.AskedRequests
import PigeonMobile.FlushOutcome
import PigeonMobile.Atomic
import PigeonMobile.KeyStores
import PigeonMobile.FormUrl
import PigeonMobile.Endpoints
import PigeonMobile.Addressed
import PigeonMobile.Spending
import PigeonMobile.KeyPackages
import PigeonMobile.RoomAgreement
