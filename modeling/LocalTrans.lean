import LocalTrans.Discovery.BusinessCard
import LocalTrans.Discovery.ClockWindow
import LocalTrans.Discovery.Merge
import LocalTrans.Mobile.CancelRuns
import LocalTrans.Mobile.NetworkSettings
import LocalTrans.Mobile.Retry
import LocalTrans.Relay.AuthBlock
import LocalTrans.Relay.FrameLimit
import LocalTrans.Relay.Punch
import LocalTrans.Relay.PunchRate
import LocalTrans.Relay.Pushes
import LocalTrans.Relay.Reaper
import LocalTrans.Relay.Registry
import LocalTrans.Relay.Roster
import LocalTrans.Relay.Slots
import LocalTrans.Relay.VirtualUdp
import LocalTrans.Routing.Probe
import LocalTrans.Session.Parties
import LocalTrans.Session.Rpc
import LocalTrans.Session.Supersession
import LocalTrans.Share.Requests
import LocalTrans.Share.Watcher
import LocalTrans.Shell.Arbitration
import LocalTrans.Shell.CardIds
import LocalTrans.Shell.CardStamps
import LocalTrans.Shell.ControlResults
import LocalTrans.Shell.Deletion
import LocalTrans.Shell.LogRing
import LocalTrans.Shell.Offers
import LocalTrans.Shell.ParentBytes
import LocalTrans.Shell.Reconnect
import LocalTrans.Shell.Revival
import LocalTrans.Transfer.Cleanup
import LocalTrans.Transfer.DirectoryPull
import LocalTrans.Transfer.Geometry
import LocalTrans.Transfer.IndexTasks
import LocalTrans.Transfer.NoOverwrite
import LocalTrans.Transfer.PlacedNames
import LocalTrans.Transfer.Rendezvous
import LocalTrans.Transfer.SkipAgreement
import LocalTrans.Transfer.Streams
import LocalTrans.Transfer.Throttle
import LocalTrans.Transfer.Windowed
