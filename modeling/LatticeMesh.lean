import LatticeMesh.Lib.Bytes
import LatticeMesh.Lib.EffectSpec
import LatticeMesh.Lib.KeyTable
import LatticeMesh.Lib.Runs
import LatticeMesh.Lib.Calls
import LatticeMesh.Wire
import LatticeMesh.Platform
import LatticeMesh.ReplayCache
import LatticeMesh.Tables
import LatticeMesh.Node
import LatticeMesh.E2E
import LatticeMesh.Routing
import LatticeMesh.Enrollment
import LatticeMesh.Messenger
import LatticeMesh.Beacon
import LatticeMesh.RouteReport
import LatticeMesh.Adapter
import LatticeMesh.Mesh
import LatticeMesh.Boot
import LatticeMesh.Device
import LatticeMesh.Effects
import LatticeMesh.Handlers
import LatticeMesh.Inputs
import LatticeMesh.BootEffects
import LatticeMesh.Reachable
import LatticeMesh.Lib.History
import LatticeMesh.Sealing
import LatticeMesh.Counters
import LatticeMesh.Nonces
import LatticeMesh.ReplayLog
import LatticeMesh.Failover
import LatticeMesh.Neighbors
import LatticeMesh.RadioPeers
import LatticeMesh.RadioSafety
import LatticeMesh.Lib.ChainMac
import LatticeMesh.KeyLookup
import LatticeMesh.RouteChain
import LatticeMesh.QuietFrames
import LatticeMesh.RelayState
import LatticeMesh.RouteForgery
import LatticeMesh.SourceRoute
import LatticeMesh.RelayOnce
import LatticeMesh.BeaconSteps
import LatticeMesh.MasterRoutes
import LatticeMesh.BeaconNetwork
import LatticeMesh.FirstBoot
import LatticeMesh.PeerKeys
import LatticeMesh.RelayTransparency
import LatticeMesh.Trust
import LatticeMesh.MasterHalts
import LatticeMesh.Approval
import LatticeMesh.Lib.FirstHit
import LatticeMesh.MasterPin
import LatticeMesh.MasterOnly
import LatticeMesh.KnownMasters
import LatticeMesh.Lib.HighWater
import LatticeMesh.RollbackGuard
import LatticeMesh.Outbound
import LatticeMesh.LeafRestart
import LatticeMesh.LeafControl
import LatticeMesh.DevMode
import LatticeMesh.KeyCache
import LatticeMesh.RouteFailSafe
import LatticeMesh.Lib.TwoRuns
import LatticeMesh.Twins
import LatticeMesh.ForgedMarks
import LatticeMesh.Forgery
import LatticeMesh.Reenrollment
import LatticeMesh.Roles
import LatticeMesh.BootOrder
import LatticeMesh.RadioBound
import LatticeMesh.NeighborScan
import LatticeMesh.LocalRoute
import LatticeMesh.RelayMark
import LatticeMesh.ButtonHandler
import LatticeMesh.Lib.SlotImage
import LatticeMesh.PeerStore
import LatticeMesh.PeerMirror
import LatticeMesh.PeerCrash
import LatticeMesh.JoinAckCrash
import LatticeMesh.SelfEnrollment
import LatticeMesh.ErrorCore
import LatticeMesh.AdapterBoot
import LatticeMesh.Lib.SlotMap
import LatticeMesh.TableLookup
import LatticeMesh.RouteMap
import LatticeMesh.Lib.Lru
import LatticeMesh.DownlinkLru
import LatticeMesh.Lib.Answers
import LatticeMesh.PirMotion
import LatticeMesh.Lib.Protobuf
import LatticeMesh.SerialMessage
import LatticeMesh.Lib.Framing
import LatticeMesh.SerialFraming
import LatticeMesh.Lib.Crc
import LatticeMesh.KeypairStore
import LatticeMesh.Lib.Checked
import LatticeMesh.HopChecks
import LatticeMesh.DownlinkChecks
import LatticeMesh.HopBounds
import LatticeMesh.Lib.Inbox
import LatticeMesh.ReceiveQueue
import LatticeMesh.WatchdogLoop
import LatticeMesh.Lib.NextHop
import LatticeMesh.UplinkPath
import LatticeMesh.Handshake
import LatticeMesh.BeaconDistance
import LatticeMesh.RequestQueue
import LatticeMesh.CommandPath
import LatticeMesh.Lib.PolledTimer
import LatticeMesh.Led
import LatticeMesh.DisplayManager
