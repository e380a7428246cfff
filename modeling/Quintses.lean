import Quintses.Lts
import Quintses.Queue
import Quintses.RoundTrip
import Quintses.PeerFailure
import Quintses.SelfDeletion
import Quintses.TearDown
import Quintses.Announce
import Quintses.InputOrder
import Quintses.Templates
import Quintses.Shutdown
import Quintses.SharedQueue
import Quintses.StopHandshake
import Quintses.StartUp
import Quintses.Dispatch
import Quintses.PhysicsWorld
import Quintses.LocalClient
import Quintses.Ownership
import Quintses.StringBuffer
import Quintses.Reencode
import Quintses.FreshIds
import Quintses.AudioStreams
import Quintses.StaticObjects
import Quintses.Rotation
import Quintses.WorldText
import Quintses.Loading
import Quintses.WaitPop
import Quintses.PlatformEvents
import Quintses.Drawables
import Quintses.Drawing
import Quintses.XmlDom
import Quintses.LastRelease
import Quintses.DoubleBuffer
import Quintses.WavHeaders
import Quintses.WavData
import Quintses.LockFree
import Quintses.LockedThreads
import Quintses.FifoBuild
import Quintses.Arrival
import Quintses.ShutdownEnds
import Quintses.PhysicsLifetime
import Quintses.Screen
import Quintses.WorldBuilt
import Quintses.RemoteEnds
import Quintses.RemoteKeys
