import WatchParty.Lib.Machine
import WatchParty.Lib.Expiring
import WatchParty.Lib.Remembered
import WatchParty.Lib.Async
import WatchParty.Lib.Cluster
import WatchParty.Lib.OrderedMap
import WatchParty.Lib.Tasks
import WatchParty.Lib.Ledger
import WatchParty.Lib.Reload
import WatchParty.Sync.Timeline
import WatchParty.Sync.Replay
import WatchParty.Sync.RoomStateStore
import WatchParty.Redis.Room
import WatchParty.Sync.Instance
import WatchParty.Redis.SharedScripts
import WatchParty.Redis.ActorScripts
import WatchParty.Shared.Plane
import WatchParty.Shared.Order
import WatchParty.Shared.Dedup
import WatchParty.Shared.Log
import WatchParty.Memory.Store
import WatchParty.Memory.Log
import WatchParty.Memory.Refines
import WatchParty.Actor.Plane
import WatchParty.Actor.Fence
import WatchParty.Actor.Order
import WatchParty.Actor.Log
import WatchParty.Actor.Dedup
import WatchParty.Actor.Store
import WatchParty.Actor.Runs
import WatchParty.Actor.Clear
import WatchParty.Actor.Answer
import WatchParty.Actor.Coherence
import WatchParty.Actor.Snapshot
import WatchParty.Actor.Refines
import WatchParty.Gateway.Service
import WatchParty.Gateway.Handlers
import WatchParty.Gateway.Settings
import WatchParty.Gateway.Stages
import WatchParty.Gateway.Occupied
import WatchParty.Gateway.Controller
import WatchParty.Gateway.Succession
import WatchParty.Gateway.Authority
import WatchParty.Gateway.Versions
import WatchParty.Gateway.Recovery
import WatchParty.Gateway.Rehydration
import WatchParty.Gateway.Capacity
import WatchParty.Gateway.Participants
import WatchParty.Gateway.Presence
import WatchParty.Gateway.Vacated
import WatchParty.Actor.Gateway
import WatchParty.Actor.Forward
import WatchParty.Actor.Concluded
import WatchParty.Relay.Snapshot
import WatchParty.Lib.Binary64
import WatchParty.Auth.Token
import WatchParty.Relay.Identity
import WatchParty.Auth.Revocation
import WatchParty.Auth.Service
import WatchParty.Auth.Effects
import WatchParty.Auth.Snapshot
import WatchParty.Auth.Mirror
import WatchParty.Auth.Eviction
import WatchParty.Auth.Rotation
import WatchParty.Voice.Calls
import WatchParty.Voice.Roster
import WatchParty.Player.Client
import WatchParty.Player.Crossing
import WatchParty.Lib.Arith
import WatchParty.SyncCore.Drift
import WatchParty.SyncCore.Discipline
import WatchParty.SyncCore.Engine
import WatchParty.Lib.Bytes
import WatchParty.Lib.Doubles
import WatchParty.Relay.Frames
import WatchParty.Relay.Wire
import WatchParty.Shared.Sweep
import WatchParty.Actor.Cache
import WatchParty.Actor.Cached
import WatchParty.Auth.Logout
import WatchParty.Account.Database
import WatchParty.Account.Credentials
import WatchParty.Account.Service
import WatchParty.Account.Effects
import WatchParty.Account.Linking
import WatchParty.Account.Google
import WatchParty.Account.Versions
import WatchParty.Account.Fences
import WatchParty.SyncCore.Steps
import WatchParty.SyncCore.Nudge
import WatchParty.SyncCore.Seeks
import WatchParty.SyncCore.Lead
import WatchParty.Lib.LeastSquares
import WatchParty.SyncCore.Servo
import WatchParty.SyncCore.Clock
import WatchParty.Lib.Budget
import WatchParty.Auth.RateBucket
import WatchParty.Gateway.Tokens
import WatchParty.Auth.Guests
import WatchParty.Auth.ClientIp
import WatchParty.Relay.Registry
import WatchParty.Lib.Promises
import WatchParty.Sync.Queues
import WatchParty.Sync.Chain
import WatchParty.Sync.Submissions
import WatchParty.Sync.Serial
import WatchParty.Lib.Walks
import WatchParty.Lib.Utf16
import WatchParty.Media.Url
import WatchParty.Media.Path
import WatchParty.Media.Source
import WatchParty.Lib.Temporal
import WatchParty.Lib.Fairness
import WatchParty.Lib.Fanout
import WatchParty.Lib.Ranks
import WatchParty.Sync.Clients
import WatchParty.Formal.SyncTimeline
import WatchParty.Formal.Convergence
import WatchParty.Formal.SyncExactlyOnce
import WatchParty.Formal.ExactlyOnce
import WatchParty.Formal.SyncSetVideo
import WatchParty.Formal.VideoFence
import WatchParty.Formal.SyncActor
import WatchParty.Formal.ActorLive
import WatchParty.Formal.Clients
import WatchParty.Formal.Distribution
import WatchParty.Formal.Ownership
import WatchParty.Formal.Commands
import WatchParty.Session.Browser
import WatchParty.Session.SignOut
import WatchParty.Session.Refresh
import WatchParty.Relay.Server
import WatchParty.Relay.Agreement
import WatchParty.Gateway.Repair
import WatchParty.Lib.Resend
import WatchParty.Gateway.Certified
