import BlackButton.Acl.Flatten
import BlackButton.Service.Guard
import BlackButton.Service.Runner
import BlackButton.Acl.AccessControl
import BlackButton.Lib.Assoc
import BlackButton.Plugin.Options
import BlackButton.Plugin.Configuration
import BlackButton.Database.Profile
import BlackButton.Database.Manager
import BlackButton.Subscription.Model
import BlackButton.Subscription.Invariant
import BlackButton.Subscription.Sync
import BlackButton.Database.Backup
import BlackButton.Subscription.Content
import BlackButton.Subscription.Moves
import BlackButton.Subscription.Settled
import BlackButton.Subscription.Idempotent
import BlackButton.Lib.Encoding
import BlackButton.Share.Link
import BlackButton.Share.Find
import BlackButton.Share.RoundTrip
import BlackButton.Network.Actor
import BlackButton.Network.Invariant
import BlackButton.Network.Channel
import BlackButton.Network.Session
import BlackButton.Acl.Matching
import BlackButton.Database.KeyValuePair
import BlackButton.Plugin.RoundTrip
import BlackButton.Traffic.Monitor
import BlackButton.Traffic.Booking
import BlackButton.Traffic.Restart
import BlackButton.Database.Entries
import BlackButton.Database.Fallback
import BlackButton.App.Server
import BlackButton.Acl.Sections
import BlackButton.Plugin.Commandline
import BlackButton.Preference.DataStore
import BlackButton.Preference.Editing
import BlackButton.Preference.Port
import BlackButton.Lib.InputStream
import BlackButton.Service.LocalDns
import BlackButton.Lib.Path
import BlackButton.Plugin.InitNative
import BlackButton.Share.Legacy
import BlackButton.Database.Import
import BlackButton.Acl.Order
import BlackButton.App.ServerList
import BlackButton.Service.Bandwidth
import BlackButton.Subscription.Worker
import BlackButton.Share.Usable
import BlackButton.Lib.Async
import BlackButton.Relay.Socks5
import BlackButton.Lib.Refinement
import BlackButton.Relay.Aead
import BlackButton.Relay.Channel
import BlackButton.Relay.Tamper
import BlackButton.Relay.Copy
import BlackButton.Relay.Tunnel
import BlackButton.Relay.Socks5Server
import BlackButton.Relay.Deliver
import BlackButton.Lib.Lru
import BlackButton.Route.Context
import BlackButton.Route.PtrName
import BlackButton.Route.Dns
import BlackButton.Lib.Generations
import BlackButton.Relay.Replay
import BlackButton.Relay.Packet
import BlackButton.Relay.Association
import BlackButton.Relay.Lossless
import BlackButton.Relay.Manager
