import PlainRs.Base.Runs
import PlainRs.Base.Keyed
import PlainRs.Base.Lists
import PlainRs.Base.Text
import PlainRs.Utils.Base64
import PlainRs.Crypto.Ed25519
import PlainRs.Crypto.Symmetric
import PlainRs.Chat.Enums
import PlainRs.Chat.Db
import PlainRs.Chat.Channel.Messages
import PlainRs.Chat.Service
import PlainRs.Chat.Channel.Sender
import PlainRs.Chat.Channel.Handler
import PlainRs.Chat.Channel.Ops
import PlainRs.Chat.Channel.Device
import PlainRs.Chat.Channel.Roster
import PlainRs.Chat.Channel.Posts
import PlainRs.Chat.Channel.Member
import PlainRs.Chat.Channel.Signatures
import PlainRs.Base.ReadWrite
import PlainRs.Chat.Channel.Interleaving
import PlainRs.Chat.Channel.Ordering
import PlainRs.Chat.Channel.Paired
import PlainRs.Chat.Channel.Network
import PlainRs.Chat.Channel.Convergence
import PlainRs.Base.Loops
import PlainRs.Library.Db
import PlainRs.Library.AudioQueue
import PlainRs.Library.Skips
import PlainRs.Base.Checked
import PlainRs.Base.Utf8
import PlainRs.Mdns.PacketCodec
import PlainRs.Mdns.ServiceInfo
import PlainRs.Mdns.ServiceBrowser
import PlainRs.Mdns.PanicFree
import PlainRs.Base.Clock
import PlainRs.Utils.Url
import PlainRs.LocalApi.Discover.PeerStatusManager
import PlainRs.LocalApi.Server.Ws
import PlainRs.LocalApi.StatusHandshake
import PlainRs.Chat.StoredPeers
import PlainRs.Crypto.Ecdh
import PlainRs.Chat.Pairing.Protocol
import PlainRs.Chat.Pairing.Manager
import PlainRs.Chat.KeyCaches
import PlainRs.Chat.Pairing.Attempts
import PlainRs.Chat.Pairing.Agreement
import PlainRs.Chat.Chats
import PlainRs.Chat.PeerAuth
import PlainRs.LocalApi.PeerGraphql
import PlainRs.Chat.Transport
import PlainRs.Chat.Delivery
import PlainRs.Chat.ChannelGate
import PlainRs.Chat.Deliveries
import PlainRs.Chat.Contexts
import PlainRs.Library.Paging
import PlainRs.Base.Commas
import PlainRs.Base.Along
import PlainRs.Base.Broadcast
import PlainRs.Chat.NearbyDevice
import PlainRs.Utils.DbTime
import PlainRs.LocalApi.Discover.KnownPeers
import PlainRs.LocalApi.Discover.NearbyDiscoverManager
import PlainRs.LocalApi.Discover.Verification
import PlainRs.LocalApi.Discover.NearbyEvents
import PlainRs.LocalApi.Discover.PeerConnections
import PlainRs.LocalApi.Discover.PeerCoverage
import PlainRs.LocalApi.Discover.DiscoverReply
import PlainRs.LocalApi.Discover.PeerEvents
import PlainRs.LocalApi.Chat
import PlainRs.Mdns.Entries
import PlainRs.Mdns.Merged
import PlainRs.Mdns.PacketWriter
import PlainRs.Mdns.Hostnames
import PlainRs.Mdns.Goodbyes
import PlainRs.Mdns.RecordOrder
import PlainRs.Prefs
import PlainRs.Utils.Paths
import PlainRs.Chat.AppFileStore
import PlainRs.Chat.AppFileRefs
import PlainRs.Base.Serial
import PlainRs.LocalApi.Dlna.ReceiverEngine
import PlainRs.LocalApi.Dlna.CastRequests
import PlainRs.LocalApi.Download.Manager
import PlainRs.LocalApi.Download.OneTask
import PlainRs.LocalApi.Download.Pauses
import PlainRs.Base.Files
import PlainRs.Chat.StagedImports
import PlainRs.LocalApi.Download.TempFiles
import PlainRs.LocalApi.Server.Uploads
import PlainRs.Utils.UniquePath
import PlainRs.LocalApi.FileUpload.Files
import PlainRs.LocalApi.FileUpload.ConcurrentMerges
import PlainRs.LocalApi.FileUpload.PerformMerge
import PlainRs.LocalApi.FileUpload.FailedMerges
import PlainRs.LocalApi.FileUpload.SavedMerges
import PlainRs.LocalApi.FileUpload.MergeJobs
import PlainRs.Base.Numbered
import PlainRs.Library.ManualQueue
import PlainRs.Library.PlaylistOrder
import PlainRs.Base.Statements
import PlainRs.BulkDeletes
import PlainRs.Base.Overwrites
import PlainRs.LocalApi.Dlna.CommandProcessor
import PlainRs.Base.Slices
import PlainRs.LocalApi.Dlna.SoapHandler
import PlainRs.LocalApi.Dlna.SoapPanics
import PlainRs.LocalApi.Dlna.HttpRouter
import PlainRs.Base.Purge
import PlainRs.LocalApi.Dlna.DeniedSenders
import PlainRs.LocalApi.Dlna.RememberedSenders
import PlainRs.Base.Components
import PlainRs.LocalApi.FileUpload.MergeFrame
import PlainRs.LocalApi.FileUpload.Staging
import PlainRs.LocalApi.FileUpload.Isolation
import PlainRs.LocalApi.Server.Uri
import PlainRs.Chat.ImportedFiles
import PlainRs.Base.Windows
import PlainRs.LocalApi.Freshness
import PlainRs.Base.Endian
import PlainRs.Utils.ImageDimensions
import PlainRs.Utils.WebpLayout
import PlainRs.Utils.JpegSegments
import PlainRs.Base.Separators
import PlainRs.Chat.SignedTexts
import PlainRs.Base.Like
import PlainRs.Chat.ChatPages
import PlainRs.Base.Digits
import PlainRs.Base.Pages
import PlainRs.Utils.DbTimeOrder
import PlainRs.Chat.ChatOrder
import PlainRs.Base.FilteredPages
import PlainRs.LocalApi.AppFiles
import PlainRs.Base.Latest
import PlainRs.Chat.Cacher
import PlainRs.Base.Recent
import PlainRs.Utils.DbTimeMillis
import PlainRs.Library.History
import PlainRs.Base.Lossy
import PlainRs.Base.Segments
import PlainRs.Mdns.Written
import PlainRs.Mdns.RoundTrip
import PlainRs.Base.Uri
import PlainRs.LocalApi.LinkPreview
import PlainRs.LocalApi.UrlGuard
import PlainRs.LocalApi.PreviewHosts
import PlainRs.Base.DottedQuads
import PlainRs.Mdns.ServiceResponse
import PlainRs.Mdns.WireRecords
import PlainRs.Mdns.Published
import PlainRs.Mdns.Discovery
import PlainRs.Utils.QueryStrings
import PlainRs.Utils.QuotedSearch
import PlainRs.LocalApi.Dlna.SeekTimes
import PlainRs.LocalApi.Server.FileServer
import PlainRs.Utils.Http
import PlainRs.LocalApi.Dlna.PercentDecoders
import PlainRs.Library.FavoriteFolders
import PlainRs.Library.FavoriteIdentity
import PlainRs.Utils.ExifGps
import PlainRs.Utils.HeaderTotality
import PlainRs.LocalApi.Dlna.XmlEntities
import PlainRs.LocalApi.Dlna.SoapRequests
import PlainRs.Utils.ShortId
import PlainRs.Base.Calendar
import PlainRs.Utils.DbTimeCalendar
import PlainRs.Base.Ipv6
import PlainRs.Mdns.Ipv6Text
import PlainRs.Utils.HttpUrl
import PlainRs.Utils.UrlJoin
import PlainRs.Base.Gaps
import PlainRs.Library.SourceTracks
import PlainRs.Library.QueuePages
import PlainRs.Library.SkipRows
import PlainRs.Mdns.HostAnswers
import PlainRs.Mdns.HostResponder
import PlainRs.Mdns.Renames
import PlainRs.Library.Tags
import PlainRs.Chat.Channel.ChatHelper
import PlainRs.Mdns.BringUp
import PlainRs.Prefs.Identity
import PlainRs.Mdns.Browsing
import PlainRs.LocalApi.Server.FileIds
import PlainRs.LocalApi.Discover.ResolverThreads
import PlainRs.LocalApi.Server.EventSockets
import PlainRs.Base.Updates
import PlainRs.LocalApi.Bookmarks
