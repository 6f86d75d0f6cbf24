import LibreEcho.Lib.Runs
import LibreEcho.Lib.RingBuffer
import LibreEcho.Lib.CText
import LibreEcho.Live.Ring
import LibreEcho.Live.Recording
import LibreEcho.Live.Session
import LibreEcho.Live.Audio
import LibreEcho.Live.WakeAudio
import LibreEcho.Live.SessionRun
import LibreEcho.Recovery.Core
import LibreEcho.Recovery.Frames
import LibreEcho.Recovery.NetOwnership
import LibreEcho.Recovery.Children
import LibreEcho.Recovery.AutoFallback
import LibreEcho.Recovery.ConfigFile
import LibreEcho.Timer.Schedule
import LibreEcho.Timer.Daemon
import LibreEcho.Timer.Restore
import LibreEcho.Watchdog.StormGuard
import LibreEcho.Live.WakeLines
import LibreEcho.Timer.LiveIds
import LibreEcho.Timer.FileTracks
import LibreEcho.Live.Moves
import LibreEcho.Live.Delegations
import LibreEcho.Json.Complete
import LibreEcho.Json.ReadBack
import LibreEcho.Adapter.OwnReply
import LibreEcho.Network.Health
import LibreEcho.Network.Ladder
import LibreEcho.Network.InterfaceReset
import LibreEcho.Voice.History
import LibreEcho.Voice.CopyText
import LibreEcho.Lib.Varint
import LibreEcho.Lib.Framing
import LibreEcho.Esphome.Frame
import LibreEcho.Esphome.Proto
import LibreEcho.Ws.Client
import LibreEcho.Ws.Delivery
import LibreEcho.Ws.Timing
import LibreEcho.Lib.MaskedFrames
import LibreEcho.Ws.Send
import LibreEcho.Lib.ChunkedBody
import LibreEcho.Lib.SortedMap
import LibreEcho.Sendspin.BlobStore
import LibreEcho.Esphome.Unchunk
import LibreEcho.Mdns.Packet
import LibreEcho.Mdns.PacketRoundTrip
import LibreEcho.Mdns.Lease
import LibreEcho.Auth.Users
import LibreEcho.Auth.UsersAgree
import LibreEcho.Auth.UsersRun
import LibreEcho.Http.Head
import LibreEcho.Http.Delivery
import LibreEcho.Voice.Pipeline
import LibreEcho.Voice.Turns
import LibreEcho.Voice.SttStream
import LibreEcho.Timer.PollTimeout
import LibreEcho.Timer.Overflow
import LibreEcho.Timer.RoundTrip
import LibreEcho.Json.TopLevel
import LibreEcho.Timer.Remote
import LibreEcho.Timer.RemoteRings
import LibreEcho.Lib.DnsMessage
import LibreEcho.Live.Dns
import LibreEcho.Lib.Lines
import LibreEcho.Events.Bus
import LibreEcho.Events.Snapshot
import LibreEcho.Recovery.Configure
import LibreEcho.Lib.FlatObject
import LibreEcho.Network.Args
import LibreEcho.Network.Quote
import LibreEcho.Network.GatewayProbe
import LibreEcho.Lib.BitGroups
import LibreEcho.Live.Base64
import LibreEcho.Lib.LittleEndian
import LibreEcho.Live.VoiceStream
import LibreEcho.Lib.LongLines
import LibreEcho.Update.Identity
import LibreEcho.Update.RecordLaw
import LibreEcho.Update.FailureReason
import LibreEcho.Radio.Ts
import LibreEcho.Radio.TsChunks
import LibreEcho.Radio.Icy
import LibreEcho.Radio.Hls
import LibreEcho.Radio.HlsFetcher
import LibreEcho.Lib.Deliveries
import LibreEcho.Wyoming.RoundTrip
import LibreEcho.Lib.JsonWriting
import LibreEcho.Voice.Reply
import LibreEcho.Wake.Decoder
import LibreEcho.Lib.BigEndian
import LibreEcho.Lib.SecureHash
import LibreEcho.Auth.Digest
import LibreEcho.Events.Polling
import LibreEcho.Config.Store
import LibreEcho.Sleep.Generator
import LibreEcho.Sleep.Envelope
import LibreEcho.Sleep.Stopping
import LibreEcho.Sleep.Overflow
import LibreEcho.Lib.Truncation
import LibreEcho.Lib.Emissions
import LibreEcho.Led.MusicDirector
import LibreEcho.Led.DirectorSteps
import LibreEcho.Led.DirectorLaw
import LibreEcho.Mic.Beamformer
import LibreEcho.Airplay.MetadataScanner
import LibreEcho.Storage.UsbBrowse
import LibreEcho.Lib.CircularQueue
import LibreEcho.Voice.Playback
import LibreEcho.Led.Patterns
import LibreEcho.Mic.CaptureMux
import LibreEcho.Lib.Rotation
import LibreEcho.Log.Central
