import MeshcoreSniffer.Lib.ShiftRegister
import MeshcoreSniffer.Lib.BitFlip
import MeshcoreSniffer.Lib.BitMatrix
import MeshcoreSniffer.Lib.Search
import MeshcoreSniffer.Lib.Mealy
import MeshcoreSniffer.Lib.Nibbles
import MeshcoreSniffer.Lib.Blocks
import MeshcoreSniffer.Lib.Slots
import MeshcoreSniffer.Lib.CString
import MeshcoreSniffer.Lib.TextCodes
import MeshcoreSniffer.Lib.Printf
import MeshcoreSniffer.Lora.Crc
import MeshcoreSniffer.Lora.Bruteforce
import MeshcoreSniffer.Lora.Hamming
import MeshcoreSniffer.Lora.Interleave
import MeshcoreSniffer.Lora.Symbols
import MeshcoreSniffer.Lora.Decoder
import MeshcoreSniffer.Lora.Encoder
import MeshcoreSniffer.Lora.Roundtrip
import MeshcoreSniffer.Lora.Delivery
import MeshcoreSniffer.Meshcore.Packet
import MeshcoreSniffer.Meshcore.Decoders
import MeshcoreSniffer.Meshcore.Framing
import MeshcoreSniffer.Meshcore.GroupText
import MeshcoreSniffer.Dedup.Ring
import MeshcoreSniffer.Pipeline.Drainer
import MeshcoreSniffer.Pipeline.Publish
import MeshcoreSniffer.Pipeline.CrcRecover
import MeshcoreSniffer.Pipeline.LiveRecovery
import MeshcoreSniffer.Pipeline.CorrectionHistory
import MeshcoreSniffer.Meshtastic.Keyset
import MeshcoreSniffer.Web.Auth
import MeshcoreSniffer.Lib.Json
import MeshcoreSniffer.Feed.Writer
import MeshcoreSniffer.Feed.MeshcoreJson
import MeshcoreSniffer.Meshtastic.Decoders
import MeshcoreSniffer.Feed.MeshtasticJson
import MeshcoreSniffer.Lib.RoundRobin
import MeshcoreSniffer.Pipeline.Replay
import MeshcoreSniffer.Dedup.Insert
import MeshcoreSniffer.Pipeline.Phantoms
import MeshcoreSniffer.Pipeline.Distinct
import MeshcoreSniffer.Fusion.Clusters
import MeshcoreSniffer.Fusion.ClockSync
import MeshcoreSniffer.Fusion.Replay
import MeshcoreSniffer.Fusion.C2Router
import MeshcoreSniffer.Fusion.C2Envelope
import MeshcoreSniffer.Lib.Paging
import MeshcoreSniffer.Pipeline.Store
import MeshcoreSniffer.Web.Messages
import MeshcoreSniffer.Dedup.Tournament
import MeshcoreSniffer.Pipeline.Ledger
import MeshcoreSniffer.Lib.SoftDecision
import MeshcoreSniffer.Lora.Soft
import MeshcoreSniffer.Meshtastic.KeysetTable
import MeshcoreSniffer.Feed.Geofence
import MeshcoreSniffer.Lora.PreambleLock
import MeshcoreSniffer.Lib.Wire
import MeshcoreSniffer.Meshtastic.Wire
import MeshcoreSniffer.Meshtastic.Envelope
import MeshcoreSniffer.Lora.Focused
import MeshcoreSniffer.Lib.Xml
import MeshcoreSniffer.Wardrive.Kml
import MeshcoreSniffer.Feed.Publish
import MeshcoreSniffer.Pipeline.Database
import MeshcoreSniffer.Meshcore.Lpp
import MeshcoreSniffer.Pipeline.LateKeys
import MeshcoreSniffer.Meshcore.Advert
import MeshcoreSniffer.Meshtastic.PskDict
import MeshcoreSniffer.Meshtastic.Position
import MeshcoreSniffer.Meshtastic.Routes
import MeshcoreSniffer.Web.ShareUrl
import MeshcoreSniffer.Feed.Arena
import MeshcoreSniffer.Lib.JsonInvalid
import MeshcoreSniffer.Feed.Validity
import MeshcoreSniffer.Lib.Circular
import MeshcoreSniffer.Sdr.IqRing
import MeshcoreSniffer.Sdr.FocusedWorker
import MeshcoreSniffer.Sdr.FocusedArms
import MeshcoreSniffer.Sdr.FocusedRun
import MeshcoreSniffer.Sdr.FocusPool
import MeshcoreSniffer.Sdr.Polyphase
import MeshcoreSniffer.Sdr.WidebandStamp
import MeshcoreSniffer.Sdr.PoolLifetime
import MeshcoreSniffer.Lib.BufferLane
import MeshcoreSniffer.Sdr.Sinks
import MeshcoreSniffer.Sdr.SinkDelivery
import MeshcoreSniffer.Lib.Loads
import MeshcoreSniffer.Sdr.Tuning
import MeshcoreSniffer.Sdr.Vita49
import MeshcoreSniffer.Sdr.Snapshots
import MeshcoreSniffer.Web.Receive
import MeshcoreSniffer.Fusion.Evidence
import MeshcoreSniffer.Sdr.Scanner
import MeshcoreSniffer.Web.Events
import MeshcoreSniffer.Fusion.Mlat
import MeshcoreSniffer.Fusion.Pairs
import MeshcoreSniffer.Dedup.Fingerprint
import MeshcoreSniffer.Fusion.Latency
import MeshcoreSniffer.Pipeline.DictQueues
import MeshcoreSniffer.Pipeline.SnrHistory
import MeshcoreSniffer.Wardrive.Capture
import MeshcoreSniffer.Wardrive.Estimate
