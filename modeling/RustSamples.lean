import RustSamples.ProcControlRing
import RustSamples.RingBuffer
import RustSamples.DlpSniffer
import RustSamples.RegexScan
import RustSamples.DlpSignatures
import RustSamples.Relay
import RustSamples.Heartbeat
import RustSamples.HlHeartbeat
import RustSamples.AntiDdosProxy
import RustSamples.AntiDdosStreams
import RustSamples.FileSender
import RustSamples.XdpForwarding
import RustSamples.DnsTelemetryTimeout
import RustSamples.Deadline
import RustSamples.SiemTimeout
import RustSamples.EbpfRefinement
import RustSamples.HashChain
import RustSamples.DogeNetwork
import RustSamples.S3Server
import RustSamples.S3Workers
import RustSamples.Machine
import RustSamples.RustStr
import RustSamples.LpmTrie
import RustSamples.RustNet
import RustSamples.LineLog
import RustSamples.RateWindow
import RustSamples.DogeBlockchain
import RustSamples.DogeHex
import RustSamples.DogeMining
import RustSamples.DogeLedger
import RustSamples.DogeConsensus
import RustSamples.DogeReplication
import RustSamples.SiemProcessor
import RustSamples.SiemBatching
import RustSamples.SiemDurability
import RustSamples.SiemWal
import RustSamples.AntiDdosShield
import RustSamples.AntiDdosAccounting
import RustSamples.AntiDdosPerIp
import RustSamples.AntiDdosRate
import RustSamples.XdpFirewall
import RustSamples.XdpAgreement
import RustSamples.XdpReload
import RustSamples.HlWebsocket
import RustSamples.HlBroadcast
import RustSamples.HlRegistry
import RustSamples.HlOrdering
import RustSamples.DogeSupply
import RustSamples.DogeMempool
import RustSamples.DogeTamper
import RustSamples.LsmHooks
import RustSamples.LsmEnforcement
import RustSamples.LsmReload
import RustSamples.LastWrite
import RustSamples.SqlTable
import RustSamples.Rfc3339
import RustSamples.DnsServer
import RustSamples.DnsHistory
import RustSamples.DnsCacheTtl
import RustSamples.DnsTelemetry
import RustSamples.DnsTelemetryLoss
import RustSamples.DnsTelemetryBound
import RustSamples.XdpRouter
import RustSamples.Ngrok
import RustSamples.EbpfProtect
import RustSamples.EbpfDescriptors
import RustSamples.DogeFraming
import RustSamples.RustUnicode
import RustSamples.RustUtf8
import RustSamples.ProcControl
import RustSamples.CallTrace
import RustSamples.Handles
import RustSamples.RustBytes
import RustSamples.DlpFanotify
import RustSamples.DlpFileSafety
import RustSamples.DlpAnalyzer
import RustSamples.GreedyIntervals
import RustSamples.DlpScan
import RustSamples.DlpVerdict
import RustSamples.CheckSum
import RustSamples.DlpLuhn
import RustSamples.DogeSignature
import RustSamples.XdpDataPlane
import RustSamples.SiemSink
