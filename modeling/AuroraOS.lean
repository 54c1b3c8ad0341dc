import AuroraOS.SenderOrder
import AuroraOS.Deadlock
import AuroraOS.SemaphoreRuns
import AuroraOS.Quarantine
import AuroraOS.AppLifecycle
import AuroraOS.MessageQueue
import AuroraOS.Badges
import AuroraOS.ProtocolRuns
import AuroraOS.AddressSpace
import AuroraOS.NetRuns
import AuroraOS.FirmwareUpdate
import AuroraOS.TimerOwners
import AuroraOS.Tickless
import AuroraOS.FlashDevice
import AuroraOS.CacheRuns
import AuroraOS.InspectorRuns
import AuroraOS.ShaperRuns
import AuroraOS.AutoBlock
import AuroraOS.RamFs
import AuroraOS.DeviceRegistry
import AuroraOS.ElfLoader
import AuroraOS.BleSignature
import AuroraOS.HciTransport
import AuroraOS.HciHost
import AuroraOS.MitmDetector
import AuroraOS.DistributedBus
import AuroraOS.SoftBus
import AuroraOS.SoftBusSessions
import AuroraOS.TimerDaemon
import AuroraOS.Signals
import AuroraOS.FrameScheduler
import AuroraOS.TrafficAnalyzer
import AuroraOS.Relocation
import AuroraOS.PathMatch
import AuroraOS.UsbHost
