import Edk2.Gcd.Allocate
import Edk2.Gcd.Capabilities
import Edk2.OrderedCollection.History
import Edk2.Pool.Run
import Edk2.Page.Find
import Edk2.Page.Allocate
import Edk2.Dispatcher.Confined
import Edk2.Dispatcher.SchedulerRun
import Edk2.Event.TimerRun
import Edk2.Decompress.Run
import Edk2.Variable.PeiRun
import Edk2.Net.Checksum
import Edk2.Tcp.OptionRoundTrip
import Edk2.Tcp.SocketRun
import Edk2.Ip4.Input
import Edk2.Ip4.RoundTrip
import Edk2.Mtftp4.Download
import Edk2.Auth.PlatformMode
import Edk2.Auth.TimeStamp
import Edk2.Auth.CertDbRun
import Edk2.Pci.ResourceMap
import Edk2.DiskIo.Run
import Edk2.Event.NotifyRun
import Edk2.Fat.CacheRun
import Edk2.BootScript.Cycles
import Edk2.SerializeVariables.RoundTrip
import Edk2.DevicePath.Laws
import Edk2.SmmPage.Run
import Edk2.SmmPool.Run
import Edk2.Ftw.Run
import Edk2.PropertiesTable.Table
import Edk2.SectionExtraction.Extract
import Edk2.Mtrr.SetMemoryType
import Edk2.Variable.ConvertRead
import Edk2.Variable.Enumerate
import Edk2.Compress.MakeTree
import Edk2.Decompress.Lookup
import Edk2.Dhcp4.OptionParse
import Edk2.Auth.SignatureFilter
import Edk2.Auth.SignatureCheckSound
import Edk2.Base64.RoundTrip
