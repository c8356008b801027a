import Bmx.Zip.DeflateLoop
import Bmx.Network.ScanBuffer
import Bmx.Zip.FailurePath
import Bmx.Zip.Crc32Spec
import Bmx.Update.ConfigAssessment
import Bmx.Remote.FatPathNesting
import Bmx.Update.Replacement
import Bmx.Update.HttpBodySpec
import Bmx.Remote.HttpResponseWriterSpec
import Bmx.Remote.HttpServerSpec
import Bmx.Remote.DeveloperFileUpload
import Bmx.Remote.DeveloperLogRing
import Bmx.Remote.HttpParserGrammar
import Bmx.Remote.EventStreamDelivery
import Bmx.Network.NetworkJobsOrder
import Bmx.Input.MouseInputSpec
import Bmx.Graphics.Rgba8TextureUploadSpec
import Bmx.Graphics.Hvs5DlistFields
import Bmx.Remote.UsbDiagnosticRunSpec
import Bmx.NewIo.CircleFileRun
import Bmx.Input.JoystickSpec
import Bmx.Menu.MenuItemSpec
import Bmx.SdCard.ProvenanceSpec
import Bmx.SdCard.StageConsistency
import Bmx.SdCard.DeviceAgreement
import Bmx.Menu.JoyPortDevicesSpec
import Bmx.Menu.WrappedTextSpec
import Bmx.Remote.UsbDiagnosticLogCollectorSpec
import Bmx.Switch.CmdlineFileSpec
import Bmx.Switch.OptionNumbersSpec
import Bmx.Zip.BrowseSpec
import Bmx.Menu.TypeAheadSpec
import Bmx.Menu.CrtPresetSpec
import Bmx.Atari.AtariMenuSpec
import Bmx.Atari.UncompressSpec
import Bmx.Atari.DiskSetsSpec
import Bmx.Menu.MenuControlSpec
import Bmx.Keymap.KeymapSerializeSpec
import Bmx.Graphics.Pi4V3dMmu
import Bmx.Update.HttpResponseSpec
import Bmx.Update.JsonTokenTree
import Bmx.Update.JsonCopySpec
import Bmx.SdCard.FatPathAgreement
import Bmx.NewIo.CurrentDirSpec
import Bmx.Atari.ConsoleKeysSpec
import Bmx.Input.VirtualKeyboardSpec
import Bmx.Zip.LenientPathSpec
