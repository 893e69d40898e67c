import IopHal.Library.Find
import IopHal.Library.Feed
import IopHal.Library.Framing
import IopHal.Library.Patch
import IopHal.Library.Form
import IopHal.Library.Percent
import IopHal.Library.Http
import IopHal.Library.Word
import IopHal.Library.Ledger
import IopHal.Library.Hex
import IopHal.Library.Signal
import IopHal.Library.Slices
import IopHal.Library.Numbered
import IopHal.Library.Transitions
import IopHal.Library.Saves
import IopHal.Library.Blocks
import IopHal.Library.Endian
import IopHal.Library.Records
import IopHal.Library.Base64
import IopHal.Library.Lines
import IopHal.Library.Delimited
import IopHal.Library.Literal
import IopHal.Bytes
import IopHal.Text
import IopHal.Text.Views
import IopHal.Hash
import IopHal.Hash.Targets
import IopHal.Response
import IopHal.Client.SendRequest
import IopHal.Client.Parser
import IopHal.Client.Bounds
import IopHal.Client.Collect
import IopHal.Message
import IopHal.Client.Segmentation
import IopHal.Client.Halting
import IopHal.Client.Headers
import IopHal.Client.Request
import IopHal.Client.Uri
import IopHal.Client.Begin
import IopHal.Client.Release
import IopHal.Client.Location
import IopHal.Client.Address
import IopHal.Wifi
import IopHal.Server.HandleClient
import IopHal.Server.Requests
import IopHal.Server.Routing
import IopHal.Server.Cuts
import IopHal.Server.Arg
import IopHal.Server.Decode
import IopHal.Server.Fields
import IopHal.Server.Respond
import IopHal.Server.Lifecycle
import IopHal.Server.Runs
import IopHal.Wire
import IopHal.Log
import IopHal.Log.Lines
import IopHal.Update
import IopHal.Network
import IopHal.Network.Hooks
import IopHal.Network.Request
import IopHal.Client.Truncated
import IopHal.Exchange
import IopHal.Exchange.Runs
import IopHal.Exchange.Ends
import IopHal.Storage
import IopHal.Storage.Blocks
import IopHal.Storage.Commit
import IopHal.Storage.Setup
import IopHal.Storage.Lives
import IopHal.Panic
import IopHal.Panic.Reentry
import IopHal.Gpio
import IopHal.Md5
import IopHal.Md5.Stream
import IopHal.Device
import IopHal.Device.Firmware
import IopHal.Device.Executable
import IopHal.Update.Cycle
import IopHal.Certificates
import IopHal.Certificates.Store
import IopHal.Certificates.CaBundle
import IopHal.Certificates.Roots
import IopHal.Certificates.Esp32
import IopHal.Certificates.OpenSsl
