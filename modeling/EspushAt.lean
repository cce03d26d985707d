import EspushAt.Foundations.CString
import EspushAt.Foundations.Decimal
import EspushAt.Foundations.Printf
import EspushAt.Foundations.Framing
import EspushAt.Foundations.Chunking
import EspushAt.Foundations.Transition
import EspushAt.Device.Types
import EspushAt.Device.Primitives
import EspushAt.Device.Messages
import EspushAt.Device.Registration
import EspushAt.Device.Uart
import EspushAt.Device.Settings
import EspushAt.Device.Dispatch
import EspushAt.Device.System
import EspushAt.Device.Reference
import EspushAt.Verification.Registration
import EspushAt.Verification.Identity
import EspushAt.Verification.Parameters
import EspushAt.Verification.Stream
import EspushAt.Verification.Transparent
import EspushAt.Verification.Callbacks
import EspushAt.Verification.Results
import EspushAt.Verification.Buffers
import EspushAt.Verification.Numbers
import EspushAt.Verification.RoundTrip
import EspushAt.Device.Showbuf
import EspushAt.Verification.Showbuf
import EspushAt.Device.Keys
import EspushAt.Device.Outcome
import EspushAt.Foundations.Machine
import EspushAt.Verification.Bridge
import EspushAt.Verification.Commands
import EspushAt.Verification.Keys
import EspushAt.Verification.Typed
import EspushAt.Verification.Leftovers
import EspushAt.Foundations.Checksum
import EspushAt.Foundations.Records
import EspushAt.Tools.Build
import EspushAt.Tools.Certificates
import EspushAt.Verification.Build
import EspushAt.Verification.Certificates
