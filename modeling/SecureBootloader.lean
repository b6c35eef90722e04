import SecureBootloader.Aes.Permutation
import SecureBootloader.Lib.Cbc
import SecureBootloader.Lib.Run
import SecureBootloader.Boot.Validate
import SecureBootloader.Boot.MacWalk
import SecureBootloader.Boot.UpdateInv
import SecureBootloader.Theorems.ValidateSafety
import SecureBootloader.Theorems.MacInput
import SecureBootloader.Theorems.Tamper
import SecureBootloader.Theorems.AnnouncedLength
import SecureBootloader.Signer.Main
import SecureBootloader.Theorems.SignerAgreement
import SecureBootloader.Theorems.FlashContent
import SecureBootloader.Boot.Framing
import SecureBootloader.Theorems.PacketQueue
import SecureBootloader.Lib.Resend
import SecureBootloader.Updater.Host
import SecureBootloader.Updater.Receive
import SecureBootloader.Link.Endpoints
import SecureBootloader.Theorems.Recovery
import SecureBootloader.Link.Transfer
import SecureBootloader.Link.TransferInv
import SecureBootloader.Theorems.TransferOrder
import SecureBootloader.Boot.VerdictInv
import SecureBootloader.Theorems.VerdictAgreement
import SecureBootloader.Theorems.AesInverse
import SecureBootloader.Lib.BitPoly
import SecureBootloader.Theorems.CrcRemainder
import SecureBootloader.Lib.Aes128
import SecureBootloader.Theorems.AesStandard
import SecureBootloader.Shared.UartRead
import SecureBootloader.Theorems.MacTermination
import SecureBootloader.Theorems.OneShotTimer
import SecureBootloader.Theorems.RingFifo
import SecureBootloader.Link.FrameEvents
import SecureBootloader.Theorems.OneFraming
import SecureBootloader.Boot.Since
import SecureBootloader.Theorems.ChunkEncoding
import SecureBootloader.Boot.Dialogue
import SecureBootloader.Link.HostScript
import SecureBootloader.Link.Exchange
import SecureBootloader.Link.ExchangeInv
import SecureBootloader.Theorems.UpdateSuccess
import SecureBootloader.Theorems.PeriodicTimer
import SecureBootloader.Boot.Watchdog
import SecureBootloader.Theorems.SessionTimeout
import SecureBootloader.Boot.Device
import SecureBootloader.Theorems.PowerCycles
import SecureBootloader.Theorems.SilentLine
import SecureBootloader.Link.Course
import SecureBootloader.Link.FreshStart
import SecureBootloader.Link.Installed
import SecureBootloader.Link.SignedImage
import SecureBootloader.Theorems.SignedUpdate
import SecureBootloader.Boot.Serving
import SecureBootloader.Theorems.Conversation
import SecureBootloader.Link.Greeting
import SecureBootloader.Theorems.ColdStart
import SecureBootloader.Theorems.PolledTimer
import SecureBootloader.Theorems.Authentic
import SecureBootloader.Theorems.NothingLost
import SecureBootloader.Theorems.HostInTurn
