import TlsNotary.Session.SequenceCheck
import TlsNotary.Session.Handlers
import TlsNotary.Session.Dataflow
import TlsNotary.Session.Init
import TlsNotary.Session.Bits
import TlsNotary.Session.Circuits
import TlsNotary.Session.Signing
import TlsNotary.Session.Ghash
import TlsNotary.Session.DualExecution
import TlsNotary.Session.OtHandoff
import TlsNotary.Session.Gf128
import TlsNotary.Session.GarbledRow
import TlsNotary.Server.SessionManager
import TlsNotary.Server.TagVerification
import TlsNotary.Server.Server
import TlsNotary.Server.Polling
import TlsNotary.Server.Transfer
import TlsNotary.Server.Upload
import TlsNotary.Server.Zkey
