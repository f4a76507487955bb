import Cppvless.Common.Numbers
import Cppvless.Common.Document
import Cppvless.Common.Link
import Cppvless.Common.Log
import Cppvless.Coroutine.Eval
import Cppvless.Coroutine.Reader
import Cppvless.Net.Script
import Cppvless.Net.Copier
import Cppvless.Net.ByteQueue
import Cppvless.Coro.UringAwaitable
import Cppvless.Socks5.Datagram
import Cppvless.Vless.Protocol
import Cppvless.Vless.Protobuf
import Cppvless.Vless.Encoder
import Cppvless.Vless.Encryption
import Cppvless.Vless.VisionCipher
import Cppvless.Vless.CompleteRecord
import Cppvless.Server.EventLoop
import Cppvless.Server.EventLoopRunner
import Cppvless.Server.Gate
import Cppvless.Server.EncryptionUplink
import Cppvless.Server.VisionDownlink
import Cppvless.Server.UdpDownlink
import Cppvless.Client.HalfClose
import Cppvless.Client.Destination
import Cppvless.Client.UdpDownlink
import Cppvless.Client.UdpWakeUp
import Cppvless.Client.Descriptors
import Cppvless.Client.SessionKey
import Cppvless.Programs
import Cppvless.EndToEnd
import Cppvless.Datagrams
import Cppvless.Server.Tasks
import Cppvless.Tls.Read
import Cppvless.Tls.Interleaving
