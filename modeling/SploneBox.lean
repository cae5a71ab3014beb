import SploneBox.Lib.Machine
import SploneBox.Lib.Memory
import SploneBox.Nacl
import SploneBox.Inputstream
import SploneBox.Msgpack
import SploneBox.ToObject
import SploneBox.Functions
import SploneBox.Dispatch
import SploneBox.Lookup
import SploneBox.Payload
import SploneBox.Crypto
import SploneBox.Client
import SploneBox.Wire
import SploneBox.Core
import SploneBox.Moves
import SploneBox.Invariant
import SploneBox.Plugin
import SploneBox.Invalid
import SploneBox.Replay
import SploneBox.ServerNonce
import SploneBox.Safenonce
import SploneBox.Handshake
import SploneBox.Reassembly
import SploneBox.Segmentation
import SploneBox.Lifetime
import SploneBox.Calls
import SploneBox.EventStrings
import SploneBox.Hangup
import SploneBox.Callids
import SploneBox.Registry
import SploneBox.Progress
import SploneBox.Undecoded
import SploneBox.Requests
import SploneBox.Polling
import SploneBox.ErrorResponse
import SploneBox.References
import SploneBox.Disconnect
import SploneBox.SessionKey
import SploneBox.Uninitialised
import SploneBox.Notifications
import SploneBox.SendBuffer
import SploneBox.Broadcast
import SploneBox.Lib.MessagePack
import SploneBox.Serialize
import SploneBox.Lib.Redis
import SploneBox.Database
import SploneBox.Lib.Rings
import SploneBox.Multiqueue
import SploneBox.InputFifo
import SploneBox.Handlers
import SploneBox.Lib.Feistel
import SploneBox.NonceCipher
import SploneBox.Lib.Numerals
import SploneBox.Scan
import SploneBox.Lib.Calendar
import SploneBox.IsoTime
import SploneBox.Parse
import SploneBox.Confparse
import SploneBox.Units
import SploneBox.Address
import SploneBox.Unsubscribe
import SploneBox.Msgids
import SploneBox.Outputstream
import SploneBox.Buffers
import SploneBox.Lib.Wiping
import SploneBox.Wipes
import SploneBox.Gate
import SploneBox.Drain
import SploneBox.Lib.Cursor
import SploneBox.Configlines
import SploneBox.LineGrammar
import SploneBox.LineParser
import SploneBox.Options
import SploneBox.Pending
import SploneBox.Lib.Checked
import SploneBox.Numbers
import SploneBox.Unescape
import SploneBox.Lib.Bitset
import SploneBox.Bitarray
import SploneBox.Lib.Transfer
import SploneBox.Filesystem
import SploneBox.Lib.Limbs
import SploneBox.Word32
import SploneBox.Lib.Salsa20
import SploneBox.Salsa20
import SploneBox.Poly1305
import SploneBox.Secretbox
import SploneBox.Lib.OpenAddressing
import SploneBox.Khash
import SploneBox.Hashmap
import SploneBox.Curve25519
import SploneBox.Scalarmult
