import Vfast.Lib.Bytes
import Vfast.Lib.Run
import Vfast.Lib.Keyed
import Vfast.Lib.Bitmap
import Vfast.Lib.Slots
import Vfast.Lib.Streams
import Vfast.Lib.Writes
import Vfast.Lib.Leases
import Vfast.Lib.RateLimit
import Vfast.Lib.CStrings
import Vfast.Lib.Decimal
import Vfast.Lib.Lines
import Vfast.Lib.Xorshift
import Vfast.Lib.Linked
import Vfast.Lib.Blocks
import Vfast.Lib.Limbs
import Vfast.Lib.PolyHash
import Vfast.Key
import Vfast.KeyFile
import Vfast.Crypto
import Vfast.Monocypher
import Vfast.InPlace
import Vfast.PolyMac
import Vfast.AeadCode
import Vfast.Forgery
import Vfast.Protocol
import Vfast.Wire
import Vfast.PackWrites
import Vfast.Padding
import Vfast.RoundTrip
import Vfast.Ippool
import Vfast.Session
import Vfast.SessionRefine
import Vfast.SessionIds
import Vfast.Uthash
import Vfast.UthashRep
import Vfast.UthashRuns
import Vfast.SessionMem
import Vfast.Server
import Vfast.ServerInv
import Vfast.Addresses
import Vfast.Authenticity
import Vfast.Framing
import Vfast.Client
import Vfast.ClientKeys
import Vfast.ClientAuth
import Vfast.Rekey
import Vfast.Datagrams
import Vfast.Handshake
import Vfast.RekeyWire
import Vfast.PoolRuns
import Vfast.Nonces
import Vfast.Ingress
import Vfast.Admission
import Vfast.Accounting
import Vfast.Generations
import Vfast.Reaper
import Vfast.Rejects
import Vfast.Reconnect
import Vfast.Interleave
import Vfast.Io
import Vfast.IoOwners
import Vfast.TaskScan
import Vfast.Pipeline
import Vfast.Tunnel
import Vfast.TaskLayout
import Vfast.Pmtud
import Vfast.PathMtu
import Vfast.Maintenance
import Vfast.PoolReuse
import Vfast.Auth
import Vfast.User
import Vfast.Tokens
import Vfast.UserMem
import Vfast.Options
import Vfast.CmdArgs
import Vfast.Response
import Vfast.Dispatch
import Vfast.Console
import Vfast.Switches
import Vfast.Reflex
