import DnsFirewall.Cache.Model
import DnsFirewall.Wire.Types

/-!
# What the resolver works on

The configuration and the state of `resolver.c`, and the environment it meets:
clock readings, random numbers and the outcomes of its system calls, all
arbitrary.  Every question to the environment takes the next tick.  The log
records the queries sent with what came back, and what was then made of it.
-/

namespace DnsFirewall

open CString

/-- `struct sockaddr_in`: the address as the word in memory, the port as a
number. -/
structure SockAddrIn where
  sAddr : UInt32
  port : UInt16
deriving DecidableEq, Repr

/-- `ns_record_t`. -/
structure NsRecord where
  name : Bytes
  addr : SockAddrIn
deriving DecidableEq, Repr

/-- An element of `static_forwarders`. -/
structure StaticForwarder where
  zone : Bytes
  ip : Bytes
  port : UInt16
deriving DecidableEq, Repr

def maxRecursionDepth : Nat := 16
def ednsSize : Nat := 1232
def tcpPoolSize : Nat := 4

/-- The text `127.0.0.1`. -/
def localhostText : Bytes := [49, 50, 55, 46, 48, 46, 48, 46, 49]

/-- `static_forwarders`: the zones `fastflux.test`, `tunnel.test` and
`signed.test`. -/
def staticForwarders : List StaticForwarder :=
  [⟨[102, 97, 115, 116, 102, 108, 117, 120, 46, 116, 101, 115, 116],
      localhostText, 5300⟩,
    ⟨[116, 117, 110, 110, 101, 108, 46, 116, 101, 115, 116],
      localhostText, 5301⟩,
    ⟨[115, 105, 103, 110, 101, 100, 46, 116, 101, 115, 116],
      localhostText, 5302⟩]

/-- What the resolver reads and never changes: the forwarder table, the two
environment variables and the root hints. -/
structure ResolverConfig where
  forwarders : List StaticForwarder
  dnsForwarder : Option Bytes
  dnsForwarderTcp : Option Bytes
  rootHints : List NsRecord
deriving DecidableEq, Repr

/-- `tcp_conn_t`: the socket, which is `none` for `-1`, with the address it is
connected to and the bytes it has received and nobody has read. -/
structure TcpConn where
  sock : Option Nat
  peer : SockAddrIn
  pending : Bytes
deriving DecidableEq, Repr

/-- The connection pool with `pool_initialised` and `pool_fwd_ip`. -/
structure TcpPool where
  initialised : Bool
  fwdIp : Bytes
  conns : Fin tcpPoolSize → TcpConn

/-- The zeroed static storage: descriptor 0 in every slot. -/
def tcpPoolStart : TcpPool :=
  ⟨false, [], fun _ => ⟨some 0, ⟨0, 0⟩, []⟩⟩

/-! ## The environment -/

/-- The outcome of `socket`, `sendto` and `recvfrom` in `send_query`. -/
inductive UdpOutcome where
  | notSent
  | noReply
  | reply (datagram : Bytes)
deriving DecidableEq, Repr

/-- What happens to an exchange on a pooled connection: the two sends, and
what has arrived when the reads give up; a reset loses what was pending. -/
structure TcpOutcome where
  lengthSent : Bool
  querySent : Bool
  reset : Bool
  arrived : Bytes
deriving DecidableEq, Repr

/-- The answers of the environment, by tick.  `passes` bounds how long the
loop of `borrow_tcp_conn` is followed, and `deadFrame` is what the stack frame
of a resolver call that has returned holds when it is read. -/
structure Env where
  time : Nat → Int
  rand : Nat → UInt32
  udp : Nat → UdpOutcome
  lockFree : Nat → Bool
  connect : Nat → Option Nat
  tcp : Nat → TcpOutcome
  passes : Nat
  deadFrame : Bytes

/-! ## The log -/

/-- A query that was sent, as it was asked for and as bytes, with the packet
received for it. -/
structure Exchange where
  server : SockAddrIn
  question : DnsQuestion
  id : UInt16
  query : Bytes
  reply : Option Bytes
deriving DecidableEq, Repr

/-- What the resolver does with a packet it believes. -/
inductive Use where
  | stored
  | answered
  | followedCname
  | followedReferral
deriving DecidableEq, Repr

/-- An exchange, or the use of a packet in the resolution of a question. -/
inductive Event where
  | exchange (x : Exchange)
  | believed (use : Use) (question : DnsQuestion) (raw : Bytes)
deriving DecidableEq, Repr

/-- The state of a resolver call, with its log, newest first. -/
structure World where
  cache : Cache cacheDefaultSize
  pool : TcpPool
  ticks : Nat
  log : List Event

/-! ## Results -/

/-- Where an answer was found: in the cache, or in a reply that was then
stored into the given cache. -/
inductive Source where
  | cached
  | received (before : Cache cacheDefaultSize)

/-- `*final_answer`, with the packet it was parsed from and the question under
which that packet was found. -/
structure Answer where
  message : DnsMessage
  raw : Bytes
  question : DnsQuestion
  source : Source

/-- How a resolver call ends: with 0, -3, -1 or -2, or not at all.  With -3
`*final_answer` is set only by the call that received the reply. -/
inductive Outcome where
  | answer (a : Answer)
  | nxDomain (a : Option Answer)
  | failed
  | tooDeep
  | hung

end DnsFirewall
