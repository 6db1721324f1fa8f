import DnsFirewall.Resolver.State
import DnsFirewall.Wire.Builder
import DnsFirewall.Wire.Reader

/-!
# The resolver

`resolver.c`.  The recursion of `resolve_internal` runs over the levels left
below `MAX_RECURSION_DEPTH`, its server loop over the servers left.
-/

namespace DnsFirewall

open CString BigEndian Cursor

/-- `inet_pton` with `AF_INET`: the octets read so far, and the value of the
octet that is being read. -/
def inetPtonLoop : Bytes → Bytes → Option Nat → Option Bytes
  | [], octets, some value =>
      if octets.length = 3 then some (octets ++ [value.toUInt8]) else none
  | [], _, none => none
  | character :: rest, octets, current =>
      if 48 ≤ character ∧ character ≤ 57 then
        let digit := character.toNat - 48
        match current with
        | none =>
            if 4 ≤ octets.length then none
            else inetPtonLoop rest octets (some digit)
        | some value =>
            if value = 0 then none
            else if 255 < value * 10 + digit then none
            else inetPtonLoop rest octets (some (value * 10 + digit))
      else if character = 46 then
        match current with
        | none => none
        | some value =>
            if octets.length = 3 then none
            else inetPtonLoop rest (octets ++ [value.toUInt8]) none
      else
        none

/-- Four octets in network order as the word in memory. -/
def sAddrOf (octets : Bytes) : UInt32 :=
  word32 (octets.getD 3 0) (octets.getD 2 0) (octets.getD 1 0)
    (octets.getD 0 0)

def inetPton (text : Bytes) : Option UInt32 :=
  (inetPtonLoop text [] none).map sAddrOf

/-! ## Queries -/

/-- The query packet of `send_query` and of the TCP branch.  The results of
the three builder calls are ignored there. -/
def queryPacket (id : UInt16) (question : DnsQuestion) : Bytes :=
  let b := dnsBuilderInit (List.replicate ednsSize 0)
  let (_, b) := dnsBuildResponseHeader b id 0 1 0 0 0
  let (_, b) :=
    dnsBuildQuestion b question.qname question.qtype question.qclass
  let (_, b) := dnsBuildRr b [] dnsTypeOpt ednsSize.toUInt16 0 [] 0
  b.written

def exchangeOf (server : SockAddrIn) (question : DnsQuestion)
    (id : UInt16) (reply : Option Bytes) : Exchange :=
  ⟨server, question, id, queryPacket id question, reply⟩

def randomId (env : Env) (w : World) : UInt16 :=
  (env.rand w.ticks).toUInt16

/-- `send_query`: the packet received, if any, cut to the buffer. -/
def sendQuery (env : Env) (ns : SockAddrIn) (question : DnsQuestion)
    (w : World) : Option Bytes × World :=
  match env.udp w.ticks with
  | .notSent => (none, { w with ticks := w.ticks + 1 })
  | .noReply =>
      (none,
        { w with
          ticks := w.ticks + 1
          log :=
            .exchange (exchangeOf ns question (randomId env w) none) ::
              w.log })
  | .reply datagram =>
      let raw := datagram.take ednsSize
      (some raw,
        { w with
          ticks := w.ticks + 1
          log :=
            .exchange
              (exchangeOf ns question (randomId env w) (some raw)) ::
                w.log })

/-- A reply that passes the two checks made before it is used: `raw_len >= 12`
and `dns_parse_message`. -/
def usableReply (reply : Option Bytes) : Option (Bytes × DnsMessage) :=
  match reply with
  | none => none
  | some raw =>
      if raw.length < 12 then none
      else
        match dnsParseMessage raw with
        | .error _ => none
        | .ok resp => some (raw, resp)

/-! ## The connection pool -/

/-- `socket` and `connect` to port 53 of the address in `ip`. -/
def tcpConnect (env : Env) (ip : Bytes) (ticks : Nat) : Option TcpConn :=
  match env.connect ticks with
  | none => none
  | some sock => some ⟨some sock, ⟨(inetPton ip).getD 0, dnsPort⟩, []⟩

/-- `init_tcp_pool` when the pool is not initialised. -/
def initTcpPool (env : Env) (ip : Bytes) (w : World) : World :=
  match inetPton ip with
  | none => w
  | some _ =>
      { w with
        ticks := w.ticks + tcpPoolSize
        pool :=
          { initialised := true
            fwdIp := ip
            conns := fun i =>
              (tcpConnect env ip (w.ticks + i.val)).getD
                ⟨none, ⟨0, 0⟩, []⟩ } }

/-- The `for` loop of `borrow_tcp_conn`, from the slots still to be tried. -/
def borrowPass (env : Env) :
    List (Fin tcpPoolSize) → World → Option (Fin tcpPoolSize) × World
  | [], w => (none, w)
  | i :: rest, w =>
      let next := { w with ticks := w.ticks + 1 }
      if env.lockFree w.ticks = false then
        borrowPass env rest next
      else if (w.pool.conns i).sock.isSome then
        (some i, next)
      else
        match tcpConnect env w.pool.fwdIp w.ticks with
        | none => borrowPass env rest next
        | some conn =>
            (some i,
              { next with
                pool :=
                  { w.pool with
                    conns := Function.update w.pool.conns i conn } })

/-- The `while` loop of `borrow_tcp_conn`, for the given number of passes. -/
def borrowTcpConn (env : Env) :
    Nat → World → Option (Fin tcpPoolSize) × World
  | 0, w => (none, w)
  | passes + 1, w =>
      match borrowPass env (List.finRange tcpPoolSize) w with
      | (some i, w) => (some i, w)
      | (none, w) => borrowTcpConn env passes w

def World.setConn (w : World) (i : Fin tcpPoolSize) (conn : TcpConn) :
    World :=
  { w with
    pool :=
      { w.pool with conns := Function.update w.pool.conns i conn } }

/-- The exchange of the TCP branch on the borrowed connection. -/
def tcpExchange (env : Env) (i : Fin tcpPoolSize) (id : UInt16)
    (question : DnsQuestion) (w : World) : Option Bytes × World :=
  let conn := w.pool.conns i
  let outcome := env.tcp w.ticks
  let w := { w with ticks := w.ticks + 1 }
  let closed : TcpConn := ⟨none, conn.peer, []⟩
  let sent (reply : Option Bytes) (w : World) : World :=
    { w with
      log := .exchange (exchangeOf conn.peer question id reply) :: w.log }
  if outcome.lengthSent = false ∨ outcome.querySent = false then
    (none, w.setConn i closed)
  else
    let pending :=
      if outcome.reset then [] else conn.pending ++ outcome.arrived
    match pending with
    | high :: low :: pending =>
        let rlen := (word16 high low).toNat
        if 0 < rlen ∧ rlen < ednsSize then
          let raw := pending.take rlen
          let reply := if raw.length = rlen then some raw else none
          (reply,
            sent reply
              (w.setConn i { conn with pending := pending.drop rlen }))
        else
          (none, sent none (w.setConn i { conn with pending }))
    | _ => (none, sent none (w.setConn i closed))

/-! ## Names and servers in a reply -/

def decompressNameInRdata (rr : DnsRr) (packet : Bytes) (outLen : Nat) :
    Option Bytes :=
  if packet.length ≤ rr.rdata then none
  else
    match readName packet outLen rr.rdata with
    | .error _ => none
    | .ok (name, _) => some name

/-- The additional record that `build_ns_list` takes the address of a server
from. -/
def isGlue (nsName : Bytes) (glue : DnsRr) : Bool :=
  glue.type = dnsTypeA && content glue.name = content nsName &&
    glue.rdlength = 4

/-- The entry of `build_ns_list` for an authority record. -/
def nsRecordOf (response : DnsMessage) (raw : Bytes) (rr : DnsRr) :
    Option NsRecord :=
  if rr.type = dnsTypeNs then
    match decompressNameInRdata rr raw (dnsMaxNameLen + 1) with
    | none => none
    | some nsName =>
        match response.additionals.find? (isGlue nsName) with
        | none => none
        | some glue =>
            some
              { name := boundedCopy (dnsMaxNameLen + 1) (content nsName)
                addr := ⟨sAddrOf (glue.rdataBytes raw), dnsPort⟩ }
  else
    none

/-- `build_ns_list`; it returns zero when the list is not empty. -/
def buildNsList (response : DnsMessage) (raw : Bytes) : List NsRecord :=
  response.authorities.filterMap (nsRecordOf response raw)

/-- The name that a reply is an alias for: the target of its first answer, if
that is a CNAME record that decodes. -/
def aliasTarget (raw : Bytes) (first : DnsRr) : Option Bytes :=
  if first.type = dnsTypeCname then
    decompressNameInRdata first raw (dnsMaxNameLen + 1)
  else
    none

/-! ## The cache and the forwarders -/

/-- The cache check at the start of `resolve_internal`. -/
def checkCache (env : Env) (question : DnsQuestion) (w : World) :
    Option Answer × World :=
  let (found, cache) :=
    cacheLookup w.cache question.qname question.qtype question.qclass
      (env.time w.ticks)
  let w := { w with cache, ticks := w.ticks + 1 }
  match found with
  | none => (none, w)
  | some raw =>
      match dnsParseMessage raw with
      | .error _ => (none, w)
      | .ok message => (some ⟨message, raw, question, .cached⟩, w)

/-- Store a reply under the question and take it as the answer. -/
def storeReply (env : Env) (question : DnsQuestion) (raw : Bytes)
    (resp : DnsMessage) (ttl : UInt32) (w : World) : Answer × World :=
  (⟨resp, raw, question, .received w.cache⟩,
    { w with
      cache :=
        cacheStore w.cache question.qname question.qtype question.qclass
          raw ttl (env.time w.ticks)
      ticks := w.ticks + 1
      log :=
        .believed .answered question raw ::
          .believed .stored question raw :: w.log })

/-- The lifetime a forwarded reply is stored with:
`resp.answers ? resp.answers[0].ttl : 300`. -/
def forwardedTtl (resp : DnsMessage) : UInt32 :=
  match resp.answers with
  | [] => 300
  | first :: _ => first.ttl

/-- What the three forwarding branches do with what they received. -/
def acceptForwarded (env : Env) (question : DnsQuestion)
    (reply : Option Bytes) (w : World) : Outcome × World :=
  match usableReply reply with
  | none => (.failed, w)
  | some (raw, resp) =>
      let (a, w) :=
        storeReply env question raw resp (forwardedTtl resp) w
      (.answer a, w)

/-- The test of the static forwarder loop: the name without a final dot ends
with the characters of the zone. -/
def inZone (qname : Bytes) (forwarder : StaticForwarder) : Bool :=
  let qname := content qname
  let zlen := forwarder.zone.length
  let qlen :=
    if qname.getLast? = some 46 then qname.length - 1 else qname.length
  if qlen < zlen then false
  else strncasecmpEq (qname.drop (qlen - zlen)) forwarder.zone zlen

def staticForwarderFor (cfg : ResolverConfig) (qname : Bytes) :
    Option SockAddrIn :=
  cfg.forwarders.findSome? fun forwarder =>
    if inZone qname forwarder then
      (inetPton forwarder.ip).map fun sAddr => ⟨sAddr, forwarder.port⟩
    else
      none

def useTcp (cfg : ResolverConfig) : Bool :=
  match cfg.dnsForwarderTcp with
  | none => false
  | some flag => flag ≠ [48]

/-- The TCP branch of the forwarding mode. -/
def forwardTcp (env : Env) (fwdIp : Bytes) (question : DnsQuestion)
    (w : World) : Outcome × World :=
  let w := if w.pool.initialised then w else initTcpPool env fwdIp w
  let id := randomId env w
  let w := { w with ticks := w.ticks + 1 }
  match borrowTcpConn env env.passes w with
  | (none, w) => (.hung, w)
  | (some i, w) =>
      let (reply, w) := tcpExchange env i id question w
      acceptForwarded env question reply w

/-- The UDP branch of the forwarding mode. -/
def forwardUdp (env : Env) (fwdIp : Bytes) (question : DnsQuestion)
    (w : World) : Outcome × World :=
  match inetPton fwdIp with
  | none => (.failed, w)
  | some sAddr =>
      let (reply, w) := sendQuery env ⟨sAddr, 53⟩ question w
      acceptForwarded env question reply w

/-! ## Iterative resolution -/

/-- The server loop of `resolve_internal`, from the servers left; `recurse` is
the call one level deeper.  The counts in the header are the lengths of the
sections. -/
def tryServers (env : Env)
    (recurse : DnsQuestion → List NsRecord → World → Outcome × World)
    (question : DnsQuestion) (nsList : List NsRecord) :
    List NsRecord → World → Outcome × World
  | [], w => (.failed, w)
  | ns :: rest, w =>
      let (reply, w) := sendQuery env ns.addr question w
      match usableReply reply with
      | none => tryServers env recurse question nsList rest w
      | some (raw, resp) =>
          match resp.answers with
          | first :: _ =>
              match aliasTarget raw first with
              | some cname =>
                  let w :=
                    { w with
                      log :=
                        .believed .followedCname question raw :: w.log }
                  match recurse { question with qname := cname } nsList
                    w with
                  | (.nxDomain _, w) => (.nxDomain none, w)
                  | (outcome, w) => (outcome, w)
              | none =>
                  let (a, w) :=
                    storeReply env question raw resp first.ttl w
                  (.answer a, w)
          | [] =>
              if resp.authorities ≠ [] then
                match buildNsList resp raw with
                | [] => tryServers env recurse question nsList rest w
                | newNs =>
                    let w :=
                      { w with
                        log :=
                          .believed .followedReferral question raw ::
                            w.log }
                    match recurse question newNs w with
                    | (.answer a, w) => (.answer a, w)
                    | (.nxDomain _, w) => (.nxDomain none, w)
                    | (.hung, w) => (.hung, w)
                    | (_, w) => tryServers env recurse question nsList rest w
              else if resp.header.flags &&& 0x0F = dnsRcodeNxdomain then
                let (a, w) := storeReply env question raw resp 600 w
                (.nxDomain (some a), w)
              else
                tryServers env recurse question nsList rest w

/-- `resolve_internal`; the levels left are `MAX_RECURSION_DEPTH + 1 - depth`.
-/
def resolveInternal (env : Env) (cfg : ResolverConfig) :
    Nat → DnsQuestion → List NsRecord → World → Outcome × World
  | 0, _, _, w => (.tooDeep, w)
  | levels + 1, question, nsList, w =>
      match checkCache env question w with
      | (some a, w) => (.answer a, w)
      | (none, w) =>
          match staticForwarderFor cfg question.qname with
          | some addr =>
              let (reply, w) := sendQuery env addr question w
              acceptForwarded env question reply w
          | none =>
              match cfg.dnsForwarder with
              | some fwdIp =>
                  if useTcp cfg then forwardTcp env fwdIp question w
                  else forwardUdp env fwdIp question w
              | none =>
                  tryServers env (resolveInternal env cfg levels) question
                    nsList nsList w

/-- The question as `resolver_resolve` copies it. -/
def resolverQuestion (question : DnsQuestion) : DnsQuestion :=
  { question with
    qname := boundedCopy (dnsMaxNameLen + 1) (content question.qname) }

def resolverResolve (env : Env) (cfg : ResolverConfig)
    (query : DnsMessage) (w : World) : Outcome × World :=
  match query.questions with
  | [] => (.failed, w)
  | question :: _ =>
      resolveInternal env cfg (maxRecursionDepth + 1)
        (resolverQuestion question) cfg.rootHints w

end DnsFirewall
