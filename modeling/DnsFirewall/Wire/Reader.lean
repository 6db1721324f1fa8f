import DnsFirewall.Foundations.BigEndian
import DnsFirewall.Foundations.Cursor
import DnsFirewall.Wire.Types

/-!
# The message parser

`read_name`, `read_rr` and `dns_parse_message`.  A read at or behind the end
of the packet, and a write at or behind the end of the name buffer, is an
error of its own: the C functions would leave their buffers there, while
`reject` is their return value `-1`.  Allocation is taken to succeed.
-/

namespace DnsFirewall

open CString Cursor BigEndian

/-- How a parsing function ends without a result. -/
inductive ReadError where
  | reject
  | readOutside
  | writeOutside
deriving DecidableEq, Repr

/-- The access `pkt[index]`. -/
def byteAt (pkt : Bytes) (index : Nat) : Except ReadError UInt8 :=
  match pkt[index]? with
  | some byte => .ok byte
  | none => .error .readOutside

/-- The source of `memcpy(_, pkt + index, count)`. -/
def bytesAt (pkt : Bytes) (index count : Nat) : Except ReadError Bytes :=
  if index + count ≤ pkt.length then
    .ok ((pkt.drop index).take count)
  else
    .error .readOutside

def readU16 (pkt : Bytes) (index : Nat) : Except ReadError UInt16 := do
  let high ← byteAt pkt index
  let low ← byteAt pkt (index + 1)
  return word16 high low

def readU32 (pkt : Bytes) (index : Nat) : Except ReadError UInt32 := do
  let first ← byteAt pkt index
  let second ← byteAt pkt (index + 1)
  let third ← byteAt pkt (index + 2)
  let fourth ← byteAt pkt (index + 3)
  return word32 first second third fourth

/-- What one pass of the loop in `read_name` finds at its position: the root
byte, a pointer with its target, or the bytes of a label. -/
inductive NameStep where
  | root
  | pointer (target : Nat)
  | label (bytes : Bytes)
deriving DecidableEq, Repr

/-- The checks of one pass of the loop in `read_name`, with `outPos`
characters written so far. -/
def nameStep (pkt : Bytes) (outLen outPos pos : Nat) :
    Except ReadError NameStep :=
  if pkt.length ≤ pos then
    .error .reject
  else do
    let len ← byteAt pkt pos
    if len = 0 then
      return .root
    else if len &&& 0xC0 = 0xC0 then
      if pkt.length ≤ pos + 1 then
        .error .reject
      else
        let low ← byteAt pkt (pos + 1)
        let ptr := word16 (len &&& 0x3F) low
        if pkt.length ≤ ptr.toNat then
          .error .reject
        else
          return .pointer ptr.toNat
    else if dnsMaxLabelLen < len.toNat then
      .error .reject
    else if pkt.length < pos + 1 + len.toNat then
      .error .reject
    else if outLen ≤ outPos + len.toNat + 1 then
      .error .reject
    else
      let bytes ← bytesAt pkt (pos + 1) len.toNat
      return .label bytes

/-- Append to the name buffer, whose first `out.length` bytes are written. -/
def putOut (outLen : Nat) (out bytes : Bytes) : Except ReadError Bytes :=
  if out.length + bytes.length ≤ outLen then
    .ok (out ++ bytes)
  else
    .error .writeOutside

/-- The code behind the loop of `read_name`: the name is terminated by NUL,
and the empty name is spelled with a single dot. -/
def finishName (outLen : Nat) (out : Bytes) : Except ReadError Bytes := do
  let name := if out.length = 0 then [46] else out
  let _ ← putOut outLen name [0]
  return name

/-- The loop of `read_name`.  The first argument is the number of passes left,
so the test `loops++ > 20` fails the pass it reaches zero on; `jumped` holds
`jump_offset` once a pointer has been followed. -/
def readNameLoop (pkt : Bytes) (outLen : Nat) :
    Nat → Nat → Bytes → Option Nat → Except ReadError (Bytes × Nat)
  | 0, _, _, _ => .error .reject
  | loops + 1, pos, out, jumped => do
      match ← nameStep pkt outLen out.length pos with
      | .root =>
          let name ← finishName outLen out
          return (name, jumped.getD (pos + 1))
      | .pointer target =>
          readNameLoop pkt outLen loops target out
            (some (jumped.getD (pos + 2)))
      | .label bytes =>
          let out ← putOut outLen out (bytes ++ [46])
          readNameLoop pkt outLen loops (pos + 1 + bytes.length) out jumped

/-- The loop may be entered with `loops` from 0 to 20. -/
def readNamePasses : Nat := 21

/-- `read_name`: the characters written in front of the NUL, and the new
offset. -/
def readName (pkt : Bytes) (outLen : Nat) : Reader ReadError Bytes :=
  fun offset => readNameLoop pkt outLen readNamePasses offset [] none

def readRr (pkt : Bytes) : Reader ReadError DnsRr := fun offset => do
  let (name, offset) ← readName pkt dnsMaxNameLen offset
  if pkt.length < offset + 10 then
    .error .reject
  else
    let type ← readU16 pkt offset
    let rrclass ← readU16 pkt (offset + 2)
    let ttl ← readU32 pkt (offset + 4)
    let rdlength ← readU16 pkt (offset + 8)
    let offset := offset + 10
    if pkt.length < offset + rdlength.toNat then
      .error .reject
    else
      return ({ name, type, rrclass, ttl, rdlength, rdata := offset },
        offset + rdlength.toNat)

/-- The body of the question loop in `dns_parse_message`. -/
def readQuestion (pkt : Bytes) : Reader ReadError DnsQuestion :=
  fun offset => do
    let (qname, offset) ← readName pkt dnsMaxNameLen offset
    if pkt.length < offset + 4 then
      .error .reject
    else
      let qtype ← readU16 pkt offset
      let qclass ← readU16 pkt (offset + 2)
      return ({ qname, qtype, qclass }, offset + 4)

/-- The header reads of `dns_parse_message`. -/
def readHeader (buf : Bytes) : Except ReadError DnsHeader := do
  let id ← readU16 buf 0
  let flags ← readU16 buf 2
  let qdcount ← readU16 buf 4
  let ancount ← readU16 buf 6
  let nscount ← readU16 buf 8
  let arcount ← readU16 buf 10
  return { id, flags, qdcount, ancount, nscount, arcount }

/-- `dns_parse_message`, for a buffer of `buflen = buf.length` bytes. -/
def dnsParseMessage (buf : Bytes) : Except ReadError DnsMessage :=
  if buf.length < 12 then
    .error .reject
  else do
    let header ← readHeader buf
    let (questions, offset) ←
      readMany (readQuestion buf) header.qdcount.toNat 12
    let (answers, offset) ←
      readMany (readRr buf) header.ancount.toNat offset
    let (authorities, offset) ←
      readMany (readRr buf) header.nscount.toNat offset
    let (additionals, _) ←
      readMany (readRr buf) header.arcount.toNat offset
    return { header, questions, answers, authorities, additionals }

end DnsFirewall
