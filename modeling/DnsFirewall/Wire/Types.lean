import DnsFirewall.Foundations.CString

/-!
# Wire data

The header, question, record and message of `wire.h`.  A name is the byte
sequence in front of the NUL that the reader writes behind it; it may itself
hold NUL bytes, and functions that take it as a C string read it through
`CString.content`.  `rdata` is the offset of the pointer in the packet the
record was parsed from.  The actual counts of a message are the lengths of its
four lists.
-/

namespace DnsFirewall

open CString

def dnsMaxNameLen : Nat := 255
def dnsMaxLabelLen : Nat := 63
def dnsPort : UInt16 := 53
def dnsMaxPacket : Nat := 512

def dnsQrResponse : UInt16 := 0x8000
def dnsRcodeNoerror : UInt16 := 0
def dnsRcodeServfail : UInt16 := 2
def dnsRcodeNxdomain : UInt16 := 3

def dnsTypeA : UInt16 := 1
def dnsTypeNs : UInt16 := 2
def dnsTypeCname : UInt16 := 5
def dnsTypeAaaa : UInt16 := 28
def dnsTypeOpt : UInt16 := 41
def dnsClassIn : UInt16 := 1

structure DnsHeader where
  id : UInt16
  flags : UInt16
  qdcount : UInt16
  ancount : UInt16
  nscount : UInt16
  arcount : UInt16
deriving DecidableEq, Repr

structure DnsQuestion where
  qname : Bytes
  qtype : UInt16
  qclass : UInt16
deriving DecidableEq, Repr

structure DnsRr where
  name : Bytes
  type : UInt16
  rrclass : UInt16
  ttl : UInt32
  rdlength : UInt16
  rdata : Nat
deriving DecidableEq, Repr

structure DnsMessage where
  header : DnsHeader
  questions : List DnsQuestion
  answers : List DnsRr
  authorities : List DnsRr
  additionals : List DnsRr
deriving DecidableEq, Repr

namespace DnsRr

/-- The bytes behind the record's RDATA pointer, in the packet it points
into. -/
def rdataBytes (rr : DnsRr) (packet : Bytes) : Bytes :=
  (packet.drop rr.rdata).take rr.rdlength.toNat

end DnsRr

end DnsFirewall
