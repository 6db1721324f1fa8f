import DnsFirewall.Foundations.BigEndian
import DnsFirewall.Wire.Types

/-!
# The validator

`dnssec.c` behind the loading of the key.  The RDATA of a record is read
through its pointer, also behind its end, so memory is a function of the
offset from the start of the packet.  OpenSSL is a predicate of the key, the
signed bytes and the signature.  Allocation is taken to succeed.
-/

namespace DnsFirewall

open CString BigEndian

def dnsTypeRrsig : UInt16 := 46

/-- What `dnssec_validate` returns: 0, -1 or -2. -/
inductive Verdict where
  | secure
  | bogus
  | unsigned
deriving DecidableEq, Repr

structure DnssecCtx (K : Type) where
  trustedKey : K

/-- The bytes at and behind a packet. -/
def packetMemory (packet : Bytes) (beyond : Nat → UInt8) (offset : Nat) :
    UInt8 :=
  packet.getD offset (beyond offset)

def bytesFrom (memory : Nat → UInt8) (start count : Nat) : Bytes :=
  (List.range count).map fun index => memory (start + index)

/-- `rr->rdata[index]`. -/
def rdataByte (memory : Nat → UInt8) (rr : DnsRr) (index : Nat) : UInt8 :=
  memory (rr.rdata + index)

/-- The loop of `name_to_wire`.  Every pass consumes a character, so `fuel`
may be the length of the name. -/
def nameToWireLabels : Nat → Bytes → Bytes
  | 0, _ => []
  | fuel + 1, name =>
      if name = [] then
        []
      else
        let label := name.takeWhile (· ≠ 46)
        if label = [] then
          nameToWireLabels fuel name.tail
        else
          let rest := name.drop label.length
          let rest := if rest.head? = some 46 then rest.tail else rest
          label.length.toUInt8 ::
            (label.map toLower ++ nameToWireLabels fuel rest)

def nameToWire (name : Bytes) : Bytes :=
  let name := content name
  nameToWireLabels name.length name ++ [0]

def findRrsig (memory : Nat → UInt8) (msg : DnsMessage) (name : Bytes)
    (type : UInt16) : Option DnsRr :=
  msg.answers.find? fun rr =>
    rr.type = dnsTypeRrsig && content rr.name = content name &&
      !(rr.rdlength < 2) &&
        word16 (rdataByte memory rr 0) (rdataByte memory rr 1) = type

/-- The loop over the labels of the signer name. -/
def skipSigner (memory : Nat → UInt8) (rrsig : DnsRr) : Nat → Nat → Nat
  | 0, off => off
  | fuel + 1, off =>
      if off < rrsig.rdlength.toNat ∧ rdataByte memory rrsig off ≠ 0 then
        if rdataByte memory rrsig off &&& 0xC0 = 0xC0 then off + 2
        else
          skipSigner memory rrsig fuel
            (off + (rdataByte memory rrsig off).toNat + 1)
      else
        off

/-- Where the signature starts in the RDATA of an RRSIG record. -/
def signatureOffset (memory : Nat → UInt8) (rrsig : DnsRr) : Nat :=
  let off := skipSigner memory rrsig rrsig.rdlength.toNat 18
  if off < rrsig.rdlength.toNat ∧ rdataByte memory rrsig off = 0 then
    off + 1
  else
    off

/-- A record as `build_signed_data` appends it. -/
def signedRecord (memory : Nat → UInt8) (rr : DnsRr) : Bytes :=
  nameToWire rr.name ++ bytes16 rr.type ++ bytes16 rr.rrclass ++
    bytes32 rr.ttl ++ bytes16 rr.rdlength ++
      bytesFrom memory rr.rdata rr.rdlength.toNat

def buildSignedData (memory : Nat → UInt8) (rrsig : DnsRr)
    (rrset : List DnsRr) : Bytes :=
  bytesFrom memory rrsig.rdata (signatureOffset memory rrsig) ++
    rrset.flatMap (signedRecord memory)

/-- The bytes that are passed as the signature; its length is a `size_t`. -/
def rrsigSignature (memory : Nat → UInt8) (rrsig : DnsRr) : Bytes :=
  let off := signatureOffset memory rrsig
  bytesFrom memory (rrsig.rdata + off)
    ((rrsig.rdlength.toNat + 18446744073709551616 - off) %
      18446744073709551616)

section

variable {K : Type} (verify : K → Bytes → Bytes → Bool)
  (memory : Nat → UInt8)

/-- `verify_rrsig` returns zero. -/
def verifyRrsig (rrsig : DnsRr) (rrset : List DnsRr) (key : K) : Bool :=
  let algo := rdataByte memory rrsig 2
  if algo = 8 ∨ algo = 13 then
    verify key (buildSignedData memory rrsig rrset)
      (rrsigSignature memory rrsig)
  else
    false

/-- The loop of `dnssec_validate`, over the answers still to be seen. -/
def validateAnswers (msg : DnsMessage) (key : K) : List DnsRr → Verdict
  | [] => .unsigned
  | rr :: rest =>
      if rr.type = dnsTypeA ∧ rr.rdlength = 4 then
        match findRrsig memory msg rr.name dnsTypeA with
        | none => validateAnswers msg key rest
        | some rrsig =>
            if verifyRrsig verify memory rrsig [rr] key = true then .secure
            else .bogus
      else
        validateAnswers msg key rest

def dnssecValidate (ctx : Option (DnssecCtx K)) (msg : DnsMessage) :
    Verdict :=
  match ctx with
  | none => .unsigned
  | some ctx =>
      if msg.answers = [] then .unsigned
      else validateAnswers verify memory msg ctx.trustedKey msg.answers

end

end DnsFirewall
