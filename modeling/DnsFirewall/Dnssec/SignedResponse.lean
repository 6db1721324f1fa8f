import DnsFirewall.Dnssec.Assembly
import DnsFirewall.Processor.Model
import DnsFirewall.Wire.RoundTrip

/-!
# The signed response of the test zone

`gen_signed_final.py` signs one address and writes the response with the
address, its RRSIG record and the key.  The validator takes the response apart
again, under any ID: what it gives to OpenSSL is the text that the script has
signed, and the signature that it has made.
-/

namespace DnsFirewall

open CString BigEndian

/-! ## The script -/

/-- The sum in `key_tag`. -/
def keyTagSum : Bytes → Nat
  | high :: low :: rest => (high.toNat <<< 8 ||| low.toNat) + keyTagSum rest
  | [high] => high.toNat <<< 8
  | [] => 0

def keyTag (rdata : Bytes) : UInt16 :=
  let ac := keyTagSum rdata
  let ac := ac + ((ac >>> 16) &&& 0xFFFF)
  (ac &&& 0xFFFF).toUInt16

/-- What a run of the script depends on: the RSA key of 2048 bits that it
generates, and a clock whose times `struct.pack` takes. -/
structure SigningRun where
  modulus : Bytes
  sign : Bytes → Bytes
  now : Nat
  modulusSize : modulus.length = 256
  signatureSize : ∀ data, (sign data).length = 256
  begun : 86400 ≤ now
  inWord : now + 86400 < 4294967296

/-- `name_www`: `www.signed.test.`. -/
def nameWww : Bytes :=
  [3, 119, 119, 119, 6, 115, 105, 103, 110, 101, 100, 4, 116, 101, 115, 116, 0]

/-- `name_zone`: `signed.test.`. -/
def nameZone : Bytes :=
  [6, 115, 105, 103, 110, 101, 100, 4, 116, 101, 115, 116, 0]

/-- The exponent 65537. -/
def publicExponent : Bytes := [1, 0, 1]

/-- `a_rdata`: 192.0.2.1. -/
def aRdata : Bytes := [192, 0, 2, 1]

def rrsetA : Bytes :=
  nameWww ++
    (bytes16 1 ++ (bytes16 1 ++ (bytes32 300 ++ (bytes16 4 ++ aRdata))))

namespace SigningRun

variable (run : SigningRun)

def keyBlob : Bytes :=
  if publicExponent.length ≤ 255 then
    [publicExponent.length.toUInt8] ++ publicExponent ++ run.modulus
  else
    0 :: bytes16 publicExponent.length.toUInt16 ++ publicExponent ++
      run.modulus

def dnskeyRdata : Bytes :=
  bytes16 257 ++ ([3, 8] ++ run.keyBlob)

/-- `rrsig_hdr` in front of the name of the zone. -/
def rrsigFields : Bytes :=
  bytes16 1 ++ ([8, 3] ++ (bytes32 300 ++
    (bytes32 (run.now + 86400).toUInt32 ++
      (bytes32 (run.now - 86400).toUInt32 ++
        bytes16 (keyTag run.dnskeyRdata)))))

def rrsigHdr : Bytes :=
  run.rrsigFields ++ nameZone

def toSign : Bytes :=
  run.rrsigHdr ++ rrsetA

def signature : Bytes :=
  run.sign run.toSign

def rrsigRdata : Bytes :=
  run.rrsigHdr ++ run.signature

def rrsigRr : Bytes :=
  nameWww ++
    (bytes16 46 ++ (bytes16 1 ++ (bytes32 300 ++
      (bytes16 run.rrsigRdata.length.toUInt16 ++ run.rrsigRdata))))

def dnskeyRr : Bytes :=
  nameZone ++
    (bytes16 48 ++ (bytes16 1 ++ (bytes32 3600 ++
      (bytes16 run.dnskeyRdata.length.toUInt16 ++ run.dnskeyRdata))))

/-- What is written to `signed_response.bin`. -/
def response : Bytes :=
  bytes16 0x1234 ++
    (bytes16 0x8580 ++
      ((bytes16 1 ++ (bytes16 2 ++ (bytes16 0 ++ bytes16 1))) ++
        ((nameWww ++ (bytes16 1 ++ bytes16 1)) ++
          ((rrsetA ++ run.rrsigRr) ++ run.dnskeyRr))))

end SigningRun

/-! ## The message that it is -/

def wwwSignedTest : LegalName where
  labels := [[119, 119, 119], [115, 105, 103, 110, 101, 100],
    [116, 101, 115, 116]]
  legal := by
    intro label member
    simp only [List.mem_cons, List.not_mem_nil, or_false] at member
    rcases member with rfl | rfl | rfl
    · exact ⟨by decide, by decide, by simp, by simp⟩
    · exact ⟨by decide, by decide, by simp, by simp⟩
    · exact ⟨by decide, by decide, by simp, by simp⟩
  nonempty := by decide
  count := by decide
  fits := by decide

def signedTest : LegalName where
  labels := [[115, 105, 103, 110, 101, 100], [116, 101, 115, 116]]
  legal := by
    intro label member
    simp only [List.mem_cons, List.not_mem_nil, or_false] at member
    rcases member with rfl | rfl
    · exact ⟨by decide, by decide, by simp, by simp⟩
    · exact ⟨by decide, by decide, by simp, by simp⟩
  nonempty := by decide
  count := by decide
  fits := by decide

def signedAddress : RecordSpec where
  name := wwwSignedTest
  type := dnsTypeA
  rrclass := 1
  ttl := 300
  rdata := aRdata
  fits := by decide

namespace SigningRun

variable (run : SigningRun)

theorem rrsigHdr_length : run.rrsigHdr.length = 31 :=
  rfl

theorem rrsigRdata_length : run.rrsigRdata.length = 287 := by
  rw [rrsigRdata, List.length_append, rrsigHdr_length, signature,
    run.signatureSize]

theorem dnskeyRdata_length : run.dnskeyRdata.length = 264 := by
  have blob : run.keyBlob = [3] ++ publicExponent ++ run.modulus := rfl
  rw [dnskeyRdata, blob]
  simp only [List.length_append, run.modulusSize]
  rfl

def signatureRecord : RecordSpec where
  name := wwwSignedTest
  type := dnsTypeRrsig
  rrclass := 1
  ttl := 300
  rdata := run.rrsigRdata
  fits := by
    rw [run.rrsigRdata_length]
    decide

def keyRecord : RecordSpec where
  name := signedTest
  type := 48
  rrclass := 1
  ttl := 3600
  rdata := run.dnskeyRdata
  fits := by
    rw [run.dnskeyRdata_length]
    decide

/-- The message of the response, under an ID. -/
def message (id : UInt16) : MessageSpec where
  id := id
  flags := 0x8580
  questions := [⟨wwwSignedTest, dnsTypeA, 1⟩]
  answers := [signedAddress, run.signatureRecord]
  authorities := []
  additionals := [run.keyRecord]
  questionsFit := by simp
  answersFit := by simp
  authoritiesFit := by simp
  additionalsFit := by simp

theorem rrsetA_eq : rrsetA = signedAddress.encode :=
  rfl

theorem rrsigRr_eq : run.rrsigRr = run.signatureRecord.encode := by
  simp only [rrsigRr, RecordSpec.encode, RecordSpec.fixedBytes,
    RecordSpec.rdlength, List.append_assoc]
  rfl

theorem dnskeyRr_eq : run.dnskeyRr = run.keyRecord.encode := by
  simp only [dnskeyRr, RecordSpec.encode, RecordSpec.fixedBytes,
    RecordSpec.rdlength, List.append_assoc]
  rfl

theorem response_eq : run.response = (run.message 0x1234).bytes := by
  rw [response, run.rrsigRr_eq, run.dnskeyRr_eq, rrsetA_eq]
  simp only [MessageSpec.bytes, MessageSpec.itemBytes, message,
    List.flatMap_cons, List.flatMap_nil, List.append_nil, List.nil_append]
  rfl

/-- With the ID of a query it is the response to this query. -/
theorem patchId_response (id : UInt16) :
    patchId id run.response = (run.message id).bytes := by
  rw [response_eq]
  rfl

end SigningRun

/-! ## The validator -/

theorem bytesFrom_packetMemory
    {packet : Bytes} (beyond : Nat → UInt8) {start count : Nat}
    (inside : start + count ≤ packet.length) :
    bytesFrom (packetMemory packet beyond) start count =
      (packet.drop start).take count := by
  apply List.ext_getElem
  · rw [bytesFrom_length, List.length_take, List.length_drop]
    omega
  · intro index here _
    rw [bytesFrom_length] at here
    have there : start + index < packet.length := by
      omega
    simp [bytesFrom, packetMemory, there]

/-- The RDATA of a record, read through its pointer in the packet. -/
theorem bytesFrom_rdata
    (before after : Bytes) (record : RecordSpec) (beyond : Nat → UInt8) :
    bytesFrom (packetMemory (before ++ (record.encode ++ after)) beyond)
        (record.parsedAt before.length).rdata record.rdata.length =
      record.rdata := by
  have data := congrArg RecordView.rdata (view_parsedAt before after record)
  change
    ((before ++ (record.encode ++ after)).drop
          (record.parsedAt before.length).rdata).take
        record.rdlength.toNat = record.rdata at data
  rw [record.rdlength_toNat] at data
  rw [bytesFrom_packetMemory, data]
  rw [RecordSpec.parsedAt, RecordSpec.encode]
  simp only [List.length_append, RecordSpec.fixedBytes_length]
  omega

/-- On one address and one RRSIG record that covers it, the verdict is that of
OpenSSL on the header, the signer name and the canonical record. -/
theorem dnssecValidate_pair
    {K : Type} (verify : K → Bytes → Bytes → Bool) (ctx : DnssecCtx K)
    {memory : Nat → UInt8} {msg : DnsMessage} {rr rrsig : DnsRr}
    {header signature : Bytes} {signer : WireName}
    (answers : msg.answers = [rr, rrsig])
    (address : rr.type = dnsTypeA ∧ rr.rdlength = 4)
    (isRrsig : rrsig.type = dnsTypeRrsig) (sameName : rrsig.name = rr.name)
    (headerSize : header.length = 18)
    (length :
      rrsig.rdlength.toNat =
        (header ++ encodeName signer.labels ++ signature).length)
    (stored :
      bytesFrom memory rrsig.rdata
          (header ++ encodeName signer.labels ++ signature).length =
        header ++ encodeName signer.labels ++ signature)
    (covers : [0, 1, 8] <+: header) :
    dnssecValidate verify memory (some ctx) msg = .secure ↔
      verify ctx.trustedKey
          (header ++ encodeName signer.labels ++ signedRecord memory rr)
          signature =
        true := by
  obtain ⟨rest, fields⟩ := covers
  have high : rdataByte memory rrsig 0 = 0 :=
    memory_eq_of_bytesFrom stored (by rw [← fields]; rfl)
  have low : rdataByte memory rrsig 1 = 1 :=
    memory_eq_of_bytesFrom stored (by rw [← fields]; rfl)
  have algorithm : rdataByte memory rrsig 2 = 8 :=
    memory_eq_of_bytesFrom stored (by rw [← fields]; rfl)
  have long : ¬ rrsig.rdlength < 2 := by
    rw [UInt16.lt_iff_toNat_lt, length, List.length_append,
      List.length_append, headerSize]
    change ¬ _ < 2
    omega
  have notAddress : rr.type ≠ dnsTypeRrsig := by
    rw [address.1]
    decide
  have found : findRrsig memory msg rr.name dnsTypeA = some rrsig := by
    have word : word16 0 1 = dnsTypeA := by
      decide
    rw [findRrsig, answers, List.find?_cons_of_neg (by simp [notAddress]),
      List.find?_cons_of_pos]
    simp [isRrsig, sameName, long, high, low, word]
  have signed :=
    signatureOffset_encode headerSize signer.sizes length stored
  have verified :
      verifyRrsig verify memory rrsig [rr] ctx.trustedKey =
        verify ctx.trustedKey
          (header ++ encodeName signer.labels ++ signedRecord memory rr)
          signature := by
    rw [verifyRrsig, if_pos (.inl algorithm), signed.2.2, buildSignedData,
      signed.2.1, List.flatMap_singleton]
  rw [dnssecValidate, answers, if_neg (List.cons_ne_nil _ _),
    validateAnswers, if_pos address, found]
  simp only
  rw [verified]
  split
  · rename_i accepted
    exact iff_of_true rfl accepted
  · rename_i refused
    exact iff_of_false (by simp) refused

namespace SigningRun

variable (run : SigningRun)

/-- `signed.test.` as the signer of the RRSIG record. -/
def signer : WireName where
  labels := signedTest.labels
  sizes := fun label member =>
    ⟨(signedTest.legal label member).nonempty,
      (signedTest.legal label member).short⟩
  fits := signedTest.fits

theorem signer_encode : encodeName signer.labels = nameZone := by
  decide

/-- Where the answers of the response begin. -/
def answersAt : Nat := 33

/-- The address and the RRSIG record where the parser finds them. -/
theorem message_answers (id : UInt16) :
    (run.message id).parsed.answers =
      [signedAddress.parsedAt answersAt,
        run.signatureRecord.parsedAt
          (answersAt + signedAddress.encode.length)] :=
  rfl

section Memory

variable (id : UInt16) (beyond : Nat → UInt8)

theorem answerBytes_message :
    (run.message id).answerBytes =
      signedAddress.encode ++ run.signatureRecord.encode := by
  change signedAddress.encode ++ (run.signatureRecord.encode ++ []) = _
  rw [List.append_nil]

theorem bytes_at_address :
    ∃ before after, before.length = answersAt ∧
      (run.message id).bytes = before ++ (signedAddress.encode ++ after) := by
  refine
    ⟨(run.message id).headBytes ++ (run.message id).questionBytes,
      run.signatureRecord.encode ++ (run.message id).additionalBytes, rfl, ?_⟩
  rw [← (run.message id).bytes_at_answers, answerBytes_message,
    List.append_assoc signedAddress.encode]
  rfl

theorem bytes_at_signature :
    ∃ before after,
      before.length = answersAt + signedAddress.encode.length ∧
        (run.message id).bytes =
          before ++ (run.signatureRecord.encode ++ after) := by
  refine
    ⟨(run.message id).headBytes ++ (run.message id).questionBytes ++
        signedAddress.encode,
      (run.message id).additionalBytes, rfl, ?_⟩
  rw [← (run.message id).bytes_at_answers, answerBytes_message,
    List.append_assoc _ signedAddress.encode,
    List.append_assoc signedAddress.encode]
  rfl

/-- The record that the validator rebuilds is the one that was signed. -/
theorem signedRecord_address :
    signedRecord (packetMemory (run.message id).bytes beyond)
        (signedAddress.parsedAt answersAt) =
      rrsetA := by
  obtain ⟨before, after, place, bytes⟩ := run.bytes_at_address id
  have data :
      bytesFrom (packetMemory (run.message id).bytes beyond)
          (signedAddress.parsedAt answersAt).rdata 4 = aRdata := by
    rw [← place, bytes]
    exact bytesFrom_rdata before after signedAddress beyond
  have name : nameToWire wwwSignedTest.text = nameWww := by
    decide
  have count : (signedAddress.parsedAt answersAt).rdlength.toNat = 4 := rfl
  rw [signedRecord, count, data]
  simp only [RecordSpec.parsedAt, signedAddress, name]
  rfl

theorem bytesFrom_signature :
    bytesFrom (packetMemory (run.message id).bytes beyond)
        (run.signatureRecord.parsedAt
          (answersAt + signedAddress.encode.length)).rdata
        run.rrsigRdata.length =
      run.rrsigRdata := by
  obtain ⟨before, after, place, bytes⟩ := run.bytes_at_signature id
  rw [← place, bytes]
  exact bytesFrom_rdata before after run.signatureRecord beyond

/-- The response validates exactly when the trusted key accepts the signature
of the script for the text that it has signed. -/
theorem dnssecValidate_message
    {K : Type} (verify : K → Bytes → Bytes → Bool) (ctx : DnssecCtx K) :
    dnssecValidate verify (packetMemory (run.message id).bytes beyond)
        (some ctx) (run.message id).parsed = .secure ↔
      verify ctx.trustedKey run.toSign run.signature = true := by
  have rdata :
      run.rrsigRdata =
        run.rrsigFields ++ encodeName signer.labels ++ run.signature := by
    rw [signer_encode]
    rfl
  have length :
      (run.signatureRecord.parsedAt
            (answersAt + signedAddress.encode.length)).rdlength.toNat =
        (run.rrsigFields ++ encodeName signer.labels ++
          run.signature).length := by
    rw [← rdata]
    exact run.signatureRecord.rdlength_toNat
  have stored := run.bytesFrom_signature id beyond
  rw [rdata] at stored
  have headerSize : run.rrsigFields.length = 18 := rfl
  have covers : [0, 1, 8] <+: run.rrsigFields :=
    ⟨run.rrsigFields.drop 3, rfl⟩
  rw [dnssecValidate_pair verify ctx (run.message_answers id) ⟨rfl, rfl⟩ rfl
      rfl headerSize length stored covers,
    run.signedRecord_address id beyond, signer_encode]
  rfl

end Memory

end SigningRun

end DnsFirewall
