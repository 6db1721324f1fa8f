import DnsFirewall.Foundations.Selection
import DnsFirewall.Foundations.Separated
import DnsFirewall.Resolver.Trust

/-!
# The zones of the static forwarders

The loop of `resolve_internal` compares the last characters of the name with
the characters of a zone.  A name is in a zone when its labels end with the
labels of the zone.  The two differ where the zone starts inside a label of
the name; a zone written with a final dot, and one whose address does not
parse, are never met by the loop.
-/

namespace DnsFirewall

open CString Separated Selection

/-! ## Names as labels -/

/-- A name without its final dot. -/
def stripDot (name : Bytes) : Bytes :=
  if name.getLast? = some 46 then name.dropLast else name

/-- The label sequence of a name, with or without its final dot. -/
def labelsOf (name : Bytes) : List Bytes :=
  if stripDot name = [] then [] else (stripDot name).splitOn 46

/-- The labels without their case. -/
def foldedLabels (name : Bytes) : List Bytes :=
  (labelsOf name).map (List.map toLower)

/-- The label sequence of the name equals that of the zone or ends with it. -/
def inZoneByLabels (qname : Bytes) (z : StaticForwarder) : Bool :=
  decide (foldedLabels z.zone <:+ foldedLabels (content qname))

/-- Labels with single dots between them, and perhaps a dot behind them. -/
def DotSeparated (qname : Bytes) : Prop :=
  [] ∉ labelsOf (content qname)

/-! ## The entry that the loop stops at -/

/-- The tests of the loop: the last characters, and `inet_pton`. -/
def zoneTest (qname : Bytes) (z : StaticForwarder) : Bool :=
  inZone qname z && (inetPton z.ip).isSome

def zoneFor (cfg : ResolverConfig) (qname : Bytes) :
    Option StaticForwarder :=
  cfg.forwarders.find? (zoneTest qname)

/-- The body of the loop behind its tests. -/
def forwardToZone (env : Env) (question : DnsQuestion)
    (z : StaticForwarder) (w : World) : Outcome × World :=
  let (reply, w) :=
    sendQuery env ⟨(inetPton z.ip).getD 0, z.port⟩ question w
  acceptForwarded env question reply w

/-- What `resolve_internal` does behind the loop. -/
def normalResolution (env : Env) (cfg : ResolverConfig) (levels : Nat)
    (question : DnsQuestion) (nsList : List NsRecord) (w : World) :
    Outcome × World :=
  match cfg.dnsForwarder with
  | some fwdIp =>
      if useTcp cfg then forwardTcp env fwdIp question w
      else forwardUdp env fwdIp question w
  | none =>
      tryServers env (resolveInternal env cfg levels) question nsList
        nsList w

theorem staticForwarderFor_eq (cfg : ResolverConfig) (qname : Bytes) :
    staticForwarderFor cfg qname =
      (zoneFor cfg qname).map fun z =>
        ⟨(inetPton z.ip).getD 0, z.port⟩ := by
  rw [staticForwarderFor, zoneFor]
  induction cfg.forwarders with
  | nil => rfl
  | cons z rest inductionHypothesis =>
      rw [List.findSome?_cons]
      cases inside : inZone qname z with
      | false =>
          rw [List.find?_cons_of_neg (by simp [zoneTest, inside])]
          exact inductionHypothesis
      | true =>
          cases address : inetPton z.ip with
          | none =>
              rw [List.find?_cons_of_neg (by simp [zoneTest, address])]
              exact inductionHypothesis
          | some sAddr =>
              rw [List.find?_cons_of_pos (by
                simp [zoneTest, inside, address])]
              simp [address]

/-- A question that is not in the cache goes where the loop stops. -/
theorem resolveInternal_of_miss
    (env : Env) (cfg : ResolverConfig) (levels : Nat)
    {question : DnsQuestion} (nsList : List NsRecord) {w : World}
    (miss : (checkCache env question w).1 = none) :
    resolveInternal env cfg (levels + 1) question nsList w =
      match zoneFor cfg question.qname with
      | some z =>
          forwardToZone env question z (checkCache env question w).2
      | none =>
          normalResolution env cfg levels question nsList
            (checkCache env question w).2 := by
  rw [resolveInternal, staticForwarderFor_eq]
  generalize checkCache env question w = checked at miss ⊢
  obtain ⟨found, missed⟩ := checked
  simp only at miss
  subst miss
  cases zoneFor cfg question.qname with
  | none => rfl
  | some z => rfl

/-! ## The comparison of characters -/

theorem length_stripDot (name : Bytes) :
    (if name.getLast? = some 46 then name.length - 1 else name.length) =
      (stripDot name).length := by
  rw [stripDot]
  split
  · rw [List.length_dropLast]
  · rfl

theorem stripDot_eq_take (name : Bytes) :
    name.take (stripDot name).length = stripDot name := by
  rw [stripDot]
  split
  · rw [List.length_dropLast, List.dropLast_eq_take]
  · exact List.take_length

/-- The loop compares the end of the name without its final dot. -/
theorem inZone_iff (qname : Bytes) (z : StaticForwarder) :
    inZone qname z = true ↔
      z.zone.map toLower <:+ (stripDot (content qname)).map toLower := by
  rw [inZone]
  simp only [length_stripDot]
  have taken := stripDot_eq_take (content qname)
  generalize stripDot (content qname) = name at taken ⊢
  by_cases longer : name.length < z.zone.length
  · rw [if_pos longer]
    refine iff_of_false Bool.false_ne_true (fun ends => ?_)
    have bound := ends.length_le
    rw [List.length_map, List.length_map] at bound
    omega
  · rw [if_neg longer]
    have whole : name.length - z.zone.length + z.zone.length = name.length := by
      omega
    have compared :
        ((content qname).drop (name.length - z.zone.length)).take
            z.zone.length =
          name.drop (name.length - z.zone.length) := by
      rw [List.take_drop, whole, taken]
    rw [strncasecmpEq, strcasecmpEq]
    rw [compared, List.take_length, beq_iff_eq, List.suffix_iff_eq_drop,
      List.length_map, List.length_map, List.map_drop]
    exact eq_comm

theorem splitOn_map_toLower (text : Bytes) :
    (text.map toLower).splitOn 46 =
      (text.splitOn 46).map (List.map toLower) :=
  splitOn_map (toLower_eq_iff (by decide)) text

/-- The comparison of labels finds the zone at a dot. -/
theorem inZoneByLabels_iff
    {qname : Bytes} {z : StaticForwarder} (filled : z.zone ≠ [])
    (noFinalDot : z.zone.getLast? ≠ some 46) :
    inZoneByLabels qname z = true ↔
      (z.zone.map toLower).splitOn 46 <:+
        ((stripDot (content qname)).map toLower).splitOn 46 := by
  have zoneLabels :
      foldedLabels z.zone = (z.zone.map toLower).splitOn 46 := by
    rw [foldedLabels, labelsOf, stripDot]
    rw [if_neg noFinalDot, if_neg filled, splitOn_map_toLower]
  rw [inZoneByLabels]
  rw [decide_eq_true_iff, zoneLabels]
  by_cases root : stripDot (content qname) = []
  · have noLabels : foldedLabels (content qname) = [] := by
      rw [foldedLabels, labelsOf]
      rw [if_pos root]
      rfl
    rw [noLabels, root, List.map_nil]
    refine iff_of_false ?_ ?_
    · intro ends
      exact List.splitOn_ne_nil _ _ (List.suffix_nil.mp ends)
    · rw [splitOn_suffix_iff]
      intro given
      rcases given with same | ends
      · exact filled (List.map_eq_nil_iff.mp same.symm)
      · cases List.suffix_nil.mp ends
  · rw [foldedLabels, labelsOf]
    rw [if_neg root, splitOn_map_toLower, splitOn_map_toLower]

/-- A name of filled labels does not end with two dots. -/
theorem stripDot_getLast?
    {qname : Bytes} (named : DotSeparated qname) :
    (stripDot (content qname)).getLast? ≠ some 46 := by
  intro ends
  obtain ⟨front, split⟩ := List.getLast?_eq_some_iff.mp ends
  apply named
  rw [labelsOf]
  rw [split, if_neg (by simp), List.splitOn_append_cons_self]
  simp

/-! ## Where the comparisons differ -/

/-- The loop is wrong about the zone: its characters start inside a label of
the name, or the name is in a zone whose entry is never met. -/
def Mistaken (qname : Bytes) (z : StaticForwarder) : Prop :=
  if inetPton z.ip = none ∨ z.zone.getLast? = some 46 then
    inZoneByLabels qname z = true
  else
    ∃ front character,
      character ≠ 46 ∧
        (stripDot (content qname)).map toLower =
          front ++ character :: z.zone.map toLower

/-- A zone with a final dot is not the end of any name. -/
theorem inZone_of_finalDot
    {qname : Bytes} (named : DotSeparated qname) {z : StaticForwarder}
    (finalDot : z.zone.getLast? = some 46) :
    inZone qname z = false := by
  rw [← Bool.not_eq_true, inZone_iff]
  intro ends
  apply stripDot_getLast? named
  obtain ⟨zoneFront, zoneSplit⟩ := List.getLast?_eq_some_iff.mp finalDot
  obtain ⟨front, split⟩ := ends
  have last :
      ((stripDot (content qname)).map toLower).getLast? = some 46 := by
    rw [← split, zoneSplit, List.map_append, ← List.append_assoc]
    exact List.getLast?_concat
  rw [List.getLast?_map, Option.map_eq_some_iff] at last
  obtain ⟨character, isLast, lowered⟩ := last
  rw [isLast, (toLower_eq_iff (by decide) character).mp lowered]

/-- `Mistaken` says where the loop and the labels part. -/
theorem zoneTest_ne_iff
    {qname : Bytes} (named : DotSeparated qname) {z : StaticForwarder}
    (filled : z.zone ≠ []) :
    zoneTest qname z ≠ inZoneByLabels qname z ↔ Mistaken qname z := by
  rw [Mistaken]
  by_cases unmet : inetPton z.ip = none ∨ z.zone.getLast? = some 46
  · have passed : zoneTest qname z = false := by
      rw [zoneTest]
      rcases unmet with badAddress | finalDot
      · rw [badAddress, Option.isSome_none, Bool.and_false]
      · rw [inZone_of_finalDot named finalDot, Bool.false_and]
    rw [if_pos unmet, passed, ne_comm, ne_eq, Bool.not_eq_false]
  · obtain ⟨address, noFinalDot⟩ := not_or.mp unmet
    have met : zoneTest qname z = inZone qname z := by
      rw [zoneTest]
      rw [Option.isSome_iff_ne_none.mpr address, Bool.and_true]
    have byLabels := @inZoneByLabels_iff qname z filled noFinalDot
    have byCharacters := inZone_iff qname z
    rw [if_neg unmet, met, ← inside_piece_iff, ← byLabels, ← byCharacters]
    constructor
    · intro differ
      cases labels : inZoneByLabels qname z with
      | true =>
          have characters : inZone qname z = true :=
            byCharacters.mpr (suffix_of_splitOn (byLabels.mp labels))
          exact absurd (characters.trans labels.symm) differ
      | false =>
          rw [labels] at differ
          exact ⟨by simpa using differ, by decide⟩
    · rintro ⟨characters, notLabels⟩ same
      exact notLabels (same.symm.trans characters)

/-! ## The entry that is used -/

/-- The loop stops at the first zone that the name is in by its labels. -/
def FollowsLabels (cfg : ResolverConfig) (qname : Bytes) : Prop :=
  zoneFor cfg qname = cfg.forwarders.find? (inZoneByLabels qname)

/-- Every zone that the loop is wrong about stands behind one that contains
the name and that it is right about. -/
def MistakesShadowed (cfg : ResolverConfig) (qname : Bytes) : Prop :=
  ∀ before z after,
    cfg.forwarders = before ++ z :: after → Mistaken qname z →
      ∃ earlier, earlier ∈ before ∧
        inZoneByLabels qname earlier = true ∧ ¬ Mistaken qname earlier

theorem shadowed_iff
    {cfg : ResolverConfig} {qname : Bytes} (named : DotSeparated qname)
    (filled : ∀ z, z ∈ cfg.forwarders → z.zone ≠ []) :
    Shadowed (zoneTest qname) (inZoneByLabels qname) cfg.forwarders ↔
      MistakesShadowed cfg qname := by
  have member :
      ∀ {before : List StaticForwarder} {z after},
        cfg.forwarders = before ++ z :: after → z.zone ≠ [] := by
    intro before z after split
    exact filled z (by rw [split]; simp)
  have earlierMember :
      ∀ {before : List StaticForwarder} {z after} {earlier},
        cfg.forwarders = before ++ z :: after → earlier ∈ before →
          earlier.zone ≠ [] := by
    intro before z after earlier split inBefore
    exact filled earlier (by rw [split]; simp [inBefore])
  constructor
  · intro shadowed before z after split mistaken
    obtain ⟨earlier, inBefore, tested, labels⟩ :=
      shadowed before z after split
        ((zoneTest_ne_iff named (member split)).mpr mistaken)
    refine ⟨earlier, inBefore, labels, ?_⟩
    rw [← zoneTest_ne_iff named (earlierMember split inBefore), tested,
      labels]
    exact fun differ => differ rfl
  · intro shadowed before z after split differ
    obtain ⟨earlier, inBefore, labels, right⟩ :=
      shadowed before z after split
        ((zoneTest_ne_iff named (member split)).mp differ)
    refine ⟨earlier, inBefore, ?_, labels⟩
    rw [← zoneTest_ne_iff named (earlierMember split inBefore),
      not_not] at right
    rw [right, labels]

/-- A question that is not in the cache is sent to the zone at which the loop
stops, and that is the zone of its labels exactly when every mistake of the
loop is shadowed. -/
theorem resolveInternal_zones
    (env : Env) (cfg : ResolverConfig) (levels : Nat)
    (question : DnsQuestion) (nsList : List NsRecord) (w : World)
    (miss : (checkCache env question w).1 = none)
    (named : DotSeparated question.qname)
    (filled : ∀ z, z ∈ cfg.forwarders → z.zone ≠ []) :
    (resolveInternal env cfg (levels + 1) question nsList w =
        match zoneFor cfg question.qname with
        | some z =>
            forwardToZone env question z (checkCache env question w).2
        | none =>
            normalResolution env cfg levels question nsList
              (checkCache env question w).2) ∧
      (FollowsLabels cfg question.qname ↔
        MistakesShadowed cfg question.qname) := by
  refine ⟨resolveInternal_of_miss env cfg levels nsList miss, ?_⟩
  rw [FollowsLabels, zoneFor]
  rw [find?_eq_find?_iff, shadowed_iff named filled]

/-- The name `www.fastflux.test`. -/
def wwwFastflux : Bytes :=
  [119, 119, 119, 46, 102, 97, 115, 116, 102, 108, 117, 120, 46, 116, 101,
    115, 116]

/-- The zone `fastflux.test`. -/
def fastfluxZone : StaticForwarder :=
  ⟨[102, 97, 115, 116, 102, 108, 117, 120, 46, 116, 101, 115, 116],
    localhostText, 5300⟩

/-- The name is in the first zone, and nothing is mistaken about it. -/
theorem resolveInternal_zones_www :
    resolveInternal (envAnswering strayPacket) configIterative 17
          ⟨wwwFastflux, dnsTypeA, dnsClassIn⟩ configIterative.rootHints
          ⟨cacheCreate cacheDefaultSize, tcpPoolStart, 0, []⟩ =
        forwardToZone (envAnswering strayPacket)
          ⟨wwwFastflux, dnsTypeA, dnsClassIn⟩ fastfluxZone
          (checkCache (envAnswering strayPacket)
            ⟨wwwFastflux, dnsTypeA, dnsClassIn⟩
            ⟨cacheCreate cacheDefaultSize, tcpPoolStart, 0, []⟩).2 ∧
      inZoneByLabels wwwFastflux fastfluxZone = true ∧
        MistakesShadowed configIterative wwwFastflux := by
  have zone : zoneFor configIterative wwwFastflux = some fastfluxZone := by
    decide
  have follows : FollowsLabels configIterative wwwFastflux := by
    rw [FollowsLabels]
    decide
  obtain ⟨forwards, exact_⟩ :=
    resolveInternal_zones (envAnswering strayPacket) configIterative 16
      ⟨wwwFastflux, dnsTypeA, dnsClassIn⟩ configIterative.rootHints
      ⟨cacheCreate cacheDefaultSize, tcpPoolStart, 0, []⟩ (by rfl)
      (by unfold DotSeparated; decide) (by decide)
  rw [zone] at forwards
  exact ⟨forwards, by decide, exact_.mp follows⟩

/-- The name `notfastflux.test`. -/
def notFastflux : Bytes :=
  [110, 111, 116, 102, 97, 115, 116, 102, 108, 117, 120, 46, 116, 101, 115,
    116]

/-- It is in none of the zones, and the question for it is sent to the
forwarder of `fastflux.test`. -/
theorem notFastflux_forwarded :
    (∀ z, z ∈ staticForwarders → inZoneByLabels notFastflux z = false) ∧
      ¬ FollowsLabels configIterative notFastflux ∧
        (resolveInternal (envAnswering []) configIterative 17
            ⟨notFastflux, dnsTypeA, dnsClassIn⟩ []
            ⟨cacheCreate cacheDefaultSize, tcpPoolStart, 0, []⟩).2.log =
          [.exchange
            (exchangeOf ⟨16777343, 5300⟩
              ⟨notFastflux, dnsTypeA, dnsClassIn⟩ 0 (some []))] := by
  refine ⟨by decide, ?_, by decide +kernel⟩
  rw [FollowsLabels]
  decide

end DnsFirewall
