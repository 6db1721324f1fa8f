import DnsFirewall.Policy.Checks

/-!
# Letter case in the policy checks

The blacklist, the DGA score and the tunnelling score are the same for two
spellings of a name that differ in the case of ASCII letters only.  The
fast-flux tracker compares bytes: it keeps the addresses of every spelling in
an entry of its own, and a reply is detected exactly when its addresses bring
the entry of one of the spellings in it over the limit.
-/

namespace DnsFirewall

open CString

variable {F : Type}

/-! ## Folded names -/

theorem foldedName_foldedName (domain : Bytes) :
    foldedName (foldedName domain) = foldedName domain := by
  unfold foldedName
  rw [List.map_map]
  refine List.map_congr_left fun character _ => ?_
  exact toLower_toLower character

theorem getLast?_foldedName_eq_dot_iff (domain : Bytes) :
    (foldedName domain).getLast? = some 46 ↔ domain.getLast? = some 46 := by
  rw [foldedName]
  rw [List.getLast?_map]
  cases domain.getLast? with
  | none => exact Iff.rfl
  | some last =>
      rw [Option.map_some, Option.some_inj, Option.some_inj]
      exact toLower_eq_iff (by decide) last

theorem normaliseDomain_foldedName (domain : Bytes) :
    normaliseDomain (foldedName domain) =
      foldedName (normaliseDomain domain) := by
  have sameEnd := getLast?_foldedName_eq_dot_iff domain
  unfold normaliseDomain
  by_cases dotted : domain.getLast? = some 46
  · rw [if_pos dotted, if_pos (sameEnd.mpr dotted)]
    exact List.map_dropLast.symm
  · rw [if_neg dotted, if_neg fun same => dotted (sameEnd.mp same)]

theorem domainBuffer_foldedName (domain : Bytes) :
    domainBuffer (foldedName domain) = foldedName (domainBuffer domain) := by
  unfold domainBuffer
  rw [← normaliseDomain_foldedName]
  unfold foldedName
  rw [content_map_toLower, boundedCopy_map_toLower]

theorem foldedName_domainBuffer_congr
    {left right : Bytes} (same : foldedName left = foldedName right) :
    foldedName (domainBuffer left) = foldedName (domainBuffer right) := by
  rw [← domainBuffer_foldedName, same, domainBuffer_foldedName]

theorem policyCheckBlocklist_congr
    (bl : Blacklist) {left right : Bytes}
    (same : foldedName left = foldedName right) :
    policyCheckBlocklist bl left = policyCheckBlocklist bl right :=
  blacklistContains_congr (foldedName_domainBuffer_congr same)

/-! ## The scores -/

theorem firstLabel_foldedName (domain : Bytes) :
    firstLabel (foldedName domain) = foldedName (firstLabel domain) :=
  takeWhile_map_toLower (by decide) domain

theorem dgaFeatures_foldedName (domain : Bytes) :
    dgaFeatures (foldedName domain) = dgaFeatures domain := by
  have step :
      (fun f character => dgaStep f (toLower character)) = dgaStep := by
    funext f character
    unfold dgaStep
    rw [toLower_toLower]
  unfold dgaFeatures foldedName
  rw [List.foldl_map, step]

theorem vowelConsonantScore_foldedName
    (arith : Arithmetic F) (domain : Bytes) :
    vowelConsonantScore arith (foldedName domain) =
      vowelConsonantScore arith domain := by
  have step :
      (fun count character => vowelStep count (toLower character)) =
        vowelStep := by
    funext count character
    unfold vowelStep
    rw [toLower_toLower]
  have counted :
      (firstLabel (foldedName domain)).foldl vowelStep ⟨0, 0, 0, none⟩ =
        (firstLabel domain).foldl vowelStep ⟨0, 0, 0, none⟩ := by
    rw [firstLabel_foldedName]
    unfold foldedName
    rw [List.foldl_map, step]
  unfold vowelConsonantScore
  rw [counted]

theorem ngramScoreDomain_foldedName
    (model : ScoreModel F) (domain : Bytes) :
    ngramScoreDomain model (foldedName domain) =
      ngramScoreDomain model domain := by
  have letters :
      (firstLabel (foldedName domain)).map toLower =
        (firstLabel domain).map toLower := by
    rw [firstLabel_foldedName]
    exact foldedName_foldedName (firstLabel domain)
  unfold ngramScoreDomain
  rw [letters]

/-- Every part of the score folds the letters that it counts. -/
theorem dgaScoreDomain_foldedName
    (model : ScoreModel F) (domain : Bytes) :
    dgaScoreDomain model (foldedName domain) =
      dgaScoreDomain model domain := by
  have folded : content (foldedName domain) = foldedName (content domain) :=
    content_map_toLower domain
  have length :
      (foldedName (content domain)).length = (content domain).length :=
    List.length_map _
  unfold dgaScoreDomain
  simp only
  rw [folded, length, dgaFeatures_foldedName, ngramScoreDomain_foldedName,
    vowelConsonantScore_foldedName]

theorem dgaScoreDomain_congr
    (model : ScoreModel F) {left right : Bytes}
    (same : foldedName left = foldedName right) :
    dgaScoreDomain model left = dgaScoreDomain model right := by
  rw [← dgaScoreDomain_foldedName, same, dgaScoreDomain_foldedName]

theorem aboveThreshold_congr
    (model : ScoreModel F) {left right : Bytes}
    (same : foldedName left = foldedName right) :
    aboveThreshold model left = aboveThreshold model right := by
  unfold aboveThreshold
  rw [dgaScoreDomain_congr model same]

theorem policyCheckPreresolve_congr
    (ctx : PolicyCtx F) {left right : Bytes}
    (same : foldedName left = foldedName right) :
    policyCheckPreresolve ctx left = policyCheckPreresolve ctx right :=
  aboveThreshold_congr ctx.scores (foldedName_domainBuffer_congr same)

/-! ## Respelled replies -/

/-- The second record is the first one with another spelling of its owner, as
far as the checks of a reply read it. -/
structure RespelledRecord (memory memory' : Bytes) (rr rr' : DnsRr) :
    Prop where
  name : foldedName (content rr'.name) = foldedName (content rr.name)
  type : rr'.type = rr.type
  rdlength : rr'.rdlength = rr.rdlength
  rdata : rr'.rdataBytes memory' = rr.rdataBytes memory

theorem RespelledRecord.tunnellingRecord_eq
    {memory memory' : Bytes} {rr rr' : DnsRr}
    (respelled : RespelledRecord memory memory' rr rr')
    (arith : Arithmetic F) :
    tunnellingRecord arith memory' rr' = tunnellingRecord arith memory rr := by
  unfold tunnellingRecord
  rw [respelled.type, respelled.rdlength, respelled.rdata]

theorem RespelledRecord.fluxAddress_eq
    {memory memory' : Bytes} {rr rr' : DnsRr}
    (respelled : RespelledRecord memory memory' rr rr') :
    fluxAddress memory' rr' = fluxAddress memory rr := by
  unfold fluxAddress
  rw [respelled.type, respelled.rdlength, respelled.rdata]

theorem RespelledRecord.refl (memory : Bytes) (rr : DnsRr) :
    RespelledRecord memory memory rr rr :=
  ⟨rfl, rfl, rfl, rfl⟩

theorem any_tunnellingRecord_congr
    (arith : Arithmetic F) {memory memory' : Bytes}
    {answers answers' : List DnsRr}
    (respelled :
      List.Forall₂ (RespelledRecord memory memory') answers answers') :
    answers'.any (tunnellingRecord arith memory') =
      answers.any (tunnellingRecord arith memory) := by
  induction respelled with
  | nil => rfl
  | cons first _ inductionHypothesis =>
      rw [List.any_cons, List.any_cons, inductionHypothesis,
        first.tunnellingRecord_eq]

theorem tunnellingScore_congr
    (ctx : PolicyCtx F) {query query' response response' : DnsMessage}
    {memory memory' : Bytes} {question question' : DnsQuestion}
    (asked : query.questions.head? = some question)
    (asked' : query'.questions.head? = some question')
    (qname : foldedName question'.qname = foldedName question.qname)
    (answers :
      List.Forall₂ (RespelledRecord memory memory') response.answers
        response'.answers) :
    tunnellingScore ctx query' response' memory' =
      tunnellingScore ctx query response memory := by
  have folded :
      foldedName (content question'.qname) =
        foldedName (content question.qname) := by
    have both := congrArg content qname
    unfold foldedName at both ⊢
    rw [content_map_toLower, content_map_toLower] at both
    exact both
  have length :
      (content question'.qname).length = (content question.qname).length := by
    have lengths := congrArg List.length folded
    unfold foldedName at lengths
    rw [List.length_map, List.length_map] at lengths
    exact lengths
  unfold tunnellingScore
  simp only [asked, asked']
  rw [length, dgaScoreDomain_congr ctx.scores folded,
    any_tunnellingRecord_congr ctx.scores.arith answers]

/-! ## The spellings in the flux table -/

/-- An address that a reply brings, with its owner as `strcmp` compares it. -/
structure FluxReport where
  domain : Bytes
  sinAddr : Bytes
  now : Int
deriving DecidableEq, Repr

/-- The calls of `flux_detect` for the answers, if none of them detects. -/
def fluxReportsOf (memory : Bytes) (clock : Nat → Int) :
    Nat → List DnsRr → List FluxReport
  | _, [] => []
  | i, rr :: rest =>
      match fluxAddress memory rr with
      | none => fluxReportsOf memory clock (i + 1) rest
      | some addr =>
          ⟨content rr.name, addr, clock i⟩ ::
            fluxReportsOf memory clock (i + 1) rest

/-- The addresses in the entry that `flux_find` finds. -/
def spellingIps : List FluxEntry → Bytes → List FluxIp
  | [], _ => []
  | e :: rest, domain =>
      if e.domain = domain then e.ips else spellingIps rest domain

/-- What `flux_add_ip` leaves of the addresses of an entry. -/
def addedIps (ips : List FluxIp) (report : FluxReport) : List FluxIp :=
  fluxTouch report.sinAddr report.now (fluxKeep ips report.now)

/-- One of the reports brings the addresses of an entry over the limit. -/
def overfull (fluxIpMax : Int) : List FluxIp → List FluxReport → Bool
  | _, [] => false
  | ips, report :: rest =>
      decide (fluxIpMax < (addedIps ips report).length) ||
        overfull fluxIpMax (addedIps ips report) rest

/-- The reports for one spelling. -/
def reportsFor (domain : Bytes) (reports : List FluxReport) :
    List FluxReport :=
  reports.filter fun report => report.domain = domain

/-- The reports bring the entry of one of the spellings over the limit. -/
def Floods (fluxIpMax : Int) (table : List FluxEntry)
    (reports : List FluxReport) : Prop :=
  ∃ domain,
    overfull fluxIpMax (spellingIps table domain)
      (reportsFor domain reports) = true

theorem not_floods_nil (fluxIpMax : Int) (table : List FluxEntry) :
    ¬ Floods fluxIpMax table [] := by
  intro given
  obtain ⟨domain, flooded⟩ := given
  cases flooded

theorem spellingIps_cons_self
    {e : FluxEntry} {domain : Bytes} (here : e.domain = domain)
    (rest : List FluxEntry) :
    spellingIps (e :: rest) domain = e.ips :=
  if_pos here

theorem spellingIps_cons_of_ne
    {e : FluxEntry} {domain : Bytes} (other : e.domain ≠ domain)
    (rest : List FluxEntry) :
    spellingIps (e :: rest) domain = spellingIps rest domain :=
  if_neg other

theorem reportsFor_cons_self
    {report : FluxReport} {domain : Bytes} (here : report.domain = domain)
    (rest : List FluxReport) :
    reportsFor domain (report :: rest) = report :: reportsFor domain rest :=
  List.filter_cons_of_pos (by simpa using here)

theorem reportsFor_cons_of_ne
    {report : FluxReport} {domain : Bytes} (other : report.domain ≠ domain)
    (rest : List FluxReport) :
    reportsFor domain (report :: rest) = reportsFor domain rest :=
  List.filter_cons_of_neg (by simpa using other)

theorem spellingIps_of_unknown
    {domain sinAddr : Bytes} {now : Int} {table : List FluxEntry}
    (unknown : fluxUpdate domain sinAddr now table = none) :
    spellingIps table domain = [] := by
  induction table with
  | nil => rfl
  | cons e rest inductionHypothesis =>
      unfold fluxUpdate at unknown
      by_cases here : e.domain = domain
      · rw [if_pos here] at unknown
        cases unknown
      · rw [if_neg here] at unknown
        cases later : fluxUpdate domain sinAddr now rest with
        | none =>
            rw [spellingIps_cons_of_ne here]
            exact inductionHypothesis later
        | some result =>
            rw [later] at unknown
            cases unknown

theorem spellingIps_of_known
    {domain sinAddr : Bytes} {now : Int} {table after : List FluxEntry}
    {e : FluxEntry}
    (known : fluxUpdate domain sinAddr now table = some (e, after)) :
    e.ips = addedIps (spellingIps table domain) ⟨domain, sinAddr, now⟩ ∧
      spellingIps after domain = e.ips ∧
        ∀ other, other ≠ domain →
          spellingIps after other = spellingIps table other := by
  induction table generalizing after with
  | nil => cases known
  | cons head rest inductionHypothesis =>
      unfold fluxUpdate at known
      by_cases here : head.domain = domain
      · rw [if_pos here] at known
        cases known
        have stillHere : (fluxAddIp head sinAddr now).domain = domain := here
        refine ⟨?_, spellingIps_cons_self stillHere rest, ?_⟩
        · rw [spellingIps_cons_self here]
          rfl
        · intro other different
          have elsewhere : head.domain ≠ other := by
            rw [here]
            exact different.symm
          have stillElsewhere :
              (fluxAddIp head sinAddr now).domain ≠ other :=
            elsewhere
          rw [spellingIps_cons_of_ne elsewhere,
            spellingIps_cons_of_ne stillElsewhere]
      · rw [if_neg here] at known
        cases later : fluxUpdate domain sinAddr now rest with
        | none =>
            rw [later] at known
            cases known
        | some result =>
            rw [later] at known
            cases known
            obtain ⟨added, found, others⟩ := inductionHypothesis later
            rw [spellingIps_cons_of_ne here, spellingIps_cons_of_ne here]
            refine ⟨added, found, ?_⟩
            intro other different
            by_cases atHead : head.domain = other
            · rw [spellingIps_cons_self atHead, spellingIps_cons_self atHead]
            · rw [spellingIps_cons_of_ne atHead,
                spellingIps_cons_of_ne atHead, others other different]

/-- A call of `flux_detect` changes the entry of its spelling only, and looks
at nothing else. -/
theorem fluxDetect_spelling
    (fluxIpMax : Int) (table : List FluxEntry) (domain sinAddr : Bytes)
    (now : Int) :
    ∃ after,
      fluxDetect fluxIpMax table domain sinAddr now =
          (decide (fluxIpMax < (spellingIps after (content domain)).length),
            after) ∧
        spellingIps after (content domain) =
            addedIps (spellingIps table (content domain))
              ⟨content domain, sinAddr, now⟩ ∧
          ∀ other, other ≠ content domain →
            spellingIps after other = spellingIps table other := by
  rw [fluxDetect]
  simp only
  cases update : fluxUpdate (content domain) sinAddr now table with
  | none =>
      have unknown := spellingIps_of_unknown update
      have opened :
          spellingIps
              (fluxAddIp ⟨content domain, []⟩ sinAddr now :: table)
              (content domain) =
            addedIps [] ⟨content domain, sinAddr, now⟩ :=
        spellingIps_cons_self rfl table
      refine
        ⟨fluxAddIp ⟨content domain, []⟩ sinAddr now :: table, ?_, ?_, ?_⟩
      · rw [opened]
        rfl
      · rw [opened, unknown]
      · intro other different
        exact spellingIps_cons_of_ne (fun same => different same.symm) table
  | some result =>
      obtain ⟨e, after⟩ := result
      obtain ⟨added, found, others⟩ := spellingIps_of_known update
      refine ⟨after, ?_, found.trans added, others⟩
      rw [found]

/-- A report is looked at with the entry of its spelling, and the ones behind
it with the entries that it leaves. -/
theorem floods_cons_iff
    {fluxIpMax : Int} {table after : List FluxEntry} {report : FluxReport}
    (here :
      spellingIps after report.domain =
        addedIps (spellingIps table report.domain) report)
    (others :
      ∀ other, other ≠ report.domain →
        spellingIps after other = spellingIps table other)
    (rest : List FluxReport) :
    Floods fluxIpMax table (report :: rest) ↔
      fluxIpMax < (spellingIps after report.domain).length ∨
        Floods fluxIpMax after rest := by
  have atHere :
      overfull fluxIpMax (spellingIps table report.domain)
            (reportsFor report.domain (report :: rest)) = true ↔
        fluxIpMax < (spellingIps after report.domain).length ∨
          overfull fluxIpMax (spellingIps after report.domain)
            (reportsFor report.domain rest) = true := by
    rw [reportsFor_cons_self rfl, overfull, Bool.or_eq_true, decide_eq_true_eq,
      here]
  have elsewhere (other : Bytes) (different : other ≠ report.domain) :
      overfull fluxIpMax (spellingIps table other)
          (reportsFor other (report :: rest)) =
        overfull fluxIpMax (spellingIps after other)
          (reportsFor other rest) := by
    rw [reportsFor_cons_of_ne (Ne.symm different), others other different]
  constructor
  · intro given
    obtain ⟨domain, flooded⟩ := given
    by_cases same : domain = report.domain
    · subst same
      rcases atHere.mp flooded with exceeds | later
      · exact Or.inl exceeds
      · exact Or.inr ⟨_, later⟩
    · rw [elsewhere domain same] at flooded
      exact Or.inr ⟨domain, flooded⟩
  · intro given
    rcases given with exceeds | ⟨domain, flooded⟩
    · exact ⟨report.domain, atHere.mpr (Or.inl exceeds)⟩
    · by_cases same : domain = report.domain
      · subst same
        exact ⟨_, atHere.mpr (Or.inr flooded)⟩
      · refine ⟨domain, ?_⟩
        rw [elsewhere domain same]
        exact flooded

/-- The answers of a reply are detected exactly when they flood the entry of
one of the spellings that own them. -/
theorem fluxAnswers_detects_iff
    (fluxIpMax : Int) (memory : Bytes) (clock : Nat → Int) (i : Nat)
    (answers : List DnsRr) (table : List FluxEntry) :
    (fluxAnswers fluxIpMax memory clock i answers table).1 = true ↔
      Floods fluxIpMax table (fluxReportsOf memory clock i answers) := by
  induction answers generalizing i table with
  | nil =>
      apply iff_of_false
      · exact Bool.false_ne_true
      · exact not_floods_nil fluxIpMax table
  | cons rr rest inductionHypothesis =>
      rw [fluxAnswers, fluxReportsOf]
      cases address : fluxAddress memory rr with
      | none =>
          exact inductionHypothesis (i + 1) table
      | some addr =>
          obtain ⟨after, detected, here, others⟩ :=
            fluxDetect_spelling fluxIpMax table rr.name addr (clock i)
          have later := inductionHypothesis (i + 1) after
          simp only
          rw [detected, floods_cons_iff here others]
          by_cases exceeds :
              fluxIpMax < (spellingIps after (content rr.name)).length
          · rw [decide_eq_true exceeds]
            exact iff_of_true rfl (Or.inl exceeds)
          · rw [decide_eq_false exceeds]
            exact later.trans (or_iff_right exceeds).symm

/-- The check of a reply blocks it for its name, its addresses or its text. -/
theorem policyCheckPostResolve_blocks_iff
    (ctx : PolicyCtx F) {query : DnsMessage} {question : DnsQuestion}
    (asked : query.questions.head? = some question)
    (response : DnsMessage) (memory : Bytes) (clock : Nat → Int)
    (table : List FluxEntry) :
    (policyCheckPostResolve ctx query response memory clock table).map
          Prod.fst = some true ↔
      aboveThreshold ctx.scores question.qname = true ∨
        Floods ctx.fluxIpMax table
            (fluxReportsOf memory clock 0 response.answers) ∨
          tunnellingScore ctx query response memory = some true := by
  rw [← fluxAnswers_detects_iff]
  rw [policyCheckPostResolve]
  simp only [asked]
  by_cases above : aboveThreshold ctx.scores question.qname = true
  · rw [if_pos above]
    exact iff_of_true rfl (Or.inl above)
  · rw [if_neg above, or_iff_right above]
    cases detected :
        fluxAnswers ctx.fluxIpMax memory clock 0 response.answers table with
    | mk flooded after =>
        cases flooded with
        | true => exact iff_of_true rfl (Or.inl rfl)
        | false =>
            rw [or_iff_right Bool.false_ne_true]
            cases tunnellingScore ctx query response memory with
            | none => exact Iff.rfl
            | some suspected => exact Iff.rfl

/-! ## Respelled reports -/

/-- The reports with their owners spelled otherwise. -/
def respell (spelling : Bytes → Bytes) (reports : List FluxReport) :
    List FluxReport :=
  reports.map fun report => { report with domain := spelling report.domain }

theorem fluxReportsOf_respelled
    {memory memory' : Bytes} {spelling : Bytes → Bytes}
    (clock : Nat → Int) {answers answers' : List DnsRr}
    (respelled :
      List.Forall₂
        (fun rr rr' =>
          RespelledRecord memory memory' rr rr' ∧
            content rr'.name = spelling (content rr.name))
        answers answers') :
    ∀ i,
      fluxReportsOf memory' clock i answers' =
        respell spelling (fluxReportsOf memory clock i answers) := by
  induction respelled with
  | nil => exact fun i => rfl
  | @cons rr rr' rest rest' first _ inductionHypothesis =>
      intro i
      unfold fluxReportsOf
      rw [first.1.fluxAddress_eq]
      cases fluxAddress memory rr with
      | none => exact inductionHypothesis (i + 1)
      | some addr =>
          simp only
          rw [inductionHypothesis (i + 1), first.2]
          exact rfl

theorem overfull_respell
    (fluxIpMax : Int) (spelling : Bytes → Bytes) (ips : List FluxIp)
    (reports : List FluxReport) :
    overfull fluxIpMax ips (respell spelling reports) =
      overfull fluxIpMax ips reports := by
  induction reports generalizing ips with
  | nil => rfl
  | cons report rest inductionHypothesis =>
      have later := inductionHypothesis (addedIps ips report)
      rw [respell] at later ⊢
      rw [List.map_cons, overfull, overfull, ← later]
      rfl

theorem exists_report_of_overfull
    {fluxIpMax : Int} {ips : List FluxIp} {domain : Bytes}
    {reports : List FluxReport}
    (exceeds : overfull fluxIpMax ips (reportsFor domain reports) = true) :
    ∃ report, report ∈ reports ∧ report.domain = domain := by
  cases own : reportsFor domain reports with
  | nil =>
      rw [own] at exceeds
      cases exceeds
  | cons report rest =>
      have member : report ∈ reportsFor domain reports := by
        rw [own]
        exact List.mem_cons_self
      rw [reportsFor, List.mem_filter, decide_eq_true_eq] at member
      exact ⟨report, member⟩

theorem reportsFor_respell
    {spelling : Bytes → Bytes} {domain : Bytes} {reports : List FluxReport}
    (oneToOne :
      ∀ report, report ∈ reports →
        spelling report.domain = spelling domain → report.domain = domain) :
    reportsFor (spelling domain) (respell spelling reports) =
      respell spelling (reportsFor domain reports) := by
  rw [reportsFor, respell]
  rw [List.filter_map]
  refine congrArg _ (List.filter_congr fun report member => ?_)
  refine decide_eq_decide.mpr ⟨oneToOne report member, ?_⟩
  intro same
  exact congrArg spelling same

/-- Reports that are respelled one to one are detected alike when the entries
of the two spellings hold the same addresses. -/
theorem floods_respell_iff
    {fluxIpMax : Int} {table : List FluxEntry} {spelling : Bytes → Bytes}
    {reports : List FluxReport}
    (oneToOne :
      ∀ left right, left ∈ reports → right ∈ reports →
        spelling left.domain = spelling right.domain →
          left.domain = right.domain)
    (sameEntries :
      ∀ report, report ∈ reports →
        spellingIps table (spelling report.domain) =
          spellingIps table report.domain) :
    Floods fluxIpMax table (respell spelling reports) ↔
      Floods fluxIpMax table reports := by
  have alike (report : FluxReport) (member : report ∈ reports) :
      overfull fluxIpMax (spellingIps table (spelling report.domain))
          (reportsFor (spelling report.domain) (respell spelling reports)) =
        overfull fluxIpMax (spellingIps table report.domain)
          (reportsFor report.domain reports) := by
    rw [reportsFor_respell fun other isOther =>
        oneToOne other report isOther member,
      overfull_respell, sameEntries report member]
  constructor
  · intro given
    obtain ⟨domain, flooded⟩ := given
    obtain ⟨respelled, member, rfl⟩ := exists_report_of_overfull flooded
    obtain ⟨report, isReport, rfl⟩ := List.mem_map.mp member
    refine ⟨report.domain, ?_⟩
    rw [← alike report isReport]
    exact flooded
  · intro given
    obtain ⟨domain, flooded⟩ := given
    obtain ⟨report, member, rfl⟩ := exists_report_of_overfull flooded
    refine ⟨spelling report.domain, ?_⟩
    rw [alike report member]
    exact flooded

end DnsFirewall
