import DnsFirewall.Processor.Transports
import DnsFirewall.Processor.Upstream

/-!
# Quarantine over runs

The quarantine list changes only where a block branch reports a client, so
after any run it says of each client what the blocks of its own queries say.
-/

namespace DnsFirewall

open CString Runs

variable {F : Type}

/-- The reading of the clock in a call. -/
def QueryCall.time (call : QueryCall) : Int :=
  call.env.time 0

/-- The clock shows one time throughout the call. -/
def QueryCall.Clocked (call : QueryCall) : Prop :=
  ∀ tick, call.env.time tick = call.time

def QueryCall.isFrom (ip : UInt32) (call : QueryCall) : Bool :=
  call.client.any fun client => client.sAddr = ip

/-- A place where `process_dns_query` blocks a query. -/
def Site.isBlock : Site → Bool
  | .blacklist => true
  | .dga => true
  | .dynamicRule => true
  | _ => false

def Effect.isAt (place : Site → Bool) : Effect → Bool
  | .respond site _ => place site
  | _ => false

/-- The query is blocked by the blacklist, as generated or by the dynamic
rule. -/
def CallResult.blocked (result : CallResult) : Bool :=
  result.effects.any (Effect.isAt Site.isBlock)

/-- The query is answered by the quarantine sinkhole. -/
def CallResult.sinkholed (result : CallResult) : Bool :=
  result.effects.any (Effect.isAt fun site => site = .quarantine)

/-- The times at which queries of the client are blocked in the run, behind
those before the run, the latest first. -/
def ownBlocks (cfg : Config F) (ip : UInt32) :
    Firewall → List QueryCall → List Int → List Int
  | _, [], earlier => earlier
  | fw, call :: later, earlier =>
      ownBlocks cfg ip (queryCall cfg fw call) later
        (if call.isFrom ip && (call.result cfg fw).blocked then
          call.time :: earlier
        else
          earlier)

/-! ## One call -/

@[simp]
theorem isAt_respond (place : Site → Bool) (site : Site) (data : Bytes) :
    Effect.isAt place (.respond site data) = place site :=
  rfl

theorem blocked_blockedCall
    (env : Env) (tick : Nat) {site : Site} (isBlock : site.isBlock = true)
    (fw : Firewall) (client : Option SockAddrIn) (query : DnsMessage)
    (question : DnsQuestion) (resolution : Option (Outcome × Bool))
    (log : List Event) :
    (blockedCall env tick site fw client query question resolution
      log).blocked = true := by
  rw [blockedCall, CallResult.blocked]
  rw [List.any_cons, isAt_respond, isBlock, Bool.true_or]

theorem effects_sendAnswer
    (env : Env) (tick : Nat) (fw : Firewall) (id : UInt16)
    (question : DnsQuestion) (outcome : Outcome) (log : List Event) :
    (sendAnswer env tick fw id question outcome log).effects = [] ∨
      ∃ site data,
        (sendAnswer env tick fw id question outcome log).effects =
            [.respond site data] ∧
          site.isBlock = false ∧ site ≠ .quarantine := by
  have delivered :
      ∃ site data,
        [(deliver fw.cache question id (env.time tick)).1] =
            [Effect.respond site data] ∧
          site.isBlock = false ∧ site ≠ .quarantine := by
    rcases deliver_effect fw.cache question id (env.time tick) with
      miss | ⟨raw, hit⟩
    · rw [miss]
      exact ⟨_, _, rfl, rfl, by decide⟩
    · rw [hit]
      exact ⟨_, _, rfl, rfl, by decide⟩
  cases outcome with
  | answer a => exact Or.inr delivered
  | nxDomain a => exact Or.inr delivered
  | failed => exact Or.inr ⟨_, _, rfl, rfl, by decide⟩
  | tooDeep => exact Or.inr ⟨_, _, rfl, rfl, by decide⟩
  | hung => exact Or.inl rfl

theorem blocked_sendAnswer
    (env : Env) (tick : Nat) (fw : Firewall) (id : UInt16)
    (question : DnsQuestion) (outcome : Outcome) (log : List Event) :
    (sendAnswer env tick fw id question outcome log).blocked = false := by
  rw [CallResult.blocked]
  rcases effects_sendAnswer env tick fw id question outcome log with
    none | ⟨site, data, sent, notBlock, -⟩
  · rw [none]
    rfl
  · rw [sent, List.any_cons, isAt_respond, notBlock]
    rfl

theorem sinkholed_sendAnswer
    (env : Env) (tick : Nat) (fw : Firewall) (id : UInt16)
    (question : DnsQuestion) (outcome : Outcome) (log : List Event) :
    (sendAnswer env tick fw id question outcome log).sinkholed = false := by
  rw [CallResult.sinkholed]
  rcases effects_sendAnswer env tick fw id question outcome log with
    none | ⟨site, data, sent, -, other⟩
  · rw [none]
    rfl
  · rw [sent, List.any_cons, isAt_respond, decide_eq_false other]
    rfl

theorem sinkholed_blockedCall
    (env : Env) (tick : Nat) {site : Site} (isBlock : site.isBlock = true)
    (fw : Firewall) (client : Option SockAddrIn) (query : DnsMessage)
    (question : DnsQuestion) (resolution : Option (Outcome × Bool))
    (log : List Event) :
    (blockedCall env tick site fw client query question resolution
      log).sinkholed = false := by
  have other : site ≠ .quarantine := by
    intro same
    subst same
    cases isBlock
  rw [blockedCall, CallResult.sinkholed]
  rw [List.any_cons, isAt_respond, decide_eq_false other, Bool.false_or,
    List.any_eq_false]
  intro effect member isSinkhole
  rcases mem_blockReports_iff.mp member with ⟨_, _, rfl⟩ | ⟨_, rfl⟩
  · cases isSinkhole
  · cases isSinkhole

theorem defense_sendAnswer
    (env : Env) (tick : Nat) (fw : Firewall) (id : UInt16)
    (question : DnsQuestion) (outcome : Outcome) (log : List Event) :
    (sendAnswer env tick fw id question outcome log).state.defense =
      fw.defense := by
  cases outcome with
  | answer a => rfl
  | nxDomain a => rfl
  | failed => rfl
  | tooDeep => rfl
  | hung => rfl

/-- The defence after a call: a block is reported against a client that is
checked. -/
def defenseAfter (ctx : ActiveDefense) (call : QueryCall)
    (blocked : Bool) : ActiveDefense :=
  match checkedClient call.client with
  | none => ctx
  | some ip => if blocked = true then adReportBlock ctx ip call.time else ctx

theorem defense_blockedCall
    {call : QueryCall} (clocked : call.Clocked) (tick : Nat) {site : Site}
    (isBlock : site.isBlock = true) (fw : Firewall) (query : DnsMessage)
    (question : DnsQuestion) (resolution : Option (Outcome × Bool))
    (log : List Event) :
    let result :=
      blockedCall call.env tick site fw call.client query question
        resolution log
    result.state.defense =
      defenseAfter fw.defense call result.blocked := by
  intro result
  have blocked : result.blocked = true :=
    blocked_blockedCall call.env tick isBlock fw call.client query
      question resolution log
  rw [blocked, defenseAfter]
  show (reportBlock call.env tick fw call.client question.qname).defense =
    _
  rw [reportBlock]
  simp only
  rw [clocked tick]
  rfl

theorem defenseAfter_free
    (ctx : ActiveDefense) (call : QueryCall) :
    defenseAfter ctx call false = ctx := by
  rw [defenseAfter]
  split
  · rfl
  · rfl

/-- A call changes the defence by its report alone. -/
theorem defense_result
    {call : QueryCall} (clocked : call.Clocked) (cfg : Config F)
    (fw : Firewall) :
    (queryCall cfg fw call).defense =
      defenseAfter fw.defense call (call.result cfg fw).blocked := by
  have branch :=
    branch_processDnsQuery call.env cfg fw call.inbuf call.client
  have admitted := admittedState_defense call.env fw call.client
  show (call.result cfg fw).state.defense = _
  rw [QueryCall.result]
  generalize
    processDnsQuery call.env cfg fw call.inbuf call.client = result
    at branch
  cases branch with
  | unparsed _ => exact (defenseAfter_free _ call).symm
  | limited _ _ => exact admitted.trans (defenseAfter_free _ call).symm
  | unasked _ _ _ => exact admitted.trans (defenseAfter_free _ call).symm
  | banned _ _ _ _ => exact admitted.trans (defenseAfter_free _ call).symm
  | listed _ _ _ _ _ =>
      rw [← admitted]
      exact defense_blockedCall clocked 2 rfl _ _ _ none []
  | generated _ _ _ _ _ _ =>
      rw [← admitted]
      exact defense_blockedCall clocked 2 rfl _ _ _ none []
  | ruled _ _ =>
      rw [← admitted]
      exact defense_blockedCall clocked _ rfl _ _ _ _ _
  | allowed _ _ =>
      rw [blocked_sendAnswer, defenseAfter_free, defense_sendAnswer]
      exact admitted

/-- An admitted query is answered by the quarantine sinkhole exactly when its
client is on the list. -/
theorem sinkholed_result
    {call : QueryCall} {client : SockAddrIn}
    (isClient : call.client = some client)
    (foreign : client.sAddr ≠ loopbackAddr) (clocked : call.Clocked)
    {message : DnsMessage} {question : DnsQuestion}
    {more : List DnsQuestion}
    (parsed : dnsParseMessage call.inbuf = .ok message)
    (asked : message.questions = question :: more) (cfg : Config F)
    {fw : Firewall} (admitted : ¬ RateLimited call.env fw call.client) :
    (call.result cfg fw).sinkholed =
      adIsQuarantined fw.defense client.sAddr call.time := by
  have branch :=
    branch_processDnsQuery call.env cfg fw call.inbuf call.client
  have standing := isQuarantined_of_ne foreign call.env fw
  rw [clocked 1, ← isClient] at standing
  rw [← standing]
  rw [QueryCall.result]
  generalize
    processDnsQuery call.env cfg fw call.inbuf call.client = result
    at branch
  cases branch with
  | unparsed failed =>
      rw [parsed] at failed
      cases failed
  | limited _ dropped => exact absurd dropped admitted
  | unasked alsoParsed _ empty =>
      rw [parsed] at alsoParsed
      cases alsoParsed
      rw [asked] at empty
      cases empty
  | banned _ _ _ quarantined =>
      rw [quarantined]
      rfl
  | listed _ _ _ free _ =>
      rw [Bool.eq_false_iff.mpr free]
      exact sinkholed_blockedCall _ _ rfl _ _ _ _ _ _
  | generated _ _ _ free _ _ =>
      rw [Bool.eq_false_iff.mpr free]
      exact sinkholed_blockedCall _ _ rfl _ _ _ _ _ _
  | ruled passes _ =>
      rw [Bool.eq_false_iff.mpr passes.free]
      exact sinkholed_blockedCall _ _ rfl _ _ _ _ _ _
  | allowed passes _ =>
      rw [Bool.eq_false_iff.mpr passes.free]
      exact sinkholed_sendAnswer _ _ _ _ _ _ _

theorem not_blocked_of_sinkholed
    {call : QueryCall} {cfg : Config F} {fw : Firewall}
    (sinkholed : (call.result cfg fw).sinkholed = true) :
    (call.result cfg fw).blocked = false := by
  have branch :=
    branch_processDnsQuery call.env cfg fw call.inbuf call.client
  rw [QueryCall.result] at sinkholed ⊢
  generalize
    processDnsQuery call.env cfg fw call.inbuf call.client = result
    at branch sinkholed
  cases branch with
  | unparsed _ => rfl
  | limited _ _ => rfl
  | unasked _ _ _ => rfl
  | banned _ _ _ _ => rfl
  | listed _ _ _ _ _ =>
      rw [sinkholed_blockedCall _ _ rfl] at sinkholed
      cases sinkholed
  | generated _ _ _ _ _ _ =>
      rw [sinkholed_blockedCall _ _ rfl] at sinkholed
      cases sinkholed
  | ruled _ _ =>
      rw [sinkholed_blockedCall _ _ rfl] at sinkholed
      cases sinkholed
  | allowed _ _ => exact blocked_sendAnswer _ _ _ _ _ _ _

/-! ## Runs -/

theorem isFrom_iff {ip : UInt32} {call : QueryCall} :
    call.isFrom ip = true ↔
      ∃ client, call.client = some client ∧ client.sAddr = ip := by
  rw [QueryCall.isFrom]
  rw [Option.any_eq_true]
  simp only [decide_eq_true_eq]

theorem checkedClient_eq_some_iff
    {ip : UInt32} (foreign : ip ≠ loopbackAddr) {call : QueryCall} :
    checkedClient call.client = some ip ↔ call.isFrom ip = true := by
  rw [isFrom_iff]
  unfold checkedClient
  cases call.client with
  | none =>
      constructor
      · intro same
        cases same
      · intro given
        obtain ⟨client, isClient, -⟩ := given
        cases isClient
  | some client =>
      simp only
      constructor
      · intro same
        split at same
        · cases same
        · exact ⟨client, rfl, Option.some.inj same⟩
      · intro given
        obtain ⟨client, isClient, rfl⟩ := given
        cases isClient
        rw [if_neg foreign]

/-- The standing of a client follows its own blocks, whoever calls. -/
theorem standing_queryCall
    {ip : UInt32} (foreign : ip ≠ loopbackAddr) {call : QueryCall}
    (clocked : call.Clocked) (cfg : Config F) {fw : Firewall}
    {blocks : List Int} (standing : Standing fw.defense ip blocks) :
    Standing (queryCall cfg fw call).defense ip
      (if call.isFrom ip && (call.result cfg fw).blocked then
        call.time :: blocks
      else
        blocks) := by
  rw [defense_result clocked, defenseAfter]
  by_cases own : call.isFrom ip = true
  · have isClient := (checkedClient_eq_some_iff foreign).mpr own
    rw [isClient, own, Bool.true_and]
    simp only
    split
    · exact standing_adReportBlock standing call.time
    · exact standing
  · have notClient : checkedClient call.client ≠ some ip :=
      fun isClient => own ((checkedClient_eq_some_iff foreign).mp isClient)
    rw [Bool.eq_false_iff.mpr own, Bool.false_and,
      if_neg Bool.false_ne_true]
    split
    · exact standing
    · rename_i other isOther
      split
      · refine standing_adReportBlock_other standing ?_ call.time
        intro same
        subst same
        exact notClient isOther
      · exact standing

theorem standing_run
    {ip : UInt32} (foreign : ip ≠ loopbackAddr) (cfg : Config F)
    {calls : List QueryCall} {fw : Firewall} {blocks : List Int}
    (clocked : ∀ call, call ∈ calls → call.Clocked)
    (standing : Standing fw.defense ip blocks) :
    Standing (run (queryCall cfg) fw calls).defense ip
      (ownBlocks cfg ip fw calls blocks) := by
  induction calls generalizing fw blocks with
  | nil => exact standing
  | cons call later inductionHypothesis =>
      have here := clocked call List.mem_cons_self
      have next := standing_queryCall foreign here cfg standing
      rw [run_cons, ownBlocks]
      apply inductionHypothesis _ next
      intro other member
      exact clocked other (List.mem_cons_of_mem _ member)

theorem sinkholed_iff_banned
    (cfg : Config F) (start : Int) (earlier : List QueryCall)
    (query : QueryCall) (client : SockAddrIn) (message : DnsMessage)
    (isClient : query.client = some client)
    (foreign : client.sAddr ≠ loopbackAddr)
    (parsed : dnsParseMessage query.inbuf = .ok message)
    (asked : message.questions ≠ [])
    (clocked : ∀ call, call ∈ earlier ++ [query] → call.Clocked)
    (admitted :
      ¬ RateLimited query.env
          (run (queryCall cfg) (firewallStart start) earlier)
          query.client) :
    let fw := run (queryCall cfg) (firewallStart start) earlier
    let blocks :=
      ownBlocks cfg client.sAddr (firewallStart start) earlier []
    ((query.result cfg fw).sinkholed = true ↔
        ∃ last others,
          last :: others <:+ blocks ∧ query.time < last + 600 ∧
            5 ≤ (last :: others).countP fun time => last - time < 60) ∧
      ((query.result cfg fw).sinkholed = true →
        (query.result cfg fw).blocked = false) := by
  intro fw blocks
  have queryClocked : query.Clocked := clocked query (by simp)
  have standing : Standing fw.defense client.sAddr blocks := by
    apply standing_run foreign cfg _ (standing_adInit client.sAddr)
    intro call member
    exact clocked call (List.mem_append_left _ member)
  obtain ⟨question, more, isAsked⟩ := List.exists_cons_of_ne_nil asked
  have sinkholed :=
    sinkholed_result isClient foreign queryClocked parsed isAsked cfg
      admitted
  refine ⟨?_, not_blocked_of_sinkholed⟩
  rw [sinkholed]
  exact standing.bans query.time

def listedCall : QueryCall := ⟨envOffline, queryA, some visitor⟩

/-- The fifth blocked query brings the sixth into quarantine. -/
theorem sinkholed_iff_banned_sixth :
    (listedCall.result configListingA
      (run (queryCall configListingA) (firewallStart 0)
        (List.replicate 5 listedCall))).sinkholed = true := by
  have parsed :
      dnsParseMessage listedCall.inbuf =
        .ok
          ⟨⟨4660, 256, 1, 0, 0, 0⟩, [⟨[97, 46], 1, 1⟩], [], [], []⟩ := by
    decide +kernel
  have clocked :
      ∀ call, call ∈ List.replicate 5 listedCall ++ [listedCall] →
        call.Clocked := by
    intro call member
    have same : call = listedCall := by
      rcases List.mem_append.mp member with first | last
      · exact List.eq_of_mem_replicate first
      · exact List.mem_singleton.mp last
    rw [same]
    exact fun _ => rfl
  have admitted :
      (rateLimit listedCall.env
        (run (queryCall configListingA) (firewallStart 0)
          (List.replicate 5 listedCall))
        listedCall.client).1 = false := by
    decide +kernel
  have blocks :
      ownBlocks configListingA visitor.sAddr (firewallStart 0)
        (List.replicate 5 listedCall) [] = [0, 0, 0, 0, 0] := by
    decide +kernel
  refine
    ((sinkholed_iff_banned configListingA 0 (List.replicate 5 listedCall)
      listedCall visitor _ rfl (by decide) parsed (by decide) clocked
      (Bool.eq_false_iff.mp admitted)).1).mpr ?_
  rw [blocks]
  exact ⟨0, [0, 0, 0, 0], List.suffix_refl _, by decide, by decide⟩

end DnsFirewall
