import DnsFirewall.Processor.Delivery
import DnsFirewall.Processor.Workers
import DnsFirewall.Resolver.Sharing
import Mathlib.Data.List.Infix

/-!
# What interleaved workers deliver

Behind its policy check a worker looks its question up again, and patches and
sends what is found through the cache's own pointer.  So what it delivers is
what it has checked as long as the cache has nothing else for the question at
the check, nobody stores anything else for it before the second lookup, and
nobody frees or patches the data before the callback is called.
-/

namespace DnsFirewall

open CString BigEndian Cursor Runs

variable {F W : Type}

/-- The header of the packet counts an answer. -/
def hasAnswers (packet : Bytes) : Bool :=
  word16 (packet.getD 6 0) (packet.getD 7 0) ≠ 0

/-- The policy check of a call has let pass the answer that was parsed from
the packet. -/
def PassedCheck (cfg : Config F) (query : DnsMessage) (a : Answer) : Prop :=
  dnsParseMessage a.raw = .ok a.message ∧
    ∃ memory clock table after,
      policyCheckPostResolve cfg.policy query a.message memory clock table =
        some (false, after)

/-- A delivered packet with answers has passed the policy check of its call,
and it has the ID of the query of the call. -/
def Delivery.Checked (cfg : Config F) (d : Delivery W) : Prop :=
  hasAnswers d.packet = true →
    (∃ a, d.checked = some a ∧ PassedCheck cfg d.call.query a ∧
        SamePacket d.packet a.raw) ∧
      d.packet.take 2 = bytes16 d.call.query.header.id

/-! ## The condition -/

/-- The packet has no answers, or it is the one that was checked. -/
def Cleared (checked : Option Answer) (data : Bytes) : Prop :=
  hasAnswers data = true → ∃ a, checked = some a ∧ SamePacket data a.raw

/-- The packet may be found by the second lookup behind the outcome: there is
none, or the packet has no answers, or it is the one that is checked. -/
def Outcome.Fits (outcome : Outcome) (data : Bytes) : Prop :=
  match outcome with
  | .answer a => hasAnswers data = true → SamePacket data a.raw
  | .nxDomain _ => ¬ hasAnswers data = true
  | _ => True

/-- The pointer of a worker that is about to patch or send. -/
def Phase.handle : Phase → Option Handle
  | .patching _ _ handle => some handle
  | .sending _ _ handle => some handle
  | _ => none

namespace System

/-- A worker is about to patch or send the data of the entry in the slot. -/
def Held (s : System W) (slot : Fin cacheDefaultSize) : Prop :=
  ∃ worker handle, (s.phase worker).handle = some handle ∧
    handle.slot = slot

/-- A lookup of the question frees nothing that is held. -/
def LookupHarmless (env : Env) (s : System W) (question : DnsQuestion) :
    Prop :=
  ∀ slot, s.storage.LookupFrees env question slot → ¬ s.Held slot

/-- A store for the question frees nothing that is held, and no worker between
its check and its second lookup gets another packet for its question by it. -/
def StoreHarmless (s : System W) (question : DnsQuestion) (raw : Bytes)
    (ttl : UInt32) : Prop :=
  ttl ≠ 0 →
    (∀ slot, s.storage.PointsTo question slot → ¬ s.Held slot) ∧
      ∀ worker call checked,
        s.phase worker = .readingBack call checked →
          questionKey call.question = questionKey question →
            Cleared checked raw

/-- Every entry for the question has a packet that the check is about. -/
def CheckCovers (s : System W) (question : DnsQuestion) (outcome : Outcome) :
    Prop :=
  ∀ slot entry, s.storage.world.cache.entries slot = some entry →
    entry.key = questionKey question → outcome.Fits entry.data

/-- Nobody else is about to send the data with another ID. -/
def PatchHarmless (s : System W) (id : UInt16) (handle : Handle) : Prop :=
  ∀ worker call checked other, s.phase worker = .sending call checked other →
    other.slot = handle.slot → call.query.header.id = id

/-- The next step of the action leaves what other workers rely on. -/
def Undisturbed (env : Env) (s : System W) : Action W → Prop
  | .arrive _ _ _ => True
  | .advance worker =>
      match s.phase worker with
      | .resolving _ (.lookup question _) => s.LookupHarmless env question
      | .resolving _ (.store question raw _ ttl _) =>
          s.StoreHarmless question raw ttl
      | .checking call outcome _ => s.CheckCovers call.question outcome
      | .readingBack call _ => s.LookupHarmless env call.question
      | .patching call _ handle =>
          s.PatchHarmless call.query.header.id handle
      | _ => True

end System

/-! ## Packets -/

theorem two_le_of_hasAnswers
    {packet : Bytes} (answers : hasAnswers packet = true) :
    2 ≤ packet.length := by
  by_contra short
  have high : packet.getD 6 0 = 0 :=
    List.getD_eq_default _ _ (by omega)
  have low : packet.getD 7 0 = 0 :=
    List.getD_eq_default _ _ (by omega)
  rw [hasAnswers, high, low] at answers
  exact absurd answers (by decide)

theorem patchId_getD
    (id : UInt16) (data : Bytes) (index : Nat) :
    (patchId id data).getD (index + 2) 0 = data.getD (index + 2) 0 := by
  rw [patchId]
  split
  · have behind :
        (bytes16 id ++ data.drop 2)[index + 2]? = (data.drop 2)[index]? :=
      rfl
    rw [List.getD_eq_getElem?_getD, behind, List.getElem?_drop,
      Nat.add_comm, List.getD_eq_getElem?_getD]
  · rfl

theorem hasAnswers_patchId (id : UInt16) (data : Bytes) :
    hasAnswers (patchId id data) = hasAnswers data := by
  rw [hasAnswers, hasAnswers, patchId_getD id data 4, patchId_getD id data 5]

theorem take_patchId
    {data : Bytes} (long : 2 ≤ data.length) (id : UInt16) :
    (patchId id data).take 2 = bytes16 id := by
  rw [patchId, if_pos long]
  rfl

theorem Cleared.patch
    {checked : Option Answer} {data : Bytes} (cleared : Cleared checked data)
    (id : UInt16) :
    Cleared checked (patchId id data) := by
  intro answers
  rw [hasAnswers_patchId] at answers
  obtain ⟨a, isChecked, same⟩ := cleared answers
  exact ⟨a, isChecked, samePacket_patchId same id⟩

theorem byteAt_getD
    {pkt : Bytes} {index : Nat} {byte : UInt8}
    (read : byteAt pkt index = .ok byte) :
    pkt.getD index 0 = byte := by
  rw [List.getD_eq_getElem?_getD]
  unfold byteAt at read
  split at read
  · rename_i there
    cases read
    rw [there, Option.getD_some]
  · cases read

theorem readU16_getD
    {pkt : Bytes} {index : Nat} {value : UInt16}
    (read : readU16 pkt index = .ok value) :
    word16 (pkt.getD index 0) (pkt.getD (index + 1) 0) = value := by
  unfold readU16 at read
  simp only [bind_eq_ok, pure, Except.pure] at read
  obtain ⟨high, readsHigh, low, readsLow, same⟩ := read
  cases same
  rw [byteAt_getD readsHigh, byteAt_getD readsLow]

/-- The count in the header is that of the answers read. -/
theorem hasAnswers_iff
    {raw : Bytes} {msg : DnsMessage} (parsed : dnsParseMessage raw = .ok msg) :
    hasAnswers raw = true ↔ msg.answers ≠ [] := by
  obtain ⟨long, readsHeader, answersAt, authoritiesAt, _, _, _, readsAnswers,
    -⟩ := dnsParseMessage_eq_ok parsed
  have count := (recordTiling_of_readMany readsAnswers).1
  have field :
      word16 (raw.getD 6 0) (raw.getD 7 0) = msg.header.ancount := by
    unfold readHeader at readsHeader
    simp only [bind_eq_ok, pure, Except.pure] at readsHeader
    obtain ⟨id, _, flags, _, qdcount, _, ancount, readsCount, nscount, _,
      arcount, _, same⟩ := readsHeader
    rw [Except.ok.injEq] at same
    rw [← same]
    exact readU16_getD readsCount
  rw [hasAnswers, field, decide_eq_true_iff, Ne, Ne, ← List.length_eq_zero_iff,
    count, ← UInt16.toNat_inj]
  rfl

theorem SamePacket.hasAnswers
    {data raw : Bytes} (same : SamePacket data raw) :
    hasAnswers data = hasAnswers raw := by
  have field :
      ∀ index, data.getD (2 + index) 0 = raw.getD (2 + index) 0 := by
    intro index
    rw [List.getD_eq_getElem?_getD, List.getD_eq_getElem?_getD,
      ← List.getElem?_drop, ← List.getElem?_drop, same.2]
  unfold DnsFirewall.hasAnswers
  rw [field 4, field 5]

/-! ## The invariant -/

/-- What a worker relies on before its next step. -/
def Phase.Ready (cfg : Config F) (s : Storage) : Phase → Prop
  | .resolving _ rest => rest.Sound
  | .checking _ outcome _ => outcome.Parsed
  | .readingBack call checked =>
      (∀ a, checked = some a → PassedCheck cfg call.query a) ∧
        ∀ slot entry, s.world.cache.entries slot = some entry →
          entry.key = questionKey call.question → Cleared checked entry.data
  | .patching call checked handle =>
      (∀ a, checked = some a → PassedCheck cfg call.query a) ∧
        ∃ entry, s.target handle = some entry ∧ Cleared checked entry.data
  | .sending call checked handle =>
      (∀ a, checked = some a → PassedCheck cfg call.query a) ∧
        ∃ entry, s.target handle = some entry ∧ Cleared checked entry.data ∧
          (hasAnswers entry.data = true →
            entry.data.take 2 = bytes16 call.query.header.id)
  | _ => True

/-- No step but a patch changes the data of a live pointer. -/
theorem Phase.Ready.mono
    {cfg : Config F} {s after : Storage} {phase : Phase}
    (ready : phase.Ready cfg s)
    (entries : ∀ call checked, phase = .readingBack call checked →
      ∀ slot entry, after.world.cache.entries slot = some entry →
        s.world.cache.entries slot = some entry ∨
          (entry.key = questionKey call.question →
            Cleared checked entry.data))
    (targets : ∀ handle entry, phase.handle = some handle →
      s.target handle = some entry → after.target handle = some entry) :
    phase.Ready cfg after := by
  cases phase with
  | readingBack call checked =>
      refine ⟨ready.1, ?_⟩
      intro slot entry occupied isKey
      rcases entries call checked rfl slot entry occupied with old | cleared
      · exact ready.2 slot entry old isKey
      · exact cleared isKey
  | patching call checked handle =>
      obtain ⟨passed, entry, live, cleared⟩ := ready
      exact ⟨passed, entry, targets handle entry rfl live, cleared⟩
  | sending call checked handle =>
      obtain ⟨passed, entry, live, cleared, hasId⟩ := ready
      exact ⟨passed, entry, targets handle entry rfl live, cleared, hasId⟩
  | _ => exact ready

theorem Phase.Ready.of_sameCache
    {cfg : Config F} {s after : Storage} {phase : Phase}
    (ready : phase.Ready cfg s) (cache : after.world.cache = s.world.cache)
    (freed : after.freed = s.freed) :
    phase.Ready cfg after := by
  apply ready.mono
  · intro call checked _ slot entry occupied
    rw [cache] at occupied
    exact Or.inl occupied
  · intro handle entry _ live
    rw [Storage.target_eq_some_iff] at live ⊢
    rw [cache, freed]
    exact live

theorem Phase.Ready.lookup
    {cfg : Config F} {env : Env} {s : Storage} {phase : Phase}
    {question : DnsQuestion} (ready : phase.Ready cfg s)
    (kept : ∀ handle, phase.handle = some handle →
      ¬ s.LookupFrees env question handle.slot) :
    phase.Ready cfg (s.lookup env question).2 := by
  apply ready.mono
  · intro call checked _ slot entry occupied
    exact Or.inl (Storage.entries_of_lookup occupied)
  · intro handle entry isHandle live
    exact Storage.target_lookup live (kept handle isHandle)

theorem Phase.Ready.store
    {cfg : Config F} {env : Env} {s : Storage} {phase : Phase}
    {question : DnsQuestion} {raw : Bytes} {resp : DnsMessage}
    {ttl : UInt32} (ready : phase.Ready cfg s)
    (kept : ttl ≠ 0 → ∀ handle, phase.handle = some handle →
      ¬ s.PointsTo question handle.slot)
    (cleared : ttl ≠ 0 → ∀ call checked,
      phase = .readingBack call checked →
        questionKey call.question = questionKey question →
          Cleared checked raw) :
    phase.Ready cfg (s.store env question raw resp ttl).2 := by
  apply ready.mono
  · intro call checked isPhase slot entry occupied
    rcases Storage.entries_of_store occupied with
      old | ⟨lives, isKey, isRaw⟩
    · exact Or.inl old
    · refine Or.inr ?_
      intro sameKey
      rw [isRaw]
      exact cleared lives call checked isPhase (sameKey.symm.trans isKey)
  · intro handle entry isHandle live
    exact Storage.target_store live fun lives => kept lives handle isHandle

/-! ## The patch -/

theorem Storage.writeId_entries
    {heap : Heap} {id : UInt16} {handle : Handle} {s : Storage}
    {entry : CacheEntry} (live : s.target handle = some entry) :
    (s.writeId heap id handle).world.cache.entries =
      Function.update s.world.cache.entries handle.slot
        (some { entry with data := patchId id entry.data }) := by
  rw [Storage.writeId]
  simp only [live]

theorem Storage.target_writeId
    {heap : Heap} {id : UInt16} {handle : Handle} {s : Storage}
    {entry : CacheEntry} (live : s.target handle = some entry)
    {other : Handle} {old : CacheEntry} (found : s.target other = some old) :
    (other.slot = handle.slot ∧ old = entry ∧
        (s.writeId heap id handle).target other =
          some { entry with data := patchId id entry.data }) ∨
      (other.slot ≠ handle.slot ∧
        (s.writeId heap id handle).target other = some old) := by
  obtain ⟨sameFreed, occupied⟩ := Storage.target_eq_some_iff.mp found
  by_cases here : other.slot = handle.slot
  · have there := (Storage.target_eq_some_iff.mp live).2
    rw [here, there] at occupied
    refine Or.inl ⟨here, (Option.some.inj occupied).symm, ?_⟩
    rw [Storage.target_eq_some_iff, Storage.writeId_entries live, here,
      Function.update_self]
    exact ⟨by rw [← here]; exact sameFreed, rfl⟩
  · refine Or.inr ⟨here, ?_⟩
    rw [Storage.target_eq_some_iff, Storage.writeId_entries live,
      Function.update_of_ne here]
    exact ⟨sameFreed, occupied⟩

theorem Phase.Ready.writeId
    {cfg : Config F} {heap : Heap} {id : UInt16} {handle : Handle}
    {s : Storage} {entry : CacheEntry} {phase : Phase}
    (ready : phase.Ready cfg s) (live : s.target handle = some entry)
    (agrees : ∀ call checked other, phase = .sending call checked other →
      other.slot = handle.slot → call.query.header.id = id) :
    phase.Ready cfg (s.writeId heap id handle) := by
  cases phase with
  | readingBack call checked =>
      refine ⟨ready.1, ?_⟩
      intro slot found occupied isKey
      rw [Storage.writeId_entries live] at occupied
      by_cases here : slot = handle.slot
      · rw [here, Function.update_self] at occupied
        cases occupied
        have there := (Storage.target_eq_some_iff.mp live).2
        exact (ready.2 handle.slot entry there isKey).patch id
      · rw [Function.update_of_ne here] at occupied
        exact ready.2 slot found occupied isKey
  | patching call checked other =>
      obtain ⟨passed, old, found, cleared⟩ := ready
      refine ⟨passed, ?_⟩
      rcases @Storage.target_writeId heap id handle s entry live other old
          found with ⟨_, isEntry, result⟩ | ⟨_, result⟩
      · rw [isEntry] at cleared
        exact ⟨_, result, cleared.patch id⟩
      · exact ⟨old, result, cleared⟩
  | sending call checked other =>
      obtain ⟨passed, old, found, cleared, hasId⟩ := ready
      refine ⟨passed, ?_⟩
      rcases @Storage.target_writeId heap id handle s entry live other old
          found with ⟨here, isEntry, result⟩ | ⟨_, result⟩
      · rw [isEntry] at cleared
        refine ⟨_, result, cleared.patch id, ?_⟩
        intro answers
        rw [agrees call checked other rfl here]
        rw [hasAnswers_patchId] at answers
        exact take_patchId (two_le_of_hasAnswers answers) id
      · exact ⟨old, result, cleared, hasId⟩
  | _ => exact ready

/-! ## One step -/

/-- Every worker has what it relies on. -/
def System.AllReady (cfg : Config F) (s : System W) : Prop :=
  ∀ worker, (s.phase worker).Ready cfg s.storage

theorem allReady_lookup
    {env : Env} {cfg : Config F} {s : System W} {question : DnsQuestion}
    (ready : s.AllReady cfg) (harmless : s.LookupHarmless env question)
    (worker : W) :
    (s.phase worker).Ready cfg (s.storage.lookup env question).2 := by
  apply (ready worker).lookup
  intro handle isHandle frees
  exact harmless handle.slot frees ⟨worker, handle, isHandle, rfl⟩

theorem allReady_store
    {env : Env} {cfg : Config F} {s : System W} {question : DnsQuestion}
    {raw : Bytes} {ttl : UInt32} (ready : s.AllReady cfg)
    (harmless : s.StoreHarmless question raw ttl) (resp : DnsMessage)
    (worker : W) :
    (s.phase worker).Ready cfg
      (s.storage.store env question raw resp ttl).2 := by
  apply (ready worker).store
  · intro lives handle isHandle pointsTo
    exact
      (harmless lives).1 handle.slot pointsTo
        ⟨worker, handle, isHandle, rfl⟩
  · intro lives call checked isPhase sameKey
    exact (harmless lives).2 worker call checked isPhase sameKey

theorem checked_of_ready
    {heap : Heap} {cfg : Config F} {s : Storage} {worker : W} {call : Call}
    {checked : Option Answer} {handle : Handle}
    (ready : (Phase.sending call checked handle).Ready cfg s) :
    Delivery.Checked cfg
      ⟨worker, call, checked, s.read heap handle⟩ := by
  obtain ⟨passed, entry, live, cleared, hasId⟩ := ready
  have packet : s.read heap handle = entry.data := by
    rw [Storage.read]
    simp only [live]
  rw [packet]
  intro answers
  obtain ⟨a, isChecked, same⟩ := cleared answers
  exact ⟨⟨a, isChecked, passed a isChecked, same⟩, hasId answers⟩

section Steps

variable [DecidableEq W] {env : Env} {heap : Heap} {cfg : Config F}

theorem ready_update
    {phases : W → Phase} {storage : Storage} {worker : W} {phase : Phase}
    (own : phase.Ready cfg storage)
    (others : ∀ other, (phases other).Ready cfg storage) :
    ∀ other, (Function.update phases worker phase other).Ready cfg storage := by
  intro other
  by_cases same : other = worker
  · rw [same, Function.update_self]
    exact own
  · rw [Function.update_of_ne same]
    exact others other

theorem allReady_block
    {s : System W} (ready : s.AllReady cfg) (worker : W) (site : Site)
    (client : Option SockAddrIn) (query : DnsMessage) (qname : Bytes) :
    (s.block worker site client query qname).AllReady cfg := by
  unfold System.block
  split
  · exact ready_update trivial ready
  · exact ready_update trivial ready

/-- A step of the resolver. -/
theorem allReady_resolving
    {s : System W} {worker : W} {call : Call} {rest : Proc}
    (ready : s.AllReady cfg)
    (undisturbed : s.Undisturbed env (.advance worker))
    (isPhase : s.phase worker = .resolving call rest) :
    (s.advance env heap cfg worker).AllReady cfg := by
  have sound := ready worker
  rw [isPhase] at sound
  unfold System.Undisturbed at undisturbed
  simp only [isPhase] at undisturbed
  rw [System.advance]
  simp only [isPhase]
  cases sound with
  | done parsed => exact ready_update parsed ready
  | lookup next =>
      exact ready_update (next _) (allReady_lookup ready undisturbed)
  | read next => exact ready_update (next _) ready
  | @receive exchange next keeps rest =>
      simp only [Proc.step]
      have cache := keeps s.storage.world
      cases result : exchange s.storage.world with
      | mk reply world =>
          rw [result] at cache
          have others :
              ∀ other, (s.phase other).Ready cfg
                { s.storage with world } :=
            fun other => (ready other).of_sameCache cache rfl
          cases reply with
          | none =>
              exact
                ready_update (.done (parsed_of_not_answer (by simp))) others
          | some reply => exact ready_update (rest reply) others
  | note next =>
      exact
        ready_update next fun other => (ready other).of_sameCache rfl rfl
  | @store question raw resp ttl next rest =>
      exact
        ready_update (rest _) (allReady_store ready undisturbed resp)

/-- The policy check. -/
theorem allReady_check
    {s : System W} {worker : W} {call : Call} {outcome : Outcome}
    {buffer : Option Handle} (ready : s.AllReady cfg)
    (parsed : outcome.Parsed)
    (covers : s.CheckCovers call.question outcome) :
    (s.check env heap cfg worker call outcome buffer).AllReady cfg := by
  have withoutCheck :
      (∀ slot entry, s.storage.world.cache.entries slot = some entry →
          entry.key = questionKey call.question →
            ¬ hasAnswers entry.data = true) →
        (s.withPhase worker (.readingBack call none)).AllReady cfg := by
    intro noAnswers
    refine ready_update ⟨fun a same => (by cases same), ?_⟩ ready
    intro slot entry occupied isKey answers
    exact absurd answers (noAnswers slot entry occupied isKey)
  unfold System.check
  cases outcome with
  | hung => exact ready
  | failed => exact ready_update trivial ready
  | tooDeep => exact ready_update trivial ready
  | nxDomain a => exact withoutCheck covers
  | answer a =>
      simp only
      split
      case isTrue noAnswers =>
        apply withoutCheck
        intro slot entry occupied isKey answers
        have same := covers slot entry occupied isKey answers
        rw [same.hasAnswers, hasAnswers_iff (parsed a rfl)] at answers
        exact answers noAnswers
      case isFalse answers =>
        split
        · exact ready_update trivial ready
        · apply allReady_block
          exact fun other => (ready other).of_sameCache rfl rfl
        · rename_i flux verdict
          refine
            ready_update ⟨?_, ?_⟩ fun other =>
              (ready other).of_sameCache rfl rfl
          · intro other same
            cases same
            exact ⟨parsed a rfl, _, _, _, _, verdict⟩
          · intro slot entry occupied isKey hasAnswers
            exact ⟨a, rfl, covers slot entry occupied isKey hasAnswers⟩

/-- The second lookup. -/
theorem allReady_readingBack
    {s : System W} {worker : W} {call : Call} {checked : Option Answer}
    (ready : s.AllReady cfg)
    (undisturbed : s.Undisturbed env (.advance worker))
    (isPhase : s.phase worker = .readingBack call checked) :
    (s.advance env heap cfg worker).AllReady cfg := by
  have own := ready worker
  rw [isPhase] at own
  unfold System.Undisturbed at undisturbed
  simp only [isPhase] at undisturbed
  have others := allReady_lookup ready undisturbed
  rw [System.advance]
  simp only [isPhase]
  cases found :
      (lookupQuestion s.storage.world.cache call.question
        (env.time s.storage.world.ticks)).1 with
  | none =>
      have result := Storage.lookup_of_miss found
      rw [result] at others ⊢
      exact ready_update trivial others
  | some raw =>
      obtain ⟨handle, entry, result, live, isKey, -⟩ :=
        Storage.lookup_of_hit found
      rw [result] at others ⊢
      have occupied := (Storage.target_eq_some_iff.mp live).2
      exact
        ready_update
          ⟨own.1, entry, live, own.2 handle.slot entry occupied isKey⟩
          others

/-- The patch of the ID. -/
theorem allReady_patching
    {s : System W} {worker : W} {call : Call} {checked : Option Answer}
    {handle : Handle} (ready : s.AllReady cfg)
    (undisturbed : s.Undisturbed env (.advance worker))
    (isPhase : s.phase worker = .patching call checked handle) :
    (s.advance env heap cfg worker).AllReady cfg := by
  have own := ready worker
  rw [isPhase] at own
  obtain ⟨passed, entry, live, cleared⟩ := own
  unfold System.Undisturbed at undisturbed
  simp only [isPhase] at undisturbed
  have others :
      ∀ other, (s.phase other).Ready cfg
        (s.storage.writeId heap call.query.header.id handle) :=
    fun other => (ready other).writeId live (undisturbed other)
  rw [System.advance]
  simp only [isPhase]
  refine ready_update ⟨passed, ?_⟩ others
  rcases @Storage.target_writeId heap call.query.header.id handle s.storage
      entry live handle entry live with ⟨_, _, result⟩ | ⟨elsewhere, _⟩
  · refine ⟨_, result, cleared.patch _, ?_⟩
    intro answers
    rw [hasAnswers_patchId] at answers
    exact take_patchId (two_le_of_hasAnswers answers) _
  · exact absurd rfl elsewhere

theorem allReady_arrive
    {s : System W} (ready : s.AllReady cfg) (worker : W) (inbuf : Bytes)
    (client : Option SockAddrIn) :
    (s.arrive env worker inbuf client).AllReady cfg := by
  unfold System.arrive
  split
  · exact ready
  · simp only
    split
    · exact fun other => (ready other).of_sameCache rfl rfl
    · exact
        ready_update trivial fun other =>
          (ready other).of_sameCache rfl rfl

theorem allReady_screen
    {s : System W} (ready : s.AllReady cfg) (worker : W)
    (client : Option SockAddrIn) (query : DnsMessage) (now : Int) :
    (s.screen worker client query now).AllReady cfg := by
  unfold System.screen
  split
  · split
    · exact ready_update trivial ready
    · exact ready_update trivial ready
  · exact ready_update trivial ready

theorem allReady_decide
    {s : System W} (ready : s.AllReady cfg) (worker : W)
    (client : Option SockAddrIn) (query : DnsMessage) :
    (s.decide env cfg worker client query).AllReady cfg := by
  unfold System.decide
  split
  · exact ready_update trivial ready
  · split
    · exact allReady_block ready _ _ _ _ _
    · split
      · exact allReady_block ready _ _ _ _ _
      · exact ready_update (sound_resolverSteps env cfg.resolver _) ready

theorem allReady_step
    {s : System W} {action : Action W} (ready : s.AllReady cfg)
    (undisturbed : s.Undisturbed env action) :
    (s.step env heap cfg action).AllReady cfg := by
  unfold System.step
  cases action with
  | arrive worker inbuf client =>
      simp only
      split
      · exact allReady_arrive ready worker inbuf client
      · exact ready
  | advance worker =>
      simp only
      cases isPhase : s.phase worker with
      | idle =>
          rw [System.advance]
          simp only [isPhase]
          exact ready
      | limited client query =>
          rw [System.advance]
          simp only [isPhase]
          exact
            ready_update trivial fun other =>
              (ready other).of_sameCache rfl rfl
      | screening client query now =>
          rw [System.advance]
          simp only [isPhase]
          exact allReady_screen ready worker client query now
      | deciding client query =>
          rw [System.advance]
          simp only [isPhase]
          exact allReady_decide ready worker client query
      | reporting client qname =>
          rw [System.advance]
          simp only [isPhase]
          exact
            ready_update trivial fun other =>
              (ready other).of_sameCache rfl rfl
      | banning client qname now =>
          obtain ⟨storage, phase, -⟩ := ban_frame s worker client now
          rw [System.advance]
          simp only [isPhase]
          have others :
              ∀ other, ((s.ban worker client now).phase other).Ready cfg
                (s.ban worker client now).storage := by
            rw [storage, phase]
            exact ready
          exact ready_update trivial others
      | recording qname =>
          obtain ⟨phase, -⟩ :=
            record_frame s worker qname (env.time s.storage.world.ticks)
          rw [System.advance]
          simp only [isPhase]
          have others :
              ∀ other,
                ((s.record worker qname
                    (env.time s.storage.world.ticks)).phase other).Ready
                  cfg (s.storage.addTicks 1) := by
            rw [phase]
            exact fun other => (ready other).of_sameCache rfl rfl
          exact ready_update trivial others
      | resolving call rest =>
          exact allReady_resolving ready undisturbed isPhase
      | checking call outcome buffer =>
          have parsed := ready worker
          rw [isPhase] at parsed
          unfold System.Undisturbed at undisturbed
          simp only [isPhase] at undisturbed
          rw [System.advance]
          simp only [isPhase]
          exact allReady_check ready parsed undisturbed
      | readingBack call checked =>
          exact allReady_readingBack ready undisturbed isPhase
      | patching call checked handle =>
          exact allReady_patching ready undisturbed isPhase
      | sending call checked handle =>
          rw [System.advance]
          simp only [isPhase]
          exact ready_update trivial ready

theorem deliveries_block
    (s : System W) (worker : W) (site : Site) (client : Option SockAddrIn)
    (query : DnsMessage) (qname : Bytes) :
    (s.block worker site client query qname).deliveries = s.deliveries := by
  unfold System.block
  split
  · rfl
  · rfl

/-- A step delivers what the pointer of a sending worker gives, or nothing. -/
theorem deliveries_step (s : System W) (action : Action W) :
    (s.step env heap cfg action).deliveries = s.deliveries ∨
      ∃ worker call checked handle,
        s.phase worker = .sending call checked handle ∧
          (s.step env heap cfg action).deliveries =
            ⟨worker, call, checked, s.storage.read heap handle⟩ ::
              s.deliveries := by
  unfold System.step
  cases action with
  | arrive worker inbuf client =>
      left
      simp only
      split
      · unfold System.arrive
        split
        · rfl
        · simp only
          split
          · rfl
          · rfl
      · rfl
  | advance worker =>
      simp only
      rw [System.advance]
      cases isPhase : s.phase worker with
      | idle => exact Or.inl rfl
      | limited client query => exact Or.inl rfl
      | screening client query now =>
          left
          simp only
          unfold System.screen
          split
          · split
            · rfl
            · rfl
          · rfl
      | deciding client query =>
          left
          simp only
          unfold System.decide
          split
          · rfl
          · split
            · exact deliveries_block s _ _ _ _ _
            · split
              · exact deliveries_block s _ _ _ _ _
              · rfl
      | reporting client qname => exact Or.inl rfl
      | banning client qname now =>
          exact Or.inl (ban_frame s worker client now).2.2.1
      | recording qname => exact Or.inl (record_frame s worker qname _).2.1
      | resolving call rest =>
          left
          cases rest with
          | done outcome buffer => rfl
          | lookup question next => rfl
          | read handle next => rfl
          | receive exchange next => rfl
          | note event next => rfl
          | store question raw resp ttl next => rfl
      | checking call outcome buffer =>
          left
          simp only
          unfold System.check
          cases outcome with
          | hung => rfl
          | failed => rfl
          | tooDeep => rfl
          | nxDomain a => rfl
          | answer a =>
              simp only
              split
              · rfl
              · split
                · rfl
                · exact deliveries_block _ _ _ _ _ _
                · rfl
      | readingBack call checked =>
          left
          simp only
          split
          · rfl
          · rfl
      | patching call checked handle => exact Or.inl rfl
      | sending call checked handle =>
          exact Or.inr ⟨worker, call, checked, handle, isPhase, rfl⟩

/-- Whatever was delivered so far was checked. -/
def System.Sound (cfg : Config F) (s : System W) : Prop :=
  s.AllReady cfg ∧ ∀ d, d ∈ s.deliveries → d.Checked cfg

theorem sound_step
    {s : System W} {action : Action W} (sound : s.Sound cfg)
    (undisturbed : s.Undisturbed env action) :
    (s.step env heap cfg action).Sound cfg := by
  obtain ⟨ready, checked⟩ := sound
  refine ⟨allReady_step ready undisturbed, ?_⟩
  rcases @deliveries_step F W _ env heap cfg s action with
    same | ⟨worker, call, answer, handle, isPhase, delivers⟩
  · rw [same]
    exact checked
  · have own := ready worker
    rw [isPhase] at own
    rw [delivers]
    intro d member
    rcases List.mem_cons.mp member with isNew | old
    · rw [isNew]
      exact checked_of_ready own
    · exact checked d old

end Steps

/-- In every run whose steps leave each other's packets alone, every packet
with answers that a worker delivers has passed the policy check of its own
call, and it has the ID of its own query. -/
theorem delivered_checked_along
    [DecidableEq W] {env : Env} {heap : Heap} {cfg : Config F}
    {start : System W} (idle : ∀ worker, start.phase worker = .idle)
    (nothing : start.deliveries = []) {actions : List (Action W)}
    (undisturbed :
      Along (System.step env heap cfg) (System.Undisturbed env) start
        actions) :
    ∀ d, d ∈ (run (System.step env heap cfg) start actions).deliveries →
      d.Checked cfg := by
  have started : start.Sound cfg := by
    refine ⟨?_, ?_⟩
    · intro worker
      rw [idle worker]
      trivial
    · intro d member
      rw [nothing] at member
      cases member
  exact
    (invariant_run (System.Sound cfg)
      (fun s action sound harmless => sound_step sound harmless) started
      undisturbed).2

/-! ## A worker that finishes alone -/

/-- The worker has not come to its second lookup. -/
def Phase.isEarly : Phase → Bool
  | .readingBack _ _ => false
  | .patching _ _ _ => false
  | .sending _ _ _ => false
  | _ => true

theorem Phase.handle_of_isEarly
    {phase : Phase} (early : phase.isEarly = true) : phase.handle = none := by
  cases phase with
  | patching call checked handle => cases early
  | sending call checked handle => cases early
  | _ => rfl

/-- What a worker in front of its check is about to check. -/
def Phase.checks : Phase → Option (Call × Outcome)
  | .checking call outcome _ => some (call, outcome)
  | _ => none

/-- No other worker is behind its check, and the worker sees at its own check
what the cache holds. -/
def System.StepsAlone [DecidableEq W] (s : System W) : Action W → Prop
  | .arrive _ _ _ => True
  | .advance worker =>
      (∀ other, other ≠ worker → (s.phase other).isEarly = true) ∧
        ∀ check ∈ (s.phase worker).checks,
          s.CheckCovers check.1.question check.2

theorem undisturbed_of_stepsAlone
    [DecidableEq W] {env : Env} {s : System W} {action : Action W}
    (alone : s.StepsAlone action) :
    s.Undisturbed env action := by
  cases action with
  | arrive worker inbuf client => trivial
  | advance worker =>
      obtain ⟨others, covers⟩ := alone
      have notHeld :
          (s.phase worker).handle = none → ∀ slot, ¬ s.Held slot := by
        intro noHandle slot given
        obtain ⟨holder, handle, isHandle, -⟩ := given
        by_cases own : holder = worker
        · rw [own, noHandle] at isHandle
          cases isHandle
        · rw [Phase.handle_of_isEarly (others holder own)] at isHandle
          cases isHandle
      have early :
          ∀ other, (s.phase other).isEarly = false → other = worker := by
        intro other late
        by_contra different
        rw [others other different] at late
        cases late
      unfold System.Undisturbed
      simp only
      cases isPhase : s.phase worker with
      | resolving call rest =>
          rw [isPhase] at notHeld
          cases rest with
          | lookup question next => exact fun slot _ => notHeld rfl slot
          | store question raw resp ttl next =>
              intro _
              refine ⟨fun slot _ => notHeld rfl slot, ?_⟩
              intro other otherCall checked readsBack
              have own := early other (by rw [readsBack]; rfl)
              rw [own, isPhase] at readsBack
              cases readsBack
          | _ => trivial
      | checking call outcome buffer =>
          exact covers (call, outcome) (by rw [isPhase]; rfl)
      | readingBack call checked =>
          rw [isPhase] at notHeld
          exact fun slot _ => notHeld rfl slot
      | patching call checked handle =>
          intro other otherCall otherChecked otherHandle sends
          have own := early other (by rw [sends]; rfl)
          rw [own, isPhase] at sends
          cases sends
      | _ => trivial

instance (data raw : Bytes) : Decidable (SamePacket data raw) :=
  inferInstanceAs (Decidable (_ ∧ _))

instance (outcome : Outcome) (data : Bytes) :
    Decidable (outcome.Fits data) :=
  match outcome with
  | .answer _ => inferInstanceAs (Decidable (_ → _))
  | .nxDomain _ => inferInstanceAs (Decidable (¬ _))
  | .failed => inferInstanceAs (Decidable True)
  | .tooDeep => inferInstanceAs (Decidable True)
  | .hung => inferInstanceAs (Decidable True)

instance (s : System W) (question : DnsQuestion) (outcome : Outcome) :
    Decidable (s.CheckCovers question outcome) :=
  inferInstanceAs
    (Decidable
      (∀ slot, ∀ entry ∈ s.storage.world.cache.entries slot,
        entry.key = questionKey question → outcome.Fits entry.data))

instance [DecidableEq W] [Fintype W] (s : System W) (action : Action W) :
    Decidable (s.StepsAlone action) :=
  match action with
  | .arrive _ _ _ => inferInstanceAs (Decidable True)
  | .advance _ => inferInstanceAs (Decidable (_ ∧ _))

/-- Freed memory is never touched here. -/
def heapUnused : Heap := ⟨fun _ => [], fun _ cache => cache⟩

/-- The query for `a.` with another ID. -/
def secondQueryA : Bytes :=
  [86, 120, 1, 0, 0, 1, 0, 0, 0, 0, 0, 0, 1, 97, 0, 0, 1, 0, 1]

/-- Two workers with the same question take turns up to their checks, and one
after the other sends what is in the cache. -/
def sharedCalls : List (Action Bool) :=
  [.arrive true queryA (some visitor),
      .arrive false secondQueryA (some visitor)] ++
    (List.replicate 7 [.advance true, .advance false]).flatten ++
      List.replicate 4 (.advance true) ++ List.replicate 4 (.advance false)

/-- Both send the packet of the second one, each with its own ID. -/
theorem delivered_checked_along_shared :
    let s :=
      run
        (System.step (envAnswering (replyA 60)) heapUnused configDefault)
        (systemStart Bool 0) sharedCalls
    s.deliveries.map (fun d => (d.worker, d.packet)) =
        [(false, patchId 22136 (replyA 60)),
          (true, patchId 4660 (replyA 60))] ∧
      ∀ d, d ∈ s.deliveries → d.Checked configDefault := by
  have alone :
      Along
        (System.step (envAnswering (replyA 60)) heapUnused configDefault)
        System.StepsAlone (systemStart Bool 0) sharedCalls := by
    decide +kernel
  refine ⟨by decide +kernel, ?_⟩
  apply delivered_checked_along (fun _ => rfl) rfl
  intro before action after shape
  exact undisturbed_of_stepsAlone (alone before action after shape)

/-! ## Two workers and one question -/

/-- What is delivered would be what was checked, in every interleaving. -/
def DeliveredIsChecked : Prop :=
  ∀ (F W : Type) [DecidableEq W] (env : Env) (heap : Heap) (cfg : Config F)
    (now : Int) (actions : List (Action W)),
    ∀ d, d ∈
        (run (System.step env heap cfg) (systemStart W now)
          actions).deliveries →
      d.Checked cfg

/-- The first reply differs from all later ones. -/
def envTwoReplies : Env :=
  { envAnswering (replyA 60) with
    udp := fun tick => .reply (if tick = 6 then replyA 60 else replyA 61) }

/-- Two workers miss the cache.  The first one stores and checks its reply, the
second one stores another, and the first one sends that. -/
def crossedCalls : List (Action Bool) :=
  [.arrive true queryA (some visitor), .arrive false queryA (some visitor)] ++
    (List.replicate 4 [.advance true, .advance false]).flatten ++
      List.replicate 4 (.advance true) ++ List.replicate 2 (.advance false) ++
        List.replicate 3 (.advance true)

theorem not_deliveredIsChecked : ¬ DeliveredIsChecked := by
  intro allChecked
  have sent :
      (run (System.step envTwoReplies heapUnused configDefault)
          (systemStart Bool 0) crossedCalls).deliveries.map
          (fun d => (d.packet, d.checked.map Answer.raw)) =
        [(patchId 4660 (replyA 61), some (replyA 60))] := by
    decide +kernel
  obtain ⟨d, more, delivered, first, -⟩ := List.map_eq_cons_iff.mp sent
  rw [Prod.mk.injEq] at first
  obtain ⟨packet, checked⟩ := first
  have answers : hasAnswers d.packet = true := by
    rw [packet]
    decide
  have member : d ∈ d :: more := List.mem_cons_self
  rw [← delivered] at member
  obtain ⟨⟨a, isChecked, -, same⟩, -⟩ :=
    allChecked Rat Bool envTwoReplies heapUnused configDefault 0 crossedCalls
      d member answers
  rw [isChecked, Option.map_some, Option.some.injEq] at checked
  rw [packet, checked] at same
  exact absurd same (by decide)

end DnsFirewall
