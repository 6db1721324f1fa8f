import DnsFirewall.Foundations.CString
import DnsFirewall.Foundations.LinearProbing

/-!
# The answer cache

The fixed table of `cache.c`.  An unused entry is an empty slot: the key and
the data of a removed entry are freed and never read again.  Every function
reads the clock at most once, so the time is an argument.  Allocation is taken
to succeed.
-/

namespace DnsFirewall

open CString LinearProbing

structure CacheEntry where
  key : Bytes
  data : Bytes
  expiry : Int
deriving DecidableEq, Repr

/-- `cache_t` with `capacity` entries. -/
structure Cache (capacity : Nat) where
  entries : Fin capacity → Option CacheEntry
  count : Nat

def cacheDefaultSize : Nat := 1024

instance : NeZero cacheDefaultSize :=
  ⟨by decide⟩

def cacheCreate (capacity : Nat) : Cache capacity :=
  ⟨fun _ => none, 0⟩

/-- `hash_key`: FNV-1a over the characters of the key. -/
def hashKey (key : Bytes) : UInt32 :=
  key.foldl (fun hash character =>
    (hash ^^^ character.toUInt32) * 16777619) 2166136261

/-- `build_key`: the key as `snprintf` leaves it in a buffer of 512 bytes. -/
def buildKey (name : Bytes) (type rrclass : UInt16) : Bytes :=
  boundedCopy 512
    (content name ++ 58 :: (decimal type.toNat ++ 58 ::
      decimal rrclass.toNat))

section Operations

variable {capacity : Nat} [NeZero capacity]

/-- `hash_key(key) % c->capacity`. -/
def homeSlot (capacity : Nat) [NeZero capacity] (key : Bytes) :
    Fin capacity :=
  Fin.ofNat capacity (hashKey key).toNat

namespace Cache

/-- The pass in which the loops of `cache_lookup` and `cache_store` end: the
first one whose slot is unused or holds the key. -/
def find (c : Cache capacity) (key : Bytes) : Option Nat :=
  probe CacheEntry.key c.entries (homeSlot capacity key) key

/-- The slot of the given pass of these loops. -/
def slotOf (_ : Cache capacity) (key : Bytes) (pass : Nat) :
    Fin capacity :=
  slotAt (homeSlot capacity key) pass

end Cache

/-- `cache_lookup`: the data when it returns zero, and the cache it leaves. -/
def cacheLookup (c : Cache capacity) (name : Bytes)
    (type rrclass : UInt16) (now : Int) : Option Bytes × Cache capacity :=
  let key := buildKey name type rrclass
  match c.find key with
  | none => (none, c)
  | some pass =>
      match c.entries (c.slotOf key pass) with
      | none => (none, c)
      | some entry =>
          if entry.expiry < now then
            (none,
              { entries :=
                  Function.update c.entries (c.slotOf key pass) none
                count := c.count - 1 })
          else
            (some entry.data, c)

def cacheStore (c : Cache capacity) (name : Bytes)
    (type rrclass : UInt16) (data : Bytes) (ttl : UInt32) (now : Int) :
    Cache capacity :=
  if ttl = 0 then
    c
  else
    let key := buildKey name type rrclass
    match c.find key with
    | none => c
    | some pass =>
        let entry : CacheEntry := ⟨key, data, now + ttl.toNat⟩
        match c.entries (c.slotOf key pass) with
        | none =>
            { entries :=
                Function.update c.entries (c.slotOf key pass) (some entry)
              count := c.count + 1 }
        | some _ =>
            { c with
              entries :=
                Function.update c.entries (c.slotOf key pass)
                  (some entry) }

def keepUnexpired (now : Int) (slot : Option CacheEntry) :
    Option CacheEntry :=
  match slot with
  | none => none
  | some entry => if entry.expiry < now then none else some entry

def cacheCleanExpired (c : Cache capacity) (now : Int) : Cache capacity :=
  { entries := fun slot => keepUnexpired now (c.entries slot)
    count :=
      c.count -
        (List.finRange capacity).countP fun slot =>
          match c.entries slot with
          | none => false
          | some entry => decide (entry.expiry < now) }

end Operations

end DnsFirewall
