/-
  LzLib.CommonUtils.ResolverDef
  ─────────────────────────────
  **`lz_resolve_ip6`** (`common-utils.c`): the addresses of a host, one for each
  call, from a list that `getaddrinfo` has made and the cache keeps.

  The lists are numbered as they are made; `(k, i)` is the entry number `i` of
  list `k`.  `none` is a program that has read through a NULL pointer or an entry
  of a list that was freed.
-/
import LzLib.Foundation.Batches
import LzLib.Foundation.Numerals
import LzLib.Foundation.Runs
import LzLib.Foundation.Words

namespace LzLib.CommonUtils

open LzLib.Foundation

variable {α : Type}

/-! ## §1. The cache. -/

/-- `struct dnscache6`. -/
structure DnsCache where
  first : Option (Nat × Nat)
  next : Option (Nat × Nat)
  deriving DecidableEq

/-- The arguments of `getaddrinfo` that differ from call to call; the hints have
`SOCK_STREAM` and `AI_ADDRCONFIG`. -/
structure Query where
  hostname : CStr
  service : Bytes
  family : Int
  deriving DecidableEq

/-- `*dnscache`, the lists that were made, the arguments with which, and the
lists that `freeaddrinfo` was given. -/
structure Resolver (α : Type) where
  dnscache : Option DnsCache
  lists : List (List α)
  queries : List Query
  freed : List Nat

/-- How the calls of one `lz_resolve_ip6` end: `CALLOC`, `asprintf`, `getaddrinfo`
and `getnameinfo`, of the entry that is returned and of the next one. -/
structure Answers (α : Type) where
  calloc : Bool
  asprintf : Bool
  getaddrinfo : Option (List α)
  getnameinfo : Bool × Bool

/-- `entry->ai_addr`. -/
def Resolver.aiAddr (s : Resolver α) (entry : Nat × Nat) : Option α :=
  if entry.1 ∈ s.freed then none else entryAt s.lists entry

/-- `entry->ai_next`. -/
def Resolver.aiNext (s : Resolver α) (entry : Nat × Nat) : Option (Option (Nat × Nat)) :=
  (s.aiAddr entry).map fun _ => (entryAt s.lists (entry.1, entry.2 + 1)).map fun _ => (entry.1, entry.2 + 1)

/-! ## §2. `lz_resolve_ip6`. -/

/-- What a call leaves: its status, `*addr_info`, and the rest. -/
structure Resolved (α : Type) where
  ret : Int
  addrInfo : Option (Nat × Nat)
  resolver : Resolver α

/-- `*dnscache`, made if it is not there. -/
def Resolver.cache (s : Resolver α) (calloc : Bool) : Option DnsCache :=
  match s.dnscache with
  | some cache => some cache
  | none => if calloc then some ⟨none, none⟩ else none

/-- `if (cache->first && !cache->next)`: the list has been read to its end. -/
def flushCache (s : Resolver α) (cache : DnsCache) : Resolver α × DnsCache :=
  match cache.first, cache.next with
  | some first, none => ({ s with freed := s.freed ++ [first.1] }, ⟨none, none⟩)
  | _, _ => (s, cache)

/-- `err:`. -/
def resolveErr (s : Resolver α) (cache : DnsCache) (addrInfo : Option (Nat × Nat)) : Resolved α :=
  ⟨-1, addrInfo, { s with dnscache := none, freed := s.freed ++ (cache.first.map Prod.fst).toList }⟩

/-- From `if (cache->next)` on: the next entry is returned, and the one after it is next. -/
def returnNext (env : Answers α) (s : Resolver α) (cache : DnsCache) (addrInfo : Option (Nat × Nat)) :
    Option (Resolved α) :=
  cache.next.bind fun entry =>
    (s.aiAddr entry).bind fun _ =>
      if env.getnameinfo.1 then
        (s.aiNext entry).bind fun next =>
          -- `cache->next` moves on; at the end it is NULL and the list stays cached
          match next with
          | none => some ⟨0, some entry, { s with dnscache := some ⟨cache.first, none⟩ }⟩
          | some after =>
              (s.aiAddr after).map fun _ =>
                if env.getnameinfo.2 then ⟨0, some entry, { s with dnscache := some ⟨cache.first, some after⟩ }⟩
                else resolveErr s cache (some entry)
      else some (resolveErr s cache addrInfo)

/-- `if (!cache->first)`: the host is looked up. -/
def probeHost (hostname : CStr) (port : Nat) (family : Int) (env : Answers α) (s : Resolver α) (cache : DnsCache)
    (addrInfo : Option (Nat × Nat)) : Option (Resolved α) :=
  if env.asprintf then
    let queries := s.queries ++ [⟨hostname, intText port, family⟩]
    match env.getaddrinfo with
    -- the cache is freed with the failure, so the next call makes another
    | none => some ⟨-1, addrInfo, { s with dnscache := none, queries := queries }⟩
    | some list =>
        let first := list.head?.map fun _ => (s.lists.length, 0)
        returnNext env { s with lists := s.lists ++ [list], queries := queries } ⟨first, first⟩ addrInfo
  else some ⟨-1, addrInfo, { s with dnscache := some cache }⟩

/-- `lz_resolve_ip6`. -/
def lzResolveIp6 (hostname : Option CStr) (port : Nat) (family : Int) (env : Answers α) (s : Resolver α)
    (addrInfo : Option (Nat × Nat)) : Option (Resolved α) :=
  match hostname with
  | none => some ⟨-1, addrInfo, s⟩
  | some hostname =>
      -- the cache is not checked, so a NULL one is read through
      (s.cache env.calloc).bind fun cache =>
        let (s, cache) := flushCache s cache
        match cache.first with
        | none => probeHost hostname port family env s cache addrInfo
        | some _ => returnNext env s cache addrInfo

/-! ## §3. Calls in sequence. -/

/-- A call in which `getaddrinfo` would return the list `list`, and the other calls
but for `asprintf` succeed. -/
structure Lookup (α : Type) where
  asprintf : Bool
  list : List α
  nonempty : list ≠ []

/-- The answers in such a call. -/
def Lookup.answers (c : Lookup α) : Answers α := ⟨true, c.asprintf, some c.list, (true, true)⟩

/-- The cache, the caller's `addr_info`, the statuses, and the entries that calls with status 0 have returned. -/
structure Session (α : Type) where
  resolver : Resolver α
  addrInfo : Option (Nat × Nat)
  rets : List Int
  returned : List (Nat × Nat)

/-- Before the first call, with `*dnscache` NULL. -/
def Session.start : Session α := ⟨⟨none, [], [], []⟩, none, [], []⟩

/-- What a call leaves to the caller. -/
def Session.after (s : Session α) (r : Resolved α) : Session α where
  resolver := r.resolver
  addrInfo := r.addrInfo
  rets := s.rets ++ [r.ret]
  returned := if r.ret = 0 then s.returned ++ r.addrInfo.toList else s.returned

/-- Calls with one hostname, port and family, and one `dnscache`. -/
def lookups (hostname : CStr) (port : Nat) (family : Int) : Component (Session α) (Lookup α) where
  step s c := (lzResolveIp6 (some hostname) port family c.answers s.resolver s.addrInfo).map s.after
  allowed := fun _ _ => True

end LzLib.CommonUtils
