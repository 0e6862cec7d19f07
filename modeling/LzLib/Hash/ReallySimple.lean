/-
  LzLib.Hash.ReallySimple
  ───────────────────────
  **`ReallySimpleHash`** (`hashfn.c`).  The loop counts `len` down to 1 and reads
  `path[len]` before the count goes down: the byte behind the key is read and
  the first byte of the key is not.

  A hash table hashes its own copy of a key on insertion and the caller's
  buffer on lookup.  The two agree in the bytes of the key; the bytes behind
  them are not the same memory.
-/
import LzLib.Foundation.Memory
import LzLib.Hash.HashFn

namespace LzLib.Hash

open LzLib.Foundation

/-! ## §1. The loop. -/

/-- `hash`, and the offsets of `path` that were read. -/
structure Hashing where
  hash : UInt32
  examined : List Nat
  deriving DecidableEq

/-- `for (; len > 0; len--) hash ^= (char)path[len]`. -/
def reallySimpleLoop (path : Memory) : Nat → Hashing → Hashing
  | 0, s => s
  | len + 1, s =>
      -- `path[len]` is read before `len--`
      reallySimpleLoop path len ⟨s.hash ^^^ charToUInt32 (path (len + 1)), s.examined ++ [len + 1]⟩

/-- `ReallySimpleHash`.  `path` is the memory from the key on. -/
def reallySimpleHash (path : Memory) (len : Int) : Hashing := reallySimpleLoop path len.toNat ⟨0, []⟩

/-! ## §2. What the loop reads. -/

theorem reallySimpleLoop_examined (path : Memory) (len : Nat) :
    ∀ s i, i ∈ (reallySimpleLoop path len s).examined ↔ i ∈ s.examined ∨ (1 ≤ i ∧ i ≤ len) := by
  induction len with
  | zero =>
      intro s i
      constructor
      · intro hs
        exact Or.inl hs
      · rintro (hs | hi)
        · exact hs
        · omega
  | succ len ih =>
      intro s i
      show i ∈ (reallySimpleLoop path len _).examined ↔ _
      rw [ih]
      simp only [List.mem_append, List.mem_singleton]
      have hlast : (i = len + 1 ∨ 1 ≤ i ∧ i ≤ len) ↔ (1 ≤ i ∧ i ≤ len + 1) := by omega
      rw [or_assoc, hlast]

/-- **The bytes that are read** are those from offset 1 to offset `len`. -/
theorem mem_examined (path : Memory) (len i : Nat) :
    i ∈ (reallySimpleHash path len).examined ↔ 1 ≤ i ∧ i ≤ len := by
  unfold reallySimpleHash
  rw [reallySimpleLoop_examined]
  simp

/-- The start value is one more contribution. -/
theorem reallySimpleLoop_hash (path : Memory) (len : Nat) :
    ∀ s, (reallySimpleLoop path len s).hash = s.hash ^^^ (reallySimpleLoop path len ⟨0, []⟩).hash := by
  induction len with
  | zero => intro s; exact UInt32.xor_zero.symm
  | succ len ih =>
      intro s
      show (reallySimpleLoop path len _).hash = s.hash ^^^ (reallySimpleLoop path len _).hash
      rw [ih, ih ⟨0 ^^^ _, _⟩]
      simp only [UInt32.zero_xor, UInt32.xor_assoc]

/-- One turn: the byte at offset `len + 1`, and the loop over the rest. -/
theorem reallySimpleHash_succ (path : Memory) (len : Nat) :
    (reallySimpleHash path (len + 1 : Nat)).hash
      = charToUInt32 (path (len + 1)) ^^^ (reallySimpleHash path len).hash := by
  show (reallySimpleLoop path len _).hash = _
  rw [reallySimpleLoop_hash, UInt32.zero_xor]
  rfl

/-- Only the bytes from offset 1 to offset `len` count. -/
theorem reallySimpleHash_congr {path path' : Memory} {len : Nat}
    (h : ∀ i, 1 ≤ i → i ≤ len → path i = path' i) :
    (reallySimpleHash path len).hash = (reallySimpleHash path' len).hash := by
  induction len with
  | zero => rfl
  | succ len ih =>
      rw [reallySimpleHash_succ, reallySimpleHash_succ, h (len + 1) (by omega) (by omega),
        ih (fun i hi hlen => h i hi (by omega))]

/-! ## §3. Keys. -/

/-- The buffers hold one key of `len` bytes. -/
def SameKey (len : Nat) (buf buf' : Memory) : Prop := ∀ i, i < len → buf i = buf' i

/-- **The hash is one of the key**: buffers with one key of `len` bytes have one
hash, and the bytes of the key are those that are examined. -/
def HashesKey (len : Nat) : Prop :=
  (∀ buf buf', SameKey len buf buf' → (reallySimpleHash buf len).hash = (reallySimpleHash buf' len).hash)
    ∧ ∀ buf i, i ∈ (reallySimpleHash buf len).examined ↔ i < len

/-- A byte is read back from the `uint32_t` it is converted to. -/
theorem charToUInt32_inj {c d : UInt8} : charToUInt32 c = charToUInt32 d ↔ c = d := by
  have hlow : ∀ c : UInt8, (charToUInt32 c).toUInt8 = c := by
    rintro ⟨c⟩
    revert c
    decide +kernel
  constructor
  · intro h
    rw [← hlow c, ← hlow d, h]
  · exact congrArg charToUInt32

/-- Two buffers with one key have one hash when the byte behind the key agrees as well, and only then. -/
theorem hash_eq_iff {len : Nat} {buf buf' : Memory} (h : SameKey len buf buf') :
    (reallySimpleHash buf len).hash = (reallySimpleHash buf' len).hash ↔ len = 0 ∨ buf len = buf' len := by
  cases len with
  | zero => exact ⟨fun _ => Or.inl rfl, fun _ => rfl⟩
  | succ len =>
      have hrest : (reallySimpleHash buf len).hash = (reallySimpleHash buf' len).hash :=
        reallySimpleHash_congr fun i _ hlen => h i (by omega)
      rw [reallySimpleHash_succ, reallySimpleHash_succ, hrest, UInt32.xor_left_inj, charToUInt32_inj]
      simp

/-- **`ReallySimpleHash` and the bytes of the key.**  It hashes keys of no bytes and no
others.  Two buffers with one key have one hash exactly where the key is empty or the
byte behind it agrees. -/
theorem reallySimpleHash_hashesKey_iff (len : Nat) :
    (HashesKey len ↔ len = 0)
      ∧ ∀ buf buf', SameKey len buf buf' →
          ((reallySimpleHash buf len).hash = (reallySimpleHash buf' len).hash ↔ len = 0 ∨ buf len = buf' len) := by
  constructor
  · constructor
    · intro hkey
      -- the byte at offset `len` is examined unless there is no byte at all
      have hlen := (hkey.2 (fun _ => 0) len).not.mpr (Nat.lt_irrefl len)
      rw [mem_examined] at hlen
      omega
    · intro hzero
      subst hzero
      constructor
      · intro buf buf' h
        rfl
      · intro buf i
        rw [mem_examined]
        omega
  · intro buf buf' h
    exact hash_eq_iff h

/-- Two buffers with the key `"a"` and different bytes behind it. -/
theorem reallySimpleHash_not_hashesKey :
    ¬ (∀ buf buf' : Memory, SameKey 1 buf buf' → (reallySimpleHash buf 1).hash = (reallySimpleHash buf' 1).hash)
      ∧ (reallySimpleHash (fun _ => 97) 1).examined = [1] := by
  constructor
  · intro hall
    have h := hall (fun i => if i = 0 then 97 else 0) (fun i => if i = 0 then 97 else 1) (by
      intro i hi
      simp [show i = 0 by omega])
    revert h
    decide
  · decide

/-! ## §4. The hash table. -/

/-- `memcpy (entry->key, key, keylen)`: behind the copy the heap is as it was. -/
def keyCopy (key heap : Memory) (keylen : Nat) : Memory := fun i => if i < keylen then key i else heap i

theorem sameKey_keyCopy (key heap : Memory) (keylen : Nat) : SameKey keylen (keyCopy key heap keylen) key := by
  intro i hi
  exact if_pos hi

/-- **Insertion and lookup.**  The hash of the copy is that of the caller's buffer when there is
no key, or when the heap and the buffer agree in the byte behind it. -/
theorem keyhash_eq_iff (key heap : Memory) (keylen : Nat) :
    (reallySimpleHash (keyCopy key heap keylen) keylen).hash = (reallySimpleHash key keylen).hash
      ↔ keylen = 0 ∨ heap keylen = key keylen := by
  rw [hash_eq_iff (sameKey_keyCopy key heap keylen)]
  simp [keyCopy]

/-- A function of the bytes of the key computes the hash for the empty key only. -/
theorem exists_hashfunc_iff (len : Nat) :
    (∃ hashfunc : Bytes → UInt32, ∀ buf, (reallySimpleHash buf len).hash = hashfunc ((List.range len).map buf))
      ↔ len = 0 := by
  constructor
  · rintro ⟨hashfunc, hall⟩
    by_contra hlen
    have hkeys : SameKey len (fun i => if i = len then 1 else 0) (fun _ => 0) := fun i hi => if_neg (by omega)
    have hbytes : (List.range len).map (fun i => if i = len then 1 else 0) = (List.range len).map (fun _ => (0 : UInt8)) :=
      List.map_congr_left fun i hi => hkeys i (List.mem_range.mp hi)
    have hsame := (hash_eq_iff hkeys).mp (by rw [hall, hall, hbytes])
    simp [hlen] at hsame
  · intro hlen
    subst hlen
    exact ⟨fun _ => 0, fun _ => rfl⟩

/-- **A key that is not found.**  In a table of two buckets or more, for every length but 0, an entry
can be in another bucket than the one in which its key is looked up. -/
theorem exists_other_bucket {keylen numbuckets : Nat} (hkeylen : 0 < keylen) (hbuckets : 2 ≤ numbuckets) :
    ∃ key heap, (reallySimpleHash (keyCopy key heap keylen) keylen).hash.toNat % numbuckets
      ≠ (reallySimpleHash key keylen).hash.toNat % numbuckets := by
  have hzero : ∀ len : Nat, (reallySimpleHash (fun _ => 0) len).hash = 0 := by
    intro len
    induction len with
    | zero => rfl
    | succ len ih => rw [reallySimpleHash_succ, ih]; rfl
  obtain ⟨len, rfl⟩ : ∃ len, keylen = len + 1 := ⟨keylen - 1, by omega⟩
  refine ⟨fun _ => 0, fun _ => 1, ?_⟩
  have hcopy : (reallySimpleHash (keyCopy (fun _ => 0) (fun _ => 1) (len + 1)) (len + 1 : Nat)).hash = 1 := by
    have hrest : (reallySimpleHash (keyCopy (fun _ => 0) (fun _ => 1) (len + 1)) len).hash
        = (reallySimpleHash (fun _ => 0) len).hash :=
      reallySimpleHash_congr fun i _ hi => if_pos (by omega)
    rw [reallySimpleHash_succ, hrest, hzero]
    simp [keyCopy, charToUInt32]
  rw [hcopy, hzero]
  show 1 % numbuckets ≠ 0 % numbuckets
  rw [Nat.mod_eq_of_lt (by omega), Nat.zero_mod]
  decide

end LzLib.Hash
