/-
  LzLib.CommonUtils.ByteCoverage
  ──────────────────────────────
  **THE BYTES THAT COUNT** in the file checksum, for a file read in full blocks
  of the buffer's size, the last block possibly shorter.

  The bytes 1021, 1022 and 1023 of a block are read by neither loop.  A byte of
  the last full block that the shorter block behind it does not overwrite is fed
  a second time, and the two cancel out.  Every other byte counts: the runs with
  and without it differ in one lane of their totals.
-/
import LzLib.CommonUtils.FileChecksum

namespace LzLib.CommonUtils

open LzLib.Foundation

/-! ## §1. The blocks of a file. -/

/-- The block `i` of a content. -/
def block (content : Bytes) (i : Nat) : Bytes := (content.drop (1024 * i)).take 1024

/-- The blocks of a content, the last one possibly shorter. -/
def blocks (content : Bytes) : List Bytes := (List.range ((content.length + 1023) / 1024)).map (block content)

theorem length_block (content : Bytes) (i : Nat) : (block content i).length = min 1024 (content.length - 1024 * i) := by
  unfold block
  rw [List.length_take, List.length_drop]

theorem flatten_range_block (content : Bytes) : ∀ n,
    ((List.range n).map (block content)).flatten = content.take (1024 * n) := by
  intro n
  induction n with
  | zero => rfl
  | succ n ih =>
      rw [List.range_succ, List.map_append, List.flatten_append, ih, Nat.mul_succ, List.take_add]
      simp [block]

/-- The blocks are a delivery of the content. -/
theorem delivers_blocks (content : Bytes) : Delivers ((blocks content).map some) content := by
  refine ⟨_, rfl, ?_, fun chunk h => ?_⟩
  · unfold blocks
    rw [flatten_range_block]
    exact List.take_of_length_le (by omega)
  · obtain ⟨i, hi, rfl⟩ := List.mem_map.mp h
    have hlt := List.mem_range.mp hi
    have hsize : checksumBufSize = 1024 := rfl
    rw [length_block]
    omega

theorem getElem?_block (content : Bytes) (i j : Nat) :
    (block content i)[j]? = if j < 1024 then content[1024 * i + j]? else none := by
  unfold block
  rw [List.getElem?_take, List.getElem?_drop]

/-- A byte replaced is one of its own block. -/
theorem block_set (content : Bytes) (p : Nat) (b : UInt8) :
    block (content.set p b) (p / 1024) = (block content (p / 1024)).set (p % 1024) b := by
  apply List.ext_getElem?
  intro j
  rw [getElem?_block, List.getElem?_set, List.getElem?_set, getElem?_block, length_block]
  by_cases hj : j < 1024
  · rw [if_pos hj, if_pos hj]
    by_cases hp : p = 1024 * (p / 1024) + j
    · have hmod : p % 1024 = j := by omega
      rw [if_pos hp, if_pos hmod]
      by_cases hlt : p < content.length
      · rw [if_pos (by omega), if_pos (by omega)]
      · rw [if_neg (by omega), if_neg (by omega)]
    · have hmod : ¬ p % 1024 = j := by omega
      rw [if_neg hp, if_neg hmod]
  · have hmod : ¬ p % 1024 = j := by omega
    rw [if_neg hj, if_neg hmod, if_neg hj]

theorem block_set_ne (content : Bytes) {p i : Nat} (b : UInt8) (hi : i ≠ p / 1024) :
    block (content.set p b) i = block content i := by
  apply List.ext_getElem?
  intro j
  rw [getElem?_block, getElem?_block, List.getElem?_set]
  by_cases hj : j < 1024
  · have hp : ¬ p = 1024 * i + j := by omega
    rw [if_pos hj, if_pos hj, if_neg hp]
  · rw [if_neg hj, if_neg hj]

/-- The blocks before a position, its own, and those behind it. -/
def blocksBefore (content : Bytes) (p : Nat) : List Bytes := (List.range (p / 1024)).map (block content)

def blocksBehind (content : Bytes) (p : Nat) : List Bytes :=
  (List.range' (p / 1024 + 1) ((content.length + 1023) / 1024 - (p / 1024 + 1))).map (block content)

theorem blocks_split {content : Bytes} {p : Nat} (hp : p < content.length) :
    blocks content = blocksBefore content p ++ block content (p / 1024) :: blocksBehind content p := by
  unfold blocks blocksBefore blocksBehind
  rw [← List.map_cons (f := block content), ← List.range'_succ, List.range_eq_range', List.range_eq_range', ← List.map_append]
  have hcut : List.range' 0 (p / 1024) ++ List.range' (p / 1024) ((content.length + 1023) / 1024 - (p / 1024 + 1) + 1)
      = List.range' 0 ((content.length + 1023) / 1024) := by
    have h := @List.range'_append_1 0 (p / 1024) ((content.length + 1023) / 1024 - (p / 1024 + 1) + 1)
    rw [Nat.zero_add] at h
    rw [h]
    congr 1
    omega
  rw [hcut]

theorem blocks_set {content : Bytes} {p : Nat} (hp : p < content.length) (b : UInt8) :
    blocks (content.set p b) = blocksBefore content p ++ (block content (p / 1024)).set (p % 1024) b :: blocksBehind content p := by
  have hbefore : blocksBefore (content.set p b) p = blocksBefore content p := by
    apply List.map_congr_left
    intro i hi
    have hlt := List.mem_range.mp hi
    exact block_set_ne content b (by omega)
  have hbehind : blocksBehind (content.set p b) p = blocksBehind content p := by
    unfold blocksBehind
    rw [List.length_set]
    apply List.map_congr_left
    intro i hi
    have hge := (List.mem_range'_1.mp hi).1
    exact block_set_ne content b (by omega)
  rw [blocks_split (by rw [List.length_set]; exact hp), hbefore, hbehind, block_set]

/-! ## §2. One byte of the buffer. -/

/-- The buffer behind a list of chunks. -/
def bufferAfter (buf : Nat → UInt8) (chunks : List Bytes) : Nat → UInt8 := chunks.foldl readInto buf

theorem contributions_append (chunks chunks' : List Bytes) : ∀ buf,
    contributions buf (chunks ++ chunks') = contributions buf chunks ++ contributions (bufferAfter buf chunks) chunks' := by
  induction chunks with
  | nil => intro buf; rfl
  | cons chunk chunks ih => intro buf; exact congrArg (_ :: ·) (ih (readInto buf chunk))

theorem readInto_off {buf buf' : Nat → UInt8} {q : Nat} (hoff : ∀ i, i ≠ q → buf' i = buf i) (chunk : Bytes) :
    ∀ i, i ≠ q → readInto buf' chunk i = readInto buf chunk i := by
  intro i hi
  show chunk.getD i (buf' i) = chunk.getD i (buf i)
  rw [hoff i hi]

/-- A chunk that reaches beyond `q` overwrites what differs there. -/
theorem readInto_covers {buf buf' : Nat → UInt8} {q : Nat} (hoff : ∀ i, i ≠ q → buf' i = buf i) {chunk : Bytes}
    (hq : q < chunk.length) : readInto buf' chunk = readInto buf chunk := by
  funext i
  by_cases hi : i = q
  · subst hi
    show chunk.getD i (buf' i) = chunk.getD i (buf i)
    rw [List.getD_eq_getElem chunk _ hq, List.getD_eq_getElem chunk _ hq]
  · exact readInto_off hoff chunk i hi

theorem readInto_short (buf : Nat → UInt8) {chunk : Bytes} {q : Nat} (hq : chunk.length ≤ q) :
    readInto buf chunk q = buf q := List.getD_eq_default chunk (buf q) hq

theorem readInto_set_off (buf : Nat → UInt8) (chunk : Bytes) (q : Nat) (b : UInt8) :
    ∀ i, i ≠ q → readInto buf (chunk.set q b) i = readInto buf chunk i := by
  intro i hi
  show (chunk.set q b).getD i (buf i) = chunk.getD i (buf i)
  rw [List.getD_eq_getElem?_getD, List.getD_eq_getElem?_getD, List.getElem?_set_ne (Ne.symm hi)]

theorem readInto_set_self (buf : Nat → UInt8) {chunk : Bytes} {q : Nat} (hq : q < chunk.length) (b : UInt8) :
    readInto buf (chunk.set q b) q = b := by
  show (chunk.set q b).getD q (buf q) = b
  rw [List.getD_eq_getElem?_getD, List.getElem?_set_self hq]
  rfl

/-- Behind 1020 no byte is ever fed. -/
theorem contributions_unread {q : Nat} (hq : ¬ q < 1021) : ∀ (chunks : List Bytes) (buf buf' : Nat → UInt8),
    (∀ i, i ≠ q → buf' i = buf i) → contributions buf' chunks = contributions buf chunks := by
  intro chunks
  induction chunks with
  | nil => intro buf buf' _; rfl
  | cons chunk chunks ih =>
      intro buf buf' hoff
      have hread := readInto_off hoff chunk
      have hsame : contribution (readInto buf' chunk) = contribution (readInto buf chunk) := by
        funext k
        rw [contribution_off hread, if_neg (fun h => hq h.1), UInt8.xor_zero]
      rw [contributions, contributions, hsame, ih _ _ hread]

/-! ## §3. One byte of the file. -/

/-- `get_checksum_for_file` on a file read in full blocks. -/
def fileChecksum (content : Bytes) (checksum : Checksum) : Checksum :=
  (getChecksumForFile ((blocks content).map some) checksum).2

/-- The buffer in front of the block of a position, and behind it. -/
def bufferAt (content : Bytes) (p : Nat) : Nat → UInt8 := bufferAfter (fun _ => 0) (blocksBefore content p)

theorem fileChecksum_eq (content : Bytes) (c : Checksum) :
    fileChecksum content c = feedAll checksumSeed c (contributions (fun _ => 0) (blocks content)) := by
  unfold fileChecksum
  rw [getChecksumForFile_chunks]
  intro chunk h
  obtain ⟨chunks, hchunks, -, hlen⟩ := delivers_blocks content
  rw [List.map_injective_iff.mpr (Option.some_injective _) hchunks] at h
  exact (hlen chunk h).1

/-- The contributions of a file in which the block of a position is another one. -/
theorem contributions_at (content : Bytes) (p : Nat) (chunk : Bytes) :
    contributions (fun _ => 0) (blocksBefore content p ++ chunk :: blocksBehind content p)
      = contributions (fun _ => 0) (blocksBefore content p)
        ++ contribution (readInto (bufferAt content p) chunk)
          :: contributions (readInto (bufferAt content p) chunk) (blocksBehind content p) :=
  contributions_append _ _ _

theorem checksumSeed_ne : ∀ k, checksumSeed k ≠ 0 := by decide

theorem one_shift_ne : ∀ k : Fin 4, (1 : UInt8) <<< UInt8.ofNat k ≠ 0 := by decide

/-- The byte of a position stands in its block. -/
theorem mod_lt_block {content : Bytes} {p : Nat} (hp : p < content.length) : p % 1024 < (block content (p / 1024)).length := by
  rw [length_block]
  omega

theorem blocksBehind_nil {content : Bytes} {p : Nat} (h : content.length ≤ 1024 * (p / 1024 + 1)) :
    blocksBehind content p = [] := by
  have hnone : (content.length + 1023) / 1024 - (p / 1024 + 1) = 0 := by omega
  unfold blocksBehind
  rw [hnone]
  rfl

theorem blocksBehind_cons {content : Bytes} {p : Nat} (h : 1024 * (p / 1024 + 1) < content.length) :
    ∃ more, blocksBehind content p = block content (p / 1024 + 1) :: more
      ∧ (content.length ≤ 1024 * (p / 1024 + 2) → more = []) := by
  obtain ⟨m, hm⟩ : ∃ m, (content.length + 1023) / 1024 - (p / 1024 + 1) = m + 1 :=
    ⟨(content.length + 1023) / 1024 - (p / 1024 + 2), by omega⟩
  refine ⟨(List.range' (p / 1024 + 1 + 1) m).map (block content), ?_, fun hlast => ?_⟩
  · unfold blocksBehind
    rw [hm, List.range'_succ]
    rfl
  · have hzero : m = 0 := by omega
    rw [hzero]
    rfl

/-- The blocks behind a position see nothing of its byte, in the last block or where the
next one overwrites it. -/
theorem behind_same {content : Bytes} {p : Nat}
    (hfresh : content.length ≤ 1024 * (p / 1024 + 1) ∨ p + 1024 < content.length) {buf buf' : Nat → UInt8}
    (hoff : ∀ i, i ≠ p % 1024 → buf' i = buf i) :
    contributions buf' (blocksBehind content p) = contributions buf (blocksBehind content p) := by
  by_cases hlast : content.length ≤ 1024 * (p / 1024 + 1)
  · rw [blocksBehind_nil hlast]
    rfl
  · obtain ⟨more, hbehind, -⟩ := blocksBehind_cons (p := p) (Nat.lt_of_not_le hlast)
    have hcover : p % 1024 < (block content (p / 1024 + 1)).length := by
      rw [length_block]
      omega
    rw [hbehind, contributions, contributions, readInto_covers hoff hcover]

/-- A byte that is fed once counts, whatever the initial checksum. -/
theorem byte_counts {content : Bytes} {p : Nat} (hp : p < content.length) (hread : p % 1024 ≤ 1020)
    (hfresh : content.length ≤ 1024 * (p / 1024 + 1) ∨ p + 1024 < content.length) (c : Checksum) :
    ∃ b, fileChecksum (content.set p b) c ≠ fileChecksum content c := by
  have hlt := mod_lt_block hp
  have hself := fun b => readInto_set_self (bufferAt content p) hlt b
  have hoff := fun b => readInto_set_off (bufferAt content p) (block content (p / 1024)) (p % 1024) b
  -- the byte with its lowest bit turned is still another one when shifted
  let b := readInto (bufferAt content p) (block content (p / 1024)) (p % 1024) ^^^ 1
  refine ⟨b, ?_⟩
  have hlane : ∀ k : Fin 4, contribution (readInto (bufferAt content p) ((block content (p / 1024)).set (p % 1024) b)) k
      = contribution (readInto (bufferAt content p) (block content (p / 1024))) k
        ^^^ if p % 1024 % 4 = k then 1 <<< UInt8.ofNat k else 0 := by
    intro k
    have hone : readInto (bufferAt content p) (block content (p / 1024)) (p % 1024) ^^^ b = 1 := by
      rw [← UInt8.xor_assoc, UInt8.xor_self, UInt8.zero_xor]
    rw [contribution_off (hoff b), hself, hone]
    simp only [show p % 1024 < 1021 by omega, true_and]
  rw [fileChecksum_eq, fileChecksum_eq, blocks_set hp, blocks_split hp, contributions_at, contributions_at,
    behind_same hfresh (hoff b)]
  obtain ⟨k, hk⟩ : ∃ k : Fin 4, p % 1024 % 4 = k := ⟨⟨p % 1024 % 4, by omega⟩, rfl⟩
  -- another lane, where the two runs are the same
  obtain ⟨j, hj⟩ : ∃ j : Fin 4, j ≠ k := exists_ne k
  apply feedAll_apart_at (j := j) (k := k) (checksumSeed_ne j)
  · have hother : ¬ p % 1024 % 4 = j := fun h => hj (Fin.ext (h.symm.trans hk))
    rw [hlane, if_neg hother, UInt8.xor_zero]
  · rw [hlane, if_pos hk]
    intro h
    exact one_shift_ne k ((UInt8.xor_right_inj _).mp (h.trans UInt8.xor_zero.symm))

/-- Behind 1020 a byte counts for no initial checksum. -/
theorem byte_unread {content : Bytes} {p : Nat} (hp : p < content.length) (hread : 1020 < p % 1024) (b : UInt8) (c : Checksum) :
    fileChecksum (content.set p b) c = fileChecksum content c := by
  have hoff := readInto_set_off (bufferAt content p) (block content (p / 1024)) (p % 1024) b
  have hunread : ¬ p % 1024 < 1021 := by omega
  have hsame : contribution (readInto (bufferAt content p) ((block content (p / 1024)).set (p % 1024) b))
      = contribution (readInto (bufferAt content p) (block content (p / 1024))) := by
    funext k
    rw [contribution_off hoff, if_neg (fun h => hunread h.1), UInt8.xor_zero]
  rw [fileChecksum_eq, fileChecksum_eq, blocks_set hp, blocks_split hp, contributions_at, contributions_at,
    contributions_unread hunread _ _ _ hoff, hsame]

/-- A byte that the last block leaves in the buffer is fed twice, and lost for some initial
checksum. -/
theorem byte_twice {content : Bytes} {p : Nat} (hp : p < content.length) (hnext : 1024 * (p / 1024 + 1) < content.length)
    (hleft : content.length ≤ p + 1024) :
    ∃ c, ∀ b, fileChecksum (content.set p b) c = fileChecksum content c := by
  have hlt := mod_lt_block hp
  obtain ⟨more, hbehind, hmore⟩ := blocksBehind_cons hnext
  have hshort : (block content (p / 1024 + 1)).length ≤ p % 1024 := by
    rw [length_block]
    omega
  rw [hmore (by omega)] at hbehind
  -- what is fed up to this block, and a start that it leaves no lane zero of
  let buf := readInto (bufferAt content p) (block content (p / 1024))
  let fed := contributions (fun _ => 0) (blocksBefore content p) ++ [contribution buf]
  refine ⟨fun k => xorTotal fed k ^^^ 1, fun b => ?_⟩
  have hfull : ∀ k, feedAll checksumSeed (fun k => xorTotal fed k ^^^ 1) fed k ≠ 0 :=
    feedAll_start (a := fun _ => 1) (fun _ => by decide) (by decide) fed
  generalize (fun k => xorTotal fed k ^^^ 1) = c at hfull
  let buf' := readInto (bufferAt content p) ((block content (p / 1024)).set (p % 1024) b)
  have hoff : ∀ i, i ≠ p % 1024 → buf' i = buf i := readInto_set_off (bufferAt content p) _ (p % 1024) b
  let d : Checksum := fun k =>
    if p % 1024 < 1021 ∧ p % 1024 % 4 = k then (buf (p % 1024) ^^^ buf' (p % 1024)) <<< UInt8.ofNat k else 0
  have hfirst : contribution buf' = fun k => contribution buf k ^^^ d k := funext (contribution_off hoff)
  have hsecond : contribution (readInto buf' (block content (p / 1024 + 1)))
      = fun k => contribution (readInto buf (block content (p / 1024 + 1))) k ^^^ d k := by
    funext k
    rw [contribution_off (readInto_off hoff _), readInto_short buf hshort, readInto_short buf' hshort]
  obtain ⟨j, hj⟩ : ∃ j : Fin 4, j ≠ ⟨p % 1024 % 4, by omega⟩ := exists_ne _
  have hd : d j = 0 := if_neg (fun h => hj (Fin.ext h.2.symm))
  have hbetween : feedAll checksumSeed c fed
      = fun k => reseed checksumSeed (feedAll checksumSeed c (contributions (fun _ => 0) (blocksBefore content p))) k
          ^^^ contribution buf k := feedAll_append _ _ _ _
  rw [fileChecksum_eq, fileChecksum_eq, blocks_set hp, blocks_split hp, contributions_at, contributions_at, hbehind,
    feedAll_append, feedAll_append]
  show feedAll checksumSeed _ [contribution buf', contribution (readInto buf' (block content (p / 1024 + 1)))]
    = feedAll checksumSeed _ [contribution buf, contribution (readInto buf (block content (p / 1024 + 1)))]
  rw [hfirst, hsecond]
  apply feedAll_twice (j := j) _ hd
  have hj' := hfull j
  rw [hbetween] at hj'
  exact hj'

/-- **The bytes that count.**  For every file that is read in full blocks, the last one
possibly shorter, and every position of it: from each initial checksum some other byte there
changes the value if and only if the position is none of the last three of a block, and
lies in the last block or 1024 before another position of the file. -/
theorem every_byte_counts_iff (content : Bytes) (p : Fin content.length) :
    (∀ checksum, ∃ b, fileChecksum (content.set p b) checksum ≠ fileChecksum content checksum)
    ↔ (p : Nat) % 1024 ≤ 1020 ∧ (content.length ≤ 1024 * (p / 1024 + 1) ∨ p + 1024 < content.length) := by
  constructor
  · intro hcounts
    have hread : (p : Nat) % 1024 ≤ 1020 := by
      by_contra hread
      obtain ⟨b, hb⟩ := hcounts (fun _ => 0)
      exact hb (byte_unread p.isLt (Nat.lt_of_not_le hread) b _)
    refine ⟨hread, ?_⟩
    by_contra hfresh
    have hnext : 1024 * (p / 1024 + 1) < content.length := by omega
    have hleft : content.length ≤ p + 1024 := by omega
    obtain ⟨c, hlost⟩ := byte_twice p.isLt hnext hleft
    obtain ⟨b, hb⟩ := hcounts c
    exact hb (hlost b)
  · intro hcond c
    exact byte_counts p.isLt hcond.1 hcond.2 c

/-- A block of zeros: its byte 1021 counts for no initial checksum. -/
theorem byte_1021_lost : ¬ ∃ checksum b,
    fileChecksum ((List.replicate 1024 0).set 1021 b) checksum ≠ fileChecksum (List.replicate 1024 0) checksum := by
  intro h
  obtain ⟨checksum, b, hne⟩ := h
  exact hne (byte_unread (by rw [List.length_replicate]; omega) (by decide) b checksum)

end LzLib.CommonUtils
