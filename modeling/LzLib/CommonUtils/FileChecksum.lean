/-
  LzLib.CommonUtils.FileChecksum
  ──────────────────────────────
  **THE FILE CHECKSUM AND THE READS** (`get_checksum_for_file`).

  Every chunk feeds the whole buffer, with what earlier chunks left in it.  A
  run over chunks is therefore a run of the seeded accumulators over the
  contributions of the buffers: `checksumLoop_chunks`.  Two deliveries of one
  file agree when there is nothing to be left behind, and only then.
-/
import LzLib.CommonUtils.FileChecksumDef
import LzLib.Foundation.SeededXor
import Mathlib.Data.Fintype.Basic
import Mathlib.Data.List.GetD
import Mathlib.Tactic.FinCases

namespace LzLib.CommonUtils

open LzLib.Foundation

/-! ## §1. What one buffer counts for. -/

/-- What a buffer is to the lane `k`: the bytes `k, k + 4, …` up to 1020, each shifted by `k`. -/
def contribution (buf : Nat → UInt8) (k : Fin 4) : UInt8 :=
  xorOver (Finset.range 1021) (fun q => if q % 4 = k then buf q <<< UInt8.ofNat k else 0)

theorem stride_lane (buf : Nat → UInt8) (c : Checksum) (t : Nat) (k : Fin 4) :
    stride buf c (4 * t) k = c k ^^^ buf (4 * t + k) <<< UInt8.ofNat k := by
  fin_cases k <;> simp [stride, xorAt]

theorem strides_lane (buf : Nat → UInt8) (c : Checksum) (k : Fin 4) : ∀ n,
    (List.range n).foldl (fun c t => stride buf c (4 * t)) c k
      = c k ^^^ xorOver (Finset.range (4 * n)) (fun q => if q % 4 = k then buf q <<< UInt8.ofNat k else 0) := by
  intro n
  induction n with
  | zero => exact UInt8.xor_zero.symm
  | succ n ih =>
      rw [List.range_succ, List.foldl_append, List.foldl_cons, List.foldl_nil, stride_lane, ih]
      show _ = c k ^^^ xorOver (Finset.range (4 * n + 1 + 1 + 1 + 1)) _
      rw [xorOver_range_succ, xorOver_range_succ, xorOver_range_succ, xorOver_range_succ]
      have h0 : (4 * n) % 4 = 0 := by omega
      have h1 : (4 * n + 1) % 4 = 1 := by omega
      have h2 : (4 * n + 1 + 1) % 4 = 2 := by omega
      have h3 : (4 * n + 1 + 1 + 1) % 4 = 3 := by omega
      rw [h0, h1, h2, h3]
      fin_cases k <;> simp [UInt8.xor_assoc]

/-- One call of `compute_checksum` feeds the contribution of its buffer. -/
theorem computeChecksum_lane (buf : Nat → UInt8) (c : Checksum) (k : Fin 4) :
    computeChecksum buf checksumBufSize c k = reseed checksumSeed c k ^^^ contribution buf k := by
  have hseed : (if ∀ k, c k = 0 then checksumSeed else c) = reseed checksumSeed c := by
    unfold reseed
    split <;> rfl
  have hlast : ∀ c' : Checksum, (List.range 1).foldl (fun c ret => xorAt c ret (buf (1020 + ret) <<< UInt8.ofNat ret)) c' k
      = c' k ^^^ if 1020 % 4 = (k : Nat) then buf 1020 <<< UInt8.ofNat k else 0 := by
    intro c'
    fin_cases k <;> simp [xorAt]
  unfold computeChecksum
  rw [hseed]
  show (List.range 1).foldl (fun c ret => xorAt c ret (buf (1020 + ret) <<< UInt8.ofNat ret))
    ((List.range 255).foldl (fun c t => stride buf c (4 * t)) (reseed checksumSeed c)) k = _
  rw [hlast, strides_lane, UInt8.xor_assoc, ← xorOver_range_succ]
  rfl

theorem contribution_zero (k : Fin 4) : contribution (fun _ => 0) k = 0 := by
  unfold contribution
  rw [xorOver_congr (g := fun _ => 0), xorOver_zero]
  intro i _
  simp

/-- A byte changed at `q` changes one lane, unless it stands behind 1020. -/
theorem contribution_off {buf buf' : Nat → UInt8} {q : Nat} (hoff : ∀ i, i ≠ q → buf' i = buf i) (k : Fin 4) :
    contribution buf' k = contribution buf k
      ^^^ if q < 1021 ∧ q % 4 = k then (buf q ^^^ buf' q) <<< UInt8.ofNat k else 0 := by
  have hterm : ∀ i ∈ Finset.range 1021, (if i % 4 = k then buf' i <<< UInt8.ofNat k else 0)
      = (if i % 4 = k then buf i <<< UInt8.ofNat k else 0)
        ^^^ if i = q then (if q % 4 = k then (buf q ^^^ buf' q) <<< UInt8.ofNat k else 0) else 0 := by
    intro i _
    by_cases hi : i = q
    · subst hi
      rw [if_pos rfl]
      split
      · rw [← UInt8.shiftLeft_xor, ← UInt8.xor_assoc, UInt8.xor_self, UInt8.zero_xor]
      · rfl
    · rw [if_neg hi, UInt8.xor_zero, hoff i hi]
  unfold contribution
  rw [xorOver_congr hterm, xorOver_xor, xorOver_single]
  simp only [Finset.mem_range]
  split <;> split <;> simp_all

/-! ## §2. A run. -/

/-- What the chunks feed, each with what the buffer held before. -/
def contributions : (Nat → UInt8) → List Bytes → List Checksum
  | _, [] => []
  | buf, chunk :: chunks => contribution (readInto buf chunk) :: contributions (readInto buf chunk) chunks

theorem checksumLoop_chunks : ∀ (chunks : List Bytes) (buf : Nat → UInt8) (c : Checksum),
    (∀ chunk ∈ chunks, 1 ≤ chunk.length)
      → checksumLoop buf (chunks.map some) c = (0, feedAll checksumSeed c (contributions buf chunks)) := by
  intro chunks
  induction chunks with
  | nil => intro buf c _; rfl
  | cons chunk chunks ih =>
      intro buf c hlen
      have hchunk : ¬ chunk.length = 0 := by
        have h := hlen chunk List.mem_cons_self
        omega
      have hstep : computeChecksum (readInto buf chunk) checksumBufSize c
          = fun k => reseed checksumSeed c k ^^^ contribution (readInto buf chunk) k :=
        funext (computeChecksum_lane (readInto buf chunk) c)
      have htail : ∀ chunk' ∈ chunks, 1 ≤ chunk'.length := fun chunk' h => hlen chunk' (List.mem_cons_of_mem chunk h)
      rw [List.map_cons, checksumLoop, if_neg hchunk]
      show checksumLoop (readInto buf chunk) (chunks.map some) (computeChecksum (readInto buf chunk) checksumBufSize c) = _
      rw [hstep, ih (readInto buf chunk) _ htail]
      rfl

/-! ## §3. Nothing left behind. -/

theorem readInto_zeros {buf : Nat → UInt8} {chunk : Bytes} (hbuf : ∀ i, 1 ≤ i → buf i = 0) (hlen : 1 ≤ chunk.length)
    (hzero : ∀ b ∈ chunk, b = 0) : readInto buf chunk = fun _ => 0 := by
  funext i
  show chunk.getD i (buf i) = 0
  by_cases hi : i < chunk.length
  · rw [List.getD_eq_getElem chunk (buf i) hi]
    exact hzero _ (List.getElem_mem hi)
  · rw [List.getD_eq_default chunk (buf i) (by omega)]
    exact hbuf i (by omega)

/-- Behind a first byte only, chunks of zeros feed nothing. -/
theorem contributions_zeros : ∀ (chunks : List Bytes) (buf : Nat → UInt8), (∀ i, 1 ≤ i → buf i = 0)
    → (∀ chunk ∈ chunks, 1 ≤ chunk.length) → (∀ b ∈ chunks.flatten, b = 0)
    → contributions buf chunks = List.replicate chunks.length (fun _ => 0) := by
  intro chunks
  induction chunks with
  | nil => intro buf _ _ _; rfl
  | cons chunk chunks ih =>
      intro buf hbuf hlen hzero
      have hread : readInto buf chunk = fun _ => 0 :=
        readInto_zeros hbuf (hlen chunk List.mem_cons_self)
          (fun b hb => hzero b (List.mem_flatten.mpr ⟨chunk, List.mem_cons_self, hb⟩))
      have hfeeds : contribution (fun _ => 0) = fun _ => 0 := funext contribution_zero
      have hrest : contributions (fun _ => 0) chunks = List.replicate chunks.length (fun _ => 0) := by
        apply ih _ (fun _ _ => rfl) (fun chunk' h => hlen chunk' (List.mem_cons_of_mem chunk h))
        intro b hb
        apply hzero b
        rw [List.flatten_cons]
        exact List.mem_append_right chunk hb
      rw [contributions, hread, hfeeds, hrest]
      rfl

/-- Two bytes of a buffer at most: the first lane has the first of them, the last lane nothing. -/
theorem contribution_two {buf : Nat → UInt8} (hbuf : ∀ i, 2 ≤ i → buf i = 0) :
    contribution buf 0 = buf 0 ∧ contribution buf 3 = 0 := by
  constructor
  · unfold contribution
    rw [xorOver_congr (g := fun i => if i = 0 then buf 0 else 0), xorOver_single, if_pos (by simp)]
    intro i _
    by_cases hi : i = 0
    · subst hi
      simp
    · rw [if_neg hi]
      split
      · rename_i hmod
        have hmod : i % 4 = 0 := hmod
        rw [hbuf i (by omega)]
        rfl
      · rfl
  · unfold contribution
    rw [xorOver_congr (g := fun _ => 0), xorOver_zero]
    intro i _
    split
    · rename_i hmod
      have hmod : i % 4 = 3 := hmod
      rw [hbuf i (by omega)]
      rfl
    · rfl

/-- The exclusive or of the first bytes. -/
def firstBytes : List Bytes → UInt8
  | [] => 0
  | chunk :: chunks => chunk.headD 0 ^^^ firstBytes chunks

theorem firstBytes_append (chunks chunks' : List Bytes) :
    firstBytes (chunks ++ chunks') = firstBytes chunks ^^^ firstBytes chunks' := by
  induction chunks with
  | nil => exact UInt8.zero_xor.symm
  | cons chunk chunks ih =>
      show chunk.headD 0 ^^^ firstBytes (chunks ++ chunks') = chunk.headD 0 ^^^ firstBytes chunks ^^^ firstBytes chunks'
      rw [ih, UInt8.xor_assoc]

/-- A run over chunks of one or two bytes. -/
theorem total_small : ∀ (chunks : List Bytes) (buf : Nat → UInt8), (∀ i, 2 ≤ i → buf i = 0)
    → (∀ chunk ∈ chunks, 1 ≤ chunk.length ∧ chunk.length ≤ 2)
    → xorTotal (contributions buf chunks) 0 = firstBytes chunks ∧ xorTotal (contributions buf chunks) 3 = 0 := by
  intro chunks
  induction chunks with
  | nil => intro buf _ _; exact ⟨rfl, rfl⟩
  | cons chunk chunks ih =>
      intro buf hbuf hlen
      have hchunk := hlen chunk List.mem_cons_self
      have hread : ∀ i, 2 ≤ i → readInto buf chunk i = 0 := by
        intro i hi
        show chunk.getD i (buf i) = 0
        rw [List.getD_eq_default chunk (buf i) (by omega)]
        exact hbuf i hi
      have hfirst : readInto buf chunk 0 = chunk.headD 0 := by
        cases chunk with
        | nil => exact absurd hchunk.1 (by decide)
        | cons b chunk => rfl
      -- what the buffer holds of earlier chunks is its second byte only
      have hfeeds := contribution_two hread
      have hrest := ih (readInto buf chunk) hread (fun chunk' h => hlen chunk' (List.mem_cons_of_mem chunk h))
      constructor
      · show contribution (readInto buf chunk) 0 ^^^ xorTotal (contributions (readInto buf chunk) chunks) 0 = _
        rw [hfeeds.1, hrest.1, hfirst]
        rfl
      · show contribution (readInto buf chunk) 3 ^^^ xorTotal (contributions (readInto buf chunk) chunks) 3 = _
        rw [hfeeds.2, hrest.2]
        rfl

/-! ## §4. Two deliveries of one file. -/

theorem getChecksumForFile_chunks (chunks : List Bytes) (c : Checksum) (hlen : ∀ chunk ∈ chunks, 1 ≤ chunk.length) :
    getChecksumForFile (chunks.map some) c = (0, feedAll checksumSeed c (contributions (fun _ => 0) chunks)) :=
  checksumLoop_chunks chunks (fun _ => 0) c hlen

/-- Single bytes. -/
def singles (content : Bytes) : List Bytes := content.map (fun b => [b])

theorem flatten_singles (content : Bytes) : (singles content).flatten = content := by
  induction content with
  | nil => rfl
  | cons b content ih => exact congrArg (b :: ·) ih

theorem length_of_mem_singles {content chunk : Bytes} (h : chunk ∈ singles content) : chunk.length = 1 := by
  obtain ⟨b, _, rfl⟩ := List.mem_map.mp h
  rfl

/-- Two bytes in one chunk, where all others come alone. -/
def paired (before : Bytes) (x y : UInt8) (behind : Bytes) : List Bytes := singles before ++ [x, y] :: singles behind

/-- The same bytes in chunks of one. -/
def unpaired (before : Bytes) (x y : UInt8) (behind : Bytes) : List Bytes := singles before ++ [x] :: [y] :: singles behind

theorem unpaired_eq (before : Bytes) (x y : UInt8) (behind : Bytes) :
    unpaired before x y behind = singles (before ++ x :: y :: behind) := by
  unfold unpaired singles
  rw [List.map_append]
  rfl

theorem length_of_mem_paired {before behind chunk : Bytes} {x y : UInt8} (h : chunk ∈ paired before x y behind) :
    1 ≤ chunk.length ∧ chunk.length ≤ 2 := by
  rcases List.mem_append.mp h with h | h
  · have hone := length_of_mem_singles h
    omega
  · rcases List.mem_cons.mp h with rfl | h
    · exact ⟨by show 1 ≤ 2; omega, Nat.le_refl 2⟩
    · have hone := length_of_mem_singles h
      omega

theorem length_of_mem_unpaired {before behind chunk : Bytes} {x y : UInt8} (h : chunk ∈ unpaired before x y behind) :
    1 ≤ chunk.length ∧ chunk.length ≤ 2 := by
  rw [unpaired_eq] at h
  have hone := length_of_mem_singles h
  omega

/-- A second byte that is not zero counts in a chunk of its own, and not behind the first. -/
theorem paired_apart (before : Bytes) (x : UInt8) {y : UInt8} (hy : y ≠ 0) (behind : Bytes) (c : Checksum) :
    feedAll checksumSeed c (contributions (fun _ => 0) (paired before x y behind))
      ≠ feedAll checksumSeed c (contributions (fun _ => 0) (unpaired before x y behind)) := by
  have hpaired := total_small (paired before x y behind) (fun _ => 0) (fun _ _ => rfl)
    (fun _ h => length_of_mem_paired h)
  have hunpaired := total_small (unpaired before x y behind) (fun _ => 0) (fun _ _ => rfl)
    (fun _ h => length_of_mem_unpaired h)
  apply feedAll_apart (j := 3) (k := 0) (by decide)
  · rw [hpaired.2, hunpaired.2]
  · rw [hpaired.1, hunpaired.1]
    unfold paired unpaired
    rw [firstBytes_append, firstBytes_append]
    intro h
    have hrest : x ^^^ firstBytes (singles behind) = x ^^^ (y ^^^ firstBytes (singles behind)) :=
      (UInt8.xor_right_inj _).mp h
    have hzero : 0 ^^^ firstBytes (singles behind) = y ^^^ firstBytes (singles behind) := by
      rw [UInt8.zero_xor]
      exact (UInt8.xor_right_inj x).mp hrest
    exact hy ((UInt8.xor_left_inj _).mp hzero).symm

/-- One byte at the front of a lane. -/
def oneByte (x : UInt8) : Checksum := ![x, 0, 0, 0]

theorem contribution_oneByte (x : UInt8) : contribution (fun i => if i = 0 then x else 0) = oneByte x := by
  have hoff : ∀ i, i ≠ 0 → (if i = 0 then x else 0) = (fun _ : Nat => (0 : UInt8)) i := fun i hi => if_neg hi
  funext k
  rw [contribution_off hoff, contribution_zero]
  fin_cases k <;> simp [oneByte]

/-- What a first byte leaves, with zeros behind it, is zero for one checksum only. -/
theorem first_zero_iff (x : UInt8) (c : Checksum) :
    (∀ k, reseed checksumSeed c k ^^^ oneByte x k = 0) ↔ x ≠ 0 ∧ c = oneByte x := by
  constructor
  · intro h
    by_cases hc : ∀ k, c k = 0
    · have h3 := h 3
      unfold reseed at h3
      rw [if_pos hc] at h3
      exact absurd h3 (show (0x0b ^^^ 0 : UInt8) ≠ 0 by decide)
    · have hstay : reseed checksumSeed c = c := if_neg hc
      have hall : ∀ k, c k = oneByte x k := by
        intro k
        have hk := h k
        rw [hstay, UInt8.xor_eq_zero_iff] at hk
        exact hk
      refine ⟨?_, funext hall⟩
      intro hx
      apply hc
      intro k
      rw [hall k, hx]
      fin_cases k <;> rfl
  · intro h k
    obtain ⟨hx, rfl⟩ := h
    rw [reseed_of_ne (k := 0) hx, UInt8.xor_self]

/-- A file of zeros behind its first byte: only whether it came in one chunk can count. -/
theorem feedAll_tail_zero {chunks : List Bytes} {x : UInt8} {rest : Bytes} (hflat : chunks.flatten = x :: rest)
    (hlen : ∀ chunk ∈ chunks, 1 ≤ chunk.length) (hzero : ∀ b ∈ rest, b = 0) (c : Checksum) :
    feedAll checksumSeed c (contributions (fun _ => 0) chunks)
      = if chunks.length = 1 then fun k => reseed checksumSeed c k ^^^ oneByte x k
        else reseed checksumSeed (fun k => reseed checksumSeed c k ^^^ oneByte x k) := by
  cases chunks with
  | nil => exact absurd hflat (by simp)
  | cons chunk chunks =>
      cases chunk with
      | nil => exact absurd (hlen [] List.mem_cons_self) (by simp)
      | cons b chunk =>
          have hx : b = x := (List.cons.inj hflat).1
          have hrest : chunk ++ chunks.flatten = rest := (List.cons.inj hflat).2
          -- the first chunk leaves one byte in the buffer, the others zeros
          have hread : readInto (fun _ => 0) (b :: chunk) = fun i => if i = 0 then x else 0 := by
            funext i
            cases i with
            | zero => exact hx
            | succ i =>
                have hzeros : ∀ d ∈ 0 :: chunk, d = 0 := by
                  intro d hd
                  rcases List.mem_cons.mp hd with rfl | hd
                  · rfl
                  · exact hzero d (hrest ▸ List.mem_append_left _ hd)
                have hread : readInto (fun _ => 0) (0 :: chunk) = fun _ => 0 :=
                  readInto_zeros (fun _ _ => rfl) (Nat.succ_le_succ (Nat.zero_le _)) hzeros
                exact congrFun hread (i + 1)
          have hmore : contributions (fun i => if i = 0 then x else 0) chunks
              = List.replicate chunks.length (fun _ => 0) := by
            apply contributions_zeros
            · intro i hi
              exact if_neg (by omega)
            · exact fun chunk' h => hlen chunk' (List.mem_cons_of_mem _ h)
            · exact fun d hd => hzero d (hrest ▸ List.mem_append_right _ hd)
          rw [contributions, hread, hmore, contribution_oneByte]
          cases chunks with
          | nil => rfl
          | cons chunk' chunks => exact feedAll_zeros (j := 3) (by decide) _ chunks.length

theorem delivers_paired (before : Bytes) (x y : UInt8) (behind : Bytes) :
    Delivers ((paired before x y behind).map some) (before ++ x :: y :: behind) := by
  refine ⟨_, rfl, ?_, fun chunk h => ?_⟩
  · unfold paired
    rw [List.flatten_append, List.flatten_cons, flatten_singles, flatten_singles]
    rfl
  · have hlen := length_of_mem_paired h
    exact ⟨hlen.1, Nat.le_trans hlen.2 (by decide)⟩

theorem delivers_unpaired (before : Bytes) (x y : UInt8) (behind : Bytes) :
    Delivers ((unpaired before x y behind).map some) (before ++ x :: y :: behind) := by
  refine ⟨_, rfl, ?_, fun chunk h => ?_⟩
  · rw [unpaired_eq, flatten_singles]
  · have hlen := length_of_mem_unpaired h
    exact ⟨hlen.1, Nat.le_trans hlen.2 (by decide)⟩

/-- The value that a delivery leaves in `*checksum`. -/
theorem delivers_checksum {reads : List (Option Bytes)} {content : Bytes} (h : Delivers reads content) (c : Checksum) :
    ∃ chunks : List Bytes, chunks.flatten = content
      ∧ (∀ chunk ∈ chunks, 1 ≤ chunk.length ∧ chunk.length ≤ checksumBufSize)
      ∧ (getChecksumForFile reads c).2 = feedAll checksumSeed c (contributions (fun _ => 0) chunks) := by
  obtain ⟨chunks, rfl, hflat, hlen⟩ := h
  refine ⟨chunks, hflat, hlen, ?_⟩
  rw [getChecksumForFile_chunks chunks c (fun chunk h => (hlen chunk h).1)]

theorem chunks_bounds : ∀ chunks : List Bytes,
    (∀ chunk ∈ chunks, 1 ≤ chunk.length ∧ chunk.length ≤ checksumBufSize)
      → chunks.length ≤ chunks.flatten.length ∧ chunks.flatten.length ≤ checksumBufSize * chunks.length := by
  intro chunks
  induction chunks with
  | nil => intro _; exact ⟨Nat.le_refl 0, Nat.le_refl 0⟩
  | cons chunk chunks ih =>
      intro hlen
      have hchunk := hlen chunk List.mem_cons_self
      have hrest := ih (fun chunk' h => hlen chunk' (List.mem_cons_of_mem chunk h))
      rw [List.flatten_cons, List.length_append, List.length_cons, Nat.mul_add]
      omega

/-- All deliveries of a content of zeros behind its first byte agree, where they all come in
one chunk, or none does, or the first chunk leaves a checksum that is not zero. -/
theorem tail_zero_agrees {x : UInt8} {rest : Bytes} {c : Checksum} (hzero : ∀ b ∈ rest, b = 0)
    (hcase : rest = [] ∨ checksumBufSize ≤ rest.length ∨ ¬ (x ≠ 0 ∧ c = oneByte x))
    {reads reads' : List (Option Bytes)} (h : Delivers reads (x :: rest)) (h' : Delivers reads' (x :: rest)) :
    (getChecksumForFile reads c).2 = (getChecksumForFile reads' c).2 := by
  obtain ⟨chunks, hflat, hlen, hsum⟩ := delivers_checksum h c
  obtain ⟨chunks', hflat', hlen', hsum'⟩ := delivers_checksum h' c
  have hbounds := chunks_bounds chunks hlen
  have hbounds' := chunks_bounds chunks' hlen'
  have hsize : checksumBufSize = 1024 := rfl
  rw [hflat, List.length_cons, hsize] at hbounds
  rw [hflat', List.length_cons, hsize] at hbounds'
  rw [hsum, hsum', feedAll_tail_zero hflat (fun chunk h => (hlen chunk h).1) hzero,
    feedAll_tail_zero hflat' (fun chunk h => (hlen' chunk h).1) hzero]
  rcases hcase with hrest | hlong | hfirst
  · rw [hrest, List.length_nil] at hbounds hbounds'
    rw [if_pos (by omega), if_pos (by omega)]
  · rw [if_neg (by omega), if_neg (by omega)]
  · have hstay : reseed checksumSeed (fun k => reseed checksumSeed c k ^^^ oneByte x k)
        = fun k => reseed checksumSeed c k ^^^ oneByte x k := if_neg ((first_zero_iff x c).not.mpr hfirst)
    rw [hstay, ite_self, ite_self]

/-- Where they all agree, every byte behind the first is zero. -/
theorem tail_zero_of_agrees {x : UInt8} {rest : Bytes} {c : Checksum}
    (hagree : ∀ reads reads', Delivers reads (x :: rest) → Delivers reads' (x :: rest)
      → (getChecksumForFile reads c).2 = (getChecksumForFile reads' c).2) : ∀ b ∈ rest, b = 0 := by
  intro y hy
  by_contra hne
  -- `y` and the byte before it, in one chunk and in two
  obtain ⟨s, behind, rfl⟩ := List.append_of_mem hy
  obtain ⟨before, w, hw⟩ : ∃ before w, x :: s = before ++ [w] :=
    ⟨_, _, (List.dropLast_concat_getLast (List.cons_ne_nil x s)).symm⟩
  have hcontent : x :: (s ++ y :: behind) = before ++ w :: y :: behind := by
    rw [← List.cons_append, hw, List.append_assoc]
    rfl
  have hsame := hagree ((paired before w y behind).map some) ((unpaired before w y behind).map some)
    (hcontent ▸ delivers_paired before w y behind) (hcontent ▸ delivers_unpaired before w y behind)
  rw [getChecksumForFile_chunks _ c (fun _ h => (length_of_mem_paired h).1),
    getChecksumForFile_chunks _ c (fun _ h => (length_of_mem_unpaired h).1)] at hsame
  exact paired_apart before w hne behind c hsame

/-- A chunk and the rest of the file in one, when the first byte is the checksum itself. -/
theorem first_of_agrees {x : UInt8} {rest : Bytes} {c : Checksum} (hzero : ∀ b ∈ rest, b = 0) (hne : rest ≠ [])
    (hshort : rest.length < checksumBufSize)
    (hagree : ∀ reads reads', Delivers reads (x :: rest) → Delivers reads' (x :: rest)
      → (getChecksumForFile reads c).2 = (getChecksumForFile reads' c).2) : ¬ (x ≠ 0 ∧ c = oneByte x) := by
  intro hfirst
  have hpos : 1 ≤ rest.length := List.length_pos_iff.mpr hne
  have hsize : checksumBufSize = 1024 := rfl
  have hlen : ∀ chunk ∈ [x :: rest], 1 ≤ chunk.length ∧ chunk.length ≤ checksumBufSize := by
    intro chunk h
    rw [List.mem_singleton.mp h, List.length_cons]
    omega
  have hlen' : ∀ chunk ∈ [[x], rest], 1 ≤ chunk.length ∧ chunk.length ≤ checksumBufSize := by
    intro chunk h
    rcases List.mem_pair.mp h with rfl | rfl
    · exact ⟨Nat.le_refl 1, by show 1 ≤ 1024; omega⟩
    · omega
  have hflat : [x :: rest].flatten = x :: rest := List.flatten_singleton
  have hflat' : [[x], rest].flatten = x :: rest := by simp
  have hsame := hagree ([x :: rest].map some) ([[x], rest].map some) ⟨_, rfl, hflat, hlen⟩ ⟨_, rfl, hflat', hlen'⟩
  rw [getChecksumForFile_chunks _ c (fun chunk h => (hlen chunk h).1),
    getChecksumForFile_chunks _ c (fun chunk h => (hlen' chunk h).1)] at hsame
  -- one chunk leaves zero, and the second one would find it and reseed
  have hleft := hfirst
  rw [← first_zero_iff x c] at hleft
  have hzeros : (fun k => reseed checksumSeed c k ^^^ oneByte x k) = fun _ => 0 := funext hleft
  have hend : feedAll checksumSeed c (contributions (fun _ => 0) [x :: rest])
      = feedAll checksumSeed c (contributions (fun _ => 0) [[x], rest]) := hsame
  rw [feedAll_tail_zero hflat (fun chunk h => (hlen chunk h).1) hzero,
    feedAll_tail_zero hflat' (fun chunk h => (hlen' chunk h).1) hzero, hzeros, reseed_zero] at hend
  exact absurd (congrFun hend 0) (show (0 : UInt8) ≠ 0xba by decide)

/-- **The checksum and the deliveries.**  For every content and every initial checksum: all
ways in which the content may be delivered leave the same value if and only if it is one
byte at most, or zero behind its first byte where, besides, it does not fit the buffer, or
the first byte is zero, or the initial checksum is other than this byte and three zeros. -/
theorem file_checksum_agrees_iff (content : Bytes) (checksum : Checksum) :
    (∀ reads reads', Delivers reads content → Delivers reads' content
      → (getChecksumForFile reads checksum).2 = (getChecksumForFile reads' checksum).2)
    ↔ content.length ≤ 1
      ∨ ((∀ b ∈ content.tail, b = 0)
        ∧ (checksumBufSize < content.length ∨ content.headD 0 = 0 ∨ checksum ≠ ![content.headD 0, 0, 0, 0])) := by
  constructor
  · intro hagree
    by_cases hshort : content.length ≤ 1
    · exact Or.inl hshort
    · right
      cases content with
      | nil => exact absurd (Nat.zero_le 1) hshort
      | cons x rest =>
          have hne : rest ≠ [] := by
            intro hnil
            rw [hnil] at hshort
            exact hshort (Nat.le_refl 1)
          -- one more byte behind the first, so the reads can be cut there
          have hzero := tail_zero_of_agrees hagree
          refine ⟨hzero, ?_⟩
          by_cases hfit : rest.length < checksumBufSize
          · right
            have hfirst := first_of_agrees hzero hne hfit hagree
            by_cases hx : x = 0
            · exact Or.inl hx
            · exact Or.inr (fun hc => hfirst ⟨hx, hc⟩)
          · left
            rw [List.length_cons]
            omega
  · intro hcond reads reads' h h'
    cases content with
    | nil =>
        obtain ⟨chunks, rfl, hflat, hlen⟩ := h
        obtain ⟨chunks', rfl, hflat', hlen'⟩ := h'
        have hbounds := (chunks_bounds chunks hlen).1
        have hbounds' := (chunks_bounds chunks' hlen').1
        rw [hflat] at hbounds
        rw [hflat'] at hbounds'
        rw [List.length_eq_zero_iff.mp (Nat.le_zero.mp hbounds), List.length_eq_zero_iff.mp (Nat.le_zero.mp hbounds')]
    | cons x rest =>
        rcases hcond with hshort | ⟨hzero, hcase⟩
        · have hnil : rest = [] := by
            rw [List.length_cons] at hshort
            exact List.length_eq_zero_iff.mp (by omega)
          exact tail_zero_agrees (hnil ▸ List.forall_mem_nil _) (Or.inl hnil) h h'
        · apply tail_zero_agrees hzero _ h h'
          rcases hcase with hlong | hx | hc
          · exact Or.inr (Or.inl (Nat.lt_succ_iff.mp hlong))
          · exact Or.inr (Or.inr (fun hfirst => hfirst.1 hx))
          · exact Or.inr (Or.inr (fun hfirst => hc hfirst.2))

/-- The bytes 0 and 1, in one chunk and in two. -/
theorem file_checksum_differs : Delivers [some [0, 1]] [0, 1] ∧ Delivers [some [0], some [1]] [0, 1]
    ∧ (getChecksumForFile [some [0, 1]] (fun _ => 0)).2 = ![0xba, 0xbc, 0xb0, 0x0b]
    ∧ (getChecksumForFile [some [0], some [1]] (fun _ => 0)).2 = ![0xbb, 0xbe, 0xb0, 0x0b]
    ∧ (getChecksumForFile [some [0, 1]] (fun _ => 0)).2 ≠ (getChecksumForFile [some [0], some [1]] (fun _ => 0)).2 := by
  have hone : (getChecksumForFile [some [0, 1]] (fun _ => 0)).2 = ![0xba, 0xbc, 0xb0, 0x0b] := by decide +kernel
  have htwo : (getChecksumForFile [some [0], some [1]] (fun _ => 0)).2 = ![0xbb, 0xbe, 0xb0, 0x0b] := by decide +kernel
  refine ⟨delivers_paired [] 0 1 [], delivers_unpaired [] 0 1 [], hone, htwo, ?_⟩
  rw [hone, htwo]
  decide

end LzLib.CommonUtils
