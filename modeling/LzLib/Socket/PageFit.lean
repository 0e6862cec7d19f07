/-
  LzLib.Socket.PageFit
  ────────────────────
  **THE PAYLOAD AND ITS PAGE.**

  A header announces up to 131072 bytes of payload, and the machine installs
  all of them over one iobuf, whose page is as large as the pool it comes
  from says.  Nobody compares the two: the payload fits, and no read leaves
  the page, exactly when the header announces no more than a page
  (`payload_fits_iff`).
-/
import LzLib.Socket.Framing
import LzLib.Iobuf.PoolRuns

namespace LzLib.Socket

open LzLib.Foundation LzLib.Iobuf

/-! ## §1. The statement. -/

/-- The page of an iobuf of the pool. -/
def pageOf (pool : Pool) (ptr : Addr) : Block := ⟨ptr, List.replicate pool.pageSize none⟩

/-- No piece of the vector over the page exceeds it. -/
def VectorFits (pool : Pool) (inc : Incoming) : Prop :=
  ∀ iov ∈ inc.pendingVector, iov.base = .buf → iov.off + iov.iovLen ≤ pool.pageSize

/-- No read leaves the memory it is given, whatever the stream and the system
calls do. -/
def ReadsFit (env : PollIn) (inc : Incoming) : Prop :=
  ∀ script inbound, caseDataComing { env with dataScript := script } ⟨inbound, inc⟩ ≠ none

/-- The payload that a header announces is no larger than a page. -/
def Announced (header : Bytes) (pageSize : Nat) : Prop :=
  ∀ size2, getWordU (header.drop 7) = some size2 → size2 ≤ pageSize

theorem getWordU_of_validateHeader {header : Bytes} {size1 size2 : Nat}
    (h : validateHeader header = some (size1, size2)) : getWordU (header.drop 7) = some size2 := by
  unfold validateHeader at h
  split at h
  · cases h
  · split at h
    · cases h
    · obtain ⟨n1, -, h⟩ := Option.bind_eq_some_iff.mp h
      obtain ⟨n2, hn2, h⟩ := Option.bind_eq_some_iff.mp h
      split at h
      · cases h
      · split at h
        · cases h
        · cases h
          exact hn2

theorem announced_iff {header : Bytes} {size1 size2 pageSize : Nat}
    (h : validateHeader header = some (size1, size2)) :
    Announced header pageSize ↔ size2 ≤ pageSize := by
  have hword := getWordU_of_validateHeader h
  constructor
  · intro hall
    exact hall size2 hword
  · intro hle n hn
    rw [hword] at hn
    cases hn
    exact hle

/-! ## §2. Reading into the vector of a message. -/

section

variable {mem : Landing} {size1 size2 : Nat} {hdr : Block}

/-- The header block and, where there is a payload, the page are large enough. -/
theorem writable_of_fits (hhdr : mem.hdrP = some hdr) (hlen : size1 ≤ hdr.mem.length)
    (hpage : size2 = 0 ∨ ∃ page, mem.iobuf = some page ∧ size2 ≤ page.mem.length) :
    Writable landingStore mem (dataVector size1 size2) := by
  intro bs hbs
  rw [total_dataVector] at hbs
  -- the header block takes the first `size1` bytes
  have hput : mem.put .hdr 0 (bs.take size1)
      = some { mem with hdrP := some (hdr.front (bs.take size1)) } :=
    put_hdr hhdr (by
      rw [List.length_take]
      omega)
  show ∃ mem', (mem.put .hdr 0 (bs.take size1)).bind (scatter landingStore
    (if size2 ≠ 0 then [⟨.buf, 0, size2⟩] else []) (bs.drop size1)) = some mem'
  rw [hput, Option.bind_some]
  rcases hpage with rfl | ⟨page, hiobuf, hle⟩
  · exact ⟨_, rfl⟩
  · by_cases h2 : size2 = 0
    · subst h2
      exact ⟨_, rfl⟩
    · -- the page takes what is left, at most `size2` bytes
      have hshort : ((bs.drop size1).take size2).length ≤ page.mem.length := by
        rw [List.length_take]
        omega
      have hbuf : ∀ mem' : Landing, mem'.iobuf = some page →
          ∃ mem'', (mem'.put .buf 0 ((bs.drop size1).take size2)).bind some = some mem'' := by
        intro mem' hmem'
        rw [put_buf hmem' hshort]
        exact ⟨_, rfl⟩
      rw [if_pos h2]
      exact hbuf _ hiobuf

/-- Bytes that leave the page have no outcome. -/
theorem put_overrun {page : Block} (hiobuf : mem.iobuf = some page) {bs : Bytes}
    (hlt : page.mem.length < bs.length) : mem.put .buf 0 bs = none := by
  have hne : bs ≠ [] := by
    intro hnil
    rw [hnil, List.length_nil] at hlt
    omega
  have hout : overwrite page.mem 0 (bs.map some) = none := by
    unfold overwrite
    rw [if_neg]
    rintro (hnil | hle)
    · exact hne (List.map_eq_nil_iff.mp hnil)
    · rw [List.length_map] at hle
      omega
  rw [Landing.put, if_neg hne, hiobuf, Option.bind_some, hout]
  rfl

/-- One call delivers the whole of a vector that has no outcome. -/
theorem readv_overrun {v : List (IoVec Dest)} {bs : Bytes} (hlen : bs.length = total v)
    (hpos : 0 < total v) (hmax : total v ≤ maxRwCount) (hnone : scatter landingStore v bs mem = none) :
    readv landingStore (.data (total v)) ⟨bs, mem⟩ v = none := by
  have hmoved : min (total v) (min (total v) (min maxRwCount bs.length)) = total v := by omega
  have hmore : ¬ (total v = 0 ∧ 0 < total v) := by omega
  simp only [readv, hmoved, if_neg hmore, List.take_of_length_le (Nat.le_of_eq hlen), hnone]
  rfl

theorem scatter_overrun {page : Block} (hhdr : mem.hdrP = some hdr) (hlen : size1 ≤ hdr.mem.length)
    (hiobuf : mem.iobuf = some page) (hlt : page.mem.length < size2) {bs : Bytes}
    (hbs : bs.length = size1 + size2) :
    scatter landingStore (dataVector size1 size2) bs mem = none := by
  have hput : mem.put .hdr 0 (bs.take size1)
      = some { mem with hdrP := some (hdr.front (bs.take size1)) } :=
    put_hdr hhdr (by
      rw [List.length_take]
      omega)
  have hrest : ((bs.drop size1).take size2).length = size2 := by
    rw [List.length_take, List.length_drop]
    omega
  have hbuf : ∀ mem' : Landing, mem'.iobuf = some page →
      (mem'.put .buf 0 ((bs.drop size1).take size2)).bind some = none := by
    intro mem' hmem'
    rw [put_overrun hmem' (by omega)]
    rfl
  have h2 : size2 ≠ 0 := by omega
  show (mem.put .hdr 0 (bs.take size1)).bind (scatter landingStore
    (if size2 ≠ 0 then [⟨.buf, 0, size2⟩] else []) (bs.drop size1)) = none
  rw [hput, Option.bind_some, if_pos h2]
  exact hbuf _ hiobuf

end

/-! ## §3. The machine. -/

section

variable {pool : Pool} {env : PollIn} {size1 size2 : Nat} {a ptr : Addr} {inc : Incoming}

/-- Where the machine is once the header block and the page have been
allocated: the vector is installed over them. -/
structure Installed (pool : Pool) (size1 size2 : Nat) (a ptr : Addr) (inc : Incoming) : Prop where
  state : inc.state = .dataComing
  vector : inc.pendingVector = dataVector size1 size2
  count : inc.pendingCount = inc.pendingVector.length
  hdr : inc.mem.hdrP = some ⟨a, List.replicate size1 none⟩
  page : size2 ≠ 0 → inc.mem.iobuf = some (pageOf pool ptr)
  sizes : 0 < size1 ∧ size1 ≤ maxSize1 ∧ size2 ≤ maxSize2

/-- An accepted header installs its payload over the page, unexamined. -/
theorem headerCame_installs {s : Reader} (hstate : s.incoming.state = .headerCame)
    (hvalid : validateHeader s.incoming.mem.header = some (size1, size2)) (hmalloc : env.malloc = some a)
    (hpage : env.iobuf = some (pageOf pool ptr)) (ret : Int) :
    ∃ inc, protoRound env ret s = some (.next 0 ⟨s.inbound, inc⟩) ∧ Installed pool size1 size2 a ptr inc := by
  have hsizes := (validateHeader_eq hvalid).2
  have hround : protoRound env ret s = some (caseHeaderCame env s) := by
    unfold protoRound
    rw [hstate]
  rw [hround, caseHeaderCame, hvalid]
  by_cases h2 : size2 = 0
  · subst h2
    refine ⟨installVector (allocHdr env s.incoming size1 0) size1 0, rfl, rfl, rfl, rfl, ?_, ?_, hsizes⟩
    · show env.malloc.map _ = _
      rw [hmalloc]
      rfl
    · intro hne
      exact absurd rfl hne
  · simp only [if_pos h2, hpage]
    refine ⟨_, rfl, rfl, rfl, rfl, ?_, fun _ => rfl, hsizes⟩
    show env.malloc.map _ = _
    rw [hmalloc]
    rfl

theorem Installed.vectorFits_iff (I : Installed pool size1 size2 a ptr inc) :
    VectorFits pool inc ↔ size2 ≤ pool.pageSize := by
  unfold VectorFits
  rw [I.vector, dataVector]
  by_cases h2 : size2 = 0
  · subst h2
    refine iff_of_true ?_ (Nat.zero_le _)
    intro iov hiov hbuf
    rw [List.mem_singleton.mp hiov] at hbuf
    cases hbuf
  · rw [if_pos h2]
    constructor
    · intro hall
      have hlast := hall ⟨.buf, 0, size2⟩ (by simp) rfl
      rw [← Nat.zero_add size2]
      exact hlast
    · intro hle iov hiov hbuf
      rcases List.mem_cons.mp hiov with rfl | hiov
      · cases hbuf
      · rw [List.mem_singleton.mp hiov]
        show 0 + size2 ≤ pool.pageSize
        omega

/-- What fits is read inside the page. -/
theorem Installed.reads (I : Installed pool size1 size2 a ptr inc) (hle : size2 ≤ pool.pageSize) :
    ReadsFit env inc := by
  intro script inbound
  have hlen : size1 ≤ (List.replicate size1 (none : Option UInt8)).length :=
    Nat.le_of_eq List.length_replicate.symm
  have hpage : size2 = 0 ∨ ∃ page, inc.mem.iobuf = some page ∧ size2 ≤ page.mem.length := by
    by_cases h2 : size2 = 0
    · exact Or.inl h2
    · refine Or.inr ⟨_, I.page h2, ?_⟩
      show size2 ≤ (List.replicate pool.pageSize none).length
      rw [List.length_replicate]
      exact hle
  have hwritable := writable_of_fits I.hdr hlen hpage
  have htrim : Trim (dataVector size1 size2) := I.sizes.1
  have hread : ∃ got, Reading landingStore inbound inc.mem (dataVector size1 size2)
      (Reader.side ⟨inbound, inc⟩) inc.pendingVector got :=
    ⟨[], rfl, scatter_nil _ _ _, by rw [I.vector]; exact (skip_zero htrim).symm, Nat.zero_le _⟩
  obtain ⟨out, got, hout, -, -⟩ := socketReadv_takes hwritable hread script
  unfold caseDataComing
  rw [I.count]
  show (socketReadv _ script _ _ _).map _ ≠ none
  rw [hout]
  exact Option.some_ne_none _

/-- What does not fit leaves the page as soon as all of it has arrived. -/
theorem Installed.overruns (I : Installed pool size1 size2 a ptr inc) (hlt : pool.pageSize < size2) :
    ¬ ReadsFit env inc := by
  intro hreads
  have h2 : size2 ≠ 0 := by omega
  -- a peer that sends the whole frame in one piece
  have hall := hreads [.data (size1 + size2)] (List.replicate (size1 + size2) 0)
  obtain ⟨hpos, hsize1, hsize2⟩ := I.sizes
  have hmax : size1 + size2 ≤ maxRwCount := by
    unfold maxSize1 at hsize1
    unfold maxSize2 at hsize2
    unfold maxRwCount
    omega
  -- so `__socket_rwv` calls `readv` once, with both vectors
  have hcount : ((dataVector size1 size2).length : Int) ≠ 0 ∧ ¬ ((dataVector size1 size2).length : Int) < 0 := by
    unfold dataVector
    rw [List.length_cons]
    omega
  have hnone : scatter landingStore (dataVector size1 size2) (List.replicate (size1 + size2) 0) inc.mem
      = none :=
    scatter_overrun I.hdr (Nat.le_of_eq List.length_replicate.symm) (I.page h2)
      (by
        show (List.replicate pool.pageSize none).length < size2
        rw [List.length_replicate]
        exact hlt) List.length_replicate
  refine hall ?_
  have htotal := total_dataVector size1 size2
  have hcall : readv landingStore (.data (size1 + size2))
      (Reader.side ⟨List.replicate (size1 + size2) 0, inc⟩) (dataVector size1 size2) = none := by
    rw [← htotal] at hnone ⊢
    exact readv_overrun List.length_replicate (by omega) (by omega) hnone
  unfold caseDataComing socketReadv
  rw [I.count, I.vector, socketRwv, if_neg hcount.1, if_neg hcount.2, hcall]
  rfl

end

/-- **THE PAYLOAD FITS ITS PAGE.**  For a pool of any page size, the vector
that an accepted header installs for `SOCKET_PROTO_STATE_DATA_COMING` stays
within the page, and all reads into it do, if and only if the header announces
no more than a page. -/
theorem payload_fits_iff {arenaSize pageSize : Nat} {calloc : Bool} {alloc : AllocEnv} {pool : Pool}
    (hnew : iobufPoolNew arenaSize pageSize calloc alloc = some (some pool)) {env : PollIn} {a ptr : Addr}
    {s : Reader} {size1 size2 : Nat} (hstate : s.incoming.state = .headerCame)
    (hvalid : validateHeader s.incoming.mem.header = some (size1, size2))
    (hmalloc : env.malloc = some a) (hpage : env.iobuf = some (pageOf pool ptr)) (ret : Int) :
    ∃ inc, protoRound env ret s = some (.next 0 ⟨s.inbound, inc⟩) ∧ inc.state = .dataComing ∧
      (VectorFits pool inc ↔ Announced s.incoming.mem.header pageSize) ∧
      (ReadsFit env inc ↔ Announced s.incoming.mem.header pageSize) := by
  obtain ⟨inc, hround, I⟩ := headerCame_installs hstate hvalid hmalloc hpage ret
  have hsize := iobufPoolNew_pageSize hnew
  rw [announced_iff hvalid, ← hsize]
  refine ⟨inc, hround, I.state, I.vectorFits_iff, ?_⟩
  constructor
  · intro hreads
    by_contra hlt
    exact I.overruns (by omega) hreads
  · intro hle
    exact I.reads hle

/-- A header of one byte, with a payload of five. -/
def fiveHeader : Bytes := [0x3a, 0x4f, 0, 0, 0, 0, 1, 0, 0, 0, 5, 42]

/-- The machine at a header that has come, about to get a page of four bytes. -/
def fiveReader : Reader :=
  ⟨[], { Incoming.zero with state := .headerCame, mem := { Incoming.zero.mem with header := fiveHeader } }⟩

/-- The pool of two pages of four bytes. -/
theorem fourBytePool : ∃ pool, iobufPoolNew 8 4 true twoPages = some (some pool) := by
  have hsome : ((iobufPoolNew 8 4 true twoPages).bind id).isSome = true := by decide +kernel
  obtain ⟨pool, hpool⟩ := Option.isSome_iff_exists.mp hsome
  refine ⟨pool, ?_⟩
  cases h : iobufPoolNew 8 4 true twoPages with
  | none =>
      rw [h] at hpool
      cases hpool
  | some r =>
      rw [h] at hpool
      exact congrArg some hpool

/-- What it gets. -/
def fiveEnv (pool : Pool) : PollIn := ⟨[], [], some 1, some (pageOf pool 2)⟩

theorem fiveHeader_valid : validateHeader fiveReader.incoming.mem.header = some (1, 5) := by
  decide +kernel

theorem payload_fits_iff_five :
    ∃ pool inc, iobufPoolNew 8 4 true twoPages = some (some pool) ∧
      protoRound (fiveEnv pool) 0 fiveReader = some (.next 0 ⟨[], inc⟩) ∧ inc.state = .dataComing ∧
      (VectorFits pool inc ↔ Announced fiveHeader 4) ∧
      (ReadsFit (fiveEnv pool) inc ↔ Announced fiveHeader 4) := by
  obtain ⟨pool, hpool⟩ := fourBytePool
  have hmalloc : (fiveEnv pool).malloc = some 1 := rfl
  have hpage : (fiveEnv pool).iobuf = some (pageOf pool 2) := rfl
  obtain ⟨inc, hinc⟩ := payload_fits_iff hpool (s := fiveReader) rfl fiveHeader_valid hmalloc hpage 0
  exact ⟨pool, inc, hpool, hinc⟩

/-- Five bytes are installed over a page of four. -/
theorem fiveHeader_overruns :
    ¬ ∀ (arenaSize pageSize : Nat) (pool : Pool) (env : PollIn) (a ptr : Addr) (s : Reader) (inc : Incoming),
      iobufPoolNew arenaSize pageSize true twoPages = some (some pool) →
      s.incoming.state = .headerCame → validateHeader s.incoming.mem.header ≠ none →
      env.malloc = some a → env.iobuf = some (pageOf pool ptr) →
      protoRound env 0 s = some (.next 0 ⟨s.inbound, inc⟩) → VectorFits pool inc := by
  intro hall
  obtain ⟨pool, hpool⟩ := fourBytePool
  have hsome : validateHeader fiveReader.incoming.mem.header ≠ none := by
    rw [fiveHeader_valid]
    exact Option.some_ne_none _
  have hmalloc : (fiveEnv pool).malloc = some 1 := rfl
  have hpage : (fiveEnv pool).iobuf = some (pageOf pool 2) := rfl
  obtain ⟨inc, hround, I⟩ := headerCame_installs (s := fiveReader) rfl fiveHeader_valid hmalloc hpage 0
  have hfits := hall 8 4 pool (fiveEnv pool) 1 2 fiveReader inc hpool rfl hsome rfl rfl hround
  rw [I.vectorFits_iff, iobufPoolNew_pageSize hpool] at hfits
  omega

end LzLib.Socket
