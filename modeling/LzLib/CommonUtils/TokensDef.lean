/-
  LzLib.CommonUtils.TokensDef
  ───────────────────────────
  **TOKENS OF A STRING** (`common-utils.c`).

  `lz_strsplit` cuts a copy of the string twice: once to count the tokens, once
  to copy them into an array of that size.  `lz_strstr` cuts a copy with
  `strtok_r` until a token is equal to the string that is looked for.

  A loop that cuts is given fuel; `count` and `i` are `int`s.
-/
import LzLib.Foundation.Strings

namespace LzLib.CommonUtils

open LzLib.Foundation

/-- The byte `block[off]`. -/
def byteAt (h : Blocks) (b off : Nat) : Option UInt8 := (h.bytes b).bind fun bs => bs[off]?

/-! ## §1. `lz_strsplit`. -/

/-- What `lz_strsplit` leaves: its status, `*tokens` and `*token_count` (`none`
where the argument is NULL), and the heap. -/
structure Split where
  ret : Int
  tokens : Option (Option Nat)
  tokenCount : Option Int
  blocks : Blocks
  deriving DecidableEq

/-- `CALLOC (count, sizeof (char *))`; the size has to be a `size_t`. -/
def callocTokens (h : Blocks) (alloc : Nat → Bool) (count : Int) : Option Nat × Blocks :=
  let n := (count % 2 ^ 64).toNat
  if n * 8 < 2 ^ 64 then h.allocate alloc (.slots (List.replicate n none)) else (none, h)

/-- The first loop over the pieces: it counts those that are not empty. -/
def countTokens (b : Nat) (delim : CStr) : Nat → Blocks → Option Nat → Int → Option (Int × Blocks)
  | 0, _, _, _ => none
  | fuel + 1, h, running, count =>
      (strsep h b running delim).bind fun cut =>
        match cut.1 with
        | none => some (count, cut.2.2)
        | some token =>
            (byteAt cut.2.2 b token).bind fun c =>
              countTokens b delim fuel cut.2.2 cut.2.1 (if c ≠ 0 then wrap32 (count + 1) else count)

/-- The second loop: it copies them, `token_list[i++] = strdup (token)`, and says
whether each `strdup` succeeded. -/
def copyTokens (b tokenList : Nat) (delim : CStr) (alloc : Nat → Bool) :
    Nat → Blocks → Option Nat → Int → Option (Bool × Int × Blocks)
  | 0, _, _, _ => none
  | fuel + 1, h, running, i =>
      (strsep h b running delim).bind fun cut =>
        match cut.1 with
        | none => some (true, i, cut.2.2)
        | some token =>
            (byteAt cut.2.2 b token).bind fun c =>
              if c = 0 then copyTokens b tokenList delim alloc fuel cut.2.2 cut.2.1 i
              else
                (cut.2.2.strdup alloc b token).bind fun dup =>
                  (dup.2.putSlot tokenList i dup.1).bind fun h =>
                    if dup.1 = none then some (false, wrap32 (i + 1), h)
                    else copyTokens b tokenList delim alloc fuel h cut.2.1 (wrap32 (i + 1))

/-- The loop of `free_exit`: `free (token_list[j])`, for `steps` values of `j`. -/
def freeTokens (tokenList : Nat) : Nat → Int → Blocks → Option Blocks
  | 0, _, h => some h
  | steps + 1, j, h =>
      (h.slot tokenList j).bind fun p => (h.free p).bind fun h => freeTokens tokenList steps (j + 1) h

/-- `lz_strsplit` from the second `strdup` on. -/
def copySplit (str : Nat) (delim : CStr) (tokens : Option (Option Nat)) (tokenCount : Option Int)
    (alloc : Nat → Bool) (fuel : Nat) (count : Int) (h : Blocks) : Option Split :=
  (h.strdup alloc str 0).bind fun dup =>
    match dup.1 with
    | none => some ⟨-1, tokens, tokenCount, dup.2⟩
    | some b =>
        let list := callocTokens dup.2 alloc count
        match list.1 with
        | none => (list.2.free (some b)).map fun h => ⟨-1, tokens, tokenCount, h⟩
        | some tokenList =>
            (copyTokens b tokenList delim alloc fuel list.2 (some 0) 0).bind fun copied =>
              (copied.2.2.free (some b)).bind fun h =>
                if copied.1 then some ⟨0, some (some tokenList), some count, h⟩
                else
                  (freeTokens tokenList copied.2.1.toNat 0 h).bind fun h =>
                    (h.free (some tokenList)).map fun h => ⟨-1, tokens, tokenCount, h⟩

/-- `lz_strsplit`. -/
def lzStrsplit (str : Option Nat) (delim : Option CStr) (tokens : Option (Option Nat)) (tokenCount : Option Int)
    (alloc : Nat → Bool) (h : Blocks) : Option Split :=
  match str, delim, tokens, tokenCount with
  | some str, some delim, some _, some _ =>
      (h.cstr str 0).bind fun s =>
        (h.strdup alloc str 0).bind fun dup =>
          match dup.1 with
          | none => some ⟨-1, tokens, tokenCount, dup.2⟩
          | some b =>
              (countTokens b delim (s.strlen + 2) dup.2 (some 0) 0).bind fun counted =>
                (counted.2.free (some b)).bind fun h =>
                  copySplit str delim tokens tokenCount alloc (s.strlen + 2) counted.1 h
  | _, _, _, _ => some ⟨-1, tokens, tokenCount, h⟩

/-! ## §2. `lz_strstr`. -/

/-- The loop over the tokens: it ends with the last comparison. -/
def compareTokens (b : Nat) (delim match' : CStr) :
    Nat → Blocks → Option Nat → Option Nat → Int → Option (Int × Blocks)
  | 0, _, _, _, _ => none
  | fuel + 1, h, tmp, savePtr, ret =>
      match tmp with
      | none => some (ret, h)
      | some token =>
          (h.cstr b token).bind fun s =>
            let ret := strcmp s.chars match'.chars
            if ret = 0 then some (ret, h)
            else
              (strtokR h b none delim savePtr).bind fun cut =>
                compareTokens b delim match' fuel cut.2.2 cut.1 cut.2.1 ret

/-- `lz_strstr`: the copy is made before the arguments are looked at. -/
def lzStrstr (str : Option Nat) (delim match' : Option CStr) (alloc : Nat → Bool) (h : Blocks) :
    Option (Int × Blocks) :=
  match str with
  | none => none
  | some str =>
      (h.cstr str 0).bind fun s =>
        (h.strdup alloc str 0).bind fun dup =>
          match delim, match', dup.1 with
          | some delim, some match', some b =>
              (strtokR dup.2 b (some 0) delim none).bind fun cut =>
                (compareTokens b delim match' (s.strlen + 2) cut.2.2 cut.1 cut.2.1 0).bind fun out =>
                  (out.2.free (some b)).map fun h => (out.1, h)
          | _, _, _ => (dup.2.free dup.1).map fun h => (-1, h)

end LzLib.CommonUtils
