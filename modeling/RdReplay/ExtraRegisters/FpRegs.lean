/-
  ExtraRegisters/FpRegs.lean --- the x87 register view of XSAVE data.

  Sources: `extra_registers.rs` (`get_user_fpregs_struct`,
  `set_user_fpregs_struct`, `convert_fxsave_to_x86_fpregs`,
  `convert_x86_fpregs_to_fxsave`) and `kernel_abi.rs` (`x86::user_fpregs_struct`,
  `x86::user_fpxregs_struct`).

  THE LAYOUTS.  Both structs are `repr(C)` and the code moves them with
  `copy_nonoverlapping`, so the model works on their bytes.
  `user_fpxregs_struct` (512 bytes, the FXSAVE area at the start of the XSAVE
  data): `cwd`, `swd`, `twd`, `fop` (`u16`) at 0, 2, 4, 6; `fip`, `fcs`, `foo`,
  `fos`, `mxcsr`, `reserved` (`i32`) at 8 to 28; `st_space` at 32, eight
  16-byte slots; `xmm_space` at 160; padding from 288.  `user_fpregs_struct`
  (108 bytes): `cwd`, `swd`, `twd`, `fip`, `fcs`, `foo`, `fos` (`i32`) at 0 to 24
  and `st_space` at 28, eight packed 10-byte registers.

  A `u16` field is the low half of the `i32` it is taken from, little endian;
  `buf.cwd as u32 | 0xffff0000` is the two bytes of `cwd` followed by `0xff 0xff`.
  The `ed_assert!`s on the buffers' lengths are `none`.
-/
import RdReplay.Util

set_option autoImplicit false

namespace RdReplay.ExtraRegisters

/-! ## Byte copies -/

/-- `copy_nonoverlapping(src + soff, dst + doff, n)` into a buffer whose length
stays as it is. -/
def copy_bytes (dst : List UInt8) (doff : Nat) (src : List UInt8) (soff n : Nat) : List UInt8 :=
  List.ofFn fun i : Fin dst.length =>
    if doff ≤ i.val ∧ i.val < doff + n then src.getD (soff + (i.val - doff)) 0 else dst.getD i.val 0

@[simp] theorem length_copy_bytes (dst : List UInt8) (doff : Nat) (src : List UInt8) (soff n : Nat) :
    (copy_bytes dst doff src soff n).length = dst.length := by
  simp [copy_bytes]

theorem getD_copy_bytes (dst : List UInt8) (doff : Nat) (src : List UInt8) (soff n j : Nat) :
    (copy_bytes dst doff src soff n).getD j 0 =
      if j < dst.length ∧ doff ≤ j ∧ j < doff + n then src.getD (soff + (j - doff)) 0
      else dst.getD j 0 := by
  unfold copy_bytes
  rw [List.getD_eq_getElem?_getD, List.getElem?_ofFn]
  by_cases hj : j < dst.length
  · simp [hj]
  · simp [hj, List.getD_eq_getElem?_getD]

/-- The first `n` bytes of `src`, copied into `n` zeroed bytes, read back. -/
theorem getD_copy_bytes_zeroed (src : List UInt8) {n i : Nat} (hi : i < n) :
    (copy_bytes (List.replicate n 0) 0 src 0 n).getD i 0 = src.getD i 0 := by
  rw [getD_copy_bytes, if_pos (by simp only [List.length_replicate]; omega)]
  simp

/-- A copy that fits both buffers replaces the slice it covers. -/
theorem copy_bytes_eq_append {dst src : List UInt8} {doff soff n : Nat} (hd : doff + n ≤ dst.length)
    (hs : soff + n ≤ src.length) :
    copy_bytes dst doff src soff n = dst.take doff ++ (src.drop soff).take n ++ dst.drop (doff + n) := by
  have hmin : min doff dst.length = doff := by omega
  have hmin' : min n (src.length - soff) = n := by omega
  apply List.ext_getElem
  · simp only [length_copy_bytes, List.length_append, List.length_take, List.length_drop]
    omega
  · intro j h1 h2
    have hj := getD_copy_bytes dst doff src soff n j
    rw [List.getD_eq_getElem _ _ h1] at hj
    rw [hj]
    rw [length_copy_bytes] at h1
    simp only [List.getElem_append, List.length_append, List.length_take, List.length_drop, hmin, hmin',
      List.getElem_take, List.getElem_drop]
    -- the bytes before the copy, the copied ones, and those after it
    by_cases hlo : j < doff
    · rw [if_neg (by omega), dif_pos (by omega), dif_pos hlo, List.getD_eq_getElem _ _ h1]
    · by_cases hhi : j < doff + n
      · rw [if_pos ⟨h1, by omega, hhi⟩, dif_pos hhi, dif_neg hlo, List.getD_eq_getElem _ _ (by omega)]
      · rw [if_neg (by omega), dif_neg hhi, List.getD_eq_getElem _ _ h1]
        congr 1
        omega

/-! ## The two structs -/

/-- `size_of::<x86::user_fpxregs_struct>()`. -/
def user_fpxregs_struct_size : Nat := 512

/-- `size_of::<x86::user_fpregs_struct>()`. -/
def user_fpregs_struct_size : Nat := 108

/-- `convert_fxsave_to_x86_fpregs`: the bytes of the `user_fpregs_struct` built
from the bytes of a `user_fpxregs_struct`. -/
def convert_fxsave_to_x86_fpregs (buf : List UInt8) : List UInt8 :=
  let result := List.replicate user_fpregs_struct_size 0
  -- the ten bytes of each ST register, from its 16-byte slot
  let result := (List.range 8).foldl (fun r i => copy_bytes r (28 + i * 10) buf (32 + i * 16) 10) result
  -- `cwd` and `swd`: the `u16`, with the upper half set by `| 0xffff0000`
  let result := copy_bytes result 0 buf 0 2
  let result := copy_bytes result 2 (List.replicate 2 0xff) 0 2
  let result := copy_bytes result 4 buf 2 2
  let result := copy_bytes result 6 (List.replicate 2 0xff) 0 2
  -- `twd` is left `0`
  let result := copy_bytes result 12 buf 8 4
  let result := copy_bytes result 16 buf 12 4
  let result := copy_bytes result 20 buf 16 4
  copy_bytes result 24 buf 20 4

/-- `convert_x86_fpregs_to_fxsave`, into `result`. -/
def convert_x86_fpregs_to_fxsave (buf result : List UInt8) : List UInt8 :=
  let result := (List.range 8).foldl (fun r i => copy_bytes r (32 + i * 16) buf (28 + i * 10) 10) result
  -- `buf.cwd as u16`, `buf.swd as u16`: the 16 least significant bits
  let result := copy_bytes result 0 buf 0 2
  let result := copy_bytes result 2 buf 4 2
  let result := copy_bytes result 8 buf 12 4
  let result := copy_bytes result 12 buf 16 4
  let result := copy_bytes result 16 buf 20 4
  copy_bytes result 20 buf 24 4

/-- `size_of::<x64::user_fpregs_struct>()`: the FXSAVE area itself. -/
def x64_user_fpregs_struct_size : Nat := 512

/-- `ExtraRegisters::get_user_fpregs_struct`, from the XSAVE data `data_`. -/
def get_user_fpregs_struct (data_ : List UInt8) : SupportedArch → List UInt8
  | .X86 =>
    let regs := copy_bytes (List.replicate user_fpxregs_struct_size 0) 0 data_ 0 user_fpxregs_struct_size
    convert_fxsave_to_x86_fpregs regs
  | .X64 => copy_bytes (List.replicate x64_user_fpregs_struct_size 0) 0 data_ 0 x64_user_fpregs_struct_size

/-- `ExtraRegisters::set_user_fpregs_struct`: the XSAVE data after it. -/
def set_user_fpregs_struct (data_ : List UInt8) (arch : SupportedArch) (data_from : List UInt8) :
    Option (List UInt8) :=
  match arch with
  | .X86 =>
    if data_from.length < user_fpregs_struct_size then none
    else if data_.length < user_fpxregs_struct_size then none
    else
      let user_fpregs_data_from :=
        copy_bytes (List.replicate user_fpregs_struct_size 0) 0 data_from 0 user_fpregs_struct_size
      -- a fresh `user_fpxregs_struct::default()`, and all of it copied back
      let result := convert_x86_fpregs_to_fxsave user_fpregs_data_from
        (List.replicate user_fpxregs_struct_size 0)
      some (copy_bytes data_ 0 result 0 user_fpxregs_struct_size)
  | .X64 =>
    if data_.length < x64_user_fpregs_struct_size then none
    else if data_from.length < x64_user_fpregs_struct_size then none
    else some (copy_bytes data_ 0 data_from 0 x64_user_fpregs_struct_size)

/-! ## The two ST loops -/

theorem length_foldl_of_length {f : List UInt8 → Nat → List UInt8}
    (hf : ∀ r i, (f r i).length = r.length) :
    ∀ (is : List Nat) (r : List UInt8), (is.foldl f r).length = r.length
  | [], _ => rfl
  | i :: is, r => by rw [List.foldl_cons, length_foldl_of_length hf is, hf]

/-- The offset `m` lies in slot `k` of width `n`. -/
theorem div_mod_of_slot {m n k : Nat} (h1 : k * n ≤ m) (h2 : m < k * n + n) :
    m / n = k ∧ m % n = m - k * n := by
  have hq : m / n = k := Nat.div_eq_of_lt_le h1 (by rw [Nat.succ_mul]; exact h2)
  refine ⟨hq, ?_⟩
  rw [Nat.mod_eq_sub_mul_div, hq, Nat.mul_comm]

/-- A loop of `k` copies of `len` bytes, the `i`-th from `soff + i * sstride` in
`buf` to slot `i`, at `doff + i * dstride`: each slot starts with its `len`
bytes, and everything else is left as it was.  Both ST loops are one. -/
theorem getD_strided_copy_loop (buf r : List UInt8) {doff dstride soff sstride len : Nat}
    (hlen : len ≤ dstride) (j : Nat) :
    ∀ k, ((List.range k).foldl
        (fun r i => copy_bytes r (doff + i * dstride) buf (soff + i * sstride) len) r).getD j 0 =
      if j < r.length ∧ doff ≤ j ∧ j < doff + k * dstride ∧ (j - doff) % dstride < len then
        buf.getD (soff + (j - doff) / dstride * sstride + (j - doff) % dstride) 0
      else r.getD j 0
  | 0 => by
    rw [if_neg (by omega)]
    rfl
  | k + 1 => by
    rw [List.range_succ, List.foldl_append, List.foldl_cons, List.foldl_nil, getD_copy_bytes,
      length_foldl_of_length (fun _ _ => length_copy_bytes ..), getD_strided_copy_loop buf r hlen j k,
      Nat.succ_mul]
    by_cases hslot : doff + k * dstride ≤ j ∧ j < doff + k * dstride + dstride
    · -- `j` is in slot `k`, the one new copy
      obtain ⟨hq, hm⟩ := div_mod_of_slot (m := j - doff) (n := dstride) (k := k) (by omega) (by omega)
      rw [hq, hm]
      by_cases hin : j < r.length ∧ j < doff + k * dstride + len
      · rw [if_pos ⟨hin.1, hslot.1, hin.2⟩, if_pos ⟨hin.1, by omega, by omega, by omega⟩]
        congr 1
        omega
      · rw [if_neg (by omega), if_neg (by omega), if_neg (by omega)]
    · -- below slot `k` the loop so far; above it nothing
      rw [if_neg (by omega)]
      split_ifs <;> first | rfl | omega

/-- Into the FXSAVE area: slot `k` of `st_space` starts with the ten bytes of
register `k`, and the rest of the slot is left as it was. -/
theorem getD_fxsave_st_loop (buf r : List UInt8) (j : Nat) :
    ∀ k, ((List.range k).foldl (fun r i => copy_bytes r (32 + i * 16) buf (28 + i * 10) 10) r).getD j 0 =
      if j < r.length ∧ 32 ≤ j ∧ j < 32 + k * 16 ∧ (j - 32) % 16 < 10 then
        buf.getD (28 + (j - 32) / 16 * 10 + (j - 32) % 16) 0
      else r.getD j 0 :=
  getD_strided_copy_loop buf r (by norm_num) j

/-- Out of the FXSAVE area: register `k` is the first ten bytes of slot `k`. -/
theorem getD_fpregs_st_loop (buf r : List UInt8) (j : Nat) :
    ∀ k, ((List.range k).foldl (fun r i => copy_bytes r (28 + i * 10) buf (32 + i * 16) 10) r).getD j 0 =
      if j < r.length ∧ 28 ≤ j ∧ j < 28 + k * 10 then
        buf.getD (32 + (j - 28) / 10 * 16 + (j - 28) % 10) 0
      else r.getD j 0 := by
  intro k
  -- a register fills its ten-byte slot, so every offset in it is copied
  have hmod : (j - 28) % 10 < 10 := Nat.mod_lt _ (by norm_num)
  rw [getD_strided_copy_loop buf r (le_refl 10) j k]
  simp only [hmod, and_true]

/-! ## What the conversions leave, byte by byte -/

/-- Byte `j` of the FXSAVE area that `convert_x86_fpregs_to_fxsave` builds in a
zeroed struct from the `user_fpregs_struct` bytes `b`: the fields it sets come
from `b`, and every other byte is `0`. -/
def fxsave_of_fpregs_byte (b : List UInt8) (j : Nat) : UInt8 :=
  if j < 2 then b.getD j 0
  else if j < 4 then b.getD (j + 2) 0
  -- `twd`, `fop`
  else if j < 8 then 0
  else if j < 24 then b.getD (j + 4) 0
  -- `mxcsr`, `reserved`
  else if j < 32 then 0
  else if j < 160 then
    if (j - 32) % 16 < 10 then b.getD (28 + (j - 32) / 16 * 10 + (j - 32) % 16) 0 else 0
  -- `xmm_space` and the padding
  else 0

/-- Byte `j` of the `user_fpregs_struct` that `convert_fxsave_to_x86_fpregs`
builds from the FXSAVE bytes `x`. -/
def fpregs_of_fxsave_byte (x : List UInt8) (j : Nat) : UInt8 :=
  if j < 2 then x.getD j 0
  else if j < 4 then 0xff
  else if j < 6 then x.getD (j - 2) 0
  else if j < 8 then 0xff
  -- `twd`
  else if j < 12 then 0
  else if j < 28 then x.getD (j - 4) 0
  else x.getD (32 + (j - 28) / 10 * 16 + (j - 28) % 10) 0

theorem getD_replicate_eq (n : Nat) (a : UInt8) (j : Nat) :
    (List.replicate n a).getD j 0 = if j < n then a else 0 := by
  rw [List.getD_eq_getElem?_getD, List.getElem?_replicate]
  split <;> rfl

theorem length_convert_x86_fpregs_to_fxsave (buf result : List UInt8) :
    (convert_x86_fpregs_to_fxsave buf result).length = result.length := by
  simp only [convert_x86_fpregs_to_fxsave, length_copy_bytes]
  exact length_foldl_of_length (fun _ _ => length_copy_bytes ..) _ _

theorem getD_convert_x86_fpregs_to_fxsave (b : List UInt8) (j : Nat) :
    (convert_x86_fpregs_to_fxsave b (List.replicate user_fpxregs_struct_size 0)).getD j 0 =
      if j < user_fpxregs_struct_size then fxsave_of_fpregs_byte b j else 0 := by
  simp only [convert_x86_fpregs_to_fxsave, getD_copy_bytes, length_copy_bytes,
    length_foldl_of_length (fun _ _ => length_copy_bytes ..), getD_fxsave_st_loop,
    List.length_replicate, getD_replicate_eq, fxsave_of_fpregs_byte, user_fpxregs_struct_size]
  -- one field at a time: its bytes decide every test on both sides
  obtain h | h | h | h | h | h | h | h | h | h | h : j < 2 ∨ (2 ≤ j ∧ j < 4) ∨ (4 ≤ j ∧ j < 8) ∨
      (8 ≤ j ∧ j < 12) ∨ (12 ≤ j ∧ j < 16) ∨ (16 ≤ j ∧ j < 20) ∨ (20 ≤ j ∧ j < 24) ∨
      (24 ≤ j ∧ j < 32) ∨ (32 ≤ j ∧ j < 160) ∨ (160 ≤ j ∧ j < 512) ∨ 512 ≤ j := by omega
  all_goals simp (disch := omega) only [if_pos, if_neg]
  -- what is left: an index moved by a field's offset, and the test of `st_space`
  all_goals first | rfl | (congr 1; omega) | (split_ifs <;> first | rfl | omega)

theorem getD_convert_fxsave_to_x86_fpregs (x : List UInt8) (j : Nat) :
    (convert_fxsave_to_x86_fpregs x).getD j 0 =
      if j < user_fpregs_struct_size then fpregs_of_fxsave_byte x j else 0 := by
  simp only [convert_fxsave_to_x86_fpregs, getD_copy_bytes, length_copy_bytes,
    length_foldl_of_length (fun _ _ => length_copy_bytes ..), getD_fpregs_st_loop,
    List.length_replicate, getD_replicate_eq, fpregs_of_fxsave_byte, user_fpregs_struct_size]
  obtain h | h | h | h | h | h | h | h | h | h | h : j < 2 ∨ (2 ≤ j ∧ j < 4) ∨ (4 ≤ j ∧ j < 6) ∨
      (6 ≤ j ∧ j < 8) ∨ (8 ≤ j ∧ j < 12) ∨ (12 ≤ j ∧ j < 16) ∨ (16 ≤ j ∧ j < 20) ∨
      (20 ≤ j ∧ j < 24) ∨ (24 ≤ j ∧ j < 28) ∨ (28 ≤ j ∧ j < 108) ∨ 108 ≤ j := by omega
  all_goals simp (disch := omega) only [if_pos, if_neg]
  all_goals first | rfl | (congr 1; omega)

/-- The account reads only the 108 bytes of a `user_fpregs_struct`. -/
theorem fxsave_of_fpregs_byte_congr {b b' : List UInt8}
    (h : ∀ i < user_fpregs_struct_size, b.getD i 0 = b'.getD i 0) (j : Nat) :
    fxsave_of_fpregs_byte b j = fxsave_of_fpregs_byte b' j := by
  simp only [fxsave_of_fpregs_byte, user_fpregs_struct_size] at h ⊢
  split_ifs <;> first | rfl | (apply h; omega)

/-- Below 108 the account of the other direction reads only the FXSAVE area. -/
theorem fpregs_of_fxsave_byte_congr {x x' : List UInt8}
    (h : ∀ i < user_fpxregs_struct_size, x.getD i 0 = x'.getD i 0) {j : Nat}
    (hj : j < user_fpregs_struct_size) :
    fpregs_of_fxsave_byte x j = fpregs_of_fxsave_byte x' j := by
  simp only [fpregs_of_fxsave_byte, user_fpxregs_struct_size, user_fpregs_struct_size] at h hj ⊢
  split_ifs <;> first | rfl | (apply h; omega)

/-! ## Setting and getting the x87 registers of an x86 task -/

/-- `set_user_fpregs_struct` for an x86 task rewrites the whole FXSAVE area: the
fields of `user_fpregs_struct` come from `data_from`, and every other byte of
the area, the XMM registers, `mxcsr`, the tag word and `fop` among them, becomes
`0`.  The XSAVE data past the area is left as it was. -/
theorem set_user_fpregs_struct_x86_spec {data_ data_from : List UInt8}
    (hfrom : user_fpregs_struct_size ≤ data_from.length)
    (hdata : user_fpxregs_struct_size ≤ data_.length) :
    ∃ data', set_user_fpregs_struct data_ .X86 data_from = some data' ∧
      data'.length = data_.length ∧
      ∀ j, data'.getD j 0 =
        if j < user_fpxregs_struct_size then fxsave_of_fpregs_byte data_from j else data_.getD j 0 := by
  simp only [set_user_fpregs_struct, if_neg (Nat.not_lt_of_le hfrom), if_neg (Nat.not_lt_of_le hdata)]
  refine ⟨_, rfl, length_copy_bytes .., fun j => ?_⟩
  rw [getD_copy_bytes]
  by_cases hj : j < user_fpxregs_struct_size
  · rw [if_pos ⟨by omega, Nat.zero_le _, by omega⟩, if_pos hj, Nat.zero_add, Nat.sub_zero,
      getD_convert_x86_fpregs_to_fxsave, if_pos hj]
    -- the struct is copied from `data_from` into a default one first
    exact fxsave_of_fpregs_byte_congr (fun i hi => getD_copy_bytes_zeroed data_from hi) j
  · rw [if_neg (by omega), if_neg hj]

/-- `get_user_fpregs_struct` for an x86 task: the account of its conversion, on
the FXSAVE area of the data. -/
theorem get_user_fpregs_struct_x86_spec (data_ : List UInt8) (j : Nat) :
    (get_user_fpregs_struct data_ .X86).getD j 0 =
      if j < user_fpregs_struct_size then fpregs_of_fxsave_byte data_ j else 0 := by
  rw [get_user_fpregs_struct, getD_convert_fxsave_to_x86_fpregs]
  split
  · exact fpregs_of_fxsave_byte_congr (fun i hi => getD_copy_bytes_zeroed data_ hi) ‹_›
  · rfl

/-- Getting the registers back after setting them gives `data_from` on every
field, with `cwd` and `swd` re-padded with `0xffff` and the tag word `0`. -/
theorem get_set_user_fpregs_struct_x86 {data_ data_from data' : List UInt8}
    (hfrom : user_fpregs_struct_size ≤ data_from.length)
    (hdata : user_fpxregs_struct_size ≤ data_.length)
    (h : set_user_fpregs_struct data_ .X86 data_from = some data') (j : Nat) :
    (get_user_fpregs_struct data' .X86).getD j 0 =
      if j < user_fpregs_struct_size then
        if (2 ≤ j ∧ j < 4) ∨ (6 ≤ j ∧ j < 8) then 0xff
        else if 8 ≤ j ∧ j < 12 then 0
        else data_from.getD j 0
      else 0 := by
  obtain ⟨d, hd, -, hbytes⟩ := set_user_fpregs_struct_x86_spec hfrom hdata
  rw [h, Option.some.injEq] at hd
  subst hd
  rw [get_user_fpregs_struct_x86_spec]
  simp only [fpregs_of_fxsave_byte, hbytes, fxsave_of_fpregs_byte, user_fpregs_struct_size,
    user_fpxregs_struct_size]
  -- one field of `user_fpregs_struct` at a time
  obtain h | h | h | h | h | h | h : j < 2 ∨ (2 ≤ j ∧ j < 4) ∨ (4 ≤ j ∧ j < 6) ∨ (6 ≤ j ∧ j < 8) ∨
      (8 ≤ j ∧ j < 12) ∨ (12 ≤ j ∧ j < 108) ∨ 108 ≤ j := by omega
  all_goals simp (disch := omega) only [if_pos, if_neg]
  all_goals first | rfl | (congr 1; omega) | (split_ifs <;> first | rfl | omega | (congr 1; omega))

/-- x87 registers whose bytes are numbered `0, 1, .., 107`. -/
def numbered_fpregs : List UInt8 := (List.range 108).map UInt8.ofNat

/-- The numbered registers set over an FXSAVE area of `0xaa` bytes read back
with the control word's padding at byte 3 and their own byte 40, inside
`st_space`. -/
theorem get_set_user_fpregs_struct_numbered :
    ∃ data', user_fpregs_struct_size ≤ numbered_fpregs.length ∧
      user_fpxregs_struct_size ≤ (List.replicate 512 (0xaa : UInt8)).length ∧
      set_user_fpregs_struct (List.replicate 512 0xaa) .X86 numbered_fpregs = some data' ∧
      (get_user_fpregs_struct data' .X86).getD 3 0 = 0xff ∧ (get_user_fpregs_struct data' .X86).getD 40 0 = 40 := by
  have hfrom : user_fpregs_struct_size ≤ numbered_fpregs.length := by decide
  have hdata : user_fpxregs_struct_size ≤ (List.replicate 512 (0xaa : UInt8)).length := by
    rw [List.length_replicate]
    decide
  obtain ⟨data', hset, -⟩ := set_user_fpregs_struct_x86_spec hfrom hdata
  refine ⟨data', hfrom, hdata, hset, ?_, ?_⟩
  · rw [get_set_user_fpregs_struct_x86 hfrom hdata hset 3]
    decide
  · rw [get_set_user_fpregs_struct_x86 hfrom hdata hset 40]
    decide

/-- XSAVE data whose FXSAVE area is all `0` but for the first byte of XMM0. -/
def xmm0_data : List UInt8 := List.replicate 160 0 ++ [1] ++ List.replicate 351 0

/-- Setting the x87 registers of an x86 task to all `0` clears XMM0, which
`user_fpregs_struct` does not hold. -/
theorem set_user_fpregs_struct_clears_xmm0 :
    ∃ data', set_user_fpregs_struct xmm0_data .X86 (List.replicate 108 0) = some data' ∧
      xmm0_data.getD 160 0 = 1 ∧ data'.getD 160 0 = 0 := by
  obtain ⟨data', hset, -, hbytes⟩ := set_user_fpregs_struct_x86_spec
    (show user_fpregs_struct_size ≤ (List.replicate 108 (0 : UInt8)).length by decide)
    (show user_fpxregs_struct_size ≤ xmm0_data.length by
      simp only [xmm0_data, List.length_append, List.length_replicate, List.length_singleton,
        user_fpxregs_struct_size]
      omega)
  have hxmm : xmm0_data.getD 160 0 = 1 := by
    rw [xmm0_data, List.append_assoc, List.getD_eq_getElem?_getD,
      List.getElem?_append_right (by simp only [List.length_replicate]; omega)]
    simp only [List.length_replicate, Nat.sub_self, List.singleton_append, List.getElem?_cons_zero,
      Option.getD_some]
  refine ⟨data', hset, hxmm, ?_⟩
  rw [hbytes]
  decide

end RdReplay.ExtraRegisters
