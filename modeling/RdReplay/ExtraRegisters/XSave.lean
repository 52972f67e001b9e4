/-
  ExtraRegisters/XSave.lean --- XSAVE data from a trace, in the native layout.

  Source: `extra_registers.rs` (`ExtraRegisters::set_to_raw_data`,
  `features_used`, `all_zeros`, `ExtraRegisters::read_register`,
  `xsave_register_data`, `reg_in_range`, `xsave_features`), `util.rs`
  (`XSaveLayout`, `XSaveFeatureLayout`) and `bindgen/gdb_register_wrapper.h`
  (the register numbers).

  A trace recorded on one CPU holds XSAVE areas in that CPU's layout: the
  legacy FXSAVE area (512 bytes), the XSAVE header (64 bytes, its first word
  the XSTATE_BV bitmap of the features in use) and one area for each feature,
  at the offset CPUID gave.  `set_to_raw_data` converts such an area to the
  layout of the CPU rd runs on.  The trace's layout comes from the trace and is
  not trusted: it is checked as the data is copied.

  THE MODEL.  The data is a list of bytes and `copy_from_slice` is
  `copy_bytes`.  `set_to_raw_data` returns `none` where the code panics (a
  slice or an index out of range), and otherwise whether it succeeded and the
  new registers.  The `debug_assert!`s are left out, as in a release build.
  The native layout is a parameter: `xsave_native_layout()` is a `static` read
  from CPUID.  `features_used` is called only on data of the layout's size, at
  least 576 bytes, where its slices are in range.

  THE CPU'S GUARANTEES.  `NativeLayout` is the native layout with what the CPU
  guarantees of it: at least the 512 legacy bytes; for each supported feature
  from bit 2, an area after the header and inside the full size; the areas of
  two such features apart; and AVX at 576, 256 bytes.  rd relies on these (its
  `debug_assert!`s name two of them).  Without them a feature could be copied
  over the legacy bytes or over another feature.
-/
import RdReplay.ExtraRegisters.FpRegs
import RdReplay.Record.RobustFutex
import RdReplay.FileMonitor.ProcFdDir

set_option autoImplicit false
-- the source's `ExtraRegisters` keeps its name in the namespace of its module
set_option linter.dupNamespace false

namespace RdReplay.ExtraRegisters

open RdReplay.Record (le_value le_bytes le_value_le_bytes le_value_lt)
open RdReplay.FileMonitor (resize)

/-! ## Layouts and constants -/

def AVX_FEATURE_BIT : Nat := 2
def XSAVE_HEADER_OFFSET : Nat := 512
def XSAVE_HEADER_SIZE : Nat := 64
def XSAVE_HEADER_END : Nat := XSAVE_HEADER_OFFSET + XSAVE_HEADER_SIZE

/-- AVX is always the first optional feature, when present. -/
def AVX_XSAVE_OFFSET : Nat := 576

def ST_REGS_OFFSET : Nat := 32
def ST_REG_SPACE : Nat := 16
def XMM_REGS_OFFSET : Nat := 160
def XMM_REG_SPACE : Nat := 16
def XSAVE_FEATURE_PKRU : Nat := 9

/-- The offsets of `DREG_64_FCTRL` to `DREG_64_FOP` in the FXSAVE area. -/
def FXSAVE_387_CTRL_OFFSETS : List Nat := [0, 2, 4, 12, 8, 20, 16, 6]

/-- `XSaveFeatureLayout`. -/
structure XSaveFeatureLayout where
  offset : Nat
  size : Nat
  deriving DecidableEq, Repr

/-- `XSaveLayout`. -/
structure XSaveLayout where
  full_size : Nat
  supported_feature_bits : Nat
  feature_layouts : List XSaveFeatureLayout
  deriving DecidableEq, Repr

/-- `Format`. -/
inductive Format
  | None
  | XSave
  deriving DecidableEq, Repr

/-- `ExtraRegisters`. -/
structure ExtraRegisters where
  format_ : Format
  arch_ : SupportedArch
  data_ : List UInt8

/-! ## `set_to_raw_data` -/

/-- `u64::from_le_bytes(data[off..off + 8])`. -/
def read_u64 (data : List UInt8) (off : Nat) : Nat :=
  le_value ((data.drop off).take 8)

/-- `!x` on a `u64`. -/
def u64_not (x : Nat) : Nat := x ^^^ (2 ^ 64 - 1)

/-- `all_zeros`. -/
def all_zeros (data : List UInt8) : Bool := data.all (· == 0)

/-- `features_used`: the XSTATE_BV word, without PKRU when its area is all
zero. -/
def features_used (data : List UInt8) (layout : XSaveLayout) : Nat :=
  let features := read_u64 data XSAVE_HEADER_OFFSET
  let pkru_bit := 1 <<< XSAVE_FEATURE_PKRU
  if features &&& pkru_bit ≠ 0 then
    -- `XSAVE_FEATURE_PKRU < layout.feature_layouts.len()`
    match layout.feature_layouts[XSAVE_FEATURE_PKRU]? with
    | some fl =>
      if fl.offset + fl.size ≤ layout.full_size ∧ all_zeros ((data.drop fl.offset).take fl.size) = true then
        features &&& u64_not pkru_bit
      else features
    | none => features
  else features

/-- The loop of `set_to_raw_data` over the feature bits from 2: each feature in
use is copied from its place in `layout` to its place in the native layout.
`some (false, _)` is a `return false`, `none` a panic.  The slice of
`data_from` is in range, its length being `layout.full_size`. -/
def copy_feature_areas (native_layout layout : XSaveLayout) (data_from : List UInt8) (features : Nat) :
    List Nat → List UInt8 → Option (Bool × List UInt8)
  | [], data => some (true, data)
  | i :: is, data =>
    if features &&& (1 <<< i) ≠ 0 then
      match layout.feature_layouts[i]? with
      -- "Invalid feature beyond max layout"
      | none => some (false, data)
      | some feature =>
        -- "Invalid feature region"
        if feature.offset + feature.size > layout.full_size then some (false, data)
        else
          match native_layout.feature_layouts[i]? with
          -- `native_layout.feature_layouts[i]` out of range
          | none => none
          | some native_feature =>
            -- "Feature has wrong size"
            if feature.size ≠ native_feature.size then some (false, data)
            -- `self.data_[native_offset..native_offset + feature_size]`
            else if data.length < native_feature.offset + feature.size then none
            else
              copy_feature_areas native_layout layout data_from features is
                (copy_bytes data native_feature.offset data_from feature.offset feature.size)
    else copy_feature_areas native_layout layout data_from features is data

/-- The first steps of `set_to_raw_data` on data of the native size: the
legacy area copied from `data_from`, and every byte after it zeroed. -/
def copy_legacy_area (data data_from : List UInt8) : List UInt8 :=
  let data := copy_bytes data 0 data_from 0 XSAVE_HEADER_OFFSET
  copy_bytes data XSAVE_HEADER_OFFSET (List.replicate (data.length - XSAVE_HEADER_OFFSET) 0) 0
    (data.length - XSAVE_HEADER_OFFSET)

/-- The header as `set_to_raw_data` writes it: the first word `features`, the
rest copied from `data_from`. -/
def copy_header (data data_from : List UInt8) (features : Nat) : List UInt8 :=
  let data := copy_bytes data XSAVE_HEADER_OFFSET (le_bytes 8 features) 0 8
  copy_bytes data (XSAVE_HEADER_OFFSET + 8) data_from (XSAVE_HEADER_OFFSET + 8) (XSAVE_HEADER_SIZE - 8)

/-- `ExtraRegisters::set_to_raw_data`, with the native layout given. -/
def ExtraRegisters.set_to_raw_data (self : ExtraRegisters) (native_layout : XSaveLayout) (a : SupportedArch)
    (format : Format) (data_from : List UInt8) (layout : XSaveLayout) : Option (Bool × ExtraRegisters) :=
  let self := { self with arch_ := a, format_ := format }
  if format = .None then some (true, self)
  -- "Invalid XSAVE data length"
  else if data_from.length ≠ layout.full_size then some (false, self)
  else
    let data := resize self.data_ native_layout.full_size
    -- "Invalid XSAVE layout size"
    if layout.full_size < XSAVE_HEADER_OFFSET then some (false, { self with data_ := data })
    -- `self.data_[0..XSAVE_HEADER_OFFSET]`
    else if data.length < XSAVE_HEADER_OFFSET then none
    else
      let data := copy_legacy_area data data_from
      -- "Unsupported CPU features found"
      if XSAVE_HEADER_END ≤ layout.full_size ∧
          features_used data_from layout &&& u64_not native_layout.supported_feature_bits ≠ 0 then
        some (false, { self with data_ := data })
      -- no XSAVE supported here
      else if native_layout.full_size < XSAVE_HEADER_END then some (true, { self with data_ := data })
      -- a degenerate XSAVE format without a header: x87 and XMM are assumed in use
      else if layout.full_size < XSAVE_HEADER_END then
        some (true, { self with data_ := copy_bytes data XSAVE_HEADER_OFFSET (le_bytes 8 0x3) 0 8 })
      else
        let features := features_used data_from layout
        let data := copy_header data data_from features
        (copy_feature_areas native_layout layout data_from features (List.range' 2 62) data).map
          fun r => (r.1, { self with data_ := r.2 })

/-! ## `read_register` -/

-- the numbers of `GdbRegisterNum` the XSAVE data holds, x86 then x86-64
def DREG_FIRST_FXSAVE_REG : Nat := 16
def DREG_XMM0 : Nat := 32
def DREG_XMM7 : Nat := 39
def DREG_MXCSR : Nat := 40
def DREG_LAST_FXSAVE_REG : Nat := DREG_MXCSR
def DREG_YMM0H : Nat := 42
def DREG_YMM7H : Nat := 49
def DREG_64_FIRST_FXSAVE_REG : Nat := 24
def DREG_64_ST0 : Nat := DREG_64_FIRST_FXSAVE_REG
def DREG_64_ST7 : Nat := 31
def DREG_64_FCTRL : Nat := 32
def DREG_64_XMM0 : Nat := 40
def DREG_64_XMM15 : Nat := 55
def DREG_64_MXCSR : Nat := 56
def DREG_64_LAST_FXSAVE_REG : Nat := DREG_64_MXCSR
def DREG_64_YMM0H : Nat := 60
def DREG_64_YMM15H : Nat := 75
def DREG_NUM_LINUX_X86_64 : Nat := 76

/-- `GdbRegister`: a register number below `DREG_NUM_LINUX_X86_64`, as
`GdbRegister::try_from` makes it. -/
structure GdbRegister where
  regno : Nat
  lt : regno < DREG_NUM_LINUX_X86_64

/-- `RegData`. -/
structure RegData where
  offset : Option Nat
  size : Nat
  xsave_feature_bit : Option Nat

def RegData.default : RegData := ⟨none, 0, none⟩

def RegData.new (offset size : Nat) : RegData := ⟨some offset, size, none⟩

/-- `reg_in_range`: `none` for `false`. -/
def reg_in_range (regno low high offset_base offset_stride size : Nat) : Option RegData :=
  if regno < low ∨ regno > high then none
  else some (RegData.new (offset_base + offset_stride * (regno - low)) size)

/-- The 64-bit register a register of `arch` is read as; `none` for one the
XSAVE data does not hold.  The `unwrap`s of `GdbRegister::try_from` never fail:
every number here is below `DREG_NUM_LINUX_X86_64`. -/
def xsave_register_number (arch : SupportedArch) (regno : Nat) : Option Nat :=
  match arch with
  | .X86 =>
    if DREG_XMM0 ≤ regno ∧ regno ≤ DREG_XMM7 then some (regno - DREG_XMM0 + DREG_64_XMM0)
    else if DREG_YMM0H ≤ regno ∧ regno ≤ DREG_YMM7H then some (regno - DREG_YMM0H + DREG_64_YMM0H)
    else if regno < DREG_FIRST_FXSAVE_REG ∨ regno > DREG_LAST_FXSAVE_REG then none
    else if regno = DREG_MXCSR then some DREG_64_MXCSR
    else some (regno - DREG_FIRST_FXSAVE_REG + DREG_64_FIRST_FXSAVE_REG)
  | .X64 => some regno

/-- `xsave_register_data`. -/
def xsave_register_data (arch : SupportedArch) (regno_param : GdbRegister) : RegData :=
  match xsave_register_number arch regno_param.regno with
  | none => RegData.default
  | some regno =>
    match reg_in_range regno DREG_64_ST0 DREG_64_ST7 ST_REGS_OFFSET ST_REG_SPACE 10 with
    | some result => result
    | none =>
      match reg_in_range regno DREG_64_XMM0 DREG_64_XMM15 XMM_REGS_OFFSET XMM_REG_SPACE 16 with
      | some result => result
      | none =>
        match reg_in_range regno DREG_64_YMM0H DREG_64_YMM15H AVX_XSAVE_OFFSET 16 16 with
        | some result => { result with xsave_feature_bit := some AVX_FEATURE_BIT }
        | none =>
          if regno < DREG_64_FIRST_FXSAVE_REG ∨ regno > DREG_64_LAST_FXSAVE_REG then RegData.default
          else if regno = DREG_64_MXCSR then RegData.new 24 4
          -- `DREG_64_FCTRL` to `DREG_64_FOP`, so the index is in range
          else RegData.new (FXSAVE_387_CTRL_OFFSETS.getD (regno - DREG_64_FCTRL) 0) 4

/-- `xsave_features`: the XSTATE_BV word, 0 for data without a header. -/
def xsave_features (data : List UInt8) : Nat :=
  if data.length < XSAVE_HEADER_OFFSET + XSAVE_HEADER_SIZE then 0 else read_u64 data XSAVE_HEADER_OFFSET

/-- `ExtraRegisters::read_register`: the bytes it writes to `buf`, or `none`
for `None`; the outer `none` is a slice out of range. -/
def ExtraRegisters.read_register (self : ExtraRegisters) (regno : GdbRegister) : Option (Option (List UInt8)) :=
  if self.format_ ≠ .XSave then some none
  else
    let reg_data := xsave_register_data self.arch_ regno
    match reg_data.offset with
    | none => some none
    | some off =>
      if self.data_.length = 0 then some none
      -- before any AVX register is used its feature bit is clear, and the register reads as 0
      else if reg_data.xsave_feature_bit.any fun bit => xsave_features self.data_ &&& (1 <<< bit) == 0 then
        some (some (List.replicate reg_data.size 0))
      else if off + reg_data.size ≤ self.data_.length then some (some ((self.data_.drop off).take reg_data.size))
      else none

/-! ## What the CPU guarantees of the native layout -/

/-- Byte `j` lies in the area `layout` gives feature `i`. -/
def in_feature_area (layout : XSaveLayout) (i j : Nat) : Bool :=
  match layout.feature_layouts[i]? with
  | some fl => fl.offset ≤ j && j < fl.offset + fl.size
  | none => false

/-- The native layout, with what the CPU guarantees of it. -/
structure NativeLayout where
  layout : XSaveLayout
  /-- at least the FXSAVE area -/
  legacy : XSAVE_HEADER_OFFSET ≤ layout.full_size
  /-- each supported feature from bit 2 has an area after the header, inside the full size -/
  feature : ∀ i, 2 ≤ i → i < 64 → layout.supported_feature_bits.testBit i →
    ∃ fl, layout.feature_layouts[i]? = some fl ∧ XSAVE_HEADER_END ≤ fl.offset ∧ fl.offset + fl.size ≤ layout.full_size
  /-- the areas of two supported features are apart -/
  apart : ∀ i i' j, 2 ≤ i → 2 ≤ i' → i ≠ i' → layout.supported_feature_bits.testBit i →
    layout.supported_feature_bits.testBit i' → in_feature_area layout i j → in_feature_area layout i' j → False
  /-- AVX, when supported, is at 576, 256 bytes -/
  avx : layout.supported_feature_bits.testBit AVX_FEATURE_BIT →
    layout.feature_layouts[AVX_FEATURE_BIT]? = some ⟨AVX_XSAVE_OFFSET, 256⟩

/-! ## What the conversion is for -/

/-- The features in use in `d` under `layout`: its XSTATE_BV word, or x87 and
SSE for a layout too short to have a header. -/
def trace_features (layout : XSaveLayout) (d : List UInt8) : Nat :=
  if layout.full_size < XSAVE_HEADER_END then 0x3 else features_used d layout

/-- The feature from bit 2 in use in `features` whose native area holds byte `j`. -/
def copied_feature (native : XSaveLayout) (features j : Nat) : Option Nat :=
  (List.range' 2 62).find? fun i => features.testBit i && in_feature_area native i j

/-- The byte of `d` that feature `i`'s area under `layout` holds where its
native area holds byte `j`. -/
def feature_source_byte (native layout : XSaveLayout) (d : List UInt8) (i j : Nat) : UInt8 :=
  d.getD ((layout.feature_layouts.getD i ⟨0, 0⟩).offset + (j - (native.feature_layouts.getD i ⟨0, 0⟩).offset)) 0

/-- Byte `j` of `d`, under `layout`, in the native layout: the legacy area as
it is; the header word `trace_features`, and the rest of the header as it is
when `layout` has one; each feature in use from bit 2 moved to its native
area; zero everywhere else. -/
def converted_byte (native layout : XSaveLayout) (d : List UInt8) (j : Nat) : UInt8 :=
  if j < XSAVE_HEADER_OFFSET then d.getD j 0
  else if native.full_size < XSAVE_HEADER_END then 0
  else if j < XSAVE_HEADER_OFFSET + 8 then (le_bytes 8 (trace_features layout d)).getD (j - XSAVE_HEADER_OFFSET) 0
  else if j < XSAVE_HEADER_END then (if layout.full_size < XSAVE_HEADER_END then 0 else d.getD j 0)
  else
    match copied_feature native (trace_features layout d) j with
    | some i => feature_source_byte native layout d i j
    | none => 0

/-- The value register `regno` of `arch` has in `d` under `layout`: its bytes
in the legacy area; for an AVX register its bytes in the trace's AVX area, or
zero when AVX is not in use. -/
def register_value (layout : XSaveLayout) (d : List UInt8) (arch : SupportedArch) (regno : GdbRegister) :
    Option (List UInt8) :=
  let reg := xsave_register_data arch regno
  match reg.offset, reg.xsave_feature_bit with
  | none, _ => none
  | some off, none => some ((d.drop off).take reg.size)
  | some off, some bit =>
    if (trace_features layout d).testBit bit then
      some ((d.drop ((layout.feature_layouts.getD bit ⟨0, 0⟩).offset + (off - AVX_XSAVE_OFFSET))).take reg.size)
    else some (List.replicate reg.size 0)

/-! ## Feature bits -/

theorem and_one_shiftLeft_ne_zero_iff (f i : Nat) : f &&& (1 <<< i) ≠ 0 ↔ f.testBit i := by
  rw [Nat.one_shiftLeft, Nat.and_two_pow]
  cases f.testBit i <;> simp

/-- Features that pass the check against the supported ones are supported. -/
theorem testBit_of_and_u64_not_eq_zero {f s i : Nat} (h : f &&& u64_not s = 0) (hi : i < 64) (hf : f.testBit i) :
    s.testBit i := by
  have hones : (2 ^ 64 - 1 : Nat).testBit i = true := by
    rw [Nat.testBit_two_pow_sub_one]
    exact decide_eq_true hi
  have hbit := congrArg (fun x => x.testBit i) h
  simp only [u64_not, Nat.testBit_and, Nat.testBit_xor, hones, hf, Nat.zero_testBit] at hbit
  simpa using hbit

/-- Clearing PKRU only clears a bit of the word read. -/
theorem features_used_le (d : List UInt8) (layout : XSaveLayout) :
    features_used d layout ≤ read_u64 d XSAVE_HEADER_OFFSET := by
  unfold features_used
  dsimp only
  split_ifs
  · split
    · split_ifs
      · exact Nat.and_le_left
      · exact le_rfl
    · exact le_rfl
  · exact le_rfl

/-- The XSTATE_BV word `set_to_raw_data` writes fits in its eight bytes. -/
theorem trace_features_lt (layout : XSaveLayout) (d : List UInt8) : trace_features layout d < 2 ^ 64 := by
  have hread : read_u64 d XSAVE_HEADER_OFFSET < 2 ^ 64 :=
    calc read_u64 d XSAVE_HEADER_OFFSET < 256 ^ ((d.drop XSAVE_HEADER_OFFSET).take 8).length := le_value_lt _
      _ ≤ 256 ^ 8 := Nat.pow_le_pow_right (by norm_num) (by simp)
      _ = 2 ^ 64 := by norm_num
  unfold trace_features
  split_ifs
  · norm_num
  · exact lt_of_le_of_lt (features_used_le d layout) hread

/-! ## The loop over the features -/

section Loop

variable (native layout : XSaveLayout) (d : List UInt8) (features : Nat)

/-- Feature `i` passed the checks of the loop: it has an area in `layout`
inside its full size, and one of the same size in the native layout. -/
def FeatureChecked (i : Nat) : Prop :=
  ∃ fl nf, layout.feature_layouts[i]? = some fl ∧ native.feature_layouts[i]? = some nf ∧
    fl.offset + fl.size ≤ layout.full_size ∧ fl.size = nf.size

/-- A loop that returns `true` checked every feature in use, and leaves each
byte as the source's where a feature in use is copied and as it was
elsewhere.  The native areas of the features in use are apart, so a byte is
copied at most once. -/
theorem copy_feature_areas_spec :
    ∀ (is : List Nat) (data data' : List UInt8),
      is.Pairwise (fun i i' => features.testBit i → features.testBit i' → ∀ j,
        in_feature_area native i j → in_feature_area native i' j → False) →
      copy_feature_areas native layout d features is data = some (true, data') →
      data'.length = data.length ∧ (∀ i ∈ is, features.testBit i → FeatureChecked native layout i) ∧
      ∀ j, data'.getD j 0 =
        match is.find? (fun i => features.testBit i && in_feature_area native i j) with
        | some i => feature_source_byte native layout d i j
        | none => data.getD j 0
  | [], data, data', _, h => by
    cases h
    exact ⟨rfl, by simp, fun _ => rfl⟩
  | i :: is, data, data', hpw, h => by
    obtain ⟨hhead, htail⟩ := List.pairwise_cons.1 hpw
    rw [copy_feature_areas] at h
    by_cases hbit : features.testBit i
    -- a feature in use: every check passed, and its area is copied
    · rw [if_pos ((and_one_shiftLeft_ne_zero_iff _ _).2 hbit)] at h
      cases hfl : layout.feature_layouts[i]? with
      | none => rw [hfl] at h; cases h
      | some fl =>
        rw [hfl] at h
        simp only at h
        split_ifs at h with hbig
        · cases h
        cases hnf : native.feature_layouts[i]? with
        | none => rw [hnf] at h; cases h
        | some nf =>
          rw [hnf] at h
          simp only at h
          split_ifs at h with hsize hroom
          · cases h
          obtain ⟨hlen, hchk, hbytes⟩ := copy_feature_areas_spec is _ data' htail h
          refine ⟨by rw [hlen, length_copy_bytes], ?_, fun j => ?_⟩
          · intro i' hi' hbit'
            rcases List.mem_cons.1 hi' with rfl | hmem
            · exact ⟨fl, nf, hfl, hnf, by omega, not_not.1 hsize⟩
            · exact hchk i' hmem hbit'
          · rw [hbytes j, List.find?_cons]
            by_cases harea : in_feature_area native i j
            -- `j` is in this feature's area, so in no later one's
            · have hlater : is.find? (fun i' => features.testBit i' && in_feature_area native i' j) = none := by
                rw [List.find?_eq_none]
                intro i' hi'
                simpa using fun hb' ha' => hhead i' hi' hbit hb' j harea ha'
              have hj : nf.offset ≤ j ∧ j < nf.offset + nf.size := by
                simpa [in_feature_area, hnf] using harea
              have hL : layout.feature_layouts.getD i ⟨0, 0⟩ = fl := by
                rw [List.getD_eq_getElem?_getD, hfl]
                rfl
              have hN : native.feature_layouts.getD i ⟨0, 0⟩ = nf := by
                rw [List.getD_eq_getElem?_getD, hnf]
                rfl
              rw [hlater]
              simp only [hbit, harea, Bool.and_self]
              rw [getD_copy_bytes, if_pos ⟨by omega, hj.1, by omega⟩, feature_source_byte, hL, hN]
            -- elsewhere the byte is the one before
            · have hj : ¬(nf.offset ≤ j ∧ j < nf.offset + nf.size) := by
                simpa [in_feature_area, hnf] using harea
              simp only [hbit, harea, Bool.and_false]
              cases is.find? fun i' => features.testBit i' && in_feature_area native i' j with
              | some i' => rfl
              | none => rw [getD_copy_bytes, if_neg (by omega)]
    -- a feature not in use: nothing is copied
    · rw [if_neg (by rwa [and_one_shiftLeft_ne_zero_iff])] at h
      obtain ⟨hlen, hchk, hbytes⟩ := copy_feature_areas_spec is data data' htail h
      refine ⟨hlen, fun i' hi' hbit' => ?_, fun j => ?_⟩
      · rcases List.mem_cons.1 hi' with rfl | hmem
        · exact absurd hbit' hbit
        · exact hchk i' hmem hbit'
      · rw [hbytes j, List.find?_cons]
        simp [hbit]

/-- The loop does not panic when every feature in use has a native area
inside the data. -/
theorem copy_feature_areas_isSome :
    ∀ (is : List Nat) (data : List UInt8),
      (∀ i ∈ is, features.testBit i → ∃ nf, native.feature_layouts[i]? = some nf ∧ nf.offset + nf.size ≤ data.length) →
      (copy_feature_areas native layout d features is data).isSome
  | [], _, _ => rfl
  | i :: is, data, hnative => by
    have hrest : ∀ data', data'.length = data.length →
        (copy_feature_areas native layout d features is data').isSome := fun data' hlen =>
      copy_feature_areas_isSome is data' fun i' hi' hbit' => by
        rw [hlen]
        exact hnative i' (List.mem_cons_of_mem i hi') hbit'
    rw [copy_feature_areas]
    by_cases hbit : features.testBit i
    · rw [if_pos ((and_one_shiftLeft_ne_zero_iff _ _).2 hbit)]
      obtain ⟨nf, hnf, hroom⟩ := hnative i List.mem_cons_self hbit
      cases layout.feature_layouts[i]? with
      | none => rfl
      | some fl =>
        simp only
        split_ifs
        · rfl
        rw [hnf]
        simp only
        split_ifs with hsize hlen
        · rfl
        · omega
        · exact hrest _ (length_copy_bytes _ _ _ _ _)
    · rw [if_neg (by rwa [and_one_shiftLeft_ne_zero_iff])]
      exact hrest data rfl

end Loop

/-! ## The steps before the loop -/

theorem length_resize (data : List UInt8) (n : Nat) : (resize data n).length = n := by
  simp only [resize, List.length_append, List.length_take, List.length_replicate]
  omega

@[simp] theorem length_copy_legacy_area (data data_from : List UInt8) :
    (copy_legacy_area data data_from).length = data.length := by
  simp [copy_legacy_area]

/-- After the first steps the legacy area is the trace's and the rest zero. -/
theorem getD_copy_legacy_area {data : List UInt8} (data_from : List UInt8) (hlen : XSAVE_HEADER_OFFSET ≤ data.length)
    (j : Nat) :
    (copy_legacy_area data data_from).getD j 0 = if j < XSAVE_HEADER_OFFSET then data_from.getD j 0 else 0 := by
  unfold copy_legacy_area
  rw [getD_copy_bytes, getD_copy_bytes]
  simp only [length_copy_bytes, Nat.zero_add, Nat.zero_le, true_and, Nat.sub_zero]
  by_cases hj : j < XSAVE_HEADER_OFFSET
  · rw [if_neg (by omega), if_pos ⟨by omega, hj⟩, if_pos hj]
  · rw [if_neg hj]
    by_cases hin : j < data.length
    · rw [if_pos ⟨hin, by omega, by omega⟩]
      simp
    · rw [if_neg (by omega), if_neg (by omega), List.getD_eq_default _ _ (by omega)]

@[simp] theorem length_copy_header (data data_from : List UInt8) (features : Nat) :
    (copy_header data data_from features).length = data.length := by
  simp [copy_header]

/-- The header written: its first word `features`, the rest the trace's. -/
theorem getD_copy_header {data : List UInt8} (data_from : List UInt8) (features : Nat)
    (hlen : XSAVE_HEADER_END ≤ data.length) (j : Nat) :
    (copy_header data data_from features).getD j 0 =
      if XSAVE_HEADER_OFFSET ≤ j ∧ j < XSAVE_HEADER_OFFSET + 8 then
        (le_bytes 8 features).getD (j - XSAVE_HEADER_OFFSET) 0
      else if XSAVE_HEADER_OFFSET + 8 ≤ j ∧ j < XSAVE_HEADER_END then data_from.getD j 0
      else data.getD j 0 := by
  unfold copy_header
  rw [getD_copy_bytes, getD_copy_bytes]
  simp only [length_copy_bytes, Nat.zero_add]
  unfold XSAVE_HEADER_END XSAVE_HEADER_SIZE at *
  by_cases hhead : XSAVE_HEADER_OFFSET ≤ j ∧ j < XSAVE_HEADER_OFFSET + 8
  · rw [if_neg (by omega), if_pos ⟨by omega, hhead⟩, if_pos hhead]
  · rw [if_neg hhead]
    by_cases hrest : XSAVE_HEADER_OFFSET + 8 ≤ j ∧ j < XSAVE_HEADER_OFFSET + 64
    · rw [if_pos ⟨by omega, hrest.1, by omega⟩, if_pos hrest,
        show XSAVE_HEADER_OFFSET + 8 + (j - (XSAVE_HEADER_OFFSET + 8)) = j by omega]
    · rw [if_neg (by omega), if_neg hrest, if_neg (by omega)]

/-! ## A conversion that succeeds -/

section Convert

variable {self er' : ExtraRegisters} {native_layout layout : XSaveLayout} {a : SupportedArch} {d : List UInt8}

/-- What a successful conversion of XSAVE data did: the checks it passed, and
one of its three ends (no XSAVE here, no header in the trace, or the header
and the features copied). -/
theorem set_to_raw_data_true (h : self.set_to_raw_data native_layout a .XSave d layout = some (true, er')) :
    er'.format_ = .XSave ∧ er'.arch_ = a ∧ d.length = layout.full_size ∧ XSAVE_HEADER_OFFSET ≤ layout.full_size ∧
      (XSAVE_HEADER_END ≤ layout.full_size →
        features_used d layout &&& u64_not native_layout.supported_feature_bits = 0) ∧
      ((native_layout.full_size < XSAVE_HEADER_END ∧
          er'.data_ = copy_legacy_area (resize self.data_ native_layout.full_size) d) ∨
        (XSAVE_HEADER_END ≤ native_layout.full_size ∧ layout.full_size < XSAVE_HEADER_END ∧
          er'.data_ = copy_bytes (copy_legacy_area (resize self.data_ native_layout.full_size) d)
            XSAVE_HEADER_OFFSET (le_bytes 8 0x3) 0 8) ∨
        (XSAVE_HEADER_END ≤ native_layout.full_size ∧ XSAVE_HEADER_END ≤ layout.full_size ∧
          copy_feature_areas native_layout layout d (features_used d layout) (List.range' 2 62)
            (copy_header (copy_legacy_area (resize self.data_ native_layout.full_size) d) d
              (features_used d layout)) = some (true, er'.data_))) := by
  unfold ExtraRegisters.set_to_raw_data at h
  simp only [reduceCtorEq, if_false] at h
  split_ifs at h with hlen hsmall hroom hunsup hnative hdegen
  -- the three `return false`s
  · cases h
  · cases h
  · cases h
  -- the features passed the check against the native ones
  all_goals
    have hcheck : XSAVE_HEADER_END ≤ layout.full_size →
        features_used d layout &&& u64_not native_layout.supported_feature_bits = 0 :=
      fun hend => Classical.byContradiction fun hne => hunsup ⟨hend, hne⟩
  -- no XSAVE here
  · cases h
    exact ⟨rfl, rfl, not_not.1 hlen, by omega, hcheck, .inl ⟨hnative, rfl⟩⟩
  -- no header in the trace
  · cases h
    exact ⟨rfl, rfl, not_not.1 hlen, by omega, hcheck, .inr (.inl ⟨by omega, hdegen, rfl⟩)⟩
  -- the header and the features copied
  · obtain ⟨⟨ok, data⟩, hloop, hr⟩ := Option.map_eq_some_iff.1 h
    simp only [Prod.mk.injEq] at hr
    obtain ⟨rfl, rfl⟩ := hr
    exact ⟨rfl, rfl, not_not.1 hlen, by omega, hcheck, .inr (.inr ⟨by omega, by omega, hloop⟩)⟩

/-- The features a successful conversion finds in use, from bit 2, are
supported here. -/
theorem trace_features_supported (h : self.set_to_raw_data native_layout a .XSave d layout = some (true, er'))
    {i : Nat} (h2 : 2 ≤ i) (h64 : i < 64) (hbit : (trace_features layout d).testBit i) :
    native_layout.supported_feature_bits.testBit i := by
  obtain ⟨-, -, -, -, hcheck, -⟩ := set_to_raw_data_true h
  unfold trace_features at hbit
  split_ifs at hbit with hdegen
  -- x87 and SSE only
  · have hlt : 0x3 < 2 ^ i := Nat.lt_of_lt_of_le (by norm_num) (Nat.pow_le_pow_right (by norm_num) h2)
    rw [Nat.testBit_eq_false_of_lt hlt] at hbit
    cases hbit
  · exact testBit_of_and_u64_not_eq_zero (hcheck (by omega)) h64 hbit

end Convert

/-! ## The native areas -/

section Native

variable (N : NativeLayout)

/-- No byte of the legacy area or the header is in the native area of a
supported feature. -/
theorem copied_feature_of_lt_header_end {F j : Nat}
    (hsupp : ∀ i, 2 ≤ i → i < 64 → F.testBit i → N.layout.supported_feature_bits.testBit i)
    (hj : j < XSAVE_HEADER_END) : copied_feature N.layout F j = none := by
  unfold copied_feature
  rw [List.find?_eq_none]
  intro i hi
  obtain ⟨h2, h64⟩ := List.mem_range'_1.1 hi
  cases hb : F.testBit i
  · simp
  · obtain ⟨fl, hfl, hoff, -⟩ := N.feature i h2 (by omega) (hsupp i h2 (by omega) hb)
    simp only [in_feature_area, hfl, Bool.true_and, decide_eq_true_eq, Bool.and_eq_true, not_and, not_lt]
    omega

/-- The native areas of the supported features in use are apart. -/
theorem pairwise_feature_areas {F : Nat}
    (hsupp : ∀ i, 2 ≤ i → i < 64 → F.testBit i → N.layout.supported_feature_bits.testBit i) :
    (List.range' 2 62).Pairwise fun i i' => F.testBit i → F.testBit i' → ∀ j,
      in_feature_area N.layout i j → in_feature_area N.layout i' j → False := by
  apply (List.nodup_range' (s := 2) (n := 62)).imp_of_mem
  intro i i' hi hi' hne hb hb' j ha ha'
  obtain ⟨h2, h64⟩ := List.mem_range'_1.1 hi
  obtain ⟨h2', h64'⟩ := List.mem_range'_1.1 hi'
  exact N.apart i i' j h2 h2' hne (hsupp i h2 (by omega) hb) (hsupp i' h2' (by omega) hb') ha ha'

/-- A byte of the native AVX area goes to AVX when AVX is in use: bit 2 is
the first the search tries. -/
theorem copied_feature_avx {F j : Nat} (hbit : F.testBit AVX_FEATURE_BIT)
    (hsup : N.layout.supported_feature_bits.testBit AVX_FEATURE_BIT)
    (hj : AVX_XSAVE_OFFSET ≤ j) (hj' : j < AVX_XSAVE_OFFSET + 256) :
    copied_feature N.layout F j = some AVX_FEATURE_BIT := by
  have harea : in_feature_area N.layout AVX_FEATURE_BIT j := by
    simp only [in_feature_area, N.avx hsup, Bool.and_eq_true, decide_eq_true_eq]
    exact ⟨hj, hj'⟩
  unfold copied_feature
  rw [List.range'_succ, List.find?_cons_of_pos]
  · rfl
  · exact Bool.and_eq_true _ _ ▸ ⟨hbit, harea⟩

end Native

/-! ## The converted data -/

section Data

variable {self er' : ExtraRegisters} {a : SupportedArch} {d : List UInt8} {layout : XSaveLayout} (N : NativeLayout)

/-- A successful conversion gives native-size data holding, byte for byte,
what `d` holds under `layout` (`converted_byte`); and every feature it finds in
use from bit 2 is supported here and passed the checks. -/
theorem set_to_raw_data_data (h : self.set_to_raw_data N.layout a .XSave d layout = some (true, er')) :
    er'.data_.length = N.layout.full_size ∧
      (∀ i, 2 ≤ i → i < 64 → (trace_features layout d).testBit i →
        N.layout.supported_feature_bits.testBit i ∧ FeatureChecked N.layout layout i) ∧
      ∀ j, er'.data_.getD j 0 = converted_byte N.layout layout d j := by
  obtain ⟨-, -, -, -, -, hcases⟩ := set_to_raw_data_true h
  have hsupp := fun i (h2 : 2 ≤ i) (h64 : i < 64) => trace_features_supported h h2 h64
  have hres := length_resize self.data_ N.layout.full_size
  have hleg : XSAVE_HEADER_OFFSET ≤ (resize self.data_ N.layout.full_size).length := by
    rw [hres]
    exact N.legacy
  rcases hcases with ⟨hnative, hdata⟩ | ⟨hnative, hdegen, hdata⟩ | ⟨hnative, hfull, hloop⟩
  -- no XSAVE here: no feature from bit 2 is supported, so none is in use
  · have hnone : ∀ i, 2 ≤ i → i < 64 → ¬(trace_features layout d).testBit i := fun i h2 h64 hb => by
      obtain ⟨fl, -, hoff, hend⟩ := N.feature i h2 h64 (hsupp i h2 h64 hb)
      unfold XSAVE_HEADER_END at hnative hoff
      omega
    refine ⟨by rw [hdata, length_copy_legacy_area, hres], fun i h2 h64 hb => absurd hb (hnone i h2 h64),
      fun j => ?_⟩
    rw [hdata, getD_copy_legacy_area d hleg j, converted_byte]
    split_ifs <;> rfl
  -- no header in the trace: x87 and SSE in use, and no feature copied
  · have htf : trace_features layout d = 0x3 := if_pos hdegen
    have hlen : XSAVE_HEADER_END ≤ (copy_legacy_area (resize self.data_ N.layout.full_size) d).length := by
      rw [length_copy_legacy_area, hres]
      exact hnative
    refine ⟨by rw [hdata, length_copy_bytes, length_copy_legacy_area, hres], fun i h2 h64 hb => ?_, fun j => ?_⟩
    · have hlt : 0x3 < 2 ^ i := Nat.lt_of_lt_of_le (by norm_num) (Nat.pow_le_pow_right (by norm_num) h2)
      rw [htf, Nat.testBit_eq_false_of_lt hlt] at hb
      cases hb
    · have hnocopy : copied_feature N.layout 0x3 j = none := by
        unfold copied_feature
        rw [List.find?_eq_none]
        intro i hi
        have hlt : 0x3 < 2 ^ i :=
          Nat.lt_of_lt_of_le (by norm_num) (Nat.pow_le_pow_right (by norm_num) (List.mem_range'_1.1 hi).1)
        simp [Nat.testBit_eq_false_of_lt hlt]
      rw [hdata, getD_copy_bytes, getD_copy_legacy_area d hleg j, converted_byte, htf, hnocopy,
        length_copy_legacy_area, hres, Nat.zero_add]
      unfold XSAVE_HEADER_END XSAVE_HEADER_SIZE at *
      split_ifs <;> first | omega | rfl
  -- the header and the features copied
  · have htf : trace_features layout d = features_used d layout := if_neg (by omega)
    have hsuppF : ∀ i, 2 ≤ i → i < 64 → (features_used d layout).testBit i →
        N.layout.supported_feature_bits.testBit i := fun i h2 h64 hb => hsupp i h2 h64 (htf ▸ hb)
    have hlen : XSAVE_HEADER_END ≤ (copy_legacy_area (resize self.data_ N.layout.full_size) d).length := by
      rw [length_copy_legacy_area, hres]
      exact hnative
    obtain ⟨hlen', hchk, hbytes⟩ :=
      copy_feature_areas_spec N.layout layout d _ _ _ _ (pairwise_feature_areas N hsuppF) hloop
    refine ⟨by rw [hlen', length_copy_header, length_copy_legacy_area, hres],
      fun i h2 h64 hb => ⟨hsupp i h2 h64 hb, hchk i (List.mem_range'_1.2 ⟨h2, by omega⟩) (htf ▸ hb)⟩,
      fun j => ?_⟩
    rw [hbytes j, converted_byte, htf]
    by_cases hj : j < XSAVE_HEADER_END
    -- the legacy area and the header: no feature is copied there
    · have hnocopy := copied_feature_of_lt_header_end N hsuppF hj
      unfold copied_feature at hnocopy
      rw [hnocopy, getD_copy_header d _ hlen, getD_copy_legacy_area d hleg]
      unfold XSAVE_HEADER_END XSAVE_HEADER_SIZE at *
      split_ifs <;> first | omega | rfl
    -- after the header: a feature's byte, or zero
    · have hend : XSAVE_HEADER_END = XSAVE_HEADER_OFFSET + 64 := rfl
      rw [if_neg (by omega), if_neg (by omega), if_neg (by omega), if_neg (by omega)]
      unfold copied_feature
      cases (List.range' 2 62).find? fun i => (features_used d layout).testBit i && in_feature_area N.layout i j with
      | some i => rfl
      | none =>
        rw [getD_copy_header d _ hlen, getD_copy_legacy_area d hleg, if_neg (by omega), if_neg (by omega),
          if_neg (by omega)]

/-- `set_to_raw_data` does not panic, whatever the registers, the trace's
layout and the data, when the native layout is the CPU's. -/
theorem set_to_raw_data_isSome (self : ExtraRegisters) (a : SupportedArch) (format : Format) (d : List UInt8)
    (layout : XSaveLayout) : (self.set_to_raw_data N.layout a format d layout).isSome := by
  have hres := length_resize self.data_ N.layout.full_size
  unfold ExtraRegisters.set_to_raw_data
  simp only
  split_ifs with hnone hlen hsmall hroom hunsup hnative hdegen
  any_goals rfl
  -- the data has the native size, at least the legacy area
  · rw [hres] at hroom
    exact absurd N.legacy (by omega)
  -- every feature in use is supported, so its native area is inside the data
  · rw [Option.isSome_map]
    apply copy_feature_areas_isSome
    intro i hi hbit
    obtain ⟨h2, h64⟩ := List.mem_range'_1.1 hi
    have hcheck : features_used d layout &&& u64_not N.layout.supported_feature_bits = 0 :=
      Classical.byContradiction fun hne => hunsup ⟨by omega, hne⟩
    obtain ⟨fl, hfl, -, hend⟩ := N.feature i h2 (by omega) (testBit_of_and_u64_not_eq_zero hcheck (by omega) hbit)
    refine ⟨fl, hfl, ?_⟩
    rw [length_copy_header, length_copy_legacy_area, hres]
    exact hend

end Data

/-! ## Registers -/

/-- `reg_in_range` finds a register between `low` and `high`, at its slot. -/
theorem reg_in_range_eq_some {regno low high base stride size : Nat} {r : RegData}
    (h : reg_in_range regno low high base stride size = some r) :
    low ≤ regno ∧ regno ≤ high ∧ r = RegData.new (base + stride * (regno - low)) size := by
  unfold reg_in_range at h
  split_ifs at h with hout
  cases h
  exact ⟨by omega, by omega, rfl⟩

theorem FXSAVE_387_CTRL_OFFSETS_getD_le (n : Nat) : FXSAVE_387_CTRL_OFFSETS.getD n 0 ≤ 20 := by
  rw [List.getD_eq_getElem?_getD]
  rcases Nat.lt_or_ge n 8 with hn | hn
  · interval_cases n <;> decide
  · rw [List.getElem?_eq_none (by simp only [FXSAVE_387_CTRL_OFFSETS, List.length_cons, List.length_nil]; omega)]
    decide

/-- Where `xsave_register_data` places a register: nowhere; in the legacy
area; or in the AVX area, as the high half of a YMM register. -/
theorem xsave_register_data_cases (arch : SupportedArch) (regno : GdbRegister) :
    (xsave_register_data arch regno).offset = none ∨
      (∃ off, (xsave_register_data arch regno).offset = some off ∧
        (xsave_register_data arch regno).xsave_feature_bit = none ∧
        off + (xsave_register_data arch regno).size ≤ XSAVE_HEADER_OFFSET) ∨
      (∃ k < 16, (xsave_register_data arch regno).offset = some (AVX_XSAVE_OFFSET + 16 * k) ∧
        (xsave_register_data arch regno).size = 16 ∧
        (xsave_register_data arch regno).xsave_feature_bit = some AVX_FEATURE_BIT) := by
  unfold xsave_register_data
  split
  · exact .inl rfl
  next regno _ =>
    cases hst : reg_in_range regno DREG_64_ST0 DREG_64_ST7 ST_REGS_OFFSET ST_REG_SPACE 10 with
    -- ST0 to ST7, 16 bytes apart from 32
    | some r =>
      obtain ⟨-, hhigh, rfl⟩ := reg_in_range_eq_some hst
      refine .inr (.inl ⟨_, rfl, rfl, ?_⟩)
      simp only [RegData.new, DREG_64_ST0, DREG_64_ST7, DREG_64_FIRST_FXSAVE_REG, ST_REGS_OFFSET, ST_REG_SPACE,
        XSAVE_HEADER_OFFSET] at hhigh ⊢
      omega
    | none =>
      cases hxmm : reg_in_range regno DREG_64_XMM0 DREG_64_XMM15 XMM_REGS_OFFSET XMM_REG_SPACE 16 with
      -- XMM0 to XMM15, from 160
      | some r =>
        obtain ⟨-, hhigh, rfl⟩ := reg_in_range_eq_some hxmm
        refine .inr (.inl ⟨_, rfl, rfl, ?_⟩)
        simp only [RegData.new, DREG_64_XMM0, DREG_64_XMM15, XMM_REGS_OFFSET, XMM_REG_SPACE,
          XSAVE_HEADER_OFFSET] at hhigh ⊢
        omega
      | none =>
        cases hymm : reg_in_range regno DREG_64_YMM0H DREG_64_YMM15H AVX_XSAVE_OFFSET 16 16 with
        -- the high halves of YMM0 to YMM15, in the AVX area
        | some r =>
          obtain ⟨hlow, hhigh, rfl⟩ := reg_in_range_eq_some hymm
          exact .inr (.inr ⟨regno - DREG_64_YMM0H, by simp only [DREG_64_YMM0H, DREG_64_YMM15H] at *; omega,
            rfl, rfl, rfl⟩)
        | none =>
          simp only
          split_ifs
          · exact .inl rfl
          -- MXCSR
          · exact .inr (.inl ⟨24, rfl, rfl, by decide⟩)
          -- the x87 control registers
          · refine .inr (.inl ⟨_, rfl, rfl, ?_⟩)
            have := FXSAVE_387_CTRL_OFFSETS_getD_le (regno - DREG_64_FCTRL)
            simp only [RegData.new, XSAVE_HEADER_OFFSET]
            omega

/-- Two slices are equal when their bytes are. -/
theorem take_drop_eq_of_getD {l l' : List UInt8} {o o' n : Nat} (hl : o + n ≤ l.length) (hl' : o' + n ≤ l'.length)
    (h : ∀ t < n, l.getD (o + t) 0 = l'.getD (o' + t) 0) : (l.drop o).take n = (l'.drop o').take n := by
  apply List.ext_getElem
  · simp only [List.length_take, List.length_drop]
    omega
  · intro t h1 h2
    simp only [List.length_take, List.length_drop] at h1
    simp only [List.getElem_take, List.getElem_drop]
    have hbyte := h t (by omega)
    rwa [List.getD_eq_getElem _ _ (by omega), List.getD_eq_getElem _ _ (by omega)] at hbyte

section Read

variable {self er' : ExtraRegisters} {a : SupportedArch} {d : List UInt8} {layout : XSaveLayout} (N : NativeLayout)

/-- After a successful conversion, `xsave_features` reads the features in use
in the trace. -/
theorem xsave_features_converted (h : self.set_to_raw_data N.layout a .XSave d layout = some (true, er'))
    (hnative : XSAVE_HEADER_END ≤ N.layout.full_size) :
    xsave_features er'.data_ = trace_features layout d := by
  obtain ⟨hlen, -, hbytes⟩ := set_to_raw_data_data N h
  have hword : (er'.data_.drop XSAVE_HEADER_OFFSET).take 8 = ((le_bytes 8 (trace_features layout d)).drop 0).take 8 := by
    apply take_drop_eq_of_getD (by unfold XSAVE_HEADER_END XSAVE_HEADER_SIZE at hnative; omega) (by simp)
    intro t ht
    rw [hbytes, converted_byte, if_neg (by unfold XSAVE_HEADER_OFFSET; omega), if_neg (by omega),
      if_pos (by omega), Nat.add_sub_cancel_left, Nat.zero_add]
  unfold xsave_features read_u64
  rw [if_neg (by unfold XSAVE_HEADER_END at hnative; omega), hword, List.drop_zero,
    List.take_of_length_le (by simp), le_value_le_bytes]
  exact Nat.mod_eq_of_lt (trace_features_lt layout d)

/-- No feature from bit 2 is in use after a conversion to a native layout
without XSAVE. -/
theorem not_testBit_of_native_lt (h : self.set_to_raw_data N.layout a .XSave d layout = some (true, er'))
    (hnative : N.layout.full_size < XSAVE_HEADER_END) {i : Nat} (h2 : 2 ≤ i) (h64 : i < 64) :
    ¬(trace_features layout d).testBit i := fun hbit => by
  obtain ⟨-, hfeat, -⟩ := set_to_raw_data_data N h
  obtain ⟨fl, -, hoff, hend⟩ := N.feature i h2 h64 (hfeat i h2 h64 hbit).1
  unfold XSAVE_HEADER_END at hnative hoff
  omega

/-- The check `read_register` makes of the AVX bit reads the trace's bit. -/
theorem xsave_features_avx_converted (h : self.set_to_raw_data N.layout a .XSave d layout = some (true, er')) :
    (xsave_features er'.data_ &&& (1 <<< AVX_FEATURE_BIT) == 0) = !(trace_features layout d).testBit AVX_FEATURE_BIT := by
  by_cases hnative : XSAVE_HEADER_END ≤ N.layout.full_size
  · rw [xsave_features_converted N h hnative]
    have hiff := and_one_shiftLeft_ne_zero_iff (trace_features layout d) AVX_FEATURE_BIT
    cases hb : (trace_features layout d).testBit AVX_FEATURE_BIT
    · simpa [hb] using hiff
    · simpa [hb] using hiff
  -- without room for the header the word reads as zero, and no feature from bit 2 is in use
  · have hlen := (set_to_raw_data_data N h).1
    have hzero : xsave_features er'.data_ = 0 := by
      unfold xsave_features
      rw [if_pos (by unfold XSAVE_HEADER_END at hnative; omega)]
    have hunused := not_testBit_of_native_lt N h (by omega) (le_refl AVX_FEATURE_BIT) (by decide)
    rw [Bool.not_eq_true] at hunused
    rw [hzero, hunused]
    rfl

/-- When AVX is in use the native layout has its whole area, and the trace's
AVX area lies inside `d`. -/
theorem avx_area_converted (h : self.set_to_raw_data N.layout a .XSave d layout = some (true, er'))
    (huse : (trace_features layout d).testBit AVX_FEATURE_BIT) :
    N.layout.supported_feature_bits.testBit AVX_FEATURE_BIT ∧ AVX_XSAVE_OFFSET + 256 ≤ N.layout.full_size ∧
      (layout.feature_layouts.getD AVX_FEATURE_BIT ⟨0, 0⟩).offset + 256 ≤ d.length := by
  obtain ⟨hdlen, -⟩ := (set_to_raw_data_true h).2.2
  obtain ⟨hsup, fl, nf, hfl, hnf, hflend, hsz⟩ := (set_to_raw_data_data N h).2.1 AVX_FEATURE_BIT le_rfl (by decide) huse
  obtain ⟨nf_area, hnf_area, -, hend⟩ := N.feature AVX_FEATURE_BIT le_rfl (by decide) hsup
  have hnf_eq : nf = ⟨AVX_XSAVE_OFFSET, 256⟩ := Option.some.inj (hnf.symm.trans (N.avx hsup))
  have hend_eq : nf_area = ⟨AVX_XSAVE_OFFSET, 256⟩ := Option.some.inj (hnf_area.symm.trans (N.avx hsup))
  subst hnf_eq hend_eq
  refine ⟨hsup, hend, ?_⟩
  rw [List.getD_eq_getElem?_getD, hfl, Option.getD_some, hdlen, ← show fl.size = 256 from hsz]
  exact hflend

/-- After a successful conversion every register reads as the value it has
in the trace's data under the trace's layout. -/
theorem read_register_converted (h : self.set_to_raw_data N.layout a .XSave d layout = some (true, er'))
    (regno : GdbRegister) : er'.read_register regno = some (register_value layout d a regno) := by
  obtain ⟨hfmt, harch, hdlen, hL, -, -⟩ := set_to_raw_data_true h
  obtain ⟨hlen, hfeat, hbytes⟩ := set_to_raw_data_data N h
  have hne : er'.data_.length ≠ 0 := by
    have := N.legacy
    unfold XSAVE_HEADER_OFFSET at this hL
    omega
  unfold ExtraRegisters.read_register register_value
  rw [hfmt, harch, if_neg (by simp)]
  dsimp only
  rcases xsave_register_data_cases a regno with hnone | ⟨off, hoff, hbit, hle⟩ | ⟨k, hk, hoff, hsize, hbit⟩
  · rw [hnone]
  -- the legacy area, as the trace has it
  · have hleg := N.legacy
    rw [hoff, hbit]
    dsimp only
    rw [if_neg hne, if_neg (by simp), if_pos (by omega)]
    congr 2
    apply take_drop_eq_of_getD (by omega) (by omega)
    intro t ht
    rw [hbytes, converted_byte, if_pos (by omega)]
  -- an AVX register: zero until AVX is in use, and then the trace's AVX area
  · rw [hoff, hbit, hsize]
    dsimp only
    rw [if_neg hne, Option.any_some, xsave_features_avx_converted N h]
    cases huse : (trace_features layout d).testBit AVX_FEATURE_BIT
    · simp
    · obtain ⟨hsup, hroom, hd⟩ := avx_area_converted N h huse
      unfold AVX_XSAVE_OFFSET at hroom
      set fl := layout.feature_layouts.getD AVX_FEATURE_BIT ⟨0, 0⟩
      have hslice : (er'.data_.drop (AVX_XSAVE_OFFSET + 16 * k)).take 16 =
          (d.drop (fl.offset + (AVX_XSAVE_OFFSET + 16 * k - AVX_XSAVE_OFFSET))).take 16 := by
        apply take_drop_eq_of_getD (by unfold AVX_XSAVE_OFFSET; omega) (by unfold AVX_XSAVE_OFFSET; omega)
        intro t ht
        have hj : AVX_XSAVE_OFFSET ≤ AVX_XSAVE_OFFSET + 16 * k + t := by omega
        have hhdr : XSAVE_HEADER_OFFSET = 512 := rfl
        have hend : XSAVE_HEADER_END = 576 := rfl
        have havx : AVX_XSAVE_OFFSET = 576 := rfl
        rw [hbytes, converted_byte, if_neg (by omega), if_neg (by omega), if_neg (by omega), if_neg (by omega),
          copied_feature_avx N huse hsup hj (by omega)]
        have hnf : N.layout.feature_layouts.getD AVX_FEATURE_BIT ⟨0, 0⟩ = ⟨AVX_XSAVE_OFFSET, 256⟩ := by
          rw [List.getD_eq_getElem?_getD, N.avx hsup, Option.getD_some]
        dsimp only
        rw [feature_source_byte, hnf, show fl.offset + (AVX_XSAVE_OFFSET + 16 * k + t - AVX_XSAVE_OFFSET) =
          fl.offset + (AVX_XSAVE_OFFSET + 16 * k - AVX_XSAVE_OFFSET) + t by omega]
      rw [if_neg (by simp), if_pos (by unfold AVX_XSAVE_OFFSET; omega), if_pos rfl, hslice]

end Read

/-! ## The conversion -/

/-- Converting XSAVE data from the trace to the native layout never panics,
whatever the trace's layout and data.  When it succeeds the native data is the
trace's, moved byte by byte as `converted_byte` says (the legacy area, the
header word `trace_features`, each feature in use), and every register reads
as it does in the trace's data under the trace's layout. -/
theorem set_to_raw_data_preserves_registers (N : NativeLayout) (self : ExtraRegisters) (a : SupportedArch)
    (d : List UInt8) (layout : XSaveLayout) :
    (self.set_to_raw_data N.layout a .XSave d layout).isSome ∧
      ∀ er', self.set_to_raw_data N.layout a .XSave d layout = some (true, er') →
        er'.data_.length = N.layout.full_size ∧ (∀ j, er'.data_.getD j 0 = converted_byte N.layout layout d j) ∧
          (XSAVE_HEADER_END ≤ N.layout.full_size → xsave_features er'.data_ = trace_features layout d) ∧
          ∀ regno, er'.read_register regno = some (register_value layout d a regno) := by
  refine ⟨set_to_raw_data_isSome N self a .XSave d layout, fun er' h => ?_⟩
  obtain ⟨hlen, -, hbytes⟩ := set_to_raw_data_data N h
  exact ⟨hlen, hbytes, xsave_features_converted N h, read_register_converted N h⟩

/-- `3` has no bit from 2 set. -/
theorem three_testBit_eq_false {i : Nat} (h : 2 ≤ i) : (3 : Nat).testBit i = false :=
  Nat.testBit_eq_false_of_lt (lt_of_lt_of_le (by norm_num) (Nat.pow_le_pow_right (by norm_num) h))

/-- The layout of a CPU with XSAVE but only x87 and SSE. -/
def header_only_layout : NativeLayout where
  layout := ⟨XSAVE_HEADER_END, 3, []⟩
  legacy := by decide
  feature := fun _ h2 _ hb => by simp [three_testBit_eq_false h2] at hb
  apart := fun _ _ _ h2 _ _ hb => by simp [three_testBit_eq_false h2] at hb
  avx := fun hb => by simp [three_testBit_eq_false (i := AVX_FEATURE_BIT) le_rfl] at hb

/-- `7` has no bit from 3 set. -/
theorem seven_testBit_eq_false {i : Nat} (h : 3 ≤ i) : (7 : Nat).testBit i = false :=
  Nat.testBit_eq_false_of_lt (lt_of_lt_of_le (by norm_num) (Nat.pow_le_pow_right (by norm_num) h))

/-- The layout of a CPU with x87, SSE and AVX, AVX at 576. -/
def avx_layout : NativeLayout where
  layout := ⟨832, 7, [⟨0, 0⟩, ⟨0, 0⟩, ⟨AVX_XSAVE_OFFSET, 256⟩]⟩
  legacy := by decide
  feature := fun i h2 _ hb => by
    -- only bit 2 is set from bit 2 on
    obtain rfl : i = 2 := by
      by_contra hne
      simp [seven_testBit_eq_false (show 3 ≤ i by omega)] at hb
    exact ⟨_, rfl, by decide, by decide⟩
  apart := fun i i' _ h2 h2' hne hb hb' _ _ => by
    have hi : i = 2 := by
      by_contra hne'
      simp [seven_testBit_eq_false (show 3 ≤ i by omega)] at hb
    have hi' : i' = 2 := by
      by_contra hne'
      simp [seven_testBit_eq_false (show 3 ≤ i' by omega)] at hb'
    exact hne (hi.trans hi'.symm)
  avx := fun _ => rfl

/-- A trace layout whose AVX area is at 832, after a gap. -/
def avx_trace_layout : XSaveLayout := ⟨1088, 7, [⟨0, 0⟩, ⟨0, 0⟩, ⟨832, 256⟩]⟩

/-- Trace data in that layout with x87, SSE and AVX in use, XMM0's first byte
`1` and YMM0's upper half's first byte `2`. -/
def avx_trace_data : List UInt8 :=
  List.replicate 160 0 ++ [1] ++ List.replicate 351 0 ++ [7] ++ List.replicate 63 0 ++ List.replicate 256 0 ++
    [2] ++ List.replicate 255 0

/-- The trace's AVX area at 832 goes to the native one at 576. -/
theorem set_to_raw_data_moves_avx_area :
    (ExtraRegisters.set_to_raw_data ⟨.None, .X64, []⟩ avx_layout.layout .X64 .XSave avx_trace_data
        avx_trace_layout).map Prod.fst = some true ∧
      ((ExtraRegisters.set_to_raw_data ⟨.None, .X64, []⟩ avx_layout.layout .X64 .XSave avx_trace_data
        avx_trace_layout).isSome ∧
      ∀ er', ExtraRegisters.set_to_raw_data ⟨.None, .X64, []⟩ avx_layout.layout .X64 .XSave avx_trace_data
          avx_trace_layout = some (true, er') →
        er'.data_.length = avx_layout.layout.full_size ∧
          (∀ j, er'.data_.getD j 0 = converted_byte avx_layout.layout avx_trace_layout avx_trace_data j) ∧
          (XSAVE_HEADER_END ≤ avx_layout.layout.full_size →
            xsave_features er'.data_ = trace_features avx_trace_layout avx_trace_data) ∧
          ∀ regno, er'.read_register regno = some (register_value avx_trace_layout avx_trace_data .X64 regno)) :=
  ⟨by decide +kernel, set_to_raw_data_preserves_registers avx_layout ⟨.None, .X64, []⟩ .X64 avx_trace_data
    avx_trace_layout⟩

/-- A trace layout without a header (520 bytes, so only an eight-byte header
word) converts with the header word 3 written in, not the trace's word: x87
and SSE are taken to be in use. -/
theorem degenerate_layout_header_word : ∃ er',
    ExtraRegisters.set_to_raw_data ⟨.None, .X64, []⟩ header_only_layout.layout .X64 .XSave (List.replicate 520 0)
        ⟨520, 3, []⟩ = some (true, er') ∧
      xsave_features er'.data_ = 3 ∧ features_used (List.replicate 520 0) ⟨520, 3, []⟩ = 0 := by
  have hrun : (ExtraRegisters.set_to_raw_data ⟨.None, .X64, []⟩ header_only_layout.layout .X64 .XSave
      (List.replicate 520 0) ⟨520, 3, []⟩).map Prod.fst = some true := by decide +kernel
  obtain ⟨⟨ok, er'⟩, hr⟩ := Option.isSome_iff_exists.1
    (set_to_raw_data_isSome header_only_layout ⟨.None, .X64, []⟩ .X64 .XSave (List.replicate 520 0) ⟨520, 3, []⟩)
  have hok : ok = true := by
    rw [hr] at hrun
    exact Option.some.inj hrun
  subst hok
  refine ⟨er', hr, ?_, by decide +kernel⟩
  rw [xsave_features_converted header_only_layout hr le_rfl]
  rfl

end RdReplay.ExtraRegisters
