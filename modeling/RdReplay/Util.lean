/-
  Util.lean --- tracee words, pages and the byte search of `util.rs`.

  Sources: `remote_ptr.rs` (pointer arithmetic), `util.rs` (`page_size`,
  `floor_page_size`, `ceil_page_size`, `find`) and `kernel_abi.rs`
  (`SupportedArch`).

  WORDS.  A `RemotePtr` is a `usize`, 64 bits on the hosts rd runs on, and its
  `+ usize` and `- RemotePtr` go through `Wrapping<usize>`.  The model keeps words
  as naturals below `2 ^ 64` and writes every such wrap out with `% 2 ^ 64`.  The
  `+` inside `ceil_page_size` is a plain `usize` addition, which wraps in the
  release build, so it is written the same way.
-/
import Mathlib

set_option autoImplicit false

namespace RdReplay

/-- `SupportedArch`: the tracee architectures rd records and replays. -/
inductive SupportedArch where
  | X86
  | X64
  deriving DecidableEq, Repr

/-! ## Words and pages -/

/-- `Wrapping<usize>` addition: `RemotePtr + usize`, and `usize` or `u64` `+` in the
release build. -/
def wrapping_add (a b : Nat) : Nat := (a + b) % 2 ^ 64

/-- `Wrapping<usize>` subtraction of two words: `RemotePtr - RemotePtr`. -/
def wrapping_sub (a b : Nat) : Nat := (2 ^ 64 + a - b) % 2 ^ 64

/-- `page_size()`: `sysconf(_SC_PAGESIZE)`, which is 4096 on the x86 and x86-64
Linux systems rd supports. -/
def page_size : Nat := 4096

/-- `floor_page_size`: `sz & !(page_size() - 1)`, the page boundary at or below
`sz`. -/
def floor_page_size (sz : Nat) : Nat := sz / page_size * page_size

/-- `ceil_page_size`: `(size + page_size() - 1) & !(page_size() - 1)`. -/
def ceil_page_size (size : Nat) : Nat := floor_page_size (wrapping_add size (page_size - 1))

/-- A page-aligned word. -/
def Aligned (a : Nat) : Prop := a % page_size = 0

instance (a : Nat) : Decidable (Aligned a) := inferInstanceAs (Decidable (_ = _))

theorem wrapping_add_lt (a b : Nat) : wrapping_add a b < 2 ^ 64 :=
  Nat.mod_lt _ (by decide)

theorem wrapping_add_of_lt {a b : Nat} (h : a + b < 2 ^ 64) : wrapping_add a b = a + b :=
  Nat.mod_eq_of_lt h

theorem wrapping_sub_of_le {a b : Nat} (hba : b ≤ a) (ha : a < 2 ^ 64) :
    wrapping_sub a b = a - b := by
  unfold wrapping_sub
  omega

theorem wrapping_add_wrapping_add (a b c : Nat) :
    wrapping_add (wrapping_add a b) c = wrapping_add a (b + c) := by
  unfold wrapping_add
  rw [Nat.mod_add_mod, Nat.add_assoc]

/-- `x & !(2 ^ k - 1)` rounds a word down to a multiple of `2 ^ k`. -/
theorem and_round_down {x : Nat} (k : Nat) (hx : x < 2 ^ 64) (hk : k ≤ 64) :
    x &&& (2 ^ 64 - 1 - (2 ^ k - 1)) = x / 2 ^ k * 2 ^ k := by
  have hpow : 2 ^ (64 - k) * 2 ^ k = 2 ^ 64 := by rw [← Nat.pow_add, Nat.sub_add_cancel hk]
  -- the mask is the multiple of `2 ^ k` whose quotient is all ones below bit `64 - k`
  have hM : 2 ^ 64 - 1 - (2 ^ k - 1) = (2 ^ (64 - k) - 1) * 2 ^ k := by
    have := Nat.two_pow_pos k
    rw [Nat.sub_one_mul, hpow]
    omega
  have hmod : (x &&& (2 ^ 64 - 1 - (2 ^ k - 1))) % 2 ^ k = 0 := by
    rw [Nat.and_mod_two_pow, hM, Nat.mul_mod_left, Nat.and_zero]
  have hdiv : (x &&& (2 ^ 64 - 1 - (2 ^ k - 1))) / 2 ^ k = x / 2 ^ k := by
    rw [Nat.and_div_two_pow, hM, Nat.mul_div_cancel _ (Nat.two_pow_pos k),
      Nat.and_two_pow_sub_one_eq_mod]
    exact Nat.mod_eq_of_lt (Nat.div_lt_of_lt_mul (by rw [Nat.mul_comm, hpow]; exact hx))
  rw [← hdiv, Nat.div_mul_cancel (Nat.dvd_of_mod_eq_zero hmod)]

theorem floor_page_size_le (sz : Nat) : floor_page_size sz ≤ sz := by
  unfold floor_page_size page_size
  omega

theorem aligned_floor_page_size (sz : Nat) : Aligned (floor_page_size sz) := by
  unfold Aligned floor_page_size page_size
  omega

theorem floor_page_size_of_aligned {a : Nat} (h : Aligned a) : floor_page_size a = a := by
  unfold Aligned floor_page_size page_size at *
  omega

theorem aligned_ceil_page_size (size : Nat) : Aligned (ceil_page_size size) :=
  aligned_floor_page_size _

theorem ceil_page_size_lt (size : Nat) : ceil_page_size size < 2 ^ 64 :=
  Nat.lt_of_le_of_lt (floor_page_size_le _) (wrapping_add_lt _ _)

/-- Away from the top page, `ceil_page_size` is the least page boundary at or
above its argument. -/
theorem ceil_page_size_spec {size : Nat} (h : size + (page_size - 1) < 2 ^ 64) :
    size ≤ ceil_page_size size ∧ ceil_page_size size < size + page_size := by
  unfold ceil_page_size
  rw [wrapping_add_of_lt h]
  unfold floor_page_size page_size at *
  omega

theorem ceil_page_size_of_aligned {a : Nat} (h : Aligned a) (hlt : a < 2 ^ 64) :
    ceil_page_size a = a := by
  unfold ceil_page_size wrapping_add
  unfold Aligned floor_page_size page_size at *
  omega

/-- `ceil_page_size` of a sum whose first term is aligned, when nothing wraps. -/
theorem ceil_page_size_add {a n : Nat} (ha : Aligned a)
    (h : a + ceil_page_size n < 2 ^ 64) (hn : n + (page_size - 1) < 2 ^ 64) :
    ceil_page_size (a + n) = a + ceil_page_size n := by
  obtain ⟨h1, h2⟩ := ceil_page_size_spec hn
  have hal : Aligned (ceil_page_size n) := aligned_ceil_page_size n
  unfold ceil_page_size wrapping_add at *
  unfold Aligned floor_page_size page_size at *
  omega

/-! ## Byte search -/

/-- `util::find`: the first index at which `needle` occurs in `haystack`.  The
source walks an iterator over `haystack` and gives up once fewer than
`needle.len()` bytes remain. -/
def find {α : Type} [DecidableEq α] (haystack needle : List α) : Option Nat :=
  go haystack 0
where
  /-- One turn of the loop: `rest` is `it.as_slice()` and `i` the index of its
  first element. -/
  go : List α → Nat → Option Nat
    | rest, i =>
      if i + needle.length > haystack.length then none
      else if needle.isPrefixOf rest then some i
      else
        match rest with
        | [] => none
        | _ :: rest' => go rest' (i + 1)

end RdReplay
