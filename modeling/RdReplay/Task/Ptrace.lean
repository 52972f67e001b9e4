/-
  Task/Ptrace.lean --- reading and writing tracee memory a word at a time with
  `PTRACE_PEEKDATA` and `PTRACE_POKEDATA`.

  Source: `session/task/task_inner.rs`: `read_bytes_ptrace`,
  `write_bytes_ptrace`; `session/task/task_common.rs`: the ptrace path of
  `write_bytes_helper_common`.

  THE TRACEE.  Its memory is a byte at every address, read and written by the
  word of `size_of::<isize>()` bytes: a word is readable or not and writable or
  not (`PtraceMemory`).  A peek of an unreadable word and a poke of an
  unwritable one fail and set `errno`; a poke replaces the whole word.
  Addresses are naturals, so the model is that of a range that does not wrap.

  THE LOOPS split the range at word boundaries; `start & !(word_size - 1)` is
  `start / word_size * word_size`.  Each turn moves at least one byte, so the
  loops run with the buffer's length as fuel.  `errno` is cleared once, before
  the loop.

  WHAT COMES OF IT.  A read stops at the first unreadable word and returns
  exactly the bytes it read (`read_bytes_ptrace_spec`).  A write ignores the
  result of its pokes, and checks `errno` only after the peek of a partial word:
  an aligned write counts every byte as written, whatever the tracee allows
  (`write_bytes_ptrace_of_aligned`), and so does the `ok` flag of
  `write_bytes_helper_common` (`write_bytes_helper_ptrace_unwritable_word`).
-/
import Mathlib

set_option autoImplicit false

namespace RdReplay

/-- `size_of::<isize>()`. -/
def word_size : Nat := 8

/-- Tracee memory as `ptrace` sees it; `readable` and `writable` are by word
number. -/
structure PtraceMemory where
  bytes : Nat → UInt8
  readable : Nat → Bool
  writable : Nat → Bool

namespace PtraceMemory

/-- `PTRACE_PEEKDATA` of the aligned word at `start_word`: its bytes, or
`errno`. -/
def peek (m : PtraceMemory) (start_word : Nat) : Option (Nat → UInt8) :=
  if m.readable (start_word / word_size) then some fun i => m.bytes (start_word + i) else none

/-- `PTRACE_POKEDATA` of the aligned word at `start_word`: the whole word is
replaced, or `errno` is set. -/
def poke (m : PtraceMemory) (start_word : Nat) (v : Nat → UInt8) : Option PtraceMemory :=
  if m.writable (start_word / word_size) then
    some { m with bytes := fun a => if start_word ≤ a ∧ a < start_word + word_size then v (a - start_word)
                                    else m.bytes a }
  else none

end PtraceMemory

/-- The word the byte at `start` lies in: `start & !(word_size - 1)`. -/
def start_word_of (start : Nat) : Nat := start / word_size * word_size

/-- `min(end_word - start, buf_size - nwritten)`: the bytes of this turn. -/
def turn_length (start buf_size nwritten : Nat) : Nat :=
  min (start_word_of start + word_size - start) (buf_size - nwritten)

/-- The loop of `read_bytes_ptrace` from `nwritten` bytes read, with the bytes
read so far. -/
def read_bytes_ptrace_loop (m : PtraceMemory) (addr buf_size : Nat) :
    Nat → Nat → List UInt8 → Nat × List UInt8
  | 0, nwritten, acc => (nwritten, acc)
  | fuel + 1, nwritten, acc =>
    if nwritten < buf_size then
      let start := addr + nwritten
      let start_word := start_word_of start
      let length := turn_length start buf_size nwritten
      match m.peek start_word with
      | none => (nwritten, acc)
      | some v =>
        read_bytes_ptrace_loop m addr buf_size fuel (nwritten + length)
          (acc ++ (List.range length).map fun i => v (start - start_word + i))
    else (nwritten, acc)

/-- `read_bytes_ptrace`: how many bytes it read, and those bytes. -/
def read_bytes_ptrace (m : PtraceMemory) (addr buf_size : Nat) : Nat × List UInt8 :=
  read_bytes_ptrace_loop m addr buf_size buf_size 0 []

/-- The loop of `write_bytes_ptrace` from `nwritten` bytes counted, with
`errno` as the loop has left it. -/
def write_bytes_ptrace_loop (addr : Nat) (buf : List UInt8) :
    Nat → Nat → Bool → PtraceMemory → Nat × PtraceMemory
  | 0, nwritten, _, m => (nwritten, m)
  | fuel + 1, nwritten, errno, m =>
    if nwritten < buf.length then
      let start := addr + nwritten
      let start_word := start_word_of start
      let length := turn_length start buf.length nwritten
      -- a partial word is read first, and the loop stops if `errno` is set
      let v : Option (Nat → UInt8) :=
        if length < word_size then
          match m.peek start_word with
          | none => none
          | some v => if errno then none else some v
        else some fun _ => 0
      match v with
      | none => (nwritten, m)
      | some v =>
        let v := fun i =>
          if start - start_word ≤ i ∧ i < start - start_word + length then
            buf.getD (nwritten + i - (start - start_word)) 0
          else v i
        -- the result of the poke is not looked at; a failure only sets `errno`
        match m.poke start_word v with
        | none => write_bytes_ptrace_loop addr buf fuel (nwritten + length) true m
        | some m => write_bytes_ptrace_loop addr buf fuel (nwritten + length) errno m
    else (nwritten, m)

/-- `write_bytes_ptrace`: how many bytes it counts as written, and the memory
after. -/
def write_bytes_ptrace (m : PtraceMemory) (addr : Nat) (buf : List UInt8) : Nat × PtraceMemory :=
  write_bytes_ptrace_loop addr buf buf.length 0 false m

/-- The ptrace path of `write_bytes_helper_common`: the memory after, the `ok`
flag, and the range passed to `notify_written`, if any. -/
def write_bytes_helper_ptrace (m : PtraceMemory) (addr : Nat) (buf : List UInt8) :
    PtraceMemory × Bool × Option (Nat × Nat) :=
  if buf.length = 0 then (m, true, none)
  else
    let (nwritten, m) := write_bytes_ptrace m addr buf
    (m, !(nwritten < buf.length), if 0 < nwritten then some (addr, nwritten) else none)

/-! ## Turns of the loops -/

theorem start_word_of_le (start : Nat) : start_word_of start ≤ start := Nat.div_mul_le_self _ _

theorem lt_start_word_of_add (start : Nat) : start < start_word_of start + word_size := by
  unfold start_word_of word_size
  omega

theorem start_word_of_div (start : Nat) : start_word_of start / word_size = start / word_size := by
  unfold start_word_of word_size
  omega

/-- A turn moves at least one byte, and stays inside its word and the buffer. -/
theorem turn_length_spec (start : Nat) {buf_size nwritten : Nat} (h : nwritten < buf_size) :
    0 < turn_length start buf_size nwritten ∧
      start - start_word_of start + turn_length start buf_size nwritten ≤ word_size ∧
      nwritten + turn_length start buf_size nwritten ≤ buf_size := by
  have hle := start_word_of_le start
  have hlt := lt_start_word_of_add start
  unfold turn_length
  omega

/-- From an aligned position with whole words left, a turn is a whole word. -/
theorem turn_length_of_aligned {start buf_size nwritten : Nat} (hs : start % word_size = 0)
    (hn : (buf_size - nwritten) % word_size = 0) (h : nwritten < buf_size) :
    start_word_of start = start ∧ turn_length start buf_size nwritten = word_size := by
  unfold turn_length start_word_of word_size at *
  omega

/-! ## `read_bytes_ptrace` -/

section Read

variable (m : PtraceMemory) (addr buf_size : Nat)

/-- The bytes from `addr` on, as a read that got `n` bytes returns them. -/
def bytes_from (n : Nat) : List UInt8 := (List.range n).map fun i => m.bytes (addr + i)

theorem bytes_from_add (n k : Nat) :
    bytes_from m addr (n + k) = bytes_from m addr n ++ (List.range k).map fun i => m.bytes (addr + n + i) := by
  simp only [bytes_from, List.range_add, List.map_append, List.map_map, Function.comp_def,
    Nat.add_assoc]

theorem peek_eq_some {w : Nat} {v : Nat → UInt8} (h : m.peek w = some v) :
    v = fun i => m.bytes (w + i) := by
  unfold PtraceMemory.peek at h
  split at h
  · exact (Option.some.inj h).symm
  · cases h

theorem peek_eq_none {w : Nat} (h : m.peek w = none) : m.readable (w / word_size) = false := by
  unfold PtraceMemory.peek at h
  split at h
  · cases h
  · rename_i hr
    simpa using hr

/-- The read loop, with enough fuel and the bytes so far right, ends with the
bytes it read right, and stops early only at an unreadable word. -/
theorem read_bytes_ptrace_loop_spec :
    ∀ fuel nwritten, nwritten ≤ buf_size → buf_size - nwritten ≤ fuel →
      let r := read_bytes_ptrace_loop m addr buf_size fuel nwritten (bytes_from m addr nwritten)
      r.2 = bytes_from m addr r.1 ∧ r.1 ≤ buf_size ∧
        (r.1 < buf_size → m.readable ((addr + r.1) / word_size) = false) := by
  intro fuel
  induction fuel with
  | zero =>
    intro nwritten hle hfuel
    have : nwritten = buf_size := by omega
    subst this
    exact ⟨rfl, Nat.le_refl _, fun h => absurd h (Nat.lt_irrefl _)⟩
  | succ fuel ih =>
    intro nwritten hle hfuel
    simp only [read_bytes_ptrace_loop]
    split
    · rename_i hlt
      obtain ⟨hpos, hword, hbuf⟩ := turn_length_spec (addr + nwritten) hlt
      cases hp : m.peek (start_word_of (addr + nwritten)) with
      | none =>
        -- the word cannot be read
        refine ⟨rfl, hle, fun _ => ?_⟩
        rw [← start_word_of_div]
        exact peek_eq_none m hp
      | some v =>
        -- the word is read: its bytes from `start` on are the next ones
        have hbytes : bytes_from m addr nwritten ++
            (List.range (turn_length (addr + nwritten) buf_size nwritten)).map
              (fun i => v (addr + nwritten - start_word_of (addr + nwritten) + i)) =
            bytes_from m addr (nwritten + turn_length (addr + nwritten) buf_size nwritten) := by
          have hw := start_word_of_le (addr + nwritten)
          rw [bytes_from_add, peek_eq_some m hp]
          congr 1
          apply List.map_congr_left
          intro i _
          dsimp only
          congr 1
          omega
        simp only
        rw [hbytes]
        exact ih _ (by omega) (by omega)
    · exact ⟨rfl, hle, fun h => absurd h (by assumption)⟩

/-- `read_bytes_ptrace` returns `n` bytes, those of `[addr, addr + n)`, and
`n` is short of the length only when the word holding `addr + n` cannot be
read. -/
theorem read_bytes_ptrace_spec :
    (read_bytes_ptrace m addr buf_size).2 = bytes_from m addr (read_bytes_ptrace m addr buf_size).1 ∧
      (read_bytes_ptrace m addr buf_size).1 ≤ buf_size ∧
      ((read_bytes_ptrace m addr buf_size).1 < buf_size →
        m.readable ((addr + (read_bytes_ptrace m addr buf_size).1) / word_size) = false) :=
  read_bytes_ptrace_loop_spec m addr buf_size buf_size 0 (Nat.zero_le _) (by omega)

end Read

/-! ## `write_bytes_ptrace` -/

/-- From an aligned position, with whole words left, the write loop counts every
byte, whatever the pokes did: it never peeks, so it never looks at `errno`. -/
theorem write_bytes_ptrace_loop_of_aligned (addr : Nat) (buf : List UInt8) (ha : addr % word_size = 0)
    (hl : buf.length % word_size = 0) :
    ∀ fuel nwritten errno (m : PtraceMemory), nwritten % word_size = 0 → nwritten ≤ buf.length →
      buf.length - nwritten ≤ fuel → (write_bytes_ptrace_loop addr buf fuel nwritten errno m).1 = buf.length := by
  intro fuel
  induction fuel with
  | zero =>
    intro nwritten errno m _ hle hfuel
    simp only [write_bytes_ptrace_loop]
    omega
  | succ fuel ih =>
    intro nwritten errno m hn hle hfuel
    simp only [write_bytes_ptrace_loop]
    split
    · rename_i hlt
      have hs : (addr + nwritten) % word_size = 0 := by unfold word_size at *; omega
      have hrest : (buf.length - nwritten) % word_size = 0 := by unfold word_size at *; omega
      obtain ⟨-, hlen⟩ := turn_length_of_aligned hs hrest hlt
      have hwhole : ¬turn_length (addr + nwritten) buf.length nwritten < word_size := by omega
      simp only [hwhole, if_false]
      have hnext : (nwritten + turn_length (addr + nwritten) buf.length nwritten) % word_size = 0 := by
        rw [hlen]; unfold word_size at *; omega
      obtain ⟨hpos, -, hle'⟩ := turn_length_spec (addr + nwritten) hlt
      split
      · exact ih _ _ _ hnext hle' (by omega)
      · exact ih _ _ _ hnext hle' (by omega)
    · omega

/-- An aligned write of whole words counts all its bytes as written, in every
tracee. -/
theorem write_bytes_ptrace_of_aligned (m : PtraceMemory) {addr : Nat} {buf : List UInt8}
    (ha : addr % word_size = 0) (hl : buf.length % word_size = 0) :
    (write_bytes_ptrace m addr buf).1 = buf.length :=
  write_bytes_ptrace_loop_of_aligned addr buf ha hl _ 0 false m (by decide) (Nat.zero_le _) (Nat.le_refl _)

/-- Eight bytes written at `0x1000` in a tracee whose word there can be read
but not written: `write_bytes_helper_common` reports success and notifies
`[0x1000, 0x1008)` as written, and the tracee's byte at `0x1000` is still 0. -/
theorem write_bytes_helper_ptrace_unwritable_word :
    let m : PtraceMemory := ⟨fun _ => 0, fun _ => true, fun w => w != 0x200⟩
    let r := write_bytes_helper_ptrace m 0x1000 [1, 2, 3, 4, 5, 6, 7, 8]
    r.2 = (true, some (0x1000, 8)) ∧ r.1.bytes 0x1000 = 0 := by
  decide

end RdReplay
