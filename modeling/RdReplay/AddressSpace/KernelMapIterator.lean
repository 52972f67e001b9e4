/-
  AddressSpace/KernelMapIterator.lean --- reading a line of `/proc/<pid>/maps`.

  Source: `session/address_space/kernel_map_iterator.rs`
  (`KernelMapIterator::parse_rawline`, `get_prot`, `get_map_flags`).

  THE LINE.  `parse_rawline` splits the line at its first five spaces, parses
  the numbers with `from_str_radix` and every `unwrap` that fails is a panic,
  here `none`.  The file name is what is left: its leading spaces (the kernel's
  padding) and trailing newlines are dropped, and each `\012` the kernel printed
  for a newline is turned back into one.  The bytes of the line are kept as
  bytes: `String::from_utf8_lossy` changes only bytes that are not ASCII, and
  none of the tests looks at those.  An `OsStr` becomes the model's `fsname_`
  one character per byte.

  THE KERNEL.  `show_map_line` is the line the kernel prints, in the format
  `%lx-%lx %c%c%c%c %08llx %02x:%02x %lu `, then padding and the path with each
  newline written `\012`.  It is the account `parse_rawline` is read against,
  not part of rd.
-/
import RdReplay.AddressSpace.KernelMapping

set_option autoImplicit false

namespace RdReplay.KernelMapIterator

/-! ## Splitting and numbers -/

/-- `splitn(n, |c| *c == sep)`: the pieces between the first `n - 1` separators,
and the rest. -/
def splitn (sep : UInt8) : Nat → List UInt8 → List (List UInt8)
  | 0, _ => []
  | 1, s => [s]
  | n + 2, s =>
    match s.dropWhile (· != sep) with
    | [] => [s.takeWhile (· != sep)]
    | _ :: rest => s.takeWhile (· != sep) :: splitn sep (n + 1) rest

/-- `split(sep)`: every piece; a line has fewer separators than bytes. -/
def split (sep : UInt8) (s : List UInt8) : List (List UInt8) := splitn sep (s.length + 1) s

/-- The value of a digit of `radix`, as `char::to_digit`. -/
def to_digit (radix : Nat) (c : UInt8) : Option Nat :=
  let d :=
    if 48 ≤ c.toNat ∧ c.toNat ≤ 57 then c.toNat - 48
    else if 97 ≤ c.toNat ∧ c.toNat ≤ 122 then c.toNat - 97 + 10
    else if 65 ≤ c.toNat ∧ c.toNat ≤ 90 then c.toNat - 65 + 10
    else radix
  if d < radix then some d else none

/-- One digit of `from_str_radix`: the value so far, checked against the
type's bound. -/
def from_str_radix_step (radix bound : Nat) (acc : Option Nat) (c : UInt8) : Option Nat :=
  acc.bind fun v => (to_digit radix c).bind fun d =>
    if v * radix + d < bound then some (v * radix + d) else none

/-- `from_str_radix` of an unsigned type below `bound`: an optional `+`, then at
least one digit. -/
def from_str_radix (radix bound : Nat) (s : List UInt8) : Option Nat :=
  let digits := match s with
    | 43 :: rest => rest
    | _ => s
  if digits = [] then none else digits.foldl (from_str_radix_step radix bound) (some 0)

/-- The `unwrap`ed `n`-th piece. -/
def piece (ps : List (List UInt8)) (n : Nat) : Option (List UInt8) := ps[n]?

/-! ## Permissions and devices -/

/-- `get_prot`: which of `r`, `w`, `x` the permissions show. -/
def get_prot (perms_s : List UInt8) : Nat :=
  (if perms_s.contains 114 then PROT_READ else 0) |||
    (if perms_s.contains 119 then PROT_WRITE else 0) |||
    (if perms_s.contains 120 then PROT_EXEC else 0)

/-- `get_map_flags`: `p` is private, `s` shared. -/
def get_map_flags (perms_s : List UInt8) : Nat :=
  (if perms_s.contains 112 then MAP_PRIVATE else 0) |||
    (if perms_s.contains 115 then MAP_SHARED else 0)

/-- `makedev`, as glibc and `nix` compute it. -/
def makedev (major minor : Nat) : Nat :=
  ((major &&& 0xfffff000) <<< 32) ||| ((major &&& 0xfff) <<< 8) |||
    ((minor &&& 0xffffff00) <<< 12) ||| (minor &&& 0xff)

/-- `OsStr::from_bytes`, one character per byte. -/
def os_str_of_bytes (bs : List UInt8) : String := String.ofList (bs.map fun b => Char.ofNat b.toNat)

/-! ## The file name -/

/-- The `\012` conversion: after a backslash the next three bytes are taken
together (`c1`, `c2`, `c3`), and pushed back as they were unless they are
`012`; fewer than three are pushed back as they are. -/
def unescape : List UInt8 → List UInt8
  | [] => []
  | 92 :: 48 :: 49 :: 50 :: rest => 10 :: unescape rest
  | 92 :: c1 :: c2 :: c3 :: rest => 92 :: c1 :: c2 :: c3 :: unescape rest
  | 92 :: rest => 92 :: rest
  | c :: rest => c :: unescape rest

/-- The file name of a line: padding and trailing newlines dropped, then
`unescape`. -/
def filename (filename_unescaped : List UInt8) : List UInt8 :=
  let start_index := (filename_unescaped.takeWhile (· == 32)).length
  let end_index := filename_unescaped.length - (filename_unescaped.reverse.takeWhile (· == 10)).length
  unescape ((filename_unescaped.take end_index).drop start_index)

/-- `parse_rawline`. -/
def parse_rawline (raw_line : List UInt8) : Option KernelMapping := do
  let fields := splitn 32 6 raw_line
  let addr_range ← piece fields 0
  let perms_s ← piece fields 1
  let offset_s ← piece fields 2
  let device ← piece fields 3
  let inode_s ← piece fields 4
  let filename_unescaped ← piece fields 5
  let addr_low_s ← piece (split 45 addr_range) 0
  let addr_high_s ← piece (split 45 addr_range) 1
  let dev_major_s ← piece (split 58 device) 0
  let dev_minor_s ← piece (split 58 device) 1
  let addr_low ← from_str_radix 16 (2 ^ 64) addr_low_s
  let addr_high ← from_str_radix 16 (2 ^ 64) addr_high_s
  let offset ← from_str_radix 16 (2 ^ 64) offset_s
  let dev_major ← from_str_radix 16 (2 ^ 32) dev_major_s
  let dev_minor ← from_str_radix 16 (2 ^ 32) dev_minor_s
  let inode ← from_str_radix 10 (2 ^ 64) inode_s
  pure (KernelMapping.new_with_opts addr_low addr_high (os_str_of_bytes (filename filename_unescaped))
    (makedev dev_major dev_minor) inode (get_prot perms_s) (get_map_flags perms_s) offset)

/-! ## The kernel's line -/

/-- The character of a digit below 16, lower case. -/
def digit_char (d : Nat) : UInt8 := UInt8.ofNat (if d < 10 then 48 + d else 87 + d)

/-- `v` in `radix`, with at least `width` digits: `%lx`, `%08llx`, `%02x`, `%lu`. -/
def print_digits (radix width v : Nat) : List UInt8 :=
  let ds := (Nat.digits radix v).reverse.map digit_char
  List.replicate (width - ds.length) 48 ++ ds

/-- The kernel's path escape: each newline is written `\012`. -/
def escape (path : List UInt8) : List UInt8 :=
  path.flatMap fun b => if b = 10 then [92, 48, 49, 50] else [b]

/-- The line the kernel prints for a mapping, with `pad` spaces before the path. -/
def show_map_line (start end_ : Nat) (r w x shared : Bool) (offset major minor inode pad : Nat)
    (path : List UInt8) : List UInt8 :=
  print_digits 16 1 start ++ [45] ++ print_digits 16 1 end_ ++ [32] ++
    [if r then 114 else 45, if w then 119 else 45, if x then 120 else 45, if shared then 115 else 112] ++
    [32] ++ print_digits 16 8 offset ++ [32] ++ print_digits 16 2 major ++ [58] ++
    print_digits 16 2 minor ++ [32] ++ print_digits 10 1 inode ++ [32] ++
    List.replicate pad 32 ++ escape path ++ [10]

/-- The mapping such a line describes. -/
def shown_mapping (start end_ : Nat) (r w x shared : Bool) (offset major minor inode : Nat)
    (path : List UInt8) : KernelMapping :=
  KernelMapping.new_with_opts start end_ (os_str_of_bytes path) (makedev major minor) inode
    ((if r then PROT_READ else 0) ||| (if w then PROT_WRITE else 0) ||| (if x then PROT_EXEC else 0))
    (if shared then MAP_SHARED else MAP_PRIVATE) offset

/-! ## Splitting a line -/

theorem takeWhile_append_sep {sep : UInt8} : ∀ {a : List UInt8} (b : List UInt8), sep ∉ a →
    (a ++ sep :: b).takeWhile (· != sep) = a ∧ (a ++ sep :: b).dropWhile (· != sep) = sep :: b
  | [], b, _ => by simp
  | c :: a, b, ha => by
    have hc : c ≠ sep := fun h => ha (h ▸ List.mem_cons_self)
    obtain ⟨ht, hd⟩ := takeWhile_append_sep (a := a) b (fun h => ha (List.mem_cons_of_mem _ h))
    simp [hc, ht, hd]

/-- A piece without the separator, then the separator, ends the first piece. -/
theorem splitn_append_sep {sep : UInt8} {a : List UInt8} (ha : sep ∉ a) (n : Nat) (b : List UInt8) :
    splitn sep (n + 2) (a ++ sep :: b) = a :: splitn sep (n + 1) b := by
  obtain ⟨ht, hd⟩ := takeWhile_append_sep b ha
  rw [splitn, hd, ht]

/-- A piece without the separator is the only piece. -/
theorem splitn_of_not_mem {sep : UInt8} {s : List UInt8} (hs : sep ∉ s) :
    ∀ {k : Nat}, 0 < k → splitn sep k s = [s]
  | 1, _ => rfl
  | k + 2, _ => by
    have hd : s.dropWhile (· != sep) = [] := by
      rw [List.dropWhile_eq_nil_iff]
      intro c hc
      simpa using fun h : c = sep => hs (h ▸ hc)
    have ht : s.takeWhile (· != sep) = s := by
      rw [List.takeWhile_eq_self_iff]
      intro c hc
      simpa using fun h : c = sep => hs (h ▸ hc)
    rw [splitn, hd, ht]

theorem split_append_sep {sep : UInt8} {a b : List UInt8} (ha : sep ∉ a) (hb : sep ∉ b) :
    split sep (a ++ sep :: b) = [a, b] := by
  have hlen : (a ++ sep :: b).length + 1 = (a.length + b.length) + 2 := by simp; omega
  rw [split, hlen, splitn_append_sep ha, splitn_of_not_mem hb (by omega)]

/-! ## Printing and parsing numbers -/

/-- The bytes of a printed number: decimal digits and `a` to `f`. -/
def IsDigitByte (b : UInt8) : Prop := (48 ≤ b.toNat ∧ b.toNat ≤ 57) ∨ (97 ≤ b.toNat ∧ b.toNat ≤ 102)

theorem toNat_digit_char {d : Nat} (hd : d < 16) :
    (digit_char d).toNat = if d < 10 then 48 + d else 87 + d := by
  unfold digit_char
  split <;> (rw [UInt8.toNat_ofNat']; omega)

theorem digit_char_isDigitByte {d : Nat} (hd : d < 16) : IsDigitByte (digit_char d) := by
  unfold IsDigitByte
  rw [toNat_digit_char hd]
  split <;> omega

theorem to_digit_digit_char {radix d : Nat} (hr : radix ≤ 16) (hd : d < radix) :
    to_digit radix (digit_char d) = some d := by
  simp only [to_digit, toNat_digit_char (show d < 16 by omega)]
  by_cases h10 : d < 10
  · simp (disch := omega) only [if_pos]
    congr 1
    omega
  · simp (disch := omega) only [if_pos, if_neg]
    congr 1
    omega

theorem mem_print_digits {radix width v : Nat} (hr : 2 ≤ radix) (hr16 : radix ≤ 16) {b : UInt8}
    (hb : b ∈ print_digits radix width v) : IsDigitByte b := by
  simp only [print_digits, List.mem_append, List.mem_replicate, List.mem_map, List.mem_reverse] at hb
  rcases hb with ⟨-, rfl⟩ | ⟨d, hd, rfl⟩
  · exact .inl ⟨by decide, by decide⟩
  · exact digit_char_isDigitByte (by have := Nat.digits_lt_base (by omega) hd; omega)

theorem not_mem_of_isDigitByte {s : List UInt8} (hs : ∀ b ∈ s, IsDigitByte b) {sep : UInt8}
    (hsep : sep.toNat < 48 ∨ (57 < sep.toNat ∧ sep.toNat < 97)) : sep ∉ s := by
  intro h
  rcases hs sep h with h | h <;> omega

theorem foldl_le (radix : Nat) (hr : 0 < radix) :
    ∀ (ds : List Nat) (a : Nat), a ≤ ds.foldl (fun acc d => acc * radix + d) a
  | [], _ => le_rfl
  | d :: ds, a => by
    have := foldl_le radix hr ds (a * radix + d)
    have : a ≤ a * radix := Nat.le_mul_of_pos_right a hr
    simp only [List.foldl_cons]
    omega

/-- Parsing digits keeps the value of the digits read so far, while it stays
below the type's bound. -/
theorem foldl_from_str_radix_step {radix bound : Nat} (hr : 0 < radix) (hr16 : radix ≤ 16) :
    ∀ (ds : List Nat) (a : Nat), (∀ d ∈ ds, d < radix) →
      ds.foldl (fun acc d => acc * radix + d) a < bound →
        (ds.map digit_char).foldl (from_str_radix_step radix bound) (some a) =
          some (ds.foldl (fun acc d => acc * radix + d) a)
  | [], _, _, _ => rfl
  | d :: ds, a, hds, hlt => by
    have hle := foldl_le radix hr ds (a * radix + d)
    simp only [List.foldl_cons] at hlt ⊢
    simp only [List.map_cons, List.foldl_cons, from_str_radix_step, Option.bind_some,
      to_digit_digit_char hr16 (hds d List.mem_cons_self)]
    rw [if_pos (by omega)]
    exact foldl_from_str_radix_step hr hr16 ds _ (fun d hd => hds d (List.mem_cons_of_mem _ hd)) hlt

theorem foldl_from_str_radix_step_zeros {radix bound : Nat} (hr : 0 < radix) (hr16 : radix ≤ 16)
    (hb : 0 < bound) : ∀ z, (List.replicate z (48 : UInt8)).foldl (from_str_radix_step radix bound) (some 0) =
      some 0
  | 0 => rfl
  | z + 1 => by
    have h48 : to_digit radix 48 = some 0 := to_digit_digit_char (d := 0) hr16 hr
    rw [List.replicate_succ, List.foldl_cons, from_str_radix_step, Option.bind_some, h48,
      Option.bind_some, if_pos (by omega), Nat.zero_mul, Nat.add_zero]
    exact foldl_from_str_radix_step_zeros hr hr16 hb z

theorem foldl_reverse_digits (radix : Nat) :
    ∀ L : List Nat, L.reverse.foldl (fun acc d => acc * radix + d) 0 = Nat.ofDigits radix L
  | [] => rfl
  | d :: L => by
    rw [List.reverse_cons, List.foldl_append, foldl_reverse_digits radix L, Nat.ofDigits_cons]
    simp only [List.foldl_cons, List.foldl_nil]
    ring

/-- What the kernel prints for a number below the type's bound parses back to it. -/
theorem from_str_radix_print_digits {radix width v bound : Nat} (hr : 2 ≤ radix) (hr16 : radix ≤ 16)
    (hw : 0 < width) (hv : v < bound) :
    from_str_radix radix bound (print_digits radix width v) = some v := by
  have hdigits : ∀ b ∈ print_digits radix width v, IsDigitByte b := fun b hb => mem_print_digits hr hr16 hb
  have hne : print_digits radix width v ≠ [] := by
    intro h
    have hlen := congrArg List.length h
    simp only [print_digits, List.length_append, List.length_replicate, List.length_map,
      List.length_reverse, List.length_nil] at hlen
    omega
  -- no `+` in front: the digits are the whole text
  have hplus : (match print_digits radix width v with
      | 43 :: rest => rest
      | _ => print_digits radix width v) = print_digits radix width v := by
    split
    · rename_i rest h
      exact absurd (h ▸ List.mem_cons_self) (not_mem_of_isDigitByte hdigits (by decide))
    · rfl
  unfold from_str_radix
  simp only [hplus, if_neg hne]
  have hlt : ∀ d ∈ (Nat.digits radix v).reverse, d < radix := fun d hd =>
    Nat.digits_lt_base (by omega) (List.mem_reverse.1 hd)
  rw [print_digits, List.foldl_append,
    foldl_from_str_radix_step_zeros (by omega) hr16 (by omega),
    foldl_from_str_radix_step (by omega) hr16 _ 0 hlt (by rw [foldl_reverse_digits, Nat.ofDigits_digits]; exact hv),
    foldl_reverse_digits, Nat.ofDigits_digits]

theorem not_mem_print_digits {radix width v : Nat} (hr : 2 ≤ radix) (hr16 : radix ≤ 16) {sep : UInt8}
    (hsep : sep.toNat < 48 ∨ (57 < sep.toNat ∧ sep.toNat < 97)) : sep ∉ print_digits radix width v :=
  not_mem_of_isDigitByte (fun _ hb => mem_print_digits hr hr16 hb) hsep

/-! ## The file name -/

theorem escape_cons (b : UInt8) (path : List UInt8) :
    escape (b :: path) = (if b = 10 then [92, 48, 49, 50] else [b]) ++ escape path := by
  simp [escape]

theorem not_mem_escape (path : List UInt8) : (10 : UInt8) ∉ escape path := by
  simp only [escape, List.mem_flatMap, not_exists, not_and]
  intro b _
  split
  · simp
  · simpa [eq_comm]

theorem head?_escape {path : List UInt8} (h : path.head? ≠ some 32) : (escape path).head? ≠ some 32 := by
  cases path with
  | nil => simp [escape]
  | cons b path =>
    rw [escape_cons]
    split
    · simp
    · simpa using h

/-- A path without a backslash comes back from the kernel's escape unchanged:
every backslash the unescaper meets starts a `\012`. -/
theorem unescape_escape : ∀ {path : List UInt8}, (92 : UInt8) ∉ path → unescape (escape path) = path
  | [], _ => rfl
  | b :: path, h => by
    have hb : b ≠ 92 := fun hb => h (hb ▸ List.mem_cons_self)
    have ih := unescape_escape (fun h' => h (List.mem_cons_of_mem _ h'))
    rw [escape_cons]
    by_cases h10 : b = 10
    · rw [if_pos h10, h10]
      simp only [List.cons_append, List.nil_append, unescape, ih]
    · rw [if_neg h10, List.singleton_append, unescape.eq_def]
      split <;> simp_all

theorem takeWhile_padding {s : List UInt8} (hs : s.head? ≠ some 32) :
    ∀ pad, (List.replicate pad (32 : UInt8) ++ s ++ [10]).takeWhile (· == 32) = List.replicate pad 32
  | 0 => by
    cases s with
    | nil => decide
    | cons b s =>
      have hb : b ≠ 32 := fun h => hs (by simp [h])
      simp [hb]
  | pad + 1 => by
    rw [List.replicate_succ, List.cons_append, List.cons_append, List.takeWhile_cons_of_pos (by decide),
      takeWhile_padding hs pad]

theorem takeWhile_reverse_newline {s : List UInt8} (hs : (10 : UInt8) ∉ s) (pad : Nat) :
    (List.replicate pad (32 : UInt8) ++ s ++ [10]).reverse.takeWhile (· == 10) = [10] := by
  rw [List.reverse_append, List.reverse_singleton, List.singleton_append,
    List.takeWhile_cons_of_pos (by decide), List.reverse_append]
  congr 1
  -- the byte before the final newline is the last of the path, or of the padding
  cases h : s.reverse with
  | nil =>
    rw [List.nil_append, List.reverse_replicate]
    cases pad with
    | zero => rfl
    | succ pad => rw [List.replicate_succ, List.takeWhile_cons_of_neg (by decide)]
  | cons c rest =>
    have hc : c ≠ 10 := fun hc => hs (List.mem_reverse.1 (h ▸ hc ▸ List.mem_cons_self))
    simp [hc]

/-- The padding and the final newline are dropped, whatever the padding. -/
theorem filename_of_padding {s : List UInt8} (hs : s.head? ≠ some 32) (hnl : (10 : UInt8) ∉ s)
    (pad : Nat) : filename (List.replicate pad 32 ++ s ++ [10]) = unescape s := by
  unfold filename
  rw [takeWhile_padding hs, takeWhile_reverse_newline hnl]
  simp only [List.length_replicate, List.length_append, List.length_singleton, Nat.add_sub_cancel,
    List.take_left' (show (List.replicate pad (32 : UInt8) ++ s).length = pad + s.length by simp),
    List.drop_left' (List.length_replicate ..)]

/-! ## A whole line -/

/-- Six fields at the first five separators. -/
theorem splitn_six {sep : UInt8} {a b c d e : List UInt8} (f : List UInt8) (ha : sep ∉ a)
    (hb : sep ∉ b) (hc : sep ∉ c) (hd : sep ∉ d) (he : sep ∉ e) :
    splitn sep 6 (a ++ sep :: (b ++ sep :: (c ++ sep :: (d ++ sep :: (e ++ sep :: f))))) =
      [a, b, c, d, e, f] := by
  rw [splitn_append_sep ha, splitn_append_sep hb, splitn_append_sep hc, splitn_append_sep hd,
    splitn_append_sep he]
  rfl

/-- The kernel's line as its six space-separated fields. -/
theorem show_map_line_fields (start end_ : Nat) (r w x shared : Bool) (offset major minor inode pad : Nat)
    (path : List UInt8) :
    show_map_line start end_ r w x shared offset major minor inode pad path =
      (print_digits 16 1 start ++ 45 :: print_digits 16 1 end_) ++ 32 ::
        ([if r then 114 else 45, if w then 119 else 45, if x then 120 else 45,
            if shared then 115 else 112] ++ 32 ::
          (print_digits 16 8 offset ++ 32 ::
            ((print_digits 16 2 major ++ 58 :: print_digits 16 2 minor) ++ 32 ::
              (print_digits 10 1 inode ++ 32 :: (List.replicate pad 32 ++ escape path ++ [10]))))) := by
  simp [show_map_line]

/-- The permissions the kernel prints give back the protection. -/
theorem get_prot_perms (r w x shared : Bool) :
    get_prot [if r then 114 else 45, if w then 119 else 45, if x then 120 else 45,
        if shared then 115 else 112] =
      (if r then PROT_READ else 0) ||| (if w then PROT_WRITE else 0) ||| (if x then PROT_EXEC else 0) := by
  cases r <;> cases w <;> cases x <;> cases shared <;> decide

/-- The permissions the kernel prints give back the sharing. -/
theorem get_map_flags_perms (r w x shared : Bool) :
    get_map_flags [if r then 114 else 45, if w then 119 else 45, if x then 120 else 45,
        if shared then 115 else 112] = if shared then MAP_SHARED else MAP_PRIVATE := by
  cases r <;> cases w <;> cases x <;> cases shared <;> decide

/-- The first five spaces of the kernel's line are the ones between its fields:
no number and no permission letter is a space. -/
theorem splitn_show_map_line (start end_ : Nat) (r w x shared : Bool)
    (offset major minor inode pad : Nat) (path : List UInt8) :
    splitn 32 6 (show_map_line start end_ r w x shared offset major minor inode pad path) =
      [print_digits 16 1 start ++ 45 :: print_digits 16 1 end_,
        [if r then 114 else 45, if w then 119 else 45, if x then 120 else 45,
          if shared then 115 else 112],
        print_digits 16 8 offset, print_digits 16 2 major ++ 58 :: print_digits 16 2 minor,
        print_digits 10 1 inode, List.replicate pad 32 ++ escape path ++ [10]] := by
  have hsp : ∀ {width v}, (32 : UInt8) ∉ print_digits 16 width v :=
    not_mem_print_digits (by decide) (by decide) (by decide)
  have hperms : (32 : UInt8) ∉ [if r then 114 else 45, if w then 119 else 45, if x then 120 else 45,
      if shared then 115 else 112] := by
    cases r <;> cases w <;> cases x <;> cases shared <;> decide
  rw [show_map_line_fields]
  exact splitn_six _ (by simp [hsp]) hperms hsp (by simp [hsp])
    (not_mem_print_digits (by decide) (by decide) (by decide))

/-- `parse_rawline` reads back every field of the line the kernel prints, and the
path as `unescape` reads the kernel's escape of it. -/
theorem parse_rawline_show_map_line {start end_ offset major minor inode : Nat} (r w x shared : Bool)
    (pad : Nat) {path : List UInt8} (hstart : start < 2 ^ 64) (hend : end_ < 2 ^ 64)
    (hoffset : offset < 2 ^ 64) (hmajor : major < 2 ^ 32) (hminor : minor < 2 ^ 32)
    (hinode : inode < 2 ^ 64) (hpath : path.head? ≠ some 32) :
    parse_rawline (show_map_line start end_ r w x shared offset major minor inode pad path) =
      some (shown_mapping start end_ r w x shared offset major minor inode (unescape (escape path))) := by
  -- dashes and colons are no digits
  have hdash : ∀ {v}, (45 : UInt8) ∉ print_digits 16 1 v :=
    not_mem_print_digits (by decide) (by decide) (by decide)
  have hcolon : ∀ {v}, (58 : UInt8) ∉ print_digits 16 2 v :=
    not_mem_print_digits (by decide) (by decide) (by decide)
  -- every number is printed below its type's bound, so each parses back
  have hlow : from_str_radix 16 (2 ^ 64) (print_digits 16 1 start) = some start :=
    from_str_radix_print_digits (by decide) (by decide) (by decide) hstart
  have hhigh : from_str_radix 16 (2 ^ 64) (print_digits 16 1 end_) = some end_ :=
    from_str_radix_print_digits (by decide) (by decide) (by decide) hend
  have hoff : from_str_radix 16 (2 ^ 64) (print_digits 16 8 offset) = some offset :=
    from_str_radix_print_digits (by decide) (by decide) (by decide) hoffset
  have hmaj : from_str_radix 16 (2 ^ 32) (print_digits 16 2 major) = some major :=
    from_str_radix_print_digits (by decide) (by decide) (by decide) hmajor
  have hmin : from_str_radix 16 (2 ^ 32) (print_digits 16 2 minor) = some minor :=
    from_str_radix_print_digits (by decide) (by decide) (by decide) hminor
  have hino : from_str_radix 10 (2 ^ 64) (print_digits 10 1 inode) = some inode :=
    from_str_radix_print_digits (by decide) (by decide) (by decide) hinode
  simp only [parse_rawline, splitn_show_map_line, piece, List.getElem?_cons_zero,
    List.getElem?_cons_succ, split_append_sep hdash hdash, split_append_sep hcolon hcolon,
    hlow, hhigh, hoff, hmaj, hmin, hino, Option.bind_eq_bind, Option.bind_some, Option.pure_def]
  rw [filename_of_padding (head?_escape hpath) (not_mem_escape path), get_prot_perms,
    get_map_flags_perms]
  rfl

/-- A path without a backslash is read back exactly. -/
theorem parse_rawline_show_map_line_of_no_backslash {start end_ offset major minor inode : Nat}
    (r w x shared : Bool) (pad : Nat) {path : List UInt8} (hstart : start < 2 ^ 64)
    (hend : end_ < 2 ^ 64) (hoffset : offset < 2 ^ 64) (hmajor : major < 2 ^ 32)
    (hminor : minor < 2 ^ 32) (hinode : inode < 2 ^ 64) (hpath : path.head? ≠ some 32)
    (hbs : (92 : UInt8) ∉ path) :
    parse_rawline (show_map_line start end_ r w x shared offset major minor inode pad path) =
      some (shown_mapping start end_ r w x shared offset major minor inode path) := by
  rw [parse_rawline_show_map_line r w x shared pad hstart hend hoffset hmajor hminor hinode hpath,
    unescape_escape hbs]

/-- An executable mapping of `/l` newline `x`, whose newline the kernel prints
as an octal escape. -/
theorem parse_rawline_path_with_newline :
    (0x1000 : Nat) < 2 ^ 64 ∧ (0x2000 : Nat) < 2 ^ 64 ∧ (0 : Nat) < 2 ^ 64 ∧ (8 : Nat) < 2 ^ 32 ∧
      (1 : Nat) < 2 ^ 32 ∧ (1234 : Nat) < 2 ^ 64 ∧ ([47, 108, 10, 120] : List UInt8).head? ≠ some 32 ∧
      (92 : UInt8) ∉ ([47, 108, 10, 120] : List UInt8) ∧
      parse_rawline (show_map_line 0x1000 0x2000 true false true false 0 8 1 1234 1 [47, 108, 10, 120]) =
        some (shown_mapping 0x1000 0x2000 true false true false 0 8 1 1234 [47, 108, 10, 120]) := by
  have hpath : ([47, 108, 10, 120] : List UInt8).head? ≠ some 32 := by decide
  have hbs : (92 : UInt8) ∉ ([47, 108, 10, 120] : List UInt8) := by decide
  exact ⟨by norm_num, by norm_num, by norm_num, by norm_num, by norm_num, by norm_num, hpath, hbs,
    parse_rawline_show_map_line_of_no_backslash true false true false 1 (by norm_num) (by norm_num) (by norm_num)
      (by norm_num) (by norm_num) (by norm_num) hpath hbs⟩

/-- A backslash before a newline: the kernel prints `\\012`, and the unescaper
takes the backslash with `\01`, pushes the four back, and leaves `2`. -/
theorem parse_rawline_misreads_backslash_before_newline :
    parse_rawline (show_map_line 0x1000 0x2000 true false false false 0 0 0 0 1 [92, 10]) =
        some (shown_mapping 0x1000 0x2000 true false false false 0 0 0 0 [92, 92, 48, 49, 50]) ∧
      shown_mapping 0x1000 0x2000 true false false false 0 0 0 0 [92, 92, 48, 49, 50] ≠
        shown_mapping 0x1000 0x2000 true false false false 0 0 0 0 [92, 10] := by
  refine ⟨?_, ?_⟩
  · rw [parse_rawline_show_map_line true false false false 1 (by decide) (by decide) (by decide)
      (by decide) (by decide) (by decide) (by decide)]
    rfl
  · intro h
    have hlen := congrArg (fun km => km.fsname_.length) h
    -- the names differ in length: five bytes read back for two
    simp only [shown_mapping, KernelMapping.new_with_opts, os_str_of_bytes, String.length_ofList,
      List.length_map, List.length_cons, List.length_nil] at hlen
    omega

end RdReplay.KernelMapIterator
