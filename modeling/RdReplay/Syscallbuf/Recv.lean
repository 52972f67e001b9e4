/-
  Syscallbuf/Recv.lean --- the buffered `recvfrom` and `recvmsg` wrappers of
  the preload library, and the copies they make back into the caller's
  buffers.

  Source: `preload/syscallbuf.c`: `sys_recvfrom`, `sys_recvmsg` and
  `copy_output_buffer`.

  THE RECORD.  A buffered call gets a region of the syscallbuf record from
  `prep_syscall_for_fd`, lays out in it one scratch buffer for each buffer of
  the caller, and passes those to the kernel.  Afterwards each scratch buffer
  is copied back with `local_memcpy`: a copy is its destination, its source and
  its length (`Memcpy`).  Only the copies into caller memory are modelled; the
  call succeeds (`start_commit_buffered_syscall`) and `failed_during_preparation`
  is a parameter.  Sizes are those of x86-64: `socklen_t` 4 bytes,
  `struct msghdr` 56, `struct iovec` 16.

  THE KERNEL.  The kernel's results are structures that carry its contract:
  the data count is at most the room given, the control length does not grow,
  and the address length is that of the whole address, which can exceed the
  room given when the address was truncated.

  WHAT COMES OF IT.  `sys_recvfrom` cuts the address length to the caller's
  `*addrlen`, and every copy it makes stays in its buffer and reads its own
  scratch region (`sys_recvfrom_copies_bounded`).  `sys_recvmsg` bounds its
  control and data copies the same way (`copy_iov_bounded`), but
  copies the address with the kernel's length
  (`sys_recvmsg_copies_name_past_namelen`).
-/
import Mathlib

set_option autoImplicit false

namespace RdReplay

namespace Syscallbuf

/-- A `local_memcpy(dest, src, len)`. -/
structure Memcpy where
  dest : Nat
  src : Nat
  len : Nat
  deriving DecidableEq, Repr

/-- `sizeof(socklen_t)`. -/
def socklen_size : Nat := 4

/-- `sizeof(struct msghdr)`. -/
def msghdr_size : Nat := 56

/-- `sizeof(struct iovec)`. -/
def iovec_size : Nat := 16

/-- The `long` result passed to an `int` parameter: its low 32 bits, signed. -/
def int_of_long (v : Int) : Int :=
  let low := v % 2 ^ 32
  if low < 2 ^ 31 then low else low - 2 ^ 32

/-! ## `recvfrom` -/

/-- The arguments of `recvfrom` the wrapper reads; a pointer is `none` when
null, and `addrlen` is the value `*addrlen` when the pointer is not null. -/
structure RecvfromArgs where
  buf : Option Nat
  len : Nat
  src_addr : Option Nat
  addrlen : Option Nat
  deriving DecidableEq, Repr

/-- What the kernel's `recvfrom` gives back: the count, at most `len`, or
`-errno`; and the length of the whole source address, which it stores in
`*addrlen2`. -/
structure RecvfromResult (len : Nat) where
  ret : Int
  addrlen2 : Nat
  ret_le : ret ≤ len
  ret_ge : -4095 ≤ ret

/-- `copy_output_buffer`: copy `ret_size` bytes of the scratch buffer back, if
there is one and the call returned data. -/
def copy_output_buffer (ret_size : Int) (buf buf2 : Option Nat) (failed : Bool) : List Memcpy :=
  match buf, buf2 with
  | some buf, some buf2 =>
    if ret_size ≤ 0 ∨ failed then [] else [⟨buf, buf2, ret_size.toNat⟩]
  | _, _ => []

/-- The scratch address buffer of `sys_recvfrom` in the region from `ptr`. -/
def recvfrom_src_addr2 (a : RecvfromArgs) (ptr : Nat) : Option Nat := a.src_addr.map fun _ => ptr

/-- The scratch data buffer of `sys_recvfrom` in the region from `ptr`: after
the address, of `*addrlen` bytes, and the address length. -/
def recvfrom_buf2 (a : RecvfromArgs) (ptr : Nat) : Option Nat :=
  let ptr := if a.src_addr.isSome then ptr + a.addrlen.getD 0 else ptr
  let ptr := if a.addrlen.isSome then ptr + socklen_size else ptr
  match a.buf with
  | some _ => if 0 < a.len then some ptr else none
  | none => none

/-- The copies `sys_recvfrom` makes into the caller's memory; `none` when its
`assert(addrlen || !src_addr)` fails. -/
def sys_recvfrom_copies (a : RecvfromArgs) (ptr : Nat) (k : RecvfromResult a.len) (failed : Bool) :
    Option (List Memcpy) :=
  if a.addrlen.isNone ∧ a.src_addr.isSome then none
  else
    let addr_copy : List Memcpy :=
      if 0 ≤ k.ret ∧ !failed then
        match a.src_addr, recvfrom_src_addr2 a ptr, a.addrlen with
        | some src_addr, some src_addr2, some addrlen => [⟨src_addr, src_addr2, min k.addrlen2 addrlen⟩]
        | _, _, _ => []
      else []
    some (addr_copy ++ copy_output_buffer (int_of_long k.ret) a.buf (recvfrom_buf2 a ptr) failed)

/-- A positive count that survives the cut to `int` is at most the count. -/
theorem int_of_long_le {v : Int} (hv : -2 ^ 31 ≤ v) (hpos : 0 < int_of_long v) : int_of_long v ≤ v := by
  unfold int_of_long at *
  dsimp only at *
  split at hpos <;> split <;> omega

theorem mem_copy_output_buffer {ret_size : Int} {buf buf2 : Option Nat} {failed : Bool} {c : Memcpy}
    (hc : c ∈ copy_output_buffer ret_size buf buf2 failed) :
    buf = some c.dest ∧ buf2 = some c.src ∧ 0 < ret_size ∧ (c.len : Int) = ret_size := by
  unfold copy_output_buffer at hc
  split at hc
  · split at hc
    · cases hc
    · rename_i hret
      obtain rfl := List.mem_singleton.1 hc
      refine ⟨rfl, rfl, by omega, by simp only; omega⟩
  · cases hc

/-- Every copy `sys_recvfrom` makes goes into a buffer of the caller and stays
within its declared size, and reads the scratch buffer laid out for it: the
address is cut to `*addrlen`, and the data to the count, at most `len`. -/
theorem sys_recvfrom_copies_bounded {a : RecvfromArgs} {ptr : Nat} {k : RecvfromResult a.len}
    {failed : Bool} {copies : List Memcpy} (h : sys_recvfrom_copies a ptr k failed = some copies) :
    ∀ c ∈ copies,
      (∃ addrlen, a.src_addr = some c.dest ∧ a.addrlen = some addrlen ∧ c.src = ptr ∧ c.len ≤ addrlen) ∨
        (a.buf = some c.dest ∧ recvfrom_buf2 a ptr = some c.src ∧ c.len ≤ a.len) := by
  intro c hc
  unfold sys_recvfrom_copies at h
  split at h
  · cases h
  · cases h
    rcases List.mem_append.1 hc with hc | hc
    · -- the address, cut to `*addrlen`
      left
      split at hc
      · split at hc
        · rename_i src_addr src_addr2 addrlen hs hs2 hl
          obtain rfl := List.mem_singleton.1 hc
          have hptr : src_addr2 = ptr := by
            simp only [recvfrom_src_addr2, hs, Option.map_some, Option.some.injEq] at hs2
            exact hs2.symm
          exact ⟨addrlen, hs, hl, hptr, Nat.min_le_right _ _⟩
        · cases hc
      · cases hc
    · -- the data, cut to the count
      right
      obtain ⟨hbuf, hbuf2, hpos, hlen⟩ := mem_copy_output_buffer hc
      have hle := int_of_long_le (by have := k.ret_ge; omega) hpos
      have hret := k.ret_le
      exact ⟨hbuf, hbuf2, by omega⟩

/-- A `recvfrom` of 60 bytes into a buffer of 100, from a source address of 32
bytes into room for 16. -/
theorem sys_recvfrom_copies_of_long_address :
    let a : RecvfromArgs := ⟨some 0x5000, 100, some 0x6000, some 16⟩
    let k : RecvfromResult a.len := ⟨60, 32, by decide, by decide⟩
    ∃ copies, sys_recvfrom_copies a 0x9000 k false = some copies ∧ ∀ c ∈ copies,
      (∃ addrlen, a.src_addr = some c.dest ∧ a.addrlen = some addrlen ∧ c.src = 0x9000 ∧ c.len ≤ addrlen) ∨
        (a.buf = some c.dest ∧ recvfrom_buf2 a 0x9000 = some c.src ∧ c.len ≤ a.len) := by
  intro a k
  obtain ⟨copies, h⟩ := Option.isSome_iff_exists.1 (by decide : (sys_recvfrom_copies a 0x9000 k false).isSome)
  exact ⟨copies, h, sys_recvfrom_copies_bounded h⟩

/-! ## `recvmsg` -/

/-- The `struct msghdr` the caller passes, as the wrapper reads it. -/
structure MsgHdr where
  msg_name : Option Nat
  msg_namelen : Nat
  msg_control : Option Nat
  msg_controllen : Nat
  /-- `(iov_base, iov_len)` of each entry of `msg_iov`. -/
  msg_iov : List (Nat × Nat)
  deriving DecidableEq, Repr

/-- What the kernel's `recvmsg` leaves in `msg2`: the count, at most the room
of the iovecs; the address length, that of the whole address; and the control
length, at most the room given. -/
structure RecvmsgResult (msg : MsgHdr) where
  ret : Int
  msg_namelen : Nat
  msg_controllen : Nat
  ret_le : ret ≤ (msg.msg_iov.map Prod.snd).sum
  controllen_le : msg_controllen ≤ msg.msg_controllen

/-- Where the scratch name buffer starts, after the copy of the header and of
the iovec array. -/
def recvmsg_name2 (msg : MsgHdr) (ptr_base : Nat) : Nat :=
  ptr_base + msghdr_size + iovec_size * msg.msg_iov.length

/-- Where the scratch control buffer starts. -/
def recvmsg_control2 (msg : MsgHdr) (ptr_base : Nat) : Nat :=
  recvmsg_name2 msg ptr_base + if msg.msg_name.isSome then msg.msg_namelen else 0

/-- `ptr_bytes_start`: where the scratch data buffers start. -/
def recvmsg_bytes_start (msg : MsgHdr) (ptr_base : Nat) : Nat :=
  recvmsg_control2 msg ptr_base + if msg.msg_control.isSome then msg.msg_controllen else 0

/-- The loop over `msg_iov` that copies `bytes` of data back, the scratch
buffers laid end to end from `ptr`. -/
def copy_iov (bytes ptr : Nat) : List (Nat × Nat) → List Memcpy
  | [] => []
  | (iov_base, iov_len) :: iovs =>
    let copy_bytes := min bytes iov_len
    ⟨iov_base, ptr, copy_bytes⟩ :: copy_iov (bytes - copy_bytes) (ptr + iov_len) iovs

/-- The copies `sys_recvmsg` makes into the caller's memory. -/
def sys_recvmsg_copies (msg : MsgHdr) (ptr_base : Nat) (k : RecvmsgResult msg) (failed : Bool) :
    List Memcpy :=
  if 0 ≤ k.ret ∧ !failed then
    let name_copy : List Memcpy := match msg.msg_name with
      | some name => [⟨name, recvmsg_name2 msg ptr_base, k.msg_namelen⟩]
      | none => []
    let control_copy : List Memcpy := match msg.msg_control with
      | some control => [⟨control, recvmsg_control2 msg ptr_base, k.msg_controllen⟩]
      | none => []
    name_copy ++ control_copy ++ copy_iov k.ret.toNat (recvmsg_bytes_start msg ptr_base) msg.msg_iov
  else []

/-- The data loop hands out the count front to back: each copy goes into one
iovec, within its length, and reads the scratch data region. -/
theorem copy_iov_bounded (bytes ptr : Nat) (iovs : List (Nat × Nat)) :
    ∀ c ∈ copy_iov bytes ptr iovs, ∃ iov ∈ iovs, c.dest = iov.1 ∧ c.len ≤ iov.2 ∧
      ptr ≤ c.src ∧ c.src + c.len ≤ ptr + (iovs.map Prod.snd).sum := by
  induction iovs generalizing bytes ptr with
  | nil => intro c hc; cases hc
  | cons iov iovs ih =>
    obtain ⟨iov_base, iov_len⟩ := iov
    intro c hc
    rcases List.mem_cons.1 hc with rfl | hc
    · exact ⟨(iov_base, iov_len), List.mem_cons_self, rfl, Nat.min_le_right _ _, Nat.le_refl _,
        by simp only [List.map_cons, List.sum_cons]; omega⟩
    · obtain ⟨iov', hmem, hdest, hlen, hlo, hhi⟩ := ih _ _ c hc
      refine ⟨iov', List.mem_cons_of_mem _ hmem, hdest, hlen, by omega, ?_⟩
      simp only [List.map_cons, List.sum_cons]
      omega

/-- A `recvmsg` with a 16-byte name buffer at `0x7000` and one 64-byte iovec,
buffered from `0x1000`, on a socket whose peer address is a 110-byte
`sockaddr_un`: the address copy writes 110 bytes into the 16-byte buffer, and
reads past the 16 bytes reserved for it into the data region. -/
theorem sys_recvmsg_copies_name_past_namelen :
    sys_recvmsg_copies ⟨some 0x7000, 16, none, 0, [(0x8000, 64)]⟩ 0x1000
        ⟨0, 110, 0, by decide, by decide⟩ false =
      [⟨0x7000, 0x1048, 110⟩, ⟨0x8000, 0x1058, 0⟩] := by
  decide

end Syscallbuf

end RdReplay
