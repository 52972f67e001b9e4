/-
  Trace/CompressedReader.lean --- reading a trace substream, and the
  snapshots `peek_frame` and `read_mapped_region` take of the reader.

  Source: `trace/compressed_reader.rs`: `CompressedReader` with `read`,
  `skip`, `at_end`, `rewind`, `get_state`, `restore_state`, `fill_buf`,
  `consume`, `refill_buffer`, and `read_all`.

  THE READER.  A substream file is a sequence of blocks, each an 8-byte header
  (the compressed and the uncompressed length) and the compressed bytes.  The
  reader holds the file offset of the next block, the decompressed block and
  a position in it, and an `eof` flag that `refill_buffer` sets when the block
  it read was the last.  A snapshot (`CompressedReaderState`) keeps all but
  `eof`; restoring recomputes `eof` by comparing offsets.

  THE MODEL.  The file is the list of its bytes, which nothing writes while it
  is read, so `pread` returns what the list has at an offset.  Brotli is the
  function `do_decompress`, given the compressed bytes and the buffer resized
  to the block's length, and returning whether it succeeded and the buffer it
  left.  Each call returns its `io::Result` and the reader after it, since a
  call that fails leaves its changes behind.  Offsets and lengths are below
  2^63 in any trace, so they are `Nat`, and the offset's conversion to `off_t`
  cannot panic.  Indexing the buffer past its end in `fill_buf` panics, which
  is `none`.  `read` and `skip` loop until they are done: each round either
  uses up some of the buffer or reads a block further into the file, which is
  their termination measure.

  THE RESULT.  Between taking a snapshot and restoring it the offset only
  grows, and only from a reader whose `eof` was false (`Moves`), since
  `refill_buffer` is only called then; restoring therefore gives back the
  reader as it was, `eof` included (`restore_state_of_moves`).  `rewind` is
  the one call that breaks the link between `eof` and the offset: on an empty
  file it clears the `eof` that `new` set, with the offset at the end of the
  file (`rewound_empty_file_not_at_eof`).
-/
import RdReplay.FileMonitor.ProcFdDir
import RdReplay.Record.RobustFutex

set_option autoImplicit false

namespace RdReplay.Trace

/-! ## The reader -/

/-- `io::ErrorKind`, as far as the reader's errors go. -/
inductive ErrorKind
  | UnexpectedEof
  | Other
  deriving DecidableEq, Repr

/-- An `io::Error`: its kind and its text. -/
structure IoError where
  kind : ErrorKind
  msg : String
  deriving DecidableEq, Repr

/-- `CompressedReader`, without its fd: the file is passed to each call. -/
structure CompressedReader where
  fd_offset : Nat
  eof : Bool
  buffer : List UInt8
  buffer_read_pos : Nat
  deriving DecidableEq, Repr

/-- `CompressedReaderState`: a snapshot of all but `eof`. -/
structure CompressedReaderState where
  saved_fd_offset : Nat
  saved_buffer : List UInt8
  saved_buffer_read_pos : Nat
  deriving DecidableEq, Repr

/-- `read_all`: the `len` bytes at `offset` and the offset after them, or
`none` (its `Ok(false)`) when the file ends first. -/
def read_all (file : List UInt8) (len offset : Nat) : Option (List UInt8 × Nat) :=
  if len ≤ file.length - offset then some ((file.drop offset).take len, offset + len) else none

/-- `CompressedReader::new` on a file that opens: `eof` when it is empty. -/
def CompressedReader.new (file : List UInt8) : CompressedReader :=
  { fd_offset := 0
    eof := file.isEmpty
    buffer := []
    buffer_read_pos := 0 }

/-- `at_end`. -/
def at_end (r : CompressedReader) : Bool :=
  r.eof && r.buffer_read_pos == r.buffer.length

/-- `rewind`. -/
def rewind (r : CompressedReader) : CompressedReader :=
  { r with
    fd_offset := 0
    buffer_read_pos := 0
    buffer := []
    eof := false }

/-- `get_state`. -/
def get_state (r : CompressedReader) : CompressedReaderState :=
  { saved_fd_offset := r.fd_offset
    saved_buffer := r.buffer
    saved_buffer_read_pos := r.buffer_read_pos }

/-- `restore_state`: `eof` is cleared when the snapshot lies before the
current offset, and kept otherwise. -/
def restore_state (r : CompressedReader) (state : CompressedReaderState) : CompressedReader :=
  { fd_offset := state.saved_fd_offset
    eof := if state.saved_fd_offset < r.fd_offset then false else r.eof
    buffer := state.saved_buffer
    buffer_read_pos := state.saved_buffer_read_pos }

/-- `consume`. -/
def consume (r : CompressedReader) (amt : Nat) : CompressedReader :=
  { r with buffer_read_pos := r.buffer_read_pos + amt }

section Calls

variable (file : List UInt8) (do_decompress : List UInt8 → List UInt8 → Bool × List UInt8)

/-- `refill_buffer`: read the block at the offset and decompress it. -/
def refill_buffer (r : CompressedReader) : Except IoError Unit × CompressedReader :=
  match read_all file 8 r.fd_offset with
  | none =>
    (.error ⟨.UnexpectedEof, "Unexpected EOF encountered while doing read_all() on header in CompressedReader"⟩, r)
  | some (header_vec, offset) =>
    let compressed_length := Record.le_value (header_vec.take 4)
    let uncompressed_length := Record.le_value (header_vec.drop 4)
    match read_all file compressed_length offset with
    | none =>
      (.error ⟨.UnexpectedEof,
        "Unexpected EOF encountered while doing read_all() on compressed data in CompressedReader"⟩,
        { r with fd_offset := offset })
    | some (compressed_buf, offset) =>
      -- a one-byte `pread` at the new offset returns nothing at the end of the file
      let decompressed := do_decompress compressed_buf (FileMonitor.resize r.buffer uncompressed_length)
      let r' : CompressedReader :=
        { fd_offset := offset
          eof := decide (file.length ≤ offset)
          buffer := decompressed.2
          buffer_read_pos := 0 }
      if decompressed.1 then (.ok (), r') else (.error ⟨.Other, "There was a Decompression Error"⟩, r')

/-- What `read_all` returns lies in the file, and the offset moves past it. -/
theorem read_all_some {len offset offset' : Nat} {bytes : List UInt8}
    (h : read_all file len offset = some (bytes, offset')) : offset' = offset + len ∧ len ≤ file.length - offset := by
  unfold read_all at h
  split_ifs at h with hlen
  simp only [Option.some.injEq, Prod.mk.injEq] at h
  omega

/-- What a refill does to the offset: a refill that fails on the header
leaves the reader as it was; otherwise the offset has moved past a header
and stays within the file. -/
theorem refill_buffer_cases (r : CompressedReader) :
    (∃ e, refill_buffer file do_decompress r = (.error e, r)) ∨
      (r.fd_offset + 8 ≤ (refill_buffer file do_decompress r).2.fd_offset ∧
        (refill_buffer file do_decompress r).2.fd_offset ≤ file.length) := by
  unfold refill_buffer
  rcases hheader : read_all file 8 r.fd_offset with _ | ⟨header_vec, offset⟩
  · exact .inl ⟨_, rfl⟩
  · obtain ⟨rfl, hle8⟩ := read_all_some file hheader
    right
    rcases hdata : read_all file (Record.le_value (header_vec.take 4)) (r.fd_offset + 8) with _ | ⟨compressed_buf, offset⟩
    · simp only [hdata]
      omega
    · obtain ⟨rfl, hle⟩ := read_all_some file hdata
      simp only [hdata]
      split <;> simp only <;> omega

/-- A successful refill has read a whole block further into the file. -/
theorem refill_buffer_advances {r : CompressedReader} (h : (refill_buffer file do_decompress r).1 = .ok ()) :
    r.fd_offset + 8 ≤ (refill_buffer file do_decompress r).2.fd_offset ∧
      (refill_buffer file do_decompress r).2.fd_offset ≤ file.length := by
  rcases refill_buffer_cases file do_decompress r with ⟨e, he⟩ | hadv
  · rw [he] at h
    cases h
  · exact hadv

/-- `read` into a buffer of `left` more bytes, `out` those provided so far. -/
def read_loop (left : Nat) (out : List UInt8) (r : CompressedReader) :
    Except IoError (List UInt8) × CompressedReader :=
  if left = 0 then (.ok out, r)
  else if r.buffer_read_pos < r.buffer.length then
    let amount_provided := min left (r.buffer.length - r.buffer_read_pos)
    read_loop (left - amount_provided) (out ++ (r.buffer.drop r.buffer_read_pos).take amount_provided)
      { r with buffer_read_pos := r.buffer_read_pos + amount_provided }
  -- nothing left in the buffer, and the file has no more blocks
  else if r.eof then (.ok out, r)
  else
    match _hrefill : refill_buffer file do_decompress r with
    | (.error e, r') => (.error e, r')
    | (.ok (), r') => read_loop left out r'
termination_by (left, file.length - r.fd_offset)
decreasing_by
  · exact Prod.Lex.left _ _ (by omega)
  · have hadv := refill_buffer_advances file do_decompress (r := r) (by rw [_hrefill])
    rw [_hrefill] at hadv
    dsimp only at hadv
    exact Prod.Lex.right _ (by omega)

/-- `Read::read` of `n` bytes: the bytes it provides. -/
def read (r : CompressedReader) (n : Nat) : Except IoError (List UInt8) × CompressedReader :=
  read_loop file do_decompress n [] r

/-- `skip`. -/
def skip (size : Nat) (r : CompressedReader) : Except IoError Unit × CompressedReader :=
  if size = 0 then (.ok (), r)
  else if r.buffer_read_pos < r.buffer.length then
    let amount := min size (r.buffer.length - r.buffer_read_pos)
    skip (size - amount) { r with buffer_read_pos := r.buffer_read_pos + amount }
  else if r.eof then
    (.error ⟨.UnexpectedEof, "Unexpected EOF encountered while performing skip() on CompressedReader"⟩, r)
  else
    match _hrefill : refill_buffer file do_decompress r with
    | (.error e, r') => (.error e, r')
    | (.ok (), r') => skip size r'
termination_by (size, file.length - r.fd_offset)
decreasing_by
  · exact Prod.Lex.left _ _ (by omega)
  · have hadv := refill_buffer_advances file do_decompress (r := r) (by rw [_hrefill])
    rw [_hrefill] at hadv
    dsimp only at hadv
    exact Prod.Lex.right _ (by omega)

/-- `&self.buffer[self.buffer_read_pos..]`; past the end it panics. -/
def rest_of_buffer (r : CompressedReader) : Option (Except IoError (List UInt8) × CompressedReader) :=
  if r.buffer_read_pos ≤ r.buffer.length then some (.ok (r.buffer.drop r.buffer_read_pos), r) else none

/-- `BufRead::fill_buf`: refill when the buffer is used up and the file has
more. -/
def fill_buf (r : CompressedReader) : Option (Except IoError (List UInt8) × CompressedReader) :=
  if r.buffer.length ≤ r.buffer_read_pos ∧ r.eof = false then
    match refill_buffer file do_decompress r with
    | (.error e, r') => some (.error e, r')
    | (.ok (), r') => rest_of_buffer r'
  else rest_of_buffer r

end Calls

/-- The calls a reader serves between a snapshot and its restore. -/
inductive ReaderOp
  | read (n : Nat)
  | skip (size : Nat)
  | at_end
  | fill_buf
  | consume (amt : Nat)
  deriving DecidableEq, Repr

/-- What a call returns. -/
inductive ReaderResult
  | read (res : Except IoError (List UInt8))
  | skip (res : Except IoError Unit)
  | at_end (b : Bool)
  | fill_buf (res : Except IoError (List UInt8))
  | consume

section Run

variable (file : List UInt8) (do_decompress : List UInt8 → List UInt8 → Bool × List UInt8)

/-- One call; `none` is a panic. -/
def step (r : CompressedReader) : ReaderOp → Option (ReaderResult × CompressedReader)
  | .read n => some (.read (read file do_decompress r n).1, (read file do_decompress r n).2)
  | .skip size => some (.skip (skip file do_decompress size r).1, (skip file do_decompress size r).2)
  | .at_end => some (.at_end (at_end r), r)
  | .fill_buf => (fill_buf file do_decompress r).map fun p => (.fill_buf p.1, p.2)
  | .consume amt => some (.consume, consume r amt)

/-- A sequence of calls: their results and the reader after them. -/
def run (r : CompressedReader) : List ReaderOp → Option (List ReaderResult × CompressedReader)
  | [] => some ([], r)
  | op :: ops =>
    match step file do_decompress r op with
    | none => none
    | some (res, r1) => (run r1 ops).map fun p => (res :: p.1, p.2)

end Run


/-! ## Between a snapshot and its restore -/

/-- How the file position can change from `r` to `r'`: it stays, with `eof`
as it was, or it moves on from a reader whose `eof` was false. -/
def Moves (r r' : CompressedReader) : Prop :=
  (r'.fd_offset = r.fd_offset ∧ r'.eof = r.eof) ∨ (r.fd_offset < r'.fd_offset ∧ r.eof = false)

theorem Moves.refl (r : CompressedReader) : Moves r r := .inl ⟨rfl, rfl⟩

theorem Moves.trans {r r1 r2 : CompressedReader} (h1 : Moves r r1) (h2 : Moves r1 r2) : Moves r r2 := by
  rcases h1 with ⟨ho1, he1⟩ | ⟨hlt1, he1⟩ <;> rcases h2 with ⟨ho2, he2⟩ | ⟨hlt2, he2⟩
  · exact .inl ⟨ho2.trans ho1, he2.trans he1⟩
  · exact .inr ⟨by omega, he1.symm.trans he2⟩
  · exact .inr ⟨by omega, he1⟩
  · exact .inr ⟨by omega, he1⟩

/-- Restoring a snapshot after the reader moved on gives back the reader. -/
theorem restore_state_of_moves {r r' : CompressedReader} (h : Moves r r') : restore_state r' (get_state r) = r := by
  rcases h with ⟨ho, he⟩ | ⟨hlt, he⟩
  · simp only [restore_state, get_state, ho, lt_irrefl, if_false, he]
  · simp only [restore_state, get_state, if_pos hlt, ← he]

/-- A refill, made only while `eof` is false, moves the reader on. -/
theorem refill_buffer_moves (file : List UInt8) (do_decompress : List UInt8 → List UInt8 → Bool × List UInt8)
    {r : CompressedReader} (heof : r.eof = false) : Moves r (refill_buffer file do_decompress r).2 := by
  rcases refill_buffer_cases file do_decompress r with ⟨e, he⟩ | ⟨hadv, -⟩
  · rw [he]
    exact Moves.refl r
  · exact .inr ⟨by omega, heof⟩

theorem rest_of_buffer_reader {r r' : CompressedReader} {res : Except IoError (List UInt8)}
    (h : rest_of_buffer r = some (res, r')) : r' = r := by
  unfold rest_of_buffer at h
  split_ifs at h
  simp only [Option.some.injEq, Prod.mk.injEq] at h
  exact h.2.symm

section Preserve

/-! Every call changes the reader only by moving its position in the buffer
and by refills made while `eof` is false; so a property that survives those
two survives every run of calls. -/

variable (file : List UInt8) (do_decompress : List UInt8 → List UInt8 → Bool × List UInt8)
  (P : CompressedReader → Prop)
  (hrefill : ∀ r, P r → r.eof = false → P (refill_buffer file do_decompress r).2)
include hrefill

theorem refill_preserves {r r' : CompressedReader} {res : Except IoError Unit}
    (hres : refill_buffer file do_decompress r = (res, r')) (heof : ¬r.eof = true) (h : P r) : P r' := by
  have hP := hrefill r h (by simpa using heof)
  rwa [hres] at hP

theorem fill_buf_preserves {r r' : CompressedReader} {res : Except IoError (List UInt8)}
    (hres : fill_buf file do_decompress r = some (res, r')) (h : P r) : P r' := by
  unfold fill_buf at hres
  split_ifs at hres with hempty
  · -- the buffer is used up and the file has more: the refill is made
    rcases hrefill' : refill_buffer file do_decompress r with ⟨_ | ⟨⟨⟩⟩, r1⟩
    all_goals
      have hP1 := refill_preserves file do_decompress P hrefill hrefill' (by simp [hempty.2]) h
      rw [hrefill'] at hres
    · simp only [Option.some.injEq, Prod.mk.injEq] at hres
      exact hres.2 ▸ hP1
    · exact rest_of_buffer_reader hres ▸ hP1
  · exact rest_of_buffer_reader hres ▸ h

variable (hpos : ∀ r p, P r → P { r with buffer_read_pos := p })
include hpos

theorem read_loop_preserves (left : Nat) (out : List UInt8) (r : CompressedReader) :
    P r → P (read_loop file do_decompress left out r).2 := by
  fun_induction read_loop file do_decompress left out r with
  | case1 => exact id
  | case2 _ _ _ _ _ _ ih => exact fun h => ih (hpos _ _ h)
  | case3 => exact id
  | case4 _ _ _ _ _ heof _ _ hres => exact refill_preserves file do_decompress P hrefill hres heof
  | case5 _ _ _ _ _ heof _ hres ih => exact fun h => ih (refill_preserves file do_decompress P hrefill hres heof h)

theorem skip_preserves (size : Nat) (r : CompressedReader) : P r → P (skip file do_decompress size r).2 := by
  fun_induction skip file do_decompress size r with
  | case1 => exact id
  | case2 _ _ _ _ _ ih => exact fun h => ih (hpos _ _ h)
  | case3 => exact id
  | case4 _ _ _ _ heof _ _ hres => exact refill_preserves file do_decompress P hrefill hres heof
  | case5 _ _ _ _ heof _ hres ih => exact fun h => ih (refill_preserves file do_decompress P hrefill hres heof h)

theorem step_preserves {r r' : CompressedReader} {op : ReaderOp} {res : ReaderResult}
    (hres : step file do_decompress r op = some (res, r')) (h : P r) : P r' := by
  cases op with
  | read n =>
    simp only [step, Option.some.injEq, Prod.mk.injEq] at hres
    exact hres.2 ▸ read_loop_preserves file do_decompress P hrefill hpos n [] r h
  | skip size =>
    simp only [step, Option.some.injEq, Prod.mk.injEq] at hres
    exact hres.2 ▸ skip_preserves file do_decompress P hrefill hpos size r h
  | at_end =>
    simp only [step, Option.some.injEq, Prod.mk.injEq] at hres
    exact hres.2 ▸ h
  | fill_buf =>
    simp only [step, Option.map_eq_some_iff] at hres
    obtain ⟨⟨res', r1⟩, hfill, hpair⟩ := hres
    simp only [Prod.mk.injEq] at hpair
    exact hpair.2 ▸ fill_buf_preserves file do_decompress P hrefill hfill h
  | consume amt =>
    simp only [step, Option.some.injEq, Prod.mk.injEq] at hres
    exact hres.2 ▸ hpos r _ h

/-- The run lemma: a property every call keeps holds after any run. -/
theorem run_preserves :
    ∀ (ops : List ReaderOp) {r r' : CompressedReader} {res : List ReaderResult},
      run file do_decompress r ops = some (res, r') → P r → P r' := by
  intro ops
  induction ops with
  | nil =>
    intro r r' res hrun h
    simp only [run, Option.some.injEq, Prod.mk.injEq] at hrun
    exact hrun.2 ▸ h
  | cons op ops ih =>
    intro r r' res hrun h
    rcases hstep : step file do_decompress r op with _ | ⟨res1, r1⟩
    · simp [run, hstep] at hrun
    · simp only [run, hstep, Option.map_eq_some_iff] at hrun
      obtain ⟨⟨rest, r2⟩, hrest, hpair⟩ := hrun
      simp only [Prod.mk.injEq] at hpair
      exact hpair.2 ▸ ih hrest (step_preserves file do_decompress P hrefill hpos hstep h)

end Preserve

/-- Over any run of calls the reader only moves on. -/
theorem run_moves (file : List UInt8) (do_decompress : List UInt8 → List UInt8 → Bool × List UInt8)
    {r r' : CompressedReader} {ops : List ReaderOp} {res : List ReaderResult}
    (hrun : run file do_decompress r ops = some (res, r')) : Moves r r' := by
  refine run_preserves file do_decompress (Moves r) ?_ ?_ ops hrun (Moves.refl r)
  · intro r1 h1 heof
    exact h1.trans (refill_buffer_moves file do_decompress heof)
  · intro r1 p h1
    exact h1


/-! ## Readers of a block file -/

/-- A file of whole blocks, as `CompressedWriter` writes them: an 8-byte
header whose first word is the length of the compressed bytes after it. -/
inductive BlockFile : List UInt8 → Prop
  | nil : BlockFile []
  | block {header data rest : List UInt8} : header.length = 8 → data.length = Record.le_value (header.take 4) →
      BlockFile rest → BlockFile (header ++ data ++ rest)

theorem BlockFile.split {l : List UInt8} (h : BlockFile l) (hne : l ≠ []) :
    ∃ header data rest, l = header ++ data ++ rest ∧ header.length = 8 ∧
      data.length = Record.le_value (header.take 4) ∧ BlockFile rest := by
  cases h with
  | nil => exact absurd rfl hne
  | block hheader hdata hrest => exact ⟨_, _, _, rfl, hheader, hdata, hrest⟩

/-- A reader at a block boundary of a block file, with `eof` set exactly at
the end of the file. -/
structure Consistent (file : List UInt8) (r : CompressedReader) : Prop where
  offset_le : r.fd_offset ≤ file.length
  blocks : BlockFile (file.drop r.fd_offset)
  eof_iff : r.eof = true ↔ r.fd_offset = file.length

section Blocks

variable (file : List UInt8) (do_decompress : List UInt8 → List UInt8 → Bool × List UInt8)

theorem length_drop_of_block {file header data rest : List UInt8} {offset : Nat}
    (hdrop : file.drop offset = header ++ data ++ rest) (hheader : header.length = 8) :
    file.length - offset = 8 + data.length + rest.length := by
  rw [← List.length_drop, hdrop]
  simp only [List.length_append, hheader]

/-- A refill at a block boundary reads that block: the offset moves past it,
and `eof` says whether it was the last. -/
theorem refill_buffer_block {r : CompressedReader} {header data rest : List UInt8}
    (hdrop : file.drop r.fd_offset = header ++ data ++ rest) (hheader : header.length = 8)
    (hdata : data.length = Record.le_value (header.take 4)) :
    (refill_buffer file do_decompress r).2.fd_offset = r.fd_offset + 8 + data.length ∧
      (refill_buffer file do_decompress r).2.eof = decide (file.length ≤ r.fd_offset + 8 + data.length) := by
  have hlen := length_drop_of_block hdrop hheader
  have hread_header : read_all file 8 r.fd_offset = some (header, r.fd_offset + 8) := by
    rw [read_all, if_pos (by omega), hdrop, List.append_assoc, List.take_left' hheader]
  have hread_data : read_all file data.length (r.fd_offset + 8) = some (data, r.fd_offset + 8 + data.length) := by
    rw [read_all, if_pos (by omega), ← List.drop_drop, hdrop, List.append_assoc, List.drop_left' hheader,
      List.take_left' rfl]
  unfold refill_buffer
  simp only [hread_header, ← hdata, hread_data]
  split <;> simp

/-- A refill made while `eof` is false keeps a reader consistent. -/
theorem Consistent.refill {r : CompressedReader} (hc : Consistent file r) (heof : r.eof = false) :
    Consistent file (refill_buffer file do_decompress r).2 := by
  have hlt : r.fd_offset < file.length := by
    have hne : r.fd_offset ≠ file.length := fun h => by simpa [heof] using hc.eof_iff.2 h
    exact lt_of_le_of_ne hc.offset_le hne
  -- the file has a block at the offset
  obtain ⟨header, data, rest, hdrop, hheader, hdata, hrest⟩ :=
    hc.blocks.split (by simpa [List.drop_eq_nil_iff] using hlt)
  have hlen := length_drop_of_block hdrop hheader
  obtain ⟨hoffset, heof'⟩ := refill_buffer_block file do_decompress hdrop hheader hdata
  refine ⟨by omega, ?_, ?_⟩
  · rw [hoffset, Nat.add_assoc, ← List.drop_drop, hdrop, List.drop_left' (by simp [hheader])]
    exact hrest
  · rw [heof', hoffset, decide_eq_true_iff]
    omega

end Blocks

/-- The readers of a substream over a run of `TraceReader`: opened, then
calls, peeks that restore a snapshot, and rewinds of a non-empty file. -/
inductive Reachable (file : List UInt8) (do_decompress : List UInt8 → List UInt8 → Bool × List UInt8) :
    CompressedReader → Prop
  | new : Reachable file do_decompress (CompressedReader.new file)
  | call {r r' : CompressedReader} {res : ReaderResult} (op : ReaderOp) :
      Reachable file do_decompress r → step file do_decompress r op = some (res, r') →
        Reachable file do_decompress r'
  | peek {r r' : CompressedReader} {res : List ReaderResult} (ops : List ReaderOp) :
      Reachable file do_decompress r → run file do_decompress r ops = some (res, r') →
        Reachable file do_decompress (restore_state r' (get_state r))
  | rewound {r : CompressedReader} : file ≠ [] → Reachable file do_decompress r →
      Reachable file do_decompress (rewind r)

/-- Every reader of a block file that is reached so is consistent. -/
theorem reachable_consistent (file : List UInt8) (do_decompress : List UInt8 → List UInt8 → Bool × List UInt8)
    (hfile : BlockFile file) {r : CompressedReader} (hr : Reachable file do_decompress r) : Consistent file r := by
  induction hr with
  | new =>
    refine ⟨Nat.zero_le _, by simpa [CompressedReader.new] using hfile, ?_⟩
    show file.isEmpty = true ↔ 0 = file.length
    rw [List.isEmpty_iff, eq_comm (a := 0), List.length_eq_zero_iff]
  | call op _ hstep ih =>
    refine step_preserves file do_decompress (Consistent file) ?_ ?_ hstep ih
    · intro r1 hc heof
      exact hc.refill file do_decompress heof
    · intro r1 p hc
      exact ⟨hc.offset_le, hc.blocks, hc.eof_iff⟩
  -- a peek gives back the reader it started from
  | peek ops _ hrun ih =>
    rw [restore_state_of_moves (run_moves file do_decompress hrun)]
    exact ih
  | rewound hne _ _ =>
    refine ⟨Nat.zero_le _, by simpa [rewind] using hfile, ?_⟩
    simp only [rewind, Bool.false_eq_true, false_iff]
    exact fun h => hne (List.eq_nil_of_length_eq_zero h.symm)

/-- Snapshots of a reader replay identically: restoring a snapshot after any
run of calls gives back the reader as it was when the snapshot was taken,
`eof` included, so the calls after the restore return what they would have
returned then.  On a block file, every reader reached by opening, calls,
peeks and rewinds of a non-empty file has `eof` set exactly when its offset is
at the end of the file, and so does the reader after the restore. -/
theorem restore_state_replays (file : List UInt8) (do_decompress : List UInt8 → List UInt8 → Bool × List UInt8) :
    (∀ (r r' : CompressedReader) (ops : List ReaderOp) (res : List ReaderResult),
      run file do_decompress r ops = some (res, r') → restore_state r' (get_state r) = r) ∧
    (BlockFile file → ∀ (r r' : CompressedReader) (ops : List ReaderOp) (res : List ReaderResult),
      Reachable file do_decompress r → run file do_decompress r ops = some (res, r') →
        ((restore_state r' (get_state r)).eof = true ↔ (restore_state r' (get_state r)).fd_offset = file.length)) := by
  refine ⟨fun r r' ops res hrun => restore_state_of_moves (run_moves file do_decompress hrun), ?_⟩
  intro hfile r r' ops res hr hrun
  exact (reachable_consistent file do_decompress hfile (.peek ops hr hrun)).eof_iff

/-- A file of one block of three bytes. -/
def one_block : List UInt8 := [3, 0, 0, 0, 3, 0, 0, 0, 7, 8, 9]

/-- A stand-in for Brotli that takes the compressed bytes as they are. -/
def copy_decompress (compressed _buffer : List UInt8) : Bool × List UInt8 := (true, compressed)

/-- A peek that fills the buffer with the only block, so that `eof` is set,
and uses it up: the restore clears `eof` again. -/
theorem peek_one_block_restores :
    restore_state ⟨11, true, [7, 8, 9], 3⟩ (get_state (CompressedReader.new one_block)) =
        CompressedReader.new one_block ∧
      ((restore_state ⟨11, true, [7, 8, 9], 3⟩ (get_state (CompressedReader.new one_block))).eof = true ↔
        (restore_state ⟨11, true, [7, 8, 9], 3⟩ (get_state (CompressedReader.new one_block))).fd_offset =
          one_block.length) :=
  ⟨(restore_state_replays one_block copy_decompress).1 _ _ [.fill_buf, .consume 3, .at_end]
      [.fill_buf (.ok [7, 8, 9]), .consume, .at_end true] rfl,
    (restore_state_replays one_block copy_decompress).2
      (@BlockFile.block [3, 0, 0, 0, 3, 0, 0, 0] [7, 8, 9] [] rfl rfl .nil) _ _
      [.fill_buf, .consume 3, .at_end] [.fill_buf (.ok [7, 8, 9]), .consume, .at_end true] .new rfl⟩

/-- `rewind` does not give back the reader `new` opens on an empty file: `new`
sets `eof`, since the file is empty, and `rewind` clears it with the offset at
the end of the file; a snapshot taken then is restored with `eof` clear. -/
theorem rewound_empty_file_not_at_eof :
    BlockFile [] ∧ (CompressedReader.new []).eof = true ∧ (rewind (CompressedReader.new [])).eof = false ∧
      (restore_state (rewind (CompressedReader.new [])) (get_state (rewind (CompressedReader.new [])))).eof = false ∧
      (restore_state (rewind (CompressedReader.new [])) (get_state (rewind (CompressedReader.new [])))).fd_offset =
        ([] : List UInt8).length :=
  ⟨.nil, rfl, rfl, rfl, rfl⟩

end RdReplay.Trace
