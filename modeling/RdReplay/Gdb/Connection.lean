/-
  Gdb/Connection.lean --- how the gdb server cuts the bytes it reads into
  packets.

  Source: `gdb_connection.rs`: `read_data_once`, `skip_to_packet_start`,
  `read_packet`, the framing part of `process_packet` (its assertion, the
  interrupt case, the payload and the drain) and the `loop` of `get_request`.

  THE SOCKET.  `sock_fd` is modelled by what its successive reads return, one
  list of bytes per `read`.  A read of no bytes, or a read past the last one, is
  the end of the connection: `read_data_once` then clears `connection_alive_`.

  WHAT IS LEFT OUT.  The dispatch on the request byte (a few hundred lines that
  parse each kind of request and answer it) is the parameter `dispatch`: it
  receives the request byte and the payload, and says whether the target has to
  act on the request.  The acknowledgement `read_packet` writes, the output
  buffer, and the head of `get_request` (a pending restart, and `sniff_packet`
  for a resume request already granted) do not touch `inbuf`.

  PANICS.  `parser_assert!`, a failed `unwrap` and an index or slice out of
  bounds stop rd; each is a `none`.
-/
import RdReplay.Util

set_option autoImplicit false

namespace RdReplay

namespace Gdb

/-- `b'$'`, the start of a packet. -/
def DOLLAR : UInt8 := 0x24

/-- `b'#'`, the end of a packet's payload; two checksum digits follow it. -/
def HASH : UInt8 := 0x23

/-- `INTERRUPT_CHAR`. -/
def INTERRUPT_CHAR : UInt8 := 0x03

/-- `memchr`: the index of the first `c` in `xs`. -/
def memchr (c : UInt8) (xs : List UInt8) : Option Nat := xs.findIdx? (· == c)

/-- The part of `GdbConnection` that reads requests. -/
structure GdbConnection where
  /-- What the successive reads of the socket will return. -/
  sock_fd : List (List UInt8)
  inbuf : List UInt8
  packetend : Nat
  connection_alive_ : Bool
  deriving DecidableEq, Repr

/-- A fresh connection, with nothing read yet. -/
def GdbConnection.new (sock_fd : List (List UInt8)) : GdbConnection :=
  { sock_fd, inbuf := [], packetend := 0, connection_alive_ := true }

/-- What `process_packet` hands on: an interrupt, or a request byte with its
payload. -/
inductive GdbPacket where
  | interrupt
  | request (request : UInt8) (payload : List UInt8)
  deriving DecidableEq, Repr

namespace GdbConnection

/-- `read_data_once`: append one read to `inbuf`, or notice the end of the
connection. -/
def read_data_once (c : GdbConnection) : GdbConnection :=
  match c.sock_fd with
  | [] => { c with connection_alive_ := false }
  | data :: rest =>
    -- `Ok(0)`: the peer closed the connection.
    if data.isEmpty then { c with sock_fd := rest, connection_alive_ := false }
    else { c with sock_fd := rest, inbuf := c.inbuf ++ data }

/-- `skip_to_packet_start`: drop the bytes before the first `$` or interrupt
character, and say whether there is one. -/
def skip_to_packet_start (c : GdbConnection) : Option (Bool × GdbConnection) :=
  match c.inbuf.findIdx? (fun b => b == DOLLAR || b == INTERRUPT_CHAR) with
  | none => some (false, { c with inbuf := [] })
  | some end_ =>
    let c := { c with inbuf := c.inbuf.drop end_ }
    match c.inbuf with
    | b :: _ => if b == DOLLAR || b == INTERRUPT_CHAR then some (true, c) else none
    | [] => none

/-- The first loop of `read_packet`:
`while !skip_to_packet_start() && connection_alive_ { read_data_once() }`. -/
def read_packet_skip : Nat → GdbConnection → Option GdbConnection
  | 0, _ => none
  | fuel + 1, c =>
    match skip_to_packet_start c with
    | none => none
    | some (true, c) => some c
    | some (false, c) =>
      if c.connection_alive_ then read_packet_skip fuel c.read_data_once else some c

/-- The second loop of `read_packet`: look for the `#` in the bytes read since
the last look, `inbuf[checkedlen..]`, and store the offset found there. -/
def read_packet_hash : Nat → Nat → GdbConnection → Option GdbConnection
  | 0, _, _ => none
  | fuel + 1, checkedlen, c =>
    match memchr HASH (c.inbuf.drop checkedlen) with
    | some p => some { c with packetend := p }
    | none =>
      let checkedlen := c.inbuf.length
      let c := c.read_data_once
      if !c.connection_alive_ then some c else read_packet_hash fuel checkedlen c

/-- `read_packet`: block until a whole packet, or an interrupt, is in `inbuf`.
Each turn of either loop reads once or returns, so `sock_fd.length + 2` turns
are enough. -/
def read_packet (c : GdbConnection) : Option GdbConnection :=
  let fuel := c.sock_fd.length + 2
  match read_packet_skip fuel c with
  | none => none
  | some c =>
    if !c.connection_alive_ then some c
    else
      match c.inbuf with
      | [] => none
      | b :: _ =>
        if b == INTERRUPT_CHAR then some { c with packetend := 1 }
        else
          match read_packet_hash fuel 0 c with
          | none => none
          | some c =>
            -- The second loop returns early, skipping the assertions, when the
            -- connection closes; it ends alive only when it found a `#`.
            if !c.connection_alive_ then some c
            else if c.inbuf.head? = some DOLLAR ∧ c.packetend < c.inbuf.length then some c
            else none

/-- `process_packet`, up to the dispatch on the request byte: returns what the
dispatch decided, the packet it was handed, and the connection with the packet
drained from `inbuf`. -/
def process_packet (dispatch : UInt8 → List UInt8 → Bool) (c : GdbConnection) :
    Option (Bool × GdbPacket × GdbConnection) :=
  match c.inbuf with
  | [] => none
  | b0 :: rest =>
    if b0 == INTERRUPT_CHAR then some (true, .interrupt, { c with inbuf := rest })
    else if b0 != DOLLAR then none
    else
      -- `memchr(b'#', &self.inbuf).unwrap() == self.packetend`
      match memchr HASH c.inbuf with
      | none => none
      | some p =>
        if p != c.packetend then none
        else
          match c.inbuf[1]? with
          | none => none
          | some request =>
            -- `inbuf[2..packetend]` and `inbuf.drain(0..packetend + 1)`
            if c.packetend < 2 ∨ c.inbuf.length < c.packetend + 1 then none
            else
              let payload := (c.inbuf.take c.packetend).drop 2
              some (dispatch request payload, .request request payload,
                { c with inbuf := c.inbuf.drop (c.packetend + 1) })

/-- The `loop` of `get_request`: read and process packets until one needs the
target, or the connection closes (`DREQ_DETACH`).  Returns the packets
processed, in order. -/
def get_request_loop (dispatch : UInt8 → List UInt8 → Bool) :
    Nat → GdbConnection → Option (List GdbPacket × GdbConnection)
  | 0, _ => none
  | fuel + 1, c =>
    match c.read_packet with
    | none => none
    | some c =>
      if !c.connection_alive_ then some ([], c)
      else
        match process_packet dispatch c with
        | none => none
        | some (true, packet, c) => some ([packet], c)
        | some (false, packet, c) =>
          (get_request_loop dispatch fuel c).map (fun r => (packet :: r.1, r.2))

/-- `get_request`.  Every turn of its loop drains at least one byte, so one
turn per byte still to come, and one more, is enough. -/
def get_request (dispatch : UInt8 → List UInt8 → Bool) (c : GdbConnection) :
    Option (List GdbPacket × GdbConnection) :=
  get_request_loop dispatch (c.inbuf.length + (c.sock_fd.map List.length).sum + 1) c

/-- A packet whose `#` comes in a later read than its `$`: two reads, `$g` and
`#00`.  `read_packet` stores the offset of the `#` in the bytes of the second
read, 0, instead of its index in `inbuf`, 2, and the assertion of
`process_packet` then stops rd, whatever the dispatch. -/
theorem get_request_of_split_packet (dispatch : UInt8 → List UInt8 → Bool) :
    ((GdbConnection.new [[DOLLAR, 0x67], [HASH, 0x30, 0x30]]).read_packet.map
      fun c => (c.packetend, memchr HASH c.inbuf)) = some (0, some 2) ∧
    get_request dispatch (GdbConnection.new [[DOLLAR, 0x67], [HASH, 0x30, 0x30]]) = none :=
  ⟨rfl, rfl⟩

end GdbConnection

end Gdb

end RdReplay
