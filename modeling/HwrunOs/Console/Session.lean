import HwrunOs.Library.Blocks
import HwrunOs.Library.Bytes
import HwrunOs.Library.Runs

/-!
# Console sessions

A session keeps what was written to it in one growing block and hands it out line by line. The
block doubles as it fills, a line is taken out by moving the rest to the front, and a block that
becomes empty is freed. Whether memory is there is an input, and so is what new memory holds. The
output callback is the last thing a call does, so that calls it makes are calls that follow.
-/

namespace HwrunOs.Console

open HwrunOs.Blocks HwrunOs.Bytes

/-! ## Error codes -/

/-- `-EAGAIN`. -/
def eagain : Int := -11
/-- `-ENOMEM`. -/
def enomem : Int := -12
/-- `-EEXIST`. -/
def eexist : Int := -17
/-- `-EINVAL`. -/
def einval : Int := -22
/-- `-ENOBUFS`. -/
def enobufs : Int := -105

/-! ## The line buffer -/

/-- The line buffer of a session. A null pointer is the block of no bytes. -/
structure LineBuffer where
  /-- The bytes of the block. -/
  buf : List UInt8
  /-- The bytes used. -/
  len : Nat
  /-- The bytes allocated. -/
  cap : Nat
  /-- Nothing was stored beyond the end of the block. -/
  allocated : buf.length = cap
  /-- There is room for the final zero, or no block. -/
  room : len < cap ∨ len = 0 ∧ cap = 0

/-- No block. -/
def LineBuffer.null : LineBuffer := ⟨[], 0, 0, rfl, .inr ⟨rfl, rfl⟩⟩

/-- The bytes buffered. -/
def LineBuffer.contents (buffer : LineBuffer) : List UInt8 := buffer.buf.take buffer.len

/-- The used bytes are bytes of the block. -/
theorem LineBuffer.len_le (buffer : LineBuffer) : buffer.len ≤ buffer.buf.length := by
  have room := buffer.room
  have allocated := buffer.allocated
  omega

/-- The number of bytes buffered. -/
theorem LineBuffer.length_contents (buffer : LineBuffer) :
    buffer.contents.length = buffer.len := by
  rw [contents, List.length_take, Nat.min_eq_left buffer.len_le]

/-- Bytes and the final zero behind the used bytes of a block. -/
def terminate (block : List UInt8) (len : Nat) (data : List UInt8) : List UInt8 :=
  store (store block len data) (len + data.length) [0]

/-- The block keeps its length when there is room. -/
theorem length_terminate {block : List UInt8} {len : Nat} {data : List UInt8}
    (room : len + data.length + 1 ≤ block.length) :
    (terminate block len data).length = block.length := by
  have data : (store block len data).length = block.length := length_store (by omega)
  rw [terminate, length_store, data]
  rw [data, List.length_singleton]
  omega

/-- The used bytes afterwards. -/
theorem take_terminate {block : List UInt8} {len : Nat} {data : List UInt8}
    (room : len + data.length + 1 ≤ block.length) :
    (terminate block len data).take (len + data.length) = block.take len ++ data := by
  have kept : (store block len data).length = block.length := length_store (by omega)
  rw [terminate, take_store le_rfl, take_store_end (by omega)]
  rw [kept]
  omega

/-- `sess_append`: the bytes behind the used ones, in a block that is doubled as needed; nothing
when there is no memory. -/
def sessAppend (buffer : LineBuffer) (data : List UInt8) (memory : Option (Nat → UInt8)) :
    Option LineBuffer :=
  if full : buffer.cap < buffer.len + data.length + 1 then
    match memory with
    | none => none
    | some fill =>
      let need := buffer.len + data.length + 1
      let ncap := doubled need (if buffer.cap ≠ 0 then buffer.cap else 64) (by split <;> omega)
      let nb := realloc buffer.buf ncap fill
      have enough : need ≤ ncap := need_le_doubled _ _ _
      have grown : nb.length = ncap := by
        have allocated := buffer.allocated
        exact length_realloc (by omega) fill
      some {
        buf := terminate nb buffer.len data
        len := buffer.len + data.length
        cap := ncap
        allocated := (length_terminate (grown ▸ enough)).trans grown
        room := .inl enough }
  else
    have enough : buffer.len + data.length + 1 ≤ buffer.buf.length := by
      have allocated := buffer.allocated
      omega
    some {
      buf := terminate buffer.buf buffer.len data
      len := buffer.len + data.length
      cap := buffer.cap
      allocated := (length_terminate enough).trans buffer.allocated
      room := .inl (by omega) }

/-- `memchr` for a newline: its position among the used bytes. -/
def firstNewline (buffer : LineBuffer) : Option Nat := buffer.contents.idxOf? newline

/-- A newline that was found is among the used bytes. -/
theorem firstNewline_lt {buffer : LineBuffer} {pos : Nat}
    (found : firstNewline buffer = some pos) : pos < buffer.len := by
  rw [firstNewline, List.idxOf?_eq_some_iff] at found
  obtain ⟨inside, -⟩ := found
  rwa [buffer.length_contents] at inside

/-- The end of `console_read_line`: the used bytes behind a position move to the front, and a block
of which nothing is left is freed. -/
def consume (buffer : LineBuffer) (pos : Nat) (found : pos < buffer.len) : LineBuffer :=
  let rest := buffer.len - (pos + 1)
  if rest ≠ 0 then
    have moved : ((buffer.buf.drop (pos + 1)).take rest).length = rest := by
      have inside := buffer.len_le
      rw [List.length_take, List.length_drop]
      omega
    have enough : 0 + ((buffer.buf.drop (pos + 1)).take rest).length + 1 ≤ buffer.buf.length := by
      have inside := buffer.len_le
      omega
    { buf := terminate buffer.buf 0 ((buffer.buf.drop (pos + 1)).take rest)
      len := rest
      cap := buffer.cap
      allocated := (length_terminate enough).trans buffer.allocated
      room := .inl (by have allocated := buffer.allocated; omega) }
  else .null

/-! ## Sessions -/

/-- A session. `γ` is an output callback with its context. -/
structure Session (γ : Type) where
  /-- Its name. -/
  name : Field 32
  /-- Its number. -/
  id : Nat
  /-- It is not closed. -/
  active : Bool
  /-- What is still to be read. -/
  buffer : LineBuffer
  /-- How many bytes were written, to 64 bits. -/
  written : Nat
  /-- The output callback. -/
  outCb : Option γ

/-- What a call returns and stores. -/
structure Outcome where
  /-- The code. -/
  rc : Int
  /-- The bytes stored in the buffer of the caller, before their final zero. -/
  line : Option (List UInt8)
  /-- The length stored. -/
  n : Option Nat
deriving DecidableEq

/-- A code alone. -/
def Outcome.code (rc : Int) : Outcome := ⟨rc, none, none⟩

variable {γ : Type}

/-- The arguments of `console_read_line`: whether its pointers are set, and the room. -/
structure ReadArgs where
  /-- There is a buffer. -/
  buf : Bool
  /-- Its size. -/
  cap : Nat
  /-- There is a place for the length. -/
  n : Bool
deriving DecidableEq

/-- `sess_append` on a session. -/
def Session.append (s : Session γ) (data : List UInt8) (memory : Option (Nat → UInt8)) :
    Option (Session γ) :=
  (sessAppend s.buffer data memory).map fun buffer =>
    { s with buffer := buffer, written := (s.written + data.length) % 2 ^ 64 }

/-- `console_write`, with what the output callback gets. -/
def consoleWrite (s : Session γ) (buf : Option (List UInt8)) (memory : Option (Nat → UInt8)) :
    Session γ × Outcome × Option (γ × List UInt8) :=
  match s.active, buf with
  | true, some data =>
    match s.append data memory with
    | none => (s, .code enomem, none)
    | some appended => (appended, .code 0, s.outCb.map fun callback => (callback, data))
  | _, _ => (s, .code einval, none)

/-- `console_read_line`. -/
def consoleReadLine (s : Session γ) (args : ReadArgs) : Session γ × Outcome :=
  if s.active then
    if args.buf && args.cap ≠ 0 && args.n then
      match found : firstNewline s.buffer with
      | none => (s, ⟨eagain, none, some 0⟩)
      | some pos =>
        if args.cap ≤ pos then (s, ⟨enobufs, none, some 0⟩)
        else
          ({ s with buffer := consume s.buffer pos (firstNewline_lt found) },
            ⟨0, some (s.buffer.buf.take pos), some pos⟩)
    else (s, .code einval)
  else (s, .code einval)

/-- `console_clear`. -/
def consoleClear (s : Session γ) : Session γ × Outcome :=
  if s.active then ({ s with buffer := .null }, .code 0) else (s, .code einval)

/-- `console_close`. -/
def consoleClose (s : Session γ) : Session γ × Outcome :=
  if s.active then ({ s with active := false }, .code 0) else (s, .code einval)

/-- `console_bind`. -/
def consoleBind (s : Session γ) (callback : Option γ) : Session γ := { s with outCb := callback }

/-- The state of a console: the sessions, latest first, and the last number. -/
structure Console (γ : Type) where
  /-- All sessions that were opened. -/
  sessions : List (Session γ)
  /-- How many. -/
  seq : Nat

/-- A session as `console_open` makes it. -/
def Session.opened (name : Field 32) (id : Nat) : Session γ := ⟨name, id, true, .null, 0, none⟩

/-- `console_open`: a session of a name that no active session has. -/
def consoleOpen (console : Console γ) (name : Option CString) (memory : Bool) :
    Console γ × Except Int (Session γ) :=
  match name with
  | none => (console, .error einval)
  | some text =>
    if text.length = 0 ∨ 32 ≤ text.length then (console, .error einval)
    else if console.sessions.any fun it => it.active && it.name.1 == text then
      (console, .error eexist)
    else if memory then
      let s := Session.opened (Field.copy text) (console.seq + 1)
      (⟨s :: console.sessions, console.seq + 1⟩, .ok s)
    else (console, .error enomem)

end HwrunOs.Console
