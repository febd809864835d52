import Mathlib.Algebra.Group.Nat.Defs
import HwrunOs.Library.Loops
import HwrunOs.Library.Transducers

/-!
# Compression of buffers

`compress/src/compress_impl.c`: detection of a format by its first bytes, and compression and
decompression from one buffer into another. zlib and zstd are the parameter `Codecs`. A length is
a `uint32_t`, and so is the size of a buffer, which wraps when it is doubled beyond 32 bits.
-/

namespace HwrunOs.Compress

open HwrunOs.Loops HwrunOs.Transducers

/-- `EINVAL`. -/
def einval : Int := 22

/-- `ENOMEM`. -/
def enomem : Int := 12

/-- `ENOTSUP`. -/
def enotsup : Int := 95

/-- `EILSEQ`. -/
def eilseq : Int := 84

/-- `hw_compress_algo_t`. -/
inductive Algo where
  /-- To be detected, or the default. -/
  | auto
  /-- The container of zlib. -/
  | zlib
  /-- The container of gzip. -/
  | gzip
  /-- A frame of zstd. -/
  | zstd
  /-- xz. -/
  | xz
  /-- A frame of lz4. -/
  | lz4
  /-- A block of lz4. -/
  | lz4Raw
  /-- Any other number. -/
  | other (number : Int)
deriving DecidableEq

/-- `hw_compress_level_t`: the fastest is 0, the highest 4. -/
abbrev Level := Int

/-- `zlib_level`. -/
def zlibLevel (level : Level) : Int :=
  match level with
  | 0 => 1
  | 1 => 3
  | 3 => 8
  | 4 => 9
  | _ => 6

/-- `zstd_level`, where the highest is `ZSTD_maxCLevel()`. -/
def zstdLevel (highest : Int) (level : Level) : Int :=
  match level with
  | 0 => 1
  | 1 => 3
  | 3 => 15
  | 4 => highest
  | _ => 5

/-- What `ZSTD_getFrameContentSize` returns. -/
inductive ContentSize where
  /-- `ZSTD_CONTENTSIZE_UNKNOWN`. -/
  | unknown
  /-- `ZSTD_CONTENTSIZE_ERROR`. -/
  | error
  /-- The size in the header. -/
  | known (size : Nat)

/-- zlib and libzstd. -/
structure Codecs where
  /-- `deflate`, for gzip or not and a level of zlib. -/
  deflate : Bool → Int → Encoder UInt8 UInt8
  /-- `deflateBound`. -/
  deflateBound : Bool → Int → Nat → Nat
  /-- `inflate`, which detects the container itself. -/
  inflate : Decoder UInt8 UInt8
  /-- `ZSTD_maxCLevel`. -/
  maxCLevel : Int
  /-- `ZSTD_compressBound`. -/
  zstdBound : Nat → Nat
  /-- `ZSTD_compress`, with a level, an input and room, or `none` for an error. -/
  zstdCompress : Int → List UInt8 → Nat → Option (List UInt8)
  /-- `ZSTD_compressStream2`, with a level. -/
  zstdStream : Int → Encoder UInt8 UInt8
  /-- `ZSTD_decompressStream`. -/
  unzstd : Decoder UInt8 UInt8
  /-- `ZSTD_getFrameContentSize`. -/
  frameContentSize : List UInt8 → ContentSize

/-- The answers of the system to requests for memory. -/
structure Memory where
  /-- The libraries can allocate their states. -/
  init : Bool
  /-- `malloc` or `realloc` of a size succeeds. -/
  alloc : Nat → Bool

/-- What a call returns. -/
inductive Reply (α : Type) where
  /-- It returns 0 and a value. -/
  | ok (value : α)
  /-- It returns an error. -/
  | error (code : Int)
  /-- It uses memory that it does not own. -/
  | undefined
deriving DecidableEq

/-- `hw_compress_result_t`. The length of the data is that of the list. -/
structure CompressResult where
  /-- The result. -/
  data : List UInt8
  /-- The length of the input. -/
  origLen : Nat
  /-- The algorithm. -/
  algo : Algo
deriving DecidableEq

/-! ## Detection -/

/-- `compress_detect`, for a pointer that is not null. -/
def compressDetect (data : List UInt8) : Algo :=
  match data with
  | a :: b :: c :: d :: _ =>
    if a = 0x28 ∧ b = 0xB5 ∧ c = 0x2F ∧ d = 0xFD then .zstd
    else if a = 0x1F ∧ b = 0x8B then .gzip
    else if a = 0xFD ∧ b = 0x37 ∧ c = 0x7A then .xz
    else if a = 0x04 ∧ b = 0x22 ∧ c = 0x4D ∧ d = 0x18 then .lz4
    else if a = 0x78 ∧ (b = 0x01 ∨ b = 0x9C ∨ b = 0xDA ∨ b = 0x5E) then .zlib
    else .auto
  | _ => .auto

/-! ## Compression -/

/-- `buf_compress_zlib`. The room is the bound as a `uInt`. -/
def bufCompressZlib (codecs : Codecs) (memory : Memory) (isGzip : Bool) (level : Level)
    (input : List UInt8) : Reply (List UInt8) :=
  let bound := codecs.deflateBound isGzip (zlibLevel level) input.length
  if memory.init && memory.alloc (max bound 1) then
    let encoder := codecs.deflate isGzip (zlibLevel level)
    let answer := encoder.encode encoder.start input (bound % 2 ^ 32) true
    if answer.report = .ended then .ok answer.produced else .error (-eilseq)
  else .error (-enomem)

/-- `buf_compress_zstd`. -/
def bufCompressZstd (codecs : Codecs) (memory : Memory) (level : Level) (input : List UInt8) :
    Reply (List UInt8) :=
  let bound := codecs.zstdBound input.length
  if memory.alloc bound then
    match codecs.zstdCompress (zstdLevel codecs.maxCLevel level) input bound with
    | some output => .ok (output.take (output.length % 2 ^ 32))
    | none => .error (-eilseq)
  else .error (-enomem)

/-- The result of a compression or decompression with an algorithm. -/
def Reply.result (reply : Reply (List UInt8)) (origLen : Nat) (algo : Algo) :
    Reply CompressResult :=
  match reply with
  | .ok data => .ok ⟨data, origLen, algo⟩
  | .error code => .error code
  | .undefined => .undefined

/-- `compress_buffer`. A null input is `none`. -/
def compressBuffer (codecs : Codecs) (memory : Memory) (algo : Algo) (level : Level)
    (input : Option (List UInt8)) : Reply CompressResult :=
  match input with
  | none => .error (-einval)
  | some input =>
    match algo with
    | .zlib => (bufCompressZlib codecs memory false level input).result input.length .zlib
    | .gzip => (bufCompressZlib codecs memory true level input).result input.length .gzip
    | .zstd | .auto => (bufCompressZstd codecs memory level input).result input.length .zstd
    | .xz | .lz4 | .lz4Raw => .error (-enotsup)
    | .other _ => .error (-einval)

/-! ## Decompression -/

/-- The state of a decompression loop. -/
structure Unpacking (decoder : Decoder UInt8 UInt8) where
  /-- The state of the decoder. -/
  state : decoder.State
  /-- The input that is left. -/
  rest : List UInt8
  /-- The size of the buffer. -/
  cap : Nat
  /-- The output in the buffer. -/
  out : List UInt8

section

variable {decoder : Decoder UInt8 UInt8}

/-- A full buffer is doubled. `realloc` to size 0 releases the buffer, which is then released
again; a size that wrapped lets the decoder write behind the end of the buffer. -/
def growFull (alloc : Nat → Bool) (unpacking : Unpacking decoder) :
    Pass (Unpacking decoder) (Reply (List UInt8)) :=
  if unpacking.out.length = unpacking.cap then
    let cap := unpacking.cap * 2 % 2 ^ 32
    if cap = 0 then .stop .undefined
    else if alloc cap = false then .stop (.error (-enomem))
    else if cap < unpacking.out.length then .stop .undefined
    else .next { unpacking with cap := cap }
  else .next unpacking

/-- One call of the decoder, with the rest of the input and the rest of the buffer. -/
def decodeStep (unpacking : Unpacking decoder) :
    Pass (Unpacking decoder) (Reply (List UInt8)) :=
  let answer := decoder.decode unpacking.state unpacking.rest
    (unpacking.cap - unpacking.out.length)
  match answer.report with
  | .ended => .stop (.ok (unpacking.out ++ answer.produced))
  | .failed => .stop (.error (-eilseq))
  | .more => .next ⟨answer.state, unpacking.rest.drop answer.consumed, unpacking.cap,
      unpacking.out ++ answer.produced⟩

/-- The loop of `buf_decompress_zlib`: the buffer grows before a call. -/
def zlibLoop (alloc : Nat → Bool) :
    Unpacking decoder → Pass (Unpacking decoder) (Reply (List UInt8)) :=
  Pass.andThen (growFull alloc) decodeStep

/-- The loop of `buf_decompress_zstd`: the buffer grows after a call. -/
def zstdLoop (alloc : Nat → Bool) :
    Unpacking decoder → Pass (Unpacking decoder) (Reply (List UInt8)) :=
  Pass.andThen decodeStep (growFull alloc)

end

/-- Before the first call. -/
def unpackFrom (decoder : Decoder UInt8 UInt8) (input : List UInt8) (cap : Nat) :
    Unpacking decoder := ⟨decoder.start, input, cap, []⟩

/-- The first size of the buffer of `buf_decompress_zlib`. -/
def zlibCap (length : Nat) : Nat := if 4096 < length then (length * 2 + 1024) % 2 ^ 32 else 4096

/-- The first size of the buffer of `buf_decompress_zstd`. -/
def zstdCap (size : ContentSize) (length : Nat) : Nat :=
  match size with
  | .known (size + 1) => (size + 1) % 2 ^ 32
  | _ => if 4096 < length then length * 4 % 2 ^ 32 else 4096

/-- `buf_decompress_zlib`, with a number of passes of its loop. -/
def bufDecompressZlib (codecs : Codecs) (memory : Memory) (fuel : Nat) (input : List UInt8) :
    Option (Reply (List UInt8)) :=
  let cap := zlibCap input.length
  if memory.init && memory.alloc cap then
    runLoop (zlibLoop memory.alloc) fuel (unpackFrom codecs.inflate input cap)
  else some (.error (-enomem))

/-- `buf_decompress_zstd`, with a number of passes of its loop. -/
def bufDecompressZstd (codecs : Codecs) (memory : Memory) (fuel : Nat) (input : List UInt8) :
    Option (Reply (List UInt8)) :=
  let cap := zstdCap (codecs.frameContentSize input) input.length
  if memory.alloc (max cap 1) && memory.init then
    runLoop (zstdLoop memory.alloc) fuel (unpackFrom codecs.unzstd input cap)
  else some (.error (-enomem))

/-- The algorithm that `compress_decompress` goes by. -/
def chosenAlgo (force : Algo) (input : List UInt8) : Algo :=
  if force = .auto then compressDetect input else force

/-- `compress_decompress`. A null input is `none`; no result means that its loop still runs. -/
def compressDecompress (codecs : Codecs) (memory : Memory) (fuel : Nat) (force : Algo)
    (input : Option (List UInt8)) : Option (Reply CompressResult) :=
  match input with
  | none => some (.error (-einval))
  | some input =>
    match chosenAlgo force input with
    | .zlib => (bufDecompressZlib codecs memory fuel input).map
        fun reply => reply.result input.length .zlib
    | .gzip => (bufDecompressZlib codecs memory fuel input).map
        fun reply => reply.result input.length .gzip
    | .zstd => (bufDecompressZstd codecs memory fuel input).map
        fun reply => reply.result input.length .zstd
    | .xz | .lz4 | .lz4Raw => some (.error (-enotsup))
    | .auto | .other _ => some (.error (-eilseq))

end HwrunOs.Compress
