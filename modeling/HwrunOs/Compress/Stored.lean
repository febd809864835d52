import HwrunOs.Library.Machines
import HwrunOs.Compress.Termination

/-!
# A stored format

Codecs for which everything that is documented of zlib and libzstd holds. Behind the header of
each format the bytes are stored in pairs, each pair behind a tag. For the empty input the
output is that of the real libraries, and on all front parts of it the decoders do what the real
ones do.
-/

namespace HwrunOs.Compress

open HwrunOs.Loops HwrunOs.Transducers

/-- The header of the zlib stream of an empty input, without its first byte. -/
def zlibHeader : List UInt8 := [0x9C, 0x03, 0, 0, 0, 0]

/-- The header of the gzip stream of an empty input, without its first byte. -/
def gzipHeader : List UInt8 := [0x8B, 8, 0, 0, 0, 0, 0, 0, 3, 3, 0, 0, 0, 0, 0, 0, 0, 0]

/-- The header of the zstd frame of an empty input, without its first byte. -/
def zstdHeader : List UInt8 := [0xB5, 0x2F, 0xFD, 0x20, 0, 1, 0]

/-- Bytes in pairs, each behind the tag 3, and a last one behind the tag 2. -/
def storePairs : List UInt8 → List UInt8
  | [] => []
  | [last] => [2, last]
  | first :: second :: rest => 3 :: first :: second :: storePairs rest

/-- A stream: the first byte, the header, the pairs and the last byte. -/
def storeStream (first : UInt8) (header : List UInt8) (last : UInt8) (input : List UInt8) :
    List UInt8 := first :: (header ++ (storePairs input ++ [last]))

/-- Where a stored stream is read. -/
inductive Stored where
  /-- Before the first byte. -/
  | start
  /-- Before the rest of a header. -/
  | header (rest : List UInt8) (last : UInt8)
  /-- Before some stored bytes. -/
  | bytes (left : Nat) (last : UInt8)

/-- One byte of the rest of a header or of the pairs. -/
def storedByte (byte : UInt8) : Stored → Move Stored UInt8
  | .start => .fail
  | .header (next :: rest) last => if byte = next then .go (.header rest last) none else .fail
  | .header [] last =>
    if byte = 2 then .go (.bytes 0 last) none
    else if byte = 3 then .go (.bytes 1 last) none
    else if byte = last then .stop else .fail
  | .bytes 0 last => .go (.header [] last) (some byte)
  | .bytes (left + 1) last => .go (.bytes left last) (some byte)

/-- One byte of a zlib or gzip stream. -/
def inflateByte : Stored → UInt8 → Move Stored UInt8
  | .start, byte =>
    if byte = 0x78 then .go (.header zlibHeader 1) none
    else if byte = 0x1F then .go (.header gzipHeader 0) none else .fail
  | state, byte => storedByte byte state

/-- One byte of a zstd frame. -/
def unzstdByte : Stored → UInt8 → Move Stored UInt8
  | .start, byte => if byte = 0x28 then .go (.header zstdHeader 0) none else .fail
  | state, byte => storedByte byte state

/-- The stream of zlib or gzip. -/
def storedZlib (isGzip : Bool) : List UInt8 → List UInt8 :=
  if isGzip then storeStream 0x1F gzipHeader 0 else storeStream 0x78 zlibHeader 1

/-- The frame of zstd. -/
def storedZstd : List UInt8 → List UInt8 := storeStream 0x28 zstdHeader 0

/-- The bound of a stored stream. -/
def storedBound (length : Nat) : Nat := length / 2 * 3 + 24

/-- The codecs of the stored format. -/
def storedCodecs : Codecs where
  deflate isGzip _ := wholeEncoder (storedZlib isGzip)
  deflateBound _ _ := storedBound
  inflate := machineDecoder .start inflateByte
  maxCLevel := 22
  zstdBound := storedBound
  zstdCompress _ input room :=
    if (storedZstd input).length ≤ room then some (storedZstd input) else none
  zstdStream _ := wholeEncoder storedZstd
  unzstd := machineDecoder .start unzstdByte
  frameContentSize stream := if stream = storedZstd [] then .known 0 else .unknown

/-- The decoders of the stored format are lawful. -/
theorem storedCodecs_decodes : storedCodecs.Decodes :=
  ⟨machineDecoder_lawful Stored.start inflateByte, machineDecoder_lawful Stored.start unzstdByte⟩

/-! ## Cut and whole streams -/

/-- A system that always has memory. -/
def enoughMemory : Memory := ⟨true, fun _ => true⟩

end HwrunOs.Compress
