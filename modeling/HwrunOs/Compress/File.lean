import Mathlib.Logic.Function.Basic
import HwrunOs.Library.Bytes
import HwrunOs.Compress.Buffer

/-!
# Compression of files

The second half of `compress/src/compress_impl.c`: four loops that move a file through a codec in
pieces of 64 KiB, and `impl_file` around them, which opens both files, removes what a failed call
has written and, when it is told so, removes the input. A read may stop early because of an
error, which the loops cannot tell from the end of the file, and a write may fail.
-/

namespace HwrunOs.Compress

open HwrunOs.Bytes HwrunOs.Loops HwrunOs.Transducers

/-- `EIO`. -/
def eio : Int := 5

/-- `ENOENT`. -/
def enoent : Int := 2

/-- `CHUNK`. -/
def chunk : Nat := 65536

/-! ## Reading and writing -/

/-- A file that is read. -/
structure Reader where
  /-- The bytes behind its position. -/
  rest : List UInt8
  /-- How many bytes the next reads get at most, because an error stops them. -/
  limits : List Nat

/-- `fread` of so many bytes. -/
def Reader.read (reader : Reader) (want : Nat) : List UInt8 × Reader :=
  let most := match reader.limits with
    | [] => want
    | limit :: _ => min limit want
  (reader.rest.take most, ⟨reader.rest.drop most, reader.limits.tail⟩)

/-- So many bytes can be written before a write fails, where `none` is any number. -/
def takes (room : Option Nat) (length : Nat) : Bool := room.all fun most => length ≤ most

/-- `fwrite` behind what is written, or `none` when it fails. Nothing is written without a call. -/
def fwrite (room : Option Nat) (written data : List UInt8) : Option (List UInt8) :=
  if data = [] ∨ takes room (written.length + data.length) then some (written ++ data) else none

/-- The input buffer of a loop with the file behind it. -/
structure Source where
  /-- What is left in the buffer. -/
  window : List UInt8
  /-- A read was short. -/
  short : Bool
  /-- The file. -/
  reader : Reader

/-- Before the first read of a file. -/
def Source.of (content : List UInt8) (limits : List Nat) : Source := ⟨[], false, ⟨content, limits⟩⟩

/-- The buffer is filled, and whether the read was short is kept. -/
def Source.fill (source : Source) : Source :=
  let (got, reader) := source.reader.read chunk
  ⟨got, decide (got.length < chunk), reader⟩

/-- How a loop ends. -/
structure FileEnd where
  /-- Its return code. -/
  code : Int
  /-- What it has written. -/
  written : List UInt8
  /-- How many bytes of the input the codec has taken. -/
  consumed : Nat
deriving DecidableEq

/-- The state of a loop with a codec. -/
structure Piping (State : Type) where
  /-- The state of the codec. -/
  state : State
  /-- The input. -/
  source : Source
  /-- What is written. -/
  written : List UInt8
  /-- How many bytes of the input the codec has taken. -/
  consumed : Nat

namespace Piping

variable {State : Type}

/-- A loop returns. -/
def done (piping : Piping State) (code : Int) : Pass (Piping State) FileEnd :=
  .stop ⟨code, piping.written, piping.consumed⟩

/-- The state behind an answer of the codec whose output is written. -/
def behind (piping : Piping State) (source : Source) (answer : Answer State UInt8)
    (written : List UInt8) : Piping State :=
  ⟨answer.state, { source with window := source.window.drop answer.consumed }, written,
    piping.consumed + answer.consumed⟩

end Piping

/-- An answer is written, and the loop returns 0, an error, or goes on. `errorFirst`: an error of
the codec is seen before its output is written. -/
def writeAnswer {State : Type} (room : Option Nat) (errorFirst : Bool) (piping : Piping State)
    (source : Source) (answer : Answer State UInt8) (finished : Bool) :
    Pass (Piping State) FileEnd :=
  if errorFirst && answer.report = .failed then piping.done (-eilseq)
  else
    match fwrite room piping.written answer.produced with
    | none => piping.done (-eio)
    | some written =>
      if finished then (piping.behind source answer written).done 0
      else if answer.report = .failed then (piping.behind source answer written).done (-eilseq)
      else .next (piping.behind source answer written)

/-! ## Compression -/

/-- The input of a compression loop is filled when it is used up, up to the first short read. -/
def packFill (source : Source) : Source :=
  if source.short = false ∧ source.window = [] then source.fill else source

/-- The loop of `file_compress_zlib`. Its inner loop, which calls the codec until the buffer is
used up, and the outer one, which fills it, are one loop here. -/
def zlibPack {encoder : Encoder UInt8 UInt8} (room : Option Nat) (piping : Piping encoder.State) :
    Pass (Piping encoder.State) FileEnd :=
  let source := packFill piping.source
  let answer := encoder.encode piping.state source.window chunk source.short
  writeAnswer room false piping source answer (answer.report = .ended)

/-- The loops of `file_compress_zstd`. -/
def zstdPack {encoder : Encoder UInt8 UInt8} (room : Option Nat) (piping : Piping encoder.State) :
    Pass (Piping encoder.State) FileEnd :=
  let source := packFill piping.source
  let answer := encoder.encode piping.state source.window chunk source.short
  writeAnswer room true piping source answer (source.short && answer.report = .ended)

/-! ## Decompression -/

/-- The loop of `file_decompress_zlib`: no input behind a short read is a stream that is cut off. -/
def zlibUnpack {decoder : Decoder UInt8 UInt8} (room : Option Nat)
    (piping : Piping decoder.State) : Pass (Piping decoder.State) FileEnd :=
  if piping.source.window = [] ∧ piping.source.short = true then piping.done (-eilseq)
  else
    let source := if piping.source.window = [] then piping.source.fill else piping.source
    let answer := decoder.decode piping.state source.window chunk
    writeAnswer room false piping source answer (answer.report = .ended)

/-- The loop of `file_decompress_zstd`: a read of nothing is a stream that is cut off. -/
def zstdUnpack {decoder : Decoder UInt8 UInt8} (room : Option Nat)
    (piping : Piping decoder.State) : Pass (Piping decoder.State) FileEnd :=
  if piping.source.window = [] ∧ piping.source.fill.window = [] then piping.done (-eilseq)
  else
    let source := if piping.source.window = [] then piping.source.fill else piping.source
    let answer := decoder.decode piping.state source.window chunk
    writeAnswer room true piping source answer (answer.report = .ended)

/-! ## The call -/

/-- The answers of the system to a call on files. -/
structure FileHost where
  /-- The error of `fopen` for the input, or 0. -/
  openInput : Int
  /-- The error of `fopen` for the output, or 0. -/
  openOutput : Int
  /-- The libraries can allocate their states. -/
  init : Bool
  /-- How many bytes the read for the detection gets at most. -/
  headLimit : Nat
  /-- How many bytes the reads of the loop get at most. -/
  limits : List Nat
  /-- How many bytes can be written. -/
  room : Option Nat
  /-- `fclose` of the output succeeds. -/
  closeOutput : Bool

/-- `hw_compress_file_req_t`. A null path is `none`. -/
structure FileReq where
  /-- The file to read. -/
  inputPath : Option CString
  /-- The file to write. -/
  outputPath : Option CString
  /-- The algorithm. -/
  algo : Algo
  /-- The level. -/
  level : Level
  /-- The input is kept. -/
  keepOriginal : Bool

/-- `hw_compress_file_resp_t`. -/
structure FileResp where
  /-- The length of the plain bytes. -/
  origLen : Nat
  /-- The length of the compressed bytes. -/
  resultLen : Nat
  /-- The algorithm. -/
  algo : Algo
deriving DecidableEq

/-- The contents of files by their paths. -/
abbrev Disk := CString → Option (List UInt8)

/-- What a call leaves and returns. -/
structure FileReply where
  /-- The files. -/
  disk : Disk
  /-- The return code. -/
  code : Int
  /-- The response. -/
  resp : Option FileResp
  /-- How many bytes of the input the codec has taken. -/
  consumed : Nat

/-- The algorithm of a call on files, with the first bytes of the input. -/
def fileAlgo (compressDir : Bool) (host : FileHost) (algo : Algo) (content : List UInt8) : Algo :=
  if algo = .auto then
    if compressDir then .zstd else compressDetect (content.take (min host.headLimit 16))
  else algo

/-- The loop of a call on files, with a number of passes. -/
def pipe (codecs : Codecs) (host : FileHost) (fuel : Nat) (compressDir : Bool) (algo : Algo)
    (level : Level) (content : List UInt8) : Option FileEnd :=
  let source := Source.of content host.limits
  match algo with
  | .zlib | .gzip =>
    if host.init = false then some ⟨-enomem, [], 0⟩
    else if compressDir then
      let encoder := codecs.deflate (algo = .gzip) (zlibLevel level)
      runLoop (zlibPack host.room) fuel ⟨encoder.start, source, [], 0⟩
    else runLoop (zlibUnpack host.room) fuel ⟨codecs.inflate.start, source, [], 0⟩
  | .zstd =>
    if host.init = false then some ⟨-enomem, [], 0⟩
    else if compressDir then
      let encoder := codecs.zstdStream (zstdLevel codecs.maxCLevel level)
      runLoop (zstdPack host.room) fuel ⟨encoder.start, source, [], 0⟩
    else runLoop (zstdUnpack host.room) fuel ⟨codecs.unzstd.start, source, [], 0⟩
  | _ => some ⟨-enotsup, [], 0⟩

/-- The end of a call on files: the output is closed; it is removed when the call fails, and the
input when it succeeds and is not to be kept. -/
def finishFile (host : FileHost) (compressDir : Bool) (disk : Disk) (input output : CString)
    (keepOriginal : Bool) (algo : Algo) (length : Nat) (last : FileEnd) : FileReply :=
  let code := if last.code = 0 ∧ host.closeOutput = false then -eio else last.code
  if code ≠ 0 then ⟨Function.update disk output none, code, none, last.consumed⟩
  else
    let stored := Function.update disk output (some last.written)
    ⟨if keepOriginal then stored else Function.update stored input none, 0,
      if compressDir then some ⟨length, last.written.length, algo⟩
      else some ⟨last.written.length, length, algo⟩,
      last.consumed⟩

/-- `impl_file`, with a number of passes of its loop. Opening the output empties it, so that an
input of the same path is read as empty. -/
def implFile (codecs : Codecs) (host : FileHost) (fuel : Nat) (compressDir : Bool) (disk : Disk)
    (req : FileReq) : Option FileReply :=
  match req.inputPath, req.outputPath with
  | some input, some output =>
    if (disk input).isNone then some ⟨disk, -enoent, none, 0⟩
    else if host.openInput ≠ 0 then some ⟨disk, -host.openInput, none, 0⟩
    else if host.openOutput ≠ 0 then some ⟨disk, -host.openOutput, none, 0⟩
    else
      let opened := Function.update disk output (some [])
      let content := (opened input).getD []
      let algo := fileAlgo compressDir host req.algo content
      (pipe codecs host fuel compressDir algo req.level content).map
        (finishFile host compressDir opened input output req.keepOriginal algo content.length)
  | _, _ => some ⟨disk, -einval, none, 0⟩

end HwrunOs.Compress
