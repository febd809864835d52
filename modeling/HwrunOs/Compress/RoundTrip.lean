import HwrunOs.Compress.DataLoss

/-!
# Compression and decompression

What is compressed is decompressed to the same bytes, from a buffer or from a file on either way,
with the format given or detected, when nothing fails. The bytes are fewer than 2^29, so that no
size of 32 bits wraps.
-/

namespace HwrunOs.Compress

open HwrunOs.Bytes HwrunOs.Loops HwrunOs.Transducers

/-! ## What is documented of the codecs -/

/-- The magic bytes of a format. -/
def magicBytes : Algo → List (List UInt8)
  | .zlib => [[0x78, 0x01], [0x78, 0x5E], [0x78, 0x9C], [0x78, 0xDA]]
  | .gzip => [[0x1F, 0x8B]]
  | .zstd => [[0x28, 0xB5, 0x2F, 0xFD]]
  | _ => []

/-- A stream of zlib or gzip, or a frame of zstd, that holds some bytes. -/
structure Holds (decoder : Decoder UInt8 UInt8) (algo : Algo) (bound : Nat)
    (stream plain : List UInt8) : Prop where
  /-- It is within its bound. -/
  fits : stream.length ≤ bound
  /-- It begins with its magic bytes. -/
  magic : ∃ magic ∈ magicBytes algo, magic <+: stream
  /-- It has more than a header of two bytes. -/
  long : 4 ≤ stream.length
  /-- The decoder returns the bytes, and the stream ends. -/
  ended : decoder.verdict decoder.start stream = .ended stream.length plain

/-- What is documented of zlib and libzstd, at the levels in use. -/
structure Codecs.Documented (codecs : Codecs) : Prop where
  /-- The encoders. -/
  encodes : codecs.Encodes
  /-- The decoders. -/
  decodes : codecs.Decodes
  /-- The output of `deflate` holds its input. -/
  deflate : ∀ isGzip level input, Holds codecs.inflate (if isGzip then .gzip else .zlib)
    (codecs.deflateBound isGzip (zlibLevel level) input.length)
    ((codecs.deflate isGzip (zlibLevel level)).output input) input
  /-- With so much room as `deflateBound` says, one call is enough. -/
  single : ∀ isGzip level input room,
    codecs.deflateBound isGzip (zlibLevel level) input.length ≤ room →
      ((codecs.deflate isGzip (zlibLevel level)).encode
        (codecs.deflate isGzip (zlibLevel level)).start input room true).report = .ended
  /-- `deflateBound` does not double an input. -/
  deflateBound : ∀ isGzip level length, length < 2 ^ 29 →
    codecs.deflateBound isGzip (zlibLevel level) length < 2 ^ 30
  /-- The output of `ZSTD_compressStream2` holds its input. -/
  zstdStream : ∀ level input, Holds codecs.unzstd .zstd (codecs.zstdBound input.length)
    ((codecs.zstdStream (zstdLevel codecs.maxCLevel level)).output input) input
  /-- `ZSTD_compress` succeeds with as much room as `ZSTD_compressBound` says, and its output
  holds its input. -/
  zstdCompress : ∀ level input, ∃ stream, codecs.zstdCompress (zstdLevel codecs.maxCLevel level)
    input (codecs.zstdBound input.length) = some stream ∧
      Holds codecs.unzstd .zstd (codecs.zstdBound input.length) stream input
  /-- `ZSTD_compressBound` does not double an input. -/
  zstdBound : ∀ length, length < 2 ^ 29 → codecs.zstdBound length < 2 ^ 30
  /-- The size in the header of a frame is that of what the frame holds. -/
  contentSize : ∀ stream size length output, codecs.frameContentSize stream = .known size →
    codecs.unzstd.verdict codecs.unzstd.start stream = .ended length output → size = output.length

/-- Magic bytes are detected. -/
theorem compressDetect_magic {algo : Algo} {stream : List UInt8}
    (magic : ∃ magic ∈ magicBytes algo, magic <+: stream) (long : 4 ≤ stream.length) :
    compressDetect stream = algo := by
  obtain ⟨first, second, third, fourth, rest, rfl⟩ :
      ∃ first second third fourth rest, stream = first :: second :: third :: fourth :: rest := by
    match stream, long with
    | first :: second :: third :: fourth :: rest, _ =>
      exact ⟨first, second, third, fourth, rest, rfl⟩
  obtain ⟨magic, member, begins⟩ := magic
  cases algo with
  | zlib =>
    simp only [magicBytes, List.mem_cons, List.not_mem_nil, or_false] at member
    rcases member with rfl | rfl | rfl | rfl
    all_goals
      simp only [List.cons_prefix_cons] at begins
      obtain ⟨rfl, rfl, -⟩ := begins
      rfl
  | gzip =>
    obtain rfl := List.mem_singleton.mp member
    simp only [List.cons_prefix_cons] at begins
    obtain ⟨rfl, rfl, -⟩ := begins
    rfl
  | zstd =>
    obtain rfl := List.mem_singleton.mp member
    simp only [List.cons_prefix_cons] at begins
    obtain ⟨rfl, rfl, rfl, rfl, -⟩ := begins
    rfl
  | auto | xz | lz4 | lz4Raw | other => cases member

/-- Only the first four bytes are looked at. -/
theorem compressDetect_take {stream : List UInt8} (long : 4 ≤ stream.length) :
    compressDetect (stream.take 16) = compressDetect stream := by
  match stream, long with
  | _ :: _ :: _ :: _ :: _, _ => rfl

/-! ## Buffers -/

/-- A system that always has memory. -/
structure Memory.Plenty (memory : Memory) : Prop where
  /-- The libraries can allocate their states. -/
  init : memory.init = true
  /-- Every request is granted. -/
  alloc : ∀ size, memory.alloc size = true

/-- Between two passes on a stream that ends: what is in the buffer and what is left make up the
whole output. -/
structure Collects {decoder : Decoder UInt8 UInt8} (whole : List UInt8)
    (unpacking : Unpacking decoder) : Prop where
  /-- The rest of the stream ends with the rest of the output. -/
  ends : ∃ length output, unpacking.verdict = .ended length output ∧
    unpacking.out ++ output = whole
  /-- The output is within the buffer. -/
  within : unpacking.out.length ≤ unpacking.cap
  /-- The size of the buffer has 32 bits. -/
  small : unpacking.cap < 2 ^ 32

section

variable {decoder : Decoder UInt8 UInt8} {alloc : Nat → Bool} {whole : List UInt8}

/-- What a call that goes on collects. -/
theorem Collects.called {before after : Unpacking decoder} (collects : Collects whole before)
    (called : Called before after) : Collects whole after := by
  obtain ⟨⟨length, output, ended, sum⟩, -, small⟩ := collects
  obtain ⟨consumed, produced, out, follows⟩ := called.follows
  rw [ended] at follows
  obtain ⟨left, tail, rest, -, split⟩ := follows.ended
  refine ⟨⟨left, tail, rest, ?_⟩, called.within, called.cap ▸ small⟩
  rw [out, List.append_assoc, ← split]
  exact sum

/-- One pass of the loop of zstd on a stream that ends, when memory is always granted. -/
theorem Collects.pass (lawful : decoder.Lawful) (given : ∀ size, alloc size = true)
    {unpacking : Unpacking decoder} (collects : Collects whole unpacking) :
    (∃ reply, zstdLoop alloc unpacking = .stop reply ∧
        (reply = .ok whole ∨ reply = .undefined)) ∨
      ∃ later, zstdLoop alloc unpacking = .next later ∧ Collects whole later := by
  rcases decodeStep_cases lawful collects.within with ⟨length, output, verdict, -, step⟩ |
    ⟨most, failed, -⟩ | ⟨later, step, called⟩
  · obtain ⟨other, tail, ended, sum⟩ := collects.ends
    obtain ⟨-, rfl⟩ := Verdict.ended.inj (verdict.symm.trans ended)
    refine .inl ⟨.ok (unpacking.out ++ output), ?_, .inl (by rw [sum])⟩
    simp only [zstdLoop, Pass.andThen, step]
  · obtain ⟨_, _, ended, -⟩ := collects.ends
    rw [failed] at ended
    cases ended
  · have next := collects.called called
    rcases called.stuck with full | ⟨spare, -, -⟩
    · rcases @growFull_full _ alloc later full next.small with ⟨grown, -, -⟩ |
        ⟨-, -, refused⟩ | ⟨grown, -, fits, -⟩
      · exact .inl ⟨.undefined, by simp only [zstdLoop, Pass.andThen, step, grown], .inr rfl⟩
      · rw [given] at refused
        cases refused
      · have doubled : later.out.length ≤ later.cap * 2 := by omega
        exact .inr ⟨{ later with cap := later.cap * 2 },
          by simp only [zstdLoop, Pass.andThen, step, grown], next.ends, doubled, fits⟩
    · exact .inr ⟨later, by simp only [zstdLoop, Pass.andThen, step, growFull_spare spare], next⟩

/-- A loop on a stream that ends returns its output, when memory is always granted and the buffer
can be doubled beyond the output. -/
theorem loopOf_ended (lawful : decoder.Lawful) (given : ∀ size, alloc size = true) (algo : Algo)
    {input output : List UInt8} {length cap : Nat}
    (ended : decoder.verdict decoder.start input = .ended length output)
    (small : cap < 2 ^ 32) (room : HasRoom cap output.length) :
    Stops (loopOf alloc algo) (unpackFrom decoder input cap) (.ok output) := by
  have collects : Collects output (unpackFrom decoder input cap) :=
    ⟨⟨length, output, ended, rfl⟩, Nat.zero_le _, small⟩
  have total : (unpackFrom decoder input cap).total = output.length := by
    rw [Unpacking.total, show (unpackFrom decoder input cap).verdict = _ from ended]
    exact Nat.zero_add _
  have whole : (decoder.verdict decoder.start input).isCut = false := by rw [ended]; rfl
  have bounded : Bounded alloc (unpackFrom decoder input cap) := .inr ⟨whole, total ▸ room⟩
  obtain ⟨reply, stops, usable⟩ := loopOf_stops lawful algo small bounded
  have returns {reply : Reply (List UInt8)}
      (stops : Stops (zstdLoop alloc) (unpackFrom decoder input cap) reply) :
      reply = .ok output ∨ reply = .undefined := by
    apply @Stops.spec _ _ (zstdLoop alloc) (Collects output)
      (fun reply => reply = .ok output ∨ reply = .undefined) _ _ _ collects stops
    exact fun _ => Collects.pass lawful given
  suffices reply = .ok output by rwa [this] at stops
  have stopped := stops
  unfold loopOf at stopped
  split at stopped
  · exact (returns stopped).resolve_right usable.defined
  · rcases zlibLoop_start.mp stopped with ⟨-, undefined⟩ | ⟨-, stopped⟩
    · exact absurd undefined usable.defined
    · exact (returns stopped).resolve_right usable.defined

end

/-- A buffer of 32 bits can be doubled beyond fewer than 2^29 bytes. -/
theorem hasRoom_short {cap total : Nat} (some_ : 0 < cap) (small : cap < 2 ^ 32)
    (short : total < 2 ^ 29) : HasRoom cap total := by
  induction left : 2 ^ 29 - cap using Nat.strong_induction_on generalizing cap with
  | _ left ih =>
    by_cases large : total < cap
    · exact ⟨0, by omega, by omega⟩
    · obtain ⟨k, high, low⟩ := @ih (2 ^ 29 - cap * 2) (by omega) (cap * 2) (by omega) (by omega) rfl
      rw [double_pow] at high low
      exact ⟨k + 1, high, low⟩

/-- Compressed bytes of a format that hold some bytes. -/
def Archive (codecs : Codecs) (algo : Algo) (stream plain : List UInt8) : Prop :=
  ∃ decoder bound, decoderOf codecs algo = some decoder ∧ bound < 2 ^ 30 ∧
    Holds decoder algo bound stream plain

/-- The first size of the buffer for compressed bytes is not 0. -/
theorem firstCap_pos {codecs : Codecs} (documented : codecs.Documented) {algo : Algo}
    {stream plain : List UInt8} (archive : Archive codecs algo stream plain)
    (short : plain.length < 2 ^ 29) : 0 < firstCap codecs algo stream := by
  obtain ⟨decoder, bound, found, small, holds⟩ := archive
  have fits := holds.fits
  unfold firstCap
  split
  next zstd =>
    subst zstd
    obtain rfl := Option.some.inj found
    unfold zstdCap
    split
    next size header =>
      have size := documented.contentSize _ _ _ _ header holds.ended
      omega
    next => split <;> omega
  next =>
    unfold zlibCap
    split <;> omega

/-- Compressed bytes in a buffer are decompressed, with the format given or detected. -/
theorem Archive.decompress {codecs : Codecs} (documented : codecs.Documented) {memory : Memory}
    (plenty : memory.Plenty) {algo given : Algo} {stream plain : List UInt8}
    (archive : Archive codecs algo stream plain) (short : plain.length < 2 ^ 29)
    (chosen : given = .auto ∨ given = algo) :
    ∃ fuel, compressDecompress codecs memory fuel given (some stream) =
      some (.ok ⟨plain, stream.length, algo⟩) := by
  have some_ := firstCap_pos documented archive short
  obtain ⟨decoder, bound, found, -, holds⟩ := archive
  have same : chosenAlgo given stream = algo := by
    unfold chosenAlgo
    rcases chosen with rfl | rfl
    · rw [if_pos rfl]
      exact compressDetect_magic holds.magic holds.long
    · rw [if_neg]
      rintro rfl
      cases found
  have small := firstCap_lt codecs algo stream
  obtain ⟨fuel, ran⟩ := loopOf_ended (documented.decodes.lawful found) plenty.alloc algo
    holds.ended small (hasRoom_short some_ small short)
  have reached : decoderOf codecs (chosenAlgo given stream) = some decoder := by rw [same, found]
  refine ⟨fuel, ?_⟩
  rw [compressDecompress_loop reached plenty.init (plenty.alloc _), same, ran]
  rfl

/-- The algorithm that bytes are compressed with. -/
def packedAlgo (algo : Algo) : Algo := if algo = .auto then .zstd else algo

/-- The algorithms that bytes can be compressed with. -/
def Algo.packs : Algo → Bool
  | .auto | .zlib | .gzip | .zstd => true
  | _ => false

/-- The output of `deflate` in one call. -/
theorem bufCompressZlib_holds {codecs : Codecs} (documented : codecs.Documented) {memory : Memory}
    (plenty : memory.Plenty) (isGzip : Bool) (level : Level) {plain : List UInt8}
    (short : plain.length < 2 ^ 29) :
    bufCompressZlib codecs memory isGzip level plain =
      .ok ((codecs.deflate isGzip (zlibLevel level)).output plain) := by
  have holds := documented.deflate isGzip level plain
  have small := documented.deflateBound isGzip level _ short
  have lawful := documented.encodes.deflate isGzip level
  have ended := documented.single isGzip level plain _ (Nat.le_refl _)
  unfold bufCompressZlib
  dsimp only
  generalize codecs.deflateBound isGzip (zlibLevel level) plain.length = bound at *
  have room : 0 < bound := by
    have fits := holds.fits
    have long := holds.long
    omega
  have same : bound % 2 ^ 32 = bound := Nat.mod_eq_of_lt (by omega)
  rw [plenty.init, plenty.alloc, same, Bool.and_self, if_pos rfl, if_pos ended]
  rw [Encoder.output, (lawful.ended _ _ _ room ended).2]

/-- Bytes in a buffer are compressed into bytes of the format that hold them. -/
theorem compressBuffer_archive {codecs : Codecs} (documented : codecs.Documented) {memory : Memory}
    (plenty : memory.Plenty) {algo : Algo} (packs : algo.packs = true) (level : Level)
    {plain : List UInt8} (short : plain.length < 2 ^ 29) :
    ∃ stream, compressBuffer codecs memory algo level (some plain) =
        .ok ⟨stream, plain.length, packedAlgo algo⟩ ∧
      Archive codecs (packedAlgo algo) stream plain := by
  have zstd : ∃ stream, (bufCompressZstd codecs memory level plain).result plain.length .zstd =
      .ok ⟨stream, plain.length, .zstd⟩ ∧ Archive codecs .zstd stream plain := by
    obtain ⟨stream, packed, holds⟩ := documented.zstdCompress level plain
    have small := documented.zstdBound _ short
    have fits := holds.fits
    refine ⟨stream, ?_, _, _, rfl, small, holds⟩
    unfold bufCompressZstd
    dsimp only
    rw [plenty.alloc, if_pos rfl, packed]
    have whole : stream.take (stream.length % 2 ^ 32) = stream := by
      rw [Nat.mod_eq_of_lt (by omega), List.take_length]
    show Reply.ok (CompressResult.mk (stream.take (stream.length % 2 ^ 32)) _ _) = _
    rw [whole]
  unfold compressBuffer
  cases algo with
  | zlib =>
    refine ⟨_, ?_, _, _, rfl, documented.deflateBound false level _ short,
      documented.deflate false level plain⟩
    dsimp only
    rw [bufCompressZlib_holds documented plenty false level short]
    rfl
  | gzip =>
    refine ⟨_, ?_, _, _, rfl, documented.deflateBound true level _ short,
      documented.deflate true level plain⟩
    dsimp only
    rw [bufCompressZlib_holds documented plenty true level short]
    rfl
  | zstd | auto => exact zstd
  | xz | lz4 | lz4Raw | other => cases packs

/-! ## Files -/

/-- A system on which no call on files fails. -/
structure FileHost.Healthy (host : FileHost) : Prop where
  /-- The input can be opened. -/
  openInput : host.openInput = 0
  /-- The output can be opened. -/
  openOutput : host.openOutput = 0
  /-- The libraries can allocate their states. -/
  init : host.init = true
  /-- The first bytes can be read. -/
  head : 16 ≤ host.headLimit
  /-- Every read gets what it asks for, up to the end of the file. -/
  reads : ∀ limit ∈ host.limits, chunk ≤ limit
  /-- Every write succeeds. -/
  room : host.room = none
  /-- The output can be closed. -/
  closed : host.closeOutput = true

/-- Reads that get what they ask for read all, up to a short read. -/
theorem readUntilShort_all {limits : List Nat} (reads : ∀ limit ∈ limits, chunk ≤ limit)
    (content : List UInt8) : readUntilShort limits content = content := by
  induction limits generalizing content with
  | nil => rfl
  | cons limit limits ih =>
    have enough := reads limit (.head _)
    unfold readUntilShort
    rw [Nat.min_eq_right enough]
    dsimp only
    rw [ih fun other member => reads other (.tail _ member)]
    split
    next last =>
      rw [List.length_take] at last
      exact List.take_of_length_le (by omega)
    next => exact List.take_append_drop _ _

/-- They read all, up to a read of nothing. -/
theorem readUntilEmpty_all {limits : List Nat} (reads : ∀ limit ∈ limits, chunk ≤ limit)
    (content : List UInt8) : readUntilEmpty limits content = content := by
  induction limits generalizing content with
  | nil => rfl
  | cons limit limits ih =>
    have enough := reads limit (.head _)
    have some_ : 0 < chunk := by decide
    unfold readUntilEmpty
    rw [Nat.min_eq_right enough]
    dsimp only
    rw [ih fun other member => reads other (.tail _ member)]
    split
    next nothing =>
      have length := congrArg List.length nothing
      rw [List.length_take, List.length_nil] at length
      exact (List.eq_nil_of_length_eq_zero (by omega)).symm
    next =>
      rw [List.length_take]
      by_cases inside : chunk ≤ content.length
      · rw [Nat.min_eq_left inside, List.take_append_drop]
      · rw [Nat.min_eq_right (by omega), List.drop_length, List.append_nil,
          List.take_of_length_le (by omega)]

/-- A call on two files whose loop takes and writes something on a healthy system. -/
theorem implFile_piped {codecs : Codecs} (documented : codecs.Documented) {host : FileHost}
    (healthy : host.Healthy) {compressDir : Bool} {disk : Disk} {input output : CString}
    (apart : input ≠ output) {content : List UInt8} (there : disk input = some content)
    {algo : Algo} {level : Level} {keep : Bool} {consumed : Nat} {written : List UInt8}
    (result : piped codecs host compressDir (fileAlgo compressDir host algo content) level content =
      some (consumed, written)) :
    ∃ fuel reply, implFile codecs host fuel compressDir disk
        ⟨some input, some output, algo, level, keep⟩ = some reply ∧
      reply.code = 0 ∧ reply.disk output = some written := by
  obtain ⟨fuel, last, ran, ends⟩ := pipe_ends documented.encodes documented.decodes host compressDir
    (fileAlgo compressDir host algo content) level content
  rw [result] at ends
  obtain rfl : last = ⟨0, written, consumed⟩ := ends
  have opened := @implFile_opened codecs host compressDir disk
    ⟨some input, some output, algo, level, keep⟩ input output content rfl rfl there
    healthy.openInput healthy.openOutput fuel
  simp only [Function.update_of_ne apart, there, Option.getD_some, ran, Option.map_some] at opened
  refine ⟨fuel, _, opened, ?_⟩
  rw [finishFile_done healthy.closed]
  refine ⟨rfl, ?_⟩
  cases keep with
  | true => exact Function.update_self _ _ _
  | false =>
    exact (Function.update_of_ne (Ne.symm apart) _ _).trans (Function.update_self _ _ _)

/-- A file is compressed into bytes of the format that hold it. -/
theorem piped_archive {codecs : Codecs} (documented : codecs.Documented) {host : FileHost}
    (healthy : host.Healthy) {algo : Algo} (packs : algo.packs = true) (level : Level)
    {plain : List UInt8} (short : plain.length < 2 ^ 29) :
    ∃ stream, piped codecs host true (fileAlgo true host algo plain) level plain =
        some (plain.length, stream) ∧ Archive codecs (packedAlgo algo) stream plain := by
  have same : fileAlgo true host algo plain = packedAlgo algo := rfl
  have all (encoder : Encoder UInt8 UInt8) :
      packed encoder host.room (readUntilShort host.limits plain) =
        some (plain.length, encoder.output plain) := by
    rw [readUntilShort_all healthy.reads, packed, healthy.room]
    rfl
  rw [same]
  unfold piped
  rw [healthy.init, if_neg (by decide), if_pos rfl]
  cases algo with
  | zlib =>
    exact ⟨_, all _, _, _, rfl, documented.deflateBound false level _ short,
      documented.deflate false level plain⟩
  | gzip =>
    exact ⟨_, all _, _, _, rfl, documented.deflateBound true level _ short,
      documented.deflate true level plain⟩
  | zstd | auto =>
    exact ⟨_, all _, _, _, rfl, documented.zstdBound _ short, documented.zstdStream level plain⟩
  | xz | lz4 | lz4Raw | other => cases packs

/-- Compressed bytes in a file are decompressed, with the format given or detected. -/
theorem Archive.piped {codecs : Codecs} {host : FileHost} (healthy : host.Healthy)
    {algo given : Algo} {stream plain : List UInt8} (archive : Archive codecs algo stream plain)
    (chosen : given = .auto ∨ given = algo) (level : Level) :
    piped codecs host false (fileAlgo false host given stream) level stream =
      some (stream.length, plain) := by
  obtain ⟨decoder, bound, found, -, holds⟩ := archive
  have same : fileAlgo false host given stream = algo := by
    unfold fileAlgo
    rcases chosen with rfl | rfl
    · rw [if_pos rfl, if_neg Bool.false_ne_true, Nat.min_eq_right healthy.head]
      rw [compressDetect_take holds.long]
      exact compressDetect_magic holds.magic holds.long
    · rw [if_neg]
      rintro rfl
      cases found
  rw [same]
  unfold Compress.piped
  rw [healthy.init, if_neg (by decide), if_neg Bool.false_ne_true]
  have unpacks : unpacked host.room (.ended stream.length plain) = some (stream.length, plain) := by
    rw [unpacked, healthy.room]
    rfl
  cases algo with
  | zlib | gzip =>
    obtain rfl := Option.some.inj found
    rw [fileVerdict, readUntilShort_all healthy.reads, holds.ended]
    exact unpacks
  | zstd =>
    obtain rfl := Option.some.inj found
    rw [fileVerdict, readUntilEmpty_all healthy.reads, holds.ended]
    exact unpacks
  | auto | xz | lz4 | lz4Raw | other => cases found

/-! ## Both ways -/

/-- The interfaces. -/
inductive Api where
  /-- `compress_buffer` and `compress_decompress`. -/
  | buffer
  /-- `compress_file` and `decompress_file`. -/
  | file

/-- Where a call is made: what the system answers, the other files, the paths of a call on files
and whether it is to keep its input. -/
structure Site where
  /-- The answers to a call on buffers. -/
  memory : Memory
  /-- The answers to a call on files. -/
  host : FileHost
  /-- The files. -/
  disk : Disk
  /-- The file to read. -/
  input : CString
  /-- The file to write. -/
  output : CString
  /-- The input is kept. -/
  keep : Bool

/-- No allocation and no call on files fails, and the paths are those of two files. -/
structure Site.Healthy (site : Site) : Prop where
  /-- Memory is granted. -/
  memory : site.memory.Plenty
  /-- Calls on files succeed. -/
  host : site.host.Healthy
  /-- The output is another file. -/
  apart : site.input ≠ site.output

/-- The output file of a call on files that returns 0. -/
def Site.fileOutput (site : Site) (reply : FileReply) : Option (List UInt8) :=
  if reply.code = 0 then reply.disk site.output else none

/-- Compression through an interface. -/
def Api.compress (codecs : Codecs) (site : Site) (fuel : Nat) (api : Api) (algo : Algo)
    (level : Level) (plain : List UInt8) : Option (List UInt8) :=
  match api with
  | .buffer =>
    match compressBuffer codecs site.memory algo level (some plain) with
    | .ok result => some result.data
    | _ => none
  | .file => (implFile codecs site.host fuel true
      (Function.update site.disk site.input (some plain))
      ⟨some site.input, some site.output, algo, level, site.keep⟩).bind site.fileOutput

/-- Decompression through an interface. -/
def Api.decompress (codecs : Codecs) (site : Site) (fuel : Nat) (api : Api) (algo : Algo)
    (level : Level) (stream : List UInt8) : Option (List UInt8) :=
  match api with
  | .buffer =>
    match compressDecompress codecs site.memory fuel algo (some stream) with
    | some (.ok result) => some result.data
    | _ => none
  | .file => (implFile codecs site.host fuel false
      (Function.update site.disk site.input (some stream))
      ⟨some site.input, some site.output, algo, level, site.keep⟩).bind site.fileOutput

/-- What is compressed through one interface is decompressed to the same bytes through the same or
the other, with the format given or detected. -/
theorem compress_roundTrip (codecs : Codecs) (documented : codecs.Documented) (algo : Algo)
    (packs : algo.packs = true) (level : Level) (plain : List UInt8)
    (short : plain.length < 2 ^ 29) (first second : Api) (from_ into : Site)
    (here : from_.Healthy) (there : into.Healthy) :
    ∃ stream, (∃ fuel, first.compress codecs from_ fuel algo level plain = some stream) ∧
      ∀ given other, given = .auto ∨ given = packedAlgo algo →
        ∃ fuel, second.decompress codecs into fuel given other stream = some plain := by
  obtain ⟨stream, packed, archive⟩ : ∃ stream,
      (∃ fuel, first.compress codecs from_ fuel algo level plain = some stream) ∧
        Archive codecs (packedAlgo algo) stream plain := by
    cases first with
    | buffer =>
      obtain ⟨stream, packed, archive⟩ :=
        compressBuffer_archive documented here.memory packs level short
      refine ⟨stream, ⟨0, ?_⟩, archive⟩
      rw [Api.compress, packed]
    | file =>
      obtain ⟨stream, result, archive⟩ := piped_archive documented here.host packs level short
      obtain ⟨fuel, reply, returned, code, stored⟩ :=
        @implFile_piped codecs documented from_.host here.host true
          (Function.update from_.disk from_.input (some plain)) from_.input from_.output here.apart
          plain (Function.update_self _ _ _) algo level from_.keep _ _ result
      refine ⟨stream, ⟨fuel, ?_⟩, archive⟩
      rw [Api.compress, returned, Option.bind_some, Site.fileOutput, if_pos code, stored]
  refine ⟨stream, packed, fun given other chosen => ?_⟩
  cases second with
  | buffer =>
    obtain ⟨fuel, returned⟩ := archive.decompress documented there.memory short chosen
    refine ⟨fuel, ?_⟩
    rw [Api.decompress, returned]
  | file =>
    have result := archive.piped there.host chosen other
    obtain ⟨fuel, reply, returned, code, stored⟩ :=
      @implFile_piped codecs documented into.host there.host false
        (Function.update into.disk into.input (some stream)) into.input into.output there.apart
        stream (Function.update_self _ _ _) given other into.keep _ _ result
    refine ⟨fuel, ?_⟩
    rw [Api.decompress, returned, Option.bind_some, Site.fileOutput, if_pos code, stored]

/-! ## The stored format -/

section

variable {step : Stored → UInt8 → Move Stored UInt8}

/-- The pairs and the last byte are read back. -/
theorem storePairs_verdict (body : ∀ state byte, state ≠ .start → step state byte =
      storedByte byte state) {last : UInt8} (lone : last ≠ 2) (pair : last ≠ 3)
    (input : List UInt8) : machineVerdict step (.header [] last) (storePairs input ++ [last]) =
      .ended ((storePairs input).length + 1) input := by
  have tag (byte : UInt8) : step (.header [] last) byte = storedByte byte (.header [] last) :=
    body _ _ (by rintro ⟨⟩)
  have stored (left : Nat) (byte : UInt8) :
      step (.bytes left last) byte = storedByte byte (.bytes left last) := body _ _ (by rintro ⟨⟩)
  induction input using storePairs.induct with
  | case1 =>
    simp only [storePairs, List.nil_append, machineVerdict, tag, storedByte, if_neg lone,
      if_neg pair, if_pos]
    rfl
  | case2 byte =>
    simp only [storePairs, List.cons_append, List.nil_append, machineVerdict, tag, stored,
      storedByte, if_neg lone, if_neg pair, if_pos]
    rfl
  | case3 first second rest ih =>
    have three : ¬ (3 : UInt8) = 2 := by decide
    simp only [storePairs, List.cons_append, machineVerdict, tag, stored, storedByte, if_neg three,
      if_pos]
    rw [ih]
    rfl

/-- The rest of a header is read. -/
theorem header_verdict (body : ∀ state byte, state ≠ .start → step state byte =
      storedByte byte state) {last : UInt8} {rest output : List UInt8} {length : Nat}
    (ended : machineVerdict step (.header [] last) rest = .ended length output)
    (header : List UInt8) : machineVerdict step (.header header last) (header ++ rest) =
      .ended (header.length + length) output := by
  induction header with
  | nil => rw [List.nil_append, ended, List.length_nil, Nat.zero_add]
  | cons byte header ih =>
    have move : step (.header (byte :: header) last) byte = .go (.header header last) none := by
      rw [body _ _ (by rintro ⟨⟩)]
      exact if_pos rfl
    simp only [List.cons_append, machineVerdict, move]
    rw [ih]
    show Verdict.ended (header.length + length + 1) _ = _
    rw [List.length_cons, Nat.add_right_comm]
    rfl

/-- A stored stream is read back. -/
theorem storeStream_verdict (body : ∀ state byte, state ≠ .start → step state byte =
      storedByte byte state) (first last : UInt8) (header : List UInt8)
    (opens : step .start first = .go (.header header last) none) (lone : last ≠ 2)
    (pair : last ≠ 3) (input : List UInt8) :
    machineVerdict step .start (storeStream first header last input) =
      .ended (storeStream first header last input).length input := by
  have pairs := storePairs_verdict body lone pair input
  have read := header_verdict body pairs header
  simp only [storeStream, machineVerdict, opens]
  rw [read]
  show Verdict.ended (header.length + ((storePairs input).length + 1) + 1) _ = _
  rw [List.length_cons, List.length_append, List.length_append]
  rfl

end

/-- The pairs are at most half as long again, with a last byte behind a tag. -/
theorem storePairs_length (input : List UInt8) :
    (storePairs input).length ≤ input.length / 2 * 3 + 2 := by
  induction input using storePairs.induct with
  | case1 => exact Nat.zero_le _
  | case2 byte =>
    show 2 ≤ 1 / 2 * 3 + 2
    decide
  | case3 first second rest ih =>
    simp only [storePairs, List.length_cons]
    omega

/-- A stored stream is within its bound and longer than its header. -/
theorem storeStream_length (first last : UInt8) {header : List UInt8} (few : header.length ≤ 18)
    (input : List UInt8) :
    header.length + 2 ≤ (storeStream first header last input).length ∧
      (storeStream first header last input).length ≤ storedBound input.length := by
  have pairs := storePairs_length input
  simp only [storeStream, storedBound, List.length_cons, List.length_append, List.length_nil]
  omega

/-- The stream of zlib or gzip holds its input. -/
theorem storedZlib_holds (isGzip : Bool) (input : List UInt8) :
    Holds storedCodecs.inflate (if isGzip then .gzip else .zlib) (storedBound input.length)
      (storedZlib isGzip input) input := by
  have body (state : Stored) (byte : UInt8) (behind : state ≠ .start) :
      inflateByte state byte = storedByte byte state := by
    cases state with
    | start => exact absurd rfl behind
    | header | bytes => rfl
  cases isGzip with
  | false =>
    obtain ⟨long, fits⟩ := @storeStream_length 0x78 1 zlibHeader (by decide) input
    exact ⟨fits, ⟨[0x78, 0x9C], by decide, _, rfl⟩, Nat.le_trans (by decide) long,
      storeStream_verdict body 0x78 1 zlibHeader rfl (by decide) (by decide) input⟩
  | true =>
    obtain ⟨long, fits⟩ := @storeStream_length 0x1F 0 gzipHeader (by decide) input
    exact ⟨fits, ⟨[0x1F, 0x8B], by decide, _, rfl⟩, Nat.le_trans (by decide) long,
      storeStream_verdict body 0x1F 0 gzipHeader rfl (by decide) (by decide) input⟩

/-- The frame of zstd holds its input. -/
theorem storedZstd_holds (input : List UInt8) :
    Holds storedCodecs.unzstd .zstd (storedBound input.length) (storedZstd input) input := by
  have body (state : Stored) (byte : UInt8) (behind : state ≠ .start) :
      unzstdByte state byte = storedByte byte state := by
    cases state with
    | start => exact absurd rfl behind
    | header | bytes => rfl
  obtain ⟨long, fits⟩ := @storeStream_length 0x28 0 zstdHeader (by decide) input
  exact ⟨fits, ⟨[0x28, 0xB5, 0x2F, 0xFD], by decide, _, rfl⟩, Nat.le_trans (by decide) long,
    storeStream_verdict body 0x28 0 zstdHeader rfl (by decide) (by decide) input⟩

/-- Everything documented of zlib and libzstd holds of the stored format. -/
theorem storedCodecs_documented : storedCodecs.Documented where
  encodes := storedCodecs_encodes
  decodes := storedCodecs_decodes
  deflate isGzip _ input := storedZlib_holds isGzip input
  single isGzip _ input room enough := by
    have fits := Nat.le_trans (storedZlib_holds isGzip input).fits enough
    exact if_pos fits
  deflateBound _ _ length short := by
    show length / 2 * 3 + 24 < 2 ^ 30
    omega
  zstdStream _ input := storedZstd_holds input
  zstdCompress _ input :=
    ⟨storedZstd input, if_pos (storedZstd_holds input).fits, storedZstd_holds input⟩
  zstdBound length short := by
    show length / 2 * 3 + 24 < 2 ^ 30
    omega
  contentSize stream size length output known ended := by
    have header : (if stream = storedZstd [] then ContentSize.known 0 else .unknown) =
      .known size := known
    split at header
    next empty =>
      subst empty
      obtain rfl := ContentSize.known.inj header
      obtain ⟨-, rfl⟩ := Verdict.ended.inj ((storedZstd_holds []).ended.symm.trans ended)
      rfl
    next => cases header

/-- A site on which nothing fails. -/
def plainSite (input output : CString) : Site :=
  ⟨enoughMemory, plainHost, fun _ => none, input, output, true⟩

/-- Nothing fails on it. -/
theorem plainSite_healthy {input output : CString} (apart : input ≠ output) :
    (plainSite input output).Healthy :=
  ⟨⟨rfl, fun _ => rfl⟩, ⟨rfl, rfl, rfl, Nat.le_refl _, by rintro _ ⟨⟩, rfl, rfl⟩, apart⟩

/-- A file that is compressed and then decompressed from a buffer. -/
theorem compress_roundTrip_bytes :
    ∃ stream, (∃ fuel, Api.file.compress storedCodecs (plainSite (lit "/a") (lit "/a.zst")) fuel
        .auto 2 [1, 2, 3] = some stream) ∧
      ∀ given other, given = .auto ∨ given = packedAlgo .auto →
        ∃ fuel, Api.buffer.decompress storedCodecs (plainSite (lit "/b.zst") (lit "/b")) fuel given
          other stream = some [1, 2, 3] :=
  compress_roundTrip storedCodecs storedCodecs_documented .auto rfl 2 [1, 2, 3] (by decide) .file
    .buffer (plainSite (lit "/a") (lit "/a.zst")) (plainSite (lit "/b.zst") (lit "/b"))
    (plainSite_healthy (by decide)) (plainSite_healthy (by decide))

end HwrunOs.Compress
