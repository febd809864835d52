import HwrunOs.Compress.File
import HwrunOs.Compress.Termination

/-!
# What the loops on files do

Every loop stops. A compression loop returns 0 when the output for all it has read can be
written, and a decompression loop when what it can read is a stream that ends and its output can
be written.
-/

namespace HwrunOs.Compress

open HwrunOs.Loops HwrunOs.Transducers

/-! ## What is read -/

/-- What a loop reads that stops at the first short read. -/
def readUntilShort : List Nat → List UInt8 → List UInt8
  | [], rest => rest
  | limit :: limits, rest =>
    let got := rest.take (min limit chunk)
    if got.length < chunk then got else got ++ readUntilShort limits (rest.drop chunk)

/-- What a loop reads that stops at the first read of nothing. -/
def readUntilEmpty : List Nat → List UInt8 → List UInt8
  | [], rest => rest
  | limit :: limits, rest =>
    let got := rest.take (min limit chunk)
    if got = [] then [] else got ++ readUntilEmpty limits (rest.drop got.length)

/-- What a loop has still to read that stops at the first short read. -/
def Source.untilShort (source : Source) : List UInt8 :=
  source.window ++
    if source.short then [] else readUntilShort source.reader.limits source.reader.rest

/-- What a loop has still to read that stops at the first read of nothing. -/
def Source.untilEmpty (source : Source) : List UInt8 :=
  source.window ++ readUntilEmpty source.reader.limits source.reader.rest

/-- Behind a full read the loop that stops at a short read goes on. -/
theorem untilShort_fill {source : Source} (used : source.window = [])
    (open_ : source.short = false) : source.fill.untilShort = source.untilShort := by
  obtain ⟨window, short, rest, limits⟩ := source
  obtain rfl : window = [] := used
  obtain rfl : short = false := open_
  cases limits with
  | nil =>
    show rest.take chunk ++ (if decide ((rest.take chunk).length < chunk) = true then []
      else rest.drop chunk) = rest
    by_cases last : (rest.take chunk).length < chunk
    · rw [if_pos (by simpa using last), List.append_nil]
      have length : rest.length ≤ chunk := by
        rw [List.length_take] at last
        omega
      exact List.take_of_length_le length
    · rw [if_neg (by simpa using last), List.take_append_drop]
  | cons limit limits =>
    show rest.take (min limit chunk) ++
      (if decide ((rest.take (min limit chunk)).length < chunk) = true then []
        else readUntilShort limits (rest.drop (min limit chunk))) =
      if (rest.take (min limit chunk)).length < chunk then rest.take (min limit chunk)
      else rest.take (min limit chunk) ++ readUntilShort limits (rest.drop chunk)
    by_cases last : (rest.take (min limit chunk)).length < chunk
    · rw [if_pos last, if_pos (by simpa using last), List.append_nil]
    · have whole : min limit chunk = chunk := by
        rw [List.length_take] at last
        omega
      rw [if_neg last, if_neg (by simpa using last), whole]

/-- Behind a read of something the loop that stops at a read of nothing goes on. -/
theorem untilEmpty_fill {source : Source} (used : source.window = [])
    (some_ : source.fill.window ≠ []) : source.fill.untilEmpty = source.untilEmpty := by
  obtain ⟨window, short, rest, limits⟩ := source
  obtain rfl : window = [] := used
  cases limits with
  | nil =>
    show rest.take chunk ++ rest.drop chunk = rest
    exact List.take_append_drop _ _
  | cons limit limits =>
    have filled : rest.take (min limit chunk) ≠ [] := some_
    show rest.take (min limit chunk) ++ readUntilEmpty limits (rest.drop (min limit chunk)) =
      if rest.take (min limit chunk) = [] then []
      else rest.take (min limit chunk) ++
        readUntilEmpty limits (rest.drop (rest.take (min limit chunk)).length)
    rw [if_neg filled, List.length_take]
    by_cases inside : min limit chunk ≤ rest.length
    · rw [show min (min limit chunk) rest.length = min limit chunk by omega]
    · rw [List.drop_of_length_le (show rest.length ≤ min limit chunk by omega),
        List.drop_of_length_le (show rest.length ≤ min (min limit chunk) rest.length by omega)]

/-- Behind a read of nothing there is nothing left. -/
theorem untilEmpty_none {source : Source} (used : source.window = [])
    (none : source.fill.window = []) : source.untilEmpty = [] := by
  obtain ⟨window, short, rest, limits⟩ := source
  obtain rfl : window = [] := used
  cases limits with
  | nil =>
    have empty : rest.take chunk = [] := none
    show rest = []
    have length := congrArg List.length empty
    rw [List.length_take, List.length_nil] at length
    exact List.eq_nil_of_length_eq_zero (by unfold chunk at length; omega)
  | cons limit limits =>
    have empty : rest.take (min limit chunk) = [] := none
    show (if rest.take (min limit chunk) = [] then [] else _) = []
    rw [if_pos empty]

/-- A full read fills the buffer. -/
theorem fill_window {source : Source} (long : source.fill.short = false) :
    source.fill.window ≠ [] := by
  intro empty
  have full : decide (source.fill.window.length < chunk) = false := long
  rw [empty] at full
  cases full

/-! ## What is written -/

/-- Less can be written as well. -/
theorem takes_less {room : Option Nat} {less more : Nat} (small : less ≤ more)
    (fits : takes room more = true) : takes room less = true := by
  cases room with
  | none => rfl
  | some most =>
    have bound : more ≤ most := of_decide_eq_true fits
    exact decide_eq_true (Nat.le_trans small bound)

/-- Nothing can always be written. -/
theorem takes_nothing (room : Option Nat) : takes room 0 = true := by
  cases room with
  | none => rfl
  | some most => exact decide_eq_true (Nat.zero_le most)

/-- A write behind what could be written. -/
theorem fwrite_eq {room : Option Nat} {written : List UInt8}
    (fits : takes room written.length = true) (data : List UInt8) : fwrite room written data =
      if takes room (written ++ data).length then some (written ++ data) else none := by
  unfold fwrite
  rw [← List.length_append]
  by_cases empty : data = []
  · rw [empty, List.append_nil, if_pos (.inl rfl), if_pos fits]
  · by_cases whole : takes room (written ++ data).length = true
    · rw [if_pos (.inr whole), if_pos whole]
    · rw [if_neg (not_or.mpr ⟨empty, whole⟩), if_neg whole]

section

variable {State : Type} {room : Option Nat} {piping : Piping State} {source : Source}
  {answer : Answer State UInt8}

/-- A loop returns an error when the codec reports one. -/
theorem writeAnswer_failed (room : Option Nat) (errorFirst : Bool) (piping : Piping State)
    (source : Source) (failed : answer.report = .failed) :
    ∃ last, writeAnswer room errorFirst piping source answer false = .stop last ∧
      last.code ≠ 0 := by
  have refused : (-eilseq : Int) ≠ 0 := by decide
  have unwritten : (-eio : Int) ≠ 0 := by decide
  unfold writeAnswer
  split
  · exact ⟨_, rfl, refused⟩
  · split
    · exact ⟨_, rfl, unwritten⟩
    · exact ⟨_, rfl, refused⟩

/-- The output of an answer without an error is written, or cannot be. -/
theorem writeAnswer_sound (errorFirst finished : Bool) (sound : answer.report ≠ .failed)
    (fits : takes room piping.written.length = true) :
    writeAnswer room errorFirst piping source answer finished =
      if takes room (piping.written ++ answer.produced).length then
        if finished then (piping.behind source answer (piping.written ++ answer.produced)).done 0
        else .next (piping.behind source answer (piping.written ++ answer.produced))
      else piping.done (-eio) := by
  unfold writeAnswer
  rw [fwrite_eq fits, if_neg (by simp [sound])]
  by_cases whole : takes room (piping.written ++ answer.produced).length = true
  · rw [if_pos whole, if_pos whole]
    dsimp only
    rw [if_neg sound]
  · rw [if_neg whole, if_neg whole]

end

/-- A loop returns 0 with what it has taken and written, or an error. -/
def Ends (result : Option (Nat × List UInt8)) (last : FileEnd) : Prop :=
  match result with
  | some (consumed, written) => last = ⟨0, written, consumed⟩
  | none => last.code ≠ 0

/-! ## Decompression loops -/

/-- How a decompression loop gets its input: `left` is what it has still to read, and `none` stands
for a stream that is cut off. -/
structure Feeds (feed : Source → Option Source) (left : Source → List UInt8)
    (flag : Source → Nat) : Prop where
  /-- It gives up when nothing is left. -/
  ends : ∀ source, feed source = none → left source = []
  /-- It keeps what is left. -/
  same : ∀ source fed, feed source = some fed → left fed = left source
  /-- It fills the buffer, or has nothing left and does not get here again. -/
  filled : ∀ source fed, feed source = some fed → fed.window ≠ [] ∧ flag fed ≤ flag source ∨
    left fed = [] ∧ flag fed < flag source
  /-- What is left begins with the buffer. -/
  window : ∀ source : Source, ∃ later, ∀ window,
    left { source with window := window } = window ++ later
  /-- What the codec takes does not matter otherwise. -/
  keeps : ∀ (source : Source) window, flag { source with window := window } = flag source

/-- A decompression loop. -/
def unpackLoop {decoder : Decoder UInt8 UInt8} (feed : Source → Option Source)
    (room : Option Nat) (errorFirst : Bool) (piping : Piping decoder.State) :
    Pass (Piping decoder.State) FileEnd :=
  match feed piping.source with
  | none => piping.done (-eilseq)
  | some source =>
    let answer := decoder.decode piping.state source.window chunk
    writeAnswer room errorFirst piping source answer (answer.report = .ended)

/-- `file_decompress_zlib` gets its input so. -/
def zlibFeed (source : Source) : Option Source :=
  if source.window = [] ∧ source.short = true then none
  else some (if source.window = [] then source.fill else source)

/-- `file_decompress_zstd` gets its input so. -/
def zstdFeed (source : Source) : Option Source :=
  if source.window = [] ∧ source.fill.window = [] then none
  else some (if source.window = [] then source.fill else source)

/-- The loop of `file_decompress_zlib`. -/
theorem zlibUnpack_eq {decoder : Decoder UInt8 UInt8} (room : Option Nat) :
    (zlibUnpack room : Piping decoder.State → _) = unpackLoop zlibFeed room false := by
  funext piping
  unfold zlibUnpack unpackLoop zlibFeed
  split <;> rfl

/-- The loop of `file_decompress_zstd`. -/
theorem zstdUnpack_eq {decoder : Decoder UInt8 UInt8} (room : Option Nat) :
    (zstdUnpack room : Piping decoder.State → _) = unpackLoop zstdFeed room true := by
  funext piping
  unfold zstdUnpack unpackLoop zstdFeed
  split <;> rfl

/-- The input of `file_decompress_zlib`: up to the first short read. -/
theorem zlibFeed_feeds :
    Feeds zlibFeed Source.untilShort (fun source => if source.short then 0 else 1) where
  ends source gaveUp := by
    unfold zlibFeed at gaveUp
    split at gaveUp
    next ended => rw [Source.untilShort, ended.1, ended.2]; rfl
    next => cases gaveUp
  same source fed fills := by
    unfold zlibFeed at fills
    split at fills
    next => cases fills
    next more =>
      obtain rfl := Option.some.inj fills
      split
      next used => exact untilShort_fill used (by simpa [used] using more)
      next => rfl
  filled source fed fills := by
    unfold zlibFeed at fills
    split at fills
    next => cases fills
    next more =>
      obtain rfl := Option.some.inj fills
      split
      next used =>
        have open_ : source.short = false := by simpa [used] using more
        by_cases last : source.fill.short = true
        · by_cases empty : source.fill.window = []
          · refine .inr ⟨?_, ?_⟩
            · rw [Source.untilShort, empty, last]
              rfl
            · rw [last, open_]
              exact Nat.one_pos
          · refine .inl ⟨empty, ?_⟩
            rw [last]
            exact Nat.zero_le _
        · have long : source.fill.short = false := by simpa using last
          refine .inl ⟨fill_window long, ?_⟩
          rw [long, open_]
      next filled => exact .inl ⟨filled, Nat.le_refl _⟩
  window source := ⟨if source.short then [] else
    readUntilShort source.reader.limits source.reader.rest, fun _ => rfl⟩
  keeps _ _ := rfl

/-- The input of `file_decompress_zstd`: up to the first read of nothing. -/
theorem zstdFeed_feeds : Feeds zstdFeed Source.untilEmpty (fun _ => 0) where
  ends source gaveUp := by
    unfold zstdFeed at gaveUp
    split at gaveUp
    next ended => exact untilEmpty_none ended.1 ended.2
    next => cases gaveUp
  same source fed fills := by
    unfold zstdFeed at fills
    split at fills
    next => cases fills
    next more =>
      obtain rfl := Option.some.inj fills
      split
      next used => exact untilEmpty_fill used (fun empty => more ⟨used, empty⟩)
      next => rfl
  filled source fed fills := by
    unfold zstdFeed at fills
    split at fills
    next => cases fills
    next more =>
      obtain rfl := Option.some.inj fills
      split
      next used => exact .inl ⟨fun empty => more ⟨used, empty⟩, Nat.le_refl _⟩
      next filled => exact .inl ⟨filled, Nat.le_refl _⟩
  window source := ⟨readUntilEmpty source.reader.limits source.reader.rest, fun _ => rfl⟩
  keeps _ _ := rfl

/-- What a decompression loop takes and writes of a stream when it returns 0. -/
def unpacked (room : Option Nat) : Verdict UInt8 → Option (Nat × List UInt8)
  | .ended length output => if takes room output.length then some (length, output) else none
  | _ => none

/-- A stream whose rest does not end is not unpacked. -/
theorem unpacked_none {room : Option Nat} {whole rest : Verdict UInt8} {consumed : Nat}
    {written : List UInt8} (follows : whole.Follows consumed written rest)
    (never : ∀ length output, rest ≠ .ended length output) : unpacked room whole = none := by
  cases rest with
  | ended length output => exact absurd rfl (never length output)
  | cut output => rw [show whole = _ from follows]; rfl
  | failed most =>
    obtain ⟨all, same, -⟩ := follows
    rw [same]
    rfl

/-- A stream whose output begins with what cannot be written is not unpacked. -/
theorem unpacked_full {room : Option Nat} {whole rest : Verdict UInt8} {consumed : Nat}
    {written : List UInt8} (follows : whole.Follows consumed written rest)
    (full : takes room written.length = false) : unpacked room whole = none := by
  cases rest with
  | ended length output =>
    rw [show whole = _ from follows]
    refine if_neg fun fits => ?_
    have less : written.length ≤ (written ++ output).length := by
      rw [List.length_append]
      exact Nat.le_add_right _ _
    rw [takes_less less fits] at full
    cases full
  | cut output => rw [show whole = _ from follows]; rfl
  | failed most =>
    obtain ⟨all, same, -⟩ := follows
    rw [same]
    rfl

/-- Between two passes of a decompression loop: the stream follows from what is taken and written,
and it goes on. -/
structure Unpacks {decoder : Decoder UInt8 UInt8} (left : Source → List UInt8)
    (room : Option Nat) (whole : Verdict UInt8) (piping : Piping decoder.State) : Prop where
  /-- What is left follows. -/
  follows : whole.Follows piping.consumed piping.written
    (decoder.verdict piping.state (left piping.source))
  /-- The end has not been reached. -/
  goes : ∀ output, decoder.verdict piping.state (left piping.source) ≠ .ended 0 output
  /-- What is written can be. -/
  fits : takes room piping.written.length = true

section

variable {decoder : Decoder UInt8 UInt8} {feed : Source → Option Source}
  {left : Source → List UInt8} {flag : Source → Nat} {room : Option Nat}

/-- What is left for a decompression loop gets smaller. -/
def unpackMeasure (left : Source → List UInt8) (flag : Source → Nat)
    (piping : Piping decoder.State) : Nat :=
  (left piping.source).length +
    (decoder.verdict piping.state (left piping.source)).most + flag piping.source

/-- One pass of a decompression loop: it ends as the stream does, or goes on with less. -/
theorem unpackLoop_pass (lawful : decoder.Lawful) (feeds : Feeds feed left flag)
    (errorFirst : Bool) {whole : Verdict UInt8} {piping : Piping decoder.State}
    (unpacks : Unpacks left room whole piping) :
    (∃ last, unpackLoop feed room errorFirst piping = .stop last ∧
        Ends (unpacked room whole) last) ∨
      ∃ later, unpackLoop feed room errorFirst piping = .next later ∧
        Unpacks left room whole later ∧
        unpackMeasure left flag later < unpackMeasure left flag piping := by
  obtain ⟨follows, goes, fits⟩ := unpacks
  unfold unpackLoop
  cases fed : feed piping.source with
  | none =>
    have nothing := feeds.ends _ fed
    have never (length : Nat) (output : List UInt8) :
        decoder.verdict piping.state (left piping.source) ≠ .ended length output := by
      intro ended
      have short := lawful.inside _ _ _ _ ended
      rw [nothing, List.length_nil] at short
      obtain rfl := Nat.le_zero.mp short
      exact goes output ended
    refine .inl ⟨_, rfl, ?_⟩
    rw [unpacked_none follows never]
    show (-eilseq : Int) ≠ 0
    decide
  | some source =>
    have same := feeds.same _ _ fed
    have fills := feeds.filled _ _ fed
    obtain ⟨later, lefts⟩ := feeds.window source
    have whole_ : left source = source.window ++ later := lefts source.window
    rw [← same, whole_] at follows
    have bounded := lawful.bounded piping.state source.window chunk
    have failed := lawful.failed piping.state source.window chunk
    have ended := lawful.ended piping.state source.window chunk
    have more := lawful.more piping.state source.window chunk
    have last := lawful.last piping.state source.window chunk
    have drained := lawful.drained piping.state source.window chunk
    dsimp only
    generalize decoder.decode piping.state source.window chunk = answer at *
    cases report : answer.report with
    | failed =>
      obtain ⟨last, stop, wrong⟩ := writeAnswer_failed room errorFirst piping source report
      refine .inl ⟨last, stop, ?_⟩
      obtain ⟨most, broken⟩ := failed report later
      have never (length : Nat) (output : List UInt8) :
          decoder.verdict piping.state (source.window ++ later) ≠ .ended length output := by
        rw [broken]
        rintro ⟨⟩
      rw [unpacked_none follows never]
      exact wrong
    | ended =>
      have sound : answer.report ≠ .failed := by
        rw [report]
        rintro ⟨⟩
      have taken : whole = .ended (piping.consumed + answer.consumed)
          (piping.written ++ answer.produced) := by
        rw [ended report later] at follows
        exact follows
      rw [writeAnswer_sound errorFirst _ sound fits, taken]
      by_cases writes : takes room (piping.written ++ answer.produced).length = true
      · refine .inl ⟨_, by rw [if_pos writes, if_pos (by decide)]; rfl, ?_⟩
        rw [unpacked, if_pos writes]
        rfl
      · refine .inl ⟨_, by rw [if_neg writes]; rfl, ?_⟩
        rw [unpacked, if_neg writes]
        show (-eio : Int) ≠ 0
        decide
    | more =>
      have sound : answer.report ≠ .failed := by
        rw [report]
        rintro ⟨⟩
      have rest := follows.trans (more report later)
      rw [writeAnswer_sound errorFirst _ sound fits]
      by_cases writes : takes room (piping.written ++ answer.produced).length = true
      · have remains : left (piping.behind source answer
            (piping.written ++ answer.produced)).source =
              source.window.drop answer.consumed ++ later := lefts _
        have flags : flag (piping.behind source answer
            (piping.written ++ answer.produced)).source = flag source := feeds.keeps _ _
        refine .inr ⟨_, by rw [if_pos writes, if_neg (by decide)], ⟨?_, ?_, writes⟩, ?_⟩
        · rw [remains]
          exact rest
        · -- The last byte of a stream is not taken before its end is reported.
          rw [remains]
          intro output reached
          have reached : decoder.verdict answer.state
            (source.window.drop answer.consumed ++ later) = .ended 0 output := reached
          have follows := more report later
          rw [reached] at follows
          exact Nat.lt_irrefl _ (last report later _ _ follows)
        · have most : answer.produced.length + (decoder.verdict answer.state
              (source.window.drop answer.consumed ++ later)).most ≤
                (decoder.verdict piping.state (source.window ++ later)).most :=
            (more report later).most
          unfold unpackMeasure
          rw [remains, flags, ← same, whole_, List.length_append, List.length_append,
            List.length_drop]
          show _ + (decoder.verdict answer.state _).most + _ < _
          rcases fills with ⟨filled, less⟩ | ⟨nothing, less⟩
          · have some_ : 0 < source.window.length := List.length_pos_iff.mpr filled
            by_cases spare : answer.produced.length < chunk
            · obtain ⟨all, -⟩ := drained report spare
              omega
            · have large : 0 < answer.produced.length :=
                Nat.lt_of_lt_of_le (by decide) (Nat.not_lt.mp spare)
              omega
          · omega
      · refine .inl ⟨_, by rw [if_neg writes]; rfl, ?_⟩
        rw [unpacked_full rest (by simpa using writes)]
        show (-eio : Int) ≠ 0
        decide

/-- A decompression loop stops as the stream does. -/
theorem unpackLoop_stops (lawful : decoder.Lawful) (feeds : Feeds feed left flag)
    (room : Option Nat) (errorFirst : Bool) (source : Source) :
    ∃ last, Stops (unpackLoop feed room errorFirst) ⟨decoder.start, source, [], 0⟩ last ∧
      Ends (unpacked room (decoder.verdict decoder.start (left source))) last := by
  apply exists_stops (unpackMeasure left flag) fun _ => unpackLoop_pass lawful feeds errorFirst
  exact ⟨Verdict.Follows.refl _, fun output => lawful.filled _ output, takes_nothing room⟩

end

/-! ## Compression loops -/

/-- A compression loop, with when it is finished. -/
def packLoop {encoder : Encoder UInt8 UInt8} (room : Option Nat) (errorFirst : Bool)
    (finished : Bool → Report → Bool) (piping : Piping encoder.State) :
    Pass (Piping encoder.State) FileEnd :=
  let source := packFill piping.source
  let answer := encoder.encode piping.state source.window chunk source.short
  writeAnswer room errorFirst piping source answer (finished source.short answer.report)

/-- `file_compress_zlib` is finished at the end of the stream. -/
def zlibFinished (_ : Bool) (report : Report) : Bool := report = .ended

/-- `file_compress_zstd` is finished at the end of the stream behind the last input. -/
def zstdFinished (short : Bool) (report : Report) : Bool := short && report = .ended

/-- It is not finished before. -/
theorem zlibFinished_more (short : Bool) : zlibFinished short .more = false := rfl

/-- It is not finished before. -/
theorem zstdFinished_more (short : Bool) : zstdFinished short .more = false :=
  Bool.and_false short

/-- The loop of `file_compress_zlib`. -/
theorem zlibPack_eq {encoder : Encoder UInt8 UInt8} (room : Option Nat) :
    (zlibPack room : Piping encoder.State → _) = packLoop room false zlibFinished := rfl

/-- The loops of `file_compress_zstd`. -/
theorem zstdPack_eq {encoder : Encoder UInt8 UInt8} (room : Option Nat) :
    (zstdPack room : Piping encoder.State → _) = packLoop room true zstdFinished := rfl

/-- What a compression loop takes and writes of its input when it returns 0. -/
def packed (encoder : Encoder UInt8 UInt8) (room : Option Nat) (read : List UInt8) :
    Option (Nat × List UInt8) :=
  if takes room (encoder.output read).length then some (read.length, encoder.output read) else none

/-- Between two passes of a compression loop: the output is what is written and what is left for
what has still to be read. -/
structure Packs {encoder : Encoder UInt8 UInt8} (room : Option Nat) (read : List UInt8)
    (piping : Piping encoder.State) : Prop where
  /-- The output. -/
  output : encoder.output read =
    piping.written ++ encoder.rest piping.state piping.source.untilShort
  /-- The input. -/
  input : piping.consumed + piping.source.untilShort.length = read.length
  /-- What is written can be. -/
  fits : takes room piping.written.length = true

/-- What is left for a compression loop gets smaller. -/
def packMeasure {encoder : Encoder UInt8 UInt8} (piping : Piping encoder.State) : Nat :=
  piping.source.untilShort.length +
    (encoder.rest piping.state piping.source.untilShort).length

/-- Filling the buffer keeps what is left, and an empty buffer is that of the last call. -/
theorem packFill_spec (source : Source) : (packFill source).untilShort = source.untilShort ∧
    ((packFill source).short = false → (packFill source).window ≠ []) := by
  unfold packFill
  split
  next used => exact ⟨untilShort_fill used.2 used.1, fill_window⟩
  next other => exact ⟨rfl, fun long empty => other ⟨long, empty⟩⟩

section

variable {encoder : Encoder UInt8 UInt8} {room : Option Nat}

/-- An answer of the codec that is not the last is written, and the loop goes on with less, or the
output cannot be written. -/
theorem Packs.next {read behind : List UInt8} {piping : Piping encoder.State}
    (packs : Packs room read piping) (errorFirst : Bool) {source : Source}
    {answer : Answer encoder.State UInt8} (same : source.untilShort = piping.source.untilShort)
    (lefts : ∀ window, { source with window := window }.untilShort = window ++ behind)
    (taken : answer.consumed ≤ source.window.length) (sound : answer.report ≠ .failed)
    (rests : encoder.rest piping.state (source.window ++ behind) =
      answer.produced ++ encoder.rest answer.state (source.window.drop answer.consumed ++ behind))
    (progress : 0 < answer.consumed ∨ answer.produced ≠ []) :
    (∃ last, writeAnswer room errorFirst piping source answer false = .stop last ∧
        Ends (packed encoder room read) last) ∨
      ∃ later, writeAnswer room errorFirst piping source answer false = .next later ∧
        Packs room read later ∧ packMeasure later < packMeasure piping := by
  obtain ⟨output, input, fits⟩ := packs
  have whole : source.untilShort = source.window ++ behind := lefts source.window
  have remains : (piping.behind source answer
      (piping.written ++ answer.produced)).source.untilShort =
        source.window.drop answer.consumed ++ behind := lefts _
  rw [← same, whole] at output input
  rw [rests, ← List.append_assoc] at output
  rw [writeAnswer_sound errorFirst _ sound fits]
  by_cases writes : takes room (piping.written ++ answer.produced).length = true
  · refine .inr ⟨_, by rw [if_pos writes, if_neg Bool.false_ne_true], ⟨?_, ?_, writes⟩, ?_⟩
    · rw [remains]
      exact output
    · rw [remains]
      show piping.consumed + answer.consumed + _ = read.length
      rw [List.length_append] at input
      rw [List.length_append, List.length_drop]
      omega
    · unfold packMeasure
      rw [remains, ← same, whole, rests, List.length_append, List.length_append,
        List.length_append, List.length_drop]
      show _ + (encoder.rest answer.state _).length < _
      rcases progress with some_ | filled
      · omega
      · have some_ : 0 < answer.produced.length := List.length_pos_iff.mpr filled
        omega
  · refine .inl ⟨_, by rw [if_neg writes]; rfl, ?_⟩
    have full : ¬ takes room (encoder.output read).length = true := by
      intro fits
      refine writes (takes_less ?_ fits)
      rw [output, @List.length_append _ (piping.written ++ answer.produced)]
      exact Nat.le_add_right _ _
    rw [packed, if_neg full]
    show (-eio : Int) ≠ 0
    decide

/-- One pass of a compression loop: it ends with the whole output, or goes on with less. -/
theorem packLoop_pass (lawful : encoder.Lawful) (errorFirst : Bool)
    {finished : Bool → Report → Bool} (goes : ∀ short, finished short .more = false)
    (stops : finished true .ended = true) {read : List UInt8} {piping : Piping encoder.State}
    (packs : Packs room read piping) :
    (∃ last, packLoop room errorFirst finished piping = .stop last ∧
        Ends (packed encoder room read) last) ∨
      ∃ later, packLoop room errorFirst finished piping = .next later ∧
        Packs room read later ∧ packMeasure later < packMeasure piping := by
  obtain ⟨same, filled⟩ := packFill_spec piping.source
  unfold packLoop
  generalize packFill piping.source = source at same filled ⊢
  have room_ : 0 < chunk := by decide
  have taken := (lawful.bounded piping.state source.window chunk source.short).1
  cases short : source.short with
  | false =>
    -- Not the last call: the buffer is not empty.
    have filled := filled short
    have report := lawful.feeds piping.state source.window chunk room_ filled
    have lefts (window : List UInt8) : { source with window := window }.untilShort =
        window ++ readUntilShort source.reader.limits source.reader.rest := by
      rw [Source.untilShort, short, if_neg Bool.false_ne_true]
    rw [short] at taken
    simp only [short, report, goes]
    exact packs.next errorFirst same lefts taken (by rw [report]; rintro ⟨⟩)
      (lawful.more _ _ _ room_ filled _) (lawful.progress _ _ _ room_ filled)
  | true =>
    have lefts (window : List UInt8) :
        { source with window := window }.untilShort = window ++ [] := by
      rw [Source.untilShort, short, if_pos rfl]
    rw [short] at taken
    cases report : (encoder.encode piping.state source.window chunk true).report with
    | failed => exact absurd report (lawful.finishes _ _ _ room_)
    | more =>
      obtain ⟨progress, rests⟩ := lawful.unfinished _ _ _ room_ report
      simp only [short, report, goes]
      refine packs.next errorFirst same lefts taken (by rw [report]; rintro ⟨⟩) ?_ progress
      rw [List.append_nil, List.append_nil]
      exact rests
    | ended =>
      obtain ⟨all, complete⟩ := lawful.ended _ _ _ room_ report
      obtain ⟨output, input, fits⟩ := packs
      have whole : source.untilShort = source.window := (lefts _).trans (List.append_nil _)
      rw [← same, whole] at output input
      rw [complete] at output
      simp only [short, report, stops]
      rw [writeAnswer_sound errorFirst _ (by rw [report]; rintro ⟨⟩) fits, packed, ← output]
      by_cases writes : takes room (encoder.output read).length = true
      · refine .inl ⟨_, by rw [if_pos writes, if_pos rfl]; rfl, ?_⟩
        rw [if_pos writes]
        show FileEnd.mk 0 (encoder.output read) (piping.consumed + _) = _
        rw [all, input]
      · refine .inl ⟨_, by rw [if_neg writes]; rfl, ?_⟩
        rw [if_neg writes]
        show (-eio : Int) ≠ 0
        decide

/-- A compression loop stops with the whole output of what it reads, or cannot write it. -/
theorem packLoop_stops (lawful : encoder.Lawful) (room : Option Nat) (errorFirst : Bool)
    {finished : Bool → Report → Bool} (goes : ∀ short, finished short .more = false)
    (stops : finished true .ended = true) (content : List UInt8) (limits : List Nat) :
    ∃ last, Stops (packLoop room errorFirst finished)
        ⟨encoder.start, Source.of content limits, [], 0⟩ last ∧
      Ends (packed encoder room (readUntilShort limits content)) last := by
  apply exists_stops packMeasure fun _ => packLoop_pass lawful errorFirst goes stops
  exact ⟨rfl, Nat.zero_add _, takes_nothing room⟩

end

/-! ## The loop of a call -/

/-- What is documented of the encoders, at the levels in use. -/
structure Codecs.Encodes (codecs : Codecs) : Prop where
  /-- `deflate`. -/
  deflate : ∀ isGzip level, (codecs.deflate isGzip (zlibLevel level)).Lawful
  /-- `ZSTD_compressStream2`. -/
  zstdStream : ∀ level, (codecs.zstdStream (zstdLevel codecs.maxCLevel level)).Lawful

/-- The verdict on what is read of a file, if its algorithm has a decoder. -/
def fileVerdict (codecs : Codecs) (host : FileHost) (algo : Algo) (content : List UInt8) :
    Option (Verdict UInt8) :=
  match algo with
  | .zlib | .gzip =>
    some (codecs.inflate.verdict codecs.inflate.start (readUntilShort host.limits content))
  | .zstd => some (codecs.unzstd.verdict codecs.unzstd.start (readUntilEmpty host.limits content))
  | _ => none

/-- What the loop of a call takes and writes when it returns 0. -/
def piped (codecs : Codecs) (host : FileHost) (compressDir : Bool) (algo : Algo) (level : Level)
    (content : List UInt8) : Option (Nat × List UInt8) :=
  if host.init = false then none
  else if compressDir then
    match algo with
    | .zlib | .gzip => packed (codecs.deflate (algo = .gzip) (zlibLevel level)) host.room
        (readUntilShort host.limits content)
    | .zstd => packed (codecs.zstdStream (zstdLevel codecs.maxCLevel level)) host.room
        (readUntilShort host.limits content)
    | _ => none
  else (fileVerdict codecs host algo content).bind (unpacked host.room)

/-- The loop of a call stops. -/
theorem pipe_ends {codecs : Codecs} (encodes : codecs.Encodes) (decodes : codecs.Decodes)
    (host : FileHost) (compressDir : Bool) (algo : Algo) (level : Level) (content : List UInt8) :
    ∃ fuel last, pipe codecs host fuel compressDir algo level content = some last ∧
      Ends (piped codecs host compressDir algo level content) last := by
  have missing : (-enomem : Int) ≠ 0 := by decide
  have unsupported : (-enotsup : Int) ≠ 0 := by decide
  unfold pipe piped
  by_cases init : host.init = false
  · simp only [if_pos init]
    cases algo with
    | zlib | gzip | zstd => exact ⟨0, _, rfl, missing⟩
    | auto | xz | lz4 | lz4Raw | other => exact ⟨0, _, rfl, unsupported⟩
  simp only [if_neg init]
  cases compressDir with
  | true =>
    cases algo with
    | zlib | gzip =>
      obtain ⟨last, ⟨fuel, ran⟩, ends⟩ := packLoop_stops (encodes.deflate _ level) host.room false
        zlibFinished_more rfl content host.limits
      rw [← zlibPack_eq] at ran
      exact ⟨fuel, last, ran, ends⟩
    | zstd =>
      obtain ⟨last, ⟨fuel, ran⟩, ends⟩ := packLoop_stops (encodes.zstdStream level) host.room true
        zstdFinished_more rfl content host.limits
      rw [← zstdPack_eq] at ran
      exact ⟨fuel, last, ran, ends⟩
    | auto | xz | lz4 | lz4Raw | other => exact ⟨0, _, rfl, unsupported⟩
  | false =>
    cases algo with
    | zlib | gzip =>
      obtain ⟨last, ⟨fuel, ran⟩, ends⟩ := unpackLoop_stops decodes.inflate zlibFeed_feeds
        host.room false (Source.of content host.limits)
      rw [← zlibUnpack_eq] at ran
      exact ⟨fuel, last, ran, ends⟩
    | zstd =>
      obtain ⟨last, ⟨fuel, ran⟩, ends⟩ := unpackLoop_stops decodes.unzstd zstdFeed_feeds
        host.room true (Source.of content host.limits)
      rw [← zstdUnpack_eq] at ran
      exact ⟨fuel, last, ran, ends⟩
    | auto | xz | lz4 | lz4Raw | other => exact ⟨0, _, rfl, unsupported⟩

/-- The loop of a call has one result. -/
theorem pipe_unique {codecs : Codecs} {host : FileHost} {compressDir : Bool} {algo : Algo}
    {level : Level} {content : List UInt8} {few many : Nat} {first second : FileEnd}
    (one : pipe codecs host few compressDir algo level content = some first)
    (two : pipe codecs host many compressDir algo level content = some second) :
    first = second := by
  unfold pipe at one two
  by_cases init : host.init = false
  · simp only [if_pos init] at one two
    cases algo <;> exact Option.some.inj (one.symm.trans two)
  · simp only [if_neg init] at one two
    cases compressDir with
    | true =>
      cases algo with
      | zlib | gzip | zstd => exact Stops.unique ⟨few, one⟩ ⟨many, two⟩
      | auto | xz | lz4 | lz4Raw | other => exact Option.some.inj (one.symm.trans two)
    | false =>
      cases algo with
      | zlib | gzip | zstd => exact Stops.unique ⟨few, one⟩ ⟨many, two⟩
      | auto | xz | lz4 | lz4Raw | other => exact Option.some.inj (one.symm.trans two)

end HwrunOs.Compress
