import HwrunOs.Compress.FileLoops
import HwrunOs.Compress.Stored

/-!
# Losing the input of a call on files

A call removes its input when it returns 0 and is not told to keep it. The loops decide on their
own that the input has ended: at a short read, which an error can cause, and at the end of the
first stream in the file. The output is opened before anything is read.
-/

namespace HwrunOs.Compress

open HwrunOs.Bytes HwrunOs.Loops HwrunOs.Transducers

/-- The input is as before, or the call succeeds, is not to keep it, and has taken all of it. -/
def InputKept (before : Disk) (req : FileReq) (reply : FileReply) : Prop :=
  ∀ input, req.inputPath = some input → reply.disk input = before input ∨
    reply.code = 0 ∧ req.keepOriginal = false ∧ reply.disk input = none ∧
      (before input).map List.length = some reply.consumed

/-- The call returns and loses no data. -/
def LosesNothing (codecs : Codecs) (host : FileHost) (compressDir : Bool) (before : Disk)
    (req : FileReq) : Prop :=
  ∃ fuel reply, implFile codecs host fuel compressDir before req = some reply ∧
    InputKept before req reply

/-- All reads are full up to the end of the file, and a stream that is unpacked ends with it. -/
def TakesAll (codecs : Codecs) (host : FileHost) (compressDir : Bool) (algo : Algo)
    (content : List UInt8) : Prop :=
  if compressDir then readUntilShort host.limits content = content
  else ∃ output, fileVerdict codecs host algo content = some (.ended content.length output)

/-- The codec comes to its end on what is read, and all its output can be written. -/
def Completes (codecs : Codecs) (host : FileHost) (compressDir : Bool) (algo : Algo)
    (level : Level) (content written : List UInt8) : Prop :=
  (∃ consumed, piped codecs host compressDir algo level content = some (consumed, written)) ∧
    host.closeOutput = true

/-- When a call on an input and another output loses nothing: it is to keep the input, or it does
not complete, or it takes all of the input. -/
def SparesInput (codecs : Codecs) (host : FileHost) (compressDir : Bool) (req : FileReq)
    (content : List UInt8) : Prop :=
  let algo := fileAlgo compressDir host req.algo content
  req.keepOriginal = true ∨ TakesAll codecs host compressDir algo content ∨
    ∀ written, ¬ Completes codecs host compressDir algo req.level content written

/-- When a call on one path loses nothing: it completes on the empty file, which is what the path
held, or whose output is what it held. -/
def SparesSame (codecs : Codecs) (host : FileHost) (compressDir : Bool) (req : FileReq)
    (content : List UInt8) : Prop :=
  ∃ written, Completes codecs host compressDir (fileAlgo compressDir host req.algo []) req.level []
    written ∧ content = if req.keepOriginal then written else []

/-- When a call loses nothing: it is refused before the output is opened, or it spares its input. -/
def Spares (codecs : Codecs) (host : FileHost) (compressDir : Bool) (before : Disk)
    (req : FileReq) : Prop :=
  ∀ input output content, req.inputPath = some input → req.outputPath = some output →
    before input = some content → host.openInput = 0 → host.openOutput = 0 →
      if input = output then SparesSame codecs host compressDir req content
      else SparesInput codecs host compressDir req content

/-! ## What is taken -/

/-- What is read up to the first short read is a front part of the file. -/
theorem readUntilShort_begins (limits : List Nat) (content : List UInt8) :
    readUntilShort limits content <+: content := by
  induction limits generalizing content with
  | nil => exact List.prefix_rfl
  | cons limit limits ih =>
    unfold readUntilShort
    dsimp only
    split
    · exact List.take_prefix _ _
    next long =>
      have whole : min limit chunk = chunk := by
        rw [List.length_take] at long
        omega
      obtain ⟨behind, rest⟩ := ih (content.drop chunk)
      rw [whole]
      exact ⟨behind, by rw [List.append_assoc, rest, List.take_append_drop]⟩

/-- What is read up to the first read of nothing is a front part of the file. -/
theorem readUntilEmpty_begins (limits : List Nat) (content : List UInt8) :
    readUntilEmpty limits content <+: content := by
  induction limits generalizing content with
  | nil => exact List.prefix_rfl
  | cons limit limits ih =>
    unfold readUntilEmpty
    dsimp only
    split
    · exact List.nil_prefix
    · obtain ⟨behind, rest⟩ := ih (content.drop (content.take (min limit chunk)).length)
      refine ⟨behind, ?_⟩
      rw [List.append_assoc, rest, List.length_take]
      by_cases inside : min limit chunk ≤ content.length
      · rw [Nat.min_eq_left inside, List.take_append_drop]
      · have short : content.length ≤ min limit chunk := by omega
        rw [Nat.min_eq_right short, List.drop_length, List.append_nil,
          List.take_of_length_le short]

/-- A stream is unpacked with all its output. -/
theorem unpacked_some {room : Option Nat} {verdict : Verdict UInt8} {consumed : Nat}
    {written : List UInt8} (unpacks : unpacked room verdict = some (consumed, written)) :
    verdict = .ended consumed written ∧ takes room written.length = true := by
  cases verdict with
  | ended length output =>
    have unpacks : (if takes room output.length then some (length, output) else none) =
      some (consumed, written) := unpacks
    split at unpacks
    next fits =>
      obtain ⟨rfl, rfl⟩ := Prod.mk.inj (Option.some.inj unpacks)
      exact ⟨rfl, fits⟩
    next => cases unpacks
  | cut output => cases unpacks
  | failed most => cases unpacks

/-- A stream in a file ends within it. -/
theorem fileVerdict_inside {codecs : Codecs} (decodes : codecs.Decodes) {host : FileHost}
    {algo : Algo} {content output : List UInt8} {length : Nat}
    (ended : fileVerdict codecs host algo content = some (.ended length output)) :
    length ≤ content.length := by
  unfold fileVerdict at ended
  split at ended
  case h_1 | h_2 =>
    have inside := decodes.inflate.inside _ _ _ _ (Option.some.inj ended)
    exact Nat.le_trans inside (readUntilShort_begins _ _).length_le
  case h_3 =>
    have inside := decodes.unzstd.inside _ _ _ _ (Option.some.inj ended)
    exact Nat.le_trans inside (readUntilEmpty_begins _ _).length_le
  case h_4 => cases ended

/-- What a loop that returns 0 has taken: it is a part of the file, and all of it exactly when all
reads are full and a stream that is unpacked ends with the file. -/
theorem piped_taken {codecs : Codecs} (decodes : codecs.Decodes) {host : FileHost}
    {compressDir : Bool} {algo : Algo} {level : Level} {content written : List UInt8}
    {consumed : Nat}
    (result : piped codecs host compressDir algo level content = some (consumed, written)) :
    consumed ≤ content.length ∧
      (consumed = content.length ↔ TakesAll codecs host compressDir algo content) := by
  have short := readUntilShort_begins host.limits content
  have packs {encoder : Encoder UInt8 UInt8}
      (packs : packed encoder host.room (readUntilShort host.limits content) =
        some (consumed, written)) : consumed ≤ content.length ∧
          (consumed = content.length ↔ readUntilShort host.limits content = content) := by
    unfold packed at packs
    split at packs
    next =>
      obtain ⟨rfl, -⟩ := Prod.mk.inj (Option.some.inj packs)
      exact ⟨short.length_le, short.eq_of_length, congrArg List.length⟩
    next => cases packs
  unfold piped at result
  unfold TakesAll
  split at result
  next => cases result
  next =>
    cases compressDir with
    | true =>
      cases algo with
      | zlib | gzip | zstd => exact packs result
      | auto | xz | lz4 | lz4Raw | other => cases result
    | false =>
      obtain ⟨verdict, found, unpacks⟩ := Option.bind_eq_some_iff.mp result
      obtain ⟨rfl, -⟩ := unpacked_some unpacks
      refine ⟨fileVerdict_inside decodes found, ?_⟩
      rw [if_neg Bool.false_ne_true, found]
      constructor
      · rintro rfl
        exact ⟨written, rfl⟩
      · rintro ⟨output, same⟩
        exact (Verdict.ended.inj (Option.some.inj same)).1

/-! ## The call -/

section

variable {codecs : Codecs} {host : FileHost} {compressDir : Bool} {before : Disk} {req : FileReq}

variable {input output : CString} {content : List UInt8}

/-- A call that opens its output and runs its loop. -/
theorem implFile_opened (from_ : req.inputPath = some input) (into : req.outputPath = some output)
    (there : before input = some content) (readable : host.openInput = 0)
    (writable : host.openOutput = 0) (fuel : Nat) :
    implFile codecs host fuel compressDir before req =
      let opened := Function.update before output (some [])
      let content := (opened input).getD []
      let algo := fileAlgo compressDir host req.algo content
      (pipe codecs host fuel compressDir algo req.level content).map
        (finishFile host compressDir opened input output req.keepOriginal algo content.length) := by
  unfold implFile
  simp only [from_, into, there, readable, writable, Option.isNone_some]
  rfl

/-- A call that fails removes its output. -/
theorem finishFile_fails {disk : Disk} {algo : Algo} {length : Nat} {last : FileEnd}
    (fails : last.code ≠ 0 ∨ host.closeOutput = false) (keepOriginal : Bool) :
    (finishFile host compressDir disk input output keepOriginal algo length last).disk =
        Function.update disk output none ∧
      (finishFile host compressDir disk input output keepOriginal algo length last).code ≠ 0 := by
  have wrong : (if last.code = 0 ∧ host.closeOutput = false then -eio else last.code) ≠ 0 := by
    split
    next => decide
    next whole =>
      intro zero
      exact fails.elim (fun failed => failed zero) fun unclosed => whole ⟨zero, unclosed⟩
  unfold finishFile
  dsimp only
  rw [if_pos wrong]
  exact ⟨rfl, wrong⟩

/-- A call that succeeds stores its output, and removes its input unless that is to be kept. -/
theorem finishFile_done (closed : host.closeOutput = true) (disk : Disk) (keepOriginal : Bool)
    (algo : Algo) (length consumed : Nat) (written : List UInt8) :
    finishFile host compressDir disk input output keepOriginal algo length ⟨0, written, consumed⟩ =
      let stored := Function.update disk output (some written)
      ⟨if keepOriginal then stored else Function.update stored input none, 0,
        if compressDir then some ⟨length, written.length, algo⟩
        else some ⟨written.length, length, algo⟩, consumed⟩ := by
  unfold finishFile
  rw [closed]
  rfl

/-- A call that does not open its output changes nothing. -/
theorem implFile_refused (refused : ¬ ∃ input output content, req.inputPath = some input ∧
      req.outputPath = some output ∧ before input = some content ∧ host.openInput = 0 ∧
      host.openOutput = 0) (fuel : Nat) :
    ∃ code, implFile codecs host fuel compressDir before req = some ⟨before, code, none, 0⟩ := by
  unfold implFile
  split
  next input output from_ into =>
    split
    · exact ⟨_, rfl⟩
    next there =>
      split
      · exact ⟨_, rfl⟩
      next readable =>
        split
        · exact ⟨_, rfl⟩
        next writable =>
          obtain ⟨content, held⟩ : ∃ content, before input = some content := by
            cases held : before input with
            | none =>
              rw [held] at there
              exact absurd rfl there
            | some content => exact ⟨content, rfl⟩
          exact absurd ⟨input, output, content, from_, into, held, not_not.mp readable,
            not_not.mp writable⟩ refused
  next => exact ⟨_, rfl⟩

/-- A call whose loop stops loses nothing exactly when it keeps its input then. -/
theorem losesNothing_loop {algo : Algo} {held : List UInt8} {finish : FileEnd → FileReply}
    (opened : ∀ fuel, implFile codecs host fuel compressDir before req =
      (pipe codecs host fuel compressDir algo req.level held).map finish) {fuel : Nat}
    {last : FileEnd} (ran : pipe codecs host fuel compressDir algo req.level held = some last) :
    LosesNothing codecs host compressDir before req ↔ InputKept before req (finish last) := by
  constructor
  · rintro ⟨many, reply, returned, kept⟩
    rw [opened] at returned
    obtain ⟨other, again, rfl⟩ := Option.map_eq_some_iff.mp returned
    rw [pipe_unique ran again]
    exact kept
  · intro kept
    refine ⟨fuel, finish last, ?_, kept⟩
    rw [opened, ran]
    rfl

/-- Whether the one input of a call is kept. -/
theorem inputKept_iff (from_ : req.inputPath = some input) (there : before input = some content)
    (reply : FileReply) : InputKept before req reply ↔ reply.disk input = some content ∨
      reply.code = 0 ∧ req.keepOriginal = false ∧ reply.disk input = none ∧
        content.length = reply.consumed := by
  constructor
  · intro kept
    have kept := kept input from_
    rw [there] at kept
    exact kept.imp_right fun ⟨code, keep, gone, all⟩ => ⟨code, keep, gone, Option.some.inj all⟩
  · intro kept path same
    obtain rfl : input = path := Option.some.inj (from_.symm.trans same)
    rw [there]
    exact kept.imp_right fun ⟨code, keep, gone, all⟩ => ⟨code, keep, gone, congrArg some all⟩

/-- A loop that has stopped completes, or the call fails. -/
theorem completes_or_fails {algo : Algo} {level : Level} {held : List UInt8} {last : FileEnd}
    (ends : Ends (piped codecs host compressDir algo level held) last) :
    (∃ consumed written, piped codecs host compressDir algo level held = some (consumed, written) ∧
        host.closeOutput = true ∧ last = ⟨0, written, consumed⟩) ∨
      (last.code ≠ 0 ∨ host.closeOutput = false) ∧
        ∀ written, ¬ Completes codecs host compressDir algo level held written := by
  by_cases closed : host.closeOutput = true
  · cases result : piped codecs host compressDir algo level held with
    | none =>
      rw [result] at ends
      refine .inr ⟨.inl ends, fun written completes => ?_⟩
      obtain ⟨consumed, done⟩ := completes.1
      rw [result] at done
      cases done
    | some taken =>
      rw [result] at ends
      exact .inl ⟨taken.1, taken.2, rfl, closed, ends⟩
  · exact .inr ⟨.inr (by simpa using closed), fun written completes => closed completes.2⟩

/-- What a call whose loop has stopped leaves of its input, when its output is another file. -/
theorem finishFile_spares (decodes : codecs.Decodes) (from_ : req.inputPath = some input)
    (there : before input = some content) (apart : input ≠ output) {last : FileEnd}
    (ends : Ends (piped codecs host compressDir (fileAlgo compressDir host req.algo content)
      req.level content) last) :
    InputKept before req (finishFile host compressDir (Function.update before output (some []))
        input output req.keepOriginal (fileAlgo compressDir host req.algo content) content.length
        last) ↔ SparesInput codecs host compressDir req content := by
  have other (file : Option (List UInt8)) :
      Function.update (Function.update before output (some [])) output file input =
        some content := by
    rw [Function.update_of_ne apart, Function.update_of_ne apart, there]
  rw [inputKept_iff from_ there]
  unfold SparesInput
  dsimp only
  generalize fileAlgo compressDir host req.algo content = algo at ends ⊢
  rcases completes_or_fails ends with ⟨consumed, written, result, closed, rfl⟩ | ⟨fails, never⟩
  · have completes : Completes codecs host compressDir algo req.level content written :=
      ⟨⟨consumed, result⟩, closed⟩
    have taken := (piped_taken decodes result).2
    rw [finishFile_done closed]
    dsimp only
    cases keep : req.keepOriginal with
    | true => exact ⟨fun _ => .inl rfl, fun _ => .inl (other _)⟩
    | false =>
      rw [if_neg Bool.false_ne_true, Function.update_self]
      constructor
      · rintro (there | ⟨-, -, -, all⟩)
        · cases there
        · exact .inr (.inl (taken.mp all.symm))
      · rintro (keeps | all | never)
        · cases keeps
        · exact .inr ⟨rfl, rfl, rfl, (taken.mpr all).symm⟩
        · exact absurd completes (never written)
  · rw [(finishFile_fails fails _).1, other]
    exact ⟨fun _ => .inr (.inr never), fun _ => .inl rfl⟩

/-- What a call whose loop has stopped leaves of its input, when its output is the same file. -/
theorem finishFile_same (decodes : codecs.Decodes) (from_ : req.inputPath = some input)
    (there : before input = some content) {last : FileEnd}
    (ends : Ends
      (piped codecs host compressDir (fileAlgo compressDir host req.algo []) req.level []) last) :
    InputKept before req (finishFile host compressDir (Function.update before input (some []))
        input input req.keepOriginal (fileAlgo compressDir host req.algo []) 0 last) ↔
      SparesSame codecs host compressDir req content := by
  rw [inputKept_iff from_ there]
  unfold SparesSame
  generalize fileAlgo compressDir host req.algo [] = algo at ends ⊢
  rcases completes_or_fails ends with ⟨consumed, written, result, closed, rfl⟩ | ⟨fails, never⟩
  · have completes : Completes codecs host compressDir algo req.level [] written :=
      ⟨⟨consumed, result⟩, closed⟩
    have nothing : consumed = 0 := Nat.le_zero.mp (piped_taken decodes result).1
    have one (other : List UInt8)
        (other_ : Completes codecs host compressDir algo req.level [] other) : other = written := by
      obtain ⟨⟨_, again⟩, -⟩ := other_
      rw [result] at again
      exact (Prod.mk.inj (Option.some.inj again)).2.symm
    rw [finishFile_done closed]
    dsimp only
    cases keep : req.keepOriginal with
    | true =>
      rw [if_pos rfl, Function.update_self]
      constructor
      · rintro (there | ⟨-, keeps, -⟩)
        · exact ⟨written, completes, (Option.some.inj there).symm⟩
        · cases keeps
      · rintro ⟨other, others, same⟩
        rw [show content = other from same, one other others]
        exact .inl rfl
    | false =>
      rw [if_neg Bool.false_ne_true, Function.update_self]
      constructor
      · rintro (there | ⟨-, -, -, all⟩)
        · cases there
        · rw [nothing] at all
          exact ⟨written, completes, List.eq_nil_of_length_eq_zero all⟩
      · rintro ⟨other, others, rfl⟩
        exact .inr ⟨rfl, rfl, rfl, nothing.symm⟩
  · rw [(finishFile_fails fails _).1, Function.update_self]
    constructor
    · rintro (there | ⟨code, -⟩)
      · cases there
      · exact absurd code (finishFile_fails fails _).2
    · rintro ⟨written, completes, -⟩
      exact absurd completes (never written)

end

/-- A call on files loses no data exactly when it is refused before its output is opened; or its
paths differ and it is to keep the input, does not complete, or takes all of the input; or its
paths are one, it completes on the empty file, and the file held its output or, when it is removed,
nothing. -/
theorem losesNothing_iff (codecs : Codecs) (encodes : codecs.Encodes) (decodes : codecs.Decodes)
    (host : FileHost) (compressDir : Bool) (before : Disk) (req : FileReq) :
    LosesNothing codecs host compressDir before req ↔
      Spares codecs host compressDir before req := by
  by_cases opens : ∃ input output content, req.inputPath = some input ∧
      req.outputPath = some output ∧ before input = some content ∧ host.openInput = 0 ∧
      host.openOutput = 0
  · obtain ⟨input, output, content, from_, into, there, readable, writable⟩ := opens
    have spares : Spares codecs host compressDir before req ↔
        if input = output then SparesSame codecs host compressDir req content
        else SparesInput codecs host compressDir req content := by
      constructor
      · intro spares
        exact spares input output content from_ into there readable writable
      · intro spares path other bytes same into_ bytes_ _ _
        obtain rfl := Option.some.inj (from_.symm.trans same)
        obtain rfl := Option.some.inj (into.symm.trans into_)
        obtain rfl := Option.some.inj (there.symm.trans bytes_)
        exact spares
    have opened := @implFile_opened codecs host compressDir before req input output content from_
      into there readable writable
    rw [spares]
    by_cases same : input = output
    · subst same
      simp only [Function.update_self, Option.getD_some] at opened
      obtain ⟨fuel, last, ran, ends⟩ := pipe_ends encodes decodes host compressDir
        (fileAlgo compressDir host req.algo []) req.level []
      rw [if_pos rfl, losesNothing_loop opened ran]
      exact finishFile_same decodes from_ there ends
    · simp only [Function.update_of_ne same, there, Option.getD_some] at opened
      obtain ⟨fuel, last, ran, ends⟩ := pipe_ends encodes decodes host compressDir
        (fileAlgo compressDir host req.algo content) req.level content
      rw [if_neg same, losesNothing_loop opened ran]
      exact finishFile_spares decodes from_ there same ends
  · obtain ⟨code, refused⟩ := @implFile_refused codecs host compressDir before req opens 0
    refine ⟨fun _ => ?_, fun _ => ⟨0, _, refused, fun _ _ => .inl rfl⟩⟩
    intro input output content from_ into there readable writable
    exact absurd ⟨input, output, content, from_, into, there, readable, writable⟩ opens

/-! ## One member and two -/

/-- The encoders of the stored format are lawful. -/
theorem storedCodecs_encodes : storedCodecs.Encodes :=
  ⟨fun isGzip _ => wholeEncoder_lawful (storedZlib isGzip), fun _ => wholeEncoder_lawful storedZstd⟩

/-- A system on which nothing fails. -/
def plainHost : FileHost := ⟨0, 0, true, 16, [], none, true⟩

/-- A disk with one file. -/
def oneFile (path : CString) (content : List UInt8) : Disk :=
  Function.update (fun _ => none) path (some content)

/-- A call that removes its input. -/
def movingReq (input output : CString) (algo : Algo) : FileReq :=
  ⟨some input, some output, algo, 2, false⟩

/-- A file that is compressed into another is removed without loss. -/
theorem losesNothing_compress :
    LosesNothing storedCodecs plainHost true (oneFile (lit "/a") [1, 2, 3])
      (movingReq (lit "/a") (lit "/a.gz") .gzip) := by
  refine (losesNothing_iff storedCodecs storedCodecs_encodes storedCodecs_decodes plainHost true
    (oneFile (lit "/a") [1, 2, 3]) (movingReq (lit "/a") (lit "/a.gz") .gzip)).mpr ?_
  intro input output content from_ into _ _ _
  obtain rfl := Option.some.inj from_
  obtain rfl := Option.some.inj into
  rw [if_neg (by decide)]
  exact .inr (.inl rfl)

/-- A gzip file of two members: the call returns 0, has taken the first member and removes the
file. -/
theorem second_member_lost :
    ∃ reply, implFile storedCodecs plainHost 1 false
        (oneFile (lit "/a.gz") (storedZlib true [] ++ storedZlib true []))
        (movingReq (lit "/a.gz") (lit "/a") .gzip) = some reply ∧
      reply.code = 0 ∧ reply.disk (lit "/a.gz") = none ∧ reply.consumed = 20 ∧
      (storedZlib true [] ++ storedZlib true []).length = 40 ∧
      ¬ LosesNothing storedCodecs plainHost false
        (oneFile (lit "/a.gz") (storedZlib true [] ++ storedZlib true []))
        (movingReq (lit "/a.gz") (lit "/a") .gzip) := by
  refine ⟨_, rfl, rfl, rfl, rfl, rfl, ?_⟩
  rintro ⟨fuel, reply, returned, kept⟩
  cases fuel with
  | zero => cases returned
  | succ fuel =>
    obtain rfl := Option.some.inj returned
    rcases kept (lit "/a.gz") rfl with same | ⟨-, -, -, all⟩
    · exact absurd (show none = some _ from same) (by rintro ⟨⟩)
    · exact absurd (show some 40 = some 20 from all) (by decide)

end HwrunOs.Compress
