import HwrunOs.Hap.Util
import HwrunOs.Library.Scanf

/-!
# The number of processors

`hap_cpu_probe` counts how often `processor` stands behind a line feed in the first 4095 bytes of
`/proc/cpuinfo`. The line of the first processor has no line feed in front of it.
-/

namespace HwrunOs.Hap

open HwrunOs.Bytes

/-- `hap_cpu_info_t`. -/
structure CpuInfo (Load : Type) where
  /-- `vendor`. -/
  vendor : Field 64
  /-- `model`. -/
  model : Field 128
  /-- `cores`. -/
  cores : Nat
  /-- `sockets`. -/
  sockets : Nat
  /-- `freq_current_mhz`. -/
  freqCurrentMhz : Nat
  /-- `freq_min_mhz`. -/
  freqMinMhz : Nat
  /-- `freq_max_mhz`. -/
  freqMaxMhz : Nat
  /-- `load1m`, `load5m` and `load15m`. -/
  loads : Load × Load × Load
  /-- `ident`. -/
  ident : Field 256

/-- `SYS_CPU_CUR` and its siblings for the first processor. -/
def cpufreqPath (name : String) : CString :=
  snprintf 256 (lit "/sys/devices/system/cpu/cpu0/cpufreq/" ++ lit name)

/-- A frequency in MHz; zero without a file. -/
def cpuFrequency (files : Files) (name : String) : Nat :=
  match hapReadFile files (cpufreqPath name) 256 with
  | none => 0
  | some value => (strtoull value).1 / 1000

/-- `hap_cpu_loadavg`. `atof` of the empty text is the zero of `memset`. -/
def hapCpuLoadavg {Load : Type} (atof : CString → Load) (files : Files) : Load × Load × Load :=
  match hapReadFile files (lit "/proc/loadavg") 128 with
  | none => (atof [], atof [], atof [])
  | some text =>
    match sscanf [.word 15, .word 15, .word 15] text with
    | [.word a, .word b, .word c] => (atof a, atof b, atof c)
    | _ => (atof [], atof [], atof [])

/-- The model name: the first key that is found, and `Hardware` again for an empty one. -/
def cpuModel (config : CString) : CString :=
  let named := ((hapLineValue config (lit "model name") 128).orElse fun _ =>
    hapLineValue config (lit "Hardware") 128).getD []
  if named = [] then (hapLineValue config (lit "Hardware") 128).getD [] else named

/-- The number of processors in the text of `/proc/cpuinfo`. -/
def cpuCores (config : CString) : Nat :=
  let count := countWord (newline :: lit "processor") config
  if count = 0 then 1 else count

/-- `ident`. -/
def cpuIdent (cores : Nat) (model : CString) : CString :=
  if model = [] then decimal cores ++ lit " CPU"
  else decimal cores ++ lit " CPU / " ++ model

/-- `hap_cpu_probe`. -/
def hapCpuProbe {Load : Type} (atof : CString → Load) (files : Files) : CpuInfo Load :=
  let config := hapReadFile files (lit "/proc/cpuinfo") 4096
  let model := (config.map cpuModel).getD []
  let vendor := (config.bind (hapLineValue · (lit "vendor_id") 256)).getD []
  let cores := (config.map cpuCores).getD 0
  { vendor := Field.copy vendor
    model := Field.copy model
    cores := cores
    sockets := 1
    freqCurrentMhz := if 0 < cores then cpuFrequency files "scaling_cur_freq" else 0
    freqMinMhz := if 0 < cores then cpuFrequency files "scaling_min_freq" else 0
    freqMaxMhz := if 0 < cores then cpuFrequency files "scaling_max_freq" else 0
    loads := hapCpuLoadavg atof files
    ident := Field.copy (cpuIdent cores model) }

/-! ## What the kernel prints -/

/-- A line of `/proc/cpuinfo`. -/
inductive CpuLine
  /-- The line at the start of a block, with what stands behind `processor`. -/
  | first (number : TextLine)
  /-- Any other line. -/
  | other (line : TextLine)

namespace CpuLine

/-- The text of a line. -/
def text : CpuLine → CString
  | first number => lit "processor" ++ number.1
  | other line => line.1

/-- A line starts a block. -/
def isFirst : CpuLine → Bool
  | first _ => true
  | other _ => false

/-- A line begins with `processor` and starts no block. -/
def isStray : CpuLine → Bool
  | first _ => false
  | other line => (lit "processor").isPrefixOf line.1

/-- A line has no line feed. -/
theorem plain (line : CpuLine) : newline ∉ line.text := by
  cases line with
  | first number =>
    rw [text, List.mem_append, not_or]
    exact ⟨by decide, number.2⟩
  | other line => exact line.2

/-- The lines that begin with `processor` are those that start a block and the stray ones. -/
theorem countP_processor (lines : List CpuLine) :
    lines.countP (fun line => (lit "processor").isPrefixOf line.text) =
      lines.countP isFirst + lines.countP isStray := by
  induction lines with
  | nil => rfl
  | cons line lines ih =>
    rw [List.countP_cons, List.countP_cons, List.countP_cons, ih]
    cases line with
    | first number =>
      have begins : (lit "processor").isPrefixOf (lit "processor" ++ number.1) = true :=
        List.isPrefixOf_iff_prefix.mpr (List.prefix_append _ _)
      simp only [text, isFirst, isStray, begins, Bool.false_eq_true, if_true, if_false]
      omega
    | other line =>
      have none : isFirst (other line) = false := rfl
      have same : (other line).isStray = (lit "processor").isPrefixOf (other line).text := rfl
      rw [none, same, if_neg Bool.false_ne_true]
      omega

end CpuLine

/-- The lines of one processor. -/
structure CpuBlock where
  /-- What stands behind `processor` on the first line. -/
  number : TextLine
  /-- The other lines. -/
  others : List TextLine

/-- The lines of a block. -/
def CpuBlock.lines (block : CpuBlock) : List CpuLine :=
  .first block.number :: block.others.map .other

/-- `/proc/cpuinfo`. -/
structure CpuInfoText where
  /-- The block at the start of the file. -/
  first : CpuBlock
  /-- The other blocks. -/
  later : List CpuBlock

namespace CpuInfoText

/-- The number of processors. -/
def processors (info : CpuInfoText) : Nat := info.later.length + 1

/-- The lines. -/
def lines (info : CpuInfoText) : List CpuLine :=
  info.first.lines ++ info.later.flatMap CpuBlock.lines

/-- The file. -/
def text (info : CpuInfoText) : CString := info.lines.flatMap fun line => line.text ++ [newline]

/-- The text in the buffer. -/
def seen (info : CpuInfoText) : CString := bufferText (info.text.take 4095)

/-- The lines of which the buffer has the first nine bytes. -/
def shown (info : CpuInfoText) : List CpuLine :=
  shownLines (lit "processor").length CpuLine.text info.seen.length info.lines

/-- The blocks whose first line the buffer does not show. -/
def hidden (info : CpuInfoText) : Nat :=
  (info.lines.drop info.shown.length).countP CpuLine.isFirst

/-- The lines in the buffer that begin with `processor` and start no block. -/
def stray (info : CpuInfoText) : Nat := info.shown.countP CpuLine.isStray

/-- The file is not empty. -/
theorem text_ne_nil (info : CpuInfoText) : info.text ≠ [] := by
  simp [text, lines, CpuBlock.lines]

/-- There are as many blocks as there are processors. -/
theorem countP_first (info : CpuInfoText) :
    info.lines.countP CpuLine.isFirst = info.processors := by
  have block (block : CpuBlock) : block.lines.countP CpuLine.isFirst = 1 := by
    have others : (block.others.map CpuLine.other).countP CpuLine.isFirst = 0 := by
      rw [List.countP_eq_zero]
      intro line found
      obtain ⟨other, -, rfl⟩ := List.mem_map.mp found
      exact Bool.false_ne_true
    rw [CpuBlock.lines, List.countP_cons_of_pos rfl, others]
  have all (blocks : List CpuBlock) :
      (blocks.flatMap CpuBlock.lines).countP CpuLine.isFirst = blocks.length := by
    induction blocks with
    | nil => rfl
    | cons first blocks ih =>
      rw [List.flatMap_cons, List.countP_append, block, ih, List.length_cons, Nat.add_comm]
  rw [lines, List.countP_append, block, all, processors, Nat.add_comm]

/-- A block is shown or hidden. -/
theorem shown_first (info : CpuInfoText) :
    info.shown.countP CpuLine.isFirst + info.hidden = info.processors := by
  have front : info.shown <+: info.lines := shownLines_front _ _ _ _
  have whole := List.prefix_iff_eq_append.mp front
  rw [hidden, ← List.countP_append, whole, countP_first]

/-- The buffer begins with the first `processor`. -/
theorem seen_front (info : CpuInfoText) : lit "processor" <+: info.seen := by
  obtain ⟨rest, whole⟩ : ∃ rest, info.text = lit "processor" ++ rest := by
    refine ⟨info.first.number.1 ++ newline ::
      ((info.first.others.map CpuLine.other ++ info.later.flatMap CpuBlock.lines).flatMap
        fun line => line.text ++ [newline]), ?_⟩
    simp [text, lines, CpuBlock.lines, CpuLine.text]
  have front : info.text.take 4095 = lit "processor" ++ rest.take (4095 - 9) := by
    rw [whole, List.take_append]
    rfl
  rw [seen, front, bufferText_append (by decide)]
  exact List.prefix_append _ _

/-- The first block is shown. -/
theorem shown_pos (info : CpuInfoText) : 0 < info.shown.countP CpuLine.isFirst := by
  have room : (lit "processor").length ≤ info.seen.length := info.seen_front.length_le
  have whole : info.lines = CpuLine.first info.first.number ::
      (info.first.others.map CpuLine.other ++ info.later.flatMap CpuBlock.lines) := rfl
  rw [shown, whole, shownLines, if_pos room, List.countP_cons_of_pos rfl]
  exact Nat.succ_pos _

/-- The buffer holds the front of the file. -/
theorem seen_take (info : CpuInfoText) : info.seen = info.text.take info.seen.length := by
  have front : info.seen <+: info.text :=
    (List.takeWhile_prefix _).trans (List.take_prefix _ _)
  exact List.prefix_iff_eq_take.mp front

end CpuInfoText

/-- The probe reports as many processors as there are blocks. -/
def CoresExact {Load : Type} (atof : CString → Load) (files : Files) (info : CpuInfoText) : Prop :=
  (hapCpuProbe atof files).cores = info.processors

/-! ## The count -/

/-- The lines that the loop counts are those that the buffer shows, but for the first one. -/
theorem counted_lines (info : CpuInfoText) :
    countWord (newline :: lit "processor") info.seen + 1 =
      info.shown.countP CpuLine.isFirst + info.stray := by
  have filled : lit "processor" ≠ [] := by decide
  have plain : newline ∉ lit "processor" := by decide
  have all := countP_lineStarts filled plain CpuLine.text info.lines
    (fun line _ => line.plain) info.seen.length
  have front := info.seen_front
  have some_ : info.seen ≠ [] := by
    intro nothing
    rw [nothing] at front
    exact filled (List.prefix_nil.mp front)
  have first : (lit "processor").isPrefixOf info.seen = true := List.isPrefixOf_iff_prefix.mpr front
  rw [← CpuInfoText.text, ← info.seen_take, lineStarts, if_neg some_,
    List.countP_cons_of_pos first] at all
  rw [countWord_newline filled plain, laterLines, all, CpuInfoText.stray,
    ← CpuLine.countP_processor]
  rfl

/-- What is reported for a file. -/
theorem hapCpuProbe_cores {Load : Type} (atof : CString → Load) {files : Files}
    (info : CpuInfoText) (there : files (lit "/proc/cpuinfo") = some info.text) :
    (hapCpuProbe atof files).cores =
      max 1 (countWord (newline :: lit "processor") info.seen) := by
  have room : 1 < 4096 := by decide
  have read := hapReadFile_some there info.text_ne_nil room
  have cores : cpuCores info.seen = max 1 (countWord (newline :: lit "processor") info.seen) := by
    rw [cpuCores]
    split
    · omega
    · omega
  rw [hapCpuProbe, read]
  exact cores

/-- The number of processors is right exactly when a stray line in the buffer makes up for the
first line of the file and one for each hidden block, or for one processor without stray lines. -/
theorem coresExact_iff {Load : Type} (atof : CString → Load) {files : Files} (info : CpuInfoText)
    (there : files (lit "/proc/cpuinfo") = some info.text) :
    CoresExact atof files info ↔
      info.stray = info.hidden + 1 ∨ info.processors = 1 ∧ info.stray = 0 := by
  have counted := counted_lines info
  have shown := info.shown_first
  have first := info.shown_pos
  rw [CoresExact, hapCpuProbe_cores atof info there]
  constructor
  · intro same
    omega
  · intro condition
    omega

/-- The file of two processors. -/
def twoProcessors : CpuInfoText :=
  ⟨⟨⟨lit "\t: 0", by decide⟩, [⟨[], by decide⟩]⟩, [⟨⟨lit "\t: 1", by decide⟩, [⟨[], by decide⟩]⟩]⟩

/-- A system with that file. -/
def cpuinfoFiles (info : CpuInfoText) : Files := fun path =>
  if path = lit "/proc/cpuinfo" then some info.text else none

/-- Two processors are reported as one. -/
theorem twoProcessors_one :
    ¬ CoresExact (fun _ => ()) (cpuinfoFiles twoProcessors) twoProcessors := by
  have cores : (hapCpuProbe (fun _ => ()) (cpuinfoFiles twoProcessors)).cores = 1 := by
    decide +kernel
  rw [CoresExact, cores]
  decide

/-- The condition at the file of two processors. -/
theorem coresExact_two :
    cpuinfoFiles twoProcessors (lit "/proc/cpuinfo") = some twoProcessors.text ∧
      (CoresExact (fun _ => ()) (cpuinfoFiles twoProcessors) twoProcessors ↔
        twoProcessors.stray = twoProcessors.hidden + 1 ∨
          twoProcessors.processors = 1 ∧ twoProcessors.stray = 0) :=
  ⟨if_pos rfl, coresExact_iff (fun _ => ()) twoProcessors (if_pos rfl)⟩

end HwrunOs.Hap
