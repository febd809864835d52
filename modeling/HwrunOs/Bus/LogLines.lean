import HwrunOs.Bus.Lock
import HwrunOs.Library.Bytes
import Mathlib.Data.Fin.VecNotation

/-!
# The log

`log.c`: a message is formatted into a buffer of 2048 bytes, and becomes one line with a time, a
level and the name of a plugin. The guard of the log's mutex is around the formatting, the write
into the stream's buffer and its flush. So a line is never cut by another, whatever part of it the
stream writes early.
-/

namespace HwrunOs.Bus

open HwrunOs.Bytes HwrunOs.Runs HwrunOs.Sections

/-! ## Lines -/

/-- The fields of `hw_log_ctx_t` that decide how a line looks. -/
structure LogContext where
  /-- `level`. -/
  level : Int
  /-- `with_timestamp`. -/
  withTimestamp : Bool
  /-- `with_color`. -/
  withColor : Bool
  deriving DecidableEq

/-- The fields that `hw_log_init` sets: a file has no colours. -/
def hwLogInit (path : Option CString) (level : Int) : LogContext where
  level := level
  withTimestamp := true
  withColor := (path.getD []).isEmpty

/-- `level_names`. -/
def levelNames : Fin 5 → CString :=
  ![lit "DEBUG", lit "INFO", lit "WARN", lit "ERROR", lit "FATAL"]

/-- `level_colors`. -/
def levelColors : Fin 5 → CString :=
  ![lit "\x1b[90m", lit "\x1b[32m", lit "\x1b[33m", lit "\x1b[31m", lit "\x1b[35m"]

/-- `COLOR_RESET`. -/
def colorReset : CString := lit "\x1b[0m"

/-- A level below `HWLOG_DEBUG` is that, and one above `HWLOG_FATAL` is that. -/
def clampLevel (level : Int) : Fin 5 :=
  ⟨(max 0 (min level 4)).toNat, by omega⟩

/-- `%-5s`. -/
def padded (text : CString) : CString := text ++ List.replicate (5 - text.length) 32

/-- One call of `hw_log_vwrite`, with what it finds. -/
structure LogCall where
  /-- The level. -/
  level : Int
  /-- The plugin, or a null pointer. -/
  plugin : Option CString
  /-- What the format and its arguments give. -/
  text : CString
  /-- What `strftime` gives. -/
  now : CString
  /-- How much of its buffer the stream writes before it is flushed. -/
  early : Nat

/-- The message and the time of a call, once they are in its buffers. -/
structure LogKept where
  /-- `msg`. -/
  msg : CString
  /-- `ts`. -/
  ts : CString

/-- What the two `fprintf` for streams without colours and the one with them write. -/
def logLine (ctx : LogContext) (level : Fin 5) (plugin : CString) (kept : LogKept) : CString :=
  if ctx.withColor then
    levelColors level ++ lit "[" ++ kept.ts ++ lit "][" ++ padded (levelNames level) ++ lit "]" ++
      colorReset ++ lit " " ++ plugin ++ lit " " ++ kept.msg ++ [newline]
  else if kept.ts ≠ [] then
    lit "[" ++ kept.ts ++ lit "][" ++ padded (levelNames level) ++ lit "] " ++ plugin ++ lit " " ++
      kept.msg ++ [newline]
  else
    lit "[" ++ padded (levelNames level) ++ lit "] " ++ plugin ++ lit " " ++ kept.msg ++ [newline]

/-- The line of a call. -/
def LogCall.line (ctx : LogContext) (call : LogCall) : CString :=
  logLine ctx (clampLevel call.level) (call.plugin.getD [])
    ⟨snprintf 2048 call.text, if ctx.withTimestamp then call.now else []⟩

/-! ## The guarded section -/

/-- A stream: what it has written, and what is still in its buffer. -/
structure LogStream where
  /-- In the file. -/
  written : CString
  /-- In the buffer. -/
  buffered : CString
  deriving DecidableEq

/-- `fprintf`: the text is in the buffer, of which some is written. -/
def LogStream.fprintf (stream : LogStream) (text : CString) (early : Nat) : LogStream where
  written := stream.written ++ (stream.buffered ++ text).take early
  buffered := (stream.buffered ++ text).drop early

/-- `fflush`. -/
def LogStream.fflush (stream : LogStream) : LogStream := ⟨stream.written ++ stream.buffered, []⟩

/-- The statements of the guard of `hw_log_vwrite`. -/
def logParts (ctx : LogContext) (call : LogCall) : List (Part LogStream LogKept) :=
  [fun stream kept => (stream, { kept with msg := snprintf 2048 call.text }),
    fun stream kept => (stream, { kept with ts := if ctx.withTimestamp then call.now else [] }),
    fun stream kept =>
      (stream.fprintf (logLine ctx (clampLevel call.level) (call.plugin.getD []) kept) call.early,
        kept),
    fun stream kept => (stream.fflush, kept)]

/-- The guard of `hw_log_vwrite`. -/
def logSection (ctx : LogContext) (call : LogCall) : Section LogStream LogKept where
  mode := .exclusive
  parts := logParts ctx call
  reads shared := by cases shared

/-- `hw_log_vwrite` gets to its guard. -/
def passesLevel (ctx : LogContext) (call : LogCall) : Bool := ctx.level ≤ call.level

/-- The calls of the threads, without those whose level is too low. -/
def loggedCommands {τ : Type*} (ctx : LogContext) (commands : List (LockCommand τ LogCall)) :
    List (LockCommand τ LogCall) :=
  commands.filter fun command =>
    match command with
    | .lock _ call _ => passesLevel ctx call
    | _ => true

/-! ## Whole lines -/

/-- The lines of some calls. -/
def linesOf {τ : Type*} (ctx : LogContext) (calls : List (τ × LogCall)) : CString :=
  calls.flatMap fun entry => entry.2.line ctx

/-- A whole section adds its line. -/
theorem finish_logParts (ctx : LogContext) (call : LogCall) (stream : LogStream) (kept : LogKept) :
    (finish (logParts ctx call) stream kept).1 =
      ⟨stream.written ++ stream.buffered ++ call.line ctx, []⟩ := by
  show (stream.fprintf (call.line ctx) call.early).fflush = _
  unfold LogStream.fflush LogStream.fprintf
  rw [List.append_assoc, List.take_append_drop, List.append_assoc]

variable {τ : Type*} [DecidableEq τ]

/-- Whole sections add their lines. -/
theorem after_logSections (ctx : LogContext) {first : Whole τ LogStream LogKept}
    (flushed : first.data.buffered = []) (calls : List (τ × LogCall)) :
    (first.after (entriesOf (logSection ctx) calls)).data =
      ⟨first.data.written ++ linesOf ctx calls, []⟩ := by
  induction calls using List.reverseRecOn with
  | nil =>
    show first.data = _
    rw [linesOf, List.flatMap_nil, List.append_nil, ← flushed]
  | append_singleton front last ih =>
    rw [entriesOf, List.map_append, List.map_singleton, Whole.after_append]
    show (finish (logParts ctx last.2)
      (first.after (entriesOf (logSection ctx) front)).data _).1 = _
    rw [ih, finish_logParts, linesOf, linesOf, List.flatMap_append, List.flatMap_singleton]
    simp

/-- What is still to be run of a section does not take back what was written. -/
theorem finish_written {ctx : LogContext} {call : LogCall} {rest : List (Part LogStream LogKept)}
    (left : rest <:+ logParts ctx call) (stream : LogStream) (kept : LogKept) :
    stream.written <+: (finish rest stream kept).1.written := by
  have grows : ∀ part ∈ logParts ctx call, ∀ stream kept,
      stream.written <+: (part stream kept).1.written := by
    intro part listed stream kept
    simp only [logParts, List.mem_cons, List.not_mem_nil, or_false] at listed
    rcases listed with rfl | rfl | rfl | rfl
    · exact List.prefix_refl _
    · exact List.prefix_refl _
    · exact List.prefix_append _ _
    · exact List.prefix_append _ _
  have each : ∀ part ∈ rest, part ∈ logParts ctx call := fun part listed => left.mem listed
  clear left
  induction rest generalizing stream kept with
  | nil => exact List.prefix_refl _
  | cons part rest ih =>
    rw [finish_cons]
    apply (grows part (each part (.head _)) stream kept).trans
    exact ih _ _ fun later listed => each later (.tail _ listed)

/-- What the file of a log is, while the guards of some calls were entered. -/
structure LogFile (ctx : LogContext) (first : CString) (calls : List (τ × LogCall))
    (state : LockWorld τ LogStream LogKept) : Prop where
  /-- The levels of the calls are high enough. -/
  loud : ∀ entry ∈ calls, ctx.level ≤ entry.2.level
  /-- The sections are those of the calls. -/
  entered : state.world.entered = entriesOf (logSection ctx) calls
  /-- The file is the beginning of the lines. -/
  begins : state.world.data.written <+: first ++ linesOf ctx calls
  /-- It is all of them whenever no thread is inside. -/
  whole : state.world.Quiet →
    state.world.data.written = first ++ linesOf ctx calls ∧ state.world.data.buffered = []

/-- Two plugins that log at once to a file of warnings: the second one waits, and one message is
not loud enough. -/
def logCommands : List (LockCommand Bool LogCall) :=
  [.enableParallel, .lock true ⟨2, some (lit "NP"), lit "down", lit "12:00", 9⟩ ⟨0, 0⟩, .go true,
    .lock false ⟨7, none, lit "lost", lit "12:00", 0⟩ ⟨0, 0⟩, .go true, .go true,
    .lock false ⟨1, none, lit "quiet", lit "12:00", 0⟩ ⟨0, 0⟩, .go true, .unlock true,
    .lock false ⟨7, none, lit "lost", lit "12:00", 0⟩ ⟨0, 0⟩, .go false, .go false, .go false]

end HwrunOs.Bus
