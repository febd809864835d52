import HwrunOs.Hap.Util
import HwrunOs.Library.Scanf

/-!
# The release and the name of the system

`hap_system_probe` takes the text behind the third blank of `/proc/version` for the release, which
is the word behind it, and the first value of `PRETTY_NAME` that `hap_line_value` finds for the
name.
-/

namespace HwrunOs.Hap

open HwrunOs.Bytes

/-- `hap_system_info_t`. -/
structure SystemInfo where
  /-- `hostname`. -/
  hostname : Field 128
  /-- `kernel_release`. -/
  kernelRelease : Field 256
  /-- `kernel_version`. -/
  kernelVersion : Field 256
  /-- `machine`. -/
  machine : Field 64
  /-- `os_name`. -/
  osName : Field 256
  /-- `uptime_seconds`. -/
  uptimeSeconds : Nat

/-- The host name: the file, or a variable of the environment. -/
def hostName (files : Files) (getenv : CString → Option CString) : CString :=
  let named :=
    ((hapReadFile files (lit "/etc/hostname") 128).map (·.rdropWhile isSpace)).getD []
  if named = [] then
    ((getenv (lit "COMPUTERNAME")).orElse fun _ => getenv (lit "HOSTNAME")).getD []
  else named

/-- The uptime in seconds. -/
def uptimeOf (text : CString) : Nat :=
  match sscanf [.number] text with
  | [.number up] => up
  | _ => 0

/-- `sp = strchr(sp + 1, ' ')`, so many times: the text behind the last blank. -/
def behindBlank : Nat → CString → Option CString
  | 0, text => some text
  | count + 1, text =>
    match cutAt 32 text with
    | none => none
    | some (_, rest) => behindBlank count rest

/-- The word at the front of a text. -/
def frontWord (text : CString) : CString := text.takeWhile fun byte => !isSpace byte

/-- The release in the text of `/proc/version`. -/
def releaseOf (text : CString) : CString := ((behindBlank 3 text).map frontWord).getD []

/-- A double quote. -/
def quote : UInt8 := 34

/-- One pair of enclosing double quotes is removed. -/
def unquote (value : CString) : CString :=
  if 2 ≤ value.length ∧ value.head? = some quote ∧ value.getLast? = some quote then
    (value.drop 1).dropLast
  else value

/-- The key of the name. -/
def prettyName : CString := lit "PRETTY_NAME"

/-- The name in the text of `/etc/os-release`. -/
def osNameOf (text : CString) : CString :=
  ((hapLineValue text prettyName 256).map unquote).getD []

/-- `hap_system_probe`. -/
def hapSystemProbe (files : Files) (getenv : CString → Option CString) : SystemInfo :=
  let version := hapReadFile files (lit "/proc/version") 1024
  { hostname := Field.copy (hostName files getenv)
    kernelRelease := Field.copy ((version.map releaseOf).getD [])
    kernelVersion := Field.copy (version.getD [])
    machine := Field.copy []
    osName := Field.copy (((hapReadFile files (lit "/etc/os-release") 1024).map osNameOf).getD [])
    uptimeSeconds := ((hapReadFile files (lit "/proc/uptime") 1024).map uptimeOf).getD 0 }

/-! ## The texts -/

/-- `/proc/version`. -/
structure ProcVersion where
  /-- The release. -/
  release : CString
  /-- The release is one word. -/
  release_word : ∀ byte ∈ release, isSpace byte = false
  /-- The release fits its field. -/
  release_fits : release.length < 256
  /-- What follows. -/
  rest : CString

namespace ProcVersion

/-- The file. -/
def text (version : ProcVersion) : CString :=
  lit "Linux version " ++ version.release ++ 32 :: version.rest

/-- The file fits the buffer. -/
def Fits (version : ProcVersion) : Prop :=
  version.text.length < 1024 ∧ (0 : UInt8) ∉ version.text

end ProcVersion

/-- `/etc/os-release`. -/
structure OsRelease where
  /-- The lines in front of the name. -/
  before : List TextLine
  /-- The name is not assigned there. -/
  before_other : ∀ line ∈ before, ¬ prettyName ++ [61] <+: line.1
  /-- The value assigned to `PRETTY_NAME`. -/
  value : TextLine
  /-- The line end behind it and any other lines, or nothing. -/
  tail : CString
  /-- The value ends with its line. -/
  tail_start : ∀ byte ∈ tail.head?, byte = newline

namespace OsRelease

/-- The line of the name, and what follows. -/
def assignment (os : OsRelease) : CString := prettyName ++ 61 :: (os.value.1 ++ os.tail)

/-- The file. -/
def text (os : OsRelease) : CString := os.before.flatMap TextLine.ended ++ os.assignment

/-- The file and the value fit their buffers. -/
def Fits (os : OsRelease) : Prop :=
  os.value.1.length < 256 ∧ os.text.length < 1024 ∧ (0 : UInt8) ∉ os.text

end OsRelease

/-- What stands behind the first of some lines that starts with a key and a separator. -/
def shadowIn (key rest : CString) : List TextLine → Option CString
  | [] => none
  | line :: lines =>
    if keyed key line.1 then
      some (line.1.drop key.length ++ newline :: (lines.flatMap TextLine.ended ++ rest))
    else shadowIn key rest lines

namespace OsRelease

/-- What is read in place of the value: what stands behind `PRETTY_NAME` and a colon or blank on a
line in front of it, or what follows a value that consists of separators. -/
def elsewhere (os : OsRelease) : Option CString :=
  (shadowIn prettyName os.assignment os.before).orElse fun _ =>
    if os.value.1.all isSeparator then some os.tail else none

/-- The value neither starts with a separator nor ends with a blank. -/
def Tidy (os : OsRelease) : Prop :=
  (∀ byte ∈ os.value.1.head?, isSeparator byte = false) ∧
    ∀ byte ∈ os.value.1.getLast?, isSpace byte = false

/-- The value itself is read and is tidy, or what is read in its place is the same. -/
def Kept (os : OsRelease) : Prop :=
  os.elsewhere = none ∧ os.Tidy ∨
    ∃ text, os.elsewhere = some text ∧
      unquote (valueBehind 256 text) = unquote os.value.1

end OsRelease

/-- The probe reports the release, and the value without its quotes. -/
def SystemExact (files : Files) (getenv : CString → Option CString) (version : ProcVersion)
    (os : OsRelease) : Prop :=
  (hapSystemProbe files getenv).kernelRelease.1 = version.release ∧
    (hapSystemProbe files getenv).osName.1 = unquote os.value.1

/-! ## The release -/

/-- The word that is taken for the release is the one behind it. -/
theorem releaseOf_text (version : ProcVersion) :
    releaseOf version.text = frontWord version.rest := by
  have solid : (32 : UInt8) ∉ version.release := fun found => by
    cases version.release_word 32 found
  have shape : version.text = lit "Linux" ++ 32 :: (lit "version" ++ 32 ::
      (version.release ++ 32 :: version.rest)) := by
    rw [ProcVersion.text, List.append_assoc]
    rfl
  have first : (32 : UInt8) ∉ lit "Linux" := by decide
  have second : (32 : UInt8) ∉ lit "version" := by decide
  rw [releaseOf, shape, behindBlank, cutAt_append first]
  dsimp only
  rw [behindBlank, cutAt_append second]
  dsimp only
  rw [behindBlank, cutAt_append solid]
  rfl

/-! ## The name -/

/-- Removing quotes makes no text longer. -/
theorem unquote_length (value : CString) : (unquote value).length ≤ value.length := by
  unfold unquote
  split
  · rw [List.length_dropLast, List.length_drop]
    omega
  · exact Nat.le_refl _

/-- Where the value is found in the text. -/
theorem hapLineValue_text (os : OsRelease) :
    hapLineValue os.text prettyName 256 =
      some (valueBehind 256 ((shadowIn prettyName os.assignment os.before).getD
        (61 :: (os.value.1 ++ os.tail)))) := by
  have feed (rest : CString) : ∀ byte ∈ (newline :: rest).head?, byte = newline := by
    intro byte front
    exact (Option.some.inj front).symm
  have last : (lineStarts os.assignment).findSome? (lineValue prettyName 256) =
      some (valueBehind 256 (61 :: (os.value.1 ++ os.tail))) := by
    have plain : newline ∉ prettyName ++ 61 :: os.value.1 := by
      rw [List.mem_append, List.mem_cons, not_or, not_or]
      exact ⟨by decide, by decide, os.value.2⟩
    have found := lineValue_line prettyName 256 plain os.tail_start
    have named : keyed prettyName (prettyName ++ 61 :: os.value.1) = true := by
      rw [keyed, List.drop_left, Bool.and_eq_true, List.isPrefixOf_iff_prefix]
      exact ⟨List.prefix_append _ _, rfl⟩
    rw [if_pos named, List.drop_left, List.append_assoc, List.cons_append] at found
    have filled : os.assignment ≠ [] := by simp [OsRelease.assignment]
    rw [lineStarts, if_neg filled, List.findSome?_cons]
    rw [← OsRelease.assignment] at found
    rw [found]
  have all (lines : List TextLine) :
      (lineStarts (lines.flatMap TextLine.ended ++ os.assignment)).findSome?
          (lineValue prettyName 256) =
        some (valueBehind 256 ((shadowIn prettyName os.assignment lines).getD
          (61 :: (os.value.1 ++ os.tail)))) := by
    induction lines with
    | nil => exact last
    | cons line lines ih =>
      rw [List.flatMap_cons, TextLine.ended, List.append_assoc, List.append_assoc,
        List.singleton_append, lineStarts_line line.2, List.findSome?_cons,
        lineValue_line prettyName 256 line.2 (feed _), shadowIn]
      by_cases named : keyed prettyName line.1 = true
      · rw [if_pos named, if_pos named]
        rfl
      · rw [if_neg named, if_neg named]
        exact ih
  rw [hapLineValue, if_neg (by decide)]
  exact all os.before

/-- Trimming leaves a text as it is exactly when neither end is trimmed. -/
theorem trim_eq_iff {front back : UInt8 → Bool} {text : CString} :
    trim front back text = text ↔
      (∀ byte ∈ text.head?, front byte = false) ∧ ∀ byte ∈ text.getLast?, back byte = false := by
  have suffix : text.dropWhile front <:+ text := List.dropWhile_suffix front
  have inner : trim front back text <+: text.dropWhile front := List.rdropWhile_prefix back _
  constructor
  · intro same
    have long := inner.length_le
    rw [same] at long
    have whole : text.dropWhile front = text := suffix.eq_of_length_le long
    rw [trim, whole] at same
    constructor
    · intro byte first
      have stopped := List.head?_dropWhile_not front text
      rw [whole, first] at stopped
      simpa using stopped
    · intro byte last
      have filled : text ≠ [] := by
        rintro rfl
        cases last
      have kept := List.rdropWhile_eq_self_iff.mp same filled
      rw [List.getLast?_eq_some_getLast filled] at last
      rw [← Option.some.inj last]
      simpa using kept
  · rintro ⟨first, last⟩
    have whole : text.dropWhile front = text := by
      cases text with
      | nil => rfl
      | cons byte text => rw [List.dropWhile_cons_of_neg (by simp [first byte rfl])]
    rw [trim, whole, List.rdropWhile_eq_self_iff]
    intro filled
    rw [last _ (List.getLast?_eq_some_getLast filled)]
    exact Bool.false_ne_true

/-- The text behind a value is no part of it. -/
theorem lineOf_value {core tail : CString} (plain : newline ∉ core)
    (ends : ∀ byte ∈ tail.head?, byte = newline) : lineOf (core ++ tail) = core := by
  cases tail with
  | nil =>
    rw [List.append_nil]
    exact lineOf_last plain
  | cons byte tail =>
    obtain rfl := ends byte rfl
    exact lineOf_line plain tail

/-- What is read of a value that has something but separators. -/
theorem valueBehind_value (os : OsRelease) (fits : os.value.1.length < 256)
    (some_ : os.value.1.all isSeparator = false) :
    valueBehind 256 (61 :: (os.value.1 ++ os.tail)) = trim isSeparator isSpace os.value.1 := by
  have filled : (os.value.1.dropWhile isSeparator).isEmpty = false := by
    rw [← Bool.not_eq_true, List.isEmpty_iff, List.dropWhile_eq_nil_iff]
    intro all
    rw [List.all_eq_true.mpr all] at some_
    cases some_
  have core : (61 :: (os.value.1 ++ os.tail)).dropWhile isSeparator =
      os.value.1.dropWhile isSeparator ++ os.tail := by
    rw [List.dropWhile_cons_of_pos rfl, List.dropWhile_append, filled,
      if_neg Bool.false_ne_true]
  have suffix : os.value.1.dropWhile isSeparator <:+ os.value.1 := List.dropWhile_suffix _
  have plain : newline ∉ os.value.1.dropWhile isSeparator := fun found =>
    os.value.2 (suffix.subset found)
  have short := suffix.length_le
  rw [valueBehind, core, lineOf_value plain os.tail_start, List.take_of_length_le (by omega), trim]

/-- What is read of a value that consists of separators. -/
theorem valueBehind_separators (os : OsRelease) (all : os.value.1.all isSeparator = true) :
    valueBehind 256 (61 :: (os.value.1 ++ os.tail)) = valueBehind 256 os.tail := by
  have skipped : (61 :: (os.value.1 ++ os.tail)).dropWhile isSeparator =
      os.tail.dropWhile isSeparator := by
    rw [List.dropWhile_cons_of_pos rfl,
      List.dropWhile_append_of_pos (List.all_eq_true.mp all)]
  rw [valueBehind, valueBehind, skipped]

/-- A value that is trimmed has no enclosing quotes, and what is left is another text. -/
theorem unquote_trim_iff (value : CString) :
    unquote (trim isSeparator isSpace value) = unquote value ↔
      trim isSeparator isSpace value = value := by
  constructor
  · intro same
    by_contra trimmed
    have bare : unquote value = value := by
      rw [unquote, if_neg]
      rintro ⟨-, first, last⟩
      refine trimmed (trim_eq_iff.mpr ⟨?_, ?_⟩)
      · intro byte front
        rw [first, Option.mem_some_iff] at front
        rw [← front]
        rfl
      · intro byte back
        rw [last, Option.mem_some_iff] at back
        rw [← back]
        rfl
    have inside : trim isSeparator isSpace value <:+: value :=
      (List.rdropWhile_prefix _ _).isInfix.trans (List.dropWhile_suffix _).isInfix
    have shorter : (trim isSeparator isSpace value).length ≠ value.length := fun equal =>
      trimmed (inside.eq_of_length equal)
    have long := unquote_length (trim isSeparator isSpace value)
    have less := inside.length_le
    rw [same, bare] at long
    omega
  · intro same
    rw [same]

/-- The name is the value without its quotes exactly when the value is kept. -/
theorem osNameOf_iff (os : OsRelease) (fits : os.value.1.length < 256) :
    osNameOf os.text = unquote os.value.1 ↔ os.Kept := by
  rw [osNameOf, hapLineValue_text, Option.map_some, Option.getD_some, OsRelease.Kept,
    OsRelease.elsewhere]
  cases shadowIn prettyName os.assignment os.before with
  | some text => simp
  | none =>
    cases all : os.value.1.all isSeparator with
    | true =>
      rw [Option.getD_none, valueBehind_separators os all]
      simp
    | false =>
      rw [Option.getD_none, valueBehind_value os fits all, unquote_trim_iff, trim_eq_iff,
        ← OsRelease.Tidy]
      simp

/-- The release and the name are reported exactly when the word behind the release is the release
itself and the value is kept. -/
theorem systemExact_iff {files : Files} (getenv : CString → Option CString)
    {version : ProcVersion} {os : OsRelease} (versionFits : version.Fits) (osFits : os.Fits)
    (versionThere : files (lit "/proc/version") = some version.text)
    (osThere : files (lit "/etc/os-release") = some os.text) :
    SystemExact files getenv version os ↔
      (frontWord version.rest).take 255 = version.release ∧ os.Kept := by
  have versionFilled : version.text ≠ [] := by simp [ProcVersion.text]
  have osFilled : os.text ≠ [] := by simp [OsRelease.text, OsRelease.assignment]
  have versionRead := hapReadFile_whole versionThere versionFilled versionFits.1 versionFits.2
  have osRead := hapReadFile_whole osThere osFilled osFits.2.1 osFits.2.2
  have release : (hapSystemProbe files getenv).kernelRelease.1 =
      (frontWord version.rest).take 255 := by
    rw [hapSystemProbe, versionRead, ← releaseOf_text]
    rfl
  have name : (hapSystemProbe files getenv).osName.1 = osNameOf os.text := by
    have short : (osNameOf os.text).length < 256 := by
      rw [osNameOf, hapLineValue_text, Option.map_some, Option.getD_some]
      refine Nat.lt_of_le_of_lt (unquote_length _) ?_
      refine Nat.lt_of_le_of_lt (List.rdropWhile_prefix _ _).length_le ?_
      rw [List.length_take]
      omega
    rw [hapSystemProbe, osRead]
    exact snprintf_eq short
  rw [SystemExact, release, name, osNameOf_iff os osFits.1]

/-! ## A distribution -/

/-- The version of a kernel. -/
def archVersion : ProcVersion where
  release := lit "6.1.31-arch1-1"
  release_word := by decide +kernel
  release_fits := by decide
  rest := lit "(gcc 13.1.1) #1 SMP"

/-- The name of a distribution. -/
def archRelease : OsRelease where
  before := [⟨lit "NAME=\"Arch Linux\"", by decide +kernel⟩]
  before_other := by decide +kernel
  value := ⟨lit "\"Arch Linux\"", by decide +kernel⟩
  tail := lit "\nID=arch\n"
  tail_start := by decide +kernel

/-- A system with these files. -/
def archFiles : Files := fun path =>
  if path = lit "/proc/version" then some archVersion.text
  else if path = lit "/etc/os-release" then some archRelease.text
  else none

/-- The release is reported as the word behind it. -/
theorem release_misplaced :
    (hapSystemProbe archFiles fun _ => none).kernelRelease.1 = lit "(gcc" ∧
      ¬ SystemExact archFiles (fun _ => none) archVersion archRelease := by
  have read : (hapSystemProbe archFiles fun _ => none).kernelRelease.1 = lit "(gcc" := by
    decide +kernel
  refine ⟨read, ?_⟩
  rintro ⟨release, -⟩
  rw [read] at release
  exact absurd release (by decide)

/-- The condition there. -/
theorem systemExact_arch :
    SystemExact archFiles (fun _ => none) archVersion archRelease ↔
      (frontWord archVersion.rest).take 255 = archVersion.release ∧ archRelease.Kept :=
  systemExact_iff (fun _ => none) ⟨by decide +kernel, by decide +kernel⟩
    ⟨by decide +kernel, by decide +kernel, by decide +kernel⟩ (if_pos rfl)
    ((if_neg (by decide)).trans (if_pos rfl))

end HwrunOs.Hap
