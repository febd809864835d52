import HwrunOs.Fsp.MountNames
import HwrunOs.Fsp.Path
import HwrunOs.Library.Lines
import HwrunOs.Library.Numbers
import HwrunOs.Library.Words

/-!
# The mount table

`fsp_mount_list` of `fsp/src/fsp_mount.c` reads `/proc/mounts` into a buffer of 1024 bytes and takes
six words of whatever is in it. A longer line is read in pieces, of which at most one has six words.
-/

namespace HwrunOs.Fsp

open HwrunOs.Bytes HwrunOs.Words

/-- `fsp_mountinfo_t`. -/
structure MountInfo where
  /-- `device`. -/
  device : Field 256
  /-- `mountpoint`. -/
  mountpoint : Field 256
  /-- `fstype`. -/
  fstype : Field 64
  /-- `options`. -/
  options : Field 256
  /-- `freq`. -/
  freq : Nat
  /-- `passno`. -/
  passno : Nat
  deriving DecidableEq

/-- The bytes between the words of `strtok`. -/
def isGap (byte : UInt8) : Bool := byte == 32 || byte == 9 || byte == 10

/-- `(unsigned)strtoul(text, NULL, 10)`. -/
def scanUnsigned (text : CString) : Nat := (strtoull text).1 % 2 ^ 32

/-- The record of a line; `none` where the loop goes on with the next one. -/
def mountRecord (line : CString) : Option MountInfo :=
  match words isGap line with
  | device :: mountpoint :: fstype :: options :: freq :: passno :: _ =>
    some
      { device := Field.copy (unescape 255 device)
        mountpoint := Field.copy (unescape 255 mountpoint)
        fstype := Field.copy fstype
        options := Field.copy options
        freq := scanUnsigned freq
        passno := scanUnsigned passno }
  | _ => none

/-- `fsp_mount_list`: the records that are stored, or the negative error. The table is the text of
`/proc/mounts` or the error of `fopen`. -/
def fspMountList (table : Except Int CString) (max : Int) : Except Int (List MountInfo) :=
  if max ≤ 0 then .error einval
  else
    match table with
    | .error errno => .error (-errno)
    | .ok text => .ok (((fgetsLines 1024 text).filterMap mountRecord).take max.toNat)

/-! ## What the kernel prints -/

/-- A word of the table: no blanks. -/
abbrev MountWord := { word : CString // word ≠ [] ∧ ∀ byte ∈ word, isGap byte = false }

/-- A mount. -/
structure MountEntry where
  /-- The device. -/
  device : CString
  /-- The device has a name. -/
  device_filled : device ≠ []
  /-- The mount point. -/
  mountpoint : CString
  /-- The mount point has a name. -/
  mountpoint_filled : mountpoint ≠ []
  /-- The type. -/
  fstype : MountWord
  /-- The options. -/
  options : MountWord
  /-- `freq`. -/
  freq : UInt32
  /-- `passno`. -/
  passno : UInt32

namespace MountEntry

/-- What stands on the line behind the device. -/
def details (entry : MountEntry) : CString :=
  mangle entry.mountpoint ++ 32 :: (entry.fstype.1 ++ 32 :: (entry.options.1 ++ 32 ::
    (decimal entry.freq.toNat ++ 32 :: decimal entry.passno.toNat)))

/-- The line of a mount. -/
def line (entry : MountEntry) : CString := mangle entry.device ++ 32 :: entry.details

/-- The record asked for. -/
def wanted (entry : MountEntry) : MountInfo where
  device := Field.copy entry.device
  mountpoint := Field.copy entry.mountpoint
  fstype := Field.copy entry.fstype.1
  options := Field.copy entry.options.1
  freq := entry.freq.toNat
  passno := entry.passno.toNat

end MountEntry

/-- `/proc/mounts`. -/
def mountsText (entries : List MountEntry) : CString :=
  entries.flatMap fun entry => entry.line ++ [newline]

/-- The list holds the first `max` mounts. -/
def MountsExact (entries : List MountEntry) (max : Int) : Prop :=
  fspMountList (.ok (mountsText entries)) max =
    .ok ((entries.map MountEntry.wanted).take max.toNat)

/-! ## The words of a line -/

/-- Gaps are blanks, tabs and line feeds. -/
theorem isGap_iff (byte : UInt8) : isGap byte = true ↔ byte = 32 ∨ byte = 9 ∨ byte = 10 := by
  simp [isGap, or_assoc]

/-- A printed byte has no gap. -/
theorem mangleByte_solid (byte : UInt8) : ∀ part ∈ mangleByte byte, isGap part = false := by
  unfold mangleByte
  split
  · decide +kernel
  split
  · decide +kernel
  split
  · decide +kernel
  split
  · decide +kernel
  · rename_i blank tab feed _
    intro part found
    rw [List.mem_singleton.mp found, ← Bool.not_eq_true, isGap_iff]
    simp [blank, tab, feed]

/-- A printed name has no gap. -/
theorem mangle_solid (name : CString) : ∀ byte ∈ mangle name, isGap byte = false := by
  intro byte found
  obtain ⟨part, -, inside⟩ := List.mem_flatMap.mp found
  exact mangleByte_solid part byte inside

/-- A printed name is not empty. -/
theorem mangle_ne_nil {name : CString} (filled : name ≠ []) : mangle name ≠ [] := by
  obtain ⟨byte, rest, rfl⟩ := List.exists_cons_of_ne_nil filled
  have some_ : mangleByte byte ≠ [] := by
    unfold mangleByte
    split
    · decide
    split
    · decide
    split
    · decide
    split
    · decide
    · exact List.cons_ne_nil _ _
  rw [mangle, List.flatMap_cons]
  exact List.append_ne_nil_of_left_ne_nil some_ _

/-- A digit is no gap. -/
theorem digit_solid {byte : UInt8} (digit : isDigit byte = true) : isGap byte = false := by
  rw [← Bool.not_eq_true, isGap_iff]
  rintro (rfl | rfl | rfl) <;> cases digit

/-- A word without gaps has no line feed. -/
theorem solid_plain {word : CString} (solid : ∀ byte ∈ word, isGap byte = false) :
    newline ∉ word := fun found => by cases solid newline found

/-- A word without gaps has none to count. -/
theorem solid_count {word : CString} (solid : ∀ byte ∈ word, isGap byte = false) :
    word.countP isGap = 0 := by
  rw [List.countP_eq_zero]
  intro byte found
  rw [solid byte found]
  exact Bool.false_ne_true

/-- The line of a mount up to its last word. -/
def MountEntry.front (entry : MountEntry) (device : CString) : CString :=
  device ++ 32 :: (mangle entry.mountpoint ++ 32 :: (entry.fstype.1 ++ 32 :: (entry.options.1 ++
    32 :: decimal entry.freq.toNat)))

/-- The line with another word for the device. -/
theorem MountEntry.front_details (entry : MountEntry) (device : CString) :
    device ++ 32 :: entry.details =
      entry.front device ++ 32 :: decimal entry.passno.toNat := by
  simp [details, front]

/-- The record of a line, with other words for its device and its last number. -/
def MountEntry.record (entry : MountEntry) (device last : CString) : MountInfo where
  device := Field.copy (unescape 255 device)
  mountpoint := Field.copy (unescape 255 (mangle entry.mountpoint))
  fstype := Field.copy entry.fstype.1
  options := Field.copy entry.options.1
  freq := scanUnsigned (decimal entry.freq.toNat)
  passno := scanUnsigned last

/-- The six words of a line make its record. -/
theorem mountRecord_front (entry : MountEntry) {device last : CString} (filled : device ≠ [])
    (solid : ∀ byte ∈ device, isGap byte = false) (some_ : last ≠ [])
    (digits : ∀ byte ∈ last, isDigit byte = true) :
    mountRecord (entry.front device ++ 32 :: last) = some (entry.record device last) := by
  have numbers : ∀ byte ∈ decimal entry.freq.toNat, isGap byte = false := fun byte found =>
    digit_solid (decimal_digits _ byte found)
  have shape : entry.front device ++ 32 :: last = device ++ 32 :: (mangle entry.mountpoint ++ 32 ::
      (entry.fstype.1 ++ 32 :: (entry.options.1 ++ 32 :: (decimal entry.freq.toNat ++
        32 :: last)))) := by
    simp [MountEntry.front]
  have six : words isGap (entry.front device ++ 32 :: last) =
      [device, mangle entry.mountpoint, entry.fstype.1, entry.options.1,
        decimal entry.freq.toNat, last] := by
    rw [shape, words_cons solid filled rfl,
      words_cons (mangle_solid _) (mangle_ne_nil entry.mountpoint_filled) rfl,
      words_cons entry.fstype.2.2 entry.fstype.2.1 rfl,
      words_cons entry.options.2.2 entry.options.2.1 rfl,
      words_cons numbers (decimal_ne_nil _) rfl,
      words_single (fun byte found => digit_solid (digits byte found)) some_]
  rw [mountRecord, six]
  rfl

/-- Fewer than six words make no record. -/
theorem mountRecord_few {line : CString} (few : (words isGap line).length < 6) :
    mountRecord line = none := by
  unfold mountRecord
  split
  · rename_i shape
    rw [shape] at few
    simp only [List.length_cons] at few
    omega
  · rfl

/-- The line feed behind a line means nothing. -/
theorem mountRecord_feed (line : CString) :
    mountRecord (line ++ [newline]) = mountRecord line := by
  unfold mountRecord
  rw [words_snoc rfl]

/-- A number of 32 bits is read as it is. -/
theorem scanUnsigned_digits {digits : CString} (filled : digits ≠ [])
    (numerals : ∀ byte ∈ digits, isDigit byte = true) (bound : digitsValue digits < 2 ^ 32) :
    scanUnsigned digits = digitsValue digits := by
  have small : digitsValue digits < 2 ^ 64 := by omega
  rw [scanUnsigned, strtoull_digits filled numerals small]
  exact Nat.mod_eq_of_lt bound

/-! ## The pieces of a line -/

/-- The records that the pieces of a line make. -/
def recordsOf (line : CString) : List MountInfo :=
  (fgetsLines 1024 (line ++ [newline])).filterMap mountRecord

/-- A line that fits the buffer makes its own record. -/
theorem recordsOf_short {line : CString} (plain : newline ∉ line) (short : line.length ≤ 1023) :
    recordsOf line = (mountRecord line).toList := by
  by_cases fits : line.length + 1 < 1024
  · rw [recordsOf, fgetsLines_line line [] plain fits, List.filterMap_cons, mountRecord_feed]
    cases mountRecord line with
    | none => rfl
    | some record => rfl
  · have full : line.length = 1023 := by omega
    rw [recordsOf, fgetsLines_long plain (by decide) (by omega), List.take_of_length_le (by omega),
      List.drop_eq_nil_of_le (by omega), List.filterMap_cons]
    cases mountRecord line with
    | none => rfl
    | some record => rfl

/-- A longer line is read in pieces. -/
theorem recordsOf_long {line : CString} (plain : newline ∉ line) (long : 1023 < line.length) :
    recordsOf line = (mountRecord (line.take 1023)).toList ++ recordsOf (line.drop 1023) := by
  rw [recordsOf, fgetsLines_long plain (by decide) (by omega), List.filterMap_cons, recordsOf]
  cases mountRecord (line.take 1023) with
  | none => rfl
  | some record => rfl

/-- A text with at most four gaps behind its first word makes no record. -/
theorem recordsOf_few {line : CString} (plain : newline ∉ line)
    (few : (line.dropWhile isGap).countP isGap ≤ 4) : recordsOf line = [] := by
  have none {text : CString} (few : (text.dropWhile isGap).countP isGap ≤ 4) :
      mountRecord text = none := by
    apply mountRecord_few
    have bound : (words isGap (text.dropWhile isGap)).length ≤
        (text.dropWhile isGap).countP isGap + 1 := words_length_le _
    rw [words_dropWhile] at bound
    omega
  induction length : line.length using Nat.strong_induction_on generalizing line with
  | _ length ih =>
    by_cases short : line.length ≤ 1023
    · rw [recordsOf_short plain short, none few]
      rfl
    · have front : ((line.take 1023).dropWhile isGap).countP isGap ≤ 4 :=
        Nat.le_trans (countP_dropWhile_take 1023 line) few
      have back : ((line.drop 1023).dropWhile isGap).countP isGap ≤ 4 :=
        Nat.le_trans (countP_dropWhile_drop 1023 line) few
      have clean : newline ∉ line.drop 1023 := fun found => plain (List.mem_of_mem_drop found)
      rw [recordsOf_long plain (by omega), none front,
        ih _ (by rw [List.length_drop]; omega) clean back rfl]
      rfl

/-! ## One mount -/

namespace MountEntry

/-- Where the last piece of the line starts. -/
def lastStart (entry : MountEntry) : Nat := 1023 * ((entry.line.length - 1) / 1023)

/-- The name of the device is read back: the line is read at once, or its last piece starts within
the device and what is left of it begins as the device does. -/
def DeviceKept (entry : MountEntry) : Prop :=
  entry.line.length ≤ 1023 ∧ NameKept 255 entry.device ∨
    1023 < entry.line.length ∧ entry.lastStart < (mangle entry.device).length ∧
      unescape 255 ((mangle entry.device).drop entry.lastStart) = entry.device.take 255

/-- The mount is listed as it is. -/
def Kept (entry : MountEntry) : Prop := entry.DeviceKept ∧ NameKept 255 entry.mountpoint

/-- The last number of a line, or what is left of it, consists of digits. -/
theorem passno_digits (entry : MountEntry) (count : Nat) :
    ∀ byte ∈ (decimal entry.passno.toNat).take count, isDigit byte = true := fun byte found =>
  decimal_digits _ byte (List.mem_of_mem_take found)

/-- A line in front of its last number has four gaps. -/
theorem front_count (entry : MountEntry) {device : CString}
    (solid : ∀ byte ∈ device, isGap byte = false) : (entry.front device).countP isGap = 4 := by
  have numbers : ∀ byte ∈ decimal entry.freq.toNat, isGap byte = false := fun byte found =>
    digit_solid (decimal_digits _ byte found)
  have gap : isGap 32 = true := rfl
  simp only [front, List.countP_append, List.countP_cons, gap, if_true, solid_count solid,
    solid_count (mangle_solid _), solid_count entry.fstype.2.2, solid_count entry.options.2.2,
    solid_count numbers]

/-- A line is plain. -/
theorem line_plain (entry : MountEntry) {device : CString}
    (solid : ∀ byte ∈ device, isGap byte = false) : newline ∉ device ++ 32 :: entry.details := by
  have numbers (value : Nat) : newline ∉ decimal value := decimal_notMem rfl value
  have blank : newline ≠ 32 := by decide
  simp only [details, List.mem_append, List.mem_cons, not_or]
  exact ⟨solid_plain solid, blank, solid_plain (mangle_solid _), blank,
    solid_plain entry.fstype.2.2, blank, solid_plain entry.options.2.2, blank, numbers _, blank,
    numbers _⟩

/-- The record of the whole line is the one asked for exactly when both names are read back. -/
theorem record_wanted_iff (entry : MountEntry) (device : CString) :
    entry.record device (decimal entry.passno.toNat) = entry.wanted ↔
      unescape 255 device = entry.device.take 255 ∧ NameKept 255 entry.mountpoint := by
  have number (value : UInt32) : scanUnsigned (decimal value.toNat) = value.toNat := by
    have bound : digitsValue (decimal value.toNat) < 2 ^ 32 := by
      rw [digitsValue_decimal]
      exact value.toNat_lt
    rw [scanUnsigned_digits (decimal_ne_nil _) (decimal_digits _) bound, digitsValue_decimal]
  have copied (text name : CString) (short : text.length ≤ 255) :
      (Field.copy text : Field 256) = Field.copy name ↔ text = name.take 255 := by
    rw [← Subtype.val_inj]
    show text.take 255 = name.take 255 ↔ _
    rw [List.take_of_length_le short]
  rw [record, wanted, MountInfo.mk.injEq, copied _ _ (unescape_length _ _),
    copied _ _ (unescape_length _ _), unescape_mangle, readBack_iff, number, number]
  simp

/-- Nothing is made of what follows the device. -/
theorem recordsOf_behind (entry : MountEntry) {device : CString}
    (solid : ∀ byte ∈ device, isGap byte = false) (short : device.length ≤ 1023) :
    recordsOf ((device ++ 32 :: entry.details).drop 1023) = [] := by
  have plain := entry.line_plain solid
  have four : entry.details.countP isGap = 4 := by
    have digits : ∀ byte ∈ decimal entry.passno.toNat, isGap byte = false := fun byte found =>
      digit_solid (decimal_digits _ byte found)
    have whole := congrArg (List.countP isGap) (entry.front_details device)
    have gap : isGap 32 = true := rfl
    simp only [List.countP_append, List.countP_cons, gap, if_true, solid_count solid,
      solid_count digits, entry.front_count solid] at whole
    omega
  have behind : (device ++ 32 :: entry.details).drop 1023 =
      (32 :: entry.details).drop (1023 - device.length) := by
    rw [List.drop_append, List.drop_eq_nil_of_le short, List.nil_append]
  apply recordsOf_few fun found => plain (List.mem_of_mem_drop found)
  rw [behind]
  refine Nat.le_trans (countP_dropWhile_drop _ _) ?_
  rw [List.dropWhile_cons_of_pos rfl, ← four]
  exact (List.dropWhile_suffix isGap).sublist.countP_le

/-- A line that is cut behind its device makes at most one record, and that is another one. -/
theorem recordsOf_cut (entry : MountEntry) {device : CString} (filled : device ≠ [])
    (solid : ∀ byte ∈ device, isGap byte = false) (short : device.length ≤ 1023)
    (long : 1023 < (device ++ 32 :: entry.details).length) :
    (recordsOf (device ++ 32 :: entry.details)).length ≤ 1 ∧
      recordsOf (device ++ 32 :: entry.details) ≠ [entry.wanted] := by
  have whole : recordsOf (device ++ 32 :: entry.details) =
      (mountRecord ((device ++ 32 :: entry.details).take 1023)).toList := by
    rw [recordsOf_long (entry.line_plain solid) long, entry.recordsOf_behind solid short,
      List.append_nil]
  rw [whole]
  constructor
  · exact Option.length_toList_le
  intro same
  have record : mountRecord ((device ++ 32 :: entry.details).take 1023) = some entry.wanted :=
    Option.toList_eq_singleton_iff.mp same
  rw [entry.front_details] at record long
  have few {text : CString} (inside : text.countP isGap ≤ 4) : (words isGap text).length < 6 := by
    have bound : (words isGap text).length ≤ text.countP isGap + 1 := words_length_le _
    omega
  have front : (entry.front device).countP isGap = 4 := entry.front_count solid
  by_cases inside : 1023 ≤ (entry.front device).length
  · have cut : ((entry.front device).take 1023).countP isGap ≤ 4 := by
      rw [← front]
      exact (List.take_sublist 1023 _).countP_le
    rw [List.take_append_of_le_length inside, mountRecord_few (few cut)] at record
    cases record
  obtain ⟨left, more⟩ : ∃ left, 1023 - (entry.front device).length = left + 1 :=
    ⟨1022 - (entry.front device).length, by omega⟩
  have piece : (entry.front device ++ 32 :: decimal entry.passno.toNat).take 1023 =
      entry.front device ++ 32 :: (decimal entry.passno.toNat).take left := by
    rw [List.take_append, List.take_of_length_le (by omega), more, List.take_succ_cons]
  rw [List.length_append, List.length_cons] at long
  rw [piece] at record
  by_cases none : left = 0
  · rw [none, List.take_zero, mountRecord_few] at record
    · cases record
    · rw [words_snoc rfl]
      exact few (Nat.le_of_eq front)
  · have cut : left < (decimal entry.passno.toNat).length := by omega
    have less := digitsValue_take_lt (Nat.pos_of_ne_zero none) cut
    have some_ : (decimal entry.passno.toNat).take left ≠ [] := by
      apply List.ne_nil_of_length_pos
      rw [List.length_take]
      omega
    have small := entry.passno.toNat_lt
    rw [mountRecord_front entry filled solid some_ (entry.passno_digits left)] at record
    have number := congrArg MountInfo.passno (Option.some.inj record)
    have read : scanUnsigned ((decimal entry.passno.toNat).take left) = entry.passno.toNat := number
    rw [scanUnsigned_digits some_ (entry.passno_digits left) (by omega)] at read
    omega

/-- What the pieces of a line make of a mount whose device is the rest of another one. -/
theorem recordsOf_device (entry : MountEntry) {device : CString} (filled : device ≠ [])
    (solid : ∀ byte ∈ device, isGap byte = false) {start : Nat}
    (last : start = 1023 * (((device ++ 32 :: entry.details).length - 1) / 1023)) :
    (recordsOf (device ++ 32 :: entry.details)).length ≤ 1 ∧
      (recordsOf (device ++ 32 :: entry.details) = [entry.wanted] ↔
        start < device.length ∧
          unescape 255 (device.drop start) = entry.device.take 255 ∧
            NameKept 255 entry.mountpoint) := by
  induction length : device.length using Nat.strong_induction_on generalizing device start with
  | _ length ih =>
    have bytes := List.length_pos_of_ne_nil filled
    have plain := entry.line_plain solid
    by_cases short : (device ++ 32 :: entry.details).length ≤ 1023
    · have zero : start = 0 := by omega
      have made : recordsOf (device ++ 32 :: entry.details) =
          [entry.record device (decimal entry.passno.toNat)] := by
        rw [recordsOf_short plain short, entry.front_details,
          mountRecord_front entry filled solid (decimal_ne_nil _) (decimal_digits _)]
        rfl
      rw [made, zero, List.drop_zero, List.cons.injEq, record_wanted_iff]
      simp only [List.length_singleton, Nat.le_refl, and_true, true_and]
      constructor
      · intro both
        exact ⟨by omega, both⟩
      · intro both
        exact both.2
    have far : 1023 ≤ start := by
      have one : 1 ≤ ((device ++ 32 :: entry.details).length - 1) / 1023 :=
        (Nat.le_div_iff_mul_le (by decide)).mpr (by omega)
      omega
    by_cases near : device.length ≤ 1023
    · obtain ⟨few, other⟩ := entry.recordsOf_cut filled solid near (Nat.lt_of_not_le short)
      refine ⟨few, fun same => absurd same other, ?_⟩
      rintro ⟨inside, -⟩
      omega
    · have rest : device.drop 1023 ≠ [] := by
        apply List.ne_nil_of_length_pos
        rw [List.length_drop]
        omega
      have clean : ∀ byte ∈ device.drop 1023, isGap byte = false := fun byte found =>
        solid byte (List.mem_of_mem_drop found)
      have front : ∀ byte ∈ device.take 1023, isGap byte = false := fun byte found =>
        solid byte (List.mem_of_mem_take found)
      have none : mountRecord (device.take 1023) = none := by
        apply mountRecord_few
        have bound : (words isGap (device.take 1023)).length ≤
          (device.take 1023).countP isGap + 1 := words_length_le _
        rw [solid_count front] at bound
        omega
      have split : recordsOf (device ++ 32 :: entry.details) =
          recordsOf (device.drop 1023 ++ 32 :: entry.details) := by
        rw [recordsOf_long plain (Nat.lt_of_not_le short),
          List.take_append_of_le_length (by omega), none,
          List.drop_append_of_le_length (by omega)]
        rfl
      have next : start - 1023 =
          1023 * (((device.drop 1023 ++ 32 :: entry.details).length - 1) / 1023) := by
        have less : (device.drop 1023 ++ 32 :: entry.details).length =
            (device ++ 32 :: entry.details).length - 1023 := by
          rw [List.length_append, List.length_append, List.length_drop]
          omega
        rw [less]
        omega
      obtain ⟨few, kept⟩ := ih _ (by rw [List.length_drop]; omega) rest clean next rfl
      rw [split]
      refine ⟨few, kept.trans ?_⟩
      rw [List.drop_drop, List.length_drop]
      have whole : 1023 + (start - 1023) = start := by omega
      rw [whole]
      constructor
      · rintro ⟨inside, names⟩
        exact ⟨by omega, names⟩
      · rintro ⟨inside, names⟩
        exact ⟨by omega, names⟩

/-- A mount makes at most one record, and it is the one asked for exactly when it is kept. -/
theorem recordsOf_line (entry : MountEntry) :
    (recordsOf entry.line).length ≤ 1 ∧ (recordsOf entry.line = [entry.wanted] ↔ entry.Kept) := by
  obtain ⟨few, exact_⟩ := entry.recordsOf_device (mangle_ne_nil entry.device_filled)
    (mangle_solid entry.device) rfl
  refine ⟨few, exact_.trans ?_⟩
  show entry.lastStart < _ ∧ unescape 255 ((mangle entry.device).drop entry.lastStart) = _ ∧ _ ↔ _
  have bytes := List.length_pos_of_ne_nil (mangle_ne_nil entry.device_filled)
  rw [Kept, DeviceKept]
  by_cases short : entry.line.length ≤ 1023
  · have zero : entry.lastStart = 0 := by
      have none : (entry.line.length - 1) / 1023 = 0 := Nat.div_eq_of_lt (by omega)
      rw [lastStart, none]
    have same : unescape 255 (mangle entry.device) = entry.device.take 255 ↔
        NameKept 255 entry.device := by
      rw [unescape_mangle, readBack_iff]
    rw [zero, List.drop_zero, same]
    constructor
    · rintro ⟨-, device, mountpoint⟩
      exact ⟨.inl ⟨short, device⟩, mountpoint⟩
    · rintro ⟨⟨-, device⟩ | ⟨long, -⟩, mountpoint⟩
      · exact ⟨bytes, device, mountpoint⟩
      · omega
  · have long := Nat.lt_of_not_le short
    constructor
    · rintro ⟨inside, device, mountpoint⟩
      exact ⟨.inr ⟨long, inside, device⟩, mountpoint⟩
    · rintro ⟨⟨fits, -⟩ | ⟨-, inside, device⟩, mountpoint⟩
      · exact absurd fits short
      · exact ⟨inside, device, mountpoint⟩

end MountEntry

/-! ## The whole table -/

/-- The records of a table are those of its lines. -/
theorem records_table (entries : List MountEntry) :
    (fgetsLines 1024 (mountsText entries)).filterMap mountRecord =
      entries.flatMap fun entry => recordsOf entry.line := by
  induction entries with
  | nil => rfl
  | cons entry entries ih =>
    have text : mountsText (entry :: entries) = entry.line ++ newline :: mountsText entries := by
      simp [mountsText]
    rw [text, fgetsLines, fgetsFrom_append, List.filterMap_append, ih, List.flatMap_cons]
    rfl

/-- What is returned for a table. -/
theorem fspMountList_table (entries : List MountEntry) {max : Int} (some_ : 0 < max) :
    fspMountList (.ok (mountsText entries)) max =
      .ok ((entries.flatMap fun entry => recordsOf entry.line).take max.toNat) := by
  rw [fspMountList, if_neg (by omega), records_table]

/-- The first mounts are listed as they are when they are kept. -/
theorem mountsExact_of_kept {entries : List MountEntry} {max : Int} (some_ : 0 < max)
    (kept : ∀ entry ∈ entries.take max.toNat, entry.Kept) : MountsExact entries max := by
  have front (entries : List MountEntry) (count : Nat)
      (kept : ∀ entry ∈ entries.take count, entry.Kept) :
      (entries.flatMap fun entry => recordsOf entry.line).take count =
        (entries.map MountEntry.wanted).take count := by
    induction entries generalizing count with
    | nil => rfl
    | cons entry entries ih =>
      cases count with
      | zero => rfl
      | succ count =>
        rw [List.take_succ_cons] at kept
        have first := entry.recordsOf_line.2.mpr (kept entry List.mem_cons_self)
        have rest := ih count fun other found => kept other (List.mem_cons_of_mem _ found)
        rw [List.flatMap_cons, first, List.singleton_append, List.take_succ_cons, rest,
          List.map_cons, List.take_succ_cons]
  rw [MountsExact, fspMountList_table entries some_, front entries _ kept]

/-- Every list of the first mounts is right exactly when every mount is kept. -/
theorem mountsExact_iff (entries : List MountEntry) :
    (∀ max, 0 < max → MountsExact entries max) ↔ ∀ entry ∈ entries, entry.Kept := by
  constructor
  · intro exact_
    have all : (entries.flatMap fun entry => recordsOf entry.line) =
        entries.map MountEntry.wanted := by
      have large : (0 : Int) < ((entries.flatMap fun entry => recordsOf entry.line).length +
          entries.length + 1 : Nat) := by omega
      have whole := exact_ _ large
      rw [MountsExact, fspMountList_table entries large, Except.ok.injEq, Int.toNat_natCast,
        List.take_of_length_le (by omega),
        List.take_of_length_le (by rw [List.length_map]; omega)] at whole
      exact whole
    have few (entries : List MountEntry) :
        (entries.flatMap fun entry => recordsOf entry.line).length ≤ entries.length := by
      induction entries with
      | nil => exact Nat.le_refl _
      | cons entry entries ih =>
        have one := entry.recordsOf_line.1
        rw [List.flatMap_cons, List.length_append, List.length_cons]
        omega
    clear exact_
    induction entries with
    | nil => simp
    | cons entry entries ih =>
      obtain ⟨one, kept⟩ := entry.recordsOf_line
      rw [List.flatMap_cons, List.map_cons] at all
      have lengths := congrArg List.length all
      rw [List.length_append, List.length_cons, List.length_map] at lengths
      have others := few entries
      have single : (recordsOf entry.line).length = 1 := by omega
      obtain ⟨record, made⟩ := List.length_eq_one_iff.mp single
      rw [made, List.singleton_append] at all
      obtain ⟨rfl, rest⟩ := List.cons.inj all
      intro other found
      rcases List.mem_cons.mp found with rfl | inside
      · exact kept.mp made
      · exact ih rest other inside
  · intro kept max some_
    exact mountsExact_of_kept some_ fun entry found => kept entry (List.mem_of_mem_take found)

/-! ## A tab in a name -/

/-- A mount whose mount point has a tab in its name. -/
def tabMount : MountEntry where
  device := lit "/dev/sda1"
  device_filled := by decide
  mountpoint := lit "/mnt/a\tb"
  mountpoint_filled := by decide
  fstype := ⟨lit "ext4", by decide +kernel⟩
  options := ⟨lit "rw,relatime", by decide +kernel⟩
  freq := 0
  passno := 0

/-- The mount point is listed as the kernel prints it. -/
theorem tab_left_escaped : ¬ MountsExact [tabMount] 1 := by
  have read : (fgetsLines 1024 (mountsText [tabMount])).filterMap mountRecord =
      [{ tabMount.wanted with mountpoint := Field.copy (lit "/mnt/a\\011b") }] := by
    decide +kernel
  intro exact_
  rw [MountsExact, fspMountList, if_neg (by decide), Except.ok.injEq, read] at exact_
  have names := congrArg MountInfo.mountpoint (List.cons.inj exact_).1
  exact absurd names (by decide +kernel)

end HwrunOs.Fsp
