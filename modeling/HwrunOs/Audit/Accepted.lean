import HwrunOs.Audit.Event
import Mathlib.Data.List.Forall2

/-!
# The lines that are accepted

`esc_field` takes the bytes up to a separator or up to the end and does not say which, and
`parse_event` looks at the position after the seventh field only. A line that stops after its
result is therefore read as one with an empty detail, and one more separator at the end is not
seen.
-/

namespace HwrunOs.Audit

open HwrunOs.Bytes

/-! ## Well-formed lines -/

/-- One more byte in front of the first field. -/
def prepend (byte : UInt8) : List CString → List CString
  | [] => [[byte]]
  | field :: others => (byte :: field) :: others

/-- The fields of a text: what stands between separators that are not escaped, with the escapes
decoded; nothing with an escape that is not one. -/
def decodeFields : CString → Option (List CString)
  | [] => some [[]]
  | [byte] =>
    if byte = bar then some [[], []]
    else if byte = backslash then none
    else some [[byte]]
  | byte :: next :: rest =>
    if byte = bar then (decodeFields (next :: rest)).map ([] :: ·)
    else if byte = backslash then
      match unescape next with
      | none => none
      | some plain => (decodeFields rest).map (prepend plain)
    else (decodeFields (next :: rest)).map (prepend byte)

/-- The number of a sign and a magnitude. -/
def signed (negative : Bool) (value : Nat) : Int := if negative then -value else value

/-- A text is a decimal number within bounds. -/
def ValidNumber (low high : Int) (text : CString) : Prop :=
  ∃ negative value, scanNumber text = some (negative, value, []) ∧
    low ≤ signed negative value ∧ signed negative value ≤ high

/-- A line has seven fields, with valid numbers where numbers stand. -/
def WellFormed (line : CString) : Prop :=
  ∃ seq ts subject action target result detail,
    decodeFields (line.rdropWhile isLineEnd) =
      some [seq, ts, subject, action, target, result, detail] ∧
    ValidNumber 1 (2 ^ 64 - 1) seq ∧ ValidNumber (-2 ^ 63) (2 ^ 63 - 1) ts ∧
    ValidNumber (-2 ^ 31) (2 ^ 31 - 1) result

/-! ## One field -/

/-- The first field of a text, and the text behind the separator that ends it; nothing behind it
when it ends with the text. -/
def firstField : CString → Option (CString × Option CString)
  | [] => some ([], none)
  | [byte] =>
    if byte = bar then some ([], some [])
    else if byte = backslash then none
    else some ([byte], none)
  | byte :: next :: rest =>
    if byte = bar then some ([], some (next :: rest))
    else if byte = backslash then
      match unescape next with
      | none => none
      | some plain => (firstField rest).map (Prod.map (plain :: ·) id)
    else (firstField (next :: rest)).map (Prod.map (byte :: ·) id)

/-- The fields behind the first one. -/
def laterFields : Option CString → Option (List CString)
  | none => some []
  | some rest => decodeFields rest

/-- The fields of a text are its first one and those behind it. -/
theorem decodeFields_eq (text : CString) :
    decodeFields text =
      (firstField text).bind fun found => (laterFields found.2).map (found.1 :: ·) := by
  have extend (byte : UInt8) (text : CString) (ih : decodeFields text =
      (firstField text).bind fun found => (laterFields found.2).map (found.1 :: ·)) :
      (decodeFields text).map (prepend byte) =
        ((firstField text).map (Prod.map (byte :: ·) id)).bind fun found =>
          (laterFields found.2).map (found.1 :: ·) := by
    rw [ih]
    cases firstField text with
    | none => rfl
    | some found =>
      show ((laterFields found.2).map (found.1 :: ·)).map (prepend byte) =
        (laterFields found.2).map ((byte :: found.1) :: ·)
      rw [Option.map_map]
      rfl
  fun_induction firstField text with
  | case1 => rfl
  | case2 => rfl
  | case3 => rfl
  | case4 byte separator slash => exact (if_neg separator).trans (if_neg slash)
  | case5 => exact if_pos rfl
  | case6 next rest unknown separator =>
    rw [decodeFields, if_neg separator, if_pos rfl, unknown]
    rfl
  | case7 next rest plain stands separator ih =>
    rw [decodeFields, if_neg separator, if_pos rfl, stands]
    exact extend plain rest ih
  | case8 byte next rest separator slash ih =>
    rw [decodeFields, if_neg separator, if_neg slash]
    exact extend byte (next :: rest) ih

/-- What `esc_field` makes of the first field behind what it has read: it keeps it when it fits,
and goes on behind its separator or, without one, at the end. -/
def keepField (cap : Nat) (out : CString) (found : CString × Option CString) :
    Option (CString × CString) :=
  if out.length + found.1.length < cap then some (out ++ found.1, found.2.getD []) else none

/-- One byte more in the buffer is one byte less in the field. -/
theorem keepField_byte (cap : Nat) (out : CString) (byte : UInt8)
    (found : CString × Option CString) :
    (if cap ≤ out.length + 1 then none else keepField cap (out ++ [byte]) found) =
      keepField cap out (Prod.map (byte :: ·) id found) := by
  have count : (out ++ [byte]).length + found.1.length = out.length + (byte :: found.1).length := by
    rw [List.length_append, List.length_singleton, List.length_cons]
    omega
  have whole : out ++ [byte] ++ found.1 = out ++ byte :: found.1 :=
    List.append_assoc out [byte] found.1
  show (if cap ≤ out.length + 1 then none else
      if (out ++ [byte]).length + found.1.length < cap then
        some (out ++ [byte] ++ found.1, found.2.getD []) else none) =
    if out.length + (byte :: found.1).length < cap then
      some (out ++ byte :: found.1, found.2.getD []) else none
  rw [count, whole]
  by_cases full : cap ≤ out.length + 1
  · have tooLong : ¬ out.length + (byte :: found.1).length < cap := by
      rw [List.length_cons]
      omega
    rw [if_pos full, if_neg tooLong]
  · rw [if_neg full]

/-- An empty field is kept. -/
theorem keepField_nil {cap : Nat} {out : CString} (room : out.length < cap)
    (rest : Option CString) : keepField cap out ([], rest) = some (out, rest.getD []) := by
  have fits : out.length + ([] : CString).length < cap := room
  rw [keepField, if_pos fits, List.append_nil]

/-- `esc_field` reads the first field. -/
theorem escFieldFrom_eq {cap : Nat} (text out : CString) (room : out.length < cap) :
    escFieldFrom cap out text = (firstField text).bind (keepField cap out) := by
  have extend (byte : UInt8) (text out : CString) (ih : ∀ out : CString, out.length < cap →
      escFieldFrom cap out text = (firstField text).bind (keepField cap out)) :
      (if cap ≤ out.length + 1 then none else escFieldFrom cap (out ++ [byte]) text) =
        ((firstField text).map (Prod.map (byte :: ·) id)).bind (keepField cap out) := by
    have longer : (out ++ [byte]).length = out.length + 1 := List.length_append
    rw [Option.bind_map]
    by_cases full : cap ≤ out.length + 1
    · rw [if_pos full]
      cases firstField text with
      | none => rfl
      | some found => exact (if_pos full).symm.trans (keepField_byte cap out byte found)
    · rw [if_neg full, ih _ (by omega)]
      cases firstField text with
      | none => rfl
      | some found => exact (if_neg full).symm.trans (keepField_byte cap out byte found)
  fun_induction firstField text generalizing out with
  | case1 => exact (keepField_nil room none).symm
  | case2 =>
    rw [escFieldFrom, if_pos rfl]
    exact (keepField_nil room (some [])).symm
  | case3 separator =>
    rw [escFieldFrom, if_neg separator, if_pos (.inl rfl)]
    rfl
  | case4 byte separator slash =>
    rw [escFieldFrom, if_neg separator, Option.bind_some]
    by_cases fits : out.length + 1 < cap
    · have kept : ¬ (byte = backslash ∨ cap ≤ out.length + 1) :=
        not_or.mpr ⟨slash, Nat.not_le.mpr fits⟩
      rw [if_neg kept]
      exact (if_pos fits).symm
    · rw [if_pos (.inr (Nat.not_lt.mp fits))]
      exact (if_neg fits).symm
  | case5 next rest =>
    rw [escFieldFrom, if_pos rfl]
    exact (keepField_nil room (some (next :: rest))).symm
  | case6 next rest unknown separator =>
    rw [escFieldFrom, if_neg separator, if_pos rfl, unknown]
    rfl
  | case7 next rest plain stands separator ih =>
    rw [escFieldFrom, if_neg separator, if_pos rfl, stands]
    exact extend plain rest out ih
  | case8 byte next rest separator slash ih =>
    rw [escFieldFrom, if_neg separator, if_neg slash]
    exact extend byte (next :: rest) out ih

/-- What `esc_field` returns. -/
theorem escField_eq_some_iff {cap : Nat} (room : 0 < cap) {text : CString}
    {found : CString × CString} :
    escField cap text = some found ↔ found.1.length < cap ∧
      ∃ rest, firstField text = some (found.1, rest) ∧ found.2 = rest.getD [] := by
  have empty : ([] : CString).length < cap := room
  rw [escField, escFieldFrom_eq text [] empty, Option.bind_eq_some_iff]
  simp only [keepField, List.length_nil, Nat.zero_add, List.nil_append]
  constructor
  · rintro ⟨⟨field, rest⟩, first, taken⟩
    split at taken
    · rename_i fits
      obtain rfl := Option.some.inj taken
      exact ⟨fits, rest, first, rfl⟩
    · cases taken
  · rintro ⟨fits, rest, first, behind⟩
    exact ⟨(found.1, rest), first, (if_pos fits).trans (by rw [← behind])⟩

/-! ## All fields -/

/-- One call of `esc_field` after the other, with the position at the end after the last. -/
def readFields : List Nat → CString → Option (List CString)
  | [], text => if text = [] then some [] else none
  | cap :: caps, text =>
    (escField cap text).bind fun found => (readFields caps found.2).map (found.1 :: ·)

/-- Nothing is read at the end. -/
theorem readFields_stop_iff (text : CString) : readFields [] text = some [] ↔ text = [] := by
  rw [readFields]
  split
  · rename_i stop
    exact ⟨fun _ => stop, fun _ => rfl⟩
  · rename_i more
    exact ⟨fun read => absurd read.symm (Option.some_ne_none []), fun stop => absurd stop more⟩

/-- The first field is read, and then the others. -/
theorem readFields_cons_iff (cap : Nat) (caps : List Nat) (text field : CString)
    (later : List CString) :
    readFields (cap :: caps) text = some (field :: later) ↔
      ∃ rest, escField cap text = some (field, rest) ∧ readFields caps rest = some later := by
  rw [readFields, Option.bind_eq_some_iff]
  constructor
  · rintro ⟨⟨first, rest⟩, found, behind⟩
    obtain ⟨others, read, same⟩ := Option.map_eq_some_iff.mp behind
    obtain ⟨rfl, rfl⟩ := List.cons.inj same
    exact ⟨rest, found, read⟩
  · rintro ⟨rest, found, read⟩
    exact ⟨(field, rest), found, Option.map_eq_some_iff.mpr ⟨later, read, rfl⟩⟩

/-- The fields that are read from a text are its own, up to an empty one behind them that is not
seen and empty ones that are made up at the end. -/
def ReadAs (fields seen : List CString) : Prop :=
  fields = seen ++ [[]] ∨ ∃ missing, seen = fields ++ List.replicate missing []

/-- From the end on every field is empty. -/
theorem readFields_nil (caps : List Nat) :
    readFields caps [] = some (List.replicate caps.length []) := by
  induction caps with
  | nil => rfl
  | cons cap caps ih =>
    have first : escField cap [] = some ([], []) := rfl
    rw [readFields, first, Option.bind_some, ih]
    rfl

/-- There is always a first field. -/
theorem decodeFields_ne_nil {text : CString} {fields : List CString}
    (decoded : decodeFields text = some fields) : fields ≠ [] := by
  rw [decodeFields_eq, Option.bind_eq_some_iff] at decoded
  obtain ⟨found, -, later⟩ := decoded
  obtain ⟨others, -, rfl⟩ := Option.map_eq_some_iff.mp later
  exact List.cons_ne_nil _ _

/-- Only the empty text ends with an empty first field. -/
theorem firstField_empty {text : CString} (found : firstField text = some ([], none)) :
    text = [] := by
  have extended {byte : UInt8} {text : CString}
      (found : (firstField text).map (Prod.map (byte :: ·) id) = some ([], none)) : False := by
    obtain ⟨rest, -, same⟩ := Option.map_eq_some_iff.mp found
    exact List.cons_ne_nil _ _ (congrArg Prod.fst same)
  fun_induction firstField text with
  | case1 => rfl
  | case2 => cases found
  | case3 => cases found
  | case4 => cases found
  | case5 => cases found
  | case6 => cases found
  | case7 => exact (extended found).elim
  | case8 => exact (extended found).elim

/-- Only the empty text has an empty field and no other. -/
theorem decodeFields_empty_iff (text : CString) : decodeFields text = some [[]] ↔ text = [] := by
  constructor
  · intro decoded
    rw [decodeFields_eq, Option.bind_eq_some_iff] at decoded
    obtain ⟨⟨field, rest⟩, found, later⟩ := decoded
    obtain ⟨others, read, same⟩ := Option.map_eq_some_iff.mp later
    obtain ⟨rfl, rfl⟩ := List.cons.inj same
    cases rest with
    | none => exact firstField_empty found
    | some rest => exact absurd rfl (decodeFields_ne_nil read)
  · rintro rfl
    rfl

/-- The first field apart, what is read is read as before. -/
theorem readAs_cons_iff {field first : CString} {fields seen : List CString} :
    ReadAs (field :: fields) (first :: seen) ↔ field = first ∧ ReadAs fields seen := by
  unfold ReadAs
  constructor
  · rintro (same | ⟨missing, same⟩)
    · obtain ⟨rfl, rfl⟩ := List.cons.inj same
      exact ⟨rfl, .inl rfl⟩
    · obtain ⟨rfl, rfl⟩ := List.cons.inj same
      exact ⟨rfl, .inr ⟨missing, rfl⟩⟩
  · rintro ⟨rfl, rfl | ⟨missing, rfl⟩⟩
    · exact .inl rfl
    · exact .inr ⟨missing, rfl⟩

/-- The fields fit their buffers. -/
abbrev FieldsFit (caps : List Nat) (fields : List CString) : Prop :=
  List.Forall₂ (fun cap (field : CString) => field.length < cap) caps fields

/-- Fields that are read fit their buffers and are those of the text, as it is read. -/
theorem readFields_sound {caps : List Nat} (room : ∀ cap ∈ caps, 0 < cap) {text : CString}
    {seen : List CString} (read : readFields caps text = some seen) :
    FieldsFit caps seen ∧ ∃ fields, decodeFields text = some fields ∧ ReadAs fields seen := by
  induction caps generalizing text seen with
  | nil =>
    rw [readFields] at read
    split at read
    · rename_i stop
      obtain rfl := Option.some.inj read
      exact ⟨.nil, [[]], (decodeFields_empty_iff text).mpr stop, .inl rfl⟩
    · cases read
  | cons cap caps ih =>
    have tail {text : CString} {seen : List CString} (read : readFields caps text = some seen) :=
      ih (fun other later => room other (List.mem_cons_of_mem _ later)) read
    obtain ⟨⟨field, behind⟩, taken, later⟩ := Option.bind_eq_some_iff.mp read
    obtain ⟨others, next, rfl⟩ := Option.map_eq_some_iff.mp later
    obtain ⟨fits, rest, first, shape⟩ :=
      (escField_eq_some_iff (room cap List.mem_cons_self)).mp taken
    dsimp only at fits first shape next
    subst shape
    rw [decodeFields_eq, first]
    cases rest with
    | none =>
      -- the text is at its end: what follows is made up
      have made := Option.some.inj (next.symm.trans (readFields_nil caps))
      exact ⟨.cons fits (tail next).1, [field], rfl, .inr ⟨caps.length, by rw [made]; rfl⟩⟩
    | some rest =>
      obtain ⟨fit, fields, decoded, taken⟩ := tail next
      have decoded : decodeFields rest = some fields := decoded
      refine ⟨.cons fits fit, field :: fields, ?_, readAs_cons_iff.mpr ⟨rfl, taken⟩⟩
      show (decodeFields rest).map (field :: ·) = some (field :: fields)
      rw [decoded]
      rfl

/-- Fields of a text that fit their buffers are read. -/
theorem readFields_complete {caps : List Nat} (room : ∀ cap ∈ caps, 0 < cap) {text : CString}
    {fields seen : List CString} (fit : FieldsFit caps seen)
    (decoded : decodeFields text = some fields) (taken : ReadAs fields seen) :
    readFields caps text = some seen := by
  induction fit generalizing text fields with
  | nil =>
    have alone : fields = [[]] := by
      rcases taken with same | ⟨missing, same⟩
      · exact same
      · exact absurd (List.append_eq_nil_iff.mp same.symm).1 (decodeFields_ne_nil decoded)
    rw [alone] at decoded
    exact if_pos ((decodeFields_empty_iff text).mp decoded)
  | @cons cap first caps later fits fit ih =>
    have tail := fun other listed => room other (List.mem_cons_of_mem cap listed)
    rw [decodeFields_eq, Option.bind_eq_some_iff] at decoded
    obtain ⟨⟨field, rest⟩, found, behind⟩ := decoded
    obtain ⟨others, next, rfl⟩ := Option.map_eq_some_iff.mp behind
    obtain ⟨same, behindAs⟩ := readAs_cons_iff.mp taken
    dsimp only at same
    subst same
    rw [readFields_cons_iff]
    refine ⟨rest.getD [], (escField_eq_some_iff (room cap List.mem_cons_self)).mpr
      ⟨fits, rest, found, rfl⟩, ?_⟩
    cases rest with
    | none =>
      obtain rfl := Option.some.inj next
      have made : later = List.replicate caps.length [] := by
        rcases behindAs with same | ⟨missing, same⟩
        · cases later <;> cases same
        · have count := fit.length_eq
          rw [same, List.nil_append, List.length_replicate] at count
          rw [same, count]
          rfl
      rw [made]
      exact readFields_nil caps
    | some rest => exact ih tail next behindAs

/-! ## The numbers -/

/-- A text is a number as `strtol` reads it, and nothing else. -/
def Numeral (text : CString) : Prop :=
  ∃ negative value, scanNumber text = some (negative, value, [])

/-- A number is not empty. -/
theorem numeral_ne_nil {text : CString} (numeral : Numeral text) : text ≠ [] := by
  rintro rfl
  obtain ⟨negative, value, read⟩ := numeral
  cases read

/-- A number within bounds is a number. -/
theorem ValidNumber.numeral {low high : Int} {text : CString} (valid : ValidNumber low high text) :
    Numeral text := by
  obtain ⟨negative, value, read, -⟩ := valid
  exact ⟨negative, value, read⟩

/-- A number that is read is within bounds or not. -/
theorem validNumber_iff {low high : Int} {text : CString} {negative : Bool} {value : Nat}
    (read : scanNumber text = some (negative, value, [])) :
    ValidNumber low high text ↔ low ≤ signed negative value ∧ signed negative value ≤ high := by
  constructor
  · rintro ⟨sign, size, same, bounds⟩
    rw [read] at same
    cases same
    exact bounds
  · intro bounds
    exact ⟨negative, value, read, bounds⟩

/-- `strtoull` ends behind the number, and only zero is read as zero. -/
theorem strtoull_scanned {text rest : CString} {negative : Bool} {value : Nat}
    (read : scanNumber text = some (negative, value, rest)) :
    (strtoull text).2 = rest ∧ ((strtoull text).1 = 0 ↔ value = 0) := by
  rw [strtoull, read]
  dsimp only
  split
  · exact ⟨rfl, by omega⟩
  split
  · exact ⟨rfl, by omega⟩
  · exact ⟨rfl, Iff.rfl⟩

/-- `strtoll` ends behind the number, which it clamps. -/
theorem strtoll_scanned {text rest : CString} {negative : Bool} {value : Nat}
    (read : scanNumber text = some (negative, value, rest)) :
    strtoll text = (max (-2 ^ 63) (min (signed negative value) (2 ^ 63 - 1)), rest) := by
  rw [strtoll, read]
  cases negative with
  | true =>
    have clamped : max (-(value : Int)) (-2 ^ 63) =
        max (-2 ^ 63) (min (signed true value) (2 ^ 63 - 1)) := by
      rw [signed, if_pos rfl]
      omega
    rw [← clamped]
  | false =>
    have clamped : min (value : Int) (2 ^ 63 - 1) =
        max (-2 ^ 63) (min (signed false value) (2 ^ 63 - 1)) := by
      rw [signed, if_neg Bool.false_ne_true]
      omega
    rw [← clamped]

/-- The `seq` field may be any number but zero. -/
theorem parseSeq_isSome_iff (text : CString) :
    (parseSeq text).isSome = true ↔
      ∃ negative value, scanNumber text = some (negative, value, []) ∧ value ≠ 0 := by
  cases read : scanNumber text with
  | none =>
    have refused : parseSeq text = none := by
      rw [parseSeq, strtoull, read]
      exact if_pos (.inr rfl)
    simp [refused]
  | some found =>
    obtain ⟨negative, value, rest⟩ := found
    obtain ⟨behind, zero⟩ := strtoull_scanned read
    have taken : (parseSeq text).isSome = true ↔ rest = [] ∧ value ≠ 0 := by
      have filled : value ≠ 0 ↔ (strtoull text).1 ≠ 0 := not_congr zero.symm
      rw [parseSeq, filled]
      dsimp only
      rw [behind]
      split
      · rename_i refused
        constructor
        · intro taken
          cases taken
        · intro kept
          exact (refused.elim (· kept.1) kept.2).elim
      · rename_i kept
        rw [not_or, not_not] at kept
        exact ⟨fun _ => kept, fun _ => rfl⟩
    rw [taken]
    constructor
    · rintro ⟨rfl, filled⟩
      exact ⟨negative, value, rfl, filled⟩
    · rintro ⟨sign, size, same, filled⟩
      cases same
      exact ⟨rfl, filled⟩

/-- The `ts` field may be any number. -/
theorem parseTs_isSome_iff (text : CString) : (parseTs text).isSome = true ↔ Numeral text := by
  cases read : scanNumber text with
  | none =>
    have refused : parseTs text = none := by
      rw [parseTs, strtoll, read]
      exact if_pos (.inl rfl)
    simp [refused, Numeral, read]
  | some found =>
    obtain ⟨negative, value, rest⟩ := found
    constructor
    · intro taken
      rw [parseTs, strtoll_scanned read] at taken
      dsimp only at taken
      split at taken
      · cases taken
      · rename_i kept
        rw [not_or, not_not] at kept
        exact ⟨negative, value, by rw [read, kept.2]⟩
    · intro numeral
      have filled := numeral_ne_nil numeral
      obtain ⟨sign, size, same⟩ := numeral
      rw [read] at same
      cases same
      rw [parseTs, strtoll_scanned read]
      simp [filled.symm]

/-- The `result` field is a number of 32 bits. -/
theorem parseResult_isSome_iff (text : CString) :
    (parseResult text).isSome = true ↔ ValidNumber (-2 ^ 31) (2 ^ 31 - 1) text := by
  cases read : scanNumber text with
  | none =>
    have refused : parseResult text = none := by
      rw [parseResult, strtoll, read]
      exact if_pos (.inl rfl)
    simp [refused, ValidNumber, read]
  | some found =>
    obtain ⟨negative, value, rest⟩ := found
    constructor
    · intro taken
      rw [parseResult, strtoll_scanned read] at taken
      dsimp only at taken
      split at taken
      · cases taken
      · rename_i kept
        simp only [not_or, not_not] at kept
        exact ⟨negative, value, by rw [read, kept.2.1], by omega, by omega⟩
    · intro valid
      have filled := numeral_ne_nil valid.numeral
      obtain ⟨sign, size, same, low, high⟩ := valid
      rw [read] at same
      cases same
      rw [parseResult, strtoll_scanned read]
      dsimp only
      rw [if_neg]
      · rfl
      · simp only [not_or, not_not]
        exact ⟨filled.symm, trivial, by omega, by omega⟩

/-! ## Accepted lines -/

/-- The sizes of the buffers for the seven fields. -/
def fieldCaps : List Nat := [32, 32, 64, 64, 256, 32, 512]

/-- The fields are read with `esc_field`, and three of them as numbers. -/
theorem parseFields_isSome_iff (text : CString) :
    (parseFields text).isSome = true ↔ ∃ seq ts subject action target result detail,
      readFields fieldCaps text = some [seq, ts, subject, action, target, result, detail] ∧
      (parseSeq seq).isSome = true ∧ (parseTs ts).isSome = true ∧
      (parseResult result).isSome = true := by
  constructor
  · intro accepted
    obtain ⟨event, read⟩ := Option.isSome_iff_exists.mp accepted
    simp only [parseFields, Option.bind_eq_bind, Option.bind_eq_some_iff] at read
    obtain ⟨⟨seq, behindSeq⟩, seqField, number, seqRead, ⟨ts, behindTs⟩, tsField, time, tsRead,
      ⟨subject, behindSubject⟩, subjectField, ⟨action, behindAction⟩, actionField,
      ⟨target, behindTarget⟩, targetField, ⟨result, behindResult⟩, resultField, code, resultRead,
      ⟨detail, behindDetail⟩, detailField, last⟩ := read
    dsimp only at seqRead tsField tsRead subjectField actionField targetField resultField
    dsimp only at resultRead detailField last
    split at last
    · rename_i stop
      refine ⟨seq, ts, subject, action, target, result, detail, ?_, by rw [seqRead]; rfl,
        by rw [tsRead]; rfl, by rw [resultRead]; rfl⟩
      simp only [fieldCaps, readFields_cons_iff, readFields_stop_iff]
      exact ⟨behindSeq, seqField, behindTs, tsField, behindSubject, subjectField, behindAction,
        actionField, behindTarget, targetField, behindResult, resultField, behindDetail,
        detailField, stop⟩
    · cases last
  · rintro ⟨seq, ts, subject, action, target, result, detail, read, seqRead, tsRead, resultRead⟩
    obtain ⟨number, seqRead⟩ := Option.isSome_iff_exists.mp seqRead
    obtain ⟨time, tsRead⟩ := Option.isSome_iff_exists.mp tsRead
    obtain ⟨code, resultRead⟩ := Option.isSome_iff_exists.mp resultRead
    simp only [fieldCaps, readFields_cons_iff, readFields_stop_iff] at read
    obtain ⟨behindSeq, seqField, behindTs, tsField, behindSubject, subjectField, behindAction,
      actionField, behindTarget, targetField, behindResult, resultField, behindDetail,
      detailField, stop⟩ := read
    simp only [parseFields, Option.bind_eq_bind, Option.bind_some, seqField, seqRead, tsField,
      tsRead, subjectField, actionField, targetField, resultField, resultRead, detailField, stop,
      if_true, Option.isSome_some]

/-- Seven fields that `parse_event` takes: they fit its buffers, and numbers stand where it reads
numbers, whatever their size in the first two. -/
structure Legible (seq ts subject action target result detail : CString) : Prop where
  /-- Every field fits. -/
  fit : FieldsFit fieldCaps [seq, ts, subject, action, target, result, detail]
  /-- The first field is a number other than zero. -/
  seqNumber : ∃ negative value, scanNumber seq = some (negative, value, []) ∧ value ≠ 0
  /-- The second field is a number. -/
  tsNumber : Numeral ts
  /-- The sixth field is a number of 32 bits. -/
  resultNumber : ValidNumber (-2 ^ 31) (2 ^ 31 - 1) result

/-- A line is accepted when its fields are taken as seven. -/
theorem parseEvent_isSome_iff (line : CString) :
    (parseEvent line).isSome = true ↔ ∃ seq ts subject action target result detail fields,
      Legible seq ts subject action target result detail ∧
      decodeFields (line.rdropWhile isLineEnd) = some fields ∧
      ReadAs fields [seq, ts, subject, action, target, result, detail] := by
  have room : ∀ cap ∈ fieldCaps, 0 < cap := by decide
  unfold parseEvent
  dsimp only
  generalize line.rdropWhile isLineEnd = text
  constructor
  · intro accepted
    split at accepted
    · cases accepted
    · obtain ⟨seq, ts, subject, action, target, result, detail, read, seqRead, tsRead,
        resultRead⟩ := (parseFields_isSome_iff text).mp accepted
      obtain ⟨fit, fields, decoded, taken⟩ := readFields_sound room read
      exact ⟨seq, ts, subject, action, target, result, detail, fields,
        ⟨fit, (parseSeq_isSome_iff seq).mp seqRead, (parseTs_isSome_iff ts).mp tsRead,
          (parseResult_isSome_iff result).mp resultRead⟩, decoded, taken⟩
  · rintro ⟨seq, ts, subject, action, target, result, detail, fields, legible, decoded, taken⟩
    have filled : text ≠ [] := by
      rintro rfl
      obtain rfl := Option.some.inj decoded
      have empty := (readAs_cons_iff.mp taken).1
      obtain ⟨negative, value, read, -⟩ := legible.seqNumber
      rw [← empty] at read
      cases read
    rw [if_neg filled]
    have read := readFields_complete room legible.fit decoded taken
    exact (parseFields_isSome_iff text).mpr ⟨seq, ts, subject, action, target, result, detail,
      read, (parseSeq_isSome_iff seq).mpr legible.seqNumber,
      (parseTs_isSome_iff ts).mpr legible.tsNumber,
      (parseResult_isSome_iff result).mpr legible.resultNumber⟩

/-- What seven fields can be taken from: seven fields, the same with an empty one behind them, or
the first six when the seventh is empty. -/
theorem readAs_seven_iff {seq ts subject action target result detail : CString}
    (last : result ≠ []) (fields : List CString) :
    ReadAs fields [seq, ts, subject, action, target, result, detail] ↔
      fields = [seq, ts, subject, action, target, result, detail] ∨
      fields = [seq, ts, subject, action, target, result, detail, []] ∨
      (detail = [] ∧ fields = [seq, ts, subject, action, target, result]) := by
  constructor
  · rintro (extra | ⟨missing, made⟩)
    · exact .inr (.inl extra)
    · rcases missing with - | - | missing
      · rw [List.replicate_zero, List.append_nil] at made
        exact .inl made.symm
      · have parts : [seq, ts, subject, action, target, result] ++ [detail] =
            fields ++ [[]] := made
        obtain ⟨whole, empty⟩ := List.append_inj' parts rfl
        exact .inr (.inr ⟨(List.cons.inj empty).1, whole.symm⟩)
      · -- with two fields made up the result would be empty
        have parts : [seq, ts, subject, action, target] ++ [result, detail] =
            (fields ++ List.replicate missing []) ++ [[], []] := by
          have shape : List.replicate (missing + 2) ([] : CString) =
              List.replicate missing [] ++ [[], []] := List.replicate_add missing 2 []
          rw [List.append_assoc, ← shape]
          exact made
        obtain ⟨-, empty⟩ := List.append_inj' parts rfl
        exact absurd (List.cons.inj empty).1 last
  · rintro (whole | extra | ⟨rfl, torn⟩)
    · exact .inr ⟨0, by rw [whole]; rfl⟩
    · exact .inl extra
    · exact .inr ⟨1, by rw [torn]; rfl⟩

/-! ## Which lines are accepted against their form -/

/-- A line stops behind its result. -/
def Torn (line : CString) : Prop :=
  ∃ seq ts subject action target result,
    decodeFields (line.rdropWhile isLineEnd) =
      some [seq, ts, subject, action, target, result] ∧
    Legible seq ts subject action target result []

/-- A line has an empty eighth field. -/
def Trailing (line : CString) : Prop :=
  ∃ seq ts subject action target result detail,
    decodeFields (line.rdropWhile isLineEnd) =
      some [seq, ts, subject, action, target, result, detail, []] ∧
    Legible seq ts subject action target result detail

/-- A line has a number in its first two fields that is out of the range of its type. -/
def OutOfRange (line : CString) : Prop :=
  ∃ seq ts subject action target result detail,
    decodeFields (line.rdropWhile isLineEnd) =
      some [seq, ts, subject, action, target, result, detail] ∧
    Legible seq ts subject action target result detail ∧
    ((∃ value, scanNumber seq = some (true, value, [])) ∨ strtoullOverflows seq = true ∨
      strtollOverflows ts = true)

/-- A `seq` field that is read is within its type or not, as its sign and `errno` tell. -/
theorem seqValid_iff {text : CString} {negative : Bool} {value : Nat}
    (read : scanNumber text = some (negative, value, [])) (filled : value ≠ 0) :
    ValidNumber 1 (2 ^ 64 - 1) text ↔
      ¬ ((∃ value, scanNumber text = some (true, value, [])) ∨ strtoullOverflows text = true) := by
  have overflows : strtoullOverflows text = true ↔ 2 ^ 64 ≤ value := by
    rw [strtoullOverflows, read, decide_eq_true_eq]
  rw [overflows, validNumber_iff read]
  cases negative with
  | true =>
    rw [signed, if_pos rfl]
    constructor
    · intro bounds
      omega
    · intro inside
      exact absurd (.inl ⟨value, read⟩) inside
  | false =>
    rw [signed, if_neg Bool.false_ne_true]
    constructor
    · rintro ⟨-, high⟩ (⟨size, minus⟩ | tooLarge)
      · rw [read] at minus
        cases minus
      · omega
    · intro inside
      have high := fun tooLarge => inside (.inr tooLarge)
      omega

/-- A `ts` field that is read is within its type or not, as `errno` tells. -/
theorem tsValid_iff {text : CString} (numeral : Numeral text) :
    ValidNumber (-2 ^ 63) (2 ^ 63 - 1) text ↔ ¬ strtollOverflows text = true := by
  obtain ⟨negative, value, read⟩ := numeral
  rw [validNumber_iff read, strtollOverflows, read]
  cases negative with
  | true =>
    simp only [signed, if_true, decide_eq_true_eq]
    omega
  | false =>
    simp only [signed, if_false, Bool.false_eq_true, decide_eq_true_eq]
    omega

/-- `parse_event` accepts a line that is not well-formed exactly when the line is torn behind its
result, has an empty eighth field or has a number out of range. -/
theorem parseEvent_wellFormed_iff (line : CString) :
    ((parseEvent line).isSome = true → WellFormed line) ↔
      ¬ Torn line ∧ ¬ Trailing line ∧ ¬ OutOfRange line := by
  constructor
  · intro holds
    refine ⟨?_, ?_, ?_⟩
    · rintro ⟨seq, ts, subject, action, target, result, decoded, legible⟩
      have accepted := (parseEvent_isSome_iff line).mpr ⟨seq, ts, subject, action, target, result,
        [], _, legible, decoded, .inr ⟨1, rfl⟩⟩
      obtain ⟨_, _, _, _, _, _, _, seven, -⟩ := holds accepted
      rw [decoded] at seven
      cases seven
    · rintro ⟨seq, ts, subject, action, target, result, detail, decoded, legible⟩
      have accepted := (parseEvent_isSome_iff line).mpr ⟨seq, ts, subject, action, target, result,
        detail, _, legible, decoded, .inl rfl⟩
      obtain ⟨_, _, _, _, _, _, _, seven, -⟩ := holds accepted
      rw [decoded] at seven
      cases seven
    · rintro ⟨seq, ts, subject, action, target, result, detail, decoded, legible, outside⟩
      have accepted := (parseEvent_isSome_iff line).mpr ⟨seq, ts, subject, action, target, result,
        detail, _, legible, decoded, .inr ⟨0, rfl⟩⟩
      obtain ⟨_, _, _, _, _, _, _, seven, seqValid, tsValid, -⟩ := holds accepted
      rw [decoded] at seven
      cases seven
      obtain ⟨negative, value, read, filled⟩ := legible.seqNumber
      have seqInside := (seqValid_iff read filled).mp seqValid
      have tsInside := (tsValid_iff legible.tsNumber).mp tsValid
      rcases outside with minus | tooLarge | tooFar
      · exact seqInside (.inl minus)
      · exact seqInside (.inr tooLarge)
      · exact tsInside tooFar
  · rintro ⟨whole, seven, inRange⟩ accepted
    obtain ⟨seq, ts, subject, action, target, result, detail, fields, legible, decoded, taken⟩ :=
      (parseEvent_isSome_iff line).mp accepted
    have last := numeral_ne_nil legible.resultNumber.numeral
    rcases (readAs_seven_iff last fields).mp taken with rfl | rfl | ⟨rfl, rfl⟩
    · obtain ⟨negative, value, read, filled⟩ := legible.seqNumber
      have inside : ¬ ((∃ value, scanNumber seq = some (true, value, [])) ∨
          strtoullOverflows seq = true ∨ strtollOverflows ts = true) := fun outside =>
        inRange ⟨seq, ts, subject, action, target, result, detail, decoded, legible, outside⟩
      rw [← or_assoc, not_or] at inside
      exact ⟨seq, ts, subject, action, target, result, detail, decoded,
        (seqValid_iff read filled).mpr inside.1, (tsValid_iff legible.tsNumber).mpr inside.2,
        legible.resultNumber⟩
    · exact absurd ⟨seq, ts, subject, action, target, result, detail, decoded, legible⟩ seven
    · exact absurd ⟨seq, ts, subject, action, target, result, decoded, legible⟩ whole

/-- A line that is torn behind its result, one with an eighth field and one with a number that no
type holds are accepted. -/
theorem torn_line_accepted :
    (parseEvent (lit "7|1700000000|root|login|tty|0")).isSome = true ∧
    ¬ WellFormed (lit "7|1700000000|root|login|tty|0") ∧
    (parseEvent (lit "7|1700000000|root|login|tty|0||")).isSome = true ∧
    ¬ WellFormed (lit "7|1700000000|root|login|tty|0||") := by
  have six : decodeFields ((lit "7|1700000000|root|login|tty|0").rdropWhile isLineEnd) =
      some [lit "7", lit "1700000000", lit "root", lit "login", lit "tty", lit "0"] := by
    decide +kernel
  have eight : decodeFields ((lit "7|1700000000|root|login|tty|0||").rdropWhile isLineEnd) =
      some [lit "7", lit "1700000000", lit "root", lit "login", lit "tty", lit "0", [], []] := by
    decide +kernel
  refine ⟨by decide +kernel, ?_, by decide +kernel, ?_⟩
  · rintro ⟨_, _, _, _, _, _, _, seven, -⟩
    rw [six] at seven
    cases seven
  · rintro ⟨_, _, _, _, _, _, _, seven, -⟩
    rw [eight] at seven
    cases seven

end HwrunOs.Audit
