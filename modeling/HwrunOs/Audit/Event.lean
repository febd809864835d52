import HwrunOs.Library.Bytes

/-!
# Audit events and their lines

`fmt_line` writes an event as seven fields separated by `|`, with the separator, the backslash
and the line ends of the text fields escaped. `parse_event` reads such a line back and rejects
every other. A stored event is read back from its line as written.
-/

namespace HwrunOs.Audit

open HwrunOs.Bytes

/-! ## Events -/

/-- `hw_audit_event_t`. -/
structure Event where
  /-- Number in the log; zero before the event is stored. -/
  seq : UInt64
  /-- Unix time in seconds. -/
  ts : Int64
  /-- Who, 64 bytes. -/
  subject : CString
  /-- What was done, 64 bytes. -/
  action : CString
  /-- On what, 256 bytes. -/
  target : CString
  /-- Details, 512 bytes. -/
  detail : CString
  /-- Result code. -/
  result : Int32
  deriving DecidableEq

/-! ## Writing -/

/-- The field separator. -/
abbrev bar : UInt8 := 124

/-- The escape byte. -/
abbrev backslash : UInt8 := 92

/-- The bytes written for one byte of a text field. -/
def escByte (byte : UInt8) : CString :=
  if byte = backslash then [backslash, backslash]
  else if byte = bar then [backslash, bar]
  else if byte = newline then [backslash, 110]
  else if byte = 13 then [backslash, 114]
  else [byte]

/-- The loop of `fmt_esc`: it stops where the next byte does not fit. -/
def fmtEscFrom (cap : Nat) (out : CString) : CString → CString
  | [] => out
  | byte :: rest =>
    if cap ≤ out.length + (escByte byte).length then out
    else fmtEscFrom cap (out ++ escByte byte) rest

/-- `fmt_esc`. -/
def fmtEsc (cap : Nat) (text : CString) : CString := fmtEscFrom cap [] text

/-- The fields of a line. -/
def lineFields (event : Event) : List CString :=
  [decimal event.seq.toNat, signedDecimal event.ts.toInt, fmtEsc 129 event.subject,
    fmtEsc 129 event.action, fmtEsc 513 event.target, signedDecimal event.result.toInt,
    fmtEsc 1025 event.detail]

/-- `fmt_line`: the line with its line feed, or nothing when the buffer is too small. -/
def fmtLine (cap : Nat) (event : Event) : Option CString :=
  let line := [bar].intercalate (lineFields event) ++ [newline]
  if cap ≤ line.length then none else some line

/-! ## Reading -/

/-- The byte that an escape sequence stands for. -/
def unescape (byte : UInt8) : Option UInt8 :=
  if byte = backslash then some backslash
  else if byte = bar then some bar
  else if byte = 110 then some newline
  else if byte = 114 then some 13
  else none

/-- The loop of `esc_field`: the field, and the text after its separator. -/
def escFieldFrom (cap : Nat) (out : CString) : CString → Option (CString × CString)
  | [] => some (out, [])
  | [byte] =>
    if byte = bar then some (out, [])
    else if byte = backslash ∨ cap ≤ out.length + 1 then none
    else some (out ++ [byte], [])
  | byte :: next :: rest =>
    if byte = bar then some (out, next :: rest)
    else if byte = backslash then
      match unescape next with
      | none => none
      | some plain =>
        if cap ≤ out.length + 1 then none else escFieldFrom cap (out ++ [plain]) rest
    else if cap ≤ out.length + 1 then none
    else escFieldFrom cap (out ++ [byte]) (next :: rest)

/-- `esc_field`. -/
def escField (cap : Nat) (text : CString) : Option (CString × CString) := escFieldFrom cap [] text

/-- A line end. -/
def isLineEnd (byte : UInt8) : Bool := byte == newline || byte == 13

/-- The `seq` field: a number other than zero. -/
def parseSeq (text : CString) : Option UInt64 :=
  let (value, rest) := strtoull text
  if rest ≠ [] ∨ value = 0 then none else some (UInt64.ofNat value)

/-- The `ts` field. -/
def parseTs (text : CString) : Option Int64 :=
  let (value, rest) := strtoll text
  if rest = text ∨ rest ≠ [] then none else some (Int64.ofInt value)

/-- The `result` field. -/
def parseResult (text : CString) : Option Int32 :=
  let (value, rest) := strtoll text
  if rest = text ∨ rest ≠ [] ∨ value < -2 ^ 31 ∨ 2 ^ 31 - 1 < value then none
  else some (Int32.ofInt value)

/-- The fields of a line without its line end. -/
def parseFields (text : CString) : Option Event := do
  let (number, rest) ← escField 32 text
  let seq ← parseSeq number
  let (number, rest) ← escField 32 rest
  let ts ← parseTs number
  let (subject, rest) ← escField 64 rest
  let (action, rest) ← escField 64 rest
  let (target, rest) ← escField 256 rest
  let (number, rest) ← escField 32 rest
  let result ← parseResult number
  let (detail, rest) ← escField 512 rest
  if rest = [] then some ⟨seq, ts, subject, action, target, detail, result⟩ else none

/-- `parse_event`. -/
def parseEvent (line : CString) : Option Event :=
  let text := line.rdropWhile isLineEnd
  if text = [] then none else parseFields text

/-! ## One field -/

/-- The escape of a text that is never cut. -/
def escape (text : CString) : CString := text.flatMap escByte

/-- A byte is written as itself or as an escape sequence that stands for it. -/
theorem escByte_cases (byte : UInt8) :
    (escByte byte = [byte] ∧ byte ≠ bar ∧ byte ≠ backslash ∧ isLineEnd byte = false) ∨
      ∃ code, escByte byte = [backslash, code] ∧ unescape code = some byte ∧
        isLineEnd code = false := by
  by_cases slash : byte = backslash
  · exact .inr ⟨backslash, by simp [escByte, slash], by simp [unescape, slash], by decide⟩
  by_cases separator : byte = bar
  · exact .inr ⟨bar, by rw [separator]; decide, by rw [separator]; decide, by decide⟩
  by_cases feed : byte = newline
  · exact .inr ⟨110, by rw [feed]; decide, by rw [feed]; decide, by decide⟩
  by_cases carriage : byte = 13
  · exact .inr ⟨114, by rw [carriage]; decide, by rw [carriage]; decide, by decide⟩
  · exact .inl ⟨by simp [escByte, slash, separator, feed, carriage], separator, slash,
      by simp [isLineEnd, feed, carriage]⟩

/-- An escape takes at most two bytes. -/
theorem escByte_length (byte : UInt8) : (escByte byte).length ≤ 2 := by
  rcases escByte_cases byte with ⟨same, -⟩ | ⟨code, same, -⟩ <;> simp [same]

/-- A text is escaped whole when the buffer is twice as long. -/
theorem fmtEsc_eq {cap : Nat} {text : CString} (room : 2 * text.length < cap) :
    fmtEsc cap text = escape text := by
  have whole : ∀ (text out : CString), out.length + 2 * text.length < cap →
      fmtEscFrom cap out text = out ++ escape text := by
    intro text
    induction text with
    | nil => intro out _; simp [fmtEscFrom, escape]
    | cons byte rest ih =>
      intro out room
      have short := escByte_length byte
      rw [List.length_cons] at room
      have fits : ¬ cap ≤ out.length + (escByte byte).length := by omega
      have later := ih (out ++ escByte byte) (by rw [List.length_append]; omega)
      rw [fmtEscFrom, if_neg fits, later, escape, escape, List.flatMap_cons, List.append_assoc]
  exact whole text [] (by simpa using room)

/-- An escaped text has no line ends. -/
theorem escape_plain (text : CString) : ∀ byte ∈ escape text, isLineEnd byte = false := by
  intro byte found
  obtain ⟨source, -, inside⟩ := List.mem_flatMap.mp found
  rcases escByte_cases source with ⟨same, -, -, plain⟩ | ⟨code, same, -, plain⟩
  · rw [same, List.mem_singleton] at inside
    rw [inside, plain]
  · rw [same] at inside
    obtain rfl | rfl : byte = backslash ∨ byte = code := by simpa using inside
    · rfl
    · exact plain

/-- A byte that is escaped is read back, whatever follows it. -/
theorem escFieldFrom_escByte {cap : Nat} (out rest : CString) (byte : UInt8)
    (room : out.length + 1 < cap) :
    escFieldFrom cap out (escByte byte ++ rest) = escFieldFrom cap (out ++ [byte]) rest := by
  have fits : ¬ cap ≤ out.length + 1 := by omega
  rcases escByte_cases byte with ⟨same, separator, slash, -⟩ | ⟨code, same, stands, -⟩
  · rw [same]
    cases rest <;> simp [escFieldFrom, separator, slash, fits]
  · have barred : backslash ≠ bar := by decide
    simp [same, escFieldFrom, stands, fits, barred]

/-- An escaped text is read back up to what follows it. -/
theorem escFieldFrom_escape {cap : Nat} (text out rest : CString)
    (room : out.length + text.length < cap) :
    escFieldFrom cap out (escape text ++ rest) = escFieldFrom cap (out ++ text) rest := by
  induction text generalizing out with
  | nil => simp [escape]
  | cons byte text ih =>
    rw [List.length_cons] at room
    have space : out.length + 1 < cap := by omega
    have first := escFieldFrom_escByte out (escape text ++ rest) byte space
    have later := ih (out ++ [byte])
      (by simp only [List.length_append, List.length_singleton]; omega)
    have shape : escape (byte :: text) = escByte byte ++ escape text := rfl
    rw [shape, List.append_assoc, first, later]
    simp

/-- A field in front of a separator. -/
theorem escField_bar {cap : Nat} {text : CString} (rest : CString) (fits : text.length < cap) :
    escField cap (escape text ++ bar :: rest) = some (text, rest) := by
  rw [escField, escFieldFrom_escape text [] _ (by simpa using fits)]
  cases rest <;> simp [escFieldFrom]

/-- The last field. -/
theorem escField_end {cap : Nat} {text : CString} (fits : text.length < cap) :
    escField cap (escape text) = some (text, []) := by
  have room : ([] : CString).length + text.length < cap := by simpa using fits
  have whole := escFieldFrom_escape text [] [] room
  rw [List.append_nil] at whole
  rw [escField, whole]
  simp [escFieldFrom]

/-! ## Numbers -/

/-- A text without separators, backslashes and line ends is written as it is. -/
theorem escape_eq {text : CString}
    (plain : ∀ byte ∈ text, byte ≠ bar ∧ byte ≠ backslash ∧ isLineEnd byte = false) :
    escape text = text := by
  induction text with
  | nil => rfl
  | cons byte rest ih =>
    obtain ⟨separator, slash, line⟩ := plain byte List.mem_cons_self
    simp only [isLineEnd, Bool.or_eq_false_iff, beq_eq_false_iff_ne, ne_eq] at line
    have same : escByte byte = [byte] := by
      simp [escByte, slash, separator, line.1, line.2]
    have later := ih fun other found => plain other (List.mem_cons_of_mem _ found)
    rw [escape, List.flatMap_cons, same, ← escape, later]
    rfl

/-- A digit needs no escape. -/
theorem digit_plain {byte : UInt8} (digit : isDigit byte = true) :
    byte ≠ bar ∧ byte ≠ backslash ∧ isLineEnd byte = false := by
  simp only [isDigit, Bool.and_eq_true, decide_eq_true_eq, UInt8.le_iff_toNat_le] at digit
  simp only [isLineEnd, Bool.or_eq_false_iff, beq_eq_false_iff_ne, ne_eq]
  refine ⟨?_, ?_, ?_, ?_⟩ <;> rintro rfl
  · exact absurd digit.2 (by decide)
  · exact absurd digit.2 (by decide)
  · exact absurd digit.1 (by decide)
  · exact absurd digit.1 (by decide)

/-- A number is written as it is. -/
theorem escape_decimal (value : Nat) : escape (decimal value) = decimal value :=
  escape_eq fun byte found => digit_plain (decimal_digits value byte found)

/-- A signed number is written as it is. -/
theorem escape_signedDecimal (value : Int) :
    escape (signedDecimal value) = signedDecimal value := by
  apply escape_eq
  intro byte found
  unfold signedDecimal at found
  split at found
  · rcases List.mem_cons.mp found with rfl | later
    · decide
    · exact digit_plain (decimal_digits _ byte later)
  · exact digit_plain (decimal_digits _ byte found)

/-- A signed 64-bit number has a sign and at most twenty digits. -/
theorem signedDecimal_length {value : Int} (low : -2 ^ 63 ≤ value) (high : value < 2 ^ 63) :
    (signedDecimal value).length ≤ 21 ∧ signedDecimal value ≠ [] := by
  have digits : (decimal value.natAbs).length ≤ 20 := decimal_length (by omega)
  have filled := decimal_ne_nil value.natAbs
  unfold signedDecimal
  split
  · exact ⟨by rw [List.length_cons]; omega, List.cons_ne_nil _ _⟩
  · exact ⟨by omega, filled⟩

/-- The `seq` field is read back. -/
theorem parseSeq_decimal {seq : UInt64} (numbered : seq ≠ 0) :
    parseSeq (decimal seq.toNat) = some seq := by
  have positive : seq.toNat ≠ 0 := by
    intro zero
    exact numbered (UInt64.toNat_inj.mp zero)
  simp [parseSeq, strtoull_decimal seq.toNat_lt, positive]

/-- The `ts` field is read back. -/
theorem parseTs_signedDecimal (ts : Int64) : parseTs (signedDecimal ts.toInt) = some ts := by
  have low : -2 ^ 63 ≤ ts.toInt := ts.le_toInt
  have high : ts.toInt < 2 ^ 63 := ts.toInt_lt
  have filled := (signedDecimal_length low high).2
  rw [parseTs, strtoll_signedDecimal low high]
  simp [filled.symm]

/-- The `result` field is read back. -/
theorem parseResult_signedDecimal (result : Int32) :
    parseResult (signedDecimal result.toInt) = some result := by
  have low : -2 ^ 31 ≤ result.toInt := result.le_toInt
  have high : result.toInt < 2 ^ 31 := result.toInt_lt
  have within : -2 ^ 63 ≤ result.toInt ∧ result.toInt < 2 ^ 63 := by omega
  have filled := (signedDecimal_length within.1 within.2).2
  have range : ¬ (result.toInt < -2 ^ 31 ∨ 2 ^ 31 - 1 < result.toInt) := by omega
  rw [parseResult, strtoll_signedDecimal (by omega) (by omega)]
  dsimp only
  rw [if_neg (by simp only [ne_eq, not_true_eq_false, false_or, filled.symm]; exact range),
    Int32.ofInt_toInt]

/-! ## One line -/

/-- An event with texts that fit their fields. -/
structure Event.Fits (event : Event) : Prop where
  /-- The subject fits. -/
  subject : event.subject.length < 64
  /-- The action fits. -/
  action : event.action.length < 64
  /-- The target fits. -/
  target : event.target.length < 256
  /-- The detail fits. -/
  detail : event.detail.length < 512

/-- An event as `append` stores it. -/
structure Event.Stored (event : Event) : Prop extends Event.Fits event where
  /-- It has a number. -/
  numbered : event.seq ≠ 0

/-- The line of an event without its line feed. -/
def lineBody (event : Event) : CString :=
  escape (decimal event.seq.toNat) ++ bar :: (escape (signedDecimal event.ts.toInt) ++
    bar :: (escape event.subject ++ bar :: (escape event.action ++ bar :: (escape event.target ++
      bar :: (escape (signedDecimal event.result.toInt) ++ bar :: escape event.detail)))))

/-- An escaped text is at most twice as long. -/
theorem escape_length (text : CString) : (escape text).length ≤ 2 * text.length := by
  induction text with
  | nil => simp [escape]
  | cons byte rest ih =>
    have short := escByte_length byte
    have shape : escape (byte :: rest) = escByte byte ++ escape rest := rfl
    rw [shape, List.length_append, List.length_cons]
    omega

/-- The line of an event with texts that fit has at most 2000 bytes. -/
theorem lineBody_length {event : Event} (fits : event.Fits) :
    (lineBody event).length ≤ 2000 := by
  have subject := fits.subject
  have action := fits.action
  have target := fits.target
  have detail := fits.detail
  have seq : (decimal event.seq.toNat).length ≤ 20 := decimal_length event.seq.toNat_lt
  have ts := (signedDecimal_length event.ts.le_toInt event.ts.toInt_lt).1
  have low : -2 ^ 31 ≤ event.result.toInt := event.result.le_toInt
  have high : event.result.toInt < 2 ^ 31 := event.result.toInt_lt
  have within : -2 ^ 63 ≤ event.result.toInt ∧ event.result.toInt < 2 ^ 63 := by omega
  have result := (signedDecimal_length within.1 within.2).1
  have subjectText := escape_length event.subject
  have actionText := escape_length event.action
  have targetText := escape_length event.target
  have detailText := escape_length event.detail
  simp only [lineBody, escape_decimal, escape_signedDecimal, List.length_append, List.length_cons]
  omega

/-- An event with texts that fit is written whole. -/
theorem fmtLine_fits {event : Event} (fits : event.Fits) :
    fmtLine 4096 event = some (lineBody event ++ [newline]) := by
  have subject := fits.subject
  have action := fits.action
  have target := fits.target
  have detail := fits.detail
  have fields : [bar].intercalate (lineFields event) = lineBody event := by
    rw [lineFields, fmtEsc_eq (by omega), fmtEsc_eq (by omega), fmtEsc_eq (by omega),
      fmtEsc_eq (by omega)]
    simp [lineBody, List.intercalate, List.intersperse, escape_decimal, escape_signedDecimal]
  have short := lineBody_length fits
  rw [fmtLine, fields]
  exact if_neg (by rw [List.length_append, List.length_singleton]; omega)

/-- The line of an event has its line feed at the end only. -/
theorem lineBody_plain (event : Event) : ∀ byte ∈ lineBody event, isLineEnd byte = false := by
  intro byte found
  simp only [lineBody, List.mem_append, List.mem_cons] at found
  have barred : isLineEnd bar = false := by decide
  rcases found with inside | rfl | inside | rfl | inside | rfl | inside | rfl | inside | rfl |
    inside | rfl | inside
  all_goals first | exact barred | exact escape_plain _ _ inside

/-- The line of a stored event is read back as the event. -/
theorem parseEvent_lineBody {event : Event} (stored : event.Stored) :
    parseEvent (lineBody event ++ [newline]) = some event := by
  have seq : (decimal event.seq.toNat).length < 32 :=
    Nat.lt_of_le_of_lt (decimal_length event.seq.toNat_lt) (by decide)
  have ts : (signedDecimal event.ts.toInt).length < 32 :=
    Nat.lt_of_le_of_lt (signedDecimal_length event.ts.le_toInt event.ts.toInt_lt).1 (by decide)
  have low : -2 ^ 31 ≤ event.result.toInt := event.result.le_toInt
  have high : event.result.toInt < 2 ^ 31 := event.result.toInt_lt
  have result : (signedDecimal event.result.toInt).length < 32 :=
    Nat.lt_of_le_of_lt (signedDecimal_length (by omega) (by omega)).1 (by decide)
  have text : (lineBody event ++ [newline]).rdropWhile isLineEnd = lineBody event := by
    rw [rdropWhile_snoc _ (by decide), rdropWhile_of_forall (lineBody_plain event)]
  have filled : lineBody event ≠ [] := by simp [lineBody]
  rw [parseEvent, text, if_neg filled, parseFields, lineBody]
  simp only [bind, Option.bind, escField_bar _ seq, parseSeq_decimal stored.numbered,
    escField_bar _ ts, parseTs_signedDecimal, escField_bar _ stored.subject,
    escField_bar _ stored.action, escField_bar _ stored.target, escField_bar _ result,
    parseResult_signedDecimal, escField_end stored.detail]
  simp

/-- A line that is read has a number other than zero. -/
theorem parseEvent_numbered {line : CString} {event : Event}
    (read : parseEvent line = some event) : event.seq ≠ 0 := by
  have numbered {text : CString} {seq : UInt64} (parsed : parseSeq text = some seq) : seq ≠ 0 := by
    have bound := strtoull_lt text
    unfold parseSeq at parsed
    dsimp only at parsed
    split at parsed
    · cases parsed
    · rename_i kept
      obtain rfl := Option.some.inj parsed
      rw [ne_eq, ← UInt64.toNat_inj, UInt64.toNat_ofNat_of_lt' bound]
      exact fun zero => kept (.inr zero)
  unfold parseEvent at read
  dsimp only at read
  split at read
  · cases read
  · simp only [parseFields, Option.bind_eq_bind, Option.bind_eq_some_iff] at read
    obtain ⟨_, -, seq, parsed, _, -, _, -, _, -, _, -, _, -, _, -, _, -, _, -, read⟩ := read
    split at read
    · obtain rfl := Option.some.inj read
      exact numbered parsed
    · cases read

end HwrunOs.Audit
