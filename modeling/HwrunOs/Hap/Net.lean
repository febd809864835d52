import HwrunOs.Hap.Util
import HwrunOs.Np.NetDev

/-!
# The counters of an interface, read twice

`hap_net_octets` looks for the name at the very start of a line, so it finds no name with blanks in
front of it, and its format passes over nine counters behind the first one, so it takes the 11th
for the bytes that were sent. Both readers of `/proc/net/dev` are compared here.
-/

namespace HwrunOs.Hap

open HwrunOs.Bytes HwrunOs.Np

/-- The format of `hap_net_octets`. -/
def octetsFormat : List Conversion := .number :: (List.replicate 9 .skipNumber ++ [.number])

/-- The two numbers on a line when it is the line of that name. -/
def octetsAt (name start : CString) : Option (Nat × Nat) :=
  if name.length < (lineOf start).length ∧ name <+: start ∧
      (start.drop name.length).head? = some 58 then
    match sscanf octetsFormat (start.drop (name.length + 1)) with
    | .number received :: .number sent :: _ => some (received, sent)
    | [.number received] => some (received, 0)
    | _ => none
  else none

/-- `hap_net_octets`: what it returns, and what it leaves in `rx` and `tx`. -/
def hapNetOctets (files : Files) (name : CString) : Bool × Nat × Nat :=
  match hapReadFile files (lit "/proc/net/dev") 8192 with
  | none => (false, 0, 0)
  | some data =>
    match (lineStarts data).findSome? (octetsAt name) with
    | none => (false, 0, 0)
    | some octets => (true, octets)

/-- Both readers report the counters of an interface. -/
def CountersExact (files : Files) (row : DevRow) : Prop :=
  ((procDevStats files row.name.1 .zero).rxBytes = row.rxBytes.value ∧
      (procDevStats files row.name.1 .zero).txBytes = row.txBytes.value) ∧
    (hapNetOctets files row.name.1).2 = (row.rxBytes.value, row.txBytes.value)

/-! ## The format -/

/-- Counters that are passed over. -/
theorem sscanf_skip (counters : List Counter) (others : List Conversion) {rest : CString}
    (ends : ∀ byte ∈ rest.head?, isDigit byte = false) :
    sscanf (List.replicate counters.length .skipNumber ++ others)
        (counters.flatMap Counter.text ++ rest) = sscanf others rest := by
  induction counters with
  | nil => rfl
  | cons counter counters ih =>
    have spaces : ∀ byte ∈ (32 : UInt8) :: List.replicate counter.blanks 32,
        isSpace byte = true := by
      intro byte found
      rcases List.mem_cons.mp found with rfl | inside
      · rfl
      · rw [List.eq_of_mem_replicate inside]
        rfl
    have next : ∀ byte ∈ (counters.flatMap Counter.text ++ rest).head?, isDigit byte = false := by
      cases counters with
      | nil => exact ends
      | cons later counters =>
        intro byte front
        obtain rfl := Option.some.inj front
        decide
    have passed := @scan_skipNumber _ _ counter.value spaces next
    have whole : (counter :: counters).flatMap Counter.text ++ rest =
        32 :: List.replicate counter.blanks 32 ++
          (decimal counter.value ++ (counters.flatMap Counter.text ++ rest)) := by
      simp [Counter.text]
    rw [whole, List.length_cons, List.replicate_succ, List.cons_append, sscanf_cons passed, ih]
    rfl

/-- A counter that is stored. -/
theorem sscanf_store (counter : Counter) (others : List Conversion) {rest : CString}
    (ends : ∀ byte ∈ rest.head?, isDigit byte = false) :
    sscanf (.number :: others) (counter.text ++ rest) =
      .number counter.value :: sscanf others rest := by
  have spaces : ∀ byte ∈ (32 : UInt8) :: List.replicate counter.blanks 32,
      isSpace byte = true := by
    intro byte found
    rcases List.mem_cons.mp found with rfl | inside
    · rfl
    · rw [List.eq_of_mem_replicate inside]
      rfl
  have scanned := scan_number spaces counter.bound ends
  have whole : counter.text ++ rest = 32 :: List.replicate counter.blanks 32 ++
      (decimal counter.value ++ rest) := by
    simp [Counter.text]
  rw [whole, sscanf_cons scanned]
  rfl

/-- The format takes the 1st and the 11th counter. -/
theorem sscanf_octets (row : DevRow) (rest : CString) :
    sscanf octetsFormat (row.counters.flatMap Counter.text ++ newline :: rest) =
      [.number row.rxBytes.value, .number row.txErrors.value] := by
  have blank (counters : List Counter) :
      ∀ byte ∈ (counters.flatMap Counter.text ++ newline :: rest).head?,
        isDigit byte = false := by
    intro byte front
    cases counters with
    | nil =>
      obtain rfl := Option.some.inj front
      decide
    | cons counter counters =>
      obtain rfl := Option.some.inj front
      decide
  have nine : (row.received ++ [row.txBytes, row.txPackets]).length = 9 := by
    rw [List.length_append, row.received_length]
    rfl
  have whole : row.counters.flatMap Counter.text ++ newline :: rest = row.rxBytes.text ++
      ((row.received ++ [row.txBytes, row.txPackets]).flatMap Counter.text ++
        (row.txErrors.text ++ (row.sent.flatMap Counter.text ++ newline :: rest))) := by
    simp [DevRow.counters]
  have errors : ∀ byte ∈ (row.txErrors.text ++
      (row.sent.flatMap Counter.text ++ newline :: rest)).head?, isDigit byte = false := by
    intro byte front
    obtain rfl := Option.some.inj front
    decide
  have first : ∀ byte ∈ ((row.received ++ [row.txBytes, row.txPackets]).flatMap Counter.text ++
      (row.txErrors.text ++ (row.sent.flatMap Counter.text ++ newline :: rest))).head?,
      isDigit byte = false := by
    obtain ⟨next, others, shape⟩ := List.exists_cons_of_length_eq_add_one nine
    intro byte front
    rw [shape] at front
    obtain rfl := Option.some.inj front
    decide
  rw [whole, octetsFormat, sscanf_store _ _ first, ← nine, sscanf_skip _ _ errors,
    sscanf_store _ _ (blank row.sent)]
  rfl

/-! ## Lines -/

/-- A header line is the line of no name. -/
theorem octetsAt_header {name : CString} (header : DevHeader) (rest : CString) :
    octetsAt name (header.1 ++ newline :: rest) = none := by
  have plain : newline ∉ header.1 := fun found => (header.2.2 newline found).1 rfl
  rw [octetsAt, if_neg]
  rintro ⟨short, -, colon⟩
  rw [lineOf_line plain] at short
  rw [List.drop_append_of_le_length (Nat.le_of_lt short)] at colon
  obtain ⟨byte, others, behind⟩ := List.exists_cons_of_ne_nil
    (List.ne_nil_of_length_pos (by rw [List.length_drop]; omega) :
      header.1.drop name.length ≠ [])
  rw [behind, List.cons_append, List.head?_cons, Option.some.injEq] at colon
  have inside : byte ∈ header.1 := List.mem_of_mem_drop (behind ▸ List.mem_cons_self)
  exact (header.2.2 byte inside).2.1 colon

/-- A name with a colon behind it is what stands in the columns. -/
theorem column_of_front {name : IfName} {row : DevRow} {rest : CString}
    (front : name.1 <+: row.column ++ 58 :: rest)
    (colon : ((row.column ++ 58 :: rest).drop name.1.length).head? = some 58) :
    row.column = name.1 := by
  obtain ⟨behind, whole⟩ := front
  rw [← whole, List.drop_left] at colon
  obtain ⟨tail, rfl⟩ : ∃ tail, behind = 58 :: tail := by
    cases behind with
    | nil => cases colon
    | cons byte tail => exact ⟨tail, by rw [Option.some.inj colon]⟩
  have absent : (58 : UInt8) ∉ name.1 := fun found => (name.2.2.2 58 found).2.1 rfl
  have clean : (58 : UInt8) ∉ row.column := fun found => (row.column_plain 58 found).2.1 rfl
  have cut := congrArg (cutAt 58) whole
  rw [cutAt_append absent, cutAt_append clean, Option.some.injEq, Prod.mk.injEq] at cut
  exact cut.1.symm

/-- A row is the line of a name exactly when the name is what stands in its columns. -/
theorem octetsAt_row (row : DevRow) (name : IfName) (rest : CString) :
    octetsAt name.1 (row.line ++ newline :: rest) =
      if row.column = name.1 then some (row.rxBytes.value, row.txErrors.value) else none := by
  have plain : newline ∉ row.line := fun found => (row.line_plain newline found).1 rfl
  by_cases same : row.column = name.1
  · have line : row.line = name.1 ++ 58 :: row.counters.flatMap Counter.text := by
      rw [DevRow.line, same]
    have starts : name.1.length < (lineOf (row.line ++ newline :: rest)).length ∧
        name.1 <+: row.line ++ newline :: rest ∧
        ((row.line ++ newline :: rest).drop name.1.length).head? = some 58 := by
      rw [lineOf_line plain, line, List.append_assoc, List.drop_left]
      refine ⟨?_, List.prefix_append _ _, rfl⟩
      rw [List.length_append, List.length_cons]
      omega
    have counters : (row.line ++ newline :: rest).drop (name.1.length + 1) =
        row.counters.flatMap Counter.text ++ newline :: rest := by
      rw [line, List.append_assoc, ← List.drop_drop, List.drop_left]
      rfl
    rw [octetsAt, if_pos starts, counters, sscanf_octets, if_pos same]
  · rw [octetsAt, if_neg, if_neg same]
    rintro ⟨-, front, colon⟩
    rw [DevRow.line, List.append_assoc, List.cons_append] at front colon
    exact same (column_of_front front colon)

/-- What `hap_net_octets` reports for an interface. -/
theorem hapNetOctets_row {files : Files} {table : NetDev} (fits : table.Fits)
    (there : files (lit "/proc/net/dev") = some table.text) {row : DevRow}
    (listed : row ∈ table.rows) :
    hapNetOctets files row.name.1 =
      if row.Wide then (true, row.rxBytes.value, row.txErrors.value) else (false, 0, 0) := by
  have plain : ∀ line ∈ table.lines, newline ∉ line := fun line inside found =>
    (table.lines_plain line inside newline found).1 rfl
  have zero : (0 : UInt8) ∉ table.text := by
    intro found
    obtain ⟨line, inside, part⟩ := List.mem_flatMap.mp found
    rcases List.mem_append.mp part with here | feed
    · exact (table.lines_plain line inside 0 here).2 rfl
    · exact absurd (List.mem_singleton.mp feed) (by decide)
  have filled : table.text ≠ [] := by simp [NetDev.text, NetDev.lines]
  have room : 1 < 8192 := by decide
  have read := hapReadFile_some there filled room
  rw [List.take_of_length_le (Nat.le_of_lt_succ fits), bufferText_eq zero] at read
  have search : (lineStarts table.text).findSome? (octetsAt row.name.1) =
      table.rows.findSome? fun other =>
        if other.Wide ∧ other.name.1 = row.name.1 then
          some (other.rxBytes.value, other.txErrors.value)
        else none := by
    have local_ : ∀ line ∈ table.lines, ∀ rest, octetsAt row.name.1 (line ++ newline :: rest) =
        octetsAt row.name.1 (line ++ [newline]) := by
      intro line inside rest
      rcases List.mem_cons.mp inside with rfl | inside
      · rw [octetsAt_header, octetsAt_header]
      rcases List.mem_cons.mp inside with rfl | inside
      · rw [octetsAt_header, octetsAt_header]
      · obtain ⟨other, -, rfl⟩ := List.mem_map.mp inside
        rw [octetsAt_row, octetsAt_row]
    have each (other : DevRow) :
        ((fun line => octetsAt row.name.1 (line ++ [newline])) ∘ DevRow.line) other =
          if other.Wide ∧ other.name.1 = row.name.1 then
            some (other.rxBytes.value, other.txErrors.value)
          else none := by
      show octetsAt row.name.1 (other.line ++ [newline]) = _
      rw [octetsAt_row]
      simp only [DevRow.column_eq_iff row other]
    rw [NetDev.text, findSome?_lineStarts table.lines plain local_, NetDev.lines,
      List.findSome?_cons, octetsAt_header, List.findSome?_cons, octetsAt_header,
      List.findSome?_map, funext each]
  rw [hapNetOctets, read]
  dsimp only
  rw [search, table.findSome?_row listed fun other => (other.rxBytes.value, other.txErrors.value)]
  by_cases wide : row.Wide
  · rw [if_pos wide, if_pos wide]
  · rw [if_neg wide, if_neg wide]

/-- A counter with one blank in front. -/
def plainCounter (value : Nat) (bound : value < 2 ^ 64) : Counter := ⟨0, value, bound⟩

/-- A counter that is zero. -/
def zeroCounter : Counter := plainCounter 0 (by decide)

/-- The line of the loopback interface, with 1000 bytes received and sent. -/
def loopbackRow : DevRow where
  name := ⟨lit "lo", by decide, by decide, by decide +kernel⟩
  rxBytes := plainCounter 1000 (by decide)
  received := List.replicate 7 zeroCounter
  received_length := rfl
  txBytes := plainCounter 1000 (by decide)
  txPackets := zeroCounter
  txErrors := zeroCounter
  sent := List.replicate 5 zeroCounter
  sent_length := rfl

/-- The table with that line. -/
def loopbackTable : NetDev where
  header := ⟨lit "Inter-|   Receive  |  Transmit", by decide +kernel⟩
  columns := ⟨lit " face |bytes |bytes", by decide +kernel⟩
  rows := [loopbackRow]
  names := by simp
  line_fits := by
    intro row listed
    obtain rfl := List.mem_singleton.mp listed
    decide +kernel

/-- A system with that table. -/
def loopbackFiles : Files := fun path =>
  if path = lit "/proc/net/dev" then some loopbackTable.text else none

end HwrunOs.Hap
