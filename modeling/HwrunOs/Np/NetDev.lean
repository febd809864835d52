import HwrunOs.Library.Lines
import HwrunOs.Library.Scanf
import Mathlib.Data.List.Nodup

/-!
# The counters of the interfaces

`/proc/net/dev` has two header lines and a line for each interface: the name, right-aligned in six
columns, a colon and sixteen counters. `proc_dev_stats` of `np/src/np_interface.c` takes the blanks
behind a name away, not those in front of it.
-/

namespace HwrunOs.Np

open HwrunOs.Bytes

/-- The counters of an interface in `np_interface_t`. -/
structure DevStats where
  /-- `rx_bytes`. -/
  rxBytes : Nat
  /-- `rx_packets`. -/
  rxPackets : Nat
  /-- `tx_bytes`. -/
  txBytes : Nat
  /-- `tx_packets`. -/
  txPackets : Nat

/-- The record after `memset`. -/
def DevStats.zero : DevStats := ⟨0, 0, 0, 0⟩

/-- The loop over at most `count` numbers between blanks. -/
def scanCounters : Nat → CString → List Nat
  | 0, _ => []
  | count + 1, text =>
    let start := text.dropWhile (· == 32)
    if start = [] then []
    else
      match sscanf [.number] start with
      | [.number value] => value :: scanCounters count (start.dropWhile (· != 32))
      | _ => []

/-- The counters on a line when it is the line of that name. -/
def devLine (name line : CString) : Option (List Nat) :=
  match cutAt 58 line with
  | none => none
  | some (front, rest) =>
    if (front.take 16).rdropWhile (· == 32) = name then some (scanCounters 16 rest) else none

/-- The counters that are found replace those of the record. -/
def DevStats.store (stats : DevStats) (counters : List Nat) : DevStats where
  rxBytes := counters[0]?.getD stats.rxBytes
  rxPackets := counters[1]?.getD stats.rxPackets
  txBytes := counters[8]?.getD stats.txBytes
  txPackets := counters[9]?.getD stats.txPackets

/-- `proc_dev_stats`. -/
def procDevStats (files : CString → Option CString) (name : CString) (stats : DevStats) :
    DevStats :=
  match files (lit "/proc/net/dev") with
  | none => stats
  | some text =>
    match ((fgetsLines 640 text).drop 2).findSome? (devLine name) with
    | none => stats
    | some counters => stats.store counters

/-! ## What the kernel prints -/

/-- The name of an interface. -/
abbrev IfName :=
  { name : CString // name ≠ [] ∧ name.length ≤ 15 ∧
    ∀ byte ∈ name, isSpace byte = false ∧ byte ≠ 58 ∧ byte ≠ 0 }

/-- A counter, with the blanks in front of it. -/
structure Counter where
  /-- The blanks behind the first one. -/
  blanks : Nat
  /-- The number. -/
  value : Nat
  /-- A counter has 64 bits. -/
  bound : value < 2 ^ 64

/-- The text of a counter. -/
def Counter.text (counter : Counter) : CString :=
  32 :: (List.replicate counter.blanks 32 ++ decimal counter.value)

/-- The line of an interface. -/
structure DevRow where
  /-- Its name. -/
  name : IfName
  /-- The 1st counter. -/
  rxBytes : Counter
  /-- The other counters of what was received. -/
  received : List Counter
  /-- There are seven of them. -/
  received_length : received.length = 7
  /-- The 9th counter. -/
  txBytes : Counter
  /-- The 10th counter. -/
  txPackets : Counter
  /-- The 11th counter. -/
  txErrors : Counter
  /-- The other counters of what was sent. -/
  sent : List Counter
  /-- There are five of them. -/
  sent_length : sent.length = 5

namespace DevRow

/-- The sixteen counters. -/
def counters (row : DevRow) : List Counter :=
  row.rxBytes :: (row.received ++ row.txBytes :: row.txPackets :: row.txErrors :: row.sent)

/-- The name in its columns. -/
def column (row : DevRow) : CString :=
  List.replicate (6 - row.name.1.length) 32 ++ row.name.1

/-- The line. -/
def line (row : DevRow) : CString := row.column ++ 58 :: row.counters.flatMap Counter.text

/-- The name fills its columns. -/
def Wide (row : DevRow) : Prop := 6 ≤ row.name.1.length

instance (row : DevRow) : Decidable row.Wide := inferInstanceAs (Decidable (_ ≤ _))

end DevRow

/-- A header line: no colon, and it fits `char line[640]`. -/
abbrev DevHeader :=
  { line : CString // line.length + 1 < 640 ∧ ∀ byte ∈ line, byte ≠ newline ∧ byte ≠ 58 ∧ byte ≠ 0 }

/-- `/proc/net/dev`, in the sizes of the read buffers. -/
structure NetDev where
  /-- The first header line. -/
  header : DevHeader
  /-- The second header line. -/
  columns : DevHeader
  /-- The interfaces. -/
  rows : List DevRow
  /-- No two interfaces have one name. -/
  names : (rows.map fun row => row.name.1).Nodup
  /-- Every line fits `char line[640]`. -/
  line_fits : ∀ row ∈ rows, row.line.length + 1 < 640

namespace NetDev

/-- The lines. -/
def lines (table : NetDev) : List CString :=
  table.header.1 :: table.columns.1 :: table.rows.map DevRow.line

/-- The file. -/
def text (table : NetDev) : CString := table.lines.flatMap (· ++ [newline])

/-- The file fits `char data[8192]`. -/
def Fits (table : NetDev) : Prop := table.text.length < 8192

end NetDev

/-! ## Lines -/

/-- A byte of a printed counter is a blank or a digit. -/
theorem Counter.text_bytes (counter : Counter) :
    ∀ byte ∈ counter.text, byte = 32 ∨ isDigit byte = true := by
  intro byte found
  rcases List.mem_cons.mp found with rfl | inside
  · exact .inl rfl
  · rcases List.mem_append.mp inside with blank | digit
    · exact .inl (List.eq_of_mem_replicate blank)
    · exact .inr (decimal_digits _ byte digit)

/-- A name in its columns has neither a colon nor a NUL, and no line feed. -/
theorem DevRow.column_plain (row : DevRow) :
    ∀ byte ∈ row.column, byte ≠ newline ∧ byte ≠ 58 ∧ byte ≠ 0 := by
  intro byte found
  rcases List.mem_append.mp found with blank | inside
  · obtain rfl := List.eq_of_mem_replicate blank
    decide
  · obtain ⟨solid, colon, zero⟩ := row.name.2.2.2 byte inside
    refine ⟨?_, colon, zero⟩
    rintro rfl
    cases solid

/-- A line has no line feed and no NUL. -/
theorem DevRow.line_plain (row : DevRow) : ∀ byte ∈ row.line, byte ≠ newline ∧ byte ≠ 0 := by
  intro byte found
  rcases List.mem_append.mp found with front | back
  · exact ⟨(row.column_plain byte front).1, (row.column_plain byte front).2.2⟩
  · rcases List.mem_cons.mp back with rfl | inside
    · decide
    · obtain ⟨counter, -, part⟩ := List.mem_flatMap.mp inside
      rcases counter.text_bytes byte part with rfl | digit
      · decide
      · constructor <;> (rintro rfl; cases digit)

/-- The lines of the table have neither line feeds nor NULs. -/
theorem NetDev.lines_plain (table : NetDev) :
    ∀ line ∈ table.lines, ∀ byte ∈ line, byte ≠ newline ∧ byte ≠ 0 := by
  intro line listed byte found
  rcases List.mem_cons.mp listed with rfl | listed
  · exact ⟨(table.header.2.2 byte found).1, (table.header.2.2 byte found).2.2⟩
  rcases List.mem_cons.mp listed with rfl | listed
  · exact ⟨(table.columns.2.2 byte found).1, (table.columns.2.2 byte found).2.2⟩
  · obtain ⟨row, -, rfl⟩ := List.mem_map.mp listed
    exact row.line_plain byte found

/-- The names of two rows tell them apart. -/
theorem NetDev.row_eq (table : NetDev) {row other : DevRow} (listed : row ∈ table.rows)
    (inside : other ∈ table.rows) (same : other.name.1 = row.name.1) : other = row :=
  List.inj_on_of_nodup_map table.names inside listed same

/-! ## Counters -/

/-- The blanks in front of a counter mean nothing, and the number ends in front of the next one. -/
theorem sscanf_counter {counter : Counter} {rest : CString}
    (ends : ∀ byte ∈ rest.head?, isDigit byte = false) :
    sscanf [.number] (decimal counter.value ++ rest) = [.number counter.value] := by
  have none : ∀ byte ∈ ([] : CString), isSpace byte = true := by simp
  have scanned := scan_number none counter.bound ends
  rw [List.nil_append] at scanned
  rw [sscanf_cons scanned]
  rfl

/-- Counters in front of a line end do not start with a digit. -/
theorem counters_front (counters : List Counter) :
    ∀ byte ∈ (counters.flatMap Counter.text ++ [newline]).head?, isDigit byte = false := by
  intro byte front
  cases counters with
  | nil =>
    obtain rfl := Option.some.inj front
    decide
  | cons counter counters =>
    obtain rfl := Option.some.inj front
    decide

/-- The loop reads the counters of a line. -/
theorem scanCounters_text (counters : List Counter) :
    scanCounters counters.length (counters.flatMap Counter.text ++ [newline]) =
      counters.map Counter.value := by
  induction counters with
  | nil => rfl
  | cons counter counters ih =>
    have solid {byte : UInt8} (digit : isDigit byte = true) : (byte == 32) = false := by
      rw [beq_eq_false_iff_ne]
      rintro rfl
      cases digit
    obtain ⟨first, others, shape⟩ := List.exists_cons_of_ne_nil (decimal_ne_nil counter.value)
    have digits := decimal_digits counter.value
    have start : ((counter :: counters).flatMap Counter.text ++ [newline]).dropWhile (· == 32) =
        decimal counter.value ++ (counters.flatMap Counter.text ++ [newline]) := by
      rw [List.flatMap_cons, Counter.text, List.cons_append, List.cons_append,
        List.dropWhile_cons_of_pos rfl, List.append_assoc, List.append_assoc,
        List.dropWhile_append_of_pos (fun byte found => by simp [List.eq_of_mem_replicate found]),
        shape, List.cons_append, List.dropWhile_cons_of_neg]
      simp [solid (digits first (by simp [shape]))]
    have behind : (decimal counter.value ++ (counters.flatMap Counter.text ++ [newline])).dropWhile
        (· != 32) = (counters.flatMap Counter.text ++ [newline]).dropWhile (· != 32) :=
      List.dropWhile_append_of_pos fun byte found => by
        simp [bne, solid (digits byte found)]
    have filled : decimal counter.value ++ (counters.flatMap Counter.text ++ [newline]) ≠ [] := by
      simp [shape]
    rw [List.length_cons, scanCounters, start, if_neg filled,
      sscanf_counter (counters_front counters), behind, List.map_cons]
    cases counters with
    | nil => rfl
    | cons next counters =>
      rw [← ih]
      rfl

/-- The values of the counters. -/
def DevRow.values (row : DevRow) : List Nat := row.counters.map Counter.value

/-- The line of a row is that of a name exactly when the name is what stands in the columns. -/
theorem devLine_row (row : DevRow) (name : CString) :
    devLine name (row.line ++ [newline]) =
      if row.column = name then some row.values else none := by
  have colon : (58 : UInt8) ∉ row.column := fun found => (row.column_plain 58 found).2.1 rfl
  have short : row.column.length ≤ 16 := by
    have name := row.name.2.2.1
    rw [DevRow.column, List.length_append, List.length_replicate]
    omega
  have solid : ∀ byte ∈ row.name.1, (byte == 32) = false := by
    intro byte found
    rw [beq_eq_false_iff_ne]
    rintro rfl
    cases (row.name.2.2.2 32 found).1
  have kept : row.column.rdropWhile (· == 32) = row.column :=
    rdropWhile_word _ row.name.2.1 solid
  have sixteen : row.counters.length = 16 := by
    simp [DevRow.counters, row.received_length, row.sent_length]
  have read := scanCounters_text row.counters
  rw [sixteen] at read
  rw [devLine, DevRow.line, List.append_assoc, List.cons_append, cutAt_append colon]
  dsimp only
  rw [List.take_of_length_le short, kept, read, DevRow.values]

/-- What stands in the columns is a name exactly when it fills them. -/
theorem DevRow.column_eq_iff (row other : DevRow) :
    other.column = row.name.1 ↔ other.Wide ∧ other.name.1 = row.name.1 := by
  constructor
  · intro same
    by_cases wide : other.Wide
    · have none : 6 - other.name.1.length = 0 := Nat.sub_eq_zero_of_le wide
      rw [DevRow.column, none] at same
      exact ⟨wide, same⟩
    · obtain ⟨pad, padded⟩ : ∃ pad, 6 - other.name.1.length = pad + 1 :=
        ⟨5 - other.name.1.length, by unfold DevRow.Wide at wide; omega⟩
      rw [DevRow.column, padded, List.replicate_succ, List.cons_append] at same
      have blank : (32 : UInt8) ∈ row.name.1 := by
        rw [← same]
        exact List.mem_cons_self
      cases (row.name.2.2.2 32 blank).1
  · rintro ⟨wide, same⟩
    have none : 6 - other.name.1.length = 0 := Nat.sub_eq_zero_of_le wide
    rw [DevRow.column, none]
    exact same

/-- The search for an interface in the table finds it exactly when its name fills its columns. -/
theorem NetDev.findSome?_row {β : Type} (table : NetDev) {row : DevRow}
    (listed : row ∈ table.rows) (value : DevRow → β) :
    (table.rows.findSome? fun other =>
        if other.Wide ∧ other.name.1 = row.name.1 then some (value other) else none) =
      if row.Wide then some (value row) else none := by
  by_cases wide : row.Wide
  · rw [if_pos wide]
    refine findSome?_agree listed (if_pos ⟨wide, rfl⟩) fun other inside found hit => ?_
    split at hit
    · rename_i both
      obtain rfl := table.row_eq listed inside both.2
      exact (Option.some.inj hit).symm
    · cases hit
  · rw [if_neg wide, List.findSome?_eq_none_iff]
    intro other inside
    rw [if_neg]
    rintro ⟨filled, same⟩
    obtain rfl := table.row_eq listed inside same
    exact wide filled

/-- `proc_dev_stats` finds an interface exactly when its name fills the columns. -/
theorem procDevStats_row {files : CString → Option CString} {table : NetDev}
    (there : files (lit "/proc/net/dev") = some table.text) {row : DevRow}
    (listed : row ∈ table.rows) (stats : DevStats) :
    (row.Wide → procDevStats files row.name.1 stats = stats.store row.values) ∧
      (¬ row.Wide → procDevStats files row.name.1 stats = stats) := by
  have fits : ∀ line ∈ table.lines, newline ∉ line ∧ line.length + 1 < 640 := by
    intro line inside
    refine ⟨fun feed => (table.lines_plain line inside newline feed).1 rfl, ?_⟩
    rcases List.mem_cons.mp inside with rfl | inside
    · exact table.header.2.1
    rcases List.mem_cons.mp inside with rfl | inside
    · exact table.columns.2.1
    · obtain ⟨other, member, rfl⟩ := List.mem_map.mp inside
      exact table.line_fits other member
  have read : (fgetsLines 640 table.text).drop 2 =
      table.rows.map fun other => other.line ++ [newline] := by
    rw [NetDev.text, fgetsLines_flatMap _ fits, NetDev.lines, List.map_cons, List.map_cons,
      List.drop_succ_cons, List.drop_succ_cons, List.drop_zero, List.map_map]
    rfl
  have search (other : DevRow) :
      (devLine row.name.1 ∘ fun other : DevRow => other.line ++ [newline]) other =
        if other.Wide ∧ other.name.1 = row.name.1 then some other.values else none := by
    show devLine row.name.1 (other.line ++ [newline]) = _
    rw [devLine_row]
    simp only [DevRow.column_eq_iff row other]
  rw [procDevStats, there]
  dsimp only
  rw [read, List.findSome?_map, funext search]
  rw [table.findSome?_row listed]
  constructor
  · intro wide
    rw [if_pos wide]
  · intro narrow
    rw [if_neg narrow]

end HwrunOs.Np
