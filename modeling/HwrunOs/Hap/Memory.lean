import HwrunOs.Hap.LineValue

/-!
# Memory

`hap_memory_probe` reads the numbers of `/proc/meminfo` by their keys. On a table in the kernel's
format the reader of a key is the lookup in the table: every line has a value, no key has a byte
that may separate it, and no number is cut.
-/

namespace HwrunOs.Hap

open HwrunOs.Bytes

/-- `hap_memory_info_t`. -/
structure MemoryInfo where
  /-- `total_kb`. -/
  totalKb : Nat
  /-- `free_kb`. -/
  freeKb : Nat
  /-- `available_kb`. -/
  availableKb : Nat
  /-- `used_kb`. -/
  usedKb : Nat
  /-- `swap_total_kb`. -/
  swapTotalKb : Nat
  /-- `swap_free_kb`. -/
  swapFreeKb : Nat
  /-- `memory_type`. -/
  memoryType : Field 32

/-- `hap_mem_key_kb`. -/
def hapMemKeyKb (meminfo key : CString) : Nat :=
  match hapLineValue meminfo key 256 with
  | some buf => (strtoull buf).1
  | none => 0

/-- The record with the numbers that are found for the keys; `MemFree` stands in for a missing
`MemAvailable`. -/
def memoryInfo (number : CString → Nat) : MemoryInfo :=
  let total := number (lit "MemTotal")
  let free := number (lit "MemFree")
  let named := number (lit "MemAvailable")
  let available := if named = 0 ∧ 0 < total then free else named
  { totalKb := total
    freeKb := free
    availableKb := available
    usedKb := if available < total then total - available else 0
    swapTotalKb := number (lit "SwapTotal")
    swapFreeKb := number (lit "SwapFree")
    memoryType := Field.copy [] }

/-- `hap_memory_probe`. -/
def hapMemoryProbe (files : Files) : MemoryInfo :=
  match hapReadFile files (lit "/proc/meminfo") 8192 with
  | some meminfo => memoryInfo (hapMemKeyKb meminfo)
  | none => memoryInfo fun _ => 0

/-! ## What the kernel prints -/

/-- A byte of a key, which sets nothing off. -/
def isKeyByte (byte : UInt8) : Bool := !isSeparator byte && byte != 0

/-- A key of such bytes. -/
abbrev MemKey := { key : CString // key.all isKeyByte = true }

/-- A line of `/proc/meminfo`. -/
structure MemLine where
  /-- The key. -/
  key : MemKey
  /-- The blanks in front of the number. -/
  padding : Nat
  /-- The number. -/
  kb : UInt64

/-- The text of a line. -/
def MemLine.text (line : MemLine) : CString :=
  line.key.1 ++ 58 :: (List.replicate line.padding 32 ++ (decimal line.kb.toNat ++ lit " kB"))

/-- The text of a table. -/
def memText (table : List MemLine) : CString := table.flatMap fun line => line.text ++ [newline]

/-- The number of a key in a table, and 0 without one. -/
def numberOf (table : List MemLine) (key : CString) : Nat :=
  ((table.find? fun line => line.key.1 = key).map fun line => line.kb.toNat).getD 0

/-! ## The lookup -/

/-- A byte of a key is no separator, and no zero. -/
theorem MemKey.solid (key : MemKey) {byte : UInt8} (found : byte ∈ key.1) :
    isSeparator byte = false ∧ byte ≠ 0 := by
  have plain := List.all_eq_true.mp key.2 byte found
  rw [isKeyByte, Bool.and_eq_true, Bool.not_eq_true', bne_iff_ne] at plain
  exact plain

/-- The bytes of a line are no zeros and no line feeds. -/
theorem MemLine.text_plain (line : MemLine) : ∀ byte ∈ line.text, byte ≠ 0 ∧ byte ≠ newline := by
  intro byte found
  simp only [MemLine.text, List.mem_append, List.mem_cons, List.mem_replicate] at found
  rcases found with key | rfl | ⟨-, rfl⟩ | digit | unit
  · obtain ⟨solid, filled⟩ := line.key.solid key
    refine ⟨filled, ?_⟩
    rintro rfl
    cases solid
  · decide
  · decide
  · have numeral := decimal_digits line.kb.toNat byte digit
    constructor <;> rintro rfl <;> cases numeral
  · have bytes : lit " kB" = [32, 107, 66] := rfl
    rw [bytes] at unit
    constructor <;> rintro rfl <;> cases unit <;> contradiction

/-- The lines of a table. -/
theorem lines_memText (table : List MemLine) : lines (memText table) = table.map MemLine.text := by
  induction table with
  | nil => rfl
  | cons line table ih =>
    have plain : newline ∉ line.text := fun found => (line.text_plain _ found).2 rfl
    rw [memText, List.flatMap_cons, List.append_assoc, List.singleton_append, lines_line plain,
      ← memText, ih, List.map_cons]

/-- A line has a key and a separator when its own key is that key. -/
theorem keyed_memLine (line : MemLine) (key : MemKey) :
    keyed key.1 line.text = true ↔ line.key.1 = key.1 := by
  have front {key : MemKey} {separator : UInt8} (sets : isSeparator separator = true)
      (rest : CString) :
      (key.1 ++ separator :: rest).takeWhile (fun byte => !isSeparator byte) = key.1 := by
    rw [List.takeWhile_append_of_pos fun byte found => by simp [(key.solid found).1]]
    simp [sets]
  constructor
  · intro named
    rw [keyed, Bool.and_eq_true, List.isPrefixOf_iff_prefix] at named
    obtain ⟨⟨behind, whole⟩, separated⟩ := named
    rw [← whole, List.drop_left] at separated
    cases behind with
    | nil => cases separated
    | cons separator rest =>
      have own : line.text.takeWhile (fun byte => !isSeparator byte) = line.key.1 :=
        front (by decide) _
      rw [← own, ← whole]
      exact front separated rest
  · intro same
    rw [keyed, Bool.and_eq_true, List.isPrefixOf_iff_prefix, MemLine.text, same, List.drop_left]
    exact ⟨List.prefix_append _ _, rfl⟩

/-- A digit separates nothing. -/
theorem isSeparator_digit {byte : UInt8} (digit : isDigit byte = true) :
    isSeparator byte = false := by
  rw [isSeparator, (digit_plain digit).1, Bool.or_false, Bool.or_eq_false_iff]
  constructor <;> rw [beq_eq_false_iff_ne] <;> rintro rfl <;> cases digit

/-- What is read behind the key of a line is its number and the unit. -/
theorem firstText_memLine (line : MemLine) (later : List CString) :
    firstText (line.text.drop line.key.1.length :: later) =
      decimal line.kb.toNat ++ lit " kB" := by
  have front : ∀ byte ∈ 58 :: List.replicate line.padding (32 : UInt8),
      isSeparator byte = true := by
    intro byte found
    rcases List.mem_cons.mp found with rfl | blank
    · decide
    · rw [List.eq_of_mem_replicate blank]
      decide
  have behind : line.text.drop line.key.1.length = (58 :: List.replicate line.padding 32) ++
      (decimal line.kb.toNat ++ lit " kB") := by
    rw [MemLine.text, List.drop_left, List.cons_append]
  obtain ⟨first, others, digits⟩ := List.exists_cons_of_ne_nil (decimal_ne_nil line.kb.toNat)
  have other : isSeparator first = false :=
    isSeparator_digit (decimal_digits line.kb.toNat first (by simp [digits]))
  rw [behind, firstText_append front, digits, List.cons_append, firstText, List.all_cons, other,
    Bool.false_and, if_neg Bool.false_ne_true, List.dropWhile_cons_of_neg (by simp [other])]

/-- The number in front of its unit is read whole. -/
theorem strtoull_kb (kb : UInt64) :
    (strtoull (((decimal kb.toNat ++ lit " kB").take 255).rdropWhile isSpace)).1 = kb.toNat := by
  have bound := kb.toNat_lt
  have short := decimal_length bound
  have whole : (decimal kb.toNat ++ lit " kB").length ≤ 255 := by
    rw [List.length_append]
    exact Nat.le_trans (Nat.add_le_add_right short _) (by decide)
  have solid : (decimal kb.toNat ++ lit " kB").rdropWhile isSpace =
      decimal kb.toNat ++ lit " kB" := by
    have unit : lit " kB" = lit " k" ++ [66] := by decide
    rw [unit, ← List.append_assoc]
    exact rdropWhile_solid _ (by decide)
  rw [List.take_of_length_le whole, solid, strtoull,
    scanNumber_decimal kb.toNat (lit " kB") (fun byte head => Option.some.inj head ▸ rfl)]
  simp only [if_neg (Nat.not_le.mpr bound), Bool.false_eq_true, if_false]

/-- Reading a key is looking it up in the table. -/
theorem hapMemKeyKb_memText (table : List MemLine) (key : MemKey) :
    hapMemKeyKb (memText table) key.1 = numberOf table key.1 := by
  rw [hapMemKeyKb, hapLineValue_lines _ _ (by decide), lines_memText]
  induction table with
  | nil => rfl
  | cons line table ih =>
    rw [List.map_cons, firstKeyed, numberOf, List.find?_cons]
    by_cases same : line.key.1 = key.1
    · rw [if_pos ((keyed_memLine line key).mpr same), decide_eq_true same, Option.map_some, ← same,
        firstText_memLine]
      exact strtoull_kb line.kb
    · rw [if_neg (fun named => same ((keyed_memLine line key).mp named)), decide_eq_false same]
      exact ih

/-- The probe reports the numbers of the table, as long as it fits the buffer. -/
theorem hapMemoryProbe_memText {files : Files} {table : List MemLine}
    (there : files (lit "/proc/meminfo") = some (memText table))
    (fits : (memText table).length < 8192) :
    hapMemoryProbe files = memoryInfo (numberOf table) := by
  cases table with
  | nil =>
    rw [hapMemoryProbe, hapReadFile, there]
    rfl
  | cons line table =>
    have filled : memText (line :: table) ≠ [] := by simp [memText]
    have plain : (0 : UInt8) ∉ memText (line :: table) := by
      intro zero
      obtain ⟨other, -, found⟩ := List.mem_flatMap.mp zero
      rcases List.mem_append.mp found with inside | feed
      · exact (other.text_plain 0 inside).1 rfl
      · cases List.mem_singleton.mp feed
    have looked (key : MemKey) := hapMemKeyKb_memText (line :: table) key
    have total := looked ⟨lit "MemTotal", rfl⟩
    have free := looked ⟨lit "MemFree", rfl⟩
    have available := looked ⟨lit "MemAvailable", rfl⟩
    have swapTotal := looked ⟨lit "SwapTotal", rfl⟩
    have swapFree := looked ⟨lit "SwapFree", rfl⟩
    rw [hapMemoryProbe, hapReadFile_whole there filled fits plain]
    dsimp only
    rw [memoryInfo, memoryInfo, total, free, available, swapTotal, swapFree]

end HwrunOs.Hap
