import HwrunOs.Loader.Elf

/-!
# What the ELF reader reads

The reader compares an address with the end of the buffer before it reads there, so a read is
outside only when the sum for the address has passed the end of the address space, or in the header,
whose sixty-four bytes are read of any file of fifty-two. The exact condition is stated on the file
and the address of its buffer.
-/

namespace HwrunOs.Loader

open HwrunOs.Bytes HwrunOs.Endian

/-! ## Numbers of a file -/

/-- The number in some bytes at an offset. -/
def field (bytes : List UInt8) (be : Bool) (offset width : Nat) : Nat :=
  valueOf be ((bytes.drop offset).take width)

/-- The header of a file. -/
def ehdrOf (bytes : List UInt8) (be : Bool) : Ehdr :=
  let narrow := byteAt bytes 4 = elfClass32
  { eiClass := byteAt bytes 4
    eType := field bytes be 16 2
    eMachine := field bytes be 18 2
    eVersion := field bytes be 20 4
    eEntry := if narrow then field bytes be 24 4 else field bytes be 24 8
    ePhoff := if narrow then field bytes be 28 4 else field bytes be 32 8
    eShoff := if narrow then field bytes be 32 4 else field bytes be 40 8
    eFlags := field bytes be 48 4
    eEhsize := field bytes be 52 2
    ePhentsize := field bytes be 54 2
    ePhnum := field bytes be 56 2
    eShentsize := field bytes be 58 2
    eShnum := field bytes be 60 2
    eShstrndx := field bytes be 62 2 }

/-- A program header of the 32-bit class. -/
def ph32Of (bytes : List UInt8) (be : Bool) (offset : Nat) : PhInfo where
  pType := field bytes be (offset + 0) 4
  pFlags := field bytes be (offset + 24) 4
  pOffset := field bytes be (offset + 4) 4
  pVaddr := field bytes be (offset + 8) 4
  pPaddr := field bytes be (offset + 12) 4
  pFilesz := field bytes be (offset + 16) 4
  pMemsz := field bytes be (offset + 20) 4

/-- A program header of the 64-bit class. -/
def ph64Of (bytes : List UInt8) (be : Bool) (offset : Nat) : PhInfo where
  pType := field bytes be (offset + 0) 4
  pFlags := field bytes be (offset + 4) 4
  pOffset := field bytes be (offset + 8) 8
  pVaddr := field bytes be (offset + 16) 8
  pPaddr := field bytes be (offset + 24) 8
  pFilesz := field bytes be (offset + 32) 8
  pMemsz := field bytes be (offset + 40) 8

/-- The program headers from an index that lie in the file. -/
def phList (bytes : List UInt8) (phoff size : Nat) (entry : Nat → PhInfo) :
    Nat → Nat → List PhInfo
  | 0, _ => []
  | left + 1, i =>
    if phoff + i * size + size ≤ bytes.length then
      entry (phoff + i * size) :: phList bytes phoff size entry left (i + 1)
    else []

/-- The size of a program header. -/
def Ehdr.phsz (eh : Ehdr) : Nat := if eh.eiClass = elfClass64 then 56 else 32

/-- The program headers that are taken from a file. -/
def phsOf (bytes : List UInt8) (be : Bool) (eh : Ehdr) : List PhInfo :=
  if eh.ePhnum = 0 ∨ eh.ePhoff = 0 then []
  else phList bytes eh.ePhoff eh.phsz
    (if eh.eiClass = elfClass64 then ph64Of bytes be else ph32Of bytes be) (min eh.ePhnum 8) 0

/-- Offset and size of the string table of a file. -/
def tableOf (bytes : List UInt8) (be : Bool) (eh : Ehdr) : Nat × Nat :=
  let sh := eh.eShoff + eh.eShstrndx * eh.shsz
  if eh.eShstrndx ≠ 0 ∧ eh.eShoff ≠ 0 ∧ eh.eShstrndx < eh.eShnum ∧ sh + eh.shsz ≤ bytes.length then
    if eh.eiClass = elfClass64 then (field bytes be (sh + 24) 8, field bytes be (sh + 32) 8)
    else (field bytes be (sh + 16) 4, field bytes be (sh + 20) 4)
  else (0, 0)

/-! ## The condition -/

/-- The byte order that is used. -/
def Buffer.order (m : Buffer) : Bool := wantBe (m.bytes.drop 1)

/-- The header of the file in the buffer. -/
def Buffer.ehdr (m : Buffer) : Ehdr := ehdrOf m.bytes m.order

/-- The name of a section with this header lies before the end of the address space. -/
def NameFits (m : Buffer) (be : Bool) (table : Nat × Nat) (sh : Nat) : Prop :=
  table.1 ≠ 0 → table.2 ≠ 0 → field m.bytes be sh 4 < table.2 →
    m.base + table.1 + field m.bytes be sh 4 < 2 ^ 64

/-- The whole header is there, and no address of a header or name that is looked at passes the end
of the address space. -/
structure Inside (m : Buffer) : Prop where
  /-- The header is whole. -/
  header : 64 ≤ m.bytes.length
  /-- The first program header. -/
  phdrs : m.ehdr.ePhnum ≠ 0 → m.ehdr.ePhoff ≠ 0 →
    m.base + m.ehdr.ePhoff + m.ehdr.phsz < 2 ^ 64
  /-- The first section header. -/
  sections : m.ehdr.eShnum ≠ 0 → m.ehdr.eShoff ≠ 0 →
    m.base + m.ehdr.eShoff + m.ehdr.shsz < 2 ^ 64
  /-- The header of the string table. -/
  table : m.ehdr.eShoff ≠ 0 → m.ehdr.eShstrndx ≠ 0 → m.ehdr.eShstrndx < m.ehdr.eShnum →
    m.base + m.ehdr.eShoff + m.ehdr.eShstrndx * m.ehdr.shsz + m.ehdr.shsz < 2 ^ 64
  /-- The names of the sections whose headers lie in the file. -/
  names : m.ehdr.eShoff ≠ 0 → ∀ i < min m.ehdr.eShnum 40,
    m.ehdr.eShoff + i * m.ehdr.shsz + m.ehdr.shsz ≤ m.bytes.length →
      NameFits m m.order (tableOf m.bytes m.order m.ehdr) (m.ehdr.eShoff + i * m.ehdr.shsz)

/-! ## Reads -/

section

variable {m : Buffer} {be : Bool}

/-- A read at an offset. -/
theorem rd_offset (width offset : Nat) : rd m be width (m.base + offset) =
    if offset + width ≤ m.bytes.length then some (field m.bytes be offset width) else none := by
  have place : m.base + offset - m.base = offset := by omega
  have bounds : m.base ≤ m.base + offset ∧ m.base + offset + width ≤ m.stop ↔
      offset + width ≤ m.bytes.length := by
    unfold Buffer.stop
    omega
  rw [rd, if_congr bounds rfl rfl, place]
  rfl

/-- A read inside of the buffer. -/
theorem rd_inside {width offset : Nat} (inside : offset + width ≤ m.bytes.length) :
    rd m be width (m.base + offset) = some (field m.bytes be offset width) := by
  rw [rd_offset, if_pos inside]

/-- A sum that does not pass the end. -/
theorem pointer_some {sum : Nat} (fits : sum < 2 ^ 64) : pointer sum = some sum := if_pos fits

/-- A sum that passes the end. -/
theorem pointer_none {sum : Nat} (far : ¬ sum < 2 ^ 64) : pointer sum = none := if_neg far

/-- The header is read of a file of sixty-four bytes. -/
theorem readEhdr_eq : readEhdr m be =
    if 64 ≤ m.bytes.length then some (ehdrOf m.bytes be) else none := by
  unfold readEhdr ehdrOf
  simp only [rd16, rd32, rd64, rd_offset]
  by_cases whole : 64 ≤ m.bytes.length
  · have reach (count : Nat) (small : count ≤ 64) : count ≤ m.bytes.length := by omega
    simp [whole, reach]
    by_cases narrow : byteAt m.bytes 4 = elfClass32
    · simp [narrow]
    · simp [narrow]
  · simp [whole]

/-- A program header of the 32-bit class inside of the buffer. -/
theorem ph32Entry_eq {offset : Nat} (inside : offset + 32 ≤ m.bytes.length) :
    ph32Entry m be (m.base + offset) = some (ph32Of m.bytes be offset) := by
  have read (more width : Nat) (small : more + width ≤ 32) :
      rd m be width (m.base + offset + more) = some (field m.bytes be (offset + more) width) := by
    rw [Nat.add_assoc]
    exact rd_inside (by omega)
  simp [ph32Entry, ph32Of, rd32, read, rd_inside (show offset + 4 ≤ m.bytes.length by omega)]

/-- A program header of the 64-bit class inside of the buffer. -/
theorem ph64Entry_eq {offset : Nat} (inside : offset + 56 ≤ m.bytes.length) :
    ph64Entry m be (m.base + offset) = some (ph64Of m.bytes be offset) := by
  have read (more width : Nat) (small : more + width ≤ 56) :
      rd m be width (m.base + offset + more) = some (field m.bytes be (offset + more) width) := by
    rw [Nat.add_assoc]
    exact rd_inside (by omega)
  simp [ph64Entry, ph64Of, rd32, rd64, read, rd_inside (show offset + 4 ≤ m.bytes.length by omega)]

/-- The loop over the program headers is undefined only when the first address passes the end. -/
theorem phLoop_eq {phoff size : Nat} {entry : Nat → Option PhInfo} {value : Nat → PhInfo}
    (small : size ≤ 64) (reads : ∀ offset, offset + size ≤ m.bytes.length →
      entry (m.base + offset) = some (value offset)) (left i : Nat) :
    phLoop m phoff size entry left i =
      if left = 0 ∨ m.base + phoff + i * size + size < 2 ^ 64 then
        some (phList m.bytes phoff size value left i)
      else none := by
  have low := m.low
  induction left generalizing i with
  | zero => rw [if_pos (.inl rfl)]; rfl
  | succ left ih =>
    unfold phLoop phList
    by_cases fits : m.base + phoff + i * size + size < 2 ^ 64
    · rw [if_pos (.inr fits), pointer_some (by omega)]
      show (pointer (m.base + phoff + i * size + size)).bind _ = _
      rw [pointer_some fits]
      show (if m.stop < m.base + phoff + i * size + size then some [] else _) = _
      by_cases inside : phoff + i * size + size ≤ m.bytes.length
      · have next : (i + 1) * size = i * size + size := Nat.succ_mul i size
        have within : ¬ m.stop < m.base + phoff + i * size + size := by
          unfold Buffer.stop
          omega
        have later : left = 0 ∨ m.base + phoff + (i + 1) * size + size < 2 ^ 64 := by
          rw [next]
          omega
        have place : m.base + phoff + i * size = m.base + (phoff + i * size) := by omega
        rw [if_neg within, if_pos inside, ih, if_pos later, place, reads _ inside]
        rfl
      · have beyond : m.stop < m.base + phoff + i * size + size := by
          unfold Buffer.stop
          omega
        rw [if_pos beyond, if_neg inside]
    · rw [if_neg (by omega)]
      by_cases first : m.base + phoff + i * size < 2 ^ 64
      · rw [pointer_some first]
        show (pointer (m.base + phoff + i * size + size)).bind _ = _
        rw [pointer_none fits]
        rfl
      · rw [pointer_none first]
        rfl

/-- The string table is found unless the address of its header passes the end. -/
theorem stringTable_eq (eh : Ehdr) : stringTable m be eh =
    if eh.eShoff ≠ 0 → eh.eShstrndx ≠ 0 → eh.eShstrndx < eh.eShnum →
      m.base + eh.eShoff + eh.eShstrndx * eh.shsz + eh.shsz < 2 ^ 64
    then some (tableOf m.bytes be eh) else none := by
  unfold stringTable tableOf
  by_cases looked : eh.eShstrndx ≠ 0 ∧ eh.eShoff ≠ 0 ∧ eh.eShstrndx < eh.eShnum
  · obtain ⟨listed, present, among⟩ := looked
    rw [if_pos ⟨listed, present, among⟩]
    by_cases fits : m.base + eh.eShoff + eh.eShstrndx * eh.shsz + eh.shsz < 2 ^ 64
    · have size : eh.shsz = if eh.eiClass = elfClass64 then 64 else 40 := rfl
      have place : m.base + eh.eShoff + eh.eShstrndx * eh.shsz =
          m.base + (eh.eShoff + eh.eShstrndx * eh.shsz) := by omega
      rw [if_pos fun _ _ _ => fits, pointer_some (by omega)]
      show (pointer (m.base + eh.eShoff + eh.eShstrndx * eh.shsz + eh.shsz)).bind _ = _
      rw [pointer_some fits, place]
      generalize eh.eShoff + eh.eShstrndx * eh.shsz = sh at fits place ⊢
      show (if m.base + sh + eh.shsz ≤ m.stop then _ else some (0, 0)) = _
      dsimp only
      by_cases inside : sh + eh.shsz ≤ m.bytes.length
      · have within : m.base + sh + eh.shsz ≤ m.stop := by
          unfold Buffer.stop
          omega
        have read (more width : Nat) (small : more + width ≤ eh.shsz) :
            rd m be width (m.base + sh + more) = some (field m.bytes be (sh + more) width) := by
          rw [Nat.add_assoc]
          exact rd_inside (by omega)
        have all : eh.eShstrndx ≠ 0 ∧ eh.eShoff ≠ 0 ∧ eh.eShstrndx < eh.eShnum ∧
            sh + eh.shsz ≤ m.bytes.length := ⟨listed, present, among, inside⟩
        rw [if_pos within, if_pos all]
        by_cases wide : eh.eiClass = elfClass64
        · rw [if_pos wide] at size ⊢
          rw [if_pos wide, rd64, rd64, read 24 8 (by omega), read 32 8 (by omega)]
          rfl
        · rw [if_neg wide] at size ⊢
          rw [if_neg wide, rd32, rd32, read 16 4 (by omega), read 20 4 (by omega)]
          rfl
      · have beyond : ¬ m.base + sh + eh.shsz ≤ m.stop := by
          unfold Buffer.stop
          omega
        rw [if_neg beyond, if_neg fun all => inside all.2.2.2]
    · rw [if_neg fun all => fits (all present listed among)]
      by_cases first : m.base + eh.eShoff + eh.eShstrndx * eh.shsz < 2 ^ 64
      · rw [pointer_some first]
        show (pointer (m.base + eh.eShoff + eh.eShstrndx * eh.shsz + eh.shsz)).bind _ = _
        rw [pointer_none fits]
        rfl
      · rw [pointer_none first]
        rfl
  · have unlooked : eh.eShoff ≠ 0 → eh.eShstrndx ≠ 0 → eh.eShstrndx < eh.eShnum →
        m.base + eh.eShoff + eh.eShstrndx * eh.shsz + eh.shsz < 2 ^ 64 :=
      fun present listed among => absurd ⟨listed, present, among⟩ looked
    rw [if_neg looked, if_pos unlooked, if_neg]
    rintro ⟨listed, present, among, -⟩
    exact looked ⟨listed, present, among⟩

/-- The bytes of a name are read inside of the buffer. -/
theorem nameLoop_some (m : Buffer) (left : Nat) {nstr : Nat} (behind : m.base ≤ nstr) :
    ∃ name, nameLoop m left nstr = some name := by
  have read (place : Nat) (later : m.base ≤ place) (before : place < m.stop) :
      ∃ byte, rd m false 1 place = some byte := ⟨_, if_pos ⟨later, before⟩⟩
  induction left generalizing nstr with
  | zero =>
    unfold nameLoop
    by_cases before : nstr < m.stop
    · obtain ⟨byte, found⟩ := read nstr behind before
      rw [if_pos before, found, Option.bind_eq_bind, Option.bind_some]
      split <;> exact ⟨_, rfl⟩
    · exact ⟨_, if_neg before⟩
  | succ left ih =>
    unfold nameLoop
    by_cases before : nstr < m.stop
    · have next : m.base ≤ nstr + 1 := by omega
      obtain ⟨rest, more⟩ := ih next
      obtain ⟨byte, found⟩ := read nstr behind before
      rw [if_pos before, found, Option.bind_eq_bind, Option.bind_some]
      split
      · exact ⟨_, rfl⟩
      · dsimp only
        rw [more]
        exact ⟨_, rfl⟩
    · exact ⟨_, if_neg before⟩

/-- A name is read unless its address passes the end. -/
theorem sectionName_isSome (stroff strsz nameoff : Nat) :
    (sectionName m stroff strsz nameoff).isSome = true ↔
      (stroff ≠ 0 → strsz ≠ 0 → nameoff < strsz → m.base + stroff + nameoff < 2 ^ 64) := by
  unfold sectionName
  by_cases named : stroff ≠ 0 ∧ strsz ≠ 0 ∧ nameoff < strsz
  · rw [if_pos named]
    by_cases fits : m.base + stroff + nameoff < 2 ^ 64
    · have behind : m.base ≤ m.base + stroff + nameoff := by omega
      obtain ⟨name, found⟩ := nameLoop_some m 63 behind
      rw [pointer_some fits]
      show (nameLoop m 63 (m.base + stroff + nameoff)).isSome = true ↔ _
      rw [found]
      exact ⟨fun _ _ _ _ => fits, fun _ => rfl⟩
    · rw [pointer_none fits]
      constructor
      · rintro ⟨⟩
      · intro all
        exact absurd (all named.1 named.2.1 named.2.2) fits
  · rw [if_neg named]
    exact ⟨fun _ first second third => absurd ⟨first, second, third⟩ named, fun _ => rfl⟩

/-- The loop over the sections is undefined only when the first address passes the end, or that of
a name of a section in the file. -/
theorem sectionLoop_isSome (eh : Ehdr) (table : Nat × Nat) (left i : Nat) (names : CString) :
    (sectionLoop m be eh table.1 table.2 left i names).isSome = true ↔
      (left ≠ 0 → m.base + eh.eShoff + i * eh.shsz + eh.shsz < 2 ^ 64) ∧
        ∀ j, i ≤ j → j < i + left → eh.eShoff + j * eh.shsz + eh.shsz ≤ m.bytes.length →
          NameFits m be table (eh.eShoff + j * eh.shsz) := by
  have low := m.low
  have size : eh.shsz ≤ 64 ∧ 4 ≤ eh.shsz := by
    unfold Ehdr.shsz
    split <;> decide
  induction left generalizing i names with
  | zero =>
    constructor
    · intro _
      exact ⟨fun none => absurd rfl none, fun j after before => absurd before (by omega)⟩
    · exact fun _ => rfl
  | succ left ih =>
    unfold sectionLoop
    by_cases fits : m.base + eh.eShoff + i * eh.shsz + eh.shsz < 2 ^ 64
    · have place : m.base + eh.eShoff + i * eh.shsz = m.base + (eh.eShoff + i * eh.shsz) := by omega
      rw [pointer_some (by omega), Option.bind_eq_bind, Option.bind_some, pointer_some fits,
        Option.bind_some]
      by_cases inside : eh.eShoff + i * eh.shsz + eh.shsz ≤ m.bytes.length
      · have within : ¬ m.stop < m.base + eh.eShoff + i * eh.shsz + eh.shsz := by
          unfold Buffer.stop
          omega
        have next : (i + 1) * eh.shsz = i * eh.shsz + eh.shsz := Nat.succ_mul i eh.shsz
        have later : m.base + eh.eShoff + (i + 1) * eh.shsz + eh.shsz < 2 ^ 64 := by
          rw [next]
          omega
        have short : eh.eShoff + i * eh.shsz + 4 ≤ m.bytes.length := by omega
        rw [if_neg within, rd32, Nat.add_zero, place, rd_inside short, Option.bind_some]
        have own := @sectionName_isSome m table.1 table.2
          (field m.bytes be (eh.eShoff + i * eh.shsz) 4)
        cases found : sectionName m table.1 table.2
          (field m.bytes be (eh.eShoff + i * eh.shsz) 4) with
        | none =>
          rw [found] at own
          constructor
          · rintro ⟨⟩
          · rintro ⟨-, all⟩
            exact own.mpr (all i (Nat.le_refl i) (by omega) inside)
        | some name =>
          rw [Option.bind_eq_bind, Option.bind_some, ← place]
          rw [found] at own
          refine (ih (i + 1) (addName names name)).trans ?_
          constructor
          · rintro ⟨-, all⟩
            refine ⟨fun _ => fits, fun j after before reach => ?_⟩
            rcases Nat.eq_or_lt_of_le after with rfl | past
            · exact own.mp rfl
            · exact all j past (by omega) reach
          · rintro ⟨-, all⟩
            exact ⟨fun _ => later, fun j after before => all j (by omega) (by omega)⟩
      · have beyond : m.stop < m.base + eh.eShoff + i * eh.shsz + eh.shsz := by
          unfold Buffer.stop
          omega
        rw [if_pos beyond]
        refine ⟨fun _ => ⟨fun _ => fits, fun j after _ reach => ?_⟩, fun _ => rfl⟩
        have more : i * eh.shsz ≤ j * eh.shsz := Nat.mul_le_mul_right _ after
        omega
    · have missing : (pointer (m.base + eh.eShoff + i * eh.shsz)).bind (fun sh =>
          (pointer (sh + eh.shsz)).bind fun stop =>
            if m.stop < stop then some names
            else (rd32 m be (sh + 0)).bind fun nameoff =>
              (sectionName m table.1 table.2 nameoff).bind fun name =>
                sectionLoop m be eh table.1 table.2 left (i + 1) (addName names name)) = none := by
        by_cases first : m.base + eh.eShoff + i * eh.shsz < 2 ^ 64
        · rw [pointer_some first, Option.bind_some, pointer_none fits, Option.bind_none]
        · rw [pointer_none first, Option.bind_none]
      constructor
      · intro defined
        rw [Option.bind_eq_bind] at defined
        exact absurd (missing ▸ defined) (by decide)
      · rintro ⟨reached, -⟩
        exact absurd (reached (Nat.succ_ne_zero left)) fits

/-- The program headers are taken unless the first address passes the end. -/
theorem elfPhdrs_eq (eh : Ehdr) : elfPhdrs m be eh =
    if eh.ePhnum ≠ 0 → eh.ePhoff ≠ 0 → m.base + eh.ePhoff + eh.phsz < 2 ^ 64 then
      some (phsOf m.bytes be eh)
    else none := by
  unfold elfPhdrs phsOf
  by_cases listed : eh.ePhnum ≠ 0 ∧ eh.ePhoff ≠ 0
  · have some_ : ¬ (eh.ePhnum = 0 ∨ eh.ePhoff = 0) := by
      rintro (none | none)
      · exact listed.1 none
      · exact listed.2 none
    have rounds : min eh.ePhnum 8 ≠ 0 := by
      have counted := listed.1
      omega
    have first (size : Nat) : min eh.ePhnum 8 = 0 ∨
        m.base + eh.ePhoff + 0 * size + size < 2 ^ 64 ↔ m.base + eh.ePhoff + size < 2 ^ 64 := by
      rw [Nat.zero_mul, Nat.add_zero]
      exact ⟨fun either => either.resolve_left rounds, .inr⟩
    have asked : (eh.ePhnum ≠ 0 → eh.ePhoff ≠ 0 → m.base + eh.ePhoff + eh.phsz < 2 ^ 64) ↔
        m.base + eh.ePhoff + eh.phsz < 2 ^ 64 :=
      ⟨fun all => all listed.1 listed.2, fun fits _ _ => fits⟩
    have wide : 56 ≤ 64 := by decide
    have narrow : 32 ≤ 64 := by decide
    rw [if_pos listed, if_neg some_, if_congr asked rfl rfl]
    unfold parsePh64 parsePh32 Ehdr.phsz
    rw [if_neg some_, if_neg some_]
    by_cases long : eh.eiClass = elfClass64
    · rw [if_pos long, if_pos long, if_pos long,
        phLoop_eq wide (fun offset inside => ph64Entry_eq inside), if_congr (first 56) rfl rfl]
    · rw [if_neg long, if_neg long, if_neg long,
        phLoop_eq narrow (fun offset inside => ph32Entry_eq inside), if_congr (first 32) rfl rfl]
  · have none_ : eh.ePhnum = 0 ∨ eh.ePhoff = 0 := by
      by_contra both
      exact listed (not_or.mp both)
    rw [if_neg listed, if_pos none_, if_pos fun first second => absurd ⟨first, second⟩ listed]

/-- The names are taken unless the address of the first section header, of the string table or of a
name passes the end. -/
theorem elfSections_isSome (eh : Ehdr) : (elfSections m be eh).isSome = true ↔
    (eh.eShnum ≠ 0 → eh.eShoff ≠ 0 → m.base + eh.eShoff + eh.shsz < 2 ^ 64) ∧
    (eh.eShoff ≠ 0 → eh.eShstrndx ≠ 0 → eh.eShstrndx < eh.eShnum →
      m.base + eh.eShoff + eh.eShstrndx * eh.shsz + eh.shsz < 2 ^ 64) ∧
    (eh.eShoff ≠ 0 → ∀ i < min eh.eShnum 40,
      eh.eShoff + i * eh.shsz + eh.shsz ≤ m.bytes.length →
        NameFits m be (tableOf m.bytes be eh) (eh.eShoff + i * eh.shsz)) := by
  unfold elfSections
  by_cases listed : eh.eShnum ≠ 0 ∧ eh.eShoff ≠ 0
  · obtain ⟨counted, present⟩ := listed
    rw [if_pos ⟨counted, present⟩]
    unfold parseSections
    rw [stringTable_eq]
    by_cases table : eh.eShoff ≠ 0 → eh.eShstrndx ≠ 0 → eh.eShstrndx < eh.eShnum →
        m.base + eh.eShoff + eh.eShstrndx * eh.shsz + eh.shsz < 2 ^ 64
    · have loop := @sectionLoop_isSome m be eh (tableOf m.bytes be eh) (min eh.eShnum 40) 0 []
      rw [if_pos table]
      refine loop.trans ?_
      rw [Nat.zero_mul, Nat.add_zero]
      constructor
      · rintro ⟨first, names⟩
        refine ⟨fun _ _ => first (by omega), table, fun _ i before => names i (Nat.zero_le i) ?_⟩
        omega
      · rintro ⟨first, -, names⟩
        refine ⟨fun _ => first counted present, fun i _ before => names present i ?_⟩
        omega
    · rw [if_neg table]
      constructor
      · rintro ⟨⟩
      · rintro ⟨-, fits, -⟩
        exact absurd fits table
  · rw [if_neg listed]
    refine ⟨fun _ => ⟨?_, ?_, ?_⟩, fun _ => rfl⟩
    · intro counted present
      exact absurd ⟨counted, present⟩ listed
    · intro present _ among
      exact absurd ⟨by omega, present⟩ listed
    · intro present i before
      exact absurd ⟨by omega, present⟩ listed

/-- What is taken from a file, with the names of its sections. -/
def infoOf (m : Buffer) (sectionNames : CString) : ElfInfo where
  eiClass := m.ehdr.eiClass
  eiData := byteAt m.bytes 5
  eType := m.ehdr.eType
  eMachine := m.ehdr.eMachine
  eFlags := m.ehdr.eFlags
  eEntry := m.ehdr.eEntry
  eShstrndx := m.ehdr.eShstrndx
  ePhnum := m.ehdr.ePhnum
  eShnum := m.ehdr.eShnum
  hasInterp := (phsOf m.bytes m.order m.ehdr).any fun entry => entry.pType = 3
  ph := phsOf m.bytes m.order m.ehdr
  sectionNames := sectionNames

/-- An ELF file that is read inside of its buffer gives its header and its program headers; any
other is undefined. -/
theorem parseElf_eq (elf : IsElf m.bytes) :
    (Inside m → ∃ sectionNames, parseElf m = some (.ok (infoOf m sectionNames))) ∧
      (¬ Inside m → parseElf m = none) := by
  have names := @elfSections_isSome m m.order m.ehdr
  have phdrs := @elfPhdrs_eq m m.order m.ehdr
  have header := @readEhdr_eq m m.order
  have parsed : parseElf m = (readEhdr m m.order).bind fun eh =>
      (elfPhdrs m m.order eh).bind fun ph => (elfSections m m.order eh).bind fun sectionNames =>
        some (.ok {
          eiClass := eh.eiClass
          eiData := byteAt m.bytes 5
          eType := eh.eType
          eMachine := eh.eMachine
          eFlags := eh.eFlags
          eEntry := eh.eEntry
          eShstrndx := eh.eShstrndx
          ePhnum := eh.ePhnum
          eShnum := eh.eShnum
          hasInterp := ph.any fun entry => entry.pType = 3
          ph := ph
          sectionNames := sectionNames }) := if_neg (not_not.mpr elf)
  rw [parsed, header]
  constructor
  · intro inside
    obtain ⟨sectionNames, found⟩ := Option.isSome_iff_exists.mp
      (names.mpr ⟨inside.sections, inside.table, inside.names⟩)
    rw [if_pos inside.header, Option.bind_some]
    refine ⟨sectionNames, ?_⟩
    rw [show ehdrOf m.bytes m.order = m.ehdr from rfl, phdrs, if_pos inside.phdrs, Option.bind_some,
      found, Option.bind_some]
    rfl
  · intro outside
    by_cases whole : 64 ≤ m.bytes.length
    · rw [if_pos whole, Option.bind_some, show ehdrOf m.bytes m.order = m.ehdr from rfl, phdrs]
      split
      next first =>
        have missing : elfSections m m.order m.ehdr = none := by
          rw [← Option.not_isSome_iff_eq_none, names]
          rintro ⟨sections, table, named⟩
          exact outside ⟨whole, first, sections, table, named⟩
        rw [Option.bind_some, missing, Option.bind_none]
      next => rfl
    · rw [if_neg whole]
      rfl

/-- `loader_elf_impl` reads inside of its buffer, with sums that do not pass the end of the address
space, exactly when the file is no ELF file or its header is whole and no address of a header or
name that it looks at passes the end. -/
theorem loaderElfImpl_reads_iff (m : Buffer) : (loaderElfImpl true (.ok m)).isSome = true ↔
    ¬ IsElf m.bytes ∨ Inside m := by
  show (parseElf m).isSome = true ↔ _
  by_cases elf : IsElf m.bytes
  · by_cases inside : Inside m
    · obtain ⟨sectionNames, parsed⟩ := (parseElf_eq elf).1 inside
      rw [parsed]
      exact ⟨fun _ => .inr inside, fun _ => rfl⟩
    · rw [(parseElf_eq elf).2 inside]
      constructor
      · rintro ⟨⟩
      · rintro (other | reads)
        · exact absurd elf other
        · exact absurd reads inside
  · unfold parseElf
    rw [if_pos elf]
    exact ⟨fun _ => .inl elf, fun _ => rfl⟩

end

/-- A buffer of a small file. -/
def bufferOf (bytes : List UInt8) (small : bytes.length ≤ 4096) : Buffer where
  base := 4096
  bytes := bytes
  small := by omega
  low := by omega

/-- A whole header of the 32-bit class is read beyond its end; a program header at an offset of
nearly `2^64` is looked for in front of the buffer. -/
theorem short_file_undefined :
    (loaderElfImpl true (.ok (bufferOf (elfMagic ++ [1, 1, 1] ++ List.replicate 45 0)
      (by decide)))).isSome = false ∧
    (loaderElfImpl true (.ok (bufferOf (elfMagic ++ [2, 1, 1] ++ List.replicate 25 0 ++
      [0xf0, 0xff, 0xff, 0xff, 0xff, 0xff, 0xff, 0xff] ++ List.replicate 16 0 ++ [1] ++
      List.replicate 7 0) (by decide)))).isSome = false := by
  refine ⟨by decide +kernel, by decide +kernel⟩

end HwrunOs.Loader
