import HwrunOs.Loader.ElfReads

/-!
# What the ELF reader decodes

A header is a list of numbers of fixed widths in one byte order, and so is a program header. The
reader takes the byte order from the version byte of the identification, so what it decodes of a
64-bit header is what was encoded when the order is little-endian; and it reads the numbers behind
the offsets of a 32-bit header where the 64-bit header has them.
-/

namespace HwrunOs.Loader

open HwrunOs.Bytes HwrunOs.Endian

/-! ## Headers of the 64-bit class -/

/-- A program header of the 64-bit class. -/
structure Phdr64 where
  /-- `p_type`. -/
  pType : UInt32
  /-- `p_flags`. -/
  pFlags : UInt32
  /-- `p_offset`. -/
  pOffset : UInt64
  /-- `p_vaddr`. -/
  pVaddr : UInt64
  /-- `p_paddr`. -/
  pPaddr : UInt64
  /-- `p_filesz`. -/
  pFilesz : UInt64
  /-- `p_memsz`. -/
  pMemsz : UInt64
  /-- `p_align`. -/
  pAlign : UInt64

/-- Its numbers in file order. -/
def Phdr64.numbers (ph : Phdr64) : List (Nat × Nat) :=
  [(4, ph.pType.toNat), (4, ph.pFlags.toNat), (8, ph.pOffset.toNat), (8, ph.pVaddr.toNat),
    (8, ph.pPaddr.toNat), (8, ph.pFilesz.toNat), (8, ph.pMemsz.toNat), (8, ph.pAlign.toNat)]

/-- What the reader keeps of it. -/
def Phdr64.info (ph : Phdr64) : PhInfo where
  pType := ph.pType.toNat
  pFlags := ph.pFlags.toNat
  pOffset := ph.pOffset.toNat
  pVaddr := ph.pVaddr.toNat
  pPaddr := ph.pPaddr.toNat
  pFilesz := ph.pFilesz.toNat
  pMemsz := ph.pMemsz.toNat

/-- A header of the 64-bit class with its program headers. -/
structure Elf64 where
  /-- `EI_DATA` is `ELFDATA2MSB`, not `ELFDATA2LSB`. -/
  msb : Bool
  /-- `e_type`. -/
  eType : UInt16
  /-- `e_machine`. -/
  eMachine : UInt16
  /-- `e_version`. -/
  eVersion : UInt32
  /-- `e_entry`. -/
  eEntry : UInt64
  /-- `e_phoff`. -/
  ePhoff : UInt64
  /-- `e_shoff`. -/
  eShoff : UInt64
  /-- `e_flags`. -/
  eFlags : UInt32
  /-- `e_ehsize`. -/
  eEhsize : UInt16
  /-- `e_phentsize`. -/
  ePhentsize : UInt16
  /-- `e_phnum`. -/
  ePhnum : UInt16
  /-- `e_shentsize`. -/
  eShentsize : UInt16
  /-- `e_shnum`. -/
  eShnum : UInt16
  /-- `e_shstrndx`. -/
  eShstrndx : UInt16
  /-- The program headers. -/
  phdrs : List Phdr64

/-- The numbers of the header behind the identification. -/
def Elf64.numbers (elf : Elf64) : List (Nat × Nat) :=
  [(2, elf.eType.toNat), (2, elf.eMachine.toNat), (4, elf.eVersion.toNat), (8, elf.eEntry.toNat),
    (8, elf.ePhoff.toNat), (8, elf.eShoff.toNat), (4, elf.eFlags.toNat), (2, elf.eEhsize.toNat),
    (2, elf.ePhentsize.toNat), (2, elf.ePhnum.toNat), (2, elf.eShentsize.toNat),
    (2, elf.eShnum.toNat), (2, elf.eShstrndx.toNat)]

/-- The header behind the identification has 48 bytes. -/
theorem Elf64.extent_numbers (elf : Elf64) : extent elf.numbers = 48 := by
  simp only [Elf64.numbers, extent]

/-- A file has the header and its program headers; `EI_VERSION` is `EV_CURRENT`. -/
structure Elf64.In (elf : Elf64) (bytes : List UInt8) : Prop where
  /-- The identification. -/
  ident : bytes.take 7 = elfMagic ++ [2, if elf.msb then 2 else 1, 1]
  /-- The numbers of the header. -/
  header : Holds bytes elf.msb 16 elf.numbers
  /-- The program headers are counted. -/
  counted : elf.phdrs.length = elf.ePhnum.toNat
  /-- They stand where the header says. -/
  phdrs : ∀ (i : Nat) ph, elf.phdrs[i]? = some ph →
    Holds bytes elf.msb (elf.ePhoff.toNat + i * 56) ph.numbers

/-- The reader returns the numbers that were encoded. -/
def Elf64.Decoded (elf : Elf64) (m : Buffer) : Prop :=
  ∃ info, loaderElfImpl true (.ok m) = some (.ok info) ∧
    (info.eType = elf.eType.toNat ∧ info.eMachine = elf.eMachine.toNat ∧
      info.eEntry = elf.eEntry.toNat ∧ info.ePhnum = elf.ePhnum.toNat ∧
      info.eShnum = elf.eShnum.toNat ∧ info.eShstrndx = elf.eShstrndx.toNat) ∧
    ∀ (i : Nat) ph, info.ph[i]? = some ph → elf.phdrs[i]?.map Phdr64.info = some ph

/-- The numbers of a header have the same bytes backwards, and what stands at the offset of the
program headers with its bytes backwards are the program headers in the other byte order. -/
structure Elf64.Symmetric (elf : Elf64) (bytes : List UInt8) : Prop where
  /-- The numbers of the header. -/
  header : Palindrome 2 elf.eType.toNat ∧ Palindrome 2 elf.eMachine.toNat ∧
    Palindrome 8 elf.eEntry.toNat ∧ Palindrome 2 elf.ePhnum.toNat ∧
    Palindrome 2 elf.eShnum.toNat ∧ Palindrome 2 elf.eShstrndx.toNat
  /-- The program headers. -/
  phdrs : ∀ phoff, phoff = leValue (leBytes 8 elf.ePhoff.toNat).reverse → phoff ≠ 0 →
    ∀ i < min elf.ePhnum.toNat 8, phoff + i * 56 + 56 ≤ bytes.length →
      elf.phdrs[i]?.map Phdr64.info = some (ph64Of bytes false (phoff + i * 56))

/-! ## Numbers of a file -/

section

variable {bytes : List UInt8}

/-- A number of a layout, read in some byte order. -/
theorem field_of_holds {read written : Bool} {offset : Nat} {before after : List (Nat × Nat)}
    {width number : Nat}
    (holds : Holds bytes written offset (before ++ (width, number) :: after)) :
    field bytes read (offset + extent before) width = valueOf read (bytesOf written width number) :=
  congrArg (valueOf read) holds.number

/-- A byte of the identification. -/
theorem byteAt_ident {ident : List UInt8} (same : bytes.take 7 = ident) {offset : Nat}
    (front : offset < 7) : byteAt bytes offset = byteAt ident offset := by
  rw [← same]
  unfold byteAt
  rw [List.getD_eq_getElem?_getD, List.getD_eq_getElem?_getD, List.getElem?_take_of_lt front]

/-- A file with an identification is an ELF file when it is long enough. -/
theorem isElf_ident {rest : List UInt8} (ident : bytes.take 7 = elfMagic ++ rest)
    (long : 52 ≤ bytes.length) : IsElf bytes := by
  refine ⟨long, ?_⟩
  have front := congrArg (List.take 4) ident
  rwa [List.take_take, Nat.min_eq_left (by decide), List.take_left' (by rfl)] at front

/-- With `EV_CURRENT` the byte order is little-endian. -/
theorem order_ident {m : Buffer} {eiClass eiData : UInt8}
    (ident : m.bytes.take 7 = elfMagic ++ [eiClass, eiData, 1]) : m.order = false := by
  have version : byteAt m.bytes 6 = 1 := byteAt_ident ident (by decide)
  have shifted : byteAt (m.bytes.drop 1) 5 = byteAt m.bytes 6 := by
    unfold byteAt
    rw [List.getD_eq_getElem?_getD, List.getD_eq_getElem?_getD, List.getElem?_drop]
  unfold Buffer.order wantBe
  rw [shifted, version]
  rfl

/-- The program headers that are taken. -/
theorem phList_eq_some {phoff size : Nat} {entry : Nat → PhInfo} {left i k : Nat} {ph : PhInfo} :
    (phList bytes phoff size entry left i)[k]? = some ph ↔
      k < left ∧ phoff + (i + k) * size + size ≤ bytes.length ∧
        entry (phoff + (i + k) * size) = ph := by
  induction left generalizing i k with
  | zero =>
    constructor
    · rintro ⟨⟩
    · rintro ⟨none, -⟩
      exact absurd none (by omega)
  | succ left ih =>
    unfold phList
    by_cases inside : phoff + i * size + size ≤ bytes.length
    · rw [if_pos inside]
      cases k with
      | zero =>
        rw [List.getElem?_cons_zero, Option.some.injEq, Nat.add_zero]
        exact ⟨fun same => ⟨by omega, inside, same⟩, fun all => all.2.2⟩
      | succ k =>
        rw [List.getElem?_cons_succ, ih, show i + 1 + k = i + (k + 1) by omega]
        exact and_congr_left' (by omega)
    · rw [if_neg inside]
      constructor
      · rintro ⟨⟩
      · rintro ⟨-, reach, -⟩
        have more : i * size ≤ (i + k) * size := Nat.mul_le_mul_right _ (Nat.le_add_right i k)
        omega

/-- The program headers that are taken from a file. -/
theorem phsOf_eq_some {be : Bool} {eh : Ehdr} {i : Nat} {ph : PhInfo} :
    (phsOf bytes be eh)[i]? = some ph ↔
      eh.ePhoff ≠ 0 ∧ i < min eh.ePhnum 8 ∧ eh.ePhoff + i * eh.phsz + eh.phsz ≤ bytes.length ∧
        (if eh.eiClass = elfClass64 then ph64Of bytes be else ph32Of bytes be)
          (eh.ePhoff + i * eh.phsz) = ph := by
  unfold phsOf
  by_cases none : eh.ePhnum = 0 ∨ eh.ePhoff = 0
  · rw [if_pos none]
    constructor
    · rintro ⟨⟩
    · rintro ⟨present, listed, -⟩
      rcases none with empty | absent
      · exact absurd listed (by omega)
      · exact absurd absent present
  · rw [if_neg none, phList_eq_some, Nat.zero_add]
    exact ⟨fun all => ⟨fun absent => none (.inr absent), all⟩, fun all => all.2⟩

end

/-! ## The 64-bit class -/

/-- A number of two bytes. -/
theorem bound16 (number : UInt16) : number.toNat < 256 ^ 2 := number.toNat_lt

/-- A number of four bytes. -/
theorem bound32 (number : UInt32) : number.toNat < 256 ^ 4 := number.toNat_lt

/-- A number of eight bytes. -/
theorem bound64 (number : UInt64) : number.toNat < 256 ^ 8 := number.toNat_lt

/-- A little-endian program header is read as it is. -/
theorem ph64Of_holds {bytes : List UInt8} {offset : Nat} {ph : Phdr64}
    (holds : Holds bytes false offset ph.numbers) : ph64Of bytes false offset = ph.info := by
  have number (before after : List (Nat × Nat)) (width value : Nat)
      (split : ph.numbers = before ++ (width, value) :: after) (bound : value < 256 ^ width) :
      field bytes false (offset + extent before) width = value := by
    rw [split] at holds
    rw [field_of_holds holds, valueOf_bytesOf false bound]
  unfold ph64Of Phdr64.info
  congr 1
  · exact number [] _ 4 _ rfl (bound32 ph.pType)
  · exact number [(4, _)] _ 4 _ rfl (bound32 ph.pFlags)
  · exact number [(4, _), (4, _)] _ 8 _ rfl (bound64 ph.pOffset)
  · exact number [(4, _), (4, _), (8, _)] _ 8 _ rfl (bound64 ph.pVaddr)
  · exact number [(4, _), (4, _), (8, _), (8, _)] _ 8 _ rfl (bound64 ph.pPaddr)
  · exact number [(4, _), (4, _), (8, _), (8, _), (8, _)] _ 8 _ rfl (bound64 ph.pFilesz)
  · exact number [(4, _), (4, _), (8, _), (8, _), (8, _), (8, _)] _ 8 _ rfl (bound64 ph.pMemsz)

/-- What the reader sees of a number: its bytes as little-endian. -/
def seen (msb : Bool) (width number : Nat) : Nat := valueOf false (bytesOf msb width number)

/-- The number itself is seen exactly when it is little-endian or the same backwards. -/
theorem seen_iff (msb : Bool) {width number : Nat} (bound : number < 256 ^ width) :
    seen msb width number = number ↔ msb = false ∨ Palindrome width number := by
  unfold seen
  rw [valueOf_bytesOf_iff bound, eq_comm]

section

variable {elf : Elf64} {m : Buffer}

/-- The header that the reader sees. -/
theorem Elf64.In.ehdr (laid : elf.In m.bytes) :
    IsElf m.bytes ∧ m.order = false ∧ m.ehdr.eiClass = elfClass64 ∧
      m.ehdr.eType = seen elf.msb 2 elf.eType.toNat ∧
      m.ehdr.eMachine = seen elf.msb 2 elf.eMachine.toNat ∧
      m.ehdr.eEntry = seen elf.msb 8 elf.eEntry.toNat ∧
      m.ehdr.ePhoff = seen elf.msb 8 elf.ePhoff.toNat ∧
      m.ehdr.ePhnum = seen elf.msb 2 elf.ePhnum.toNat ∧
      m.ehdr.eShnum = seen elf.msb 2 elf.eShnum.toNat ∧
      m.ehdr.eShstrndx = seen elf.msb 2 elf.eShstrndx.toNat := by
  have order : m.order = false := order_ident laid.ident
  have wide : byteAt m.bytes 4 = elfClass64 := byteAt_ident laid.ident (by decide)
  have other : ¬ byteAt m.bytes 4 = elfClass32 := by
    rw [wide]
    decide
  have long := laid.header.length (by rw [elf.extent_numbers]; decide)
  rw [elf.extent_numbers] at long
  have number (before after : List (Nat × Nat)) (width value : Nat)
      (split : elf.numbers = before ++ (width, value) :: after) :
      field m.bytes false (16 + extent before) width = seen elf.msb width value := by
    have holds := laid.header
    rw [split] at holds
    exact field_of_holds holds
  have ehdr : m.ehdr = ehdrOf m.bytes false := by
    unfold Buffer.ehdr
    rw [order]
  refine ⟨isElf_ident laid.ident (by omega), order, wide, ?_⟩
  rw [ehdr]
  unfold ehdrOf
  simp only [if_neg other]
  refine ⟨?_, ?_, ?_, ?_, ?_, ?_, ?_⟩
  · exact number [] _ 2 _ rfl
  · exact number [(2, _)] _ 2 _ rfl
  · exact number [(2, _), (2, _), (4, _)] _ 8 _ rfl
  · exact number [(2, _), (2, _), (4, _), (8, _)] _ 8 _ rfl
  · exact number [(2, _), (2, _), (4, _), (8, _), (8, _), (8, _), (4, _), (2, _), (2, _)] _ 2 _ rfl
  · exact number [(2, _), (2, _), (4, _), (8, _), (8, _), (8, _), (4, _), (2, _), (2, _), (2, _),
      (2, _)] _ 2 _ rfl
  · exact number [(2, _), (2, _), (4, _), (8, _), (8, _), (8, _), (4, _), (2, _), (2, _), (2, _),
      (2, _), (2, _)] _ 2 _ rfl

/-- What is returned of a file that is read inside of its buffer, and of no other. -/
theorem decoded_info (elf : IsElf m.bytes) {info : ElfInfo} :
    loaderElfImpl true (.ok m) = some (.ok info) ↔
      Inside m ∧ ∃ sectionNames, parseElf m = some (.ok (infoOf m sectionNames)) ∧
        info = infoOf m sectionNames := by
  show parseElf m = some (.ok info) ↔ _
  constructor
  · intro parsed
    have inside : Inside m := by
      by_contra outside
      rw [(parseElf_eq elf).2 outside] at parsed
      cases parsed
    obtain ⟨sectionNames, same⟩ := (parseElf_eq elf).1 inside
    refine ⟨inside, sectionNames, same, ?_⟩
    rw [same] at parsed
    exact (Except.ok.inj (Option.some.inj parsed)).symm
  · rintro ⟨-, sectionNames, same, rfl⟩
    exact same

/-- The header numbers of a 64-bit file are returned as encoded exactly when the order is
little-endian or they are the same backwards. -/
theorem Elf64.In.header_iff (laid : elf.In m.bytes) :
    (m.ehdr.eType = elf.eType.toNat ∧ m.ehdr.eMachine = elf.eMachine.toNat ∧
      m.ehdr.eEntry = elf.eEntry.toNat ∧ m.ehdr.ePhnum = elf.ePhnum.toNat ∧
      m.ehdr.eShnum = elf.eShnum.toNat ∧ m.ehdr.eShstrndx = elf.eShstrndx.toNat) ↔
    elf.msb = false ∨ Palindrome 2 elf.eType.toNat ∧ Palindrome 2 elf.eMachine.toNat ∧
      Palindrome 8 elf.eEntry.toNat ∧ Palindrome 2 elf.ePhnum.toNat ∧
      Palindrome 2 elf.eShnum.toNat ∧ Palindrome 2 elf.eShstrndx.toNat := by
  obtain ⟨-, -, -, type, machine, entry, -, phnum, shnum, shstrndx⟩ := laid.ehdr
  rw [type, machine, entry, phnum, shnum, shstrndx, seen_iff _ (bound16 _), seen_iff _ (bound16 _),
    seen_iff _ (bound64 _), seen_iff _ (bound16 _), seen_iff _ (bound16 _),
    seen_iff _ (bound16 _)]
  cases elf.msb with
  | false => exact ⟨fun _ => .inl rfl, fun _ => ⟨.inl rfl, .inl rfl, .inl rfl, .inl rfl, .inl rfl,
      .inl rfl⟩⟩
  | true => simp

/-- The program headers of a little-endian 64-bit file are returned as encoded. -/
theorem Elf64.In.phdrs_little (laid : elf.In m.bytes) (little : elf.msb = false) (i : Nat)
    (ph : PhInfo) (taken : (phsOf m.bytes m.order m.ehdr)[i]? = some ph) :
    elf.phdrs[i]?.map Phdr64.info = some ph := by
  obtain ⟨-, order, wide, -, -, -, phoff, phnum, -, -⟩ := laid.ehdr
  rw [little] at phoff phnum
  have offset : m.ehdr.ePhoff = elf.ePhoff.toNat := phoff.trans (valueOf_bytesOf false (bound64 _))
  have count : m.ehdr.ePhnum = elf.ePhnum.toNat := phnum.trans (valueOf_bytesOf false (bound16 _))
  have size : m.ehdr.phsz = 56 := if_pos wide
  obtain ⟨-, listed, -, rfl⟩ := phsOf_eq_some.mp taken
  have counted := laid.counted
  have among : i < elf.phdrs.length := by omega
  have there : elf.phdrs[i]? = some elf.phdrs[i] := List.getElem?_eq_getElem among
  have holds := laid.phdrs i _ there
  rw [little] at holds
  rw [there, if_pos wide, order, offset, size, ph64Of_holds holds]
  rfl

/-- The program headers of a big-endian 64-bit file are returned as encoded exactly when they stand,
little-endian, at their offset backwards. -/
theorem Elf64.In.phdrs_big (laid : elf.In m.bytes) (big : elf.msb = true)
    (count : m.ehdr.ePhnum = elf.ePhnum.toNat) :
    (∀ (i : Nat) ph, (phsOf m.bytes m.order m.ehdr)[i]? = some ph →
      elf.phdrs[i]?.map Phdr64.info = some ph) ↔
    ∀ phoff, phoff = leValue (leBytes 8 elf.ePhoff.toNat).reverse → phoff ≠ 0 →
      ∀ i < min elf.ePhnum.toNat 8, phoff + i * 56 + 56 ≤ m.bytes.length →
        elf.phdrs[i]?.map Phdr64.info = some (ph64Of m.bytes false (phoff + i * 56)) := by
  obtain ⟨-, order, wide, -, -, -, phoff, -, -, -⟩ := laid.ehdr
  have size : m.ehdr.phsz = 56 := if_pos wide
  have offset : m.ehdr.ePhoff = leValue (leBytes 8 elf.ePhoff.toNat).reverse := by
    rw [phoff, big]
    rfl
  have taken (i : Nat) (ph : PhInfo) : (phsOf m.bytes m.order m.ehdr)[i]? = some ph ↔
      m.ehdr.ePhoff ≠ 0 ∧ i < min elf.ePhnum.toNat 8 ∧
        m.ehdr.ePhoff + i * 56 + 56 ≤ m.bytes.length ∧
        ph64Of m.bytes false (m.ehdr.ePhoff + i * 56) = ph := by
    rw [phsOf_eq_some, count, size, if_pos wide, order]
  constructor
  · intro all phoff same present i listed reach
    rw [same, ← offset] at present reach ⊢
    exact all i _ ((taken i _).mpr ⟨present, listed, reach, rfl⟩)
  · intro all i ph found
    obtain ⟨present, listed, reach, rfl⟩ := (taken i ph).mp found
    exact all _ offset present i listed reach

/-- A 64-bit header and its program headers are returned as encoded exactly when the file is read
inside of its buffer and is little-endian or the same in both byte orders. -/
theorem elf64_decoded_iff (elf : Elf64) (m : Buffer) (laid : elf.In m.bytes) :
    elf.Decoded m ↔ Inside m ∧ (elf.msb = false ∨ elf.Symmetric m.bytes) := by
  have isElf := laid.ehdr.1
  constructor
  · rintro ⟨info, parsed, header, phdrs⟩
    obtain ⟨inside, sectionNames, -, rfl⟩ := (decoded_info isElf).mp parsed
    refine ⟨inside, ?_⟩
    cases order : elf.msb with
    | false => exact .inl rfl
    | true =>
      have same := (laid.header_iff.mp header).resolve_left (by rw [order]; decide)
      exact .inr ⟨same, (laid.phdrs_big order header.2.2.2.1).mp phdrs⟩
  · rintro ⟨inside, good⟩
    obtain ⟨sectionNames, same⟩ := (parseElf_eq isElf).1 inside
    have header := laid.header_iff.mpr (good.imp_right Elf64.Symmetric.header)
    refine ⟨_, (decoded_info isElf).mpr ⟨inside, sectionNames, same, rfl⟩, header, ?_⟩
    cases order : elf.msb with
    | false => exact laid.phdrs_little order
    | true =>
      have symmetric := good.resolve_left (by rw [order]; decide)
      exact (laid.phdrs_big order header.2.2.2.1).mpr symmetric.phdrs

end

/-- An executable with one program header. -/
def smallElf64 (msb : Bool) : Elf64 where
  msb := msb
  eType := 2
  eMachine := 62
  eVersion := 1
  eEntry := 0x401000
  ePhoff := 64
  eShoff := 0
  eFlags := 0
  eEhsize := 64
  ePhentsize := 56
  ePhnum := 1
  eShentsize := 64
  eShnum := 0
  eShstrndx := 0
  phdrs := [⟨1, 5, 0, 0x400000, 0x400000, 120, 120, 4096⟩]

/-- Its file. -/
def smallFile64 (msb : Bool) : List UInt8 :=
  elfMagic ++ [2, if msb then 2 else 1, 1] ++ List.replicate 9 0 ++
    layout msb (smallElf64 msb).numbers ++
    (smallElf64 msb).phdrs.flatMap fun ph => layout msb ph.numbers

/-- The file has the header and the program header. -/
theorem smallFile64_in (msb : Bool) : (smallElf64 msb).In (smallFile64 msb) where
  ident := by cases msb <;> decide
  header := by cases msb <;> decide +kernel
  counted := rfl
  phdrs := by
    rintro (_ | i) ph there
    · obtain rfl := Option.some.inj there
      cases msb <;> decide +kernel
    · cases there

/-- The little-endian file is decoded. -/
theorem smallElf64_decoded :
    (smallElf64 false).Decoded (bufferOf (smallFile64 false) (by decide +kernel)) := by
  refine (elf64_decoded_iff _ (bufferOf (smallFile64 false) (by decide +kernel))
    (smallFile64_in false)).mpr ⟨?_, .inl rfl⟩
  have none : (bufferOf (smallFile64 false) (by decide +kernel)).ehdr.eShoff = 0 := by
    decide +kernel
  refine ⟨by decide +kernel, fun _ _ => by decide +kernel, ?_, ?_, ?_⟩
  · exact fun _ present => absurd none present
  · exact fun present => absurd none present
  · exact fun present => absurd none present

/-- The type of the big-endian one is 512, not 2. -/
theorem smallElf64_swapped :
    ((loaderElfImpl true (.ok (bufferOf (smallFile64 true) (by decide +kernel)))).bind
      Except.toOption).map ElfInfo.eType = some 512 ∧
    ¬ (smallElf64 true).Decoded (bufferOf (smallFile64 true) (by decide +kernel)) := by
  have type : ((loaderElfImpl true (.ok (bufferOf (smallFile64 true) (by decide +kernel)))).bind
      Except.toOption).map ElfInfo.eType = some 512 := by decide +kernel
  refine ⟨type, ?_⟩
  rintro ⟨info, parsed, ⟨same, -⟩, -⟩
  rw [parsed] at type
  have other : info.eType = 512 := Option.some.inj type
  rw [same] at other
  exact absurd other (by decide)

/-! ## The 32-bit class -/

/-- A program header of the 32-bit class. -/
structure Phdr32 where
  /-- `p_type`. -/
  pType : UInt32
  /-- `p_offset`. -/
  pOffset : UInt32
  /-- `p_vaddr`. -/
  pVaddr : UInt32
  /-- `p_paddr`. -/
  pPaddr : UInt32
  /-- `p_filesz`. -/
  pFilesz : UInt32
  /-- `p_memsz`. -/
  pMemsz : UInt32
  /-- `p_flags`. -/
  pFlags : UInt32
  /-- `p_align`. -/
  pAlign : UInt32

/-- Its numbers in file order. -/
def Phdr32.numbers (ph : Phdr32) : List (Nat × Nat) :=
  [(4, ph.pType.toNat), (4, ph.pOffset.toNat), (4, ph.pVaddr.toNat), (4, ph.pPaddr.toNat),
    (4, ph.pFilesz.toNat), (4, ph.pMemsz.toNat), (4, ph.pFlags.toNat), (4, ph.pAlign.toNat)]

/-- What the reader keeps of it. -/
def Phdr32.info (ph : Phdr32) : PhInfo where
  pType := ph.pType.toNat
  pFlags := ph.pFlags.toNat
  pOffset := ph.pOffset.toNat
  pVaddr := ph.pVaddr.toNat
  pPaddr := ph.pPaddr.toNat
  pFilesz := ph.pFilesz.toNat
  pMemsz := ph.pMemsz.toNat

/-- A little-endian header of the 32-bit class with its program headers. -/
structure Elf32 where
  /-- `e_type`. -/
  eType : UInt16
  /-- `e_machine`. -/
  eMachine : UInt16
  /-- `e_version`. -/
  eVersion : UInt32
  /-- `e_entry`. -/
  eEntry : UInt32
  /-- `e_phoff`. -/
  ePhoff : UInt32
  /-- `e_shoff`. -/
  eShoff : UInt32
  /-- `e_flags`. -/
  eFlags : UInt32
  /-- `e_ehsize`. -/
  eEhsize : UInt16
  /-- `e_phentsize`. -/
  ePhentsize : UInt16
  /-- `e_phnum`. -/
  ePhnum : UInt16
  /-- `e_shentsize`. -/
  eShentsize : UInt16
  /-- `e_shnum`. -/
  eShnum : UInt16
  /-- `e_shstrndx`. -/
  eShstrndx : UInt16
  /-- The program headers. -/
  phdrs : List Phdr32

/-- The numbers of the header behind the identification. -/
def Elf32.numbers (elf : Elf32) : List (Nat × Nat) :=
  [(2, elf.eType.toNat), (2, elf.eMachine.toNat), (4, elf.eVersion.toNat), (4, elf.eEntry.toNat),
    (4, elf.ePhoff.toNat), (4, elf.eShoff.toNat), (4, elf.eFlags.toNat), (2, elf.eEhsize.toNat),
    (2, elf.ePhentsize.toNat), (2, elf.ePhnum.toNat), (2, elf.eShentsize.toNat),
    (2, elf.eShnum.toNat), (2, elf.eShstrndx.toNat)]

/-- The header behind the identification has 36 bytes. -/
theorem Elf32.extent_numbers (elf : Elf32) : extent elf.numbers = 36 := by
  simp only [Elf32.numbers, extent]

/-- A file has the header and its program headers. -/
structure Elf32.In (elf : Elf32) (bytes : List UInt8) : Prop where
  /-- The identification: 32 bits, little-endian, `EV_CURRENT`. -/
  ident : bytes.take 7 = elfMagic ++ [1, 1, 1]
  /-- The numbers of the header. -/
  header : Holds bytes false 16 elf.numbers
  /-- The program headers are counted. -/
  counted : elf.phdrs.length = elf.ePhnum.toNat
  /-- They stand where the header says. -/
  phdrs : ∀ (i : Nat) ph, elf.phdrs[i]? = some ph →
    Holds bytes false (elf.ePhoff.toNat + i * 32) ph.numbers

/-- The reader returns the numbers that were encoded. -/
def Elf32.Decoded (elf : Elf32) (m : Buffer) : Prop :=
  ∃ info, loaderElfImpl true (.ok m) = some (.ok info) ∧
    (info.eFlags = elf.eFlags.toNat ∧ info.ePhnum = elf.ePhnum.toNat ∧
      info.eShnum = elf.eShnum.toNat ∧ info.eShstrndx = elf.eShstrndx.toNat) ∧
    info.eEntry = elf.eEntry.toNat ∧
    ∀ (i : Nat) ph, info.ph[i]? = some ph → elf.phdrs[i]?.map Phdr32.info = some ph

/-- The flags are the last two numbers of the header together, and the numbers that are read behind
the header stand there once more. -/
def Elf32.Repeated (elf : Elf32) (bytes : List UInt8) : Prop :=
  elf.eFlags.toNat = elf.eShnum.toNat + 65536 * elf.eShstrndx.toNat ∧
    field bytes false 56 2 = elf.ePhnum.toNat ∧ field bytes false 60 2 = elf.eShnum.toNat ∧
    field bytes false 62 2 = elf.eShstrndx.toNat

instance (elf : Elf32) (bytes : List UInt8) : Decidable (elf.Repeated bytes) :=
  inferInstanceAs (Decidable (_ ∧ _))

/-- A program header is read as it is. -/
theorem ph32Of_holds {bytes : List UInt8} {offset : Nat} {ph : Phdr32}
    (holds : Holds bytes false offset ph.numbers) : ph32Of bytes false offset = ph.info := by
  have number (before after : List (Nat × Nat)) (value : Nat)
      (split : ph.numbers = before ++ (4, value) :: after) (bound : value < 256 ^ 4) :
      field bytes false (offset + extent before) 4 = value := by
    rw [split] at holds
    rw [field_of_holds holds, valueOf_bytesOf false bound]
  unfold ph32Of Phdr32.info
  congr 1
  · exact number [] _ _ rfl (bound32 ph.pType)
  · exact number [(4, _), (4, _), (4, _), (4, _), (4, _), (4, _)] _ _ rfl (bound32 ph.pFlags)
  · exact number [(4, _)] _ _ rfl (bound32 ph.pOffset)
  · exact number [(4, _), (4, _)] _ _ rfl (bound32 ph.pVaddr)
  · exact number [(4, _), (4, _), (4, _)] _ _ rfl (bound32 ph.pPaddr)
  · exact number [(4, _), (4, _), (4, _), (4, _)] _ _ rfl (bound32 ph.pFilesz)
  · exact number [(4, _), (4, _), (4, _), (4, _), (4, _)] _ _ rfl (bound32 ph.pMemsz)

/-- Four bytes are two and two. -/
theorem field_four (bytes : List UInt8) (offset : Nat) (reach : offset + 2 ≤ bytes.length) :
    field bytes false offset 4 =
      field bytes false offset 2 + 65536 * field bytes false (offset + 2) 2 := by
  have split : (bytes.drop offset).take 4 =
      (bytes.drop offset).take 2 ++ (bytes.drop (offset + 2)).take 2 := by
    rw [← List.drop_drop, show 4 = 2 + 2 from rfl, List.take_add]
  have two : ((bytes.drop offset).take 2).length = 2 := by
    rw [List.length_take, List.length_drop]
    omega
  show leValue ((bytes.drop offset).take 4) = _
  rw [split, leValue_append, two]
  rfl

section

variable {elf : Elf32} {m : Buffer}

/-- The header that the reader sees. -/
theorem Elf32.In.ehdr (laid : elf.In m.bytes) :
    IsElf m.bytes ∧ m.order = false ∧ m.ehdr.eiClass = elfClass32 ∧
      m.ehdr.eEntry = elf.eEntry.toNat ∧ m.ehdr.ePhoff = elf.ePhoff.toNat ∧
      m.ehdr.eFlags = elf.eShnum.toNat + 65536 * elf.eShstrndx.toNat ∧
      m.ehdr.ePhnum = field m.bytes false 56 2 ∧ m.ehdr.eShnum = field m.bytes false 60 2 ∧
      m.ehdr.eShstrndx = field m.bytes false 62 2 := by
  have order : m.order = false := order_ident laid.ident
  have narrow : byteAt m.bytes 4 = elfClass32 := byteAt_ident laid.ident (by decide)
  have long := laid.header.length (by rw [elf.extent_numbers]; decide)
  rw [elf.extent_numbers] at long
  have number (before after : List (Nat × Nat)) (width value : Nat)
      (split : elf.numbers = before ++ (width, value) :: after) (bound : value < 256 ^ width) :
      field m.bytes false (16 + extent before) width = value := by
    have holds := laid.header
    rw [split] at holds
    rw [field_of_holds holds, valueOf_bytesOf false bound]
  have ehdr : m.ehdr = ehdrOf m.bytes false := by
    unfold Buffer.ehdr
    rw [order]
  refine ⟨isElf_ident laid.ident long, order, narrow, ?_⟩
  rw [ehdr]
  unfold ehdrOf
  simp only [if_pos narrow]
  refine ⟨?_, ?_, ?_, trivial, trivial, trivial⟩
  · exact number [(2, _), (2, _), (4, _)] _ 4 _ rfl (bound32 elf.eEntry)
  · exact number [(2, _), (2, _), (4, _), (4, _)] _ 4 _ rfl (bound32 elf.ePhoff)
  · have shnum : field m.bytes false 48 2 = elf.eShnum.toNat :=
      number [(2, _), (2, _), (4, _), (4, _), (4, _), (4, _), (4, _), (2, _), (2, _), (2, _),
        (2, _)] _ 2 _ rfl (bound16 elf.eShnum)
    have shstrndx : field m.bytes false 50 2 = elf.eShstrndx.toNat :=
      number [(2, _), (2, _), (4, _), (4, _), (4, _), (4, _), (4, _), (2, _), (2, _), (2, _),
        (2, _), (2, _)] _ 2 _ rfl (bound16 elf.eShstrndx)
    rw [field_four m.bytes 48 (by omega), shnum, shstrndx]

/-- When the program headers are counted right they are returned as encoded. -/
theorem Elf32.In.phdrs_counted (laid : elf.In m.bytes) (count : m.ehdr.ePhnum = elf.ePhnum.toNat)
    (i : Nat) (ph : PhInfo) (taken : (phsOf m.bytes m.order m.ehdr)[i]? = some ph) :
    elf.phdrs[i]?.map Phdr32.info = some ph := by
  obtain ⟨-, order, narrow, -, offset, -⟩ := laid.ehdr
  have other : ¬ m.ehdr.eiClass = elfClass64 := by
    rw [narrow]
    decide
  have size : m.ehdr.phsz = 32 := if_neg other
  obtain ⟨-, listed, -, rfl⟩ := phsOf_eq_some.mp taken
  have counted := laid.counted
  have among : i < elf.phdrs.length := by omega
  have there : elf.phdrs[i]? = some elf.phdrs[i] := List.getElem?_eq_getElem among
  rw [there, if_neg other, order, offset, size, ph32Of_holds (laid.phdrs i _ there)]
  rfl

/-- A 32-bit header and its program headers are returned as encoded exactly when the file is read
inside of its buffer, the flags are the last two numbers of the header together, and what is read
behind the header repeats three of its numbers. -/
theorem elf32_decoded_iff (elf : Elf32) (m : Buffer) (laid : elf.In m.bytes) :
    elf.Decoded m ↔ Inside m ∧ elf.Repeated m.bytes := by
  obtain ⟨isElf, -, -, entry, -, flags, phnum, shnum, shstrndx⟩ := laid.ehdr
  have header : (m.ehdr.eFlags = elf.eFlags.toNat ∧ m.ehdr.ePhnum = elf.ePhnum.toNat ∧
      m.ehdr.eShnum = elf.eShnum.toNat ∧ m.ehdr.eShstrndx = elf.eShstrndx.toNat) ↔
      elf.Repeated m.bytes := by
    rw [flags, phnum, shnum, shstrndx]
    exact and_congr_left' eq_comm
  constructor
  · rintro ⟨info, parsed, same, -⟩
    obtain ⟨inside, sectionNames, -, rfl⟩ := (decoded_info isElf).mp parsed
    exact ⟨inside, header.mp same⟩
  · rintro ⟨inside, repeated⟩
    obtain ⟨sectionNames, parsed⟩ := (parseElf_eq isElf).1 inside
    refine ⟨_, (decoded_info isElf).mpr ⟨inside, sectionNames, parsed, rfl⟩, header.mpr repeated,
      entry, ?_⟩
    exact laid.phdrs_counted (header.mpr repeated).2.1

end

/-- An executable with one program header, and flags as given. -/
def smallElf32 (eFlags : UInt32) : Elf32 where
  eType := 2
  eMachine := 40
  eVersion := 1
  eEntry := 0x10054
  ePhoff := 64
  eShoff := 0
  eFlags := eFlags
  eEhsize := 52
  ePhentsize := 32
  ePhnum := 1
  eShentsize := 40
  eShnum := 0
  eShstrndx := 0
  phdrs := [⟨1, 0, 0x10000, 0x10000, 96, 96, 5, 4096⟩]

/-- Its file, with twelve bytes between the header and the program header. -/
def smallFile32 (eFlags : UInt32) (between : List UInt8) : List UInt8 :=
  elfMagic ++ [1, 1, 1] ++ List.replicate 9 0 ++ layout false (smallElf32 eFlags).numbers ++
    between ++ (smallElf32 eFlags).phdrs.flatMap fun ph => layout false ph.numbers

/-- A file in which the twelve bytes repeat the counts is decoded. -/
theorem smallElf32_decoded : (smallElf32 0).Decoded
    (bufferOf (smallFile32 0 [0, 0, 0, 0, 1, 0, 0, 0, 0, 0, 0, 0]) (by decide +kernel)) := by
  have laid : (smallElf32 0).In (smallFile32 0 [0, 0, 0, 0, 1, 0, 0, 0, 0, 0, 0, 0]) := by
    refine ⟨by decide, by decide +kernel, by decide, ?_⟩
    rintro (_ | i) ph there
    · obtain rfl := Option.some.inj there
      decide +kernel
    · cases there
  refine (elf32_decoded_iff _ (bufferOf (smallFile32 0 [0, 0, 0, 0, 1, 0, 0, 0, 0, 0, 0, 0])
    (by decide +kernel)) laid).mpr ⟨?_, by decide +kernel⟩
  have none : (bufferOf (smallFile32 0 [0, 0, 0, 0, 1, 0, 0, 0, 0, 0, 0, 0])
      (by decide +kernel)).ehdr.eShoff = 0 := by decide +kernel
  refine ⟨by decide +kernel, fun _ _ => by decide +kernel, ?_, ?_, ?_⟩
  · exact fun _ present => absurd none present
  · exact fun present => absurd none present
  · exact fun present => absurd none present

/-- Of a file with flags and twelve zero bytes neither the flags nor the number of program headers
are returned. -/
theorem smallElf32_lost :
    ((loaderElfImpl true (.ok (bufferOf (smallFile32 0x5000200 (List.replicate 12 0))
      (by decide +kernel)))).bind Except.toOption).map (fun info => (info.eFlags, info.ePhnum)) =
        some (0, 0) ∧
    (smallElf32 0x5000200).In (smallFile32 0x5000200 (List.replicate 12 0)) ∧
    ¬ (smallElf32 0x5000200).Decoded
      (bufferOf (smallFile32 0x5000200 (List.replicate 12 0)) (by decide +kernel)) := by
  have read : ((loaderElfImpl true (.ok (bufferOf (smallFile32 0x5000200 (List.replicate 12 0))
      (by decide +kernel)))).bind Except.toOption).map (fun info => (info.eFlags, info.ePhnum)) =
        some (0, 0) := by decide +kernel
  refine ⟨read, ⟨by decide, by decide +kernel, by decide, ?_⟩, ?_⟩
  · rintro (_ | i) ph there
    · obtain rfl := Option.some.inj there
      decide +kernel
    · cases there
  · rintro ⟨info, parsed, ⟨flags, -⟩, -⟩
    rw [parsed] at read
    have both : (info.eFlags, info.ePhnum) = (0, 0) := Option.some.inj read
    have zero : info.eFlags = 0 := congrArg Prod.fst both
    rw [flags] at zero
    exact absurd zero (by decide)

end HwrunOs.Loader
