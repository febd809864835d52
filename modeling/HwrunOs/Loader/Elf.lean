import HwrunOs.Library.Bytes
import HwrunOs.Library.Endian

/-!
# Reading ELF headers

`loader_elf_impl` reads a file into a buffer and takes the header fields, up to eight program
headers and the names of up to forty sections from it. Offsets of the file are added to the address
of the buffer before they are compared with its end, so what the comparison says depends on sums
that do not pass the end of the address space. A read outside of the buffer and a sum that passes
it are undefined here.
-/

namespace HwrunOs.Loader

open HwrunOs.Bytes HwrunOs.Endian

/-! ## The buffer -/

/-- The buffer of `read_all`. -/
structure Buffer where
  /-- Its address, `m`. -/
  base : Nat
  /-- The bytes of the file. -/
  bytes : List UInt8
  /-- A larger file is refused. -/
  small : bytes.length ≤ 64 * 1024 * 1024
  /-- It lies in the lower half of the address space. -/
  low : base + bytes.length ≤ 2 ^ 63

/-- The address behind the buffer, `m + len`. -/
def Buffer.stop (m : Buffer) : Nat := m.base + m.bytes.length

/-- A sum of an address and offsets, undefined where it passes the end of the address space. -/
def pointer (sum : Nat) : Option Nat := if sum < 2 ^ 64 then some sum else none

/-- `rd16`, `rd32` and `rd64`: the number in some bytes at an address, undefined outside of the
buffer. -/
def rd (m : Buffer) (be : Bool) (width addr : Nat) : Option Nat :=
  if m.base ≤ addr ∧ addr + width ≤ m.stop then
    some (valueOf be ((m.bytes.drop (addr - m.base)).take width))
  else none

/-- `rd16`. -/
def rd16 (m : Buffer) (be : Bool) (addr : Nat) : Option Nat := rd m be 2 addr

/-- `rd32`. -/
def rd32 (m : Buffer) (be : Bool) (addr : Nat) : Option Nat := rd m be 4 addr

/-- `rd64`. -/
def rd64 (m : Buffer) (be : Bool) (addr : Nat) : Option Nat := rd m be 8 addr

/-! ## The header -/

/-- `ehdr_view_t`, with the class. -/
structure Ehdr where
  /-- `EI_CLASS`. -/
  eiClass : Nat
  /-- `e_type`. -/
  eType : Nat
  /-- `e_machine`. -/
  eMachine : Nat
  /-- `e_version`. -/
  eVersion : Nat
  /-- `e_entry`. -/
  eEntry : Nat
  /-- `e_phoff`. -/
  ePhoff : Nat
  /-- `e_shoff`. -/
  eShoff : Nat
  /-- `e_flags`. -/
  eFlags : Nat
  /-- `e_ehsize`. -/
  eEhsize : Nat
  /-- `e_phentsize`. -/
  ePhentsize : Nat
  /-- `e_phnum`. -/
  ePhnum : Nat
  /-- `e_shentsize`. -/
  eShentsize : Nat
  /-- `e_shnum`. -/
  eShnum : Nat
  /-- `e_shstrndx`. -/
  eShstrndx : Nat
  deriving DecidableEq

/-- `loader_ph_info_t`. -/
structure PhInfo where
  /-- `p_type`. -/
  pType : Nat
  /-- `p_flags`. -/
  pFlags : Nat
  /-- `p_offset`. -/
  pOffset : Nat
  /-- `p_vaddr`. -/
  pVaddr : Nat
  /-- `p_paddr`. -/
  pPaddr : Nat
  /-- `p_filesz`. -/
  pFilesz : Nat
  /-- `p_memsz`. -/
  pMemsz : Nat
  deriving DecidableEq

/-- `loader_elf_info_t`; `ph_count` is the length of `ph`. -/
structure ElfInfo where
  /-- `ei_class`. -/
  eiClass : Nat
  /-- `ei_data`. -/
  eiData : Nat
  /-- `e_type`. -/
  eType : Nat
  /-- `e_machine`. -/
  eMachine : Nat
  /-- `e_flags`. -/
  eFlags : Nat
  /-- `e_entry`. -/
  eEntry : Nat
  /-- `e_shstrndx`. -/
  eShstrndx : Nat
  /-- `e_phnum`. -/
  ePhnum : Nat
  /-- `e_shnum`. -/
  eShnum : Nat
  /-- `has_interp`. -/
  hasInterp : Bool
  /-- `ph`. -/
  ph : List PhInfo
  /-- `section_names`. -/
  sectionNames : CString
  deriving DecidableEq

/-- A byte of the file. -/
def byteAt (bytes : List UInt8) (offset : Nat) : Nat := (bytes.getD offset 0).toNat

/-- `want_be` on an identification. -/
def wantBe (ident : List UInt8) : Bool := byteAt ident 5 = 2

/-- `ELFCLASS32`. -/
def elfClass32 : Nat := 1

/-- `ELFCLASS64`. -/
def elfClass64 : Nat := 2

/-- The header: the numbers whose place depends on the class are read where the file reaches that
far. -/
def readEhdr (m : Buffer) (be : Bool) : Option Ehdr := do
  let len := m.bytes.length
  let eType ← rd16 m be (m.base + 16)
  let eMachine ← rd16 m be (m.base + 18)
  let eVersion ← rd32 m be (m.base + 20)
  let eFlags ← rd32 m be (m.base + 48)
  let eEhsize ← rd16 m be (m.base + 52)
  let ePhentsize ← rd16 m be (m.base + 54)
  let ePhnum ← rd16 m be (m.base + 56)
  let eShentsize ← rd16 m be (m.base + 58)
  let eShnum ← rd16 m be (m.base + 60)
  let eShstrndx ← rd16 m be (m.base + 62)
  let eiClass := byteAt m.bytes 4
  let (eEntry, ePhoff, eShoff) ←
    if eiClass = elfClass32 then do
      let entry ← if 32 ≤ len then rd32 m be (m.base + 24) else some 0
      let phoff ← if 36 ≤ len then rd32 m be (m.base + 28) else some 0
      let shoff ← if 40 ≤ len then rd32 m be (m.base + 32) else some 0
      some (entry, phoff, shoff)
    else do
      let entry ← if 32 ≤ len then rd64 m be (m.base + 24) else some 0
      let phoff ← if 40 ≤ len then rd64 m be (m.base + 32) else some 0
      let shoff ← if 48 ≤ len then rd64 m be (m.base + 40) else some 0
      some (entry, phoff, shoff)
  some {
    eiClass := eiClass
    eType := eType
    eMachine := eMachine
    eVersion := eVersion
    eEntry := eEntry
    ePhoff := ePhoff
    eShoff := eShoff
    eFlags := eFlags
    eEhsize := eEhsize
    ePhentsize := ePhentsize
    ePhnum := ePhnum
    eShentsize := eShentsize
    eShnum := eShnum
    eShstrndx := eShstrndx }

/-! ## Program headers -/

/-- The loop of `parse_ph32` and `parse_ph64` from an index, with the size of an entry and the
rounds left. -/
def phLoop (m : Buffer) (phoff size : Nat) (entry : Nat → Option PhInfo) :
    Nat → Nat → Option (List PhInfo)
  | 0, _ => some []
  | left + 1, i => do
    let p ← pointer (m.base + phoff + i * size)
    let stop ← pointer (p + size)
    if m.stop < stop then some []
    else
      let head ← entry p
      let rest ← phLoop m phoff size entry left (i + 1)
      some (head :: rest)

/-- An entry that `parse_ph32` reads. -/
def ph32Entry (m : Buffer) (be : Bool) (p : Nat) : Option PhInfo := do
  let pType ← rd32 m be (p + 0)
  let pOffset ← rd32 m be (p + 4)
  let pVaddr ← rd32 m be (p + 8)
  let pPaddr ← rd32 m be (p + 12)
  let pFilesz ← rd32 m be (p + 16)
  let pMemsz ← rd32 m be (p + 20)
  let pFlags ← rd32 m be (p + 24)
  some ⟨pType, pFlags, pOffset, pVaddr, pPaddr, pFilesz, pMemsz⟩

/-- An entry that `parse_ph64` reads. -/
def ph64Entry (m : Buffer) (be : Bool) (p : Nat) : Option PhInfo := do
  let pType ← rd32 m be (p + 0)
  let pFlags ← rd32 m be (p + 4)
  let pOffset ← rd64 m be (p + 8)
  let pVaddr ← rd64 m be (p + 16)
  let pPaddr ← rd64 m be (p + 24)
  let pFilesz ← rd64 m be (p + 32)
  let pMemsz ← rd64 m be (p + 40)
  some ⟨pType, pFlags, pOffset, pVaddr, pPaddr, pFilesz, pMemsz⟩

/-- `parse_ph32`. -/
def parsePh32 (m : Buffer) (be : Bool) (eh : Ehdr) : Option (List PhInfo) :=
  if eh.ePhnum = 0 ∨ eh.ePhoff = 0 then some []
  else phLoop m eh.ePhoff 32 (ph32Entry m be) (min eh.ePhnum 8) 0

/-- `parse_ph64`. -/
def parsePh64 (m : Buffer) (be : Bool) (eh : Ehdr) : Option (List PhInfo) :=
  if eh.ePhnum = 0 ∨ eh.ePhoff = 0 then some []
  else phLoop m eh.ePhoff 56 (ph64Entry m be) (min eh.ePhnum 8) 0

/-! ## Sections -/

/-- The size of a section header. -/
def Ehdr.shsz (eh : Ehdr) : Nat := if eh.eiClass = elfClass64 then 64 else 40

/-- Offset and size of the string table, zero when there is none. -/
def stringTable (m : Buffer) (be : Bool) (eh : Ehdr) : Option (Nat × Nat) :=
  if eh.eShstrndx ≠ 0 ∧ eh.eShoff ≠ 0 ∧ eh.eShstrndx < eh.eShnum then do
    let sh ← pointer (m.base + eh.eShoff + eh.eShstrndx * eh.shsz)
    let stop ← pointer (sh + eh.shsz)
    if stop ≤ m.stop then
      if eh.eiClass = elfClass64 then do
        let stroff ← rd64 m be (sh + 24)
        let strsz ← rd64 m be (sh + 32)
        some (stroff, strsz)
      else do
        let stroff ← rd32 m be (sh + 16)
        let strsz ← rd32 m be (sh + 20)
        some (stroff, strsz)
    else some (0, 0)
  else some (0, 0)

/-- The loop over the bytes of a name, with the bytes that the name has room for. The byte behind
the last one is read too. -/
def nameLoop (m : Buffer) : Nat → Nat → Option CString
  | left, nstr =>
    if nstr < m.stop then do
      let byte ← rd m false 1 nstr
      if byte = 0 then some []
      else match left with
        | 0 => some []
        | left + 1 => do
          let rest ← nameLoop m left (nstr + 1)
          some (UInt8.ofNat byte :: rest)
    else some []

/-- The name of a section, empty when it is not in the string table. -/
def sectionName (m : Buffer) (stroff strsz nameoff : Nat) : Option CString :=
  if stroff ≠ 0 ∧ strsz ≠ 0 ∧ nameoff < strsz then do
    let nstr ← pointer (m.base + stroff + nameoff)
    nameLoop m 63 nstr
  else some []

/-- A name goes behind the names before it, with a comma, as long as there is room. -/
def addName (names name : CString) : CString :=
  if name = [] then names
  else if names = [] then name
  else if names.length + name.length + 2 < 512 then names ++ 44 :: name
  else names

/-- The loop of `parse_sections` from an index, with the rounds left. -/
def sectionLoop (m : Buffer) (be : Bool) (eh : Ehdr) (stroff strsz : Nat) :
    Nat → Nat → CString → Option CString
  | 0, _, names => some names
  | left + 1, i, names => do
    let sh ← pointer (m.base + eh.eShoff + i * eh.shsz)
    let stop ← pointer (sh + eh.shsz)
    if m.stop < stop then some names
    else
      let nameoff ← rd32 m be (sh + 0)
      let name ← sectionName m stroff strsz nameoff
      sectionLoop m be eh stroff strsz left (i + 1) (addName names name)

/-- `parse_sections`. -/
def parseSections (m : Buffer) (be : Bool) (eh : Ehdr) : Option CString := do
  let (stroff, strsz) ← stringTable m be eh
  sectionLoop m be eh stroff strsz (min eh.eShnum 40) 0 []

/-! ## The whole -/

/-- The bytes that an ELF file begins with. -/
def elfMagic : List UInt8 := [0x7f, 0x45, 0x4c, 0x46]

/-- The file is long enough and begins with the magic bytes. -/
def IsElf (bytes : List UInt8) : Prop := 52 ≤ bytes.length ∧ bytes.take 4 = elfMagic

instance (bytes : List UInt8) : Decidable (IsElf bytes) := inferInstanceAs (Decidable (_ ∧ _))

/-- The program headers, by class. -/
def elfPhdrs (m : Buffer) (be : Bool) (eh : Ehdr) : Option (List PhInfo) :=
  if eh.ePhnum ≠ 0 ∧ eh.ePhoff ≠ 0 then
    if eh.eiClass = elfClass64 then parsePh64 m be eh else parsePh32 m be eh
  else some []

/-- The names of the sections. -/
def elfSections (m : Buffer) (be : Bool) (eh : Ehdr) : Option CString :=
  if eh.eShnum ≠ 0 ∧ eh.eShoff ≠ 0 then parseSections m be eh else some []

/-- `loader_elf_impl` from the check of the magic bytes on. -/
def parseElf (m : Buffer) : Option (Except Int ElfInfo) :=
  if ¬ IsElf m.bytes then some (.error (-8))
  else do
    let be := wantBe (m.bytes.drop 1)
    let eh ← readEhdr m be
    let ph ← elfPhdrs m be eh
    let sectionNames ← elfSections m be eh
    some (.ok {
      eiClass := eh.eiClass
      eiData := byteAt m.bytes 5
      eType := eh.eType
      eMachine := eh.eMachine
      eFlags := eh.eFlags
      eEntry := eh.eEntry
      eShstrndx := eh.eShstrndx
      ePhnum := eh.ePhnum
      eShnum := eh.eShnum
      hasInterp := ph.any fun entry => entry.pType = 3
      ph := ph
      sectionNames := sectionNames })

/-- `loader_elf_impl`: whether both pointers are given, and what `read_all` delivers, an error or
the buffer. -/
def loaderElfImpl (given : Bool) (read : Except Int Buffer) : Option (Except Int ElfInfo) :=
  if given = false then some (.error (-22))
  else match read with
    | .error code => some (.error code)
    | .ok m => parseElf m

end HwrunOs.Loader
