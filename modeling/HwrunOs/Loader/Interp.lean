import HwrunOs.Loader.ElfFields
import HwrunOs.Loader.Run

/-!
# Programs and libraries

Whether a file has a `PT_INTERP` header is decided in the loop that fills the table of eight program
headers, so it is decided by the first eight. `run` refuses, and `load` takes into the process, a
position-independent file without one.
-/

namespace HwrunOs.Loader

open HwrunOs.Bytes HwrunOs.Endian

/-! ## Loading -/

/-- `-ENOENT`. -/
def enoent : Int := -2

/-- `LOADER_MODE_NONE`, `LOADER_MODE_INFO` and `LOADER_MODE_DLOPEN`. -/
inductive Mode where
  | none
  | info
  | dlopen
  deriving DecidableEq

/-- `loader_handle_t`. -/
structure Handle where
  /-- `id`. -/
  id : UInt64
  /-- `format`. -/
  format : Format
  /-- `path`. -/
  path : Field 256
  /-- `interpreter`. -/
  interpreter : Field 256
  /-- `dl`. -/
  dl : Option Nat
  /-- `mode`. -/
  mode : Mode
  /-- `pid`. -/
  pid : Int
  /-- `loaded_at`. -/
  loadedAt : UInt64

/-- What the system answers during `loader_load_impl`. -/
structure LoadHost extends Host where
  /-- `dlopen`. -/
  dlopen : CString → Option Nat
  /-- `time`. -/
  now : UInt64

/-- What `loader_load_impl` returns and leaves. -/
structure Loaded where
  /-- The result. -/
  rc : Int
  /-- What is stored in the handle, unless there is none. -/
  handle : Option Handle
  /-- `next_id`. -/
  nextId : UInt64

/-- `loader_load_impl`, undefined where `loader_elf_impl` is. -/
def loaderLoadImpl (host : LoadHost) (nextId : UInt64) (path : Option CString) (given : Bool) :
    Option Loaded :=
  match path, given with
  | some path, true =>
    let detection := loaderDetectImpl host.file 0 256
    let interpreter := Field.copy (detection.interpreter.getD [])
    let h : Handle := ⟨0, .unknown, Field.copy [], interpreter, none, .none, 0, 0⟩
    if detection.rc < 0 then some ⟨enoexec, some h, nextId⟩
    else
      let h := { h with
        id := nextId, path := Field.copy path, format := detection.fmt, loadedAt := host.now }
      match detection.fmt with
      | .elf =>
        match loaderElfImpl true (readAll host.toHost) with
        | none => none
        | some (.error _) => some ⟨enoexec, some h, nextId + 1⟩
        | some (.ok info) =>
          if loaderIsLibrary info then
            match host.dlopen path with
            | none => some ⟨enoent, some h, nextId + 1⟩
            | some dl => some ⟨0, some { h with dl := some dl, mode := .dlopen }, nextId + 1⟩
          else some ⟨0, some { h with mode := .info }, nextId + 1⟩
      | _ => some ⟨0, some { h with mode := .info }, nextId + 1⟩
  | _, _ => some ⟨einval, none, nextId⟩

/-! ## Well-formed files -/

/-- A section header of the 64-bit class. -/
structure Shdr64 where
  /-- `sh_name`. -/
  shName : UInt32
  /-- `sh_type`. -/
  shType : UInt32
  /-- `sh_flags`. -/
  shFlags : UInt64
  /-- `sh_addr`. -/
  shAddr : UInt64
  /-- `sh_offset`. -/
  shOffset : UInt64
  /-- `sh_size`. -/
  shSize : UInt64
  /-- `sh_link`. -/
  shLink : UInt32
  /-- `sh_info`. -/
  shInfo : UInt32
  /-- `sh_addralign`. -/
  shAddralign : UInt64
  /-- `sh_entsize`. -/
  shEntsize : UInt64

/-- Its numbers in file order. -/
def Shdr64.numbers (sh : Shdr64) : List (Nat × Nat) :=
  [(4, sh.shName.toNat), (4, sh.shType.toNat), (8, sh.shFlags.toNat), (8, sh.shAddr.toNat),
    (8, sh.shOffset.toNat), (8, sh.shSize.toNat), (4, sh.shLink.toNat), (4, sh.shInfo.toNat),
    (8, sh.shAddralign.toNat), (8, sh.shEntsize.toNat)]

/-- A well-formed little-endian file of the 64-bit class. From 65535 program headers on their number
is in the first section header, and so is that of the sections from 65280 on. -/
structure Elf64.WellFormed (elf : Elf64) (sections : List Shdr64) (bytes : List UInt8) : Prop where
  /-- Numbers are little-endian. -/
  little : elf.msb = false
  /-- The identification. -/
  ident : bytes.take 7 = elfMagic ++ [2, 1, 1]
  /-- The numbers of the header. -/
  header : Holds bytes false 16 elf.numbers
  /-- The program headers are counted. -/
  phcounted : elf.phdrs.length = elf.ePhnum.toNat ∨
    elf.ePhnum = 0xffff ∧ 0xffff ≤ elf.phdrs.length ∧
      (sections[0]?).map (fun sh => sh.shInfo.toNat) = some elf.phdrs.length
  /-- There is an offset for them. -/
  phoff : elf.phdrs ≠ [] → elf.ePhoff ≠ 0 ∧ elf.ePhentsize = 56
  /-- They stand where the header says. -/
  phdrs : ∀ (i : Nat) ph, elf.phdrs[i]? = some ph →
    Holds bytes false (elf.ePhoff.toNat + i * 56) ph.numbers
  /-- The section headers are counted. -/
  shcounted : sections.length = elf.eShnum.toNat ∨
    elf.eShnum = 0 ∧ 0xff00 ≤ sections.length ∧
      (sections[0]?).map (fun sh => sh.shSize.toNat) = some sections.length
  /-- They stand where the header says. -/
  shdrs : ∀ (i : Nat) sh, sections[i]? = some sh →
    Holds bytes false (elf.eShoff.toNat + i * 64) sh.numbers
  /-- The string table of the section names lies in the file. -/
  names : elf.eShstrndx.toNat < elf.eShnum.toNat → ∀ sh,
    sections[elf.eShstrndx.toNat]? = some sh → sh.shOffset.toNat + sh.shSize.toNat ≤ bytes.length

/-- Some program header is of type `PT_INTERP`. -/
def Elf64.HasInterp (elf : Elf64) : Prop := ∃ ph ∈ elf.phdrs, ph.pType = 3

/-- A file of type `ET_DYN` without an interpreter. -/
def Elf64.IsLibrary (elf : Elf64) : Prop := elf.eType = 3 ∧ ¬ elf.HasInterp

instance (elf : Elf64) : Decidable elf.HasInterp :=
  inferInstanceAs (Decidable (∃ ph ∈ elf.phdrs, _))

instance (elf : Elf64) : Decidable elf.IsLibrary := inferInstanceAs (Decidable (_ ∧ _))

/-- The reader says whether there is an interpreter, and `run` and `load` take for libraries just
the libraries. -/
structure Elf64.Classified (elf : Elf64) (host : LoadHost) (m : Buffer) : Prop where
  /-- `has_interp`. -/
  interp : ∃ info, loaderElfImpl true (.ok m) = some (.ok info) ∧
    (info.hasInterp = true ↔ elf.HasInterp)
  /-- `loader_run_impl`. -/
  run : ∀ path argv wait, loaderRunImpl host.toHost (some path) argv wait =
    some (if elf.IsLibrary then failed hwrunEnotsup else runExec host.toHost path argv wait)
  /-- `loader_load_impl`. -/
  load : ∀ nextId path, ∃ rc handle,
    loaderLoadImpl host nextId (some path) true = some ⟨rc, some handle, nextId + 1⟩ ∧
      handle.mode = if elf.IsLibrary then
        (if (host.dlopen path).isSome then .dlopen else .none) else .info

/-! ## Well-formed files are read -/

section

variable {elf : Elf64} {sections : List Shdr64} {m : Buffer}

/-- The file has the header and the program headers that are counted in it. -/
theorem Elf64.WellFormed.inFile (laid : elf.WellFormed sections m.bytes) :
    Elf64.In { elf with phdrs := elf.phdrs.take elf.ePhnum.toNat } m.bytes where
  ident := by
    show m.bytes.take 7 = elfMagic ++ [2, if elf.msb then 2 else 1, 1]
    rw [laid.little]
    exact laid.ident
  header := by
    show Holds m.bytes elf.msb 16 elf.numbers
    rw [laid.little]
    exact laid.header
  counted := by
    show (elf.phdrs.take elf.ePhnum.toNat).length = elf.ePhnum.toNat
    rw [List.length_take]
    rcases laid.phcounted with same | ⟨many, more, -⟩
    · omega
    · rw [many]
      exact Nat.min_eq_left more
  phdrs i ph listed := by
    show Holds m.bytes elf.msb (elf.ePhoff.toNat + i * 56) ph.numbers
    rw [laid.little]
    have found : (elf.phdrs.take elf.ePhnum.toNat)[i]? = some ph := listed
    rw [List.getElem?_take] at found
    split at found
    · exact laid.phdrs i ph found
    · cases found

/-- The numbers of the header are read as they are. -/
theorem Elf64.WellFormed.ehdr (laid : elf.WellFormed sections m.bytes) :
    IsElf m.bytes ∧ m.order = false ∧ m.ehdr.eiClass = elfClass64 ∧
      m.ehdr.eType = elf.eType.toNat ∧ m.ehdr.ePhoff = elf.ePhoff.toNat ∧
      m.ehdr.ePhnum = elf.ePhnum.toNat ∧ m.ehdr.eShnum = elf.eShnum.toNat ∧
      m.ehdr.eShstrndx = elf.eShstrndx.toNat ∧ m.ehdr.eShoff = elf.eShoff.toNat := by
  obtain ⟨isElf, order, wide, type, -, -, phoff, phnum, shnum, shstrndx⟩ := laid.inFile.ehdr
  have little : ({ elf with phdrs := elf.phdrs.take elf.ePhnum.toNat } : Elf64).msb = false :=
    laid.little
  have whole (width number : Nat) (bound : number < 256 ^ width) :
      seen ({ elf with phdrs := elf.phdrs.take elf.ePhnum.toNat } : Elf64).msb width number =
        number := (seen_iff _ bound).mpr (.inl little)
  rw [whole _ _ (bound16 _)] at type phnum shnum shstrndx
  rw [whole _ _ (bound64 _)] at phoff
  refine ⟨isElf, order, wide, type, phoff, phnum, shnum, shstrndx, ?_⟩
  have other : ¬ byteAt m.bytes 4 = elfClass32 := by
    have class64 : byteAt m.bytes 4 = elfClass64 := wide
    rw [class64]
    decide
  have holds : Holds m.bytes false 16 ([(2, _), (2, _), (4, _), (8, _), (8, _)] ++
      (8, elf.eShoff.toNat) :: [(4, _), (2, _), (2, _), (2, _), (2, _), (2, _), (2, _)]) :=
    laid.header
  have read : field m.bytes false (16 + 24) 8 = elf.eShoff.toNat :=
    Eq.trans (field_of_holds holds) (valueOf_bytesOf false (bound64 _))
  unfold Buffer.ehdr ehdrOf
  rw [order]
  simp only [if_neg other]
  exact read

/-- A program header lies in the file. -/
theorem Elf64.WellFormed.phdr_reach (laid : elf.WellFormed sections m.bytes) {i : Nat}
    {ph : Phdr64} (listed : elf.phdrs[i]? = some ph) :
    elf.ePhoff.toNat + i * 56 + 56 ≤ m.bytes.length := by
  have filled : extent ph.numbers ≠ 0 := by
    show 56 ≠ 0
    decide
  exact (laid.phdrs i ph listed).length filled

/-- A section header lies in the file. -/
theorem Elf64.WellFormed.shdr_reach (laid : elf.WellFormed sections m.bytes) {i : Nat}
    {sh : Shdr64} (listed : sections[i]? = some sh) :
    elf.eShoff.toNat + i * 64 + 64 ≤ m.bytes.length := by
  have filled : extent sh.numbers ≠ 0 := by
    show 64 ≠ 0
    decide
  exact (laid.shdrs i sh listed).length filled

/-- A program header that is counted is one of the file. -/
theorem Elf64.WellFormed.phdr_counted (laid : elf.WellFormed sections m.bytes) {i : Nat}
    (counted : i < elf.ePhnum.toNat) : ∃ ph, elf.phdrs[i]? = some ph := by
  have inside : i < elf.phdrs.length := by
    rcases laid.phcounted with same | ⟨many, more, -⟩
    · omega
    · rw [many] at counted
      exact Nat.lt_of_lt_of_le counted more
  exact ⟨elf.phdrs[i], List.getElem?_eq_getElem inside⟩

/-- A section header that is counted is one of the file. -/
theorem Elf64.WellFormed.shdr_counted (laid : elf.WellFormed sections m.bytes) {i : Nat}
    (counted : i < elf.eShnum.toNat) : ∃ sh, sections[i]? = some sh := by
  have inside : i < sections.length := by
    rcases laid.shcounted with same | ⟨none, -⟩
    · omega
    · rw [none] at counted
      exact absurd counted (Nat.not_lt_zero i)
  exact ⟨sections[i], List.getElem?_eq_getElem inside⟩

/-- The string table that is found lies in the file. -/
theorem Elf64.WellFormed.tableOf_reach (laid : elf.WellFormed sections m.bytes) :
    (tableOf m.bytes m.order m.ehdr).1 + (tableOf m.bytes m.order m.ehdr).2 ≤ m.bytes.length := by
  obtain ⟨-, order, wide, -, -, -, shnum, shstrndx, shoff⟩ := laid.ehdr
  unfold tableOf
  dsimp only
  split
  · rename_i found
    obtain ⟨-, -, among, -⟩ := found
    rw [shnum, shstrndx] at among
    obtain ⟨sh, listed⟩ := laid.shdr_counted among
    have holds := laid.shdrs _ sh listed
    have size : m.ehdr.shsz = 64 := if_pos wide
    rw [order, size, shoff, shstrndx]
    dsimp only
    have front : Holds m.bytes false (elf.eShoff.toNat + elf.eShstrndx.toNat * 64)
        ([(4, sh.shName.toNat), (4, sh.shType.toNat), (8, sh.shFlags.toNat),
          (8, sh.shAddr.toNat)] ++ (8, sh.shOffset.toNat) :: [(8, _), (4, _), (4, _), (8, _),
          (8, _)]) := holds
    have back : Holds m.bytes false (elf.eShoff.toNat + elf.eShstrndx.toNat * 64)
        ([(4, sh.shName.toNat), (4, sh.shType.toNat), (8, sh.shFlags.toNat),
          (8, sh.shAddr.toNat), (8, sh.shOffset.toNat)] ++
          (8, sh.shSize.toNat) :: [(4, _), (4, _), (8, _), (8, _)]) := holds
    have offset : field m.bytes false (elf.eShoff.toNat + elf.eShstrndx.toNat * 64 + 24) 8 =
        sh.shOffset.toNat := Eq.trans (field_of_holds front) (valueOf_bytesOf false (bound64 _))
    have length : field m.bytes false (elf.eShoff.toNat + elf.eShstrndx.toNat * 64 + 32) 8 =
        sh.shSize.toNat := Eq.trans (field_of_holds back) (valueOf_bytesOf false (bound64 _))
    rw [offset, length]
    exact laid.names among sh listed
  · exact Nat.zero_le _

/-- A well-formed file is read inside of its buffer. -/
theorem Elf64.WellFormed.inside (laid : elf.WellFormed sections m.bytes) : Inside m := by
  obtain ⟨-, order, wide, -, phoff, phnum, shnum, shstrndx, shoff⟩ := laid.ehdr
  have low := m.low
  have phsz : m.ehdr.phsz = 56 := if_pos wide
  have shsz : m.ehdr.shsz = 64 := if_pos wide
  have filled : extent elf.numbers ≠ 0 := by
    show 48 ≠ 0
    decide
  refine ⟨laid.header.length filled, ?_, ?_, ?_, ?_⟩
  · intro counted _
    obtain ⟨ph, listed⟩ := @Elf64.WellFormed.phdr_counted _ _ _ laid 0 (by omega)
    have reach := laid.phdr_reach listed
    rw [phoff, phsz]
    omega
  · intro counted _
    obtain ⟨sh, listed⟩ := @Elf64.WellFormed.shdr_counted _ _ _ laid 0 (by omega)
    have reach := laid.shdr_reach listed
    rw [shoff, shsz]
    omega
  · intro _ _ among
    rw [shnum, shstrndx] at among
    obtain ⟨sh, listed⟩ := laid.shdr_counted among
    have reach := laid.shdr_reach listed
    rw [shoff, shsz, shstrndx]
    omega
  · intro _ i _ _ _ _ named
    have reach := laid.tableOf_reach
    omega

/-! ## The interpreter -/

/-- The reader finds an interpreter exactly when one of the first eight program headers is one. -/
theorem Elf64.WellFormed.any_interp (laid : elf.WellFormed sections m.bytes) :
    ((phsOf m.bytes m.order m.ehdr).any fun entry => entry.pType = 3) = true ↔
      ∃ i < 8, ∃ ph, elf.phdrs[i]? = some ph ∧ ph.pType = 3 := by
  obtain ⟨-, order, wide, -, phoff, phnum, -⟩ := laid.ehdr
  have phsz : m.ehdr.phsz = 56 := if_pos wide
  have kind (ph : Phdr64) : ph.info.pType = 3 ↔ ph.pType = 3 :=
    ⟨fun same => UInt32.toNat_inj.mp same, fun same => congrArg UInt32.toNat same⟩
  have read {i : Nat} {ph : Phdr64} (listed : elf.phdrs[i]? = some ph) :
      ph64Of m.bytes m.order (m.ehdr.ePhoff + i * m.ehdr.phsz) = ph.info := by
    rw [order, phoff, phsz]
    exact ph64Of_holds (laid.phdrs i ph listed)
  rw [List.any_eq_true]
  constructor
  · rintro ⟨entry, taken, found⟩
    obtain ⟨i, place⟩ := List.mem_iff_getElem?.mp taken
    obtain ⟨-, among, -, value⟩ := phsOf_eq_some.mp place
    rw [if_pos wide] at value
    obtain ⟨ph, listed⟩ := @Elf64.WellFormed.phdr_counted _ _ _ laid i (by omega)
    refine ⟨i, by omega, ph, listed, ?_⟩
    rw [← kind, ← read listed, value]
    exact of_decide_eq_true found
  · rintro ⟨i, early, ph, listed, interp⟩
    have filled : elf.phdrs ≠ [] := by
      intro none
      rw [none] at listed
      cases listed
    have counted : i < elf.ePhnum.toNat := by
      obtain ⟨inside, -⟩ := List.getElem?_eq_some_iff.mp listed
      rcases laid.phcounted with same | ⟨many, -⟩
      · omega
      · rw [many]
        exact Nat.lt_of_lt_of_le early (by decide)
    have present : m.ehdr.ePhoff ≠ 0 := by
      rw [phoff]
      intro zero
      exact (laid.phoff filled).1 (UInt64.toNat_inj.mp zero)
    have reach := laid.phdr_reach listed
    have taken : (phsOf m.bytes m.order m.ehdr)[i]? = some ph.info := by
      rw [phsOf_eq_some, if_pos wide]
      refine ⟨present, by omega, ?_, read listed⟩
      rw [phoff, phsz]
      exact reach
    exact ⟨ph.info, List.mem_of_getElem? taken, decide_eq_true ((kind ph).mpr interp)⟩

/-- The reader returns the type, and whether one of the first eight program headers is an
interpreter. -/
theorem Elf64.WellFormed.read (laid : elf.WellFormed sections m.bytes) :
    ∃ info, loaderElfImpl true (.ok m) = some (.ok info) ∧ info.eType = elf.eType.toNat ∧
      (info.hasInterp = true ↔ ∃ i < 8, ∃ ph, elf.phdrs[i]? = some ph ∧ ph.pType = 3) := by
  obtain ⟨isElf, -, -, type, -⟩ := laid.ehdr
  obtain ⟨sectionNames, parsed⟩ := (parseElf_eq isElf).1 laid.inside
  exact ⟨infoOf m sectionNames, (decoded_info isElf).mpr ⟨laid.inside, sectionNames, parsed, rfl⟩,
    type, laid.any_interp⟩

end

/-! ## Running and loading -/

section

variable {host : LoadHost} {m : Buffer} {info : ElfInfo}

/-- `run` starts a file in a child unless it takes it for a library. -/
theorem loaderRunImpl_info (read : readAll host.toHost = .ok m) (isElf : IsElf m.bytes)
    (parsed : loaderElfImpl true (.ok m) = some (.ok info)) (path : CString)
    (argv : Option (List CString)) (wait : Bool) :
    loaderRunImpl host.toHost (some path) argv wait = some (if loaderIsLibrary info then
      failed hwrunEnotsup else runExec host.toHost path argv wait) := by
  have detected := detect_elf isElf 0 0
  rw [← readAll_bytes read] at detected
  rw [loaderRunImpl_elf detected.1 detected.2, read, parsed]
  rfl

/-- `load` takes a file into the process exactly when it takes it for a library. -/
theorem loaderLoadImpl_info (read : readAll host.toHost = .ok m) (isElf : IsElf m.bytes)
    (parsed : loaderElfImpl true (.ok m) = some (.ok info)) (nextId : UInt64) (path : CString) :
    ∃ rc handle,
      loaderLoadImpl host nextId (some path) true = some ⟨rc, some handle, nextId + 1⟩ ∧
        handle.mode = if loaderIsLibrary info then
          (if (host.dlopen path).isSome then .dlopen else .none) else .info := by
  have detected := detect_elf isElf 0 256
  rw [← readAll_bytes read] at detected
  unfold loaderLoadImpl
  dsimp only
  rw [detected.1, detected.2, if_neg (by decide), read, parsed]
  dsimp only
  cases loaderIsLibrary info with
  | false => exact ⟨_, _, rfl, rfl⟩
  | true =>
    cases host.dlopen path with
    | none => exact ⟨_, _, rfl, rfl⟩
    | some dl => exact ⟨_, _, rfl, rfl⟩

/-- A library is a file of type `ET_DYN` in which no interpreter was found. -/
theorem loaderIsLibrary_iff {elf : Elf64} (type : info.eType = elf.eType.toNat)
    (found : info.hasInterp = true ↔ elf.HasInterp) :
    loaderIsLibrary info = true ↔ elf.IsLibrary := by
  have kind : elf.eType.toNat = 3 ↔ elf.eType = 3 :=
    ⟨fun same => UInt16.toNat_inj.mp same, fun same => congrArg UInt16.toNat same⟩
  unfold loaderIsLibrary Elf64.IsLibrary
  rw [Bool.and_eq_true, beq_iff_eq, type, kind, Bool.not_eq_true', ← found, Bool.not_eq_true]

/-- A well-formed 64-bit little-endian file is classified right exactly when an interpreter, if
there is one, is among the first eight program headers. -/
theorem elf64_classified_iff (elf : Elf64) (sections : List Shdr64) (host : LoadHost) (m : Buffer)
    (laid : elf.WellFormed sections m.bytes) (read : readAll host.toHost = .ok m) :
    elf.Classified host m ↔
      (elf.HasInterp → ∃ i < 8, ∃ ph, elf.phdrs[i]? = some ph ∧ ph.pType = 3) := by
  obtain ⟨info, parsed, type, early⟩ := laid.read
  constructor
  · rintro ⟨⟨other, again, found⟩, -, -⟩ has
    rw [parsed] at again
    obtain rfl := Except.ok.inj (Option.some.inj again)
    exact early.mp (found.mpr has)
  · intro among
    have found : info.hasInterp = true ↔ elf.HasInterp := by
      rw [early]
      constructor
      · rintro ⟨i, -, ph, listed, interp⟩
        exact ⟨ph, List.mem_of_getElem? listed, interp⟩
      · exact among
    have library := loaderIsLibrary_iff type found
    have isElf := laid.ehdr.1
    refine ⟨⟨info, parsed, found⟩, ?_, ?_⟩
    · intro path argv wait
      rw [loaderRunImpl_info read isElf parsed, if_congr library rfl rfl]
    · intro nextId path
      obtain ⟨rc, handle, loaded, mode⟩ := loaderLoadImpl_info read isElf parsed nextId path
      refine ⟨rc, handle, loaded, ?_⟩
      rw [mode, if_congr library rfl rfl]

end

/-- A program header of a type, with nothing else. -/
def phdrOf (pType : UInt32) : Phdr64 := ⟨pType, 4, 0, 0, 0, 0, 0, 1⟩

/-- A position-independent executable with as many `PT_NOTE` headers as given in front of its
interpreter. -/
def notedElf (notes : Nat) : Elf64 where
  msb := false
  eType := 3
  eMachine := 62
  eVersion := 1
  eEntry := 0x1000
  ePhoff := 64
  eShoff := 0
  eFlags := 0
  eEhsize := 64
  ePhentsize := 56
  ePhnum := UInt16.ofNat (notes + 2)
  eShentsize := 64
  eShnum := 0
  eShstrndx := 0
  phdrs := List.replicate notes (phdrOf 4) ++ [phdrOf 3, phdrOf 1]

/-- Its file. -/
def notedFile (notes : Nat) : List UInt8 :=
  elfMagic ++ [2, 1, 1] ++ List.replicate 9 0 ++ layout false (notedElf notes).numbers ++
    (notedElf notes).phdrs.flatMap fun ph => layout false ph.numbers

/-- A system on which a file can be loaded and run. -/
def loadHost (bytes : List UInt8) : LoadHost :=
  { shellScriptHost with
    file := .ok bytes
    dlopen := fun _ => some 8192
    now := 0 }

/-- A small file is read. -/
theorem readAll_loadHost {bytes : List UInt8} (small : bytes.length ≤ 4096) :
    readAll (loadHost bytes).toHost = .ok (bufferOf bytes small) := by
  have bounded : bytes.length ≤ 64 * 1024 * 1024 := by omega
  have low : 4096 + bytes.length ≤ 2 ^ 63 := by omega
  show (if small : bytes.length ≤ 64 * 1024 * 1024 then _ else Except.error efbig) = _
  rw [dif_pos bounded]
  exact dif_pos low

/-- Program headers that are checked one by one stand where the header says. -/
theorem phdrs_checked {elf : Elf64} {bytes : List UInt8}
    (checked : ∀ i : Fin elf.phdrs.length,
      Holds bytes false (elf.ePhoff.toNat + i.val * 56) (elf.phdrs.get i).numbers)
    (i : Nat) (ph : Phdr64) (listed : elf.phdrs[i]? = some ph) :
    Holds bytes false (elf.ePhoff.toNat + i * 56) ph.numbers := by
  obtain ⟨inside, rfl⟩ := List.getElem?_eq_some_iff.mp listed
  exact checked ⟨i, inside⟩

/-- With one note the file is classified right. -/
theorem notedElf_classified : (notedElf 1).Classified (loadHost (notedFile 1))
    (bufferOf (notedFile 1) (by decide +kernel)) := by
  have laid : (notedElf 1).WellFormed [] (notedFile 1) := {
    little := rfl
    ident := by decide
    header := by decide +kernel
    phcounted := .inl rfl
    phoff := fun _ => ⟨by decide, rfl⟩
    phdrs := phdrs_checked (by decide +kernel)
    shcounted := .inl rfl
    shdrs := fun _ _ listed => by cases listed
    names := fun among => absurd among (by decide) }
  refine (elf64_classified_iff _ [] (loadHost (notedFile 1))
    (bufferOf (notedFile 1) (by decide +kernel)) laid (readAll_loadHost _)).mpr fun _ => ?_
  exact ⟨1, by decide, phdrOf 3, rfl, rfl⟩

/-- With eight notes in front of it the interpreter is not seen: `run` refuses the executable as a
library, and `load` takes it into the process. -/
theorem noted_interp_missed : (notedElf 8).WellFormed [] (notedFile 8) ∧
    ¬ (notedElf 8).Classified (loadHost (notedFile 8))
      (bufferOf (notedFile 8) (by decide +kernel)) ∧
    ((loaderRunImpl (loadHost (notedFile 8)).toHost (some (lit "/bin/app")) none true).map
      Run.child).join.isNone = true := by
  have laid : (notedElf 8).WellFormed [] (notedFile 8) := {
    little := rfl
    ident := by decide
    header := by decide +kernel
    phcounted := .inl rfl
    phoff := fun _ => ⟨by decide, rfl⟩
    phdrs := phdrs_checked (by decide +kernel)
    shcounted := .inl rfl
    shdrs := fun _ _ listed => by cases listed
    names := fun among => absurd among (by decide) }
  have missed : ((loaderElfImpl true (.ok (bufferOf (notedFile 8) (by decide +kernel)))).bind
      Except.toOption).map ElfInfo.hasInterp = some false := by decide +kernel
  refine ⟨laid, ?_, by decide +kernel⟩
  rintro ⟨⟨info, parsed, found⟩, -, -⟩
  rw [parsed] at missed
  have none : info.hasInterp = false := Option.some.inj missed
  have has : (notedElf 8).HasInterp := by decide
  rw [found.mpr has] at none
  cases none

end HwrunOs.Loader
