import HwrunOs.Library.Bytes

/-!
# Names in the mount table

The kernel writes a blank, a tab, a line feed and a backslash in the names of a mount as three octal
digits behind a backslash. `unescape` of `fsp/src/fsp_mount.c` turns only the blank back.
-/

namespace HwrunOs.Fsp

open HwrunOs.Bytes

/-- The octal form of a blank. -/
def blankEscape : CString := lit "\\040"

/-- `unescape` into a buffer with room for so many bytes and a NUL. -/
def unescape : Nat → CString → CString
  | 0, _ => []
  | _ + 1, [] => []
  | room + 1, byte :: rest =>
    if blankEscape <+: byte :: rest then 32 :: unescape room (rest.drop 3)
    else byte :: unescape room rest

/-! ## What the kernel prints -/

/-- A byte in the form the kernel prints it in. -/
def mangleByte (byte : UInt8) : CString :=
  if byte = 32 then blankEscape
  else if byte = 9 then lit "\\011"
  else if byte = 10 then lit "\\012"
  else if byte = 92 then lit "\\134"
  else [byte]

/-- A name in that form. -/
def mangle (name : CString) : CString := name.flatMap mangleByte

/-! ## Names that are kept -/

/-- A byte whose printed form is not turned back. -/
def Special (byte : UInt8) : Prop := byte = 9 ∨ byte = 10 ∨ byte = 92

/-- The first bytes of `134134134..`. -/
def escapes : Nat → CString
  | 0 => []
  | 1 => lit "1"
  | 2 => lit "13"
  | count + 3 => lit "134" ++ escapes count

/-- The first bytes of a name have no tab, line feed or backslash; or they go on to the end with
what the digits of a backslash look like. -/
def NameKept (cap : Nat) (name : CString) : Prop :=
  (∀ byte ∈ name.take cap, ¬ Special byte) ∨
    ∃ front count, (∀ byte ∈ front, ¬ Special byte) ∧ front.length + 1 + count = cap ∧
      name.take cap = front ++ 92 :: escapes count

/-- What is read back of the printed form of a byte. -/
def readByte (byte : UInt8) : CString := if byte = 32 then [32] else mangleByte byte

/-- What is read back of the printed form of a name. -/
def readBack (name : CString) : CString := name.flatMap readByte

/-- A byte that starts no blank is taken as it is. -/
theorem unescape_byte {byte : UInt8} {rest : CString} (room : Nat)
    (other : ¬ blankEscape <+: byte :: rest) :
    unescape (room + 1) (byte :: rest) = byte :: unescape room rest := by
  rw [unescape, if_neg other]

/-- A byte that is not a backslash is taken as it is. -/
theorem unescape_plain {byte : UInt8} {rest : CString} (room : Nat) (plain : byte ≠ 92) :
    unescape (room + 1) (byte :: rest) = byte :: unescape room rest := by
  apply unescape_byte
  rintro ⟨tail, whole⟩
  exact plain (List.cons.inj whole).1.symm

/-- What is read is no longer than the room. -/
theorem unescape_length (room : Nat) (text : CString) : (unescape room text).length ≤ room := by
  induction room generalizing text with
  | zero => exact Nat.le_refl _
  | succ room ih =>
    cases text with
    | nil => exact Nat.zero_le _
    | cons byte rest =>
      rw [unescape]
      split
      · exact Nat.succ_le_succ (ih _)
      · exact Nat.succ_le_succ (ih _)

/-- A backslash with digits behind it that are no blank is taken as it is. -/
theorem unescape_digits {second third fourth : UInt8} {rest : CString}
    (other : ¬ (second = 48 ∧ third = 52)) (plain : second ≠ 92 ∧ third ≠ 92 ∧ fourth ≠ 92)
    (room : Nat) :
    unescape room (92 :: second :: third :: fourth :: rest) =
      (92 :: second :: third :: fourth :: unescape (room - 4) rest).take room := by
  have blank : ¬ blankEscape <+: 92 :: second :: third :: fourth :: rest := by
    rintro ⟨tail, whole⟩
    have parts : 92 :: 48 :: 52 :: 48 :: tail = 92 :: second :: third :: fourth :: rest := whole
    simp only [List.cons.injEq] at parts
    exact other ⟨parts.2.1.symm, parts.2.2.1.symm⟩
  rcases room with _ | _ | _ | _ | room
  · rfl
  · rw [unescape_byte _ blank]
    rfl
  · rw [unescape_byte _ blank, unescape_plain _ plain.1]
    rfl
  · rw [unescape_byte _ blank, unescape_plain _ plain.1, unescape_plain _ plain.2.1]
    rfl
  · have left : room + 1 + 1 + 1 + 1 - 4 = room := by omega
    rw [unescape_byte _ blank, unescape_plain _ plain.1, unescape_plain _ plain.2.1,
      unescape_plain _ plain.2.2, left, List.take_succ_cons, List.take_succ_cons,
      List.take_succ_cons, List.take_succ_cons, List.take_of_length_le (unescape_length _ _)]

/-- What is read of the printed form of a name. -/
theorem unescape_mangle (name : CString) (room : Nat) :
    unescape room (mangle name) = (readBack name).take room := by
  induction name generalizing room with
  | nil => cases room <;> rfl
  | cons byte name ih =>
    have text : mangle (byte :: name) = mangleByte byte ++ mangle name := rfl
    have read : readBack (byte :: name) = readByte byte ++ readBack name := rfl
    have escaped (second third fourth : UInt8) (other : ¬ (second = 48 ∧ third = 52))
        (plain : second ≠ 92 ∧ third ≠ 92 ∧ fourth ≠ 92) :
        unescape room ([92, second, third, fourth] ++ mangle name) =
          ([92, second, third, fourth] ++ readBack name).take room := by
      show unescape room (92 :: second :: third :: fourth :: mangle name) = _
      rw [unescape_digits other plain, ih, List.take_append]
      show List.take room ([92, second, third, fourth] ++ (readBack name).take (room - 4)) = _
      rw [List.take_append, List.take_take]
      show _ ++ List.take (min (room - 4) (room - 4)) (readBack name) = _
      rw [Nat.min_self]
      rfl
    rw [text, read, readByte, mangleByte]
    by_cases blank : byte = 32
    · rw [if_pos blank, if_pos blank]
      cases room with
      | zero => rfl
      | succ room =>
        have front : blankEscape <+: 92 :: ([48, 52, 48] ++ mangle name) :=
          List.prefix_append blankEscape (mangle name)
        show unescape (room + 1) (92 :: ([48, 52, 48] ++ mangle name)) = _
        rw [unescape, if_pos front]
        show 32 :: unescape room (mangle name) = _
        rw [ih]
        rfl
    rw [if_neg blank, if_neg blank]
    by_cases tab : byte = 9
    · rw [if_pos tab]
      exact escaped 48 49 49 (by decide) (by decide)
    rw [if_neg tab]
    by_cases feed : byte = 10
    · rw [if_pos feed]
      exact escaped 48 49 50 (by decide) (by decide)
    rw [if_neg feed]
    by_cases backslash : byte = 92
    · rw [if_pos backslash]
      exact escaped 49 51 52 (by decide) (by decide)
    rw [if_neg backslash]
    cases room with
    | zero => rfl
    | succ room =>
      show unescape (room + 1) (byte :: mangle name) = byte :: (readBack name).take room
      rw [unescape_plain _ backslash, ih]

/-- A text whose front is three known bytes. -/
theorem take_front {name front : CString} {count : Nat} {first second third : UInt8}
    (begins : name.take (count + 3) = first :: second :: third :: front) :
    ∃ rest, name = first :: second :: third :: rest ∧ rest.take count = front := by
  rcases name with _ | ⟨one, _ | ⟨two, _ | ⟨three, rest⟩⟩⟩
  · cases begins
  · cases begins
  · cases begins
  · simp only [List.take_succ_cons, List.cons.injEq] at begins
    obtain ⟨rfl, rfl, rfl, behind⟩ := begins
    exact ⟨rest, rfl, behind⟩

/-- A name agrees with the digits of a backslash and itself behind them only when it repeats them
to the end. -/
theorem escapes_iff (count : Nat) (name : CString) :
    (lit "134" ++ readBack name).take count = name.take count ↔
      name.take count = escapes count := by
  induction count using escapes.induct generalizing name with
  | case1 => simp [escapes]
  | case2 => exact eq_comm
  | case3 => exact eq_comm
  | case4 count ih =>
    have digits : lit "134" = [49, 51, 52] := by decide
    have plain (rest : CString) : readBack (49 :: 51 :: 52 :: rest) =
        49 :: 51 :: 52 :: readBack rest := rfl
    rw [escapes, digits]
    constructor
    · intro same
      obtain ⟨rest, rfl, behind⟩ := take_front same.symm
      rw [plain] at same
      simp only [List.cons_append, List.nil_append, List.take_succ_cons, List.cons.injEq,
        true_and] at same ⊢
      exact (ih rest).mp (by rw [digits]; exact same)
    · intro same
      obtain ⟨rest, rfl, behind⟩ := take_front same
      rw [plain]
      simp only [List.cons_append, List.nil_append, List.take_succ_cons, List.cons.injEq,
        true_and]
      have later := (ih rest).mpr behind
      rw [digits] at later
      exact later

/-- A plain byte in front changes nothing. -/
theorem nameKept_cons {byte : UInt8} (plain : ¬ Special byte) (name : CString) (cap : Nat) :
    NameKept (cap + 1) (byte :: name) ↔ NameKept cap name := by
  constructor
  · rintro (clean | ⟨front, count, clean, length, whole⟩)
    · exact .inl fun other found => clean other (List.mem_cons_of_mem _ found)
    · rw [List.take_succ_cons] at whole
      cases front with
      | nil => exact absurd (.inr (.inr (List.cons.inj whole).1)) plain
      | cons first front =>
        refine .inr ⟨front, count, fun other found => clean other (List.mem_cons_of_mem _ found),
          ?_, (List.cons.inj whole).2⟩
        rw [List.length_cons] at length
        omega
  · rintro (clean | ⟨front, count, clean, length, whole⟩)
    · refine .inl fun other found => ?_
      rcases List.mem_cons.mp found with rfl | inside
      · exact plain
      · exact clean other inside
    · refine .inr ⟨byte :: front, count, ?_, ?_, ?_⟩
      · intro other found
        rcases List.mem_cons.mp found with rfl | inside
        · exact plain
        · exact clean other inside
      · rw [List.length_cons]
        omega
      · rw [List.take_succ_cons, whole]
        rfl

/-- A special byte in front leaves one way for the name to be kept. -/
theorem nameKept_special {byte : UInt8} (special : Special byte) (name : CString) (cap : Nat) :
    NameKept (cap + 1) (byte :: name) ↔ byte = 92 ∧ name.take cap = escapes cap := by
  constructor
  · rintro (clean | ⟨front, count, clean, length, whole⟩)
    · exact absurd special (clean byte List.mem_cons_self)
    · rw [List.take_succ_cons] at whole
      cases front with
      | nil =>
        rw [List.length_nil] at length
        have same : count = cap := by omega
        exact ⟨(List.cons.inj whole).1, same ▸ (List.cons.inj whole).2⟩
      | cons first front =>
        rw [(List.cons.inj whole).1] at special
        exact absurd special (clean first List.mem_cons_self)
  · rintro ⟨rfl, whole⟩
    refine .inr ⟨[], cap, by simp, by simp; omega, ?_⟩
    rw [List.take_succ_cons, whole]
    rfl

/-- A name is read back as far as the room goes exactly when it is kept. -/
theorem readBack_iff (name : CString) (cap : Nat) :
    (readBack name).take cap = name.take cap ↔ NameKept cap name := by
  induction name generalizing cap with
  | nil =>
    have none : NameKept cap [] := .inl (by simp)
    simp [readBack, none]
  | cons byte name ih =>
    cases cap with
    | zero =>
      have none : NameKept 0 (byte :: name) := .inl (by simp)
      simp [none]
    | succ cap =>
      have read : readBack (byte :: name) = readByte byte ++ readBack name := rfl
      rw [read, readByte, mangleByte]
      by_cases blank : byte = 32
      · subst blank
        rw [if_pos rfl, nameKept_cons (by unfold Special; decide), ← ih]
        simp
      rw [if_neg blank, if_neg blank]
      by_cases tab : byte = 9
      · subst tab
        rw [if_pos rfl, nameKept_special (.inl rfl)]
        have front : lit "\\011" = 92 :: lit "011" := by decide
        simp [front]
      rw [if_neg tab]
      by_cases feed : byte = 10
      · subst feed
        rw [if_pos rfl, nameKept_special (.inr (.inl rfl))]
        have front : lit "\\012" = 92 :: lit "012" := by decide
        simp [front]
      rw [if_neg feed]
      by_cases backslash : byte = 92
      · subst backslash
        have front : lit "\\134" = 92 :: lit "134" := by decide
        rw [if_pos rfl, nameKept_special (.inr (.inr rfl)), front, List.cons_append,
          List.take_succ_cons, List.take_succ_cons, List.cons.injEq, escapes_iff]
      rw [if_neg backslash]
      have plain : ¬ Special byte := by
        rintro (same | same | same)
        · exact tab same
        · exact feed same
        · exact backslash same
      rw [nameKept_cons plain, ← ih]
      simp

end HwrunOs.Fsp
