import HwrunOs.Library.Lines

/-!
# Texts of the kernel

The readers of `hap_util.h`: a file is read once into a buffer of fixed size, and a value is looked
for at the starts of its lines.
-/

namespace HwrunOs.Hap

open HwrunOs.Bytes

/-- The files that can be opened, with what stands in them. -/
abbrev Files := CString → Option CString

/-- `hap_read_file`: the text in a buffer of `cap` bytes, or `none` where it returns 0. -/
def hapReadFile (files : Files) (path : CString) (cap : Nat) : Option CString :=
  match files path with
  | none => none
  | some content =>
    if (content.take (cap - 1)).length = 0 then none
    else some (bufferText (content.take (cap - 1)))

/-- A byte that `hap_line_value` passes over behind the key. -/
def isSeparator (byte : UInt8) : Bool := byte == 58 || byte == 61 || isSpace byte

/-- The value behind a key. It is looked for in the whole text behind the key, so an empty one is
taken from the next line that is not. -/
def valueBehind (cap : Nat) (text : CString) : CString :=
  ((lineOf (text.dropWhile isSeparator)).take (cap - 1)).rdropWhile isSpace

/-- The value when a line starts with the key. -/
def lineValue (key : CString) (cap : Nat) (start : CString) : Option CString :=
  if key.length < (lineOf start).length ∧ key <+: start ∧
      (start.drop key.length).head?.any isSeparator then
    some (valueBehind cap (start.drop key.length))
  else none

/-- `hap_line_value`: the value of the first line with the key, or `none` where it returns 0. -/
def hapLineValue (config key : CString) (cap : Nat) : Option CString :=
  if cap = 0 then none else (lineStarts config).findSome? (lineValue key cap)

/-- A file that is not empty is read up to the size of the buffer. -/
theorem hapReadFile_some {files : Files} {path content : CString} {cap : Nat}
    (there : files path = some content) (filled : content ≠ []) (room : 1 < cap) :
    hapReadFile files path cap = some (bufferText (content.take (cap - 1))) := by
  have some_ : ¬ (content.take (cap - 1)).length = 0 := by
    have bytes := List.length_pos_of_ne_nil filled
    rw [List.length_take]
    omega
  rw [hapReadFile, there]
  exact if_neg some_

/-- A text that fits its buffer is read whole. -/
theorem hapReadFile_whole {files : Files} {path text : CString} {cap : Nat}
    (there : files path = some text) (filled : text ≠ []) (fits : text.length < cap)
    (plain : (0 : UInt8) ∉ text) : hapReadFile files path cap = some text := by
  have bytes := List.length_pos_of_ne_nil filled
  have room : 1 < cap := by omega
  have short : text.length ≤ cap - 1 := by omega
  rw [hapReadFile_some there filled room, List.take_of_length_le short, bufferText_eq plain]

/-- A line of a text. -/
abbrev TextLine := { line : CString // newline ∉ line }

/-- A line with its line feed. -/
def TextLine.ended (line : TextLine) : CString := line.1 ++ [newline]

/-- A line starts with a key and a byte that separates it from a value. -/
def keyed (key line : CString) : Bool :=
  key.isPrefixOf line && (line.drop key.length).head?.any isSeparator

/-- What is found at the start of a line depends on what stands behind its key. -/
theorem lineValue_line (key : CString) (cap : Nat) {line rest : CString} (plain : newline ∉ line)
    (ends : ∀ byte ∈ rest.head?, byte = newline) :
    lineValue key cap (line ++ rest) =
      if keyed key line then some (valueBehind cap (line.drop key.length ++ rest)) else none := by
  have front : lineOf (line ++ rest) = line := by
    cases rest with
    | nil =>
      rw [List.append_nil]
      exact lineOf_last plain
    | cons byte rest =>
      obtain rfl := ends byte rfl
      exact lineOf_line plain rest
  have same : (key.length < (lineOf (line ++ rest)).length ∧ key <+: line ++ rest ∧
      ((line ++ rest).drop key.length).head?.any isSeparator = true) ↔ keyed key line = true := by
    rw [front, keyed, Bool.and_eq_true, List.isPrefixOf_iff_prefix]
    constructor
    · rintro ⟨short, begins, separated⟩
      have inside : key <+: line :=
        List.prefix_of_prefix_length_le begins (List.prefix_append _ _) (Nat.le_of_lt short)
      rw [List.drop_append_of_le_length (Nat.le_of_lt short)] at separated
      have filled : line.drop key.length ≠ [] :=
        List.ne_nil_of_length_pos (by rw [List.length_drop]; omega)
      rw [List.head?_append_of_ne_nil _ filled] at separated
      exact ⟨inside, separated⟩
    · rintro ⟨inside, separated⟩
      have filled : line.drop key.length ≠ [] := by
        intro nothing
        rw [nothing] at separated
        cases separated
      have short : key.length < line.length := by
        by_contra long
        exact filled (List.drop_eq_nil_of_le (Nat.not_lt.mp long))
      refine ⟨short, inside.trans (List.prefix_append _ _), ?_⟩
      rw [List.drop_append_of_le_length (Nat.le_of_lt short), List.head?_append_of_ne_nil _ filled]
      exact separated
  rw [lineValue]
  by_cases key_ : keyed key line = true
  · have short : key.length ≤ line.length := by
      have begins := (Bool.and_eq_true _ _ ▸ key_ : key.isPrefixOf line = true ∧ _).1
      exact (List.isPrefixOf_iff_prefix.mp begins).length_le
    rw [if_pos (same.mpr key_), if_pos key_, List.drop_append_of_le_length short]
  · rw [if_neg (fun found => key_ (same.mp found)), if_neg key_]

end HwrunOs.Hap
