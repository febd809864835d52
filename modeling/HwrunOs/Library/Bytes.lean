import Mathlib.Algebra.Group.Nat.Defs
import Mathlib.Algebra.Ring.Int.Defs
import Mathlib.Data.List.DropRight
import Mathlib.Data.List.Basic

/-!
# Byte strings of C programs

A C string is the list of its bytes. Truncating copies, trimming, line input and
decimal conversion are the library calls text formats are built from. Each call has
the lemmas a writer and its reader need to be compared: what survives the call, and
what the call returns on the text another call wrote.
-/

namespace HwrunOs.Bytes

/-- The bytes of a C string, without its terminating zero. -/
abbrev CString := List UInt8

/-- The UTF-8 bytes of a source literal. -/
def lit (text : String) : CString := text.toList.flatMap String.utf8EncodeChar

/-- The line feed byte. -/
abbrev newline : UInt8 := 10

/-! ## Truncating copies -/

/-- `snprintf(dst, cap, "%s", text)`: the bytes that fit before the terminating zero. -/
def snprintf (cap : Nat) (text : CString) : CString := text.take (cap - 1)

/-- A text shorter than the buffer is copied whole. -/
theorem snprintf_eq {cap : Nat} {text : CString} (fits : text.length < cap) :
    snprintf cap text = text := by
  rw [snprintf, List.take_of_length_le (by omega)]

/-- A copy is a front part of its source. -/
theorem snprintf_begins (cap : Nat) (text : CString) : snprintf cap text <+: text :=
  List.take_prefix _ _

/-- A copy into a buffer that is not empty leaves room for the terminating zero. -/
theorem snprintf_length {cap : Nat} (text : CString) (room : 0 < cap) :
    (snprintf cap text).length < cap := by
  simp only [snprintf, List.length_take]
  omega

/-- Copying twice is copying once. -/
theorem snprintf_snprintf (cap : Nat) (text : CString) :
    snprintf cap (snprintf cap text) = snprintf cap text := by
  simp [snprintf, List.take_take]

/-- A `char` array of a record: a C string with room for its terminating zero. -/
abbrev Field (cap : Nat) := { text : CString // text.length < cap }

/-- `snprintf` into a field. -/
def Field.copy {size : Nat} (text : CString) : Field (size + 1) :=
  ⟨snprintf (size + 1) text, snprintf_length text (Nat.succ_pos size)⟩

/-- A text that is not empty fills a field of at least two bytes with one that is not. -/
theorem copy_ne_nil {size : Nat} {text : CString} (filled : text ≠ []) :
    (Field.copy text : Field (size + 1 + 1)).val ≠ [] := by
  obtain ⟨byte, rest, rfl⟩ := List.exists_cons_of_ne_nil filled
  show List.take (size + 1 + 1 - 1) (byte :: rest) ≠ []
  rw [show size + 1 + 1 - 1 = size + 1 by omega, List.take_succ_cons]
  exact List.cons_ne_nil _ _

/-- A field copied into a field of its own size is unchanged. -/
@[simp] theorem copy_val {size : Nat} (field : Field (size + 1)) : Field.copy field.val = field :=
  Subtype.ext (snprintf_eq field.property)

/-- A field holds bytes of the text that was copied. -/
theorem copy_mem {size : Nat} {text : CString} {byte : UInt8}
    (found : byte ∈ (Field.copy text : Field (size + 1)).val) : byte ∈ text :=
  (snprintf_begins (size + 1) text).mem found

/-! ## Trimming -/

/-- A blank inside a line: space or tab. -/
def isBlank (byte : UInt8) : Bool := byte == 32 || byte == 9

/-- A blank or a line end: space, tab, carriage return or line feed. -/
def isLineBlank (byte : UInt8) : Bool :=
  byte == 32 || byte == 9 || byte == 13 || byte == newline

/-- `isspace` in the C locale. -/
def isSpace (byte : UInt8) : Bool := byte == 32 || (9 ≤ byte && byte ≤ 13)

/-- Drop one class of bytes from the front and another from the back. -/
def trim (front back : UInt8 → Bool) (text : CString) : CString :=
  (text.dropWhile front).rdropWhile back

/-- Trimming the back of an append stops at a front part that ends solid. -/
theorem rdropWhile_append {drop : UInt8 → Bool} {front : CString}
    (solid : front.rdropWhile drop = front) (back : CString) :
    (front ++ back).rdropWhile drop = front ++ back.rdropWhile drop := by
  unfold List.rdropWhile at solid ⊢
  rw [List.reverse_append, List.dropWhile_append]
  by_cases gone : (back.reverse.dropWhile drop).isEmpty = true
  · rw [if_pos gone, solid, List.isEmpty_iff.mp gone]
    simp
  · rw [if_neg gone, List.reverse_append, List.reverse_reverse]

/-- Trimming the back drops a last byte of the class. -/
theorem rdropWhile_snoc {drop : UInt8 → Bool} {byte : UInt8} (text : CString)
    (dropped : drop byte = true) : (text ++ [byte]).rdropWhile drop = text.rdropWhile drop := by
  rw [List.rdropWhile_concat, if_pos dropped]

/-- Trimming the back once leaves nothing to trim. -/
theorem rdropWhile_rdropWhile (drop : UInt8 → Bool) (text : CString) :
    (text.rdropWhile drop).rdropWhile drop = text.rdropWhile drop :=
  List.rdropWhile_idempotent drop text

/-- Trimming the back returns a front part. -/
theorem rdropWhile_mem {drop : UInt8 → Bool} {text : CString} {byte : UInt8}
    (found : byte ∈ text.rdropWhile drop) : byte ∈ text :=
  (List.rdropWhile_prefix drop text).mem found

/-- A text that ends with a byte outside the class is not trimmed. -/
theorem rdropWhile_solid {drop : UInt8 → Bool} {byte : UInt8} (text : CString)
    (kept : drop byte = false) : (text ++ [byte]).rdropWhile drop = text ++ [byte] := by
  rw [List.rdropWhile_concat, if_neg (by simp [kept])]

/-- A text without bytes of the class is not trimmed at the back. -/
theorem rdropWhile_of_forall {drop : UInt8 → Bool} {text : CString}
    (kept : ∀ byte ∈ text, drop byte = false) : text.rdropWhile drop = text := by
  rw [List.rdropWhile_eq_self_iff]
  intro filled
  simp [kept _ (List.getLast_mem filled)]

/-- A text that ends with a word is not trimmed. -/
theorem rdropWhile_word {drop : UInt8 → Bool} {word : CString} (front : CString)
    (filled : word ≠ []) (kept : ∀ byte ∈ word, drop byte = false) :
    (front ++ word).rdropWhile drop = front ++ word := by
  have last : drop (word.getLast filled) = false := kept _ (List.getLast_mem filled)
  rw [List.rdropWhile_eq_self_iff]
  intro longer
  rw [List.getLast_append_of_ne_nil longer filled, last]
  exact Bool.false_ne_true

/-- Only bytes of the text survive trimming. -/
theorem trim_mem {front back : UInt8 → Bool} {text : CString} {byte : UInt8}
    (found : byte ∈ trim front back text) : byte ∈ text :=
  (List.dropWhile_suffix front).mem (rdropWhile_mem found)

/-- A last byte that the back drops makes no difference to trimming. -/
theorem trim_snoc {front back : UInt8 → Bool} {byte : UInt8} (text : CString)
    (dropped : back byte = true) : trim front back (text ++ [byte]) = trim front back text := by
  unfold trim
  rw [List.dropWhile_append]
  by_cases blank : (text.dropWhile front).isEmpty = true
  · have gone : (List.dropWhile front [byte]).rdropWhile back = [] := by
      rw [List.dropWhile_cons]
      split
      · rfl
      · simp [List.rdropWhile, dropped]
    rw [if_pos blank, List.isEmpty_iff.mp blank, gone]
    rfl
  · rw [if_neg blank, rdropWhile_snoc _ dropped]

/-- Trimming both ends repeats the trimming of the back. -/
theorem trim_rdropWhile (front back : UInt8 → Bool) (text : CString) :
    trim front back (text.rdropWhile back) = trim front back text := by
  induction text using List.reverseRecOn with
  | nil => rfl
  | append_singleton text byte ih =>
    by_cases dropped : back byte = true
    · rw [rdropWhile_snoc text dropped, ih, trim_snoc text dropped]
    · rw [rdropWhile_solid text (by simpa using dropped)]

/-- Trimming keeps the order of front parts. -/
theorem trim_prefix {front back : UInt8 → Bool} {text whole : CString} (begins : text <+: whole) :
    trim front back text <+: trim front back whole := by
  obtain ⟨rest, rfl⟩ := begins
  unfold trim
  rw [List.dropWhile_append]
  split
  · rename_i gone
    rw [List.isEmpty_iff.mp gone]
    exact List.nil_prefix
  · generalize text.dropWhile front = kept
    unfold List.rdropWhile
    rw [List.reverse_append, List.dropWhile_append]
    split
    · exact List.prefix_rfl
    · rw [List.reverse_append, List.reverse_reverse]
      exact (List.rdropWhile_prefix back kept).trans (List.prefix_append _ _)

/-- A byte that trimming drops makes no difference in front. -/
theorem trim_cons {front back : UInt8 → Bool} {byte : UInt8} (text : CString)
    (dropped : front byte = true) : trim front back (byte :: text) = trim front back text := by
  rw [trim, List.dropWhile_cons_of_pos dropped]
  rfl

/-- What follows the first byte of a class, with the bytes before it: `strchr` and a cut. -/
def cutAt (separator : UInt8) (text : CString) : Option (CString × CString) :=
  match text.dropWhile (· != separator) with
  | [] => none
  | _ :: rest => some (text.takeWhile (· != separator), rest)

/-- A cut at a byte that the front part does not hold returns both parts. -/
theorem cutAt_append {separator : UInt8} {front : CString} (absent : separator ∉ front)
    (back : CString) : cutAt separator (front ++ separator :: back) = some (front, back) := by
  have skipped : ∀ byte ∈ front, (byte != separator) = true := by
    intro byte found
    simp only [bne_iff_ne, ne_eq]
    rintro rfl
    exact absent found
  rw [cutAt, List.dropWhile_append_of_pos skipped, List.takeWhile_append_of_pos skipped]
  simp

/-- The first position of a byte takes a text apart. -/
theorem idxOf?_parts {separator : UInt8} {text : CString} {pos : Nat}
    (position : text.idxOf? separator = some pos) :
    text = text.take pos ++ separator :: text.drop (pos + 1) ∧ separator ∉ text.take pos := by
  obtain ⟨inside, here, first⟩ := List.idxOf?_eq_some_iff.mp position
  constructor
  · conv_lhs => rw [← List.take_append_drop pos text]
    rw [List.drop_eq_getElem_cons inside, here]
  · intro found
    obtain ⟨index, below, same⟩ := List.mem_take_iff_getElem.mp found
    exact first index (by omega) same

/-- A cut at a byte is a cut at its first position. -/
theorem cutAt_idxOf? (separator : UInt8) (text : CString) :
    cutAt separator text =
      (text.idxOf? separator).map fun pos => (text.take pos, text.drop (pos + 1)) := by
  cases position : text.idxOf? separator with
  | none =>
    have absent : separator ∉ text := List.idxOf?_eq_none_iff.mp position
    have none : text.dropWhile (· != separator) = [] := by
      refine List.dropWhile_eq_nil_iff.mpr ?_
      intro byte found
      simp only [bne_iff_ne, ne_eq]
      rintro rfl
      exact absent found
    simp only [cutAt, none, Option.map_none]
  | some pos =>
    obtain ⟨whole, absent⟩ := idxOf?_parts position
    conv_lhs => rw [whole]
    rw [cutAt_append absent, Option.map_some]

/-- A cut takes the text apart at the first separator. -/
theorem cutAt_parts {separator : UInt8} {text front back : CString}
    (cut : cutAt separator text = some (front, back)) :
    text = front ++ separator :: back ∧ separator ∉ front := by
  rw [cutAt_idxOf?] at cut
  obtain ⟨pos, position, parts⟩ := Option.map_eq_some_iff.mp cut
  obtain ⟨rfl, rfl⟩ := Prod.mk.inj parts
  exact idxOf?_parts position

/-- The part after a cut is the end of the text. -/
theorem cutAt_suffix {separator : UInt8} {text front back : CString}
    (cut : cutAt separator text = some (front, back)) : back <:+ text := by
  unfold cutAt at cut
  split at cut
  · cases cut
  · rename_i byte rest split
    simp only [Option.some.injEq, Prod.mk.injEq] at cut
    obtain ⟨-, rfl⟩ := cut
    exact (List.suffix_cons byte rest).trans (split ▸ List.dropWhile_suffix _)

/-- The part before a cut is the front of the text. -/
theorem cutAt_front {separator : UInt8} {text front back : CString}
    (cut : cutAt separator text = some (front, back)) : front <+: text := by
  unfold cutAt at cut
  split at cut
  · cases cut
  · simp only [Option.some.injEq, Prod.mk.injEq] at cut
    obtain ⟨rfl, -⟩ := cut
    exact List.takeWhile_prefix _

/-- What repeated calls of `strtok` with one separator return: the parts between separators
that are not empty. -/
def tokens (separator : UInt8) (text : CString) : List CString :=
  (text.splitOn separator).filter fun token => !token.isEmpty

/-- No part between separators holds one. -/
theorem splitOn_part (separator : UInt8) (text : CString) :
    ∀ part ∈ text.splitOn separator, separator ∉ part := by
  induction text with
  | nil => simp
  | cons byte rest ih =>
    rw [List.splitOn_cons_eq_if_modifyHead]
    by_cases same : (byte == separator) = true
    · rw [if_pos same]
      intro part listed
      rcases List.mem_cons.mp listed with rfl | later
      · exact List.not_mem_nil
      · exact ih part later
    · rw [if_neg same]
      cases parts : rest.splitOn separator with
      | nil => exact fun part listed => absurd listed List.not_mem_nil
      | cons first others =>
        rw [parts] at ih
        intro part listed
        rcases List.mem_cons.mp listed with rfl | later
        · have absent := ih first List.mem_cons_self
          have different : separator ≠ byte := fun equal => same (by simp [equal])
          simp [absent, different]
        · exact ih part (List.mem_cons_of_mem _ later)

/-- A byte of joined parts is the separator or in one of the parts. -/
theorem mem_intercalate {separator byte : UInt8} {parts : List CString}
    (found : byte ∈ [separator].intercalate parts) :
    byte = separator ∨ ∃ part ∈ parts, byte ∈ part := by
  induction parts with
  | nil => cases found
  | cons part rest ih =>
    cases rest with
    | nil =>
      rw [List.intercalate_singleton] at found
      exact .inr ⟨part, .head _, found⟩
    | cons next rest =>
      rw [List.intercalate_cons_cons] at found
      rcases List.mem_append.mp found with front | back
      · rcases List.mem_append.mp front with here | between
        · exact .inr ⟨part, .head _, here⟩
        · exact .inl (List.mem_singleton.mp between)
      · rcases ih back with between | ⟨later, member, here⟩
        · exact .inl between
        · exact .inr ⟨later, .tail _ member, here⟩

/-- A byte of a part is in the joined parts. -/
theorem intercalate_mem {separator byte : UInt8} {parts : List CString} {part : CString}
    (listed : part ∈ parts) (found : byte ∈ part) : byte ∈ [separator].intercalate parts := by
  induction parts with
  | nil => cases listed
  | cons first rest ih =>
    cases rest with
    | nil =>
      obtain rfl := List.mem_singleton.mp listed
      rw [List.intercalate_singleton]
      exact found
    | cons next rest =>
      rw [List.intercalate_cons_cons]
      rcases List.mem_cons.mp listed with rfl | later
      · exact List.mem_append_left _ (List.mem_append_left _ found)
      · exact List.mem_append_right _ (ih later)

/-- A token is not empty, holds no separator and only bytes of the text. -/
theorem tokens_part (separator : UInt8) (text : CString) : ∀ token ∈ tokens separator text,
    token ≠ [] ∧ separator ∉ token ∧ ∀ byte ∈ token, byte ∈ text := by
  intro token listed
  obtain ⟨part, filled⟩ := List.mem_filter.mp listed
  refine ⟨by simpa using filled, splitOn_part separator text token part, fun byte found => ?_⟩
  have joined : byte ∈ [separator].intercalate (text.splitOn separator) :=
    intercalate_mem part found
  rwa [List.intercalate_splitOn] at joined

/-- The first token of a text that begins with another byte begins with it too. -/
theorem tokens_head {separator first : UInt8} (rest : CString) (other : first ≠ separator) :
    ∃ tail others, tokens separator (first :: rest) = (first :: tail) :: others := by
  obtain ⟨tail, others, parts⟩ := List.exists_cons_of_ne_nil (List.splitOn_ne_nil separator rest)
  refine ⟨tail, others.filter fun token => !token.isEmpty, ?_⟩
  rw [tokens, List.splitOn_cons_eq_if_modifyHead, if_neg (by simpa using other), parts]
  rfl

/-! ## Buffers and searches -/

/-- The text in a buffer: the bytes before the first zero. -/
def bufferText (buffer : CString) : CString := buffer.takeWhile (· != 0)

/-- A text without zero bytes goes on behind its end. -/
theorem bufferText_append {buffer : CString} (plain : (0 : UInt8) ∉ buffer) (rest : CString) :
    bufferText (buffer ++ rest) = buffer ++ bufferText rest := by
  apply List.takeWhile_append_of_pos
  intro byte found
  have other : byte ≠ 0 := fun zero => plain (zero ▸ found)
  simpa using other

/-- A text without zero bytes fills its buffer. -/
theorem bufferText_eq {buffer : CString} (plain : (0 : UInt8) ∉ buffer) :
    bufferText buffer = buffer := by
  have whole := bufferText_append plain []
  rw [List.append_nil] at whole
  rw [whole]
  exact List.append_nil buffer

/-- Behind a zero nothing belongs to the text. -/
theorem bufferText_zero {buffer : CString} (zero : (0 : UInt8) ∈ buffer) (rest : CString) :
    bufferText (buffer ++ rest) = bufferText buffer := by
  induction buffer with
  | nil => cases zero
  | cons byte buffer ih =>
    by_cases ends : byte = 0
    · subst ends
      rfl
    · have later : (0 : UInt8) ∈ buffer := by
        rcases List.mem_cons.mp zero with same | later
        · exact absurd same.symm ends
        · exact later
      have kept (text : CString) : bufferText (byte :: text) = byte :: bufferText text := by
        simp [bufferText, ends]
      rw [List.cons_append, kept, kept, ih later]

/-- `strstr`: the text from the first place where a word begins. -/
def strstr (word : CString) : CString → Option CString
  | [] => if word = [] then some [] else none
  | byte :: rest =>
    if word.isPrefixOf (byte :: rest) then some (byte :: rest) else strstr word rest

/-- A word is found exactly when it is part of the text. -/
theorem strstr_isSome {word text : CString} :
    (strstr word text).isSome = true ↔ word <:+: text := by
  induction text with
  | nil =>
    rw [strstr]
    split
    · rename_i empty
      simp [empty]
    · rename_i filled
      simp [filled]
  | cons byte rest ih =>
    rw [strstr, List.infix_cons_iff, ← ih, ← List.isPrefixOf_iff_prefix]
    split
    · rename_i found
      simp [found]
    · rename_i missing
      simp [missing]

/-- `strrchr`: the position of the last such byte. -/
def strrchr (byte : UInt8) (text : CString) : Option Nat :=
  (text.reverse.idxOf? byte).map fun behind => text.length - 1 - behind

/-- The first such byte stands behind a text without one. -/
theorem idxOf?_front {byte : UInt8} {front : CString} (absent : byte ∉ front) (back : CString) :
    (front ++ byte :: back).idxOf? byte = some front.length := by
  have cut := cutAt_append absent back
  rw [cutAt_idxOf?] at cut
  obtain ⟨pos, position, parts⟩ := Option.map_eq_some_iff.mp cut
  have inside := (List.idxOf?_eq_some_iff.mp position).1
  have lengths := congrArg List.length (Prod.mk.inj parts).1
  rw [List.length_take, Nat.min_eq_left (Nat.le_of_lt inside)] at lengths
  rw [position, lengths]

/-- The last such byte stands in front of a text without one. -/
theorem strrchr_back {byte : UInt8} {back : CString} (absent : byte ∉ back) (front : CString) :
    strrchr byte (front ++ byte :: back) = some front.length := by
  have behind : byte ∉ back.reverse := fun found => absent (List.mem_reverse.mp found)
  have turned : (front ++ byte :: back).reverse = back.reverse ++ byte :: front.reverse := by simp
  rw [strrchr, turned, idxOf?_front behind, Option.map_some, List.length_reverse,
    List.length_append, List.length_cons]
  congr 1
  omega

/-! ## Writes at an offset -/

/-- Bytes written to a file at an offset: a gap is filled with zeros, and what stands behind the
bytes stays. -/
def writeAt (old : CString) (offset : Nat) (piece : CString) : CString :=
  old.take offset ++ List.replicate (offset - old.length) 0 ++ piece ++
    old.drop (offset + piece.length)

/-- Writing behind the end of a file. -/
theorem writeAt_end (old piece : CString) : writeAt old old.length piece = old ++ piece := by
  unfold writeAt
  rw [List.take_length, Nat.sub_self, List.replicate_zero, List.append_nil,
    List.drop_eq_nil_of_le (Nat.le_add_right _ _), List.append_nil]

/-! ## Line input -/

/-- The lines `fgets` returns with a buffer of `cap` bytes, continuing a line already begun:
each ends at a line feed, when the buffer is full, or with the file. -/
def fgetsFrom (cap : Nat) (line : CString) : CString → List CString
  | [] => if line.isEmpty then [] else [line]
  | byte :: rest =>
    if byte = newline ∨ cap ≤ (line ++ [byte]).length + 1 then
      (line ++ [byte]) :: fgetsFrom cap [] rest
    else fgetsFrom cap (line ++ [byte]) rest

/-- The lines `fgets` returns from a whole file. -/
def fgetsLines (cap : Nat) (file : CString) : List CString := fgetsFrom cap [] file

/-- A line without line feeds that fits the buffer is read up to its line feed. -/
theorem fgetsFrom_line {cap : Nat} (line text rest : CString) (plain : newline ∉ text)
    (fits : (line ++ text).length + 1 < cap) :
    fgetsFrom cap line (text ++ newline :: rest) =
      (line ++ text ++ [newline]) :: fgetsLines cap rest := by
  induction text generalizing line with
  | nil => simp [fgetsFrom, fgetsLines]
  | cons byte text ih =>
    simp only [List.mem_cons, not_or] at plain
    have longer : (line ++ [byte] ++ text).length + 1 < cap := by
      simp only [List.append_assoc, List.singleton_append]
      exact fits
    have open_ : ¬ (byte = newline ∨ cap ≤ (line ++ [byte]).length + 1) := by
      rintro (same | full)
      · exact plain.1 same.symm
      · simp only [List.length_append] at longer full
        omega
    rw [List.cons_append, fgetsFrom, if_neg open_, ih _ plain.2 longer]
    simp

/-- One written line is one line read. -/
theorem fgetsLines_line {cap : Nat} (text rest : CString) (plain : newline ∉ text)
    (fits : text.length + 1 < cap) :
    fgetsLines cap (text ++ newline :: rest) = (text ++ [newline]) :: fgetsLines cap rest := by
  rw [fgetsLines, fgetsFrom_line [] text rest plain (by simpa using fits)]
  simp

/-- Written lines are read back as written. -/
theorem fgetsLines_flatMap {cap : Nat} (texts : List CString)
    (plain : ∀ text ∈ texts, newline ∉ text ∧ text.length + 1 < cap) :
    fgetsLines cap (texts.flatMap (· ++ [newline])) = texts.map (· ++ [newline]) := by
  induction texts with
  | nil => rfl
  | cons text texts ih =>
    have head := plain text List.mem_cons_self
    rw [List.flatMap_cons, List.append_assoc, List.singleton_append,
      fgetsLines_line text _ head.1 head.2, List.map_cons,
      ih (fun other found => plain other (List.mem_cons_of_mem _ found))]

/-- After a line feed reading begins anew. -/
theorem fgetsFrom_append {cap : Nat} (line front rest : CString) :
    fgetsFrom cap line (front ++ newline :: rest) =
      fgetsFrom cap line (front ++ [newline]) ++ fgetsLines cap rest := by
  induction front generalizing line with
  | nil => simp [fgetsFrom, fgetsLines]
  | cons byte front ih =>
    rw [List.cons_append, List.cons_append, fgetsFrom, fgetsFrom]
    split
    · rw [ih, List.cons_append]
    · exact ih _

/-- A last line that fits the buffer is read whole. -/
theorem fgetsLines_last {cap : Nat} {text : CString} (plain : newline ∉ text)
    (fits : text.length + 1 < cap) :
    fgetsLines cap text = if text.isEmpty then [] else [text] := by
  have from_ (line : CString) (short : (line ++ text).length + 1 < cap) :
      fgetsFrom cap line text = if (line ++ text).isEmpty then [] else [line ++ text] := by
    induction text generalizing line with
    | nil => rw [fgetsFrom, List.append_nil]
    | cons byte text ih =>
      simp only [List.mem_cons, not_or] at plain
      have longer : (line ++ [byte] ++ text).length + 1 < cap := by
        rw [List.append_assoc, List.singleton_append]
        exact short
      have open_ : ¬ (byte = newline ∨ cap ≤ (line ++ [byte]).length + 1) := by
        rintro (same | full)
        · exact plain.1 same.symm
        · rw [List.length_append] at longer
          omega
      have fewer : text.length + 1 < cap := by
        rw [List.length_cons] at fits
        omega
      rw [fgetsFrom, if_neg open_, ih plain.2 fewer (line ++ [byte]) longer, List.append_assoc,
        List.singleton_append]
  exact from_ [] fits

/-- The lines read are the file. -/
theorem fgetsFrom_flatten (cap : Nat) (line file : CString) :
    (fgetsFrom cap line file).flatten = line ++ file := by
  induction file generalizing line with
  | nil =>
    rw [fgetsFrom]
    split
    next empty => rw [List.isEmpty_iff.mp empty]; rfl
    next => simp
  | cons byte rest ih =>
    rw [fgetsFrom]
    split
    · rw [List.flatten_cons, ih]
      simp
    · rw [ih]
      simp

/-- A line read holds a line feed at its end only. -/
theorem fgetsFrom_newline {cap : Nat} (line file : CString) (plain : newline ∉ line) :
    ∀ read ∈ fgetsFrom cap line file, ∃ text, newline ∉ text ∧
      (read = text ∨ read = text ++ [newline]) := by
  induction file generalizing line with
  | nil =>
    intro read found
    simp only [fgetsFrom] at found
    split at found
    · cases found
    · exact ⟨line, plain, .inl (by simpa using found)⟩
  | cons byte rest ih =>
    intro read found
    simp only [fgetsFrom] at found
    by_cases feed : byte = newline
    · subst feed
      rw [if_pos (.inl rfl)] at found
      rcases List.mem_cons.mp found with rfl | later
      · exact ⟨line, plain, .inr rfl⟩
      · exact ih [] (by simp) read later
    · have grown : newline ∉ line ++ [byte] := by
        simp only [List.mem_append, List.mem_singleton, not_or]
        exact ⟨plain, fun same => feed same.symm⟩
      split at found
      · rcases List.mem_cons.mp found with rfl | later
        · exact ⟨line ++ [byte], grown, .inl rfl⟩
        · exact ih [] (by simp) read later
      · exact ih _ grown read found

/-- Trimming the back of a piece of a line read, line feeds included, leaves no line feed. -/
theorem rdropWhile_read {drop : UInt8 → Bool} {text read piece : CString} (plain : newline ∉ text)
    (line : read = text ∨ read = text ++ [newline]) (inside : piece <:+: read)
    (dropped : drop newline = true) : newline ∉ piece.rdropWhile drop := by
  rcases line with rfl | rfl
  · exact fun found => plain (inside.mem (rdropWhile_mem found))
  · obtain ⟨front, back, whole⟩ := inside
    cases back using List.reverseRecOn with
    | append_singleton back byte =>
      rw [← List.append_assoc] at whole
      obtain ⟨same, -⟩ := List.append_inj' whole rfl
      intro found
      have listed := rdropWhile_mem found
      exact plain (by rw [← same]; simp [listed])
    | nil =>
      rw [List.append_nil] at whole
      cases piece using List.reverseRecOn with
      | nil => exact List.not_mem_nil
      | append_singleton piece byte =>
        rw [← List.append_assoc] at whole
        obtain ⟨same, last⟩ := List.append_inj' whole rfl
        obtain rfl := List.singleton_inj.mp last
        rw [rdropWhile_snoc _ dropped]
        intro found
        have listed := rdropWhile_mem found
        exact plain (by rw [← same]; simp [listed])

/-! ## Hexadecimal digits -/

/-- A hexadecimal digit of a value below sixteen. -/
def hexDigit (value : UInt8) : UInt8 := if value < 10 then 48 + value else 87 + value

/-! ## Decimal numbers -/

/-- A decimal digit. -/
def isDigit (byte : UInt8) : Bool := 48 ≤ byte && byte ≤ 57

/-- `%llu`: the decimal digits of a number. -/
def decimal (value : Nat) : CString := (Nat.toDigits 10 value).map fun digit => digit.toNat.toUInt8

/-- `%lld`: a minus sign before the digits of a negative number. -/
def signedDecimal (value : Int) : CString :=
  if value < 0 then 45 :: decimal value.natAbs else decimal value.natAbs

/-- The number a digit string denotes. -/
def digitsValue (digits : CString) : Nat :=
  digits.foldl (fun value digit => 10 * value + (digit.toNat - 48)) 0

/-- An optional sign: whether it is a minus, and the text after it. -/
def scanSign : CString → Bool × CString
  | 45 :: rest => (true, rest)
  | 43 :: rest => (false, rest)
  | rest => (false, rest)

/-- The sign, magnitude and rest of the number at the front of a text, as the `strto*` family
reads it: blanks, an optional sign, then digits; nothing without a digit. -/
def scanNumber (text : CString) : Option (Bool × Nat × CString) :=
  let (negative, digits) := scanSign (text.dropWhile isSpace)
  if (digits.takeWhile isDigit).isEmpty then none
  else some (negative, digitsValue (digits.takeWhile isDigit), digits.dropWhile isDigit)

/-- `strtoull(text, &end, 10)`: the value and the text at `end`. A magnitude of `2^64` or more
saturates, a minus sign negates modulo `2^64`, and `end` is the whole text without a number. -/
def strtoull (text : CString) : Nat × CString :=
  match scanNumber text with
  | none => (0, text)
  | some (negative, value, rest) =>
    if 2 ^ 64 ≤ value then (2 ^ 64 - 1, rest)
    else if negative then ((2 ^ 64 - value) % 2 ^ 64, rest) else (value, rest)

/-- `strtoll(text, &end, 10)`: the value clamped to 64 bits and the text at `end`. -/
def strtoll (text : CString) : Int × CString :=
  match scanNumber text with
  | none => (0, text)
  | some (true, value, rest) => (max (-(value : Int)) (-2 ^ 63), rest)
  | some (false, value, rest) => (min (value : Int) (2 ^ 63 - 1), rest)

/-- `strtoull` sets `errno` to `ERANGE`. -/
def strtoullOverflows (text : CString) : Bool :=
  match scanNumber text with
  | none => false
  | some (_, value, _) => 2 ^ 64 ≤ value

/-- `strtoll` sets `errno` to `ERANGE`. -/
def strtollOverflows (text : CString) : Bool :=
  match scanNumber text with
  | none => false
  | some (negative, value, _) => if negative then 2 ^ 63 < value else 2 ^ 63 ≤ value

/-- `atoi`: `strtol` cut to 32 bits. -/
def atoi (text : CString) : Int := (strtoll text).1.bmod (2 ^ 32)

/-- The byte of a digit character has the character's number. -/
private theorem digit_byte {digit : Char} (numeral : digit.isDigit = true) :
    digit.toNat.toUInt8.toNat = digit.toNat ∧ isDigit digit.toNat.toUInt8 = true := by
  simp only [Char.isDigit, Bool.and_eq_true, decide_eq_true_eq] at numeral
  have low : 48 ≤ digit.toNat := numeral.1
  have high : digit.toNat ≤ 57 := numeral.2
  have same : digit.toNat.toUInt8.toNat = digit.toNat := by
    simp only [Nat.toUInt8, UInt8.toNat_ofNat']
    omega
  refine ⟨same, ?_⟩
  simp only [isDigit, Bool.and_eq_true, decide_eq_true_eq, UInt8.le_iff_toNat_le, same]
  exact ⟨low, high⟩

/-- A printed number consists of digits. -/
theorem decimal_digits (value : Nat) : ∀ byte ∈ decimal value, isDigit byte = true := by
  intro byte found
  obtain ⟨digit, member, rfl⟩ := List.mem_map.mp found
  exact (digit_byte (Nat.isDigit_of_mem_toDigits (by decide) (by decide) member)).2

/-- A printed number is not empty. -/
theorem decimal_ne_nil (value : Nat) : decimal value ≠ [] := by
  simp [decimal, Nat.toDigits_ne_nil]

/-- A byte that is no digit is in no printed number. -/
theorem decimal_notMem {byte : UInt8} (other : isDigit byte = false) (value : Nat) :
    byte ∉ decimal value := by
  intro found
  rw [decimal_digits value byte found] at other
  cases other

/-- Nor is it in a signed one, when it is not the sign. -/
theorem signedDecimal_notMem {byte : UInt8} (other : isDigit byte = false) (sign : byte ≠ 45)
    (value : Int) : byte ∉ signedDecimal value := by
  unfold signedDecimal
  split
  · rw [List.mem_cons, not_or]
    exact ⟨sign, decimal_notMem other _⟩
  · exact decimal_notMem other _

/-- A printed 64-bit number has at most twenty digits. -/
theorem decimal_length {value : Nat} (bound : value < 2 ^ 64) : (decimal value).length ≤ 20 := by
  rw [decimal, List.length_map, Nat.length_toDigits_le_iff (by decide) (by decide)]
  exact Nat.lt_trans bound (by decide)

/-- Reading the digits of a printed number returns the number. -/
theorem digitsValue_decimal (value : Nat) : digitsValue (decimal value) = value := by
  have folded : ∀ (digits : List Char) (start : Nat), (∀ digit ∈ digits, digit.isDigit = true) →
      (digits.map fun digit => digit.toNat.toUInt8).foldl
        (fun value digit => 10 * value + (digit.toNat - 48)) start =
      Nat.ofDigitChars 10 digits start := by
    intro digits
    induction digits with
    | nil => intro start _; rfl
    | cons digit digits ih =>
      intro start numerals
      rw [List.map_cons, List.foldl_cons, (digit_byte (numerals digit List.mem_cons_self)).1,
        ih _ (fun other found => numerals other (List.mem_cons_of_mem _ found))]
      rfl
  rw [digitsValue, decimal, folded _ _ (fun digit member =>
    Nat.isDigit_of_mem_toDigits (by decide) (by decide) member)]
  exact Nat.ofDigitChars_toDigits (by decide) (by decide)

/-- A digit is neither a blank nor a sign. -/
theorem digit_plain {byte : UInt8} (digit : isDigit byte = true) :
    isSpace byte = false ∧ byte ≠ 45 ∧ byte ≠ 43 := by
  simp only [isDigit, Bool.and_eq_true, decide_eq_true_eq, UInt8.le_iff_toNat_le] at digit
  refine ⟨?_, ?_, ?_⟩
  · simp only [isSpace, Bool.or_eq_false_iff, beq_eq_false_iff_ne, ne_eq, Bool.and_eq_false_iff,
      decide_eq_false_iff_not, UInt8.le_iff_toNat_le]
    refine ⟨?_, .inr ?_⟩
    · rintro rfl
      exact absurd digit.1 (by decide)
    · have := digit.1
      simp only [UInt8.reduceToNat] at this ⊢
      omega
  · rintro rfl
    exact absurd digit.1 (by decide)
  · rintro rfl
    exact absurd digit.1 (by decide)

/-- Digits end where the text after them has none. -/
theorem digits_span {digits rest : CString} (numerals : ∀ byte ∈ digits, isDigit byte = true)
    (ends : ∀ byte ∈ rest.head?, isDigit byte = false) :
    (digits ++ rest).takeWhile isDigit = digits ∧ (digits ++ rest).dropWhile isDigit = rest := by
  rw [List.takeWhile_append_of_pos numerals, List.dropWhile_append_of_pos numerals]
  cases rest with
  | nil => simp
  | cons byte rest =>
    have stop : isDigit byte = false := ends byte (by simp)
    simp [stop]

/-- A text that starts with neither sign has none. -/
theorem scanSign_plain {byte : UInt8} {rest : CString} (minus : byte ≠ 45)
    (plus : byte ≠ 43) : scanSign (byte :: rest) = (false, byte :: rest) := by
  unfold scanSign
  split
  · rename_i same
    exact absurd (List.cons.inj same).1 minus
  · rename_i same
    exact absurd (List.cons.inj same).1 plus
  · rfl

/-- Reading digits in front of other text returns their number and that text. -/
theorem scanNumber_digits {digits rest : CString} (filled : digits ≠ [])
    (numerals : ∀ byte ∈ digits, isDigit byte = true)
    (ends : ∀ byte ∈ rest.head?, isDigit byte = false) :
    scanNumber (digits ++ rest) = some (false, digitsValue digits, rest) := by
  obtain ⟨taken, dropped⟩ := digits_span numerals ends
  obtain ⟨first, others, shape⟩ := List.exists_cons_of_ne_nil filled
  have plain := digit_plain (numerals first (by simp [shape]))
  have whole : (digits ++ rest).dropWhile isSpace = digits ++ rest := by
    rw [shape, List.cons_append, List.dropWhile_cons_of_neg (by simp [plain.1])]
  have unsigned : scanSign (digits ++ rest) = (false, digits ++ rest) := by
    rw [shape, List.cons_append]
    exact scanSign_plain plain.2.1 plain.2.2
  rw [scanNumber, whole, unsigned]
  simp only [taken, dropped, List.isEmpty_iff, filled, if_false]

/-- Reading a printed number in front of other text returns the number and that text. -/
theorem scanNumber_decimal (value : Nat) (rest : CString)
    (ends : ∀ byte ∈ rest.head?, isDigit byte = false) :
    scanNumber (decimal value ++ rest) = some (false, value, rest) := by
  have read := scanNumber_digits (decimal_ne_nil value) (decimal_digits value) ends
  rw [read, digitsValue_decimal]

/-- Reading a printed negative number returns its magnitude with the sign. -/
theorem scanNumber_minus (value : Nat) (rest : CString)
    (ends : ∀ byte ∈ rest.head?, isDigit byte = false) :
    scanNumber (45 :: (decimal value ++ rest)) = some (true, value, rest) := by
  obtain ⟨taken, dropped⟩ := digits_span (decimal_digits value) ends
  have skip : (45 :: (decimal value ++ rest)).dropWhile isSpace =
      45 :: (decimal value ++ rest) := List.dropWhile_cons_of_neg (by decide)
  rw [scanNumber, skip]
  simp only [scanSign, taken, dropped, digitsValue_decimal, List.isEmpty_iff, decimal_ne_nil,
    if_false]

/-- `strtoll` reads digits up to the text behind them, clamped to 63 bits. -/
theorem strtoll_digits {digits rest : CString} (filled : digits ≠ [])
    (numerals : ∀ byte ∈ digits, isDigit byte = true)
    (ends : ∀ byte ∈ rest.head?, isDigit byte = false) :
    strtoll (digits ++ rest) = (min (digitsValue digits : Int) (2 ^ 63 - 1), rest) := by
  rw [strtoll, scanNumber_digits filled numerals ends]

/-- `strtoull` reads a printed 64-bit number back. -/
theorem strtoull_decimal {value : Nat} (bound : value < 2 ^ 64) :
    strtoull (decimal value) = (value, []) := by
  have read := scanNumber_decimal value [] (by simp)
  rw [List.append_nil] at read
  rw [strtoull, read]
  simp only [if_neg (Nat.not_le.mpr bound), Bool.false_eq_true, if_false]

/-- `strtoull` returns 64 bits. -/
theorem strtoull_lt (text : CString) : (strtoull text).1 < 2 ^ 64 := by
  have room : 0 < 2 ^ 64 := by decide
  unfold strtoull
  split
  · exact room
  split
  · exact Nat.sub_lt room Nat.one_pos
  rename_i bound
  split
  · exact Nat.mod_lt _ room
  · exact Nat.not_le.mp bound

/-- `strtoll` reads a printed 64-bit signed number back. -/
theorem strtoll_signedDecimal {value : Int} (low : -2 ^ 63 ≤ value) (high : value < 2 ^ 63) :
    strtoll (signedDecimal value) = (value, []) := by
  by_cases negative : value < 0
  · have read := scanNumber_minus value.natAbs [] (by simp)
    rw [List.append_nil] at read
    rw [signedDecimal, if_pos negative, strtoll, read]
    simp only [Prod.mk.injEq, and_true]
    omega
  · have read := scanNumber_decimal value.natAbs [] (by simp)
    rw [List.append_nil] at read
    rw [signedDecimal, if_neg negative, strtoll, read]
    simp only [Prod.mk.injEq, and_true]
    omega

end HwrunOs.Bytes
