import HwrunOs.Library.Words

/-!
# Words and aliases of the shell

`shell_impl.c`: a line is cut to its buffer, trimmed and split into words in place, into an array of
64 pointers. When the first word is an alias, its value and the other words are split again. The
stores into these arrays are kept, so that it can be asked whether they are inside.
-/

namespace HwrunOs.Shell

open HwrunOs.Bytes HwrunOs.Words

/-! ## State -/

/-- `-ENOENT`. -/
def enoent : Int := -2
/-- `-EINVAL`. -/
def einval : Int := -22
/-- `-ENOSPC`. -/
def enospc : Int := -28

/-- `SHELL_ARGS_MAX`. -/
def shellArgsMax : Nat := 64
/-- `SHELL_ALIAS_MAX`. -/
def shellAliasMax : Nat := 64

/-- The size of a line buffer, `SHELL_LINE_MAX * 4`. -/
def lineSize : Nat := 1020

/-- The history, a ring of `SHELL_HISTORY_MAX` lines. -/
structure History where
  /-- `g_history`. -/
  slots : Fin 100 → Field 255
  /-- `g_history_write`. -/
  write : Fin 100
  /-- `g_history_count`. -/
  count : Fin 101

/-- An alias. -/
structure Alias where
  /-- `g_alias_name`. -/
  name : Field 64
  /-- `g_alias_value`. -/
  value : Field 256

/-- What the shell keeps between calls. -/
structure State where
  /-- The history. -/
  history : History
  /-- The aliases, in the order in which they were set first. -/
  aliases : List Alias

/-- The shell before the first call. -/
def State.start : State := ⟨⟨fun _ => Field.copy [], 0, 0⟩, []⟩

/-- `history_append` of a line that is not empty. -/
def historyAppend (history : History) (line : CString) : History where
  slots := Function.update history.slots history.write (Field.copy line)
  write := history.write + 1
  count := if history.count.val < 100 then history.count + 1 else history.count

/-- `alias_set`. -/
def aliasSet (state : State) (name value : Option CString) : State × Int :=
  match name, value with
  | some name, some value =>
    if name = [] then (state, einval)
    else if 61 ∈ name ∨ 32 ∈ name then (state, einval)
    else match state.aliases.findIdx? fun entry => entry.name.val == name with
      | some index =>
        ({ state with
            aliases := state.aliases.modify index fun entry =>
              { entry with value := Field.copy value } }, 0)
      | none =>
        if shellAliasMax ≤ state.aliases.length then (state, enospc)
        else
          ({ state with aliases := state.aliases ++ [⟨Field.copy name, Field.copy value⟩] }, 0)
  | _, _ => (state, einval)

/-- `alias_get` into a buffer of 256 bytes. -/
def aliasGet (aliases : List Alias) (name : CString) : Option CString :=
  (aliases.find? fun entry => entry.name.val == name).map fun entry => entry.value.val

/-! ## Splitting -/

/-- A blank between words: space, tab or line feed. -/
def isWordBlank (byte : UInt8) : Bool := byte == 32 || byte == 9 || byte == newline

/-- `trim_copy`. -/
def trimCopy (cap : Nat) (src : CString) : CString :=
  trim isWordBlank isWordBlank (snprintf cap src)

/-- A store into an array of arguments. -/
structure Store where
  /-- The index. -/
  index : Nat
  /-- The word that is pointed to, none for a null pointer. -/
  value : Option CString

/-- The words that `split_tokens` returns, and its stores. -/
structure Split where
  /-- `argv` up to `argc`. -/
  words : List CString
  /-- The stores, in order. -/
  stores : List Store

/-- What is left behind blanks is no longer than the text. -/
theorem rest_shorter {p rest : CString} {first : UInt8}
    (left : p.dropWhile isWordBlank = first :: rest) :
    ((rest.dropWhile fun byte => !isWordBlank byte).drop 1).length < p.length := by
  have word := List.length_dropWhile_le (fun byte => !isWordBlank byte) rest
  have blanks := List.length_dropWhile_le isWordBlank p
  rw [left, List.length_cons] at blanks
  rw [List.length_drop]
  omega

/-- The loop of `split_tokens` from a position of the buffer on, with `argc` words stored. -/
def splitFrom (max argc : Nat) (p : CString) : Split :=
  match left : p.dropWhile isWordBlank with
  | [] => ⟨[], [⟨argc, none⟩]⟩
  | first :: rest =>
    if max ≤ argc then ⟨[], [⟨argc, none⟩]⟩
    else
      let word := first :: rest.takeWhile fun byte => !isWordBlank byte
      let next := splitFrom max (argc + 1) ((rest.dropWhile fun byte => !isWordBlank byte).drop 1)
      ⟨word :: next.words, ⟨argc, some word⟩ :: next.stores⟩
termination_by p.length
decreasing_by exact rest_shorter left

/-- `split_tokens`. -/
def splitTokens (buf : CString) (max : Nat) : Split := splitFrom max 0 buf

end HwrunOs.Shell
