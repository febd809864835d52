import HwrunOs.Bus.Core

/-!
# Reading plugin.yml

`hw_yml_parse_plugin` reads the description of a plugin line by line, and remembers one section and
its indentation. A key without a value becomes that section, at any depth; a key with a value that
is not indented deeper than the section sets a field of the plugin. In a file of the unified format
the fields come from the top-level lines only, exactly as long as no key without a value inside an
item makes the section deeper.
-/

namespace HwrunOs.Bus

open HwrunOs.Bytes HwrunOs.Runs

/-! ## What is read -/

/-- The scalar fields of `hw_plugin_discovery_t`. -/
structure TopFields where
  /-- Id. -/
  id : Field 64
  /-- Name. -/
  name : Field 128
  /-- Version. -/
  version : Field 32
  /-- Type. -/
  type : Field 32
  /-- Description. -/
  description : Field 256
  /-- Repository. -/
  repo : Field 256
  /-- Branch. -/
  branch : Field 64
  /-- Tag. -/
  tag : Field 64
  /-- Size. -/
  size : UInt64
  /-- License. -/
  license : Field 32
  /-- Author. -/
  author : Field 128
  /-- Home page. -/
  url : Field 256
  /-- Script before the installation. -/
  preInstall : Field 128
  /-- Script after the installation. -/
  postInstall : Field 128
  /-- Script before the removal. -/
  preUninstall : Field 128
  /-- Script after the removal. -/
  postUninstall : Field 128
  deriving DecidableEq

/-- `hw_plugin_discovery_t` as `hw_yml_parse_plugin` fills it. -/
structure PluginYml where
  /-- The scalar fields. -/
  top : TopFields
  /-- Provided protocols. -/
  provides : List CString
  /-- Required protocols. -/
  requires : List CString
  /-- Conflicting protocols. -/
  conflicts : List CString
  /-- Files. -/
  files : List CString

/-- An empty field. -/
def emptyField {size : Nat} : Bytes.Field (size + 1) := Field.copy []

/-- All fields empty: `memset`. -/
def noFields : TopFields where
  id := emptyField
  name := emptyField
  version := emptyField
  type := emptyField
  description := emptyField
  repo := emptyField
  branch := emptyField
  tag := emptyField
  size := 0
  license := emptyField
  author := emptyField
  url := emptyField
  preInstall := emptyField
  postInstall := emptyField
  preUninstall := emptyField
  postUninstall := emptyField

/-- What the scan of a directory takes from it. -/
def PluginYml.discovery (yml : PluginYml) (plugDir : CString) : Discovery where
  id := yml.top.id.val
  idFits := yml.top.id.property
  provides := yml.provides
  requires := yml.requires
  conflicts := yml.conflicts
  files := yml.files
  plugDir := plugDir

/-! ## Values -/

/-- `trim` of `yml.c`. -/
def trimSpace (text : CString) : CString := trim isSpace isSpace text

/-- `unquote`: a text between two double or two single quotes loses them. -/
def unquote : CString → CString
  | [] => []
  | quote :: rest =>
    if (quote = 34 ∨ quote = 39) ∧ rest.getLast? = some quote then rest.dropLast else quote :: rest

/-- `set_str`. -/
def setStr {size : Nat} (val : CString) : Bytes.Field (size + 1) :=
  Field.copy (unquote (trimSpace val))

/-- `add_str` into an array of `max` texts. -/
def addStr (max : Nat) (array : List CString) (val : CString) : List CString :=
  if max ≤ array.length then array
  else if unquote (trimSpace val) = [] then array
  else array ++ [unquote (trimSpace val)]

/-- `set_top_field`. -/
def setTopField (top : TopFields) (key val : CString) : TopFields :=
  if key = lit "id" then { top with id := setStr val }
  else if key = lit "name" then { top with name := setStr val }
  else if key = lit "version" then { top with version := setStr val }
  else if key = lit "type" then { top with type := setStr val }
  else if key = lit "description" then { top with description := setStr val }
  else if key = lit "repo" then { top with repo := setStr val }
  else if key = lit "branch" then { top with branch := setStr val }
  else if key = lit "tag" then { top with tag := setStr val }
  else if key = lit "license" then { top with license := setStr val }
  else if key = lit "author" then { top with author := setStr val }
  else if key = lit "url" then { top with url := setStr val }
  else if key = lit "pre_install" then { top with preInstall := setStr val }
  else if key = lit "post_install" then { top with postInstall := setStr val }
  else if key = lit "pre_uninstall" then { top with preUninstall := setStr val }
  else if key = lit "post_uninstall" then { top with postUninstall := setStr val }
  else if key = lit "size" then { top with size := UInt64.ofNat (strtoull val).1 }
  else top

/-- `add_str` into the array of a section, with the limits of the arrays; other sections have
none. -/
def addToSection (yml : PluginYml) (current val : CString) : PluginYml :=
  if current = lit "provides" then { yml with provides := addStr 32 yml.provides val }
  else if current = lit "requires" then { yml with requires := addStr 32 yml.requires val }
  else if current = lit "conflicts" then { yml with conflicts := addStr 16 yml.conflicts val }
  else if current = lit "files" then { yml with files := addStr 64 yml.files val }
  else yml

/-! ## Lines -/

/-- What stands on a line behind its indentation. -/
inductive YmlLine where
  /-- Nothing, or a comment. -/
  | blank
  /-- A list item, with the text behind its dash. -/
  | item (text : CString)
  /-- A text without a colon, or without a key. -/
  | text
  /-- A key and its value, which may be empty. -/
  | pair (key val : CString)
  deriving DecidableEq

/-- The first part of the loop: the indentation of a line, and what it holds. -/
def readLine (line : CString) : Nat × YmlLine :=
  let whole := bufferText line
  let content := trim isBlank (fun byte => byte == newline || byte == 13) whole
  let indent := (whole.takeWhile isBlank).length
  match content with
  | [] => (indent, .blank)
  | 35 :: _ => (indent, .blank)
  | 45 :: rest =>
    let val := match rest with
      | 32 :: val => val
      | val => val
    (indent, .item (trimSpace val))
  | content =>
    match cutAt 58 content with
    | none => (indent, .text)
    | some (key, val) =>
      if trimSpace key = [] then (indent, .text)
      else (indent, .pair (trimSpace key) (trimSpace val))

/-- What `hw_yml_parse_plugin` has read, and its state. -/
structure YmlState where
  /-- What is read. -/
  yml : PluginYml
  /-- The section, empty at the top. -/
  current : CString
  /-- The indentation of the section. -/
  secIndent : Int

/-- `inside_child`. -/
def YmlState.inside (state : YmlState) (indent : Nat) : Bool :=
  state.current ≠ [] ∧ state.secIndent < indent

/-- Back at the top. -/
def YmlState.reset (state : YmlState) : YmlState := { state with current := [], secIndent := -1 }

/-- A list item: `- protocol: X` adds the text behind the colon, any other item its text. -/
def parseItem (state : YmlState) (val : CString) : YmlState :=
  if state.current = [] ∨ val = [] then state
  else match cutAt 58 val with
    | some (_, proto) =>
      if trimSpace proto = [] then state
      else { state with yml := addToSection state.yml state.current (trimSpace proto) }
    | none => { state with yml := addToSection state.yml state.current val }

/-- A key and its value. -/
def parsePair (state : YmlState) (indent : Nat) (key val : CString) : YmlState :=
  if val = [] then
    if key = lit "plugin" then state.reset
    else { state with current := snprintf 64 key, secIndent := indent }
  else if key = lit "conflicts" ∧ val = lit "[]" then state.reset
  else if state.inside indent then state
  else { state with yml := { state.yml with top := setTopField state.yml.top key val } }

/-- One round of the loop. -/
def parseLine (state : YmlState) (line : CString) : YmlState :=
  match readLine line with
  | (_, .blank) | (_, .text) => state
  | (_, .item val) => parseItem state val
  | (indent, .pair key val) => parsePair state indent key val

/-- Before the first line. -/
def ymlStart : YmlState := ⟨⟨noFields, [], [], [], []⟩, [], -1⟩

/-- `hw_yml_parse_plugin` on the bytes of a file. -/
def hwYmlParsePlugin (file : CString) : PluginYml :=
  ((fgetsLines 1024 file).foldl parseLine ymlStart).yml

/-! ## The unified format -/

/-- Where a line of the format stands. -/
inductive YmlPart where
  /-- Before the first key. -/
  | start
  /-- At the top. -/
  | top
  /-- In the body of a section. -/
  | body
  deriving DecidableEq

/-- The lines of the unified format: top-level keys at one indentation, deeper keys in the bodies of
sections only, and before all others the key `plugin:` at a smaller indentation, if there is a
root. -/
def unified (base : Nat) : YmlPart → List CString → Bool
  | _, [] => true
  | part, line :: rest =>
    match readLine line with
    | (indent, .pair key val) =>
      if indent = base then unified base (if val = [] then .body else .top) rest
      else if base < indent then part = .body && unified base .body rest
      else part = .start && key = lit "plugin" && val = [] && unified base .top rest
    | _ => unified base part rest

/-- The key and the value of a top-level line. -/
def topPair (base : Nat) (line : CString) : Option (CString × CString) :=
  match readLine line with
  | (indent, .pair key val) => if indent = base ∧ val ≠ [] then some (key, val) else none
  | _ => none

/-- The fields that the top-level lines give. -/
def topLines (base : Nat) (lines : List CString) : TopFields :=
  (lines.filterMap (topPair base)).foldl (fun top pair => setTopField top pair.1 pair.2) noFields

/-- What one call of `fgets` delivers. -/
structure YmlPiece where
  /-- The key and the value of the top-level line that begins with it. -/
  top : Option (CString × CString)
  /-- The bytes. -/
  text : CString

/-- The pieces of one line. -/
def linePieces (base : Nat) (line ending : CString) : List YmlPiece :=
  match fgetsLines 1024 (line ++ ending) with
  | [] => []
  | first :: rest => ⟨topPair base line, first⟩ :: rest.map fun text => ⟨none, text⟩

/-- The pieces of a file, given by its lines. -/
def filePieces (base : Nat) : List CString → List YmlPiece
  | [] => []
  | [line] => linePieces base line []
  | line :: next :: rest => linePieces base line [newline] ++ filePieces base (next :: rest)

/-- The state after a piece. -/
def parsePiece (state : YmlState) (piece : YmlPiece) : YmlState := parseLine state piece.text

/-! ## What should hold, and when it does -/

/-- A top-level line sets its field, and nothing else changes any. -/
def FromTop (state : YmlState) (piece : YmlPiece) : Prop :=
  (parsePiece state piece).yml.top = match piece.top with
    | some (key, val) => setTopField state.yml.top key val
    | none => state.yml.top

instance (state : YmlState) (piece : YmlPiece) : Decidable (FromTop state piece) :=
  inferInstanceAs (Decidable ((parsePiece state piece).yml.top = _))

/-- What begins no top-level line and has a key and a value is indented deeper than the last key
without a value, or is no field with another value. -/
def Sheltered (state : YmlState) (piece : YmlPiece) : Prop :=
  piece.top = none → ∀ indent key val, readLine piece.text = (indent, .pair key val) → val ≠ [] →
    state.inside indent = true ∨ setTopField state.yml.top key val = state.yml.top

/-- The key and the value on a line, unless it is inside the section. -/
def YmlState.assigned (state : YmlState) (line : CString) : Option (CString × CString) :=
  match readLine line with
  | (indent, .pair key val) =>
    if val ≠ [] ∧ state.inside indent = false then some (key, val) else none
  | _ => none

/-- The piece that begins a top-level line is outside the section and holds as much of the value as
the field, or neither it nor the line changes any. -/
def ReadWhole (state : YmlState) (piece : YmlPiece) : Prop :=
  ∀ key val, piece.top = some (key, val) →
    (∃ front short, state.assigned piece.text = some (front, short) ∧
      setTopField state.yml.top front short = setTopField state.yml.top key val) ∨
    state.assigned piece.text = none ∧ setTopField state.yml.top key val = state.yml.top

/-! ## One piece -/

/-- An empty list of conflicts is no field. -/
theorem setTopField_conflicts (top : TopFields) (val : CString) :
    setTopField top (lit "conflicts") val = top := by
  have others : ∀ key ∈ [lit "id", lit "name", lit "version", lit "type", lit "description",
      lit "repo", lit "branch", lit "tag", lit "license", lit "author", lit "url",
      lit "pre_install", lit "post_install", lit "pre_uninstall", lit "post_uninstall",
      lit "size"], lit "conflicts" ≠ key := by decide
  simp only [List.forall_mem_cons] at others
  simp only [setTopField, others, if_false]

/-- The fields after a line. -/
theorem parseLine_top (state : YmlState) (line : CString) :
    (parseLine state line).yml.top = match state.assigned line with
      | some (key, val) => setTopField state.yml.top key val
      | none => state.yml.top := by
  have item (val : CString) : (parseItem state val).yml.top = state.yml.top := by
    have added (current val : CString) : (addToSection state.yml current val).top =
        state.yml.top := by
      unfold addToSection
      split_ifs <;> rfl
    unfold parseItem
    split
    · rfl
    · split
      · split
        · rfl
        · exact added _ _
      · exact added _ _
  unfold parseLine YmlState.assigned
  cases read : readLine line with
  | mk indent content =>
    cases content with
    | blank => rfl
    | text => rfl
    | item val => exact item val
    | pair key val =>
      dsimp only
      unfold parsePair
      by_cases empty : val = []
      · have unassigned : ¬ (val ≠ [] ∧ state.inside indent = false) := fun both => both.1 empty
        rw [if_pos empty, if_neg unassigned]
        split <;> rfl
      · rw [if_neg empty]
        by_cases inside : state.inside indent = true
        · have unassigned : ¬ (val ≠ [] ∧ state.inside indent = false) := by
            rintro ⟨-, outside⟩
            exact absurd (inside.symm.trans outside) (by decide)
          rw [if_neg unassigned, if_pos inside]
          split <;> rfl
        · have assigned : val ≠ [] ∧ state.inside indent = false := ⟨empty, by simpa using inside⟩
          rw [if_pos assigned, if_neg inside]
          dsimp only
          split
          next none =>
            rw [none.1, setTopField_conflicts]
            rfl
          next => rfl

/-- What is assigned is the key and the value on a line outside the section. -/
theorem assigned_eq_some {state : YmlState} {line key val : CString} :
    state.assigned line = some (key, val) ↔
      ∃ indent, readLine line = (indent, .pair key val) ∧ val ≠ [] ∧
        state.inside indent = false := by
  unfold YmlState.assigned
  constructor
  · intro found
    split at found
    next indent front short read =>
      split at found
      next outside =>
        obtain ⟨rfl, rfl⟩ := Prod.mk.inj (Option.some.inj found)
        exact ⟨indent, read, outside⟩
      next => cases found
    next => cases found
  · rintro ⟨indent, read, outside⟩
    rw [read]
    exact if_pos outside

/-- A piece does what it should exactly when it is sheltered and read whole. -/
theorem fromTop_iff (state : YmlState) (piece : YmlPiece) :
    FromTop state piece ↔ Sheltered state piece ∧ ReadWhole state piece := by
  unfold FromTop Sheltered ReadWhole
  rw [parsePiece, parseLine_top]
  cases piece.top with
  | none =>
    constructor
    · intro same
      refine ⟨?_, by rintro key val ⟨⟩⟩
      intro _ indent key val read filled
      by_cases inside : state.inside indent = true
      · exact .inl inside
      · have found := assigned_eq_some.mpr ⟨indent, read, filled, by simpa using inside⟩
        rw [found] at same
        exact .inr same
    · rintro ⟨sheltered, -⟩
      dsimp only
      cases found : state.assigned piece.text with
      | none => rfl
      | some pair =>
        obtain ⟨indent, read, filled, outside⟩ := assigned_eq_some.mp found
        refine (sheltered rfl indent pair.1 pair.2 read filled).resolve_left ?_
        rw [outside]
        exact Bool.false_ne_true
  | some pair =>
    dsimp only
    constructor
    · intro same
      refine ⟨by rintro ⟨⟩, ?_⟩
      rintro key val ⟨⟩
      cases found : state.assigned piece.text with
      | none =>
        rw [found] at same
        exact .inr ⟨rfl, same.symm⟩
      | some other =>
        rw [found] at same
        exact .inl ⟨other.1, other.2, rfl, same⟩
    · rintro ⟨-, whole⟩
      rcases whole pair.1 pair.2 rfl with ⟨front, short, found, same⟩ | ⟨found, same⟩
      · rw [found]
        exact same
      · rw [found]
        exact same.symm

/-! ## Lines and pieces -/

/-- The pieces of a line are what is read of it. -/
theorem linePieces_text (base : Nat) (line ending : CString) :
    (linePieces base line ending).map YmlPiece.text = fgetsLines 1024 (line ++ ending) := by
  unfold linePieces
  cases fgetsLines 1024 (line ++ ending) with
  | nil => rfl
  | cons first rest => simp [Function.comp_def]

/-- The pieces of a file are what is read of it. -/
theorem filePieces_text (base : Nat) (lines : List CString) :
    (filePieces base lines).map YmlPiece.text = fgetsLines 1024 ([newline].intercalate lines) := by
  induction lines with
  | nil => rfl
  | cons line rest ih =>
    cases rest with
    | nil => rw [filePieces, linePieces_text, List.intercalate_singleton, List.append_nil]
    | cons next rest =>
      rw [filePieces, List.map_append, linePieces_text, ih, List.intercalate_cons_cons,
        List.append_assoc, List.singleton_append]
      exact (fgetsFrom_append [] line _).symm

/-- The first piece of a line is the top-level line. -/
theorem linePieces_top (base : Nat) (line ending : CString) :
    (linePieces base line ending).filterMap YmlPiece.top = (topPair base line).toList := by
  have later (texts : List CString) :
      (texts.map fun text => YmlPiece.mk none text).filterMap YmlPiece.top = [] := by
    rw [List.filterMap_map]
    exact List.filterMap_eq_nil_iff.mpr fun _ _ => rfl
  unfold linePieces
  cases pieces : fgetsLines 1024 (line ++ ending) with
  | nil =>
    have whole : (fgetsLines 1024 (line ++ ending)).flatten = line ++ ending :=
      fgetsFrom_flatten 1024 [] _
    rw [pieces] at whole
    obtain ⟨rfl, -⟩ := List.append_eq_nil_iff.mp whole.symm
    rfl
  | cons first rest =>
    dsimp only
    cases top : topPair base line with
    | none => exact later rest
    | some pair => exact congrArg (pair :: ·) (later rest)

/-- The pieces give the top-level lines. -/
theorem filePieces_top (base : Nat) (lines : List CString) :
    (filePieces base lines).filterMap YmlPiece.top = lines.filterMap (topPair base) := by
  have first (line : CString) (rest : List CString) : (line :: rest).filterMap (topPair base) =
      (topPair base line).toList ++ rest.filterMap (topPair base) := by
    rw [List.filterMap_cons]
    cases topPair base line <;> rfl
  induction lines with
  | nil => rfl
  | cons line rest ih =>
    cases rest with
    | nil => rw [filePieces, linePieces_top, first, List.filterMap_nil, List.append_nil]
    | cons next rest => rw [filePieces, List.filterMap_append, linePieces_top, ih, first line]

/-- When every piece does what it should, the fields are those of the top-level lines. -/
theorem run_fromTop {pieces : List YmlPiece} {state : YmlState}
    (fromTop : AllSteps parsePiece FromTop state pieces) :
    (run parsePiece state pieces).yml.top = (pieces.filterMap YmlPiece.top).foldl
      (fun top pair => setTopField top pair.1 pair.2) state.yml.top := by
  induction pieces generalizing state with
  | nil => rfl
  | cons piece rest ih =>
    obtain ⟨step, later⟩ := fromTop
    rw [run_cons, ih later, step]
    cases top : piece.top with
    | none => rw [List.filterMap_cons_none top]
    | some pair => rw [List.filterMap_cons_some top, List.foldl_cons]

/-- A line feed makes no difference to a line. -/
theorem readLine_newline (line : CString) : readLine (line ++ [newline]) = readLine line := by
  have ends : (newline == newline || newline == 13) = true := rfl
  by_cases zero : (0 : UInt8) ∈ line
  · unfold readLine
    rw [bufferText_zero zero]
  · have plain : (0 : UInt8) ∉ line ++ [newline] := by
      rw [List.mem_append, List.mem_singleton]
      rintro (here | same)
      · exact zero here
      · cases same
    have indent : ((line ++ [newline]).takeWhile isBlank) = line.takeWhile isBlank := by
      rw [List.takeWhile_append]
      split
      next blank =>
        show line ++ [] = _
        rw [List.append_nil]
        exact (List.takeWhile_prefix isBlank).eq_of_length blank |>.symm
      next => rfl
    unfold readLine
    dsimp only
    rw [bufferText_eq plain, bufferText_eq zero, indent,
      @trim_snoc isBlank (fun byte => byte == newline || byte == 13) newline line ends]

/-! ## Lines that fit the buffer -/

/-- The section is not indented less than the top-level lines. -/
def YmlState.Framed (base : Nat) (state : YmlState) : Prop :=
  state.current = [] ∨ (base : Int) ≤ state.secIndent

/-- A top-level line is outside such a section. -/
theorem YmlState.Framed.outside {base : Nat} {state : YmlState} (framed : state.Framed base) :
    state.inside base = false := by
  unfold YmlState.inside
  rw [decide_eq_false_iff_not]
  rintro ⟨filled, deeper⟩
  rcases framed with top | far
  · exact filled top
  · omega

/-- A line whose key is not indented less than the top-level lines, or is the root, keeps the
section so. -/
theorem YmlState.Framed.line {base : Nat} {state : YmlState} (framed : state.Framed base)
    {line : CString} (deep : ∀ indent key val, readLine line = (indent, .pair key val) →
      base ≤ indent ∨ key = lit "plugin" ∧ val = []) : (parseLine state line).Framed base := by
  unfold parseLine
  cases read : readLine line with
  | mk indent content =>
    cases content with
    | blank => exact framed
    | text => exact framed
    | item val =>
      show (parseItem state val).Framed base
      unfold parseItem
      split
      · exact framed
      · split
        · split <;> exact framed
        · exact framed
    | pair key val =>
      show (parsePair state indent key val).Framed base
      unfold parsePair
      split
      next empty =>
        split
        · exact .inl rfl
        next other =>
          refine .inr ?_
          have far := (deep indent key val read).resolve_right fun root => other root.1
          show (base : Int) ≤ indent
          omega
      next =>
        split
        · exact .inl rfl
        · split <;> exact framed

/-- The keys of a line of the format. -/
theorem unified_cons {base : Nat} {part : YmlPart} {line : CString} {rest : List CString}
    (form : unified base part (line :: rest) = true) :
    (∃ next, unified base next rest = true) ∧
      ∀ indent key val, readLine line = (indent, .pair key val) →
        base ≤ indent ∨ key = lit "plugin" ∧ val = [] := by
  unfold unified at form
  cases read : readLine line with
  | mk indent content =>
    rw [read] at form
    cases content with
    | pair key val =>
      dsimp only at form
      split at form
      next same => exact ⟨⟨_, form⟩, by rintro _ _ _ ⟨⟩; exact .inl (by omega)⟩
      next =>
        split at form
        next deeper =>
          obtain ⟨-, form⟩ := Bool.and_eq_true_iff.mp form
          exact ⟨⟨_, form⟩, by rintro _ _ _ ⟨⟩; exact .inl (by omega)⟩
        next =>
          obtain ⟨root, form⟩ := Bool.and_eq_true_iff.mp form
          obtain ⟨named, empty⟩ := Bool.and_eq_true_iff.mp root
          obtain ⟨-, named⟩ := Bool.and_eq_true_iff.mp named
          refine ⟨⟨_, form⟩, ?_⟩
          rintro _ _ _ ⟨⟩
          exact .inr ⟨of_decide_eq_true named, of_decide_eq_true empty⟩
    | blank => exact ⟨⟨part, form⟩, by rintro _ _ _ ⟨⟩⟩
    | text => exact ⟨⟨part, form⟩, by rintro _ _ _ ⟨⟩⟩
    | item text => exact ⟨⟨part, form⟩, by rintro _ _ _ ⟨⟩⟩

/-- A line that fits the buffer is one piece, or none when it is empty and the last. -/
theorem linePieces_short {base : Nat} {line ending : CString} (plain : newline ∉ line)
    (short : line.length < 1023) (ends : ending = [] ∨ ending = [newline]) :
    linePieces base line ending = [] ∨
      linePieces base line ending = [⟨topPair base line, line ++ ending⟩] := by
  have fits : line.length + 1 < 1024 := by omega
  unfold linePieces
  rcases ends with rfl | rfl
  · rw [List.append_nil, fgetsLines_last plain fits]
    by_cases empty : line.isEmpty = true
    · rw [if_pos empty]
      exact .inl rfl
    · rw [if_neg empty]
      exact .inr rfl
  · rw [fgetsLines_line line [] plain fits]
    exact .inr rfl

/-- Such a piece is read whole. -/
theorem readWhole_short {base : Nat} {state : YmlState} (framed : state.Framed base)
    {line text : CString} (same : readLine text = readLine line) :
    ReadWhole state ⟨topPair base line, text⟩ := by
  intro key val top
  unfold topPair at top
  split at top
  next indent key val read =>
    split at top
    next here =>
      obtain ⟨rfl, filled⟩ := here
      obtain ⟨rfl, rfl⟩ := Prod.mk.inj (Option.some.inj top)
      have found := assigned_eq_some.mpr ⟨_, same.trans read, filled, framed.outside⟩
      exact .inl ⟨_, _, found, rfl⟩
    next => cases top
  next => cases top

/-- In a file of the format whose lines fit the buffer all pieces are read whole. -/
theorem readWhole_lines {base : Nat} {lines : List CString} {part : YmlPart} {state : YmlState}
    (form : unified base part lines = true) (plain : ∀ line ∈ lines, newline ∉ line)
    (short : ∀ line ∈ lines, line.length < 1023) (framed : state.Framed base) :
    AllSteps parsePiece ReadWhole state (filePieces base lines) := by
  induction lines generalizing part state with
  | nil => trivial
  | cons line rest ih =>
    obtain ⟨⟨next, form⟩, deep⟩ := unified_cons form
    obtain ⟨clean, others⟩ := List.forall_mem_cons.mp plain
    obtain ⟨fits, shorter⟩ := List.forall_mem_cons.mp short
    cases rest with
    | nil =>
      rw [filePieces]
      rcases @linePieces_short base line [] clean fits (.inl rfl) with none | one
      · rw [none]
        trivial
      · rw [one]
        exact ⟨readWhole_short framed (by rw [List.append_nil]), trivial⟩
    | cons other rest =>
      rw [filePieces]
      have read := readLine_newline line
      rcases @linePieces_short base line [newline] clean fits (.inr rfl) with none | one
      · rw [none]
        exact ih form others shorter framed
      · rw [one]
        refine ⟨readWhole_short framed read, ih form others shorter (framed.line ?_)⟩
        intro indent key val found
        exact deep indent key val (read.symm.trans found)

/-! ## Files -/

/-- In a file of the unified format every top-level line sets its field and nothing else changes any
exactly when all other keys are sheltered and the top-level lines are read whole, which they are
when all lines fit the buffer. Then the fields are those of the top-level lines. -/
theorem allFromTop_iff {base : Nat} {file : CString}
    (form : unified base .start (file.splitOn newline) = true) :
    (AllSteps parsePiece FromTop ymlStart (filePieces base (file.splitOn newline)) ↔
      AllSteps parsePiece Sheltered ymlStart (filePieces base (file.splitOn newline)) ∧
        AllSteps parsePiece ReadWhole ymlStart (filePieces base (file.splitOn newline))) ∧
    ((∀ line ∈ file.splitOn newline, line.length < 1023) →
      AllSteps parsePiece ReadWhole ymlStart (filePieces base (file.splitOn newline))) ∧
    (AllSteps parsePiece FromTop ymlStart (filePieces base (file.splitOn newline)) →
      (hwYmlParsePlugin file).top = topLines base (file.splitOn newline)) := by
  refine ⟨⟨?_, ?_⟩, ?_, ?_⟩
  · intro fromTop
    exact ⟨fromTop.mono fun state piece holds => ((fromTop_iff state piece).mp holds).1,
      fromTop.mono fun state piece holds => ((fromTop_iff state piece).mp holds).2⟩
  · rintro ⟨sheltered, whole⟩
    exact (sheltered.and whole).mono fun state piece both => (fromTop_iff state piece).mpr both
  · intro short
    exact readWhole_lines form (splitOn_part newline file) short (.inl rfl)
  · intro fromTop
    have pieces : run parsePiece ymlStart (filePieces base (file.splitOn newline)) =
        (fgetsLines 1024 file).foldl parseLine ymlStart := by
      have texts := filePieces_text base (file.splitOn newline)
      rw [List.intercalate_splitOn] at texts
      rw [← texts, List.foldl_map]
      rfl
    unfold hwYmlParsePlugin topLines
    rw [← pieces, run_fromTop fromTop, filePieces_top]
    rfl

/-- A description with a parameter whose keys all have values. -/
def plainYml : CString :=
  lit "plugin:\n  id: \"testplug\"\n  type: \"tools\"\n  params:\n    - key: \"flag\"\n" ++
    lit "      type: \"bool\"\n      default: \"true\"\n  version: \"2.3.4\"\n"

/-- The same parameter without a default value. -/
def emptyValueYml : CString :=
  lit "plugin:\n  id: \"testplug\"\n  type: \"tools\"\n  params:\n    - key: \"flag\"\n" ++
    lit "      default:\n      type: \"bool\"\n  version: \"2.3.4\"\n"

/-- The fields of the first description come from its top-level lines. -/
theorem plainYml_fromTop :
    AllSteps parsePiece Sheltered ymlStart (filePieces 2 (plainYml.splitOn newline)) ∧
      (hwYmlParsePlugin plainYml).top = topLines 2 (plainYml.splitOn newline) := by
  have form : unified 2 .start (plainYml.splitOn newline) = true := by decide +kernel
  have fromTop : AllSteps parsePiece FromTop ymlStart
      (filePieces 2 (plainYml.splitOn newline)) := by decide +kernel
  exact ⟨((allFromTop_iff form).1.mp fromTop).1, (allFromTop_iff form).2.2 fromTop⟩

/-- The type of the second one is that of its parameter. -/
theorem emptyValueYml_type :
    unified 2 .start (emptyValueYml.splitOn newline) = true ∧
      (topLines 2 (emptyValueYml.splitOn newline)).type.val = lit "tools" ∧
      (hwYmlParsePlugin emptyValueYml).top.type.val = lit "bool" ∧
      ¬ AllSteps parsePiece FromTop ymlStart (filePieces 2 (emptyValueYml.splitOn newline)) := by
  refine ⟨by decide +kernel, by decide +kernel, by decide +kernel, by decide +kernel⟩

end HwrunOs.Bus
