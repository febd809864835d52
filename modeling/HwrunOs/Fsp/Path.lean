import HwrunOs.Library.NormalPaths

/-!
# Normal forms of paths

`fsp_path.c`: a path is made absolute, its components are put on a stack of 64 segments, and the
segments are written behind slashes. Too many segments and too small a buffer are errors. A segment
has room for 255 bytes, and what does not fit into it is left out.
-/

namespace HwrunOs.Fsp

open HwrunOs.Bytes HwrunOs.Words HwrunOs.Paths

/-! ## Normalizing -/

/-- `-EINVAL`. -/
def einval : Int := -22
/-- `-ENAMETOOLONG`. -/
def enametoolong : Int := -36

/-- `FSP_NAME_MAX`. -/
def fspNameMax : Nat := 256

/-- What `getcwd` delivers: the working directory, or the negative error. -/
abbrev Cwd := Except Int CString

/-- The path that is scanned: a relative one is put behind the working directory, in a buffer of
4096 bytes. -/
def absolute (cwd : Cwd) (input : CString) : Except Int CString :=
  if input.head? = some 47 then .ok input
  else match cwd with
    | .error rc => .error rc
    | .ok dir =>
      if 4096 < dir.length + 1 + input.length + 1 then .error enametoolong
      else .ok (dir ++ 47 :: input)

/-- What is left behind a component is shorter than the text in front of it. -/
theorem next_shorter {p rest : CString} {first : UInt8}
    (left : p.dropWhile isSlash = first :: rest) :
    (rest.dropWhile fun byte => !isSlash byte).length < p.length := by
  have slashes := List.length_dropWhile_le isSlash p
  have word := List.length_dropWhile_le (fun byte => !isSlash byte) rest
  rw [left, List.length_cons] at slashes
  omega

/-- The loop over the components from a position on, with the segments on the stack. -/
def scan (stack : Path) (p : CString) : Except Int Path :=
  match left : p.dropWhile isSlash with
  | [] => .ok stack
  | first :: rest =>
    let seg := snprintf fspNameMax (first :: rest.takeWhile fun byte => !isSlash byte)
    let next := rest.dropWhile fun byte => !isSlash byte
    have : next.length < p.length := next_shorter left
    if seg = lit "." then scan stack next
    else if seg = lit ".." then scan stack.dropLast next
    else if stack.length < 64 then scan (stack ++ [snprintf fspNameMax seg]) next
    else .error enametoolong
termination_by p.length

/-- `PUSH`. -/
def push (cap : Nat) (out : CString) : CString → Except Int CString
  | [] => .ok out
  | byte :: rest =>
    if cap ≤ out.length + 1 then .error enametoolong else push cap (out ++ [byte]) rest

/-- The loop that writes the segments. -/
def assemble (cap : Nat) (out : CString) : Path → Except Int CString
  | [] => .ok out
  | seg :: rest =>
    match (if out = [47] then .ok out else push cap out [47]) with
    | .error rc => .error rc
    | .ok slashed =>
      match push cap slashed seg with
      | .error rc => .error rc
      | .ok written => assemble cap written rest

/-- `fsp_path_normalize` into a buffer of a size, with null pointers. -/
def fspPathNormalize (cwd : Cwd) (input : Option CString) (out : Option Nat) :
    Except Int CString :=
  match input, out with
  | some input, some cap =>
    if cap = 0 then .error einval
    else match absolute cwd input with
      | .error rc => .error rc
      | .ok src =>
        match scan [] src with
        | .error rc => .error rc
        | .ok stack =>
          match push cap [] [47] with
          | .error rc => .error rc
          | .ok root => assemble cap root stack
  | _, _ => .error einval

/-! ## The claim and its condition -/

/-- The absolute path that an input stands for. -/
def absoluteText (cwd : Cwd) (input : CString) : CString :=
  if input.head? = some 47 then input
  else match cwd with
    | .ok dir => dir ++ 47 :: input
    | .error _ => input

/-- The components that are left of an input. -/
def components (cwd : Cwd) (input : CString) : Path := walk [] (absoluteText cwd input)

/-- The lexical normal form of an input. -/
def normalForm (cwd : Cwd) (input : CString) : CString := textOf (components cwd input)

/-- Some components of a text lead deeper than the stack. -/
def Deep (stack : Path) (parts : List CString) : Prop :=
  ∃ front, front <+: parts ∧ 64 < (front.foldl enter stack).length

/-- How long the text of a path is when a component has no more than 255 bytes. -/
def neededLength : Path → Nat
  | [] => 0
  | component :: rest => min component.length 255 + 1 + neededLength rest

/-- An input is refused: there is no buffer, the working directory is not available or the path
behind it too long, it leads too deep, or its components do not fit the buffer. -/
inductive Refused (cwd : Cwd) (input : CString) (cap : Nat) : Prop where
  | buffer (none : cap = 0)
  | directory (relative : input.head? ≠ some 47) (missing : ∀ dir, cwd ≠ .ok dir)
  | long (relative : input.head? ≠ some 47) (dir : CString) (given : cwd = .ok dir)
    (far : 4096 < dir.length + 1 + input.length + 1)
  | deep (down : Deep [] (words isSlash (absoluteText cwd input)))
  | small (short : cap ≤ max 1 (neededLength (components cwd input)))

/-- The output is the normal form whenever there is one. -/
def Normalizes (cwd : Cwd) (input : CString) (cap : Nat) : Prop :=
  ∀ output, fspPathNormalize cwd (some input) (some cap) = .ok output →
    output = normalForm cwd input

/-! ## Segments -/

/-- What a segment holds of a component. -/
def segment (component : CString) : CString := snprintf fspNameMax component

/-- A segment has 255 bytes of a component. -/
theorem segment_length (component : CString) :
    (segment component).length = min component.length 255 := by
  show (component.take 255).length = _
  rw [List.length_take, Nat.min_comm]

/-- A component that fits is held whole. -/
theorem segment_eq {component : CString} (short : component.length < 256) :
    segment component = component := snprintf_eq short

/-- A segment does what its component does. -/
theorem segment_keeps : Keeps segment := by
  have short {component text : CString} (small : text.length < 255)
      (same : segment component = text) : component = text := by
    have lengths := congrArg List.length same
    rw [segment_length] at lengths
    rwa [segment_eq (by omega)] at same
  refine ⟨fun component => ⟨?_, ?_⟩, fun component => ⟨?_, ?_⟩⟩
  · rintro (none | dot)
    · exact .inl (short (by decide) none)
    · exact .inr (short (by decide) dot)
  · rintro (rfl | rfl)
    · exact .inl rfl
    · exact .inr (by decide)
  · exact fun dots => short (by decide) dots
  · rintro rfl
    decide

/-- A name leaves a segment that is not empty. -/
theorem segment_ne_nil {component : CString} (filled : component ≠ []) :
    segment component ≠ [] := by
  intro none
  have lengths := congrArg List.length none
  rw [segment_length] at lengths
  have positive := List.length_pos_iff.mpr filled
  rw [List.length_nil] at lengths
  omega

/-! ## The stack -/

/-- No components do not lead deep. -/
theorem deep_nil {path : Path} (bound : path.length ≤ 64) : ¬ Deep path [] := by
  rintro ⟨front, begins, deep⟩
  rw [List.prefix_nil.mp begins] at deep
  exact absurd deep (Nat.not_lt.mpr bound)

/-- Components lead deep when the first does, or the others behind it. -/
theorem deep_cons {path : Path} (bound : path.length ≤ 64) (part : CString)
    (rest : List CString) :
    Deep path (part :: rest) ↔ 64 < (enter path part).length ∨ Deep (enter path part) rest := by
  constructor
  · rintro ⟨front, begins, deep⟩
    cases front with
    | nil => exact absurd deep (Nat.not_lt.mpr bound)
    | cons first others =>
      obtain ⟨rfl, later⟩ := List.cons_prefix_cons.mp begins
      exact .inr ⟨others, later, deep⟩
  · rintro (deep | ⟨front, begins, deep⟩)
    · exact ⟨[part], List.cons_prefix_cons.mpr ⟨rfl, List.nil_prefix⟩, deep⟩
    · exact ⟨part :: front, List.cons_prefix_cons.mpr ⟨rfl, begins⟩, deep⟩

/-- What is left behind a word has the same words without the slash. -/
theorem words_behind (rest : CString) :
    words isSlash ((rest.dropWhile fun byte => !isSlash byte).drop 1) =
      words isSlash (rest.dropWhile fun byte => !isSlash byte) := by
  cases behind : rest.dropWhile fun byte => !isSlash byte with
  | nil => rfl
  | cons separator later =>
    have separates : isSlash separator = true := by
      have head := List.head?_dropWhile_not (fun byte => !isSlash byte) rest
      rw [behind] at head
      simpa using head
    rw [words_blank separates]
    rfl

/-- The scan passes over slashes and takes the first word. -/
theorem words_scan {p rest : CString} {first : UInt8}
    (left : p.dropWhile isSlash = first :: rest) : words isSlash p =
      (first :: rest.takeWhile fun byte => !isSlash byte) ::
        words isSlash (rest.dropWhile fun byte => !isSlash byte) := by
  have solid : isSlash first = false := by
    have head := List.head?_dropWhile_not isSlash p
    rw [left] at head
    simpa using head
  rw [← words_dropWhile, left, words_takeWhile solid, words_behind]

/-- A component whose segment is no dot and no two dots is a name below. -/
theorem enter_segment (path : Path) {component : CString} (filled : component ≠ [])
    (dot : segment component ≠ lit ".") (dots : segment component ≠ lit "..") :
    enter path component = path ++ [component] := by
  have moves : ¬ (component = [] ∨ component = lit ".") := fun nowhere =>
    ((segment_keeps.stay component).mpr nowhere).elim (segment_ne_nil filled) dot
  have down : ¬ component = lit ".." := fun up => dots ((segment_keeps.up component).mpr up)
  unfold enter
  rw [if_neg moves, if_neg down]

/-- The stack holds the segments of the path that the components lead to, unless they lead deep. -/
theorem scan_ok_iff (stack : Path) (p : CString) : ∀ path : Path, stack = path.map segment →
    path.length ≤ 64 → ∀ result, scan stack p = .ok result ↔
      ¬ Deep path (words isSlash p) ∧
        result = ((words isSlash p).foldl enter path).map segment := by
  fun_induction scan stack p with
  | case1 stack p left =>
    intro path same bound result
    rw [← words_dropWhile, left, words_nil]
    constructor
    · rintro ⟨⟩
      exact ⟨deep_nil bound, same⟩
    · rintro ⟨-, rfl⟩
      rw [same]
      rfl
  | case2 stack p first rest left seg next shorter dot ih =>
    intro path same bound result
    -- The component is the directory itself.
    have stays : enter path (first :: rest.takeWhile fun byte => !isSlash byte) = path :=
      if_pos ((segment_keeps.stay _).mp (.inr dot))
    rw [words_scan left, deep_cons bound, stays, List.foldl_cons, stays,
      ih path same bound result]
    exact and_congr_left' (not_congr (or_iff_right (Nat.not_lt.mpr bound)).symm)
  | case3 stack p first rest left seg next shorter dot dots ih =>
    intro path same bound result
    -- The component is the directory above.
    have up : (first :: rest.takeWhile fun byte => !isSlash byte) = lit ".." :=
      (segment_keeps.up _).mp dots
    have leads : enter path (lit "..") = path.dropLast := rfl
    have shorter : path.dropLast.length ≤ 64 := by
      rw [List.length_dropLast]
      omega
    have segments : stack.dropLast = path.dropLast.map segment := by rw [same, List.map_dropLast]
    rw [words_scan left, up, deep_cons bound, leads, List.foldl_cons, leads,
      ih path.dropLast segments shorter result]
    exact and_congr_left' (not_congr (or_iff_right (Nat.not_lt.mpr shorter)).symm)
  | case4 stack p first rest left seg next shorter dot dots room ih =>
    intro path same bound result
    have leads : enter path (first :: rest.takeWhile fun byte => !isSlash byte) =
        path ++ [first :: rest.takeWhile fun byte => !isSlash byte] :=
      enter_segment path (List.cons_ne_nil _ _) dot dots
    have longer :
        (path ++ [first :: rest.takeWhile fun byte => !isSlash byte]).length ≤ 64 := by
      rw [same, List.length_map] at room
      rw [List.length_append, List.length_singleton]
      omega
    have segments : stack ++ [snprintf fspNameMax seg] =
        (path ++ [first :: rest.takeWhile fun byte => !isSlash byte]).map segment := by
      have once : snprintf fspNameMax seg = seg := snprintf_snprintf _ _
      rw [once, same, List.map_append]
      rfl
    rw [words_scan left, deep_cons bound, leads, List.foldl_cons, leads,
      ih _ segments longer result]
    exact and_congr_left' (not_congr (or_iff_right (Nat.not_lt.mpr longer)).symm)
  | case5 stack p first rest left seg next shorter dot dots full =>
    intro path same bound result
    have leads : enter path (first :: rest.takeWhile fun byte => !isSlash byte) =
        path ++ [first :: rest.takeWhile fun byte => !isSlash byte] :=
      enter_segment path (List.cons_ne_nil _ _) dot dots
    have deep : 64 <
        (path ++ [first :: rest.takeWhile fun byte => !isSlash byte]).length := by
      rw [same, List.length_map] at full
      rw [List.length_append, List.length_singleton]
      omega
    rw [words_scan left, deep_cons bound, leads]
    exact iff_of_false (fun found => by cases found) fun both => both.1 (.inl deep)

/-! ## The output -/

/-- A text is written when it fits in front of the terminating zero. -/
theorem push_ok_iff (cap : Nat) (text : CString) : ∀ out : CString, out.length < cap → ∀ result,
    push cap out text = .ok result ↔
      out.length + text.length < cap ∧ result = out ++ text := by
  induction text with
  | nil =>
    intro out room result
    rw [push, List.append_nil, List.length_nil]
    constructor
    · rintro ⟨⟩
      exact ⟨room, rfl⟩
    · rintro ⟨-, rfl⟩
      rfl
  | cons byte rest ih =>
    intro out room result
    rw [push, List.length_cons]
    by_cases full : cap ≤ out.length + 1
    · rw [if_pos full]
      constructor
      · intro written
        cases written
      · rintro ⟨fits, -⟩
        omega
    · rw [if_neg full, ih _ (by rw [List.length_append, List.length_singleton]; omega)]
      rw [List.length_append, List.length_singleton, List.append_assoc, List.singleton_append,
        Nat.add_assoc, Nat.add_comm 1]

/-- Segments behind others are written, each behind a slash, when they all fit. -/
theorem assemble_ok_iff (cap : Nat) (segments : Path) : ∀ out : CString, 1 < out.length →
    out.length < cap → ∀ result, assemble cap out segments = .ok result ↔
      out.length + (rooted segments).length < cap ∧ result = out ++ rooted segments := by
  induction segments with
  | nil =>
    intro out _ room result
    show Except.ok out = Except.ok result ↔ out.length + 0 < cap ∧ result = out ++ []
    rw [List.append_nil]
    constructor
    · rintro ⟨⟩
      exact ⟨room, rfl⟩
    · rintro ⟨-, rfl⟩
      rfl
  | cons seg rest ih =>
    intro out long room result
    have later : out ≠ [47] := by
      rintro rfl
      exact absurd long (by decide)
    have whole : (rooted (seg :: rest)).length = 1 + seg.length + (rooted rest).length := by
      show (47 :: seg ++ rooted rest).length = _
      rw [List.length_append, List.length_cons]
      omega
    have text : out ++ rooted (seg :: rest) = out ++ [47] ++ seg ++ rooted rest := by
      show out ++ (47 :: seg ++ rooted rest) = _
      simp
    unfold assemble
    rw [if_neg later, whole, text]
    have slashed := push_ok_iff cap [47] out room
    cases first : push cap out [47] with
    | error rc =>
      refine iff_of_false (fun found => by cases found) ?_
      rintro ⟨fits, -⟩
      have written := (slashed (out ++ [47])).mpr ⟨by rw [List.length_singleton]; omega, rfl⟩
      rw [first] at written
      cases written
    | ok next =>
      obtain ⟨fits, rfl⟩ := (slashed next).mp first
      rw [List.length_singleton] at fits
      have longer : (out ++ [47]).length = out.length + 1 := by
        rw [List.length_append, List.length_singleton]
      have named := push_ok_iff cap seg (out ++ [47]) (by omega)
      dsimp only
      cases second : push cap (out ++ [47]) seg with
      | error rc =>
        refine iff_of_false (fun found => by cases found) ?_
        rintro ⟨all, -⟩
        have written := (named (out ++ [47] ++ seg)).mpr ⟨by omega, rfl⟩
        rw [second] at written
        cases written
      | ok last =>
        obtain ⟨room, rfl⟩ := (named last).mp second
        have length : (out ++ [47] ++ seg).length = out.length + 1 + seg.length := by
          rw [List.length_append, longer]
        dsimp only
        rw [ih _ (by omega) (by omega), length]
        apply and_congr_left'
        omega

/-- Behind the slash of the root the first segment has no slash of its own. -/
theorem assemble_root_iff {cap : Nat} (room : 1 < cap) {segments : Path}
    (filled : ∀ seg ∈ segments, seg ≠ []) (result : CString) :
    assemble cap [47] segments = .ok result ↔
      max 1 (rooted segments).length < cap ∧ result = textOf segments := by
  cases segments with
  | nil =>
    show Except.ok [47] = Except.ok result ↔ max 1 0 < cap ∧ result = [47]
    constructor
    · rintro ⟨⟩
      exact ⟨room, rfl⟩
    · rintro ⟨-, rfl⟩
      rfl
  | cons seg rest =>
    have positive := List.length_pos_iff.mpr (filled seg List.mem_cons_self)
    have whole : (rooted (seg :: rest)).length = 1 + seg.length + (rooted rest).length := by
      show (47 :: seg ++ rooted rest).length = _
      rw [List.length_append, List.length_cons]
      omega
    have text : textOf (seg :: rest) = [47] ++ seg ++ rooted rest := rfl
    have single : ([47] : CString).length = 1 := rfl
    have written := push_ok_iff cap seg [47] room
    rw [whole, text]
    unfold assemble
    rw [if_pos rfl]
    dsimp only
    cases first : push cap [47] seg with
    | error rc =>
      refine iff_of_false (fun found => by cases found) ?_
      rintro ⟨fits, -⟩
      have stored := (written ([47] ++ seg)).mpr ⟨by omega, rfl⟩
      rw [first] at stored
      cases stored
    | ok next =>
      obtain ⟨fits, rfl⟩ := (written next).mp first
      have length : ([47] ++ seg).length = 1 + seg.length := by
        rw [List.length_append, single]
      dsimp only
      rw [assemble_ok_iff cap rest _ (by omega) (by omega), length]
      apply and_congr_left'
      omega

/-! ## The whole -/

/-- The segments of a path take the needed length. -/
theorem rooted_segments (path : Path) :
    (rooted (path.map segment)).length = neededLength path := by
  induction path with
  | nil => rfl
  | cons component rest ih =>
    show (47 :: segment component ++ rooted (rest.map segment)).length = _
    rw [List.length_append, List.length_cons, segment_length, ih]
    rfl

/-- A path needs less than its text exactly when a component does not fit its segment. -/
theorem neededLength_eq_iff (path : Path) :
    neededLength path ≤ (rooted path).length ∧
      (neededLength path = (rooted path).length ↔
        ∀ component ∈ path, component.length < 256) := by
  induction path with
  | nil => exact ⟨Nat.le_refl 0, iff_of_true rfl fun _ none => absurd none List.not_mem_nil⟩
  | cons component rest ih =>
    obtain ⟨less, same⟩ := ih
    have whole : (rooted (component :: rest)).length =
        component.length + 1 + (rooted rest).length := by
      show (47 :: component ++ rooted rest).length = _
      rw [List.length_append, List.length_cons]
    have needed : neededLength (component :: rest) =
        min component.length 255 + 1 + neededLength rest := rfl
    rw [whole, needed, List.forall_mem_cons, ← same]
    omega

/-- The text of the segments is the text of the path exactly when every component fits. -/
theorem textOf_segments_iff (path : Path) :
    textOf (path.map segment) = textOf path ↔ ∀ component ∈ path, component.length < 256 := by
  cases path with
  | nil => exact iff_of_true rfl fun _ none => absurd none List.not_mem_nil
  | cons first rest =>
    constructor
    · intro same
      have texts : rooted ((first :: rest).map segment) = rooted (first :: rest) := same
      have lengths := congrArg List.length texts
      rw [rooted_segments] at lengths
      exact (neededLength_eq_iff (first :: rest)).2.mp lengths
    · intro short
      have fits : (first :: rest).map segment = first :: rest :=
        (List.map_congr_left fun component listed => segment_eq (short component listed)).trans
          (List.map_id _)
      rw [fits]

/-- The path that is scanned is available exactly when no error is returned for it. -/
theorem absolute_ok_iff (cwd : Cwd) (input src : CString) : absolute cwd input = .ok src ↔
    src = absoluteText cwd input ∧ (input.head? ≠ some 47 →
      ∃ dir, cwd = .ok dir ∧ dir.length + 1 + input.length + 1 ≤ 4096) := by
  unfold absolute absoluteText
  by_cases rooted : input.head? = some 47
  · rw [if_pos rooted, if_pos rooted]
    constructor
    · rintro ⟨⟩
      exact ⟨rfl, fun relative => absurd rooted relative⟩
    · rintro ⟨rfl, -⟩
      rfl
  · rw [if_neg rooted, if_neg rooted]
    cases cwd with
    | error rc =>
      refine iff_of_false (fun found => by cases found) ?_
      rintro ⟨-, available⟩
      obtain ⟨dir, given, -⟩ := available rooted
      cases given
    | ok dir =>
      dsimp only
      by_cases far : 4096 < dir.length + 1 + input.length + 1
      · rw [if_pos far]
        refine iff_of_false (fun found => by cases found) ?_
        rintro ⟨-, available⟩
        obtain ⟨other, given, near⟩ := available rooted
        obtain rfl := Except.ok.inj given
        omega
      · rw [if_neg far]
        constructor
        · rintro ⟨⟩
          exact ⟨rfl, fun _ => ⟨dir, rfl, Nat.le_of_not_lt far⟩⟩
        · rintro ⟨rfl, -⟩
          rfl

/-- Without a path to scan the input is refused. -/
theorem refused_of_absolute {cwd : Cwd} {input : CString} {cap : Nat} {rc : Int}
    (source : absolute cwd input = .error rc) : Refused cwd input cap := by
  have missing := (absolute_ok_iff cwd input (absoluteText cwd input)).not.mp
    (by rw [source]; exact fun found => by cases found)
  have relative : input.head? ≠ some 47 :=
    fun same => missing ⟨rfl, fun other => absurd same other⟩
  cases cwd with
  | error code => exact .directory relative fun dir given => by cases given
  | ok dir =>
    refine .long relative dir rfl (Nat.lt_of_not_le fun near => missing ⟨rfl, fun _ => ?_⟩)
    exact ⟨dir, rfl, near⟩

/-- An input that is scanned to its end is refused only for its length. -/
theorem not_refused_iff {cwd : Cwd} {input : CString} {cap : Nat} (buffer : cap ≠ 0)
    (available : input.head? ≠ some 47 →
      ∃ dir, cwd = .ok dir ∧ dir.length + 1 + input.length + 1 ≤ 4096)
    (shallow : ¬ Deep [] (words isSlash (absoluteText cwd input))) :
    ¬ Refused cwd input cap ↔ max 1 (neededLength (components cwd input)) < cap := by
  constructor
  · intro accepted
    exact Nat.lt_of_not_le fun short => accepted (.small short)
  · intro fits refused
    cases refused with
    | buffer none => exact buffer none
    | directory relative missing =>
      obtain ⟨dir, given, -⟩ := available relative
      exact missing dir given
    | long relative dir given far =>
      obtain ⟨other, same, near⟩ := available relative
      rw [given] at same
      obtain rfl := Except.ok.inj same
      omega
    | deep down => exact shallow down
    | small short => omega

/-- An input that is not refused has an output, the text of the segments of its components. -/
theorem fspPathNormalize_ok_iff (cwd : Cwd) (input : CString) (cap : Nat) (output : CString) :
    fspPathNormalize cwd (some input) (some cap) = .ok output ↔
      ¬ Refused cwd input cap ∧ output = textOf ((components cwd input).map segment) := by
  have proper : ∀ component ∈ components cwd input, Proper component :=
    walk_proper (absoluteText cwd input)
  have filled : ∀ seg ∈ (components cwd input).map segment, seg ≠ [] := by
    intro seg listed
    obtain ⟨component, among, rfl⟩ := List.mem_map.mp listed
    exact segment_ne_nil (proper component among).filled
  have leads : (words isSlash (absoluteText cwd input)).foldl enter [] = components cwd input :=
    (walk_words [] (absoluteText cwd input)).symm
  have scanned := scan_ok_iff [] (absoluteText cwd input) [] rfl (by decide)
  rw [leads] at scanned
  unfold fspPathNormalize
  dsimp only
  by_cases buffer : cap = 0
  · rw [if_pos buffer]
    exact iff_of_false (fun found => by cases found) fun both => both.1 (.buffer buffer)
  · rw [if_neg buffer]
    cases source : absolute cwd input with
    | error rc =>
      exact iff_of_false (fun found => by cases found) fun both =>
        both.1 (refused_of_absolute source)
    | ok src =>
      obtain ⟨rfl, available⟩ := (absolute_ok_iff cwd input src).mp source
      dsimp only
      cases stacked : scan [] (absoluteText cwd input) with
      | error rc =>
        refine iff_of_false (fun found => by cases found) fun both => both.1 (.deep ?_)
        by_contra shallow
        have found := (scanned _).mpr ⟨shallow, rfl⟩
        rw [stacked] at found
        cases found
      | ok stack =>
        obtain ⟨shallow, rfl⟩ := (scanned stack).mp stacked
        have begins := push_ok_iff cap [47] [] (Nat.pos_of_ne_zero buffer)
        have length := rooted_segments (components cwd input)
        dsimp only
        cases root : push cap [] [47] with
        | error rc =>
          refine iff_of_false (fun found => by cases found) fun both => both.1 (.small ?_)
          have tiny : ¬ 1 < cap := fun room => by
            have written := (begins [47]).mpr ⟨room, rfl⟩
            rw [root] at written
            cases written
          omega
        | ok slash =>
          obtain ⟨room, rfl⟩ := (begins slash).mp root
          have single : ([] : CString).length + ([47] : CString).length = 1 := rfl
          dsimp only
          rw [List.nil_append, assemble_root_iff (by omega) filled, length]
          exact and_congr_left' (not_refused_iff buffer available shallow).symm

/-- `path_normalize` returns the normal form, if anything, exactly when it refuses the input or all
components of the normal form have fewer than 256 bytes. -/
theorem normalizes_iff (cwd : Cwd) (input : CString) (cap : Nat) :
    Normalizes cwd input cap ↔
      Refused cwd input cap ∨ ∀ component ∈ components cwd input, component.length < 256 := by
  unfold Normalizes normalForm
  rw [← textOf_segments_iff]
  constructor
  · intro right
    by_cases refused : Refused cwd input cap
    · exact .inl refused
    · exact .inr (right _ ((fspPathNormalize_ok_iff cwd input cap _).mpr ⟨refused, rfl⟩))
  · intro either output returned
    obtain ⟨accepted, rfl⟩ := (fspPathNormalize_ok_iff cwd input cap output).mp returned
    exact either.resolve_left accepted

/-- Components do not lead deeper than there are components. -/
theorem shallow_of_few {parts : List CString} : ∀ path : Path, path.length + parts.length ≤ 64 →
    ¬ Deep path parts := by
  induction parts with
  | nil => exact fun path few => deep_nil few
  | cons part rest ih =>
    intro path few
    rw [List.length_cons] at few
    have next := enter_length path part
    rw [deep_cons (by omega)]
    rintro (deep | deep)
    · omega
    · exact ih (enter path part) (by omega) deep

/-- An absolute path with few components and room for its text is not refused. -/
theorem accepted_of_few {cwd : Cwd} {input : CString} {cap : Nat}
    (rooted : input.head? = some 47) (few : (words isSlash input).length ≤ 64)
    (room : max 1 (neededLength (components cwd input)) < cap) : ¬ Refused cwd input cap := by
  have same : absoluteText cwd input = input := if_pos rooted
  have shallow : ¬ Deep [] (words isSlash (absoluteText cwd input)) := by
    rw [same]
    exact shallow_of_few [] (by rw [List.length_nil]; omega)
  exact (not_refused_iff (by omega) (fun relative => absurd rooted relative) shallow).mpr room

/-- A component of 300 bytes loses 45 of them. -/
theorem long_component_cut :
    fspPathNormalize (.error einval) (some (47 :: List.replicate 300 97)) (some 1024) =
        .ok (47 :: List.replicate 255 97) ∧
      ¬ Normalizes (.error einval) (47 :: List.replicate 300 97) 1024 := by
  have accepted : ¬ Refused (.error einval) (47 :: List.replicate 300 97) 1024 :=
    accepted_of_few rfl (by decide +kernel) (by decide +kernel)
  have output : (47 : UInt8) :: List.replicate 255 97 =
      textOf ((components (.error einval) (47 :: List.replicate 300 97)).map segment) := by
    decide +kernel
  have returned := (fspPathNormalize_ok_iff (.error einval) (47 :: List.replicate 300 97) 1024
    (47 :: List.replicate 255 97)).mpr ⟨accepted, output⟩
  refine ⟨returned, fun right => ?_⟩
  have other : (47 : UInt8) :: List.replicate 255 97 ≠
      normalForm (.error einval) (47 :: List.replicate 300 97) := by decide +kernel
  exact other (right _ returned)

end HwrunOs.Fsp
