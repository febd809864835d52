import HwrunOs.Fsp.Path

/-!
# Joining and the directory above

`fsp_path_join` normalizes a directory with a name behind it, and `fsp_path_parent` takes the last
component off a normalized path. Normalizing again changes nothing, so the parent of a joined path
is the normalized directory; but what does not fit the buffer of the parent is cut off without an
error.
-/

namespace HwrunOs.Fsp

open HwrunOs.Bytes HwrunOs.Words HwrunOs.Paths

/-! ## The functions -/

/-- The text that `fsp_path_join` builds. -/
def joinText (dir name : CString) : CString :=
  dir ++ (if dir ≠ [] ∧ dir.getLast? ≠ some 47 then [47] else []) ++ name

/-- `fsp_path_join`. -/
def fspPathJoin (cwd : Cwd) (out : Option Nat) (dir name : Option CString) :
    Except Int CString :=
  match dir, name, out with
  | some dir, some name, some cap =>
    if cap = 0 then .error einval
    else if 4096 < (joinText dir name).length + 1 then .error enametoolong
    else fspPathNormalize cwd (some (joinText dir name)) (some cap)
  | _, _, _ => .error einval

/-- The loop that takes slashes off the end of a path, on the path backwards; one byte stays. -/
def stripSlashes : CString → CString
  | first :: second :: rest =>
    if first = 47 then stripSlashes (second :: rest) else first :: second :: rest
  | text => text

/-- The text in front of the last slash, `strrchr`. -/
def lastSlash (text : CString) : Option CString :=
  match text.reverse.dropWhile fun byte => !isSlash byte with
  | [] => none
  | _ :: front => some front.reverse

/-- `fsp_path_parent`. -/
def fspPathParent (cwd : Cwd) (path : Option CString) (out : Option Nat) : Except Int CString :=
  match path, out with
  | some path, some cap =>
    if cap = 0 then .error einval
    else match fspPathNormalize cwd (some path) (some 4096) with
      | .error rc => .error rc
      | .ok norm =>
        match lastSlash (stripSlashes norm.reverse).reverse with
        | none => .error einval
        | some front =>
          if front = [] then
            if cap < 2 then .error enametoolong else .ok (snprintf cap [47])
          else if front.length = 1 then .ok (snprintf cap [47])
          else .ok (snprintf cap front)
  | _, _ => .error einval

/-! ## The claim and its condition -/

/-- A simple name: a component shorter than `FSP_NAME_MAX`. -/
structure SimpleName (name : CString) : Prop extends Proper name where
  /-- It fits a segment. -/
  short : name.length < 256

/-- The parent of a joined path is what the directory is normalized to. -/
def RoundTrips (cwd : Cwd) (dir name : CString) (capJoin capParent : Nat) : Prop :=
  ∀ joined parent, fspPathJoin cwd (some capJoin) (some dir) (some name) = .ok joined →
    fspPathParent cwd (some joined) (some capParent) = .ok parent →
      ∃ cap, fspPathNormalize cwd (some dir) (some cap) = .ok parent

/-- The joined text is refused. -/
def JoinRefused (cwd : Cwd) (dir name : CString) (cap : Nat) : Prop :=
  4096 < (joinText dir name).length + 1 ∨ Refused cwd (joinText dir name) cap

/-- The joined path does not fit the buffer in which the parent is taken. -/
def ParentRefused (cwd : Cwd) (dir name : CString) (cap : Nat) : Prop :=
  cap = 0 ∨ 4096 ≤ neededLength (components cwd dir) + name.length + 1

/-! ## Words of joined texts -/

/-- The words of texts with a slash between them. -/
theorem words_slash (front back : CString) :
    words isSlash (front ++ 47 :: back) = words isSlash front ++ words isSlash back := by
  have parts : (front ++ 47 :: back).splitOnP isSlash =
      front.splitOnP isSlash ++ back.splitOnP isSlash :=
    List.splitOn_append_cons_self front back
  unfold words
  rw [parts, List.filter_append]

/-- A name is one word. -/
theorem words_name {name : CString} (proper : Proper name) : words isSlash name = [name] := by
  apply words_single _ proper.filled
  intro byte listed
  have other : byte ≠ 47 := fun same => proper.plain (same ▸ listed)
  exact beq_eq_false_iff_ne.mpr other

/-- The words of a text of names are the names. -/
theorem words_rooted {path : Path} (proper : ∀ component ∈ path, Proper component) :
    words isSlash (rooted path) = path := by
  induction path using List.reverseRecOn with
  | nil => rfl
  | append_singleton path component ih =>
    rw [rooted_snoc, words_slash, ih fun other listed => proper other (by simp [listed]),
      words_name (proper component (by simp))]

/-- The words of the text of a path are its names. -/
theorem words_textOf {path : Path} (proper : ∀ component ∈ path, Proper component) :
    words isSlash (textOf path) = path := by
  unfold textOf
  split
  · rename_i root
    rw [root]
    rfl
  · exact words_rooted proper

/-- A name behind a text is one more word. -/
theorem words_behind_slash {text name : CString} (ends : text.getLast? = some 47)
    (proper : Proper name) : words isSlash (text ++ name) = words isSlash text ++ [name] := by
  obtain ⟨front, rfl⟩ := List.getLast?_eq_some_iff.mp ends
  have empty : words isSlash ([] : CString) = [] := words_nil
  rw [List.append_assoc, List.singleton_append, words_slash, words_slash, empty, List.append_nil,
    words_name proper]

/-- A joined text has the words of the directory and the name. -/
theorem words_join (dir : CString) {name : CString} (proper : Proper name) :
    words isSlash (joinText dir name) = words isSlash dir ++ [name] := by
  unfold joinText
  by_cases between : dir ≠ [] ∧ dir.getLast? ≠ some 47
  · rw [if_pos between, List.append_assoc, List.singleton_append, words_slash, words_name proper]
  · rw [if_neg between, List.append_nil]
    by_cases empty : dir = []
    · rw [empty, List.nil_append, words_name proper]
      rfl
    · have ends : dir.getLast? = some 47 := not_not.mp fun other => between ⟨empty, other⟩
      exact words_behind_slash ends proper

/-- A joined text is relative exactly when the directory is. -/
theorem joinText_head (dir : CString) {name : CString} (proper : Proper name) :
    (joinText dir name).head? = some 47 ↔ dir.head? = some 47 := by
  cases dir with
  | nil =>
    obtain ⟨first, rest, rfl⟩ := List.exists_cons_of_ne_nil proper.filled
    have other : first ≠ 47 := fun same => proper.plain (same ▸ List.mem_cons_self)
    refine iff_of_false (fun same => other (Option.some.inj same)) ?_
    intro none
    cases none
  | cons first rest => exact Iff.rfl

/-- A joined text is longer than the directory. -/
theorem joinText_length (dir : CString) {name : CString} (proper : Proper name) :
    dir.length < (joinText dir name).length := by
  have positive := List.length_pos_iff.mpr proper.filled
  unfold joinText
  rw [List.length_append, List.length_append]
  omega

/-- The name is behind the words of the directory where it is looked for. -/
theorem words_joinText {cwd : Cwd} {dir name : CString} {cap : Nat} (proper : Proper name)
    (accepted : ¬ Refused cwd (joinText dir name) cap) :
    words isSlash (absoluteText cwd (joinText dir name)) =
      words isSlash (absoluteText cwd dir) ++ [name] := by
  unfold absoluteText
  by_cases rooted : dir.head? = some 47
  · rw [if_pos rooted, if_pos ((joinText_head dir proper).mpr rooted), words_join dir proper]
  · have relative := (joinText_head dir proper).not.mpr rooted
    rw [if_neg rooted, if_neg relative]
    cases cwd with
    | error rc => exact absurd (.directory relative fun dir given => by cases given) accepted
    | ok text =>
      dsimp only
      rw [words_slash, words_slash, words_join dir proper, List.append_assoc]

/-- The name is behind the components of the directory. -/
theorem components_join {cwd : Cwd} {dir name : CString} {cap : Nat} (proper : Proper name)
    (accepted : ¬ Refused cwd (joinText dir name) cap) :
    components cwd (joinText dir name) = components cwd dir ++ [name] := by
  unfold components
  rw [walk_words, walk_words, words_joinText proper accepted, List.foldl_append]
  exact proper.enter _

/-! ## Normal forms are normal -/

/-- A segment of a name is a name. -/
theorem segment_proper {component : CString} (proper : Proper component) :
    Proper (segment component) where
  filled := segment_ne_nil proper.filled
  dot same := by
    rcases (segment_keeps.stay component).mp (.inr same) with none | dot
    · exact proper.filled none
    · exact proper.dot dot
  dots same := proper.dots ((segment_keeps.up component).mp same)
  plain listed := proper.plain ((snprintf_begins fspNameMax component).mem listed)

/-- The segments of the components are names. -/
theorem segments_proper (cwd : Cwd) (input : CString) :
    ∀ seg ∈ (components cwd input).map segment, Proper seg := by
  intro seg listed
  obtain ⟨component, among, rfl⟩ := List.mem_map.mp listed
  exact segment_proper (walk_proper (absoluteText cwd input) component among)

/-- Segments fit segments. -/
theorem segments_idem (path : Path) : (path.map segment).map segment = path.map segment := by
  rw [List.map_map]
  exact List.map_congr_left fun component _ => snprintf_snprintf _ _

/-- The text of a path of names has the path as its components. -/
theorem components_textOf (cwd : Cwd) {path : Path}
    (proper : ∀ component ∈ path, Proper component) : components cwd (textOf path) = path := by
  obtain ⟨rest, begins⟩ := textOf_head path
  have same : absoluteText cwd (textOf path) = textOf path := if_pos (by rw [begins]; rfl)
  unfold components
  rw [same, walk_textOf proper]

/-- An input that is not refused leads to at most 64 components. -/
theorem components_few {cwd : Cwd} {input : CString} {cap : Nat}
    (accepted : ¬ Refused cwd input cap) : (components cwd input).length ≤ 64 := by
  by_contra many
  refine accepted (.deep ⟨_, List.prefix_refl _, ?_⟩)
  have leads : (words isSlash (absoluteText cwd input)).foldl enter [] = components cwd input :=
    (walk_words [] (absoluteText cwd input)).symm
  rw [leads]
  omega

/-- The text of few segments is normalized to itself. -/
theorem normalize_textOf (cwd : Cwd) {path : Path}
    (proper : ∀ seg ∈ path.map segment, Proper seg) (few : path.length ≤ 64) {cap : Nat}
    (room : max 1 (neededLength path) < cap) :
    fspPathNormalize cwd (some (textOf (path.map segment))) (some cap) =
      .ok (textOf (path.map segment)) := by
  have same := components_textOf cwd proper
  obtain ⟨rest, begins⟩ := textOf_head (path.map segment)
  rw [fspPathNormalize_ok_iff, same, segments_idem]
  refine ⟨accepted_of_few (by rw [begins]; rfl) ?_ ?_, rfl⟩
  · rw [words_textOf proper, List.length_map]
    exact few
  · rw [same, ← rooted_segments, segments_idem, rooted_segments]
    exact room

/-- Normalizing an output again changes nothing. -/
theorem normalize_idem {cwd : Cwd} {input output : CString} {cap : Nat}
    (returned : fspPathNormalize cwd (some input) (some cap) = .ok output) :
    fspPathNormalize cwd (some output) (some cap) = .ok output := by
  obtain ⟨accepted, rfl⟩ := (fspPathNormalize_ok_iff cwd input cap output).mp returned
  apply normalize_textOf cwd (segments_proper cwd input) (components_few accepted)
  exact Nat.lt_of_not_le fun short => accepted (.small short)

/-! ## The directory above -/

/-- A name behind a slash has no slashes at its end. -/
theorem stripSlashes_name {front last : CString} (proper : Proper last) :
    stripSlashes (front ++ 47 :: last).reverse = (front ++ 47 :: last).reverse := by
  obtain ⟨before, byte, rfl⟩ := (List.eq_nil_or_concat last).resolve_left proper.filled
  have other : byte ≠ 47 := fun same => proper.plain (by simp [same])
  have backwards : (front ++ 47 :: before.concat byte).reverse =
      byte :: (before.reverse ++ 47 :: front.reverse) := by simp
  rw [backwards]
  cases before.reverse ++ 47 :: front.reverse with
  | nil => rfl
  | cons second rest => exact if_neg other

/-- The text in front of a name is that in front of the last slash. -/
theorem lastSlash_name (front : CString) {last : CString} (plain : 47 ∉ last) :
    lastSlash (front ++ 47 :: last) = some front := by
  have backwards : (front ++ 47 :: last).reverse = last.reverse ++ 47 :: front.reverse := by simp
  have dropped : (last.reverse ++ 47 :: front.reverse).dropWhile (fun byte => !isSlash byte) =
      47 :: front.reverse := by
    rw [List.dropWhile_append_of_pos]
    · rfl
    · intro byte listed
      have other : byte ≠ 47 := fun same => plain (List.mem_reverse.mp (same ▸ listed))
      rw [isSlash, beq_eq_false_iff_ne.mpr other]
      rfl
  unfold lastSlash
  rw [backwards, dropped]
  exact congrArg some (List.reverse_reverse front)

/-- The parent of a normalized path below the root is the path in front of its last segment, cut to
the buffer. -/
theorem parent_textOf (cwd : Cwd) {front : Path} {last : CString}
    (proper : ∀ seg ∈ (front ++ [last]).map segment, Proper seg)
    (few : (front ++ [last]).length ≤ 64) (room : neededLength (front ++ [last]) < 4096)
    {cap : Nat} (buffer : cap ≠ 0) :
    fspPathParent cwd (some (textOf ((front ++ [last]).map segment))) (some cap) =
      if front = [] then if cap < 2 then .error enametoolong else .ok [47]
      else .ok (snprintf cap (textOf (front.map segment))) := by
  have named : Proper (segment last) := proper _ (by simp)
  have norm := normalize_textOf cwd proper few (show max 1 _ < 4096 by omega)
  have text : textOf ((front ++ [last]).map segment) =
      rooted (front.map segment) ++ 47 :: segment last := by
    rw [List.map_append, List.map_singleton, textOf_snoc]
  unfold fspPathParent
  dsimp only
  rw [if_neg buffer, norm]
  dsimp only
  rw [text, stripSlashes_name named, List.reverse_reverse, lastSlash_name _ named.plain]
  dsimp only
  cases front with
  | nil =>
    have root : rooted (([] : Path).map segment) = [] := rfl
    rw [if_pos root, if_pos rfl]
    by_cases small : cap < 2
    · rw [if_pos small, if_pos small]
    · rw [if_neg small, if_neg small, snprintf_eq (show ([47] : CString).length < cap by
        rw [List.length_singleton]; omega)]
  | cons first others =>
    have filled : segment first ≠ [] := (proper (segment first) (by simp)).filled
    have positive := List.length_pos_iff.mpr filled
    have length : (rooted ((first :: others).map segment)).length =
        1 + (segment first).length + (rooted (others.map segment)).length := by
      show (47 :: segment first ++ rooted (others.map segment)).length = _
      rw [List.length_append, List.length_cons]
      omega
    have below : rooted ((first :: others).map segment) ≠ [] := by
      intro none
      rw [none, List.length_nil] at length
      omega
    rw [if_neg below, if_neg (by omega), if_neg (List.cons_ne_nil _ _)]
    rfl

/-- The length that a path needs grows with each component. -/
theorem neededLength_snoc (path : Path) (component : CString) :
    neededLength (path ++ [component]) = neededLength path + min component.length 255 + 1 := by
  induction path with
  | nil =>
    show min component.length 255 + 1 + 0 = 0 + min component.length 255 + 1
    omega
  | cons first rest ih =>
    show min first.length 255 + 1 + neededLength (rest ++ [component]) =
      min first.length 255 + 1 + neededLength rest + min component.length 255 + 1
    omega

/-- A directory of an accepted joined path is accepted in a buffer that is large enough. -/
theorem directory_accepted {cwd : Cwd} {dir name : CString} {cap : Nat} (proper : Proper name)
    (accepted : ¬ Refused cwd (joinText dir name) cap) :
    ¬ Refused cwd dir (neededLength (components cwd dir) + 2) := by
  have relative := (joinText_head dir proper).not
  have longer := joinText_length dir proper
  intro refused
  cases refused with
  | buffer none => omega
  | directory away missing => exact accepted (.directory (relative.mpr away) missing)
  | long away text given far => exact accepted (.long (relative.mpr away) text given (by omega))
  | deep down =>
    obtain ⟨front, begins, deep⟩ := down
    refine accepted (.deep ⟨front, ?_, deep⟩)
    rw [words_joinText proper accepted]
    exact begins.trans (List.prefix_append _ _)
  | small short => omega

/-- The normalized directory is a text, in any buffer. -/
theorem directory_normalized {cwd : Cwd} {dir name : CString} {cap : Nat} (proper : Proper name)
    (accepted : ¬ Refused cwd (joinText dir name) cap) (parent : CString) :
    (∃ cap, fspPathNormalize cwd (some dir) (some cap) = .ok parent) ↔
      parent = textOf ((components cwd dir).map segment) := by
  constructor
  · rintro ⟨cap, returned⟩
    exact ((fspPathNormalize_ok_iff cwd dir cap parent).mp returned).2
  · intro same
    exact ⟨_, (fspPathNormalize_ok_iff cwd dir _ parent).mpr
      ⟨directory_accepted proper accepted, same⟩⟩

/-- A joined path is the text of the segments of the directory and the name. -/
theorem fspPathJoin_ok_iff (cwd : Cwd) (dir : CString) {name : CString} (proper : Proper name)
    (cap : Nat) (joined : CString) :
    fspPathJoin cwd (some cap) (some dir) (some name) = .ok joined ↔
      ¬ JoinRefused cwd dir name cap ∧
        joined = textOf ((components cwd dir ++ [name]).map segment) := by
  unfold fspPathJoin JoinRefused
  dsimp only
  by_cases buffer : cap = 0
  · rw [if_pos buffer]
    exact iff_of_false (fun found => by cases found) fun both => both.1 (.inr (.buffer buffer))
  · rw [if_neg buffer]
    by_cases far : 4096 < (joinText dir name).length + 1
    · rw [if_pos far]
      exact iff_of_false (fun found => by cases found) fun both => both.1 (.inl far)
    · rw [if_neg far, fspPathNormalize_ok_iff, or_iff_right far]
      refine and_congr_right fun accepted => ?_
      rw [components_join proper accepted]

/-- The path in front of a normalized one fits the buffer of `fsp_path_parent` when the parent is
taken. -/
theorem parent_room {cwd : Cwd} {path : Path} (proper : ∀ seg ∈ path.map segment, Proper seg)
    {cap : Nat} {parent : CString}
    (returned : fspPathParent cwd (some (textOf (path.map segment))) (some cap) = .ok parent) :
    cap ≠ 0 ∧ neededLength path < 4096 := by
  unfold fspPathParent at returned
  dsimp only at returned
  by_cases buffer : cap = 0
  · rw [if_pos buffer] at returned
    cases returned
  · rw [if_neg buffer] at returned
    refine ⟨buffer, Nat.lt_of_not_le fun far => ?_⟩
    cases norm : fspPathNormalize cwd (some (textOf (path.map segment))) (some 4096) with
    | error rc =>
      rw [norm] at returned
      cases returned
    | ok text =>
      obtain ⟨accepted, -⟩ := (fspPathNormalize_ok_iff _ _ _ _).mp norm
      refine accepted (.small ?_)
      rw [components_textOf cwd proper, ← rooted_segments, segments_idem, rooted_segments]
      omega

/-- The parent of a joined path is the normalized directory exactly when one of the calls refuses
its input, the directory is the root, or its normal form fits the buffer of the parent. -/
theorem parentRoundTrips_iff (cwd : Cwd) (dir : CString) {name : CString} (simple : SimpleName name)
    (capJoin capParent : Nat) : RoundTrips cwd dir name capJoin capParent ↔
      JoinRefused cwd dir name capJoin ∨ ParentRefused cwd dir name capParent ∨
        components cwd dir = [] ∨ neededLength (components cwd dir) < capParent := by
  have proper : Proper name := simple.toProper
  have needed : neededLength (components cwd dir ++ [name]) =
      neededLength (components cwd dir) + name.length + 1 := by
    have short := simple.short
    rw [neededLength_snoc]
    omega
  have joins := fspPathJoin_ok_iff cwd dir proper capJoin
  by_cases refused : JoinRefused cwd dir name capJoin
  · refine iff_of_true (fun joined parent joining _ => ?_) (.inl refused)
    exact absurd refused ((joins joined).mp joining).1
  · rw [or_iff_right refused]
    obtain ⟨-, accepted⟩ := not_or.mp refused
    have segments : ∀ seg ∈ (components cwd dir ++ [name]).map segment, Proper seg := by
      rw [← components_join proper accepted]
      exact segments_proper cwd (joinText dir name)
    have few : (components cwd dir ++ [name]).length ≤ 64 := by
      rw [← components_join proper accepted]
      exact components_few accepted
    have normal := directory_normalized proper accepted
    have length (below : components cwd dir ≠ []) :
        (textOf ((components cwd dir).map segment)).length = neededLength (components cwd dir) := by
      have text : textOf ((components cwd dir).map segment) =
          rooted ((components cwd dir).map segment) :=
        if_neg fun none => below (List.map_eq_nil_iff.mp none)
      rw [text]
      exact rooted_segments (components cwd dir)
    constructor
    · intro right
      by_cases far : ParentRefused cwd dir name capParent
      · exact .inl far
      · obtain ⟨buffer, near⟩ := not_or.mp far
        have taken := parent_textOf cwd segments few (by omega) buffer
        refine .inr (or_iff_not_imp_left.mpr fun below => ?_)
        rw [if_neg below] at taken
        have same := (normal _).mp (right _ _ ((joins _).mpr ⟨refused, rfl⟩) taken)
        have room := snprintf_length (textOf ((components cwd dir).map segment))
          (Nat.pos_of_ne_zero buffer)
        rw [same, length below] at room
        exact room
    · intro either joined parent joining taking
      obtain ⟨-, rfl⟩ := (joins joined).mp joining
      obtain ⟨buffer, room⟩ := parent_room segments taking
      rw [parent_textOf cwd segments few (by omega) buffer] at taking
      rw [normal]
      rcases either with (none | far) | root | fits
      · exact absurd none buffer
      · omega
      · rw [if_pos root] at taking
        split at taking
        · cases taking
        · obtain rfl := Except.ok.inj taking
          rw [root]
          rfl
      · split at taking
        · rename_i root
          split at taking
          · cases taking
          · obtain rfl := Except.ok.inj taking
            rw [root]
            rfl
        · rename_i below
          obtain rfl := Except.ok.inj taking
          apply snprintf_eq
          rw [length below]
          exact fits

/-- A joined path has the normalized directory as its parent exactly when a call refuses its input,
the directory is the root, or its normal form fits the buffer of the parent; and normalizing an
output again never changes it. -/
theorem join_parent_iff (cwd : Cwd) (dir name : CString) (simple : SimpleName name)
    (capJoin capParent : Nat) :
    (RoundTrips cwd dir name capJoin capParent ↔
      JoinRefused cwd dir name capJoin ∨ ParentRefused cwd dir name capParent ∨
        components cwd dir = [] ∨ neededLength (components cwd dir) < capParent) ∧
      ∀ input cap output, fspPathNormalize cwd (some input) (some cap) = .ok output →
        fspPathNormalize cwd (some output) (some cap) = .ok output :=
  ⟨parentRoundTrips_iff cwd dir simple capJoin capParent,
    fun _ _ _ returned => normalize_idem returned⟩

/-- The parent of a file in a short directory. -/
theorem short_parent : RoundTrips (.ok (lit "/home")) (lit "/var//log/") (lit "syslog") 64 64 := by
  have simple : SimpleName (lit "syslog") := ⟨by decide, by decide⟩
  exact ((join_parent_iff (.ok (lit "/home")) (lit "/var//log/") (lit "syslog") simple 64 64).1).mpr
    (.inr (.inr (.inr (by decide +kernel))))

/-- A parent that does not fit its buffer is returned without its end. -/
theorem parent_truncated :
    fspPathParent (.ok (lit "/home")) (some (lit "/var/log/syslog")) (some 5) = .ok (lit "/var") ∧
      ¬ RoundTrips (.ok (lit "/home")) (lit "/var/log") (lit "syslog") 64 5 := by
  have simple : SimpleName (lit "syslog") := ⟨by decide, by decide⟩
  have path : lit "/var/log/syslog" =
      textOf ([lit "var", lit "log"] ++ [lit "syslog"] |>.map segment) := by decide +kernel
  have proper : ∀ seg ∈ ([lit "var", lit "log"] ++ [lit "syslog"]).map segment, Proper seg := by
    decide +kernel
  have taken := parent_textOf (.ok (lit "/home")) proper (by decide) (by decide +kernel)
    (show 5 ≠ 0 by decide)
  rw [← path, if_neg (List.cons_ne_nil _ _)] at taken
  have cut : snprintf 5 (textOf ([lit "var", lit "log"].map segment)) = lit "/var" := by
    decide +kernel
  refine ⟨by rw [taken, cut], ?_⟩
  rw [parentRoundTrips_iff _ _ simple]
  rintro (refused | refused | root | fits)
  · rcases refused with far | refused
    · exact absurd far (by decide +kernel)
    · exact accepted_of_few (by decide) (by decide +kernel) (by decide +kernel) refused
  · rcases refused with none | far
    · exact absurd none (by decide)
    · exact absurd far (by decide +kernel)
  · exact absurd root (by decide +kernel)
  · exact absurd fits (by decide +kernel)

end HwrunOs.Fsp
