import Mathlib.Data.Prod.Lex
import Mathlib.Order.PiLex
import HwrunOs.Bus.Metaproto

/-!
# Orders of versions

`hw_proto_version_cmp` of `metaproto.c` compares two versions number by number and stops where
either ends. `hw_proto_version_compat` reads missing numbers as zero. A registered provider is
resolved for a request when its version is compatible with the one that is asked for.
-/

namespace HwrunOs.Bus

open HwrunOs.Bytes

/-! ## Comparing -/

/-- The text from its first digit. -/
def skipToDigit (text : CString) : CString := text.dropWhile fun byte => !isDigit byte

/-- A number at the first digit leaves less text. -/
theorem strtoll_skip {text : CString} (more : skipToDigit text ≠ []) :
    (strtoll (skipToDigit text)).2.length < text.length := by
  have whole := List.takeWhile_append_dropWhile (p := isDigit) (l := skipToDigit text)
  have first : isDigit ((skipToDigit text).head more) = true := by
    have stop := List.head_dropWhile_not (fun byte => !isDigit byte) more
    rw [Bool.not_eq_false'] at stop
    exact stop
  have filled : (skipToDigit text).takeWhile isDigit ≠ [] := by
    obtain ⟨byte, rest, shape⟩ := List.exists_cons_of_ne_nil more
    simp only [shape, List.head_cons] at first
    rw [shape, List.takeWhile_cons_of_pos first]
    exact List.cons_ne_nil _ _
  have numerals : ∀ byte ∈ (skipToDigit text).takeWhile isDigit, isDigit byte = true :=
    fun byte found => List.mem_takeWhile_imp found
  have ends : ∀ byte ∈ ((skipToDigit text).dropWhile isDigit).head?, isDigit byte = false := by
    intro byte found
    have other := List.head?_dropWhile_not isDigit (skipToDigit text)
    rw [Option.mem_def.mp found] at other
    simpa using other
  have read := strtoll_digits filled numerals ends
  have taken : 0 < ((skipToDigit text).takeWhile isDigit).length := List.length_pos_iff.mpr filled
  have parts := congrArg List.length whole
  have short : (skipToDigit text).length ≤ text.length :=
    (List.dropWhile_sublist _).length_le
  rw [whole] at read
  rw [List.length_append] at parts
  rw [read]
  show ((skipToDigit text).dropWhile isDigit).length < text.length
  omega

/-- The loop of `hw_proto_version_cmp`. -/
def versionCmpLoop (a b : CString) : Int :=
  if a = [] ∨ b = [] then 0
  else if more : skipToDigit a = [] ∨ skipToDigit b = [] then 0
  else
    let ma := (strtoll (skipToDigit a)).1
    let mb := (strtoll (skipToDigit b)).1
    if ma ≠ mb then (if ma < mb then -1 else 1)
    else versionCmpLoop (strtoll (skipToDigit a)).2 (strtoll (skipToDigit b)).2
termination_by a.length
decreasing_by exact strtoll_skip (not_or.mp more).1

/-- `hw_proto_version_cmp`. -/
def hwProtoVersionCmp (a b : Option CString) : Int :=
  match a, b with
  | some a, some b => versionCmpLoop a b
  | _, _ => 0

/-! ## Dotted numeric versions -/

/-- A segment: at least one digit. -/
structure Segment where
  /-- The digits. -/
  digits : CString
  /-- There is one. -/
  filled : digits ≠ []
  /-- Digits only. -/
  numeric : ∀ byte ∈ digits, isDigit byte = true

/-- A dotted numeric version: a segment and those behind it. -/
structure Version where
  /-- The first segment. -/
  major : Segment
  /-- The segments behind it. -/
  more : List Segment

/-- Segments, each behind a dot. -/
def dotted : List Segment → CString
  | [] => []
  | segment :: rest => 46 :: (segment.digits ++ dotted rest)

/-- The text of a version. -/
def Version.text (version : Version) : CString := version.major.digits ++ dotted version.more

/-- The numbers of a version. -/
def Version.values (version : Version) : List Nat :=
  (version.major :: version.more).map fun segment => digitsValue segment.digits

/-- The numbers of a version, with a zero for every missing one. -/
def Version.padded (version : Version) (index : Nat) : Nat := version.values.getD index 0

/-- A number as a `long` holds it. -/
def longOf (value : Nat) : Int := min (value : Int) (2 ^ 63 - 1)

/-- The comparison of numbers up to the end of the shorter list. -/
def valuesCmp : List Nat → List Nat → Int
  | a :: as, b :: bs =>
    if longOf a ≠ longOf b then (if longOf a < longOf b then -1 else 1) else valuesCmp as bs
  | _, _ => 0

/-- What a comparison has to satisfy among some versions. -/
structure Consistent (cmp : Version → Version → Int) (versions : Set Version) : Prop where
  /-- It is antisymmetric. -/
  antisymm : ∀ a ∈ versions, ∀ b ∈ versions, cmp a b = -cmp b a
  /-- Being at most is transitive. -/
  le_trans : ∀ a ∈ versions, ∀ b ∈ versions, ∀ c ∈ versions,
    cmp a b ≤ 0 → cmp b c ≤ 0 → cmp a c ≤ 0
  /-- Being below is transitive. -/
  lt_trans : ∀ a ∈ versions, ∀ b ∈ versions, ∀ c ∈ versions,
    cmp a b < 0 → cmp b c < 0 → cmp a c < 0
  /-- Comparing equal is transitive. -/
  eq_trans : ∀ a ∈ versions, ∀ b ∈ versions, ∀ c ∈ versions,
    cmp a b = 0 → cmp b c = 0 → cmp a c = 0
  /-- Versions that compare equal have the same numbers. -/
  equal : ∀ a ∈ versions, ∀ b ∈ versions, cmp a b = 0 → a.padded = b.padded

/-- Two versions have the same numbers, or differ in a segment that both have. -/
def ToldApart (a b : Version) : Prop :=
  a.padded = b.padded ∨ ∃ index, index < a.values.length ∧ index < b.values.length ∧
    longOf (a.padded index) ≠ longOf (b.padded index)

/-! ## From texts to numbers -/

/-- A segment behind bytes that are no digits is read. -/
theorem skipToDigit_segment {front : CString} (skipped : ∀ byte ∈ front, isDigit byte = false)
    (segment : Segment) (rest : CString) :
    skipToDigit (front ++ (segment.digits ++ rest)) = segment.digits ++ rest := by
  obtain ⟨first, digits, shape⟩ := List.exists_cons_of_ne_nil segment.filled
  have digit := segment.numeric first (by rw [shape]; exact List.mem_cons_self)
  rw [skipToDigit, List.dropWhile_append_of_pos fun byte found => by simp [skipped byte found],
    shape, List.cons_append, List.dropWhile_cons_of_neg (by simp [digit])]

/-- Behind a segment stands no digit. -/
theorem dotted_ends (segments : List Segment) :
    ∀ byte ∈ (dotted segments).head?, isDigit byte = false := by
  cases segments with
  | nil => simp [dotted]
  | cons segment rest =>
    intro byte found
    obtain rfl : 46 = byte := Option.some.inj found
    decide

/-- One pass of the loop. -/
theorem versionCmpLoop_step {front other : CString}
    (skipped : ∀ byte ∈ front, isDigit byte = false)
    (otherSkipped : ∀ byte ∈ other, isDigit byte = false) (a b : Segment)
    (as bs : List Segment) :
    versionCmpLoop (front ++ (a.digits ++ dotted as)) (other ++ (b.digits ++ dotted bs)) =
      if longOf (digitsValue a.digits) ≠ longOf (digitsValue b.digits) then
        (if longOf (digitsValue a.digits) < longOf (digitsValue b.digits) then -1 else 1)
      else versionCmpLoop (dotted as) (dotted bs) := by
  have left := strtoll_digits a.filled a.numeric (dotted_ends as)
  have right := strtoll_digits b.filled b.numeric (dotted_ends bs)
  rw [versionCmpLoop, if_neg (by simp [a.filled, b.filled]),
    skipToDigit_segment skipped a, skipToDigit_segment otherSkipped b,
    dif_neg (by simp [a.filled, b.filled]), left, right]
  rfl

/-- The loop behind the first segments. -/
theorem versionCmpLoop_dotted (as bs : List Segment) :
    versionCmpLoop (dotted as) (dotted bs) =
      valuesCmp (as.map fun segment => digitsValue segment.digits)
        (bs.map fun segment => digitsValue segment.digits) := by
  have dot : ∀ byte ∈ [46], isDigit byte = false := by
    intro byte found
    rw [List.mem_singleton.mp found]
    decide
  induction as generalizing bs with
  | nil =>
    rw [versionCmpLoop, if_pos (.inl rfl)]
    rfl
  | cons a as ih =>
    cases bs with
    | nil =>
      rw [versionCmpLoop, if_pos (.inr rfl)]
      rfl
    | cons b bs =>
      have step := versionCmpLoop_step dot dot a b as bs
      rw [ih bs] at step
      exact step

/-- Two versions are compared by their numbers. -/
theorem hwProtoVersionCmp_text (a b : Version) :
    hwProtoVersionCmp (some a.text) (some b.text) = valuesCmp a.values b.values := by
  have nothing : ∀ byte ∈ ([] : CString), isDigit byte = false := by simp
  have step := versionCmpLoop_step nothing nothing a.major b.major a.more b.more
  rw [versionCmpLoop_dotted] at step
  exact step

/-! ## Orders -/

/-- The numbers of a list as `long`s, in lexicographic order. -/
def rank (values : List Nat) : Lex (Nat → Int) := toLex fun index => longOf (values.getD index 0)

/-- Comparing the other way changes the sign. -/
theorem valuesCmp_swap (as bs : List Nat) : valuesCmp as bs = -valuesCmp bs as := by
  induction as generalizing bs with
  | nil => cases bs <;> rfl
  | cons a as ih =>
    cases bs with
    | nil => rfl
    | cons b bs =>
      have later := ih bs
      rw [valuesCmp, valuesCmp]
      split <;> split <;> (try split) <;> (try split) <;> omega

/-- A negative comparison is the lexicographic order. -/
theorem rank_lt_of_neg {as bs : List Nat} (less : valuesCmp as bs < 0) : rank as < rank bs := by
  induction as generalizing bs with
  | nil => cases bs <;> cases less
  | cons a as ih =>
    cases bs with
    | nil => cases less
    | cons b bs =>
      rw [valuesCmp] at less
      by_cases same : longOf a = longOf b
      · rw [if_neg (not_not.mpr same)] at less
        obtain ⟨index, before, here⟩ := ih less
        refine ⟨index + 1, ?_, here⟩
        intro earlier below
        cases earlier with
        | zero => exact same
        | succ earlier => exact before earlier (Nat.lt_of_succ_lt_succ below)
      · rw [if_pos same] at less
        by_cases below : longOf a < longOf b
        · exact ⟨0, fun _ none => absurd none (Nat.not_lt_zero _), below⟩
        · rw [if_neg below] at less
          cases less

/-- A comparison is zero exactly when the numbers that both lists have are equal as `long`s. -/
theorem valuesCmp_eq_zero (as bs : List Nat) : valuesCmp as bs = 0 ↔
    ∀ index, index < as.length → index < bs.length →
      longOf (as.getD index 0) = longOf (bs.getD index 0) := by
  induction as generalizing bs with
  | nil => simp [valuesCmp]
  | cons a as ih =>
    cases bs with
    | nil => simp [valuesCmp]
    | cons b bs =>
      rw [valuesCmp]
      by_cases same : longOf a = longOf b
      · rw [if_neg (not_not.mpr same), ih bs]
        constructor
        · intro later index inside otherInside
          cases index with
          | zero => exact same
          | succ index =>
            exact later index (Nat.lt_of_succ_lt_succ inside) (Nat.lt_of_succ_lt_succ otherInside)
        · intro all index inside otherInside
          exact all (index + 1) (Nat.succ_lt_succ inside) (Nat.succ_lt_succ otherInside)
      · rw [if_pos same]
        constructor
        · intro zero
          split at zero <;> cases zero
        · intro all
          exact absurd (all 0 (Nat.succ_pos _) (Nat.succ_pos _)) same


/-- Among versions that are told apart, equal comparison is equality of the numbers. -/
theorem padded_of_zero {a b : Version} (told : ToldApart a b)
    (zero : valuesCmp a.values b.values = 0) : a.padded = b.padded := by
  rcases told with same | ⟨index, inside, otherInside, different⟩
  · exact same
  · exact absurd ((valuesCmp_eq_zero a.values b.values).mp zero index inside otherInside) different

/-- The same numbers have the same rank. -/
theorem rank_of_padded {a b : Version} (same : a.padded = b.padded) :
    rank a.values = rank b.values := by
  have each : ∀ index, longOf (a.values.getD index 0) = longOf (b.values.getD index 0) :=
    fun index => congrArg longOf (congrFun same index)
  exact congrArg toLex (funext each)

/-- Among versions that are told apart, the comparison is the lexicographic order. -/
theorem valuesCmp_rank {a b : Version} (told : ToldApart a b) :
    (valuesCmp a.values b.values < 0 ↔ rank a.values < rank b.values) ∧
      (valuesCmp a.values b.values = 0 ↔ rank a.values = rank b.values) := by
  have swap := valuesCmp_swap a.values b.values
  have zero (equal : valuesCmp a.values b.values = 0) : rank a.values = rank b.values :=
    rank_of_padded (padded_of_zero told equal)
  have above (more : 0 < valuesCmp a.values b.values) : rank b.values < rank a.values :=
    rank_lt_of_neg (by omega)
  rcases lt_trichotomy (valuesCmp a.values b.values) 0 with less | equal | more
  · have lower := rank_lt_of_neg less
    exact ⟨iff_of_true less lower, iff_of_false (by omega) (ne_of_lt lower)⟩
  · have same := zero equal
    exact ⟨iff_of_false (by omega) (not_lt_of_ge (ge_of_eq same)), iff_of_true equal same⟩
  · have higher := above more
    exact ⟨iff_of_false (by omega) (not_lt_of_gt higher), iff_of_false (by omega) (ne_of_gt higher)⟩

/-- The comparison of two versions by the code. -/
def versionCmp (a b : Version) : Int := hwProtoVersionCmp (some a.text) (some b.text)

/-- The comparison is consistent among some versions exactly when every two of them have the same
numbers or differ, as `long`s, in a segment that both have. -/
theorem versionCmp_consistent_iff (versions : Set Version) :
    Consistent versionCmp versions ↔ ∀ a ∈ versions, ∀ b ∈ versions, ToldApart a b := by
  have compared (a b : Version) : versionCmp a b = valuesCmp a.values b.values :=
    hwProtoVersionCmp_text a b
  constructor
  · intro consistent a inside b otherInside
    by_cases zero : versionCmp a b = 0
    · exact .inl (consistent.equal a inside b otherInside zero)
    · right
      rw [compared, valuesCmp_eq_zero] at zero
      simp only [not_forall] at zero
      obtain ⟨index, inside, otherInside, different⟩ := zero
      exact ⟨index, inside, otherInside, different⟩
  · intro told
    have less {a b : Version} (inside : a ∈ versions) (otherInside : b ∈ versions) :
        versionCmp a b < 0 ↔ rank a.values < rank b.values := by
      rw [compared]
      exact (valuesCmp_rank (told a inside b otherInside)).1
    have equal {a b : Version} (inside : a ∈ versions) (otherInside : b ∈ versions) :
        versionCmp a b = 0 ↔ rank a.values = rank b.values := by
      rw [compared]
      exact (valuesCmp_rank (told a inside b otherInside)).2
    have most {a b : Version} (inside : a ∈ versions) (otherInside : b ∈ versions) :
        versionCmp a b ≤ 0 ↔ rank a.values ≤ rank b.values := by
      rw [le_iff_lt_or_eq, less inside otherInside, equal inside otherInside]
      exact le_iff_lt_or_eq.symm
    constructor
    · intro a _ b _
      rw [compared, compared]
      exact valuesCmp_swap a.values b.values
    · intro a first b second c third
      rw [most first second, most second third, most first third]
      exact le_trans
    · intro a first b second c third
      rw [less first second, less second third, less first third]
      exact lt_trans
    · intro a first b second c third
      rw [equal first second, equal second third, equal first third]
      exact Eq.trans
    · intro a first b second zero
      rw [compared] at zero
      exact padded_of_zero (told a first b second) zero

/-- The segment of a number. -/
def Segment.of (value : Nat) : Segment :=
  ⟨decimal value, decimal_ne_nil value, decimal_digits value⟩

/-- `1.2` compares equal to `1`, which compares equal to `1.3`, and is below `1.3`. -/
theorem version_cut_short :
    versionCmp ⟨.of 1, [.of 2]⟩ ⟨.of 1, []⟩ = 0 ∧ versionCmp ⟨.of 1, []⟩ ⟨.of 1, [.of 3]⟩ = 0 ∧
      versionCmp ⟨.of 1, [.of 2]⟩ ⟨.of 1, [.of 3]⟩ = -1 ∧
      ¬ Consistent versionCmp Set.univ := by
  have compared (a b : Version) : versionCmp a b = valuesCmp a.values b.values :=
    hwProtoVersionCmp_text a b
  have first : versionCmp ⟨.of 1, [.of 2]⟩ ⟨.of 1, []⟩ = 0 := by
    rw [compared]
    decide +kernel
  have second : versionCmp ⟨.of 1, []⟩ ⟨.of 1, [.of 3]⟩ = 0 := by
    rw [compared]
    decide +kernel
  have last : versionCmp ⟨.of 1, [.of 2]⟩ ⟨.of 1, [.of 3]⟩ = -1 := by
    rw [compared]
    decide +kernel
  refine ⟨first, second, last, fun consistent => ?_⟩
  have equal := consistent.eq_trans _ trivial _ trivial _ trivial first second
  rw [last] at equal
  cases equal

/-! ## Compatibility -/

/-- A number is read from the front of the version. -/
def Parses (version : CString) : Prop := (versionSegments version).1 ≠ 0

/-- The major version that is read. -/
def majorOf (version : CString) : Int := (versionSegments version).2.1

/-- The minor version and the patch that are read, in lexicographic order. -/
def levelOf (version : CString) : Lex (Int × Int) :=
  toLex ((versionSegments version).2.2.1, (versionSegments version).2.2.2)

/-- Versions are compatible when both parse, the majors are equal and the level is not below. -/
theorem hwProtoVersionCompat_iff (have_ req : CString) :
    hwProtoVersionCompat have_ req = true ↔
      Parses have_ ∧ Parses req ∧ majorOf have_ = majorOf req ∧ levelOf req ≤ levelOf have_ := by
  unfold hwProtoVersionCompat Parses majorOf levelOf
  rw [Prod.Lex.toLex_le_toLex]
  generalize versionSegments have_ = had
  generalize versionSegments req = asked
  obtain ⟨hn, hma, hmi, hpa⟩ := had
  obtain ⟨rn, rma, rmi, rpa⟩ := asked
  dsimp only
  split
  · rename_i unparsed
    simp only [Bool.false_eq_true, false_iff]
    omega
  split
  · rename_i other
    simp only [Bool.false_eq_true, false_iff]
    omega
  split
  · simp only [Bool.false_eq_true, false_iff]
    omega
  split
  · simp only [Bool.false_eq_true, false_iff]
    omega
  · simp only [true_iff]
    omega

/-- Compatibility is reflexive on what parses. -/
theorem compat_self (version : CString) :
    hwProtoVersionCompat version version = true ↔ Parses version := by
  rw [hwProtoVersionCompat_iff]
  constructor
  · exact And.left
  · intro parses
    exact ⟨parses, parses, rfl, le_refl _⟩

/-- Compatibility is transitive. -/
theorem compat_trans {a b c : CString} (first : hwProtoVersionCompat a b = true)
    (second : hwProtoVersionCompat b c = true) : hwProtoVersionCompat a c = true := by
  rw [hwProtoVersionCompat_iff] at first second ⊢
  obtain ⟨parses, -, major, level⟩ := first
  obtain ⟨-, others, otherMajor, otherLevel⟩ := second
  exact ⟨parses, others, major.trans otherMajor, otherLevel.trans level⟩

/-- One of two versions with the same major is compatible with the other. -/
theorem compat_total {a b : CString} (first : Parses a) (second : Parses b)
    (major : majorOf a = majorOf b) :
    hwProtoVersionCompat a b = true ∨ hwProtoVersionCompat b a = true := by
  rw [hwProtoVersionCompat_iff, hwProtoVersionCompat_iff]
  rcases le_total (levelOf b) (levelOf a) with level | level
  · exact .inl ⟨first, second, major, level⟩
  · exact .inr ⟨second, first, major.symm, level⟩

/-! ## Replacing a provider -/

/-- A route satisfies a request. -/
def Route.answers (protocol : CString) (versionReq : Option CString) (route : Route) : Bool :=
  route.protocol == protocol &&
    match versionReq with
    | none | some [] => true
    | some req => hwProtoVersionCompat route.version req

/-- The first route that satisfies a request is its answer. -/
theorem hwMetaprotoResolve_eq (registry : Registry) (protocol : CString)
    (versionReq : Option CString) :
    hwMetaprotoResolve registry protocol versionReq =
      registry.routes.find? (Route.answers protocol versionReq) := rfl

/-- A compatible route satisfies what the other does. -/
theorem answers_of_compat {old new : Route} {protocol : CString} {versionReq : Option CString}
    (same : new.protocol = old.protocol)
    (newer : hwProtoVersionCompat new.version old.version = true)
    (answers : old.answers protocol versionReq = true) :
    new.answers protocol versionReq = true := by
  obtain ⟨named, satisfied⟩ := (Bool.and_eq_true _ _).mp answers
  apply (Bool.and_eq_true _ _).mpr
  refine ⟨by rw [same]; exact named, ?_⟩
  cases versionReq with
  | none => rfl
  | some req =>
    cases req with
    | nil => rfl
    | cons byte rest => exact compat_trans newer satisfied

/-- A registry with a compatible route satisfies what the other route does. -/
theorem resolve_of_compat {old new : Route} {registry : Registry} {protocol : CString}
    {versionReq : Option CString} (same : new.protocol = old.protocol)
    (newer : hwProtoVersionCompat new.version old.version = true)
    (answers : old.answers protocol versionReq = true) (listed : new ∈ registry.routes) :
    ∃ route, hwMetaprotoResolve registry protocol versionReq = some route ∧
      route.answers protocol versionReq = true := by
  have satisfied := answers_of_compat same newer answers
  have found : (registry.routes.find? (Route.answers protocol versionReq)).isSome = true :=
    List.find?_isSome.mpr ⟨new, listed, satisfied⟩
  obtain ⟨route, resolved⟩ := Option.isSome_iff_exists.mp found
  exact ⟨route, resolved, List.find?_some resolved⟩

/-- In a list whose first element of a kind is replaced by a better one, a search that found that
element finds the better one. -/
theorem find?_replaceF {α : Type} {kind wanted : α → Bool} {change : α → α} {old : α}
    (list : List α) (first : list.find? kind = some old) (better : wanted (change old) = true)
    (found : list.find? wanted = some old) :
    (list.replaceF fun item => if kind item then some (change item) else none).find? wanted =
      some (change old) := by
  induction list with
  | nil => cases first
  | cons head tail ih =>
    rw [List.replaceF_cons]
    by_cases here : kind head = true
    · rw [List.find?_cons_of_pos here] at first
      obtain rfl := Option.some.inj first
      simp only [here, if_true]
      exact List.find?_cons_of_pos better
    · have other : head ≠ old := by
        rintro rfl
        exact here (List.find?_some first)
      have unwanted : ¬ wanted head = true := by
        intro hit
        rw [List.find?_cons_of_pos hit] at found
        exact other (Option.some.inj found)
      rw [List.find?_cons_of_neg here] at first
      rw [List.find?_cons_of_neg unwanted] at found
      simp only [here, if_false, Bool.false_eq_true]
      rw [List.find?_cons_of_neg unwanted]
      exact ih first found

/-- A provider that registers again with a compatible version is the answer wherever it was. -/
theorem resolve_updated {registry : Registry} {protocol pluginId version : CString}
    {implementation : Implementation} {alloc : Bool} {old : Route} {versionReq : Option CString}
    (ready : registry.initialized = true)
    (provider : registry.routes.find? (Route.isOf protocol pluginId) = some old)
    (newer : hwProtoVersionCompat (snprintf 16 version) old.version = true)
    (resolved : hwMetaprotoResolve registry protocol versionReq = some old) :
    hwMetaprotoResolve (hwMetaprotoRegister registry protocol (some version) pluginId
      implementation alloc).1 protocol versionReq =
        some (old.update (some version) implementation) := by
  have answers : old.answers protocol versionReq = true := List.find?_some resolved
  have stored : (old.update (some version) implementation).version = snprintf 16 version := rfl
  have same : (old.update (some version) implementation).protocol = old.protocol := rfl
  rw [← stored] at newer
  have better : (old.update (some version) implementation).answers protocol versionReq = true :=
    answers_of_compat same newer answers
  have listed : registry.routes.any (Route.isOf protocol pluginId) = true := by
    rw [List.any_eq_true]
    exact ⟨old, List.mem_of_find?_eq_some provider, List.find?_some provider⟩
  rw [hwMetaprotoRegister, if_neg (by simp [ready]), if_pos listed]
  exact find?_replaceF registry.routes provider better resolved

/-- Another provider with a compatible version that registers is the answer, and stays it when the
old provider is removed. -/
theorem resolve_replaced {registry : Registry} {protocol pluginId other version : CString}
    {implementation : Implementation} {old : Route} {versionReq : Option CString}
    (ready : registry.initialized = true)
    (unknown : registry.routes.any (Route.isOf protocol other) = false)
    (apart : snprintf 64 other ≠ pluginId) (short : old.protocol.length < 64)
    (newer : hwProtoVersionCompat (snprintf 16 version) old.version = true)
    (answers : old.answers protocol versionReq = true) :
    hwMetaprotoResolve (hwMetaprotoUnregister (hwMetaprotoRegister registry protocol
      (some version) other implementation true).1 protocol pluginId).1 protocol versionReq =
        some (newRoute protocol (some version) other implementation) := by
  have named : old.protocol = protocol :=
    beq_iff_eq.mp ((Bool.and_eq_true _ _).mp answers).1
  have whole : snprintf 64 protocol = old.protocol := by
    rw [← named]
    exact snprintf_eq short
  have better : (newRoute protocol (some version) other implementation).answers protocol
      versionReq = true := answers_of_compat whole newer answers
  have kept : (newRoute protocol (some version) other implementation).isOf protocol pluginId =
      false := by
    have different : (snprintf 64 other == pluginId) = false := beq_eq_false_iff_ne.mpr apart
    show (_ && (snprintf 64 other == pluginId)) = false
    rw [different, Bool.and_false]
  have registered : (hwMetaprotoRegister registry protocol (some version) other implementation
      true).1.routes = newRoute protocol (some version) other implementation ::
        registry.routes := by
    rw [hwMetaprotoRegister, if_neg (by simp [ready]), if_neg (by simp [unknown]), if_pos rfl]
  unfold hwMetaprotoUnregister
  split
  · rw [hwMetaprotoResolve_eq, registered, List.eraseP_cons_of_neg (by simp [kept])]
    exact List.find?_cons_of_pos better
  · rw [hwMetaprotoResolve_eq, registered]
    exact List.find?_cons_of_pos better

/-- Compatibility is a preorder on the versions that parse, never across majors, total within one
major, and a provider with a compatible version satisfies what the one it replaces did. -/
theorem compat_preorder :
    (∀ version, hwProtoVersionCompat version version = true ↔ Parses version) ∧
    (∀ a b c, hwProtoVersionCompat a b = true → hwProtoVersionCompat b c = true →
      hwProtoVersionCompat a c = true) ∧
    (∀ a b, hwProtoVersionCompat a b = true → Parses a ∧ Parses b ∧ majorOf a = majorOf b) ∧
    (∀ a b, Parses a → Parses b → majorOf a = majorOf b →
      hwProtoVersionCompat a b = true ∨ hwProtoVersionCompat b a = true) ∧
    (∀ (old new : Route) registry protocol versionReq, new.protocol = old.protocol →
      hwProtoVersionCompat new.version old.version = true → new ∈ registry.routes →
      old.answers protocol versionReq = true →
      new.answers protocol versionReq = true ∧
        ∃ route, hwMetaprotoResolve registry protocol versionReq = some route ∧
          route.answers protocol versionReq = true) ∧
    (∀ (registry : Registry) protocol pluginId version implementation alloc old versionReq,
      registry.initialized = true →
      registry.routes.find? (Route.isOf protocol pluginId) = some old →
      hwProtoVersionCompat (snprintf 16 version) old.version = true →
      hwMetaprotoResolve registry protocol versionReq = some old →
      hwMetaprotoResolve (hwMetaprotoRegister registry protocol (some version) pluginId
        implementation alloc).1 protocol versionReq =
          some (old.update (some version) implementation)) ∧
    (∀ (registry : Registry) protocol pluginId other version implementation (old : Route)
      versionReq, registry.initialized = true →
      registry.routes.any (Route.isOf protocol other) = false →
      snprintf 64 other ≠ pluginId → old.protocol.length < 64 →
      hwProtoVersionCompat (snprintf 16 version) old.version = true →
      old.answers protocol versionReq = true →
      hwMetaprotoResolve (hwMetaprotoUnregister (hwMetaprotoRegister registry protocol
        (some version) other implementation true).1 protocol pluginId).1 protocol versionReq =
          some (newRoute protocol (some version) other implementation)) := by
  refine ⟨compat_self, fun a b c => compat_trans, ?_, fun a b => compat_total, ?_, ?_, ?_⟩
  · intro a b compatible
    obtain ⟨first, second, major, -⟩ := (hwProtoVersionCompat_iff a b).mp compatible
    exact ⟨first, second, major⟩
  · intro old new registry protocol versionReq same newer listed answers
    exact ⟨answers_of_compat same newer answers, resolve_of_compat same newer answers listed⟩
  · intro registry protocol pluginId version implementation alloc old versionReq
    exact resolve_updated
  · intro registry protocol pluginId other version implementation old versionReq
    exact resolve_replaced

end HwrunOs.Bus
