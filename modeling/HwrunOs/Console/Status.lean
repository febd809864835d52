import HwrunOs.Console.Queue

/-!
# The counters of a session

`console_status` reports how many bytes were written to a session and how many lines can be read.
The first counter is kept by `sess_append`, and `console_banner` sets it back; the second is
counted from the buffer.
-/

namespace HwrunOs.Console

open HwrunOs.Blocks HwrunOs.Bytes HwrunOs.Runs

variable {γ : Type}

/-! ## Banners -/

/-- What a banner finds of memory. -/
structure BannerMemory where
  /-- There is memory for the escaped text. -/
  copy : Bool
  /-- For the append of the text. -/
  text : Option (Nat → UInt8)
  /-- For the append of the newline. -/
  feed : Option (Nat → UInt8)

/-- The loop of `console_banner`: a newline becomes a backslash and an `n`. -/
def escapeBanner (text : CString) : CString :=
  text.flatMap fun byte => if byte = newline then [92, 110] else [byte]

/-- An empty session buffer with its counter set back. -/
def Session.emptied (s : Session γ) : Session γ := { s with buffer := .null, written := 0 }

/-- `console_banner`, with what the output callback gets. -/
def consoleBanner (s : Session γ) (text : Option CString) (memory : BannerMemory) :
    Session γ × Outcome × Option (γ × List UInt8) :=
  match s.active, text with
  | true, some text =>
    if memory.copy then
      match s.emptied.append (escapeBanner text) memory.text with
      | none => (s.emptied, .code enomem, none)
      | some titled =>
        match titled.append [newline] memory.feed with
        | none => (titled, .code enomem, none)
        | some ended => (ended, .code 0, s.outCb.map fun callback => (callback, text))
    else (s.emptied, .code enomem, none)
  | _, _ => (s, .code einval, none)

/-! ## The status -/

/-- `hw_console_info_t`. -/
structure ConsoleInfo where
  /-- The name. -/
  name : Field 32
  /-- The number. -/
  id : Nat
  /-- Whether it is not closed. -/
  active : Bool
  /-- How many whole lines can be read. -/
  lines : Nat
  /-- How many bytes were written. -/
  written : Nat
  /-- How many bytes are buffered. -/
  buffered : Nat

/-- `sess_count_lines`. -/
def sessCountLines (s : Session γ) : Nat := s.buffer.contents.countP (· == newline)

/-- `console_status`, for a caller with a place for the result or without. -/
def consoleStatus (s : Session γ) (out : Bool) : Int × Option ConsoleInfo :=
  if s.active && out then
    (0, some ⟨s.name, s.id, s.active, sessCountLines s, s.written, s.buffer.len⟩)
  else (einval, none)

/-! ## Runs -/

/-- A call on a session. -/
inductive Use where
  /-- A write, a read or a clear. -/
  | call (call : Call)
  /-- `console_banner`. -/
  | banner (text : Option CString) (memory : BannerMemory)

/-- The session after a call. -/
def useStep (s : Session γ) : Use → Session γ
  | .call call => (sessionStep s call).1
  | .banner text memory => (consoleBanner s text memory).1

/-- The bytes that a banner appends. -/
def bannerBytes (s : Session γ) (text : CString) (memory : BannerMemory) : List UInt8 :=
  if memory.copy then
    match s.emptied.append (escapeBanner text) memory.text with
    | none => []
    | some titled =>
      match titled.append [newline] memory.feed with
      | none => escapeBanner text
      | some _ => escapeBanner text ++ [newline]
  else []

/-- The bytes that a call on an active session appends. -/
def appended (s : Session γ) : Use → List UInt8
  | .call (.write (some data) memory) => if (s.append data memory).isSome then data else []
  | .call _ => []
  | .banner (some text) memory => bannerBytes s text memory
  | .banner none _ => []

/-- A session with the number of bytes appended since it was opened. -/
structure Counted (γ : Type) where
  /-- The session. -/
  session : Session γ
  /-- The bytes appended, without a bound. -/
  total : Nat

/-- A call, with the bytes that it appends. -/
def countStep (state : Counted γ) (use : Use) : Counted γ :=
  ⟨useStep state.session use, state.total + (appended state.session use).length⟩

/-- A read with a buffer of that size. -/
def readWith (cap : Nat) : Call := .readLine ⟨true, cap, true⟩

/-- That many reads with a large buffer succeed, and the next finds no whole line. -/
def ReadsLeft (s : Session γ) (count : Nat) : Prop :=
  ∀ cap, s.buffer.len < cap →
    (∀ entry ∈ trace s (List.replicate count (readWith cap)), entry.2.rc = 0) ∧
      (sessionStep (after s (List.replicate count (readWith cap))) (readWith cap)).2.rc = eagain

/-- The status reports the bytes appended and the reads left. -/
def Reports (state : Counted γ) : Prop :=
  ∃ info, consoleStatus state.session true = (0, some info) ∧ info.written = state.total ∧
    ReadsLeft state.session info.lines

/-- After the call the status reports what it should, and no fewer bytes than before. -/
def CountsRight (state : Counted γ) (use : Use) : Prop :=
  Reports (countStep state use) ∧
    state.session.written ≤ (countStep state use).session.written

/-- A banner comes before any byte was appended, and the counter has room for what is appended. -/
def InOrder (state : Counted γ) (use : Use) : Prop :=
  (∀ text memory, use = .banner (some text) memory → state.session.written = 0) ∧
    state.session.written + (appended state.session use).length < 2 ^ 64

/-! ## Lines -/

/-- A read with a large buffer takes a line where there is one. -/
theorem read_large {s : Session γ} (active : s.active = true) {cap : Nat}
    (large : s.buffer.len < cap) :
    (sessCountLines s = 0 ∧ (sessionStep s (readWith cap)).2.rc = eagain) ∨
    ((sessionStep s (readWith cap)).2.rc = 0 ∧ (sessionStep s (readWith cap)).1.active = true ∧
      (sessionStep s (readWith cap)).1.buffer.len < cap ∧
      sessCountLines s = sessCountLines (sessionStep s (readWith cap)).1 + 1) := by
  obtain ⟨stays, contents, outcome⟩ := consoleReadLine_spec active ⟨true, cap, true⟩
  have length := s.buffer.length_contents
  have good : (true && decide (cap ≠ 0) && true) = true := by
    have positive : cap ≠ 0 := by omega
    simp [positive]
  cases cut : cutAt newline s.buffer.contents with
  | none =>
    left
    have absent : newline ∉ s.buffer.contents := by
      rw [cutAt_idxOf?, Option.map_eq_none_iff] at cut
      exact List.idxOf?_eq_none_iff.mp cut
    have nothing : queueRead s.buffer.contents ⟨true, cap, true⟩ =
        (s.buffer.contents, ⟨eagain, none, some 0⟩) := by
      rw [queueRead, if_pos good, cut]
    rw [nothing] at outcome
    refine ⟨?_, congrArg Outcome.rc outcome⟩
    rw [sessCountLines, List.countP_eq_zero]
    intro byte found
    simp only [beq_iff_eq]
    rintro rfl
    exact absent found
  | some parts =>
    right
    obtain ⟨line, rest⟩ := parts
    obtain ⟨whole, plain⟩ := cutAt_parts cut
    have sum : s.buffer.len = line.length + (rest.length + 1) := by
      rw [← length, whole, List.length_append, List.length_cons]
    have short : ¬ cap ≤ line.length := by omega
    have taken : queueRead s.buffer.contents ⟨true, cap, true⟩ =
        (rest, ⟨0, some line, some line.length⟩) := by
      rw [queueRead, if_pos good, cut]
      exact if_neg short
    rw [taken] at outcome contents
    have left := (sessionStep s (readWith cap)).1.buffer.length_contents
    have kept : (sessionStep s (readWith cap)).1.buffer.contents = rest := contents
    refine ⟨congrArg Outcome.rc outcome, stays, ?_, ?_⟩
    · rw [← left, kept]
      omega
    · have none : line.countP (· == newline) = 0 := by
        rw [List.countP_eq_zero]
        intro byte found
        simp only [beq_iff_eq]
        rintro rfl
        exact plain found
      rw [sessCountLines, sessCountLines, kept, whole, List.countP_append, none,
        List.countP_cons_of_pos (by decide), Nat.zero_add]

/-- The lines counted are the reads left. -/
theorem readsLeft_lines {s : Session γ} (active : s.active = true) :
    ReadsLeft s (sessCountLines s) := by
  intro cap large
  generalize lines : sessCountLines s = count
  induction count generalizing s with
  | zero =>
    refine ⟨fun _ none => absurd none List.not_mem_nil, ?_⟩
    rcases read_large active large with ⟨-, empty⟩ | ⟨-, -, -, more⟩
    · exact empty
    · omega
  | succ count ih =>
    rcases read_large active large with ⟨none, -⟩ | ⟨success, stays, still, fewer⟩
    · omega
    · obtain ⟨others, last⟩ := ih stays still (by omega)
      refine ⟨?_, last⟩
      intro entry listed
      rcases List.mem_cons.mp listed with rfl | later
      · exact success
      · exact others entry later

/-! ## Bytes -/

/-- An append counts its bytes. -/
theorem append_counts {s next : Session γ} {data : List UInt8} {memory : Option (Nat → UInt8)}
    (done : s.append data memory = some next) :
    next.active = s.active ∧ next.written = (s.written + data.length) % 2 ^ 64 := by
  obtain ⟨buffer, -, rfl⟩ := Option.map_eq_some_iff.mp done
  exact ⟨rfl, rfl⟩

/-- A banner counts its own bytes alone. -/
theorem banner_counts {s : Session γ} (active : s.active = true) (text : CString)
    (memory : BannerMemory) :
    (consoleBanner s (some text) memory).1.active = true ∧
      (consoleBanner s (some text) memory).1.written =
        (bannerBytes s text memory).length % 2 ^ 64 := by
  rw [bannerBytes]
  by_cases copied : memory.copy = true
  · rw [if_pos copied]
    cases first : s.emptied.append (escapeBanner text) memory.text with
    | none =>
      have kept : (consoleBanner s (some text) memory).1 = s.emptied := by
        simp only [consoleBanner, active, copied, first, if_true]
      rw [kept]
      exact ⟨active, rfl⟩
    | some titled =>
      obtain ⟨stays, written⟩ := append_counts first
      have counted : titled.written = (escapeBanner text).length % 2 ^ 64 := by
        rw [written]
        exact congrArg (· % 2 ^ 64) (Nat.zero_add _)
      dsimp only
      cases second : titled.append [newline] memory.feed with
      | none =>
        have kept : (consoleBanner s (some text) memory).1 = titled := by
          simp only [consoleBanner, active, copied, first, second, if_true]
        rw [kept]
        exact ⟨stays.trans active, counted⟩
      | some ended =>
        obtain ⟨remains, total⟩ := append_counts second
        have kept : (consoleBanner s (some text) memory).1 = ended := by
          simp only [consoleBanner, active, copied, first, second, if_true]
        rw [kept]
        refine ⟨(remains.trans stays).trans active, ?_⟩
        show ended.written = _
        rw [total, counted, List.length_append, Nat.mod_add_mod]
  · have kept : (consoleBanner s (some text) memory).1 = s.emptied := by
      simp only [consoleBanner, active, copied, if_false, Bool.false_eq_true]
    rw [kept, if_neg copied]
    exact ⟨active, rfl⟩

/-- Every call but a banner adds its bytes to the counter. -/
theorem useStep_counts {s : Session γ} (active : s.active = true) (below : s.written < 2 ^ 64)
    (use : Use) :
    (useStep s use).active = true ∧
      ((∃ text memory, use = .banner (some text) memory ∧
        (useStep s use).written = (appended s use).length % 2 ^ 64) ∨
      ((∀ text memory, use ≠ .banner (some text) memory) ∧
        (useStep s use).written = (s.written + (appended s use).length) % 2 ^ 64)) := by
  have same : s.written = (s.written + 0) % 2 ^ 64 := (Nat.mod_eq_of_lt below).symm
  cases use with
  | banner text memory =>
    cases text with
    | none =>
      have refused : consoleBanner s none memory = (s, .code einval, none) := by
        simp only [consoleBanner, active]
      refine ⟨?_, .inr ⟨by simp, ?_⟩⟩
      · rw [useStep, refused]
        exact active
      · rw [useStep, refused]
        exact same
    | some text =>
      obtain ⟨stays, written⟩ := banner_counts active text memory
      exact ⟨stays, .inl ⟨text, memory, rfl, written⟩⟩
  | call call =>
    refine ⟨(sessionStep_spec active call).1, .inr ⟨by simp, ?_⟩⟩
    cases call with
    | write buf memory =>
      cases buf with
      | none =>
        have refused : consoleWrite s none memory = (s, .code einval, none) := by
          simp only [consoleWrite, active]
        show (consoleWrite s none memory).1.written = _
        rw [refused]
        exact same
      | some data =>
        show (consoleWrite s (some data) memory).1.written =
          (s.written + (if (s.append data memory).isSome then data else []).length) % 2 ^ 64
        cases done : s.append data memory with
        | none =>
          have refused : (consoleWrite s (some data) memory).1 = s := by
            simp only [consoleWrite, active, done]
          rw [refused]
          exact same
        | some next =>
          have taken : (consoleWrite s (some data) memory).1 = next := by
            simp only [consoleWrite, active, done]
          rw [taken]
          exact (append_counts done).2
    | readLine args =>
      have kept : (consoleReadLine s args).1.written = s.written := by
        unfold consoleReadLine
        rw [if_pos active]
        split
        · split
          · rfl
          · split <;> rfl
        · rfl
      exact kept.trans same
    | clear =>
      have cleared : consoleClear s = ({ s with buffer := .null }, .code 0) := if_pos active
      show (consoleClear s).1.written = _
      rw [cleared]
      exact same

/-! ## The counters over a run -/

/-- The session is active and the counter is the number of bytes appended. -/
structure Exact (state : Counted γ) : Prop where
  /-- It is not closed. -/
  active : state.session.active = true
  /-- The counter is right. -/
  written : state.session.written = state.total
  /-- The counter has not wrapped. -/
  below : state.total < 2 ^ 64

/-- The status of an active session reports the reads left; it reports the bytes appended when
the counter is right. -/
theorem reports_iff {state : Counted γ} (active : state.session.active = true) :
    Reports state ↔ state.session.written = state.total := by
  have told : consoleStatus state.session true = (0, some ⟨state.session.name, state.session.id,
      state.session.active, sessCountLines state.session, state.session.written,
      state.session.buffer.len⟩) := by
    rw [consoleStatus, active]
    rfl
  constructor
  · rintro ⟨info, given, written, -⟩
    rw [told] at given
    obtain rfl := Option.some.inj (Prod.mk.inj given).2
    exact written
  · intro written
    exact ⟨_, told, written, readsLeft_lines active⟩

/-- A call in order keeps the counter right. -/
theorem exact_step (state : Counted γ) (use : Use) (exact : Exact state)
    (order : InOrder state use) : Exact (countStep state use) := by
  have below : state.session.written < 2 ^ 64 := by
    rw [exact.written]
    exact exact.below
  obtain ⟨stays, counted⟩ := useStep_counts exact.active below use
  have room := order.2
  have whole := exact.written
  have next : (useStep state.session use).written =
      state.total + (appended state.session use).length := by
    rcases counted with ⟨text, memory, same, counted⟩ | ⟨-, counted⟩
    · have zero := order.1 text memory same
      rw [counted, Nat.mod_eq_of_lt (by omega)]
      omega
    · rw [counted, Nat.mod_eq_of_lt room, whole]
  refine ⟨stays, next, ?_⟩
  show state.total + (appended state.session use).length < 2 ^ 64
  omega

/-- A call in order counts right. -/
theorem countsRight_of_order (state : Counted γ) (use : Use) (exact : Exact state)
    (order : InOrder state use) : CountsRight state use := by
  have next := exact_step state use exact order
  refine ⟨(reports_iff next.active).mpr next.written, ?_⟩
  rw [next.written, exact.written]
  exact Nat.le_add_right _ _

/-- Any other call does not. -/
theorem not_countsRight (state : Counted γ) (use : Use) (exact : Exact state)
    (other : ¬ InOrder state use) : ¬ CountsRight state use := by
  intro right
  have below : state.session.written < 2 ^ 64 := by
    rw [exact.written]
    exact exact.below
  obtain ⟨stays, counted⟩ := useStep_counts exact.active below use
  have next : (useStep state.session use).written =
      state.total + (appended state.session use).length := (reports_iff stays).mp right.1
  have whole := exact.written
  have wrapped (number : Nat) : number % 2 ^ 64 < 2 ^ 64 := Nat.mod_lt _ (by decide)
  rcases counted with ⟨text, memory, rfl, counted⟩ | ⟨usual, counted⟩
  · have most : (appended state.session (.banner (some text) memory)).length % 2 ^ 64 ≤
        (appended state.session (.banner (some text) memory)).length := Nat.mod_le _ _
    have bound := wrapped (appended state.session (.banner (some text) memory)).length
    apply other
    refine ⟨fun _ _ _ => by omega, by omega⟩
  · have bound := wrapped (state.session.written + (appended state.session use).length)
    apply other
    refine ⟨fun text memory same => absurd same (usual text memory), by omega⟩

/-- Before the first call nothing was appended. -/
def opened (name : Field 32) (id : Nat) (callback : Option γ) : Counted γ :=
  ⟨openedSession name id callback, 0⟩

/-- In a run on an opened session, every call leaves a status with the bytes appended so far, no
fewer than before, and the reads left, exactly when every banner comes before the first byte and
the counter does not wrap. -/
theorem status_counts_iff (name : Field 32) (id : Nat) (callback : Option γ) (uses : List Use) :
    AllSteps countStep CountsRight (opened name id callback) uses ↔
      AllSteps countStep InOrder (opened name id callback) uses := by
  have initial : Exact (opened name id callback) := ⟨rfl, rfl, Nat.two_pow_pos 64⟩
  exact allSteps_iff exact_step countsRight_of_order not_countsRight initial

/-- A write of three bytes and a banner. -/
def bannerAfterWrite : List Use :=
  [.call (.write (some (lit "abc")) (some fun _ => 0)),
    .banner (some (lit "hi")) ⟨true, some fun _ => 0, some fun _ => 0⟩]

/-- Six bytes were appended, and the status reports three. -/
theorem written_set_back :
    (run countStep (opened (Field.copy (lit "tty0")) 1 (none : Option Unit))
      bannerAfterWrite).total = 6 ∧
    (run countStep (opened (Field.copy (lit "tty0")) 1 (none : Option Unit))
      bannerAfterWrite).session.written = 3 ∧
    ¬ AllSteps countStep CountsRight (opened (Field.copy (lit "tty0")) 1 (none : Option Unit))
      bannerAfterWrite := by
  have total : (run countStep (opened (Field.copy (lit "tty0")) 1 (none : Option Unit))
      bannerAfterWrite).total = 6 := by decide +kernel
  have written : (run countStep (opened (Field.copy (lit "tty0")) 1 (none : Option Unit))
      bannerAfterWrite).session.written = 3 := by decide +kernel
  refine ⟨total, written, fun right => ?_⟩
  have active : (run countStep (opened (Field.copy (lit "tty0")) 1 (none : Option Unit))
      bannerAfterWrite).session.active = true := by decide +kernel
  have same := (reports_iff active).mp right.2.1.1
  rw [total, written] at same
  cases same

end HwrunOs.Console
