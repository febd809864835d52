import Mathlib.Data.List.Forall2
import HwrunOs.Git.Executor

/-!
# Reading the audit log of git

`git/src/audit.c`: the entries of `audit.log` are read back line by line, and the fields of a
line by a search for their keys. The search asks for a key that stands bare, with an opening
brace, a bracket, a comma or nothing before it, where the writer puts a quote.
-/

namespace HwrunOs.Git

open HwrunOs.Bytes

/-! ## Entries -/

/-- `git_audit_entry_t`. -/
structure AuditEntry where
  /-- The time of the entry. -/
  timestamp : UInt64
  /-- Who acts. -/
  user : Field 64
  /-- The operation. -/
  operation : Field 32
  /-- What it acts on. -/
  target : Field 256
  /-- The message. -/
  message : Field 256
  /-- The result. -/
  result : Field 16
deriving DecidableEq

/-- What `extract_field` accepts before a key: the front of the line, or one of three bytes. -/
def opensKey (before : Option UInt8) : Bool :=
  before.all fun byte => byte == 123 || byte == 44 || byte == 91

/-- The search of `extract_field`. `skip` bytes of a key that was found but did not match are
still to be passed over. -/
def extractFrom (key : CString) (before : Option UInt8) : Nat → CString → Option CString
  | _, [] => none
  | skip + 1, byte :: rest => extractFrom key (some byte) skip rest
  | 0, byte :: rest =>
    if key.isPrefixOf (byte :: rest) then
      if opensKey before && [34, 58].isPrefixOf ((byte :: rest).drop key.length) then
        some (((byte :: rest).drop (key.length + 2)).takeWhile (· != 34))
      else extractFrom key (some byte) (key.length - 1) rest
    else extractFrom key (some byte) 0 rest

/-- `extract_field`, into a field of `size + 1` bytes. -/
def extractField (size : Nat) (line key : CString) : Bytes.Field (size + 1) :=
  Field.copy ((extractFrom key none 0 line).getD [])

/-- The entry of a line. -/
def entryOf (line : CString) : AuditEntry where
  timestamp := UInt64.ofNat (strtoull (extractField 255 line (lit "ts")).1).1
  user := extractField 63 line (lit "user")
  operation := extractField 31 line (lit "op")
  target := extractField 255 line (lit "target")
  message := extractField 255 line (lit "msg")
  result := extractField 15 line (lit "result")

/-- The count of lines. The loop keeps a byte in a `char`, so that 255 ends it like the file. -/
def countLines (log : CString) : Nat :=
  let seen := log.takeWhile (· != 255)
  seen.count newline + if seen.getLast?.all (· == newline) then 0 else 1

/-- The log behind a number of line feeds. -/
def skipLines : Nat → CString → CString
  | 0, log => log
  | skip + 1, log => match cutAt newline log with
    | some (_, rest) => skipLines skip rest
    | none => []

/-- The lines that are read of a log. -/
def readLines (log : CString) : List CString :=
  (fgetsLines 1024 log).map fun line => line.takeWhile (· != newline)

/-- An entry passes the filters of a query. -/
def queried (user : Option CString) (since : UInt64) (entry : AuditEntry) : Bool :=
  (user.getD [] == [] || entry.user.1 == user.getD []) &&
    (since == 0 || since ≤ entry.timestamp)

/-- `git_ops_audit`. -/
def gitOpsAudit (world : World) (limit : Int) (user : Option CString) (since : UInt64) :
    List AuditEntry :=
  match world.auditLog with
  | none => []
  | some log =>
    let total : Int := countLines log
    let rest := if 0 < limit ∧ limit < total then skipLines (total - limit).toNat log else log
    ((readLines rest).map entryOf).filter (queried user since)

/-! ## Bare keys -/

/-- A key stands bare behind the front part of a line, with a byte before the line or none. -/
structure BareFrom (key : CString) (before : Option UInt8) (line front back : CString) : Prop where
  /-- The key is followed by a quote and a colon. -/
  text : line = front ++ (key ++ 34 :: 58 :: back)
  /-- The line begins with it, or an opening brace, a bracket or a comma stands before it. -/
  opened : opensKey (front.getLast?.or before) = true

/-- A key stands bare behind the front part of a line. -/
abbrev BareAt (key line front back : CString) : Prop := BareFrom key none line front back

/-- The value that stands behind the first bare `key` of a line, up to the next quote. Where the
key never stands bare it is empty. -/
def Behind (key line value : CString) : Prop :=
  (∃ front back, BareAt key line front back ∧ value = back.takeWhile (· != 34) ∧
    ∀ other after, BareAt key line other after → front.length ≤ other.length) ∨
  (∀ front back, ¬ BareAt key line front back) ∧ value = []

/-- A bare key behind the first byte of a line. -/
theorem bareFrom_cons {key front back rest : CString} {before : Option UInt8} {byte : UInt8} :
    BareFrom key before (byte :: rest) (byte :: front) back ↔
      BareFrom key (some byte) rest front back := by
  have last : (byte :: front).getLast?.or before = front.getLast?.or (some byte) := by
    cases front with
    | nil => rfl
    | cons next more => simp [List.getLast?_cons]
  constructor
  · intro bare
    exact ⟨(List.cons.inj bare.text).2, last ▸ bare.opened⟩
  · intro bare
    exact ⟨by rw [bare.text, List.cons_append], last ▸ bare.opened⟩

/-- A key whose own bytes cannot stand before a bare key. -/
structure ProperKey (key : CString) : Prop where
  /-- It is not empty. -/
  filled : key ≠ []
  /-- None of its bytes opens a key. -/
  closed : ∀ byte ∈ key, opensKey (some byte) = false

/-- The result of a search that passes over `skip` bytes first: the value behind the first bare
key, if there is one. -/
def FirstBehind (key : CString) (before : Option UInt8) (skip : Nat) (line : CString) :
    Option CString → Prop
  | some value => ∃ front back, BareFrom key before line front back ∧ skip ≤ front.length ∧
      value = back.takeWhile (· != 34) ∧
      ∀ other after, BareFrom key before line other after → skip ≤ other.length →
        front.length ≤ other.length
  | none => ∀ front back, BareFrom key before line front back → front.length < skip

/-- The result of a search is carried over a first byte at which no search begins, or at which
no key stands bare. -/
theorem firstBehind_cons {key rest : CString} {before : Option UInt8} {byte : UInt8}
    {skip later : Nat} {result : Option CString}
    (found : FirstBehind key (some byte) later rest result) (more : skip ≤ later + 1)
    (closed : ∀ front back, BareFrom key (some byte) rest front back → front.length < later →
      front.length + 1 < skip)
    (first : skip = 0 → ∀ back, ¬ BareFrom key before (byte :: rest) [] back) :
    FirstBehind key before skip (byte :: rest) result := by
  cases result with
  | none =>
    intro front back bare
    cases front with
    | nil =>
      by_contra low
      exact first (by simpa using low) back bare
    | cons head tail =>
      obtain rfl : byte = head := (List.cons.inj bare.text).1
      have inner := bareFrom_cons.mp bare
      exact closed tail back inner (found tail back inner)
  | some value =>
    obtain ⟨front, back, bare, low, taken, least⟩ := found
    refine ⟨byte :: front, back, bareFrom_cons.mpr bare, ?_, taken, ?_⟩
    · show skip ≤ front.length + 1
      omega
    · intro other after found high
      cases other with
      | nil => exact absurd found (first (by simpa using high) after)
      | cons head tail =>
        obtain rfl : byte = head := (List.cons.inj found.text).1
        have inner := bareFrom_cons.mp found
        have length : (byte :: tail).length = tail.length + 1 := rfl
        show front.length + 1 ≤ tail.length + 1
        by_cases reached : later ≤ tail.length
        · exact Nat.succ_le_succ (least tail after inner reached)
        · have early := closed tail after inner (by omega)
          omega

/-- Inside a key no key stands bare. -/
theorem inside_closed {key rest tail back : CString} {byte : UInt8} (proper : ProperKey key)
    (begins : key = byte :: tail) (text : byte :: rest = key ++ back)
    {other after : CString} (bare : BareFrom key (some byte) rest other after) :
    ¬ other.length < key.length - 1 := by
  intro inside
  subst begins
  have opened := bare.opened
  have shared : rest = tail ++ back := (List.cons.inj text).2
  have short : other.length < tail.length := by simpa using inside
  have begins : other <+: tail := by
    have front : other <+: tail ++ back := by
      rw [← shared, bare.text]
      exact List.prefix_append _ _
    exact List.prefix_of_prefix_length_le front (List.prefix_append _ _) (by omega)
  have closed : opensKey (other.getLast?.or (some byte)) = false := by
    cases last : other.getLast? with
    | none => exact proper.closed byte List.mem_cons_self
    | some found =>
      exact proper.closed found (List.mem_cons_of_mem _ (begins.mem (List.mem_of_getLast? last)))
  rw [closed] at opened
  cases opened

/-- The search finds the first bare key. -/
theorem extractFrom_first {key : CString} (proper : ProperKey key) (line : CString) :
    ∀ before skip, FirstBehind key before skip line (extractFrom key before skip line) := by
  induction line with
  | nil =>
    intro before skip
    rw [show extractFrom key before skip [] = none by cases skip <;> rfl]
    intro front back bare
    have empty := congrArg List.length bare.text
    simp only [List.length_nil, List.length_append, List.length_cons] at empty
    omega
  | cons byte rest ih =>
    intro before skip
    cases skip with
    | succ skip =>
      rw [extractFrom]
      exact firstBehind_cons (ih (some byte) skip) le_rfl (fun _ _ _ low => by omega)
        (fun none => by omega)
    | zero =>
      rw [extractFrom]
      split
      next begins =>
        obtain ⟨after, text⟩ := List.isPrefixOf_iff_prefix.mp begins
        have behind : (byte :: rest).drop key.length = after := by
          rw [← text, List.drop_left]
        have value : (byte :: rest).drop (key.length + 2) = after.drop 2 := by
          rw [← List.drop_drop, behind]
        rw [behind, value]
        split
        next opened =>
          obtain ⟨opened, quoted⟩ := Bool.and_eq_true_iff.mp opened
          obtain ⟨back, colon⟩ := List.isPrefixOf_iff_prefix.mp quoted
          have parts : after = 34 :: 58 :: back := colon.symm
          refine ⟨[], back, ⟨by rw [← text, parts]; rfl, opened⟩, Nat.zero_le _, ?_, ?_⟩
          · rw [parts]
            rfl
          · exact fun _ _ _ _ => Nat.zero_le _
        next closed =>
          refine firstBehind_cons (ih (some byte) (key.length - 1)) (Nat.zero_le _) ?_ ?_
          · intro front back bare inside
            obtain ⟨first, tail, begins⟩ := List.exists_cons_of_ne_nil proper.filled
            have same : first = byte := by
              rw [begins, List.cons_append] at text
              exact (List.cons.inj text).1
            exact absurd inside (inside_closed proper (same ▸ begins) text.symm bare)
          · intro _ back bare
            apply closed
            have tail : after = 34 :: 58 :: back :=
              List.append_cancel_left (text.trans bare.text)
            rw [Bool.and_eq_true_iff, tail]
            exact ⟨bare.opened, rfl⟩
      next missing =>
        refine firstBehind_cons (ih (some byte) 0) (Nat.zero_le _) (fun _ _ _ low => by omega) ?_
        intro _ back bare
        apply missing
        rw [List.isPrefixOf_iff_prefix, bare.text]
        exact List.prefix_append _ _

/-- What stands behind a key is what the search returns. -/
theorem behind_iff {key : CString} (proper : ProperKey key) (line value : CString) :
    Behind key line value ↔ (extractFrom key none 0 line).getD [] = value := by
  have first := extractFrom_first proper line none 0
  cases found : extractFrom key none 0 line with
  | none =>
    rw [found] at first
    have absent (front back : CString) : ¬ BareAt key line front back :=
      fun bare => Nat.not_lt_zero _ (first front back bare)
    constructor
    · rintro (⟨front, back, bare, -⟩ | ⟨-, empty⟩)
      · exact absurd bare (absent front back)
      · exact empty.symm
    · intro empty
      exact .inr ⟨absent, empty.symm⟩
  | some behind =>
    rw [found] at first
    obtain ⟨front, back, bare, -, taken, least⟩ := first
    constructor
    · rintro (⟨other, after, found, equal, lowest⟩ | ⟨absent, -⟩)
      · have length : front.length = other.length :=
          Nat.le_antisymm (least other after found (Nat.zero_le _)) (lowest front back bare)
        have parts := List.append_inj (bare.text.symm.trans found.text) length
        have same : back = after := by
          have tails := List.append_cancel_left parts.2
          exact (List.cons.inj (List.cons.inj tails).2).2
        show behind = value
        rw [taken, equal, same]
      · exact absurd bare (absent front back)
    · intro equal
      have same : value = behind := equal.symm
      refine .inl ⟨front, back, bare, same.trans taken, ?_⟩
      exact fun other after found => least other after found (Nat.zero_le _)

/-! ## What was written -/

/-- The log after calls of `git_audit_write`, none of which fails to open it. -/
def written (context : GitContext) (calls : List (Host × AuditCall)) : World :=
  calls.foldl (fun world call => gitAuditWrite context call.1 world call.2) ⟨none, []⟩

/-- The lines of some calls, one after another. -/
def logOf (calls : List (Host × AuditCall)) : CString :=
  calls.flatMap fun call => call.2.line call.1.now

/-- Every call adds its line. -/
theorem foldl_write (context : GitContext) {calls : List (Host × AuditCall)}
    (opens : ∀ call ∈ calls, call.1.logOpens = true) (world : World) (log : CString)
    (some_ : calls ≠ [] ∨ world.auditLog = some log) (whole : world.auditLog.getD [] = log) :
    (calls.foldl (fun world call => gitAuditWrite context call.1 world call.2) world).auditLog =
      some (log ++ logOf calls) := by
  induction calls generalizing world log with
  | nil =>
    have present := some_.resolve_left (fun filled => filled rfl)
    simpa [logOf] using present
  | cons call rest ih =>
    have opened : call.1.logOpens = true := opens call List.mem_cons_self
    have added : (gitAuditWrite context call.1 world call.2).auditLog =
        some (log ++ call.2.line call.1.now) := by
      simp [gitAuditWrite, opened, whole]
    have joined : log ++ logOf (call :: rest) = log ++ call.2.line call.1.now ++ logOf rest := by
      simp [logOf]
    rw [List.foldl_cons, joined]
    exact ih (fun other later => opens other (List.mem_cons_of_mem _ later)) _ _ (.inr added)
      (by rw [added]; rfl)

/-- A query for everything returns an entry for each line of the log. -/
theorem audit_all (context : GitContext) {calls : List (Host × AuditCall)}
    (opens : ∀ call ∈ calls, call.1.logOpens = true) :
    gitOpsAudit (written context calls) 0 none 0 = (readLines (logOf calls)).map entryOf := by
  have all (entries : List AuditEntry) : entries.filter (queried none 0) = entries := by
    rw [List.filter_eq_self]
    intro entry _
    simp [queried]
  cases calls with
  | nil => rfl
  | cons call rest =>
    have log : (written context (call :: rest)).auditLog = some (logOf (call :: rest)) :=
      foldl_write context opens ⟨none, []⟩ [] (.inl (List.cons_ne_nil _ _)) rfl
    rw [gitOpsAudit, log]
    show (((readLines (if (0 : Int) < 0 ∧ _ then _ else _)).map entryOf).filter _) = _
    rw [if_neg (by omega), all]

/-- The entry holds what was written, up to the capacities of its fields. -/
structure Recorded (call : Host × AuditCall) (entry : AuditEntry) : Prop where
  /-- The time. -/
  timestamp : (entry.timestamp.toNat : Int) = call.1.now
  /-- Who acts. -/
  user : entry.user.1 = snprintf 64 call.2.userText
  /-- The operation. -/
  operation : entry.operation.1 = snprintf 32 call.2.operationText
  /-- What it acts on. -/
  target : entry.target.1 = snprintf 256 call.2.targetText
  /-- The message. -/
  message : entry.message.1 = snprintf 256 call.2.messageText
  /-- The result. -/
  result : entry.result.1 = snprintf 16 call.2.resultText

/-- The text stands in a line behind the first bare key, up to a capacity. -/
def StandsBehind (key line : CString) (cap : Nat) (text : CString) : Prop :=
  ∃ value, Behind key line value ∧ snprintf cap value = snprintf cap text

/-- A line that shows its values to the reader: each stands behind the first bare key of its
name. -/
structure Shows (call : Host × AuditCall) (line : CString) : Prop where
  /-- The time. -/
  timestamp : ∃ value, Behind (lit "ts") line value ∧
    ((strtoull (snprintf 256 value)).1 : Int) = call.1.now
  /-- Who acts. -/
  user : StandsBehind (lit "user") line 64 call.2.userText
  /-- The operation. -/
  operation : StandsBehind (lit "op") line 32 call.2.operationText
  /-- What it acts on. -/
  target : StandsBehind (lit "target") line 256 call.2.targetText
  /-- The message. -/
  message : StandsBehind (lit "msg") line 256 call.2.messageText
  /-- The result. -/
  result : StandsBehind (lit "result") line 16 call.2.resultText

/-- The keys of a line are proper. -/
theorem properKey_lit {key : CString}
    (listed : key ∈ [lit "ts", lit "user", lit "op", lit "target", lit "msg", lit "result"]) :
    ProperKey key := by
  have all : ∀ key ∈ [lit "ts", lit "user", lit "op", lit "target", lit "msg", lit "result"],
      key ≠ [] ∧ ∀ byte ∈ key, opensKey (some byte) = false := by decide +kernel
  exact ⟨(all key listed).1, (all key listed).2⟩

/-- A field that is read holds a text exactly when the text stands behind its key. -/
theorem extractField_iff {key : CString} (proper : ProperKey key) (size : Nat)
    (line text : CString) :
    (extractField size line key).1 = snprintf (size + 1) text ↔
      StandsBehind key line (size + 1) text := by
  constructor
  · intro same
    exact ⟨_, (behind_iff proper line _).mpr rfl, same⟩
  · rintro ⟨value, behind, same⟩
    rw [← same, ← (behind_iff proper line value).mp behind]
    rfl

/-- The entry of a line holds what was written exactly when the line shows it. -/
theorem recorded_iff (call : Host × AuditCall) (line : CString) :
    Recorded call (entryOf line) ↔ Shows call line := by
  have time : ((entryOf line).timestamp.toNat : Int) = call.1.now ↔
      ∃ value, Behind (lit "ts") line value ∧
        ((strtoull (snprintf 256 value)).1 : Int) = call.1.now := by
    have read : (entryOf line).timestamp.toNat =
        (strtoull (snprintf 256 ((extractFrom (lit "ts") none 0 line).getD []))).1 :=
      UInt64.toNat_ofNat_of_lt' (strtoull_lt _)
    rw [read]
    constructor
    · intro same
      exact ⟨_, (behind_iff (properKey_lit (by simp)) line _).mpr rfl, same⟩
    · rintro ⟨value, behind, same⟩
      rw [(behind_iff (properKey_lit (by simp)) line value).mp behind]
      exact same
  have field (key text : CString) (size : Nat)
      (listed : key ∈ [lit "ts", lit "user", lit "op", lit "target", lit "msg", lit "result"]) :=
    extractField_iff (properKey_lit listed) size line text
  constructor
  · rintro ⟨timestamp, user, operation, target, message, result⟩
    exact ⟨time.mp timestamp, (field _ _ 63 (by simp)).mp user,
      (field _ _ 31 (by simp)).mp operation, (field _ _ 255 (by simp)).mp target,
      (field _ _ 255 (by simp)).mp message, (field _ _ 15 (by simp)).mp result⟩
  · rintro ⟨timestamp, user, operation, target, message, result⟩
    exact ⟨time.mpr timestamp, (field _ _ 63 (by simp)).mpr user,
      (field _ _ 31 (by simp)).mpr operation, (field _ _ 255 (by simp)).mpr target,
      (field _ _ 255 (by simp)).mpr message, (field _ _ 15 (by simp)).mpr result⟩

/-! ## Strings without quotes -/

/-- What was seen last of the three bytes `t":`, and whether they were followed by another byte
than a quote or an opening brace. -/
inductive Seen where
  /-- None of them. -/
  | nothing
  /-- The letter. -/
  | letter
  /-- The letter and the quote. -/
  | quote
  /-- All three. -/
  | colon
  /-- Another byte behind all three. -/
  | other
deriving DecidableEq

/-- One byte more is seen. -/
def Seen.next : Seen → UInt8 → Seen
  | .other, _ => .other
  | .colon, byte => if byte == 34 || byte == 123 then .nothing else .other
  | .quote, byte => if byte == 58 then .colon else if byte == 116 then .letter else .nothing
  | .letter, byte => if byte == 34 then .quote else if byte == 116 then .letter else .nothing
  | .nothing, byte => if byte == 116 then .letter else .nothing

/-- What is seen at the end of a text. -/
def Seen.after (seen : Seen) (text : CString) : Seen := text.foldl Seen.next seen

/-- What is seen at the end of two texts. -/
theorem after_append (seen : Seen) (front back : CString) :
    seen.after (front ++ back) = (seen.after front).after back := List.foldl_append

/-- Another byte behind all three stays seen. -/
theorem other_after (text : CString) : Seen.other.after text = .other := by
  induction text with
  | nil => rfl
  | cons byte rest ih => exact ih

/-- What is not seen at the end is not seen before. -/
theorem after_begins {seen : Seen} {front text : CString} (begins : front <+: text)
    (still : seen.after text ≠ .other) : seen.after front ≠ .other := by
  obtain ⟨back, rfl⟩ := begins
  intro reached
  rw [after_append, reached, other_after] at still
  exact still rfl

/-- Behind a byte of a string without quotes at most the letter is seen. -/
theorem after_quoteFree {seen : Seen} (low : seen = .nothing ∨ seen = .letter) {text : CString}
    (free : (34 : UInt8) ∉ text) : seen.after text = .nothing ∨ seen.after text = .letter := by
  induction text generalizing seen with
  | nil => exact low
  | cons byte rest ih =>
    have usual : byte ≠ 34 := fun same => free (same ▸ List.mem_cons_self)
    have next : seen.next byte = if byte == 116 then .letter else .nothing := by
      rcases low with rfl | rfl
      · rfl
      · exact if_neg (by simpa using usual)
    refine ih ?_ (fun later => free (List.mem_cons_of_mem _ later))
    rw [next]
    by_cases letter : (byte == 116) = true
    · exact .inr (if_pos letter)
    · exact .inl (if_neg letter)

/-- A text between two values, which closes one string and opens the next. -/
theorem after_between {seen : Seen} (low : seen = .nothing ∨ seen = .letter) {between : CString}
    (listed : between ∈ [lit ",\"user\":\"", lit "\",\"op\":\"", lit "\",\"target\":\"",
      lit "\",\"msg\":\"", lit "\",\"result\":\"", lit "\"\x7d\n"]) :
    seen.after between = .nothing := by
  have all : ∀ between ∈ [lit ",\"user\":\"", lit "\",\"op\":\"", lit "\",\"target\":\"",
      lit "\",\"msg\":\"", lit "\",\"result\":\"", lit "\"\x7d\n"],
      Seen.nothing.after between = .nothing ∧ Seen.letter.after between = .nothing := by
    decide +kernel
  rcases low with rfl | rfl
  · exact (all between listed).1
  · exact (all between listed).2

/-- The strings of a call hold no quote. -/
structure QuoteFree (call : AuditCall) : Prop where
  /-- Nor does the user. -/
  user : (34 : UInt8) ∉ call.userText
  /-- Nor does the operation. -/
  operation : (34 : UInt8) ∉ call.operationText
  /-- Nor does the target. -/
  target : (34 : UInt8) ∉ call.targetText
  /-- Nor does the message. -/
  message : (34 : UInt8) ∉ call.messageText

/-- Nothing is left open behind the whole line of a call without quotes. -/
theorem after_text {call : AuditCall} (free : QuoteFree call) (now : Int) {seen : Seen}
    (start : seen ≠ .other) : seen.after (call.text now) = .nothing := by
  have brace : seen.after (lit "\x7b\"ts\":") = .nothing := by
    have all : ∀ seen ∈ [Seen.nothing, .letter, .quote, .colon],
        Seen.after seen (lit "\x7b\"ts\":") = .nothing := by decide +kernel
    apply all
    cases seen <;> simp at start ⊢
  have result : (34 : UInt8) ∉ call.resultText := by
    unfold AuditCall.resultText
    split <;> decide
  -- A value is read from `nothing`, and what closes it leads back to `nothing`.
  have value {seen : Seen} (nothing : seen = .nothing) {text : CString}
      (plain : (34 : UInt8) ∉ text)
      (between : CString) (listed : between ∈ [lit ",\"user\":\"", lit "\",\"op\":\"",
        lit "\",\"target\":\"", lit "\",\"msg\":\"", lit "\",\"result\":\"", lit "\"\x7d\n"]) :
      (seen.after text).after between = .nothing :=
    after_between (after_quoteFree (.inl nothing) plain) listed
  simp only [AuditCall.text, after_append]
  have time := value brace (signedDecimal_notMem rfl (by decide) now) (lit ",\"user\":\"") (by simp)
  have user := value time free.user (lit "\",\"op\":\"") (by simp)
  have operation := value user free.operation (lit "\",\"target\":\"") (by simp)
  have target := value operation free.target (lit "\",\"msg\":\"") (by simp)
  have message := value target free.message (lit "\",\"result\":\"") (by simp)
  exact value message result (lit "\"\x7d\n") (by simp)

/-- In a log of calls without quotes the three bytes are followed by a quote or a brace. -/
theorem after_logOf {calls : List (Host × AuditCall)} (free : ∀ call ∈ calls, QuoteFree call.2)
    {seen : Seen} (start : seen ≠ .other) : seen.after (logOf calls) ≠ .other := by
  induction calls generalizing seen with
  | nil => exact start
  | cons call rest ih =>
    have whole := after_text (free call List.mem_cons_self) call.1.now start
    have cut : seen.after (call.2.line call.1.now) ≠ .other :=
      after_begins (snprintf_begins 1024 _) (by rw [whole]; decide)
    show seen.after (call.2.line call.1.now ++ logOf rest) ≠ .other
    rw [after_append]
    exact ih (fun other later => free other (List.mem_cons_of_mem _ later)) cut

/-- The byte behind the three. -/
theorem seen_behind {text front back : CString} {byte : UInt8}
    (still : Seen.nothing.after text ≠ .other)
    (parts : text = front ++ 116 :: 34 :: 58 :: byte :: back) : byte = 34 ∨ byte = 123 := by
  have early : (Seen.nothing.after front).next 116 ≠ .other := by
    have begins : front ++ [116] <+: text := ⟨34 :: 58 :: byte :: back, by simp [parts]⟩
    have reached := after_begins begins still
    rwa [after_append] at reached
  have letter : (Seen.nothing.after front).next 116 = .letter := by
    revert early
    generalize Seen.nothing.after front = seen
    cases seen <;> decide
  have begins : front ++ [116, 34, 58, byte] <+: text := ⟨back, by simp [parts]⟩
  have reached := after_begins begins still
  rw [after_append] at reached
  by_contra neither
  apply reached
  show ((((Seen.nothing.after front).next 116).next 34).next 58).next byte = .other
  rw [letter]
  show (if byte == 34 || byte == 123 then Seen.nothing else .other) = .other
  rw [if_neg (by simpa using neither)]

/-- A line that is read is part of the log. -/
theorem readLines_infix {log line : CString} (read : line ∈ readLines log) : line <:+: log := by
  obtain ⟨whole, found, rfl⟩ := List.mem_map.mp read
  have all : (fgetsLines 1024 log).flatten = log := fgetsFrom_flatten 1024 [] log
  have part : whole <:+: log := by
    rw [← all]
    exact List.infix_of_mem_flatten found
  exact (List.takeWhile_prefix _).isInfix.trans part

/-- No result of a call without quotes is shown. -/
theorem quoteFree_hidden {calls : List (Host × AuditCall)}
    (free : ∀ call ∈ calls, QuoteFree call.2) {line : CString}
    (read : line ∈ readLines (logOf calls)) (call : Host × AuditCall) : ¬ Shows call line := by
  intro shows
  obtain ⟨value, behind, same⟩ := shows.result
  have filled : snprintf 16 call.2.resultText ≠ [] ∧
      (snprintf 16 call.2.resultText).head? ≠ some 123 := by
    unfold AuditCall.resultText
    split <;> decide
  rw [← same] at filled
  rcases behind with ⟨front, back, bare, taken, -⟩ | ⟨-, empty⟩
  · cases back with
    | nil => exact filled.1 (by rw [taken]; rfl)
    | cons byte rest =>
      obtain ⟨before, after, log⟩ := readLines_infix read
      have key : lit "result" = [114, 101, 115, 117, 108, 116] := by decide
      have still : Seen.nothing.after (logOf calls) ≠ .other := after_logOf free (by decide)
      have parts : logOf calls = before ++ front ++ [114, 101, 115, 117, 108] ++
          116 :: 34 :: 58 :: byte :: (rest ++ after) := by
        rw [← log, bare.text, key]
        simp
      have next := seen_behind still parts
      rcases next with rfl | rfl
      · exact filled.1 (by rw [taken]; rfl)
      · exact filled.2 (by rw [taken]; rfl)
  · exact filled.1 (by rw [empty]; rfl)

/-! ## The round trip -/

/-- A query for everything returns an entry for each call, in order, that holds what was written. -/
def ReturnsAll (context : GitContext) (calls : List (Host × AuditCall)) : Prop :=
  List.Forall₂ Recorded calls (gitOpsAudit (written context calls) 0 none 0)

/-- The lines of the log, as the reader cuts them, are one for each call, in order, and each
shows the values of its call. -/
def LogShows (calls : List (Host × AuditCall)) : Prop :=
  List.Forall₂ Shows calls (readLines (logOf calls))

/-- The entries are those written exactly when every line shows its values with bare keys. Since
the writer puts every key between quotes, calls without quotes in their strings come back only
when there are none. -/
theorem audit_returns_iff (context : GitContext) (calls : List (Host × AuditCall))
    (opens : ∀ call ∈ calls, call.1.logOpens = true) :
    (ReturnsAll context calls ↔ LogShows calls) ∧
      ((∀ call ∈ calls, QuoteFree call.2) → (ReturnsAll context calls ↔ calls = [])) := by
  have same : ReturnsAll context calls ↔ LogShows calls := by
    unfold ReturnsAll LogShows
    rw [audit_all context opens, List.forall₂_map_right_iff]
    constructor
    · exact List.Forall₂.imp fun call line => (recorded_iff call line).mp
    · exact List.Forall₂.imp fun call line => (recorded_iff call line).mpr
  refine ⟨same, fun free => ?_⟩
  rw [same]
  constructor
  · intro shows
    unfold LogShows at shows
    cases lines : readLines (logOf calls) with
    | nil =>
      rw [lines] at shows
      exact List.forall₂_nil_right_iff.mp shows
    | cons line rest =>
      rw [lines] at shows
      obtain ⟨call, others, shown, -, rfl⟩ := List.forall₂_cons_right_iff.mp shows
      have read : line ∈ readLines (logOf (call :: others)) := by
        rw [lines]
        exact List.mem_cons_self
      exact absurd shown (quoteFree_hidden free read call)
  · rintro rfl
    exact .nil

/-- A system on which everything succeeds, at a time. -/
def hostAt (now : Int) : Host := ⟨now, true, true, fun _ => some ⟨[], 0⟩⟩

/-- A user of 63 letters and, behind them, the keys and values of the line between quotes. -/
def smuggled : CString :=
  List.replicate 63 97 ++ lit ",ts\":100\",user\":" ++ List.replicate 63 97 ++
    lit "\",result\":success"

/-- A user whose name holds the bare keys is returned as written; a plain call is not. -/
theorem audit_returns_smuggled :
    LogShows [(hostAt 100, ⟨some smuggled, some [], none, none, true⟩)] ∧
      ¬ ReturnsAll ⟨Field.copy [], Field.copy []⟩
        [(hostAt 100, ⟨some (lit "alice"), some (lit "tag"), none, none, true⟩)] := by
  constructor
  · apply (audit_returns_iff ⟨Field.copy [], Field.copy []⟩ _ (by decide)).1.mp
    have entries : gitOpsAudit (written ⟨Field.copy [], Field.copy []⟩
        [(hostAt 100, ⟨some smuggled, some [], none, none, true⟩)]) 0 none 0 =
        [⟨100, ⟨List.replicate 63 97, by decide⟩, ⟨[], by decide⟩, ⟨[], by decide⟩,
          ⟨[], by decide⟩, ⟨lit "success", by decide⟩⟩] := by decide +kernel
    unfold ReturnsAll
    rw [entries]
    exact .cons ⟨by decide, by decide +kernel, rfl, rfl, rfl, by decide⟩ .nil
  · have free : QuoteFree ⟨some (lit "alice"), some (lit "tag"), none, none, true⟩ :=
      ⟨by decide, by decide, by decide, by decide⟩
    rw [(audit_returns_iff ⟨Field.copy [], Field.copy []⟩ _ (by decide)).2 (by simpa using free)]
    exact List.cons_ne_nil _ _

/-- One ordinary call: its entry comes back without the time and with empty fields. -/
theorem ordinary_call_lost :
    gitOpsAudit (written ⟨Field.copy [], Field.copy (lit "/var/lib/hwrun/git-audit")⟩
        [(hostAt 1700000000, ⟨some (lit "alice"), some (lit "commit"), some (lit "repo"),
          some (lit "first"), true⟩)]) 0 none 0 =
      [⟨0, Field.copy [], Field.copy [], Field.copy [], Field.copy [], Field.copy []⟩] ∧
    ¬ ReturnsAll ⟨Field.copy [], Field.copy (lit "/var/lib/hwrun/git-audit")⟩
      [(hostAt 1700000000, ⟨some (lit "alice"), some (lit "commit"), some (lit "repo"),
        some (lit "first"), true⟩)] := by
  have entries : gitOpsAudit (written ⟨Field.copy [], Field.copy (lit "/var/lib/hwrun/git-audit")⟩
      [(hostAt 1700000000, ⟨some (lit "alice"), some (lit "commit"), some (lit "repo"),
        some (lit "first"), true⟩)]) 0 none 0 =
      [⟨0, Field.copy [], Field.copy [], Field.copy [], Field.copy [], Field.copy []⟩] := by
    decide +kernel
  refine ⟨entries, fun returns => ?_⟩
  unfold ReturnsAll at returns
  rw [entries] at returns
  have recorded := (List.forall₂_cons.mp returns).1.result
  revert recorded
  decide

end HwrunOs.Git
