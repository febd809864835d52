import HwrunOs.Audit.Retained

/-!
# What a query returns

With fixed limits a log is a list of segments: few enough, each within the size limit unless it is
one line, together the last events appended in the order of their numbers. A query returns from
these the events that meet its conditions, in its order, and cuts them to its limit. Numbers have 64
bits; this ends with the event that would need another.
-/

namespace HwrunOs.Audit

open HwrunOs.Bytes HwrunOs.Runs

/-! ## The answer -/

/-- An event meets every condition that a query sets. -/
structure Meets (query : Query) (event : Event) : Prop where
  /-- It is not before the first time. -/
  start : 0 < query.startTs → query.startTs ≤ event.ts
  /-- It is not after the last time. -/
  stop : 0 < query.endTs → event.ts ≤ query.endTs
  /-- It has the subject. -/
  subject : query.subject ≠ [] → event.subject = query.subject
  /-- It has the action. -/
  action : query.action ≠ [] → event.action = query.action
  /-- It has the result. -/
  result : query.resultSet ≠ 0 → event.result = query.result

/-- The conditions are the ones the code checks. -/
theorem eventMatches_iff (event : Event) (query : Query) :
    eventMatches event (some query) = true ↔ Meets query event := by
  simp only [eventMatches, Bool.and_eq_true, Bool.or_eq_true, Bool.not_eq_true',
    Bool.and_eq_false_iff, decide_eq_false_iff_not, List.isEmpty_iff, beq_iff_eq, Int64.not_lt]
  constructor
  · rintro ⟨⟨⟨⟨start, stop⟩, subject⟩, action⟩, result⟩
    refine ⟨fun set => ?_, fun set => ?_, fun set => ?_, fun set => ?_, fun set => ?_⟩
    · exact start.resolve_left (Int64.not_le.mpr set)
    · exact stop.resolve_left (Int64.not_le.mpr set)
    · exact subject.resolve_left set
    · exact action.resolve_left set
    · exact result.resolve_left set
  · intro meets
    refine ⟨⟨⟨⟨?_, ?_⟩, ?_⟩, ?_⟩, ?_⟩
    · exact or_iff_not_imp_left.mpr fun set => meets.start (Int64.not_le.mp set)
    · exact or_iff_not_imp_left.mpr fun set => meets.stop (Int64.not_le.mp set)
    · exact or_iff_not_imp_left.mpr meets.subject
    · exact or_iff_not_imp_left.mpr meets.action
    · exact or_iff_not_imp_left.mpr meets.result

instance (query : Query) (event : Event) : Decidable (Meets query event) :=
  decidable_of_iff _ (eventMatches_iff event query)

/-- What a query is to return from the events retained: those that meet its conditions, the newest
first on demand, and no more than its limit. -/
def answer (query : Option Query) (retained : List Event) : List Event :=
  match query with
  | none => retained
  | some query =>
    let matching := retained.filter fun event => Meets query event
    let ordered := if query.order = 1 then matching.reverse else matching
    if 0 < query.limit then ordered.take query.limit.toInt.toNat else ordered

/-- The segments are searched for the events of all of them. -/
theorem collectSegs_filter (segs : Segs) (query : Option Query) (count : Nat) :
    collectSegs segs query count =
      (collectSegs segs none count).filter (eventMatches · query) := by
  induction count with
  | zero => rfl
  | succ index ih =>
    have all (events : List Event) : events.filter (eventMatches · none) = events := by
      simp [eventMatches]
    rw [collectSegs, collectSegs, all, List.filter_append, ih]

/-- A query answers from the events it reads without conditions. -/
theorem opsQuery_answer (log : Log) (query : Option Query) :
    (opsQuery log.store query).2 = answer query log.events := by
  cases query with
  | none => rfl
  | some query =>
    have same : (fun event => eventMatches event (some query)) =
        fun event => decide (Meets query event) := by
      funext event
      exact Bool.eq_iff_iff.mpr ((eventMatches_iff event query).trans decide_eq_true_iff.symm)
    rw [opsQuery, collect, collectSegs_filter, same]
    rfl

/-! ## Runs with fixed limits -/

/-- A call of `append` at a time. -/
structure AppendCall where
  /-- The event. -/
  event : Event
  /-- The time. -/
  now : Int64

/-- A new log with limits. -/
def limitedLog (dir : CString) (maxBytes : UInt64) (maxFiles : Nat) : Log :=
  ⟨{ storeInit dir with maxBytes := maxBytes, maxFiles := maxFiles }, []⟩

/-- One append, without failures of the system. -/
def appendStep (log : Log) (call : AppendCall) : Log :=
  logStep log (.append call.event call.now)

/-- No file is longer than a file can be; a write that goes further fails. -/
def FilesFit (log : Log) : Prop :=
  ∀ index, (((setDefaultDir log.store).segs index).getD []).length < 2 ^ 63

/-- What segments are to be: the files, few and short, which hold the last events appended in the
order of their numbers. -/
structure SegmentsKeep (maxBytes : UInt64) (maxFiles : Nat) (log : Log)
    (segments : List (List Event)) : Prop where
  /-- The files hold the lines of the segments, the newest first, and there are no others. -/
  holds : Holds (setDefaultDir log.store).segs segments
  /-- They are as many as the limit at most. -/
  few : segments.length ≤ maxFiles
  /-- Each is one line or within the size limit. -/
  small : ∀ segment ∈ segments, segment.length = 1 ∨ (segText segment).length ≤ maxBytes.toNat
  /-- They hold the last events appended. -/
  suffix : segments.reverse.flatten <:+ log.appended
  /-- The newest is one of them. -/
  newest : segments.reverse.flatten.getLast? = log.appended.getLast?
  /-- The events come in the order of their numbers. -/
  ordered : (segments.reverse.flatten.map Event.seq).Pairwise (· < ·)

/-- Every query is answered from the events in such segments. -/
def QueriesRetained (maxBytes : UInt64) (maxFiles : Nat) (log : Log) : Prop :=
  ∃ segments, SegmentsKeep maxBytes maxFiles log segments ∧
    ∀ query, (opsQuery log.store query).2 = answer query segments.reverse.flatten

/-! ## The invariant -/

/-- The number of the event at a position of a log. -/
def numberAt (position : Nat) : UInt64 := UInt64.ofNat (position + 1)

/-- A log whose limits are kept and whose events are numbered from one. -/
structure Bounded (maxBytes : UInt64) (maxFiles : Nat) (parts : List (List Event))
    (log : Log) : Prop where
  /-- The files hold the last events appended. -/
  valid : LogValid parts log
  /-- The size limit is the one set. -/
  bytes : log.store.maxBytes = maxBytes
  /-- So is the number of segments. -/
  files : log.store.maxFiles = maxFiles
  /-- There are no segments beyond it. -/
  few : parts.length ≤ maxFiles
  /-- Each segment is one line or within the size limit. -/
  small : ∀ part ∈ parts, part.length = 1 ∨ (segText part).length ≤ maxBytes.toNat
  /-- The events are numbered from one. -/
  numbers : log.appended.map Event.seq = (List.range log.appended.length).map numberAt

/-- The number of the next event. -/
theorem Bounded.next {maxBytes : UInt64} {maxFiles : Nat} {parts : List (List Event)} {log : Log}
    (bounded : Bounded maxBytes maxFiles parts log) :
    nextNumber log.appended = numberAt log.appended.length := by
  have numbers := bounded.numbers
  rcases List.eq_nil_or_concat log.appended with empty | ⟨front, last, whole⟩
  · rw [empty]
    rfl
  · rw [whole, List.concat_eq_append, List.length_append, List.map_append,
      List.length_singleton, List.range_succ, List.map_append] at numbers
    have ends : last.seq = numberAt front.length := by
      simpa using congrArg List.getLast? numbers
    rw [whole, List.concat_eq_append, nextNumber, List.getLast?_concat]
    show last.seq + 1 = _
    rw [ends]
    simp [numberAt]

/-- Below the bound a number is kept. -/
theorem toNat_ofNat {number : Nat} (bound : number < 2 ^ 64) :
    (UInt64.ofNat number).toNat = number := UInt64.toNat_ofNat_of_lt' bound

/-- Numbers of 64 bits rise with the position. -/
theorem numberAt_lt {first second : Nat} (before : first < second) (bound : second + 1 < 2 ^ 64) :
    numberAt first < numberAt second := by
  rw [UInt64.lt_iff_toNat_lt, numberAt, numberAt, toNat_ofNat (by omega), toNat_ofNat bound]
  omega

/-- They are not zero. -/
theorem numberAt_ne_zero {position : Nat} (bound : position + 1 < 2 ^ 64) :
    numberAt position ≠ 0 := by
  intro zero
  have number := congrArg UInt64.toNat zero
  rw [numberAt, toNat_ofNat bound] at number
  simp at number

/-- A new log is within its limits. -/
theorem bounded_limitedLog (dir : CString) (maxBytes : UInt64) {maxFiles : Nat}
    (some_ : 1 ≤ maxFiles) (limit : maxFiles ≤ segMax) :
    Bounded maxBytes maxFiles [] (limitedLog dir maxBytes maxFiles) :=
  ⟨(logInit_valid dir).configured maxBytes some_ limit, rfl, rfl, Nat.zero_le _, by simp, rfl⟩

/-- The default directory does not change the size limit. -/
theorem setDefaultDir_maxBytes (store : Store) :
    (setDefaultDir store).maxBytes = store.maxBytes := by
  unfold setDefaultDir
  split <;> rfl

/-- A segment to which a line is added without a rotation stays within the size limit. -/
theorem unrotated_small {store : Store} {base : List Event} {event : Event}
    (present : store.segs 0 = some (segText base)) (filled : base ≠ [])
    (fits : (segText base).length < 2 ^ 63) (stored : event.Fits)
    (stays : needsRotation store (lineBody event ++ [newline]) = false) :
    (segText (base ++ [event])).length ≤ store.maxBytes.toNat := by
  have positive : 0 < (segText base).length := List.length_pos_of_ne_nil (segText_filled filled)
  have short := lineBody_length stored
  have line : (lineBody event ++ [newline]).length = (lineBody event).length + 1 :=
    List.length_append
  rw [needsRotation, present, Option.getD_some, decide_eq_false_iff_not, not_and] at stays
  have within := UInt64.not_lt.mp (stays positive)
  rw [line, UInt64.le_iff_toNat_le, UInt64.toNat_add, toNat_ofNat (by omega),
    toNat_ofNat (by omega), Nat.mod_eq_of_lt (by omega)] at within
  rw [segText_append, List.length_append, line]
  exact within

/-- The segments after an append are within the size limit. -/
theorem grow_small {maxBytes : UInt64} {maxFiles : Nat} {parts : List (List Event)} {log : Log}
    (bounded : Bounded maxBytes maxFiles parts log) (fits : FilesFit log) (event : Event)
    (now : Int64) :
    ∀ part ∈ grow maxFiles (rotates log.store event now) (appendCopy log.store event now).2 parts,
      part.length = 1 ∨ (segText part).length ≤ maxBytes.toNat := by
  have files : (appendCopy log.store event now).1.segs = (setDefaultDir log.store).segs :=
    seedSeq_segs _
  have limit : (appendCopy log.store event now).1.maxBytes = maxBytes := by
    obtain ⟨seq, same⟩ := seedSeq_eq (setDefaultDir log.store)
    show (seedSeq (setDefaultDir log.store)).maxBytes = maxBytes
    rw [same]
    exact (setDefaultDir_maxBytes _).trans bounded.bytes
  intro part member
  cases rotated : rotates log.store event now with
  | true =>
    rw [rotated, grow_rotated] at member
    rcases List.mem_cons.mp member with rfl | older
    · exact .inl rfl
    · exact bounded.small part (List.mem_of_mem_take older)
  | false =>
    rw [rotated] at member
    cases parts with
    | nil =>
      obtain rfl : part = [(appendCopy log.store event now).2] := by simpa [grow] using member
      exact .inl rfl
    | cons base older =>
      have parts : part = base ++ [(appendCopy log.store event now).2] ∨ part ∈ older := by
        simpa [grow] using member
      rcases parts with rfl | old
      · right
        have present : (appendCopy log.store event now).1.segs 0 = some (segText base) := by
          rw [files]
          exact bounded.valid.holds 0
        have size : (segText base).length < 2 ^ 63 := by
          have first := fits 0
          rwa [← files, present, Option.getD_some] at first
        rw [rotates_eq] at rotated
        rw [← limit]
        exact unrotated_small present (bounded.valid.filled base List.mem_cons_self) size
          (stored_fits _ _ _) rotated
      · exact bounded.small part (List.mem_cons_of_mem _ old)

/-- An append before the last number keeps the log within its limits. -/
theorem appendStep_bounded {maxBytes : UInt64} {maxFiles : Nat} {parts : List (List Event)}
    {log : Log} (bounded : Bounded maxBytes maxFiles parts log) (fits : FilesFit log)
    {call : AppendCall} (accepted : call.event.Accepted)
    (numbered : log.appended.length + 1 < 2 ^ 64) :
    Bounded maxBytes maxFiles
      (grow maxFiles (rotates log.store call.event call.now)
        (appendCopy log.store call.event call.now).2 parts) (appendStep log call) := by
  have some_ : 1 ≤ maxFiles := bounded.files ▸ bounded.valid.some_
  have step : StepFits log (.append call.event call.now) := by
    intro _
    constructor
    · intro fresh
      by_contra filled
      have next := bounded.valid.next
      rw [if_neg filled, fresh, bounded.next] at next
      exact numberAt_ne_zero numbered next.symm
    · intro _ one
      apply bounded.valid.holds.missing
      have few := bounded.few
      rw [← bounded.files] at few
      omega
  have valid := append_valid bounded.valid accepted call.now step
  rw [bounded.files] at valid
  have store : (appendStep log call).store.maxBytes = log.store.maxBytes ∧
      (appendStep log call).store.maxFiles = log.store.maxFiles := by
    obtain ⟨seq, same⟩ := seedSeq_eq (setDefaultDir log.store)
    rw [appendStep, logStep_append accepted]
    show (seedSeq (setDefaultDir log.store)).maxBytes = _ ∧
      (seedSeq (setDefaultDir log.store)).maxFiles = _
    rw [same]
    exact ⟨setDefaultDir_maxBytes _, setDefaultDir_maxFiles _⟩
  have appended : (appendStep log call).appended =
      log.appended ++ [(appendCopy log.store call.event call.now).2] := by
    rw [appendStep, logStep_append accepted]
  have number : (appendCopy log.store call.event call.now).2.seq =
      numberAt log.appended.length := by
    show (seedSeq (setDefaultDir log.store)).nextSeq = _
    rw [bounded.valid.seed, bounded.next]
  have length := (@grow_length parts maxFiles some_ (rotates log.store call.event call.now)
    (appendCopy log.store call.event call.now).2).1
  refine ⟨valid, store.1.trans bounded.bytes, store.2.trans bounded.files, ?_,
    grow_small bounded fits call.event call.now, ?_⟩
  · have few := bounded.few
    omega
  · rw [appended, List.map_append, bounded.numbers, List.length_append, List.length_singleton,
      List.range_succ, List.map_append, List.map_singleton, number]
    rfl

/-- The events in the segments after an append fit their fields. -/
theorem grow_fits {maxBytes : UInt64} {maxFiles : Nat} {parts : List (List Event)} {log : Log}
    (bounded : Bounded maxBytes maxFiles parts log) (rotated : Bool) (event : Event)
    (now : Int64) :
    ∀ part ∈ grow maxFiles rotated (appendCopy log.store event now).2 parts,
      ∀ other ∈ part, other.Fits := by
  have old : ∀ part ∈ parts, ∀ other ∈ part, other.Fits :=
    fun part listed other member => (bounded.valid.parts_stored part listed other member).toFits
  have new : (appendCopy log.store event now).2.Fits := stored_fits _ _ _
  intro part member other inside
  cases rotated with
  | true =>
    rw [grow_rotated] at member
    rcases List.mem_cons.mp member with rfl | older
    · exact List.mem_singleton.mp inside ▸ new
    · exact old part (List.mem_of_mem_take older) other inside
  | false =>
    cases parts with
    | nil =>
      obtain rfl : part = [(appendCopy log.store event now).2] := by simpa [grow] using member
      exact List.mem_singleton.mp inside ▸ new
    | cons base older =>
      have cases_ : part = base ++ [(appendCopy log.store event now).2] ∨ part ∈ older := by
        simpa [grow] using member
      rcases cases_ with rfl | listed
      · rcases List.mem_append.mp inside with before | last
        · exact old base List.mem_cons_self other before
        · exact List.mem_singleton.mp last ▸ new
      · exact old part (List.mem_cons_of_mem _ listed) other inside

/-- The files after an append are those of the segments, whatever its number. -/
theorem appendStep_holds {maxBytes : UInt64} {maxFiles : Nat} {parts : List (List Event)}
    {log : Log} (bounded : Bounded maxBytes maxFiles parts log) {call : AppendCall}
    (accepted : call.event.Accepted) :
    Holds (setDefaultDir (appendStep log call).store).segs
      (grow maxFiles (rotates log.store call.event call.now)
        (appendCopy log.store call.event call.now).2 parts) := by
  have files := append_segs accepted log call.now
  rw [appendStep, files.2, files.1, ← bounded.files]
  apply append_holds bounded.valid
  intro _ one
  apply bounded.valid.holds.missing
  have few := bounded.few
  rw [← bounded.files] at few
  omega

/-- With a size limit that a file can reach no file becomes too long. -/
theorem appendStep_fits {maxBytes : UInt64} {maxFiles : Nat} {parts : List (List Event)}
    {log : Log} (bounded : Bounded maxBytes maxFiles parts log) (fits : FilesFit log)
    (limit : maxBytes.toNat < 2 ^ 63) {call : AppendCall} (accepted : call.event.Accepted) :
    FilesFit (appendStep log call) := by
  intro index
  rw [appendStep_holds bounded accepted index]
  cases found : (grow maxFiles (rotates log.store call.event call.now)
      (appendCopy log.store call.event call.now).2 parts)[index]? with
  | none => exact Nat.two_pow_pos 63
  | some part =>
    have listed := List.mem_of_getElem? found
    show (segText part).length < 2 ^ 63
    rcases grow_small bounded fits call.event call.now part listed with single | short
    · obtain ⟨event, rfl⟩ := List.length_eq_one_iff.mp single
      have line := lineBody_length (grow_fits bounded _ call.event call.now _ listed event
        List.mem_cons_self)
      rw [segText, List.flatMap_singleton, List.length_append, List.length_singleton]
      omega
    · omega

/-! ## Every run -/

/-- A log within its limits answers every query from its segments. -/
theorem Bounded.queriesRetained {maxBytes : UInt64} {maxFiles : Nat} {parts : List (List Event)}
    {log : Log} (bounded : Bounded maxBytes maxFiles parts log)
    (numbered : log.appended.length < 2 ^ 64) : QueriesRetained maxBytes maxFiles log := by
  have whole : log.events = parts.reverse.flatten := by
    rw [bounded.valid.events, bounded.files, List.take_of_length_le bounded.few]
  refine ⟨parts,
    ⟨bounded.valid.holds, bounded.few, bounded.small, bounded.valid.suffix, ?_, ?_⟩, ?_⟩
  · rw [← whole]
    exact bounded.valid.retained.newest
  · have rising : (log.appended.map Event.seq).Pairwise (· < ·) := by
      rw [bounded.numbers, List.pairwise_map]
      refine List.pairwise_lt_range.imp_of_mem ?_
      intro first second _ listed before
      have inside := List.mem_range.mp listed
      exact numberAt_lt before (by omega)
    exact rising.sublist (bounded.valid.suffix.sublist.map Event.seq)
  · intro query
    rw [opsQuery_answer, whole]

/-- A rejected append changes nothing. -/
theorem appendStep_rejected {call : AppendCall} (rejected : ¬ call.event.Accepted) (log : Log) :
    appendStep log call = log := logStep_rejected rejected log call.now

/-- A run whose events can be numbered stays within the limits. -/
theorem run_bounded {maxBytes : UInt64} {maxFiles : Nat} {log : Log} {calls : List AppendCall}
    (initial : ∃ parts, Bounded maxBytes maxFiles parts log)
    (fits : AllStates appendStep FilesFit log calls)
    (numbered : log.appended.length +
      (calls.filter fun call => call.event.Accepted).length < 2 ^ 64) :
    (∃ parts, Bounded maxBytes maxFiles parts (run appendStep log calls)) ∧
      (run appendStep log calls).appended.length < 2 ^ 64 := by
  induction calls generalizing log with
  | nil => exact ⟨initial, by simpa using numbered⟩
  | cons call rest ih =>
    obtain ⟨here, later⟩ := fits
    obtain ⟨parts, bounded⟩ := initial
    rw [run_cons]
    by_cases accepted : call.event.Accepted
    · rw [List.filter_cons_of_pos (by simpa using accepted), List.length_cons] at numbered
      have next := appendStep_bounded bounded here accepted (by omega)
      have appended : (appendStep log call).appended.length = log.appended.length + 1 := by
        rw [appendStep, logStep_append accepted, List.length_append, List.length_singleton]
      exact ih ⟨_, next⟩ later (by omega)
    · rw [List.filter_cons_of_neg (by simpa using accepted)] at numbered
      rw [appendStep_rejected accepted] at later ⊢
      exact ih ⟨parts, bounded⟩ later numbered

/-- Repeating an append as long as the numbers last, with a size limit that a file can reach. -/
theorem replicate_bounded {maxBytes : UInt64} {maxFiles : Nat} {log : Log} {call : AppendCall}
    (accepted : call.event.Accepted) (limit : maxBytes.toNat < 2 ^ 63) (count : Nat)
    (initial : ∃ parts, Bounded maxBytes maxFiles parts log) (fits : FilesFit log)
    (numbered : log.appended.length + count < 2 ^ 64) :
    AllStates appendStep FilesFit log (List.replicate (count + 1) call) ∧
      (∃ parts, Bounded maxBytes maxFiles parts
        (run appendStep log (List.replicate count call))) ∧
      (run appendStep log (List.replicate count call)).appended.length =
        log.appended.length + count := by
  induction count generalizing log with
  | zero =>
    obtain ⟨parts, bounded⟩ := initial
    exact ⟨⟨fits, appendStep_fits bounded fits limit accepted⟩, ⟨parts, bounded⟩, rfl⟩
  | succ count ih =>
    obtain ⟨parts, bounded⟩ := initial
    have next := appendStep_bounded bounded fits accepted (by omega)
    have appended : (appendStep log call).appended.length = log.appended.length + 1 := by
      rw [appendStep, logStep_append accepted, List.length_append, List.length_singleton]
    obtain ⟨later, stays, length⟩ := ih ⟨_, next⟩ (appendStep_fits bounded fits limit accepted)
      (by omega)
    refine ⟨⟨fits, later⟩, ?_⟩
    rw [List.replicate_succ, run_cons]
    exact ⟨stays, by omega⟩

/-- The files of a new log fit. -/
theorem filesFit_limitedLog (dir : CString) (maxBytes : UInt64) (maxFiles : Nat) :
    FilesFit (limitedLog dir maxBytes maxFiles) := by
  intro index
  have missing : (setDefaultDir (limitedLog dir maxBytes maxFiles).store).segs index = none := by
    unfold setDefaultDir
    split <;> rfl
  rw [missing]
  exact Nat.two_pow_pos 63

/-- The append after the last number stores an event that no query returns. -/
theorem queries_lose_newest {maxBytes : UInt64} {maxFiles : Nat} {parts : List (List Event)}
    {log : Log} (bounded : Bounded maxBytes maxFiles parts log) {call : AppendCall}
    (accepted : call.event.Accepted) (last : log.appended.length + 1 = 2 ^ 64) :
    ¬ QueriesRetained maxBytes maxFiles (appendStep log call) := by
  rintro ⟨segments, keep, answered⟩
  have zero : (appendCopy log.store call.event call.now).2.seq = 0 := by
    show (seedSeq (setDefaultDir log.store)).nextSeq = 0
    rw [bounded.valid.seed, bounded.next, numberAt, last]
    rfl
  have newest := keep.newest
  have events : (appendStep log call).events = segments.reverse.flatten := answered none
  rw [← events, appendStep, logStep_append accepted] at newest
  rw [List.getLast?_append_of_ne_nil _ (by simp), List.getLast?_singleton] at newest
  exact events_numbered _ _ (List.mem_of_getLast? newest) zero

/-- After every run of fewer than 2 ^ 64 accepted appends with fixed limits, in which no file
becomes longer than a file can be, every query returns exactly what is to be returned from the
events in the segments. -/
theorem queries_answered (dir : CString) (maxBytes : UInt64) {maxFiles : Nat}
    (some_ : 1 ≤ maxFiles) (limit : maxFiles ≤ segMax) {calls : List AppendCall}
    (fits : AllStates appendStep FilesFit (limitedLog dir maxBytes maxFiles) calls)
    (numbered : (calls.filter fun call => call.event.Accepted).length < 2 ^ 64) :
    QueriesRetained maxBytes maxFiles
      (run appendStep (limitedLog dir maxBytes maxFiles) calls) := by
  have initial := bounded_limitedLog dir maxBytes some_ limit
  have start : (limitedLog dir maxBytes maxFiles).appended.length = 0 := rfl
  obtain ⟨⟨parts, bounded⟩, few⟩ := run_bounded ⟨[], initial⟩ fits (by omega)
  exact bounded.queriesRetained few

/-- An append of one user. -/
def loginCall : AppendCall := ⟨loginEvent, 0⟩

/-- Three lines in two segments of one line. -/
theorem queries_answered_rotated :
    AllStates appendStep FilesFit (limitedLog (lit "/log") 1 2) (List.replicate 3 loginCall) ∧
      QueriesRetained 1 2
        (run appendStep (limitedLog (lit "/log") 1 2) (List.replicate 3 loginCall)) := by
  have accepted : loginCall.event.Accepted := by decide
  have initial := bounded_limitedLog (lit "/log") 1 (by decide : 1 ≤ 2) (by decide)
  have fits := (replicate_bounded accepted (by decide) 2 ⟨[], initial⟩
    (filesFit_limitedLog _ _ _) (by decide)).1
  exact ⟨fits, queries_answered (lit "/log") 1 (by decide) (by decide) fits (by decide)⟩

/-- The last append of 2 ^ 64 is not returned. -/
theorem newest_lost :
    AllStates appendStep FilesFit (limitedLog (lit "/log") 1048576 3)
        (List.replicate (2 ^ 64) loginCall) ∧
      ¬ QueriesRetained 1048576 3 (run appendStep (limitedLog (lit "/log") 1048576 3)
        (List.replicate (2 ^ 64) loginCall)) := by
  have accepted : loginCall.event.Accepted := by decide
  have initial := bounded_limitedLog (lit "/log") 1048576 (by decide : 1 ≤ 3) (by decide)
  have start : (limitedLog (lit "/log") 1048576 3).appended.length = 0 := rfl
  -- The run is taken apart before its last append, which is never evaluated.
  have split (count : Nat) (last : count + 1 = 2 ^ 64) :
      AllStates appendStep FilesFit (limitedLog (lit "/log") 1048576 3)
          (List.replicate (count + 1) loginCall) ∧
        ¬ QueriesRetained 1048576 3 (run appendStep (limitedLog (lit "/log") 1048576 3)
          (List.replicate (count + 1) loginCall)) := by
    obtain ⟨fits, ⟨parts, bounded⟩, length⟩ := replicate_bounded accepted (by decide) count
      ⟨[], initial⟩ (filesFit_limitedLog _ _ _) (by omega)
    refine ⟨fits, ?_⟩
    rw [List.replicate_succ', run_append, run_cons, run_nil]
    exact queries_lose_newest bounded accepted (by omega)
  exact split (2 ^ 64 - 1) (by decide)

end HwrunOs.Audit
