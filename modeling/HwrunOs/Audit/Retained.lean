import HwrunOs.Audit.Append
import HwrunOs.Library.Runs
import Mathlib.Data.List.Chain

/-!
# What a log retains

In every run of appends and configurations the log holds the last events appended, numbered
without a gap, and a rotation leaves no segment beyond the limit, unless a rotation with a limit
of one segment meets older segments: it truncates the main file and leaves the others.
-/

namespace HwrunOs.Audit

open HwrunOs.Bytes HwrunOs.Runs

/-! ## The property and its condition -/

/-- What is retained is the end of what was appended, numbered without a gap. -/
structure Retained (log : Log) : Prop where
  /-- The events are the last ones appended. -/
  suffix : log.events <:+ log.appended
  /-- The last event appended is there. -/
  newest : log.events.getLast? = log.appended.getLast?
  /-- The numbers are consecutive. -/
  consecutive : (log.events.map Event.seq).IsChain fun first second => second = first + 1

/-- After a call the log is retained, and a rotation leaves no segment beyond the limit. -/
def StepRetains (log : Log) (action : Action) : Prop :=
  Retained (logStep log action) ∧
    match action with
    | .append event now =>
      event.Accepted → rotates log.store event now = true →
        ∀ index, log.store.maxFiles ≤ index → (logStep log action).store.segs index = none
    | _ => True

/-- An append does not rotate with a limit of one segment while there is an older segment, and
does not come after the last number. -/
def StepFits (log : Log) (action : Action) : Prop :=
  match action with
  | .append event now =>
    event.Accepted →
      (log.store.nextSeq = 0 → log.appended = []) ∧
      (rotates log.store event now = true → log.store.maxFiles ≤ 1 →
        (setDefaultDir log.store).segs 1 = none)
  | _ => True

/-! ## Valid logs -/

/-- The number of the next event. -/
def nextNumber (appended : List Event) : UInt64 :=
  match appended.getLast? with
  | none => 1
  | some event => event.seq + 1

/-- A log whose files hold the last events appended. -/
structure LogValid (parts : List (List Event)) (log : Log) : Prop where
  /-- At least one segment is kept. -/
  some_ : 1 ≤ log.store.maxFiles
  /-- At most sixteen segments are kept. -/
  limit : log.store.maxFiles ≤ segMax
  /-- The files hold the parts. -/
  holds : Holds (setDefaultDir log.store).segs parts
  /-- There are at most sixteen files. -/
  few : parts.length ≤ segMax
  /-- No file is empty. -/
  filled : ∀ part ∈ parts, part ≠ []
  /-- The parts are the end of what was appended. -/
  suffix : parts.reverse.flatten <:+ log.appended
  /-- Something appended is kept. -/
  kept : log.appended ≠ [] → parts ≠ []
  /-- Every event appended was stored. -/
  stored : ∀ event ∈ log.appended, event.Stored
  /-- The numbers are consecutive. -/
  chain : (log.appended.map Event.seq).IsChain fun first second => second = first + 1
  /-- The next number follows the last one. -/
  next : log.store.nextSeq = if log.appended = [] then 0 else nextNumber log.appended

/-- A suffix that is not empty has the same last element. -/
theorem getLast?_suffix {α : Type*} {back whole : List α} (suffix : back <:+ whole)
    (filled : back ≠ []) : back.getLast? = whole.getLast? := by
  obtain ⟨front, rfl⟩ := suffix
  rw [List.getLast?_append_of_ne_nil _ filled]

namespace LogValid

variable {parts : List (List Event)} {log : Log}

/-- The events in the files were stored. -/
theorem parts_stored (valid : LogValid parts log) :
    ∀ part ∈ parts, ∀ event ∈ part, event.Stored := by
  intro part listed event member
  apply valid.stored
  apply valid.suffix.mem
  rw [List.mem_flatten]
  exact ⟨part, List.mem_reverse.mpr listed, member⟩

/-- Only an empty log has no files. -/
theorem parts_nil (valid : LogValid parts log) (empty : log.appended = []) : parts = [] := by
  cases parts with
  | nil => rfl
  | cons base older =>
    have nothing : (base :: older).reverse.flatten = [] := by
      have suffix := valid.suffix
      rw [empty, List.suffix_nil] at suffix
      exact suffix
    rw [List.flatten_eq_nil_iff] at nothing
    exact absurd (nothing base (by simp)) (valid.filled base List.mem_cons_self)

/-- What a query returns. -/
theorem events (valid : LogValid parts log) :
    log.events = (parts.take log.store.maxFiles).reverse.flatten := by
  rw [Log.events, opsQuery, collect]
  dsimp only
  rw [setDefaultDir_maxFiles]
  exact collectSegs_holds valid.holds valid.parts_stored _

/-- A front part of the files holds the end of what was appended. -/
theorem take_suffix (valid : LogValid parts log) (count : Nat) :
    (parts.take count).reverse.flatten <:+ log.appended := by
  have shorter : (parts.take count).reverse <:+ parts.reverse :=
    List.reverse_suffix.mpr (List.take_prefix _ _)
  obtain ⟨front, same⟩ := shorter
  refine List.IsSuffix.trans ?_ valid.suffix
  rw [← same, List.flatten_append]
  exact List.suffix_append _ _

/-- A valid log is retained. -/
theorem retained (valid : LogValid parts log) : Retained log := by
  have suffix := valid.take_suffix log.store.maxFiles
  refine ⟨valid.events ▸ suffix, ?_, ?_⟩
  · by_cases empty : log.appended = []
    · rw [valid.events, valid.parts_nil empty, empty]
      simp
    · obtain ⟨base, older, rfl⟩ := List.exists_cons_of_ne_nil (valid.kept empty)
      have filled : ((base :: older).take log.store.maxFiles).reverse.flatten ≠ [] := by
        have one := valid.some_
        obtain ⟨count, same⟩ : ∃ count, log.store.maxFiles = count + 1 :=
          ⟨log.store.maxFiles - 1, by omega⟩
        rw [same, List.take_succ_cons, ne_eq, List.flatten_eq_nil_iff]
        intro nothing
        exact valid.filled base List.mem_cons_self (nothing base (by simp))
      rw [valid.events]
      exact getLast?_suffix suffix filled
  · rw [valid.events]
    exact valid.chain.suffix (suffix.map Event.seq)

/-- The number that an append gives out. -/
theorem seed (valid : LogValid parts log) :
    (seedSeq (setDefaultDir log.store)).nextSeq = nextNumber log.appended := by
  by_cases fresh : log.store.nextSeq = 0
  · by_cases empty : log.appended = []
    · have missing : ∀ index, (setDefaultDir log.store).segs index = none := by
        intro index
        apply valid.holds.missing
        rw [valid.parts_nil empty]
        exact Nat.zero_le _
      have nothing : ((List.range (setDefaultDir log.store).maxFiles).findSome? fun index =>
          ((setDefaultDir log.store).segs index).filter fun file => !file.isEmpty) = none := by
        simp [missing]
      rw [seedSeq, if_neg (by simp [fresh]), nothing, empty]
      rfl
    · -- The last number has been given out: the newest file ends with it.
      obtain ⟨base, older, rfl⟩ := List.exists_cons_of_ne_nil (valid.kept empty)
      have filled := valid.filled base List.mem_cons_self
      obtain ⟨event, last⟩ : ∃ event, log.appended.getLast? = some event :=
        Option.isSome_iff_exists.mp (by simp [empty])
      have next := valid.next
      rw [if_neg empty, fresh, nextNumber, last] at next
      have inside : event ∈ base := by
        have same := getLast?_suffix valid.suffix (by
          rw [ne_eq, List.flatten_eq_nil_iff]
          exact fun nothing => filled (nothing base (by simp)))
        rw [List.reverse_cons, List.flatten_append, List.flatten_singleton,
          List.getLast?_append_of_ne_nil _ filled, last] at same
        exact List.mem_of_getLast? same
      have stored : ∀ event ∈ base, event.Stored :=
        fun other member => valid.parts_stored base List.mem_cons_self other member
      have top : lastSeq (segText base) = event.seq := by
        have above := UInt64.le_iff_toNat_le.mp (lastSeq_ge stored event inside)
        have bound := (lastSeq (segText base)).toNat_lt
        have wrapped := congrArg UInt64.toNat next
        simp only [UInt64.toNat_zero, UInt64.toNat_add, UInt64.toNat_one] at wrapped
        apply UInt64.toNat_inj.mp
        omega
      have file : (setDefaultDir log.store).segs 0 = some (segText base) := valid.holds 0
      have first : ((List.range (setDefaultDir log.store).maxFiles).findSome? fun index =>
          ((setDefaultDir log.store).segs index).filter fun file => !file.isEmpty) =
            some (segText base) := by
        obtain ⟨count, same⟩ : ∃ count, (setDefaultDir log.store).maxFiles = count + 1 := by
          have one := valid.some_
          exact ⟨log.store.maxFiles - 1, by rw [setDefaultDir_maxFiles]; omega⟩
        have solid : (segText base).isEmpty = false := by simp [segText_filled filled]
        rw [same, List.range_succ_eq_map, List.findSome?_cons, file]
        simp [Option.filter, solid]
      rw [seedSeq, if_neg (by simp [fresh]), first, nextNumber, last]
      dsimp only
      have positive : 0 < event.seq :=
        UInt64.pos_iff_ne_zero.mpr (stored event inside).numbered
      rw [top, if_pos positive]
  · have kept : ¬ log.appended = [] := by
      intro empty
      have next := valid.next
      rw [if_pos empty] at next
      exact fresh next
    have next := valid.next
    rw [if_neg kept] at next
    rw [seedSeq, if_pos (by simpa using fresh), setDefaultDir_nextSeq, next]

end LogValid

/-! ## A valid log after one append -/

/-- The files after an append that fits. -/
theorem append_holds {parts : List (List Event)} {log : Log} (valid : LogValid parts log)
    {event : Event} (now : Int64)
    (single : rotates log.store event now = true → log.store.maxFiles ≤ 1 →
      (setDefaultDir log.store).segs 1 = none) :
    Holds (linedSegs (appendCopy log.store event now).1 now (appendedLine log.store event now))
      (grow log.store.maxFiles (rotates log.store event now)
        (appendCopy log.store event now).2 parts) := by
  have files : (appendCopy log.store event now).1.segs = (setDefaultDir log.store).segs :=
    seedSeq_segs _
  have limit : (appendCopy log.store event now).1.maxFiles = log.store.maxFiles := by
    show (seedSeq (setDefaultDir log.store)).maxFiles = log.store.maxFiles
    rw [seedSeq_maxFiles, setDefaultDir_maxFiles]
  have before : Holds (appendCopy log.store event now).1.segs parts := files ▸ valid.holds
  have lined := linedSegs_holds now
    (appendCopy log.store event now).2 before valid.few (limit ▸ valid.some_)
    (limit ▸ valid.limit) (by rw [limit, files]; rw [rotates_eq] at single; exact single)
  rw [limit] at lined
  rw [rotates_eq]
  exact lined

/-- An append that fits keeps a log valid. -/
theorem append_valid {parts : List (List Event)} {log : Log} (valid : LogValid parts log)
    {event : Event} (accepted : event.Accepted) (now : Int64)
    (fits : StepFits log (.append event now)) :
    LogValid (grow log.store.maxFiles (rotates log.store event now)
      (appendCopy log.store event now).2 parts) (logStep log (.append event now)) := by
  obtain ⟨numbered, single⟩ := fits accepted
  have holds := append_holds valid now single
  have seq : (appendCopy log.store event now).2.seq = nextNumber log.appended := valid.seed
  have given : (appendCopy log.store event now).1.nextSeq = nextNumber log.appended := valid.seed
  have limit : (logStep log (.append event now)).store.maxFiles = log.store.maxFiles := by
    rw [logStep_append accepted]
    show (seedSeq (setDefaultDir log.store)).maxFiles = log.store.maxFiles
    rw [seedSeq_maxFiles, setDefaultDir_maxFiles]
  have events : (logStep log (.append event now)).appended =
      log.appended ++ [(appendCopy log.store event now).2] := by
    rw [logStep_append accepted]
  have files := append_segs accepted log now
  have positive : nextNumber log.appended ≠ 0 := by
    by_cases empty : log.appended = []
    · rw [empty]
      decide
    · have next := valid.next
      rw [if_neg empty] at next
      rw [← next]
      exact fun zero => empty (numbered zero)
  refine ⟨limit ▸ valid.some_, limit ▸ valid.limit, ?_, ?_, grow_filled valid.filled _ _ _, ?_, ?_,
    ?_, ?_, ?_⟩
  · rw [files.2, files.1]
    exact holds
  · have few := (@grow_length parts _ valid.some_ (rotates log.store event now)
      (appendCopy log.store event now).2).1
    have limited := valid.limit
    have before := valid.few
    omega
  · rw [events]
    exact grow_suffix valid.suffix _ _ _
  · intro _ empty
    unfold grow at empty
    split at empty
    · cases empty
    · split at empty <;> cases empty
  · rw [events]
    intro other member
    rcases List.mem_append.mp member with old | new
    · exact valid.stored other old
    · rw [List.mem_singleton.mp new]
      exact ⟨stored_fits _ _ _, seq ▸ positive⟩
  · rw [events, List.map_append, List.isChain_append]
    refine ⟨valid.chain, List.isChain_singleton _, ?_⟩
    intro last found next head
    obtain rfl : next = _ := by simpa using head.symm
    rw [seq, nextNumber]
    rw [List.getLast?_map] at found
    obtain ⟨before, ends, rfl⟩ := Option.map_eq_some_iff.mp found
    rw [ends]
  · rw [events, logStep_append accepted, if_neg (by simp)]
    show (appendCopy log.store event now).1.nextSeq + 1 = _
    rw [nextNumber, List.getLast?_append_of_ne_nil _ (by simp), given, ← seq]
    rfl

/-! ## One configuration -/

/-- A new configuration of the same files keeps a log valid. -/
theorem LogValid.configured {parts : List (List Event)} {log : Log} (valid : LogValid parts log)
    (maxBytes : UInt64) {maxFiles : Nat} (some_ : 1 ≤ maxFiles) (limit : maxFiles ≤ segMax) :
    LogValid parts
      ⟨{ log.store with maxBytes := maxBytes, maxFiles := maxFiles }, log.appended⟩ := by
  have files : (setDefaultDir { log.store with maxBytes := maxBytes, maxFiles := maxFiles }).segs =
      (setDefaultDir log.store).segs := by
    unfold setDefaultDir
    split <;> rfl
  exact ⟨some_, limit, files ▸ valid.holds, valid.few, valid.filled, valid.suffix, valid.kept,
    valid.stored, valid.chain, valid.next⟩

/-- A number that is accepted is in range. -/
theorem parseIntRange_range {text : CString} {low high value : Int}
    (read : parseIntRange text low high = some value) : low ≤ value ∧ value ≤ high := by
  unfold parseIntRange at read
  dsimp only at read
  split at read
  · cases read
  · rename_i checked
    obtain rfl := Option.some.inj read
    simp only [not_or, Int.not_lt] at checked
    exact checked.2.2.2.2

/-- A new size limit keeps a log valid. -/
theorem setMaxBytes_valid {parts : List (List Event)} {log : Log} (valid : LogValid parts log)
    (value : Option CString) : LogValid parts (logStep log (.setMaxBytes value)) := by
  have other : lit "audit.log.max_bytes" ≠ lit "audit.log.path" := by decide
  cases value with
  | none => exact valid
  | some value =>
    rw [logStep, configure, if_neg other, if_pos rfl]
    cases parseSize value with
    | none => exact valid
    | some size => exact valid.configured size valid.some_ valid.limit

/-- A new number of segments keeps a log valid. -/
theorem setMaxFiles_valid {parts : List (List Event)} {log : Log} (valid : LogValid parts log)
    (value : Option CString) : LogValid parts (logStep log (.setMaxFiles value)) := by
  have others : lit "audit.log.max_files" ≠ lit "audit.log.path" ∧
      lit "audit.log.max_files" ≠ lit "audit.log.max_bytes" := by decide
  cases value with
  | none => exact valid
  | some value =>
    rw [logStep, configure, if_neg others.1, if_neg others.2, if_pos rfl]
    cases read : parseIntRange value 1 segMax with
    | none => exact valid
    | some count =>
      have range := parseIntRange_range read
      exact valid.configured log.store.maxBytes (by omega) (by omega)

/-! ## Every run -/

/-- A call that fits keeps a log valid. -/
theorem logStep_valid (log : Log) (action : Action) (valid : ∃ parts, LogValid parts log)
    (fits : StepFits log action) : ∃ parts, LogValid parts (logStep log action) := by
  obtain ⟨parts, valid⟩ := valid
  cases action with
  | append event now =>
    by_cases accepted : event.Accepted
    · exact ⟨_, append_valid valid accepted now fits⟩
    · rw [logStep_rejected accepted]
      exact ⟨parts, valid⟩
  | setMaxBytes value => exact ⟨parts, setMaxBytes_valid valid value⟩
  | setMaxFiles value => exact ⟨parts, setMaxFiles_valid valid value⟩

/-- A call that fits leaves a retained log and no segment beyond the limit. -/
theorem logStep_retains (log : Log) (action : Action) (valid : ∃ parts, LogValid parts log)
    (fits : StepFits log action) : StepRetains log action := by
  obtain ⟨after, kept⟩ := logStep_valid log action valid fits
  refine ⟨kept.retained, ?_⟩
  obtain ⟨parts, valid⟩ := valid
  cases action with
  | append event now =>
    intro accepted rotated index beyond
    have holds := append_holds valid now (fits accepted).2
    rw [(append_segs accepted log now).1]
    apply holds.missing
    have short := (@grow_length parts _ valid.some_ (rotates log.store event now)
      (appendCopy log.store event now).2).2 rotated
    omega
  | setMaxBytes value => trivial
  | setMaxFiles value => trivial

/-- Every event that a query returns has a number. -/
theorem events_numbered (log : Log) : ∀ event ∈ log.events, event.seq ≠ 0 := by
  have collected (segs : Segs) (count : Nat) :
      ∀ event ∈ collectSegs segs none count, event.seq ≠ 0 := by
    induction count with
    | zero => simp [collectSegs]
    | succ index ih =>
      intro event member
      rw [collectSegs, List.mem_append] at member
      rcases member with newest | older
      · have read := (List.mem_filter.mp newest).1
        rw [fileEvents, List.mem_filterMap] at read
        obtain ⟨line, -, parsed⟩ := read
        exact parseEvent_numbered parsed
      · exact ih event older
  exact collected _ _

/-- A rotation with a limit of one segment leaves the older segment where it is. -/
theorem linedSegs_stale {store : Store} {line : CString} (now : Int64)
    (rotated : needsRotation store line = true) (one : store.maxFiles ≤ 1) :
    linedSegs store now line 1 = store.segs 1 := by
  have quiet : ¬ (quietHost now).move 0 ≠ 0 := by simp [quietHost]
  rw [linedSegs, if_pos rotated, rotate, if_pos one, if_neg quiet]
  simp [openBase]

/-- After any other call the log is not retained, or a segment is left beyond the limit. -/
theorem logStep_breaks (log : Log) (action : Action) (valid : ∃ parts, LogValid parts log)
    (misfit : ¬ StepFits log action) : ¬ StepRetains log action := by
  obtain ⟨parts, valid⟩ := valid
  cases action with
  | setMaxBytes value => exact absurd trivial misfit
  | setMaxFiles value => exact absurd trivial misfit
  | append event now =>
    simp only [StepFits, not_forall] at misfit
    obtain ⟨accepted, misfit⟩ := misfit
    rintro ⟨retained, cleaned⟩
    apply misfit
    constructor
    · -- After the last number the next event is numbered zero and no query returns it.
      intro fresh
      by_contra filled
      have next := valid.next
      rw [if_neg filled, fresh] at next
      have zero : (appendCopy log.store event now).2.seq = 0 := valid.seed.trans next.symm
      have newest := retained.newest
      rw [logStep_append accepted] at newest
      rw [List.getLast?_append_of_ne_nil _ (by simp), List.getLast?_singleton] at newest
      exact events_numbered _ _ (List.mem_of_getLast? newest) zero
    · intro rotated one
      have limit : (appendCopy log.store event now).1.maxFiles = log.store.maxFiles := by
        show (seedSeq (setDefaultDir log.store)).maxFiles = log.store.maxFiles
        rw [seedSeq_maxFiles, setDefaultDir_maxFiles]
      have gone := cleaned accepted rotated 1 one
      rw [(append_segs accepted log now).1, linedSegs_stale now (rotates_eq _ _ _ ▸ rotated)
        (limit ▸ one)] at gone
      exact (seedSeq_segs (setDefaultDir log.store)) ▸ gone

/-- A new log is valid. -/
theorem logInit_valid (dir : CString) : LogValid [] (logInit dir) := by
  have limit : (logInit dir).store.maxFiles = 3 := rfl
  refine ⟨by rw [limit]; decide, by rw [limit]; decide, ?_, by simp, by simp, by simp [logInit],
    by simp [logInit], by simp [logInit], by simp [logInit], by simp [logInit, storeInit]⟩
  intro index
  show (setDefaultDir (storeInit dir)).segs index = none
  unfold setDefaultDir
  split <;> rfl

/-- In a run of appends and configurations on a new log, every call leaves a log that is a
contiguous end of what was appended and every rotation removes the segments beyond the limit,
exactly when no append rotates with a limit of one segment while an older segment exists and
none comes after the last number. -/
theorem run_retains_iff (dir : CString) (actions : List Action) :
    AllSteps logStep StepRetains (logInit dir) actions ↔
      AllSteps logStep StepFits (logInit dir) actions :=
  allSteps_iff logStep_valid logStep_retains logStep_breaks ⟨[], logInit_valid dir⟩

/-- An event of one user. -/
def loginEvent : Event := ⟨0, 1, lit "root", lit "login", [], [], 0⟩

/-- Two segments, then a limit of one and a rotation. -/
def shrinkRun : List Action :=
  [.setMaxBytes (some (lit "1")), .append loginEvent 0, .append loginEvent 0,
    .setMaxFiles (some (lit "1")), .append loginEvent 0]

/-- When the limit grows again the log has a hole. -/
theorem shrink_leaves_hole :
    (run logStep (logInit (lit "/log")) (shrinkRun ++ [.setMaxFiles (some (lit "3"))])).events.map
        Event.seq = [1, 3] ∧
      ¬ AllSteps logStep StepRetains (logInit (lit "/log"))
        (shrinkRun ++ [.setMaxFiles (some (lit "3"))]) := by
  have hole : (run logStep (logInit (lit "/log"))
      (shrinkRun ++ [.setMaxFiles (some (lit "3"))])).events.map Event.seq = [1, 3] := by
    decide +kernel
  refine ⟨hole, fun steps => ?_⟩
  have last := (allSteps_append.mp steps).2.1.1.consecutive
  rw [run_append] at hole
  have chain : ([1, 3] : List UInt64).IsChain fun first second => second = first + 1 := hole ▸ last
  revert chain
  decide

end HwrunOs.Audit
