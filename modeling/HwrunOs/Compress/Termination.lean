import HwrunOs.Compress.Buffer

/-!
# Termination of decompression

The loops of `buf_decompress_zlib` and `buf_decompress_zstd` tolerate an answer that the decoder
cannot go on. A stream that is cut off is answered so for ever once its output is in the buffer,
so the loop stops only when the buffer cannot grow that far.
-/

namespace HwrunOs.Compress

open HwrunOs.Loops HwrunOs.Transducers

variable {decoder : Decoder UInt8 UInt8}

/-! ## Sizes of the buffer -/

/-- Memory runs short while a buffer of `cap` bytes is doubled until it is larger than `total`. -/
def RunsShort (alloc : Nat → Bool) (cap total : Nat) : Prop :=
  ∃ k, cap * 2 ^ k ≤ total ∧ cap * 2 ^ k < 2 ^ 32 ∧ cap * 2 ^ (k + 1) % 2 ^ 32 ≠ 0 ∧
    alloc (cap * 2 ^ (k + 1) % 2 ^ 32) = false

/-- A size of 32 bits that the buffer can be doubled to holds more than `total` bytes. -/
def HasRoom (cap total : Nat) : Prop := ∃ k, total < cap * 2 ^ k ∧ cap * 2 ^ k < 2 ^ 32

/-- What `growFull` does to a full buffer whose output is larger than it: it finds no memory,
leaves the 32 bits, or doubles it. -/
theorem growFull_full {alloc : Nat → Bool} {unpacking : Unpacking decoder}
    (full : unpacking.out.length = unpacking.cap) (small : unpacking.cap < 2 ^ 32) :
    (growFull alloc unpacking = .stop .undefined ∧
        (unpacking.cap = 0 ∨ 2 ^ 32 ≤ unpacking.cap * 2) ∧
        (unpacking.cap * 2 % 2 ^ 32 ≠ 0 → alloc (unpacking.cap * 2 % 2 ^ 32) = true)) ∨
      (growFull alloc unpacking = .stop (.error (-enomem)) ∧
        unpacking.cap * 2 % 2 ^ 32 ≠ 0 ∧ alloc (unpacking.cap * 2 % 2 ^ 32) = false) ∨
      (growFull alloc unpacking = .next { unpacking with cap := unpacking.cap * 2 } ∧
        unpacking.cap ≠ 0 ∧ unpacking.cap * 2 < 2 ^ 32 ∧ alloc (unpacking.cap * 2) = true) := by
  simp only [growFull, if_pos full]
  by_cases zero : unpacking.cap * 2 % 2 ^ 32 = 0
  · rw [if_pos zero]
    exact .inl ⟨rfl, by omega, fun filled => absurd zero filled⟩
  rw [if_neg zero]
  by_cases refused : alloc (unpacking.cap * 2 % 2 ^ 32) = false
  · rw [if_pos refused]
    exact .inr (.inl ⟨rfl, zero, refused⟩)
  rw [if_neg refused]
  by_cases wrapped : unpacking.cap * 2 % 2 ^ 32 < unpacking.out.length
  · rw [if_pos wrapped]
    exact .inl ⟨rfl, by omega, fun _ => by simpa using refused⟩
  · rw [if_neg wrapped]
    have whole : unpacking.cap * 2 < 2 ^ 32 := by omega
    have same : unpacking.cap * 2 % 2 ^ 32 = unpacking.cap * 2 := Nat.mod_eq_of_lt whole
    rw [same] at refused ⊢
    exact .inr (.inr ⟨rfl, by omega, whole, by simpa using refused⟩)

/-- A buffer with room to spare is not grown. -/
theorem growFull_spare {alloc : Nat → Bool} {unpacking : Unpacking decoder}
    (spare : unpacking.out.length < unpacking.cap) :
    growFull alloc unpacking = .next unpacking := by
  simp only [growFull, if_neg (Nat.ne_of_lt spare)]

/-- Doubling once more. -/
theorem double_pow (cap k : Nat) : cap * 2 * 2 ^ k = cap * 2 ^ (k + 1) := by
  rw [Nat.mul_assoc, Nat.pow_succ, Nat.mul_comm 2]

/-- A size is at most its doublings. -/
theorem le_double (cap k : Nat) : cap ≤ cap * 2 ^ k :=
  Nat.le_mul_of_pos_right cap (Nat.two_pow_pos k)

/-- Memory that runs short for the doubled buffer runs short. -/
theorem runsShort_later {alloc : Nat → Bool} {cap total later : Nat} (less : later ≤ total)
    (short : RunsShort alloc (cap * 2) later) : RunsShort alloc cap total := by
  obtain ⟨k, low, small, filled, refused⟩ := short
  rw [double_pow] at low small
  rw [double_pow] at filled refused
  exact ⟨k + 1, by omega, small, filled, refused⟩

/-- A size below the output and below 32 bits that is not the last is doubled within 32 bits. -/
theorem doubles_of_short {alloc : Nat → Bool} {cap total : Nat} (short : RunsShort alloc cap total)
    (given : cap * 2 % 2 ^ 32 ≠ 0 → alloc (cap * 2 % 2 ^ 32) = true) :
    cap * 2 < 2 ^ 32 ∧ cap ≠ 0 := by
  obtain ⟨k, low, small, filled, refused⟩ := short
  cases k with
  | zero =>
    have given := given filled
    rw [show cap * 2 ^ (0 + 1) = cap * 2 by omega] at refused
    rw [given] at refused
    cases refused
  | succ k =>
    have more := le_double (cap * 2) k
    rw [double_pow] at more
    refine ⟨by omega, ?_⟩
    rintro rfl
    exact filled (by rw [Nat.zero_mul, Nat.zero_mod])

/-- So is a size below the output when a larger one has room. -/
theorem doubles_of_room {cap total : Nat} (room : HasRoom cap total) (below : cap ≤ total) :
    cap * 2 < 2 ^ 32 ∧ cap ≠ 0 := by
  obtain ⟨k, high, small⟩ := room
  cases k with
  | zero => omega
  | succ k =>
    have more := le_double (cap * 2) k
    rw [double_pow] at more
    refine ⟨by omega, ?_⟩
    rintro rfl
    rw [Nat.zero_mul] at high
    omega

/-! ## One call of the decoder -/

namespace Unpacking

/-- The verdict on the input that is left. -/
def verdict (unpacking : Unpacking decoder) : Verdict UInt8 :=
  decoder.verdict unpacking.state unpacking.rest

/-- The output at most, with that in the buffer. -/
def total (unpacking : Unpacking decoder) : Nat :=
  unpacking.out.length + unpacking.verdict.most

end Unpacking

/-- What a call that goes on leaves: the buffer is full, or there is nothing to go on with. -/
structure Called (before after : Unpacking decoder) : Prop where
  /-- The buffer keeps its size. -/
  cap : after.cap = before.cap
  /-- The output is within it. -/
  within : after.out.length ≤ after.cap
  /-- The output is longer by what the verdict loses. -/
  follows : ∃ consumed produced, after.out = before.out ++ produced ∧
    before.verdict.Follows consumed produced after.verdict
  /-- The buffer is full, or the input is used up and no output is left in the decoder. -/
  stuck : after.out.length = after.cap ∨
    after.out.length < after.cap ∧ after.rest = [] ∧ after.verdict = .cut []

/-- The three outcomes of a call. -/
theorem decodeStep_cases (lawful : decoder.Lawful) {unpacking : Unpacking decoder}
    (within : unpacking.out.length ≤ unpacking.cap) :
    (∃ length output, unpacking.verdict = .ended length output ∧
        unpacking.out.length + output.length ≤ unpacking.cap ∧
        decodeStep unpacking = .stop (.ok (unpacking.out ++ output))) ∨
      (∃ most, unpacking.verdict = .failed most ∧
        decodeStep unpacking = .stop (.error (-eilseq))) ∨
      ∃ later, decodeStep unpacking = .next later ∧ Called unpacking later := by
  have whole (tail : List UInt8) : tail ++ [] = tail := List.append_nil tail
  have failed := lawful.failed unpacking.state unpacking.rest
    (unpacking.cap - unpacking.out.length)
  have ended := lawful.ended unpacking.state unpacking.rest
    (unpacking.cap - unpacking.out.length)
  have more := lawful.more unpacking.state unpacking.rest (unpacking.cap - unpacking.out.length)
  have drained := lawful.drained unpacking.state unpacking.rest
    (unpacking.cap - unpacking.out.length)
  have bounded := lawful.bounded unpacking.state unpacking.rest
    (unpacking.cap - unpacking.out.length)
  unfold decodeStep
  generalize decoder.decode unpacking.state unpacking.rest
    (unpacking.cap - unpacking.out.length) = answer at *
  obtain ⟨taken, room⟩ := bounded
  cases report : answer.report with
  | ended =>
    have verdict := ended report []
    rw [whole] at verdict
    exact .inl ⟨_, _, verdict, by omega, by simp only [report]⟩
  | failed =>
    obtain ⟨most, verdict⟩ := failed report []
    rw [whole] at verdict
    exact .inr (.inl ⟨most, verdict, by simp only [report]⟩)
  | more =>
    have follows := more report []
    rw [whole, whole] at follows
    have length : (unpacking.out ++ answer.produced).length =
        unpacking.out.length + answer.produced.length := List.length_append
    refine .inr (.inr ⟨⟨answer.state, unpacking.rest.drop answer.consumed, unpacking.cap,
      unpacking.out ++ answer.produced⟩, by simp only [report], rfl, ?_, ⟨_, _, rfl, follows⟩, ?_⟩)
    · show (unpacking.out ++ answer.produced).length ≤ unpacking.cap
      omega
    · by_cases spare : answer.produced.length < unpacking.cap - unpacking.out.length
      · obtain ⟨all, empty⟩ := drained report spare
        have nothing : unpacking.rest.drop answer.consumed = [] := by
          rw [all, List.drop_length]
        refine .inr ⟨?_, nothing, ?_⟩
        · show (unpacking.out ++ answer.produced).length < unpacking.cap
          omega
        · show decoder.verdict answer.state (unpacking.rest.drop answer.consumed) = _
          rw [nothing]
          exact empty
      · refine .inl ?_
        show (unpacking.out ++ answer.produced).length = unpacking.cap
        omega

namespace Called

variable {before after : Unpacking decoder}

/-- A stream is cut off exactly when its rest is. -/
theorem isCut (called : Called before after) : after.verdict.isCut = before.verdict.isCut := by
  obtain ⟨consumed, produced, -, follows⟩ := called.follows
  exact follows.isCut

/-- The output at most does not grow. -/
theorem total_le (called : Called before after) : after.total ≤ before.total := by
  obtain ⟨consumed, produced, out, follows⟩ := called.follows
  have bound := follows.most
  rw [Unpacking.total, Unpacking.total, out, List.length_append]
  omega

/-- For a stream that is not broken it stays the same. -/
theorem total_eq (called : Called before after) (sound : ∀ most, before.verdict ≠ .failed most) :
    after.total = before.total := by
  obtain ⟨consumed, produced, out, follows⟩ := called.follows
  rw [Unpacking.total, Unpacking.total, out, List.length_append]
  cases rest : after.verdict with
  | ended length output =>
    rw [rest] at follows
    rw [show before.verdict = _ from follows]
    simp only [Verdict.most, List.length_append]
    omega
  | cut output =>
    rw [rest] at follows
    rw [show before.verdict = _ from follows]
    simp only [Verdict.most, List.length_append]
    omega
  | failed most =>
    rw [rest] at follows
    obtain ⟨all, same, -⟩ := follows
    exact absurd same (sound all)

/-- A buffer with nothing to go on with is that of a stream that is cut off. -/
theorem spare (called : Called before after) (spare : after.out.length < after.cap) :
    before.verdict.isCut = true ∧ before.total < before.cap := by
  obtain ⟨-, -, cut⟩ := called.stuck.resolve_left (Nat.ne_of_lt spare)
  have isCut := called.isCut
  rw [cut] at isCut
  have sound (most : Nat) : before.verdict ≠ .failed most := by
    intro broken
    rw [broken] at isCut
    cases isCut
  have same := called.total_eq sound
  have empty : after.total = after.out.length := by
    rw [Unpacking.total, cut]
    rfl
  have cap := called.cap
  exact ⟨isCut.symm, by omega⟩

end Called

/-- With nothing to go on with the loop of zstd never stops. -/
theorem zstdLoop_stuck (lawful : decoder.Lawful) {alloc : Nat → Bool}
    {unpacking : Unpacking decoder}
    (spare : unpacking.out.length < unpacking.cap) (cut : unpacking.verdict = .cut [])
    (reply : Reply (List UInt8)) : ¬ Stops (zstdLoop alloc) unpacking reply := by
  apply @not_stops _ _ (zstdLoop alloc) fun state : Unpacking decoder =>
    state.out.length < state.cap ∧ state.verdict = .cut []
  · rintro state ⟨spare, cut⟩
    rcases decodeStep_cases lawful (Nat.le_of_lt spare) with ⟨_, _, ended, -⟩ | ⟨_, failed, -⟩ |
      ⟨later, stepped, called⟩
    · rw [cut] at ended
      cases ended
    · rw [cut] at failed
      cases failed
    · obtain ⟨consumed, produced, out, follows⟩ := called.follows
      have still : later.verdict = .cut [] ∧ produced = [] := by
        rw [cut] at follows
        cases rest : later.verdict with
        | ended length output =>
          rw [rest] at follows
          cases follows
        | cut output =>
          rw [rest] at follows
          obtain ⟨none, empty⟩ := List.append_eq_nil_iff.mp (Verdict.cut.inj follows).symm
          exact ⟨by rw [empty], none⟩
        | failed most =>
          rw [rest] at follows
          obtain ⟨_, broken, -⟩ := follows
          cases broken
      have same : later.out.length < later.cap := by
        rw [out, still.2, List.append_nil, called.cap]
        exact spare
      refine ⟨later, ?_, same, still.1⟩
      simp only [zstdLoop, Pass.andThen, stepped, growFull_spare same]
  · exact ⟨spare, cut⟩

/-! ## The whole loop -/

/-- A reply that the caller can use: nothing undefined, and an error for a stream that is cut
off. -/
structure Usable {α : Type} (isCut : Bool) (reply : Reply α) : Prop where
  /-- Only memory of the caller is used. -/
  defined : reply ≠ .undefined
  /-- A stream that is cut off is an error. -/
  refused : isCut = true → ∃ code, reply = .error code

/-- An error can always be used. -/
theorem usable_error {α : Type} (isCut : Bool) (code : Int) :
    Usable isCut (.error code : Reply α) :=
  ⟨by rintro ⟨⟩, fun _ => ⟨code, rfl⟩⟩

/-- Memory runs short, or the stream is not cut off and there is room for its output. -/
def Bounded (alloc : Nat → Bool) (unpacking : Unpacking decoder) : Prop :=
  RunsShort alloc unpacking.cap unpacking.total ∨
    unpacking.verdict.isCut = false ∧ HasRoom unpacking.cap unpacking.total

/-- The buffer that is doubled is bounded as well. -/
theorem Bounded.double {alloc : Nat → Bool} {before after : Unpacking decoder}
    (bounded : Bounded alloc before) (called : Called before after)
    (full : after.out.length = after.cap) (given : alloc (after.cap * 2) = true)
    (small : after.cap * 2 < 2 ^ 32) :
    Bounded alloc { after with cap := after.cap * 2 } := by
  have cap := called.cap
  have less := called.total_le
  have total : ({ after with cap := after.cap * 2 } : Unpacking decoder).total = after.total := rfl
  have reached : after.cap ≤ after.total := by
    rw [Unpacking.total]
    omega
  have cut : after.verdict.isCut = before.verdict.isCut := called.isCut
  have roomy (k : Nat) (high : after.total < after.cap * 2 * 2 ^ k)
      (low : after.cap * 2 * 2 ^ k < 2 ^ 32) : HasRoom (after.cap * 2) after.total :=
    ⟨k, high, low⟩
  rcases bounded with ⟨k, low, within, filled, refused⟩ | ⟨whole, k, high, within⟩
  · cases k with
    | zero =>
      have same : before.cap * 2 ^ (0 + 1) % 2 ^ 32 = after.cap * 2 := by
        rw [← cap, Nat.zero_add, Nat.pow_one, Nat.mod_eq_of_lt small]
      rw [same, given] at refused
      cases refused
    | succ k =>
      rw [← cap, ← double_pow] at low within
      rw [← cap, ← double_pow] at filled refused
      by_cases still : after.cap * 2 * 2 ^ k ≤ after.total
      · exact .inl ⟨k, still, within, filled, refused⟩
      · -- Only the bound on a broken stream gets smaller.
        have broken : before.verdict.isCut = false := by
          by_contra isCut
          have sound (most : Nat) : before.verdict ≠ .failed most := by
            intro failed
            rw [failed] at isCut
            exact isCut rfl
          have same := called.total_eq sound
          omega
        exact .inr ⟨cut.trans broken, roomy k (by omega) within⟩
  · cases k with
    | zero => omega
    | succ k =>
      rw [← cap, ← double_pow] at high within
      exact .inr ⟨cut.trans whole, roomy k (by omega) within⟩

/-- When memory runs short, or there is room for a stream that is not cut off, the loop of zstd
stops with a reply that can be used. -/
theorem zstdLoop_stops (lawful : decoder.Lawful) {alloc : Nat → Bool}
    {unpacking : Unpacking decoder} (within : unpacking.out.length ≤ unpacking.cap)
    (small : unpacking.cap < 2 ^ 32) (bounded : Bounded alloc unpacking) :
    ∃ reply, Stops (zstdLoop alloc) unpacking reply ∧ Usable unpacking.verdict.isCut reply := by
  induction left : 2 ^ 32 - unpacking.cap using Nat.strong_induction_on generalizing unpacking with
  | _ left ih =>
    have stopped {reply : Reply (List UInt8)} (stop : zstdLoop alloc unpacking = .stop reply) :
        Stops (zstdLoop alloc) unpacking reply := (stops_stop stop).mpr rfl
    rcases decodeStep_cases lawful within with ⟨length, output, verdict, -, step⟩ |
      ⟨most, -, step⟩ | ⟨later, step, called⟩
    · refine ⟨_, stopped (by simp only [zstdLoop, Pass.andThen, step]; rfl), by rintro ⟨⟩, ?_⟩
      intro cut
      rw [verdict] at cut
      cases cut
    · exact ⟨_, stopped (by simp only [zstdLoop, Pass.andThen, step]; rfl), usable_error _ _⟩
    · have cap := called.cap
      rcases called.stuck with full | ⟨spare, -, -⟩
      · rcases @growFull_full _ alloc later full (by omega) with
          ⟨-, leaves, given⟩ | ⟨grown, -, -⟩ | ⟨grown, some_, fits, given⟩
        · -- A size that cannot be doubled is the last one: neither case of `Bounded` is left.
          have reached : unpacking.cap ≤ unpacking.total := by
            have less := called.total_le
            have filled : later.out.length ≤ later.total := Nat.le_add_right _ _
            omega
          have last : unpacking.cap * 2 < 2 ^ 32 ∧ unpacking.cap ≠ 0 := by
            rcases bounded with short | ⟨-, room⟩
            · exact doubles_of_short short (cap ▸ given)
            · exact doubles_of_room room reached
          omega
        · exact ⟨.error (-enomem), stopped (by simp only [zstdLoop, Pass.andThen, step, grown]),
            usable_error _ _⟩
        · have pass : zstdLoop alloc unpacking = .next { later with cap := later.cap * 2 } := by
            simp only [zstdLoop, Pass.andThen, step, grown]
          have next := bounded.double called full given fits
          have room : later.out.length ≤ later.cap * 2 := by omega
          obtain ⟨reply, stops, usable⟩ := @ih (2 ^ 32 - later.cap * 2) (by omega)
            { later with cap := later.cap * 2 } room fits next rfl
          refine ⟨reply, (stops_next pass).mpr stops, ?_⟩
          rw [← called.isCut]
          exact usable
      · obtain ⟨cut, low⟩ := called.spare spare
        exfalso
        rcases bounded with ⟨k, reached, -⟩ | ⟨whole, -⟩
        · have more := le_double unpacking.cap k
          omega
        · rw [cut] at whole
          cases whole

/-- The stream is cut off, or it ends with more output than any size of the buffer holds. -/
def Endless (unpacking : Unpacking decoder) : Prop :=
  unpacking.verdict.isCut = true ∨ (∃ length output, unpacking.verdict = .ended length output) ∧
    ∀ k, unpacking.cap * 2 ^ k < 2 ^ 32 → unpacking.cap * 2 ^ k < unpacking.total

/-- Such a stream is not broken. -/
theorem Endless.sound {unpacking : Unpacking decoder} (endless : Endless unpacking) (most : Nat) :
    unpacking.verdict ≠ .failed most := by
  intro failed
  rcases endless with cut | ⟨⟨_, _, ended⟩, -⟩
  · rw [failed] at cut
    cases cut
  · rw [failed] at ended
    cases ended

/-- It stays so when the buffer is doubled. -/
theorem Endless.double {before after : Unpacking decoder} (endless : Endless before)
    (called : Called before after) : Endless { after with cap := after.cap * 2 } := by
  have same := called.total_eq endless.sound
  rcases endless with cut | ⟨⟨length, output, ended⟩, high⟩
  · exact .inl (called.isCut.trans cut)
  · obtain ⟨consumed, produced, -, follows⟩ := called.follows
    rw [ended] at follows
    obtain ⟨left, tail, rest, -, -⟩ := follows.ended
    refine .inr ⟨⟨left, tail, rest⟩, fun k small => ?_⟩
    have total : ({ after with cap := after.cap * 2 } : Unpacking decoder).total = before.total :=
      same
    have bound : after.cap * 2 * 2 ^ k < 2 ^ 32 := small
    rw [total]
    show after.cap * 2 * 2 ^ k < before.total
    rw [double_pow, called.cap] at bound ⊢
    exact high (k + 1) bound

/-- When memory does not run short, the loop of zstd stops on such a stream only by leaving the
buffer. -/
theorem zstdLoop_endless (lawful : decoder.Lawful) {alloc : Nat → Bool}
    {unpacking : Unpacking decoder} (within : unpacking.out.length ≤ unpacking.cap)
    (small : unpacking.cap < 2 ^ 32) (endless : Endless unpacking)
    (memory : ¬ RunsShort alloc unpacking.cap unpacking.total) {reply : Reply (List UInt8)}
    (stops : Stops (zstdLoop alloc) unpacking reply) : reply = .undefined := by
  induction left : 2 ^ 32 - unpacking.cap using Nat.strong_induction_on generalizing unpacking with
  | _ left ih =>
    rcases decodeStep_cases lawful within with ⟨length, output, verdict, fits, -⟩ |
      ⟨most, failed, -⟩ | ⟨later, step, called⟩
    · exfalso
      rcases endless with cut | ⟨-, high⟩
      · rw [verdict] at cut
        cases cut
      · have more := high 0 (by omega)
        rw [Unpacking.total, verdict] at more
        have most : (Verdict.ended length output).most = output.length := rfl
        omega
    · exact absurd failed (endless.sound most)
    · have cap := called.cap
      have less := called.total_le
      rcases called.stuck with full | ⟨spare, -, cut⟩
      · have filled : later.out.length ≤ later.total := Nat.le_add_right _ _
        rcases @growFull_full _ alloc later full (by omega) with ⟨grown, -, -⟩ |
          ⟨-, some_, refused⟩ | ⟨grown, some_, fits, given⟩
        · have pass : zstdLoop alloc unpacking = .stop .undefined := by
            simp only [zstdLoop, Pass.andThen, step, grown]
          exact (stops_stop pass).mp stops
        · rw [cap] at some_ refused
          refine absurd ⟨0, by omega, by omega, ?_, ?_⟩ memory
          · rwa [show unpacking.cap * 2 ^ (0 + 1) = unpacking.cap * 2 by omega]
          · rwa [show unpacking.cap * 2 ^ (0 + 1) = unpacking.cap * 2 by omega]
        · have pass : zstdLoop alloc unpacking = .next { later with cap := later.cap * 2 } := by
            simp only [zstdLoop, Pass.andThen, step, grown]
          have room : later.out.length ≤ later.cap * 2 := by omega
          refine @ih (2 ^ 32 - later.cap * 2) (by omega) { later with cap := later.cap * 2 } room
            fits (endless.double called) ?_ ((stops_next pass).mp stops) rfl
          intro short
          have short : RunsShort alloc (later.cap * 2) later.total := short
          rw [cap] at short
          exact memory (runsShort_later less short)
      · have pass : zstdLoop alloc unpacking = .next later := by
          simp only [zstdLoop, Pass.andThen, step, growFull_spare spare]
        exact absurd ((stops_next pass).mp stops) (zstdLoop_stuck lawful spare cut reply)

/-- The loop of zlib is the loop of zstd behind the growth of a full buffer. -/
theorem zlibLoop_stops {alloc : Nat → Bool} {unpacking : Unpacking decoder}
    {reply : Reply (List UInt8)} : Stops (zlibLoop alloc) unpacking reply ↔
      growFull alloc unpacking = .stop reply ∨
        ∃ later, growFull alloc unpacking = .next later ∧ Stops (zstdLoop alloc) later reply :=
  stops_rotate

/-- From an empty buffer the two loops stop alike, unless it has no room at all. -/
theorem zlibLoop_start {alloc : Nat → Bool} {input : List UInt8} {cap : Nat}
    {reply : Reply (List UInt8)} : Stops (zlibLoop alloc) (unpackFrom decoder input cap) reply ↔
      cap = 0 ∧ reply = .undefined ∨
        cap ≠ 0 ∧ Stops (zstdLoop alloc) (unpackFrom decoder input cap) reply := by
  rw [zlibLoop_stops]
  by_cases none : cap = 0
  · subst none
    have grown : growFull alloc (unpackFrom decoder input 0) = .stop .undefined := rfl
    rw [grown]
    constructor
    · rintro (stopped | ⟨later, went, -⟩)
      · exact .inl ⟨rfl, (Pass.stop.inj stopped).symm⟩
      · cases went
    · rintro (⟨-, rfl⟩ | ⟨filled, -⟩)
      · exact .inl rfl
      · exact absurd rfl filled
  · have spare : (unpackFrom decoder input cap).out.length < (unpackFrom decoder input cap).cap :=
      Nat.pos_of_ne_zero none
    rw [growFull_spare spare]
    constructor
    · rintro (stopped | ⟨later, went, stops⟩)
      · cases stopped
      · obtain rfl := Pass.next.inj went
        exact .inr ⟨none, stops⟩
    · rintro (⟨empty, -⟩ | ⟨-, stops⟩)
      · exact absurd empty none
      · exact .inr ⟨_, rfl, stops⟩

/-! ## The call -/

/-- The decoder of an algorithm. -/
def decoderOf (codecs : Codecs) : Algo → Option (Decoder UInt8 UInt8)
  | .zlib | .gzip => some codecs.inflate
  | .zstd => some codecs.unzstd
  | _ => none

/-- The first size of the buffer for an algorithm. -/
def firstCap (codecs : Codecs) (algo : Algo) (input : List UInt8) : Nat :=
  if algo = .zstd then zstdCap (codecs.frameContentSize input) input.length
  else zlibCap input.length

/-- The size that is asked for first. -/
def firstAlloc (codecs : Codecs) (algo : Algo) (input : List UInt8) : Nat :=
  if algo = .zstd then max (firstCap codecs algo input) 1 else firstCap codecs algo input

/-- The verdict on an input, if its algorithm has a decoder. -/
def streamVerdict (codecs : Codecs) (force : Algo) (input : List UInt8) :
    Option (Verdict UInt8) :=
  (decoderOf codecs (chosenAlgo force input)).map fun decoder =>
    decoder.verdict decoder.start input

/-- The input ends before the end of its stream. -/
def isCutOff (codecs : Codecs) (force : Algo) (input : List UInt8) : Bool :=
  ((streamVerdict codecs force input).map Verdict.isCut).getD false

/-- The call returns, uses no memory that it does not own, and returns an error for a stream
that is cut off. -/
def Answers (codecs : Codecs) (memory : Memory) (force : Algo) (input : List UInt8) : Prop :=
  ∃ fuel reply, compressDecompress codecs memory fuel force (some input) = some reply ∧
    Usable (isCutOff codecs force input) reply

/-- Memory is refused: for the decoder, for the first buffer, or while the buffer grows beyond
the output. -/
def MemoryRefused (codecs : Codecs) (memory : Memory) (force : Algo) (input : List UInt8)
    (most : Nat) : Prop :=
  memory.init = false ∨ memory.alloc (firstAlloc codecs (chosenAlgo force input) input) = false ∨
    RunsShort memory.alloc (firstCap codecs (chosenAlgo force input) input) most

/-- A reply can be used exactly when its data can. -/
theorem usable_result {reply : Reply (List UInt8)} {isCut : Bool} {origLen : Nat} {algo : Algo} :
    Usable isCut (reply.result origLen algo) ↔ Usable isCut reply := by
  cases reply with
  | ok data =>
    constructor
    · rintro ⟨-, refused⟩
      refine ⟨by rintro ⟨⟩, fun cut => ?_⟩
      obtain ⟨code, wrong⟩ := refused cut
      cases wrong
    · rintro ⟨-, refused⟩
      refine ⟨by rintro ⟨⟩, fun cut => ?_⟩
      obtain ⟨code, wrong⟩ := refused cut
      cases wrong
  | error code => exact ⟨fun _ => usable_error _ _, fun _ => usable_error _ _⟩
  | undefined =>
    constructor
    · exact fun usable => absurd rfl usable.defined
    · exact fun usable => absurd rfl usable.defined

/-- The loop for an algorithm. -/
def loopOf (alloc : Nat → Bool) (algo : Algo) :
    Unpacking decoder → Pass (Unpacking decoder) (Reply (List UInt8)) :=
  if algo = .zstd then zstdLoop alloc else zlibLoop alloc

/-- Behind the first requests for memory a call comes to the loop of its algorithm. -/
theorem compressDecompress_loop {codecs : Codecs} {memory : Memory} {force : Algo}
    {input : List UInt8} {decoder : Decoder UInt8 UInt8}
    (found : decoderOf codecs (chosenAlgo force input) = some decoder) (init : memory.init = true)
    (given : memory.alloc (firstAlloc codecs (chosenAlgo force input) input) = true)
    (fuel : Nat) :
    compressDecompress codecs memory fuel force (some input) =
      (runLoop (loopOf memory.alloc (chosenAlgo force input)) fuel
        (unpackFrom decoder input (firstCap codecs (chosenAlgo force input) input))).map
        fun reply => reply.result input.length (chosenAlgo force input) := by
  unfold compressDecompress
  cases algo : chosenAlgo force input with
  | zlib =>
    rw [algo] at found given
    obtain rfl := Option.some.inj found
    have asked : memory.alloc (zlibCap input.length) = true := given
    simp only [algo, bufDecompressZlib, init, asked, Bool.and_self, if_true]
    rfl
  | gzip =>
    rw [algo] at found given
    obtain rfl := Option.some.inj found
    have asked : memory.alloc (zlibCap input.length) = true := given
    simp only [algo, bufDecompressZlib, init, asked, Bool.and_self, if_true]
    rfl
  | zstd =>
    rw [algo] at found given
    obtain rfl := Option.some.inj found
    have asked : memory.alloc (max (zstdCap (codecs.frameContentSize input) input.length) 1) =
        true := given
    simp only [algo, bufDecompressZstd, init, asked, Bool.and_self, if_true]
    rfl
  | auto | xz | lz4 | lz4Raw | other =>
    rw [algo] at found
    cases found

/-- So the call can be used when the loop stops with a reply that can. -/
theorem answers_loop {codecs : Codecs} {memory : Memory} {force : Algo} {input : List UInt8}
    {decoder : Decoder UInt8 UInt8}
    (found : decoderOf codecs (chosenAlgo force input) = some decoder) (init : memory.init = true)
    (given : memory.alloc (firstAlloc codecs (chosenAlgo force input) input) = true) :
    Answers codecs memory force input ↔ ∃ reply,
      Stops (loopOf memory.alloc (chosenAlgo force input))
        (unpackFrom decoder input (firstCap codecs (chosenAlgo force input) input)) reply ∧
      Usable (decoder.verdict decoder.start input).isCut reply := by
  have cut : isCutOff codecs force input = (decoder.verdict decoder.start input).isCut := by
    simp only [isCutOff, streamVerdict, found, Option.map_some, Option.getD_some]
  unfold Answers
  simp only [compressDecompress_loop found init given, Option.map_eq_some_iff, cut]
  constructor
  · rintro ⟨fuel, _, ⟨reply, ran, rfl⟩, usable⟩
    exact ⟨reply, ⟨fuel, ran⟩, usable_result.mp usable⟩
  · rintro ⟨reply, ⟨fuel, ran⟩, usable⟩
    exact ⟨fuel, _, ⟨reply, ran, rfl⟩, usable_result.mpr usable⟩

/-- The first size of a buffer has 32 bits. -/
theorem firstCap_lt (codecs : Codecs) (algo : Algo) (input : List UInt8) :
    firstCap codecs algo input < 2 ^ 32 := by
  unfold firstCap zstdCap zlibCap
  split
  · split
    · exact Nat.mod_lt _ (by omega)
    · split <;> omega
  · split <;> omega

/-- A call whose memory is refused at once returns an error. -/
theorem compressDecompress_refused {codecs : Codecs} {memory : Memory} {force : Algo}
    {input : List UInt8} {decoder : Decoder UInt8 UInt8}
    (found : decoderOf codecs (chosenAlgo force input) = some decoder)
    (refused : memory.init = false ∨
      memory.alloc (firstAlloc codecs (chosenAlgo force input) input) = false) (fuel : Nat) :
    compressDecompress codecs memory fuel force (some input) = some (.error (-enomem)) := by
  unfold compressDecompress
  cases algo : chosenAlgo force input with
  | zlib | gzip =>
    rw [algo] at refused
    have asked : (memory.init && memory.alloc (zlibCap input.length)) = false := by
      rcases refused with init | given
      · rw [init, Bool.false_and]
      · rw [show memory.alloc (zlibCap input.length) = false from given, Bool.and_false]
    simp only [algo, bufDecompressZlib, asked]
    rfl
  | zstd =>
    rw [algo] at refused
    have asked : (memory.alloc (max (zstdCap (codecs.frameContentSize input) input.length) 1) &&
        memory.init) = false := by
      rcases refused with init | given
      · rw [init, Bool.and_false]
      · rw [show memory.alloc (max (zstdCap (codecs.frameContentSize input) input.length) 1) =
          false from given, Bool.false_and]
    simp only [algo, bufDecompressZstd, asked]
    rfl
  | auto | xz | lz4 | lz4Raw | other =>
    rw [algo] at found
    cases found

/-- So it answers. -/
theorem answers_refused {codecs : Codecs} {memory : Memory} {force : Algo} {input : List UInt8}
    {decoder : Decoder UInt8 UInt8}
    (found : decoderOf codecs (chosenAlgo force input) = some decoder)
    (refused : memory.init = false ∨
      memory.alloc (firstAlloc codecs (chosenAlgo force input) input) = false) :
    Answers codecs memory force input :=
  ⟨0, .error (-enomem), compressDecompress_refused found refused 0, usable_error _ _⟩

/-- What is documented of the decoders. -/
structure Codecs.Decodes (codecs : Codecs) : Prop where
  /-- `inflate`. -/
  inflate : codecs.inflate.Lawful
  /-- `ZSTD_decompressStream`. -/
  unzstd : codecs.unzstd.Lawful

/-- A decoder that is found is lawful. -/
theorem Codecs.Decodes.lawful {codecs : Codecs} (decodes : codecs.Decodes) {algo : Algo}
    {decoder : Decoder UInt8 UInt8} (found : decoderOf codecs algo = some decoder) :
    decoder.Lawful := by
  cases algo with
  | zlib | gzip => exact Option.some.inj found ▸ decodes.inflate
  | zstd => exact Option.some.inj found ▸ decodes.unzstd
  | auto | xz | lz4 | lz4Raw | other => cases found

/-- From an empty buffer that is bounded the loop stops with a reply that can be used. -/
theorem loopOf_stops (lawful : decoder.Lawful) {alloc : Nat → Bool} (algo : Algo)
    {input : List UInt8} {cap : Nat} (small : cap < 2 ^ 32)
    (bounded : Bounded alloc (unpackFrom decoder input cap)) :
    ∃ reply, Stops (loopOf alloc algo) (unpackFrom decoder input cap) reply ∧
      Usable (decoder.verdict decoder.start input).isCut reply := by
  obtain ⟨reply, stops, usable⟩ := zstdLoop_stops lawful (Nat.zero_le _) small bounded
  refine ⟨reply, ?_, usable⟩
  unfold loopOf
  split
  · exact stops
  · refine zlibLoop_start.mpr (.inr ⟨?_, stops⟩)
    rintro rfl
    rcases bounded with ⟨k, -, -, filled, -⟩ | ⟨-, k, high, -⟩
    · exact filled (by show 0 * 2 ^ (k + 1) % 2 ^ 32 = 0; rw [Nat.zero_mul, Nat.zero_mod])
    · have none : (unpackFrom decoder input 0).total < 0 * 2 ^ k := high
      omega

/-- A loop that stops with a reply that can be used does not go on without end. -/
theorem loopOf_endless (lawful : decoder.Lawful) {alloc : Nat → Bool} {algo : Algo}
    {input : List UInt8} {cap : Nat} (small : cap < 2 ^ 32) {reply : Reply (List UInt8)}
    (stops : Stops (loopOf alloc algo) (unpackFrom decoder input cap) reply)
    (usable : reply ≠ .undefined) : RunsShort alloc cap (unpackFrom decoder input cap).total ∨
      ¬ Endless (unpackFrom decoder input cap) := by
  by_contra neither
  obtain ⟨memory, endless⟩ := not_or.mp neither
  have stuck {reply : Reply (List UInt8)}
      (stops : Stops (zstdLoop alloc) (unpackFrom decoder input cap) reply) : reply = .undefined :=
    zstdLoop_endless lawful (Nat.zero_le _) small (not_not.mp endless) memory stops
  unfold loopOf at stops
  split at stops
  · exact usable (stuck stops)
  · rcases zlibLoop_start.mp stops with ⟨-, undefined⟩ | ⟨-, stops⟩
    · exact usable undefined
    · exact usable (stuck stops)

/-- When the output of a stream that is cut off fits the first buffer, the call never returns. -/
theorem cut_runs_on {codecs : Codecs} (decodes : codecs.Decodes) {memory : Memory} {force : Algo}
    {input : List UInt8} {decoder : Decoder UInt8 UInt8}
    (found : decoderOf codecs (chosenAlgo force input) = some decoder) (init : memory.init = true)
    (given : memory.alloc (firstAlloc codecs (chosenAlgo force input) input) = true)
    {output : List UInt8} (cut : decoder.verdict decoder.start input = .cut output)
    (fits : output.length < firstCap codecs (chosenAlgo force input) input) (fuel : Nat) :
    compressDecompress codecs memory fuel force (some input) = none := by
  have lawful := decodes.lawful found
  rw [compressDecompress_loop found init given, Option.map_eq_none_iff]
  generalize firstCap codecs (chosenAlgo force input) input = cap at fits
  have verdict : (unpackFrom decoder input cap).verdict = .cut output := cut
  have never (reply : Reply (List UInt8)) :
      ¬ Stops (zstdLoop memory.alloc) (unpackFrom decoder input cap) reply := by
    rcases decodeStep_cases lawful (show (unpackFrom decoder input cap).out.length ≤ _ from
      Nat.zero_le _) with ⟨_, _, ended, -⟩ | ⟨_, failed, -⟩ | ⟨later, stepped, called⟩
    · rw [verdict] at ended
      cases ended
    · rw [verdict] at failed
      cases failed
    · have less := called.total_le
      have total : (unpackFrom decoder input cap).total = output.length := by
        rw [Unpacking.total, verdict]
        exact Nat.zero_add _
      have filled : later.out.length ≤ later.total := Nat.le_add_right _ _
      have size : later.cap = cap := called.cap
      have spare : later.out.length < later.cap := by omega
      obtain ⟨-, -, still⟩ := called.stuck.resolve_left (Nat.ne_of_lt spare)
      have pass : zstdLoop memory.alloc (unpackFrom decoder input cap) = .next later := by
        simp only [zstdLoop, Pass.andThen, stepped, growFull_spare spare]
      rw [stops_next pass]
      exact zstdLoop_stuck lawful spare still reply
  cases ran : runLoop (loopOf memory.alloc (chosenAlgo force input)) fuel
      (unpackFrom decoder input cap) with
  | none => rfl
  | some reply =>
    have stops : Stops (loopOf memory.alloc (chosenAlgo force input))
        (unpackFrom decoder input cap) reply := ⟨fuel, ran⟩
    unfold loopOf at stops
    split at stops
    · exact absurd stops (never reply)
    · rcases zlibLoop_start.mp stops with ⟨none, -⟩ | ⟨-, stops⟩
      · omega
      · exact absurd stops (never reply)

end HwrunOs.Compress
