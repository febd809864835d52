import HwrunOs.Compress.Stored

/-!
# Sizes of the output buffer

The buffer of `buf_decompress_zlib` and of `buf_decompress_zstd` has a first size that is
computed in 32 bits, from the length of the input or from the size that a frame declares, and is
doubled in 32 bits when it is full. Nothing but the sizes themselves keeps either from wrapping.
-/

namespace HwrunOs.Compress

open HwrunOs.Loops HwrunOs.Transducers

variable {decoder : Decoder UInt8 UInt8}

/-! ## Sizes without a bound -/

/-- The first size that `buf_decompress_zlib` computes, without a bound. -/
def zlibExact (length : Nat) : Nat := if 4096 < length then length * 2 + 1024 else 4096

/-- The first size that `buf_decompress_zstd` computes, without a bound. -/
def zstdExact (size : ContentSize) (length : Nat) : Nat :=
  match size with
  | .known (size + 1) => size + 1
  | _ => if 4096 < length then length * 4 else 4096

/-- The first size for an algorithm, without a bound. -/
def exactCap (codecs : Codecs) (algo : Algo) (input : List UInt8) : Nat :=
  if algo = .zstd then zstdExact (codecs.frameContentSize input) input.length
  else zlibExact input.length

/-- Without a declared size the length of the input counts. -/
theorem estimate_eq (length : Nat) :
    (if 4096 < length then length * 4 % 2 ^ 32 else 4096) =
      (if 4096 < length then length * 4 else 4096) % 2 ^ 32 := by
  split
  · rfl
  · rfl

/-- The first size is the exact one cut to 32 bits. -/
theorem firstCap_eq (codecs : Codecs) (algo : Algo) (input : List UInt8) :
    firstCap codecs algo input = exactCap codecs algo input % 2 ^ 32 := by
  unfold firstCap exactCap
  split
  · cases codecs.frameContentSize input with
    | unknown => exact estimate_eq input.length
    | error => exact estimate_eq input.length
    | known size =>
      cases size with
      | zero => exact estimate_eq input.length
      | succ size => rfl
  · unfold zlibCap zlibExact
    split
    · rfl
    · rfl

/-- The exact size is not 0. -/
theorem exactCap_pos (codecs : Codecs) (algo : Algo) (input : List UInt8) :
    0 < exactCap codecs algo input := by
  unfold exactCap zstdExact zlibExact
  split
  · split
    · omega
    · split <;> omega
  · split <;> omega

/-! ## The property -/

/-- The loop of an algorithm comes to a full buffer, which it doubles. -/
def Doubles (alloc : Nat → Bool) (algo : Algo) (start full : Unpacking decoder) : Prop :=
  full.out.length = full.cap ∧
    if algo = .zstd then ∃ state, Comes (zstdLoop alloc) start state ∧
      decodeStep state = .next full
    else Comes (zlibLoop alloc) start full

/-- The first requests for memory are granted. -/
def Granted (codecs : Codecs) (memory : Memory) (force : Algo) (input : List UInt8) : Prop :=
  memory.init = true ∧ memory.alloc (firstAlloc codecs (chosenAlgo force input) input) = true

/-- A call keeps its sizes within 32 bits, or returns an error. -/
structure SizesKept (codecs : Codecs) (memory : Memory) (force : Algo) (input : List UInt8)
    (decoder : Decoder UInt8 UInt8) : Prop where
  /-- The first size is not cut. -/
  first : firstCap codecs (chosenAlgo force input) input =
    exactCap codecs (chosenAlgo force input) input
  /-- Between two passes the output is within the buffer, whose size has 32 bits. -/
  within : Granted codecs memory force input → ∀ state : Unpacking decoder,
    Comes (loopOf memory.alloc (chosenAlgo force input))
      (unpackFrom decoder input (firstCap codecs (chosenAlgo force input) input)) state →
    state.out.length ≤ state.cap ∧ state.cap < 2 ^ 32
  /-- A size is not cut when it is doubled. -/
  doubled : Granted codecs memory force input → ∀ full : Unpacking decoder,
    Doubles memory.alloc (chosenAlgo force input)
      (unpackFrom decoder input (firstCap codecs (chosenAlgo force input) input)) full →
    full.cap * 2 < 2 ^ 32
  /-- No memory is used that is not owned, and what is returned has a length of 32 bits. -/
  returned : ∀ fuel reply,
    compressDecompress codecs memory fuel force (some input) = some reply →
      reply ≠ .undefined ∧ ∀ result, reply = .ok result → result.data.length < 2 ^ 32
  /-- An output that 32 bits cannot count is an error. -/
  refused : 2 ^ 32 ≤ (decoder.verdict decoder.start input).most → ∃ fuel code,
    compressDecompress codecs memory fuel force (some input) = some (.error code)

/-! ## The condition -/

/-- Memory is refused for a doubled size of 32 bits that is asked for on the way to `total`
bytes. -/
def Refuses (alloc : Nat → Bool) (cap total : Nat) : Prop :=
  ∃ k, cap * 2 ^ k ≤ total ∧ cap * 2 ^ (k + 1) < 2 ^ 32 ∧ alloc (cap * 2 ^ (k + 1)) = false

/-- A buffer that never has to be doubled beyond 32 bits. -/
def Manageable (alloc : Nat → Bool) (cap total : Nat) : Prop :=
  Refuses alloc cap total ∨ HasRoom cap total

/-- A size below the output that is not the last can be doubled. -/
theorem Manageable.doubles {alloc : Nat → Bool} {cap total : Nat}
    (manageable : Manageable alloc cap total) (reached : cap ≤ total) : cap * 2 < 2 ^ 32 := by
  rcases manageable with ⟨k, -, small, -⟩ | room
  · have more := le_double (cap * 2) k
    rw [double_pow] at more
    omega
  · exact (doubles_of_room room reached).1

/-- With less output to come a buffer stays manageable. -/
theorem Manageable.less {alloc : Nat → Bool} {cap total later : Nat}
    (manageable : Manageable alloc cap total) (less : later ≤ total) :
    Manageable alloc cap later := by
  rcases manageable with ⟨k, low, small, refused⟩ | ⟨k, high, small⟩
  · by_cases still : cap * 2 ^ k ≤ later
    · exact .inl ⟨k, still, small, refused⟩
    · have whole : cap * 2 ^ k < 2 ^ 32 := by
        rw [Nat.pow_succ, ← Nat.mul_assoc] at small
        omega
      exact .inr ⟨k, Nat.not_le.mp still, whole⟩
  · exact .inr ⟨k, by omega, small⟩

/-- The doubled buffer is as manageable. -/
theorem Manageable.double {alloc : Nat → Bool} {cap total : Nat}
    (manageable : Manageable alloc cap total) (reached : cap ≤ total)
    (given : alloc (cap * 2) = true) : Manageable alloc (cap * 2) total := by
  rcases manageable with ⟨k, low, small, refused⟩ | ⟨k, high, small⟩
  · cases k with
    | zero =>
      have once : cap * 2 ^ (0 + 1) = cap * 2 := by omega
      rw [once, given] at refused
      cases refused
    | succ k =>
      rw [← double_pow] at low small refused
      exact .inl ⟨k, low, small, refused⟩
  · cases k with
    | zero => omega
    | succ k =>
      rw [← double_pow] at high small
      exact .inr ⟨k, high, small⟩

/-! ## The loops within 32 bits -/

/-- Between two steps the output is within a buffer of 32 bits that is manageable, and a stream
that ends has as much output as in the beginning. -/
structure Sized (alloc : Nat → Bool) (total : Nat) (unpacking : Unpacking decoder) : Prop where
  /-- The output is within the buffer. -/
  within : unpacking.out.length ≤ unpacking.cap
  /-- The size has 32 bits. -/
  small : unpacking.cap < 2 ^ 32
  /-- It is not 0. -/
  filled : 0 < unpacking.cap
  /-- It is never doubled beyond 32 bits. -/
  manageable : Manageable alloc unpacking.cap unpacking.total
  /-- The output that a stream still ends with. -/
  ends : ∀ length output, unpacking.verdict = .ended length output → unpacking.total = total

/-- A reply that counts the output of a stream in 32 bits. -/
def Counted (total : Nat) (reply : Reply (List UInt8)) : Prop :=
  reply ≠ .undefined ∧ ∀ output, reply = .ok output → output.length < 2 ^ 32 ∧ output.length = total

/-- An error counts nothing. -/
theorem counted_error (total : Nat) (code : Int) : Counted total (.error code) :=
  ⟨by rintro ⟨⟩, by rintro output ⟨⟩⟩

variable {alloc : Nat → Bool} {total : Nat} {unpacking : Unpacking decoder}

/-- A full buffer can be doubled. -/
theorem Sized.doubles (sized : Sized alloc total unpacking)
    (full : unpacking.out.length = unpacking.cap) : unpacking.cap * 2 < 2 ^ 32 := by
  apply sized.manageable.doubles
  rw [Unpacking.total]
  omega

/-- What the growth of the buffer leaves. -/
theorem Sized.grow (sized : Sized alloc total unpacking) :
    growFull alloc unpacking = .stop (.error (-enomem)) ∨
      ∃ later, growFull alloc unpacking = .next later ∧ Sized alloc total later := by
  by_cases full : unpacking.out.length = unpacking.cap
  · have whole := sized.doubles full
    have filled := sized.filled
    rcases growFull_full full sized.small with ⟨-, beyond, -⟩ | ⟨grown, -, -⟩ |
      ⟨grown, -, fits, given⟩
    · omega
    · exact .inl grown
    · refine .inr ⟨_, grown, ?_, fits, ?_, ?_, sized.ends⟩
      · show unpacking.out.length ≤ unpacking.cap * 2
        omega
      · show 0 < unpacking.cap * 2
        omega
      · have reached : unpacking.cap ≤ unpacking.total := by
          rw [Unpacking.total]
          omega
        exact sized.manageable.double reached given
  · have within := sized.within
    exact .inr ⟨unpacking, growFull_spare (by omega), sized⟩

/-- What a call of the decoder leaves. -/
theorem Sized.decode (lawful : decoder.Lawful) (sized : Sized alloc total unpacking) :
    (∃ reply, decodeStep unpacking = .stop reply ∧ Counted total reply) ∨
      ∃ later, decodeStep unpacking = .next later ∧ Sized alloc total later := by
  have small := sized.small
  rcases decodeStep_cases lawful sized.within with ⟨length, output, verdict, fits, step⟩ |
    ⟨most, -, step⟩ | ⟨later, step, called⟩
  · refine .inl ⟨_, step, by rintro ⟨⟩, ?_⟩
    rintro _ ⟨⟩
    have whole := sized.ends length output verdict
    rw [Unpacking.total, verdict] at whole
    have most : (Verdict.ended length output).most = output.length := rfl
    rw [List.length_append]
    omega
  · exact .inl ⟨_, step, counted_error total _⟩
  · have cap := called.cap
    have less := called.total_le
    refine .inr ⟨later, step, called.within, cap ▸ small, cap ▸ sized.filled, ?_, ?_⟩
    · rw [cap]
      exact sized.manageable.less less
    · intro length output ended
      obtain ⟨consumed, produced, -, follows⟩ := called.follows
      rw [ended] at follows
      have before : unpacking.verdict = .ended (consumed + length) (produced ++ output) := follows
      have sound (most : Nat) : unpacking.verdict ≠ .failed most := by
        rw [before]
        rintro ⟨⟩
      rw [called.total_eq sound]
      exact sized.ends _ _ before

/-- What a pass of the loop of an algorithm leaves. -/
theorem Sized.pass (lawful : decoder.Lawful) (algo : Algo) (sized : Sized alloc total unpacking) :
    (∃ reply, loopOf alloc algo unpacking = .stop reply ∧ Counted total reply) ∨
      ∃ later, loopOf alloc algo unpacking = .next later ∧ Sized alloc total later := by
  unfold loopOf
  split
  · rcases sized.decode lawful with ⟨reply, stopped, counted⟩ | ⟨middle, went, sized⟩
    · exact .inl ⟨reply, andThen_stop stopped, counted⟩
    · rcases sized.grow with stopped | ⟨later, grown, sized⟩
      · exact .inl ⟨_, (andThen_next went).trans stopped, counted_error total _⟩
      · exact .inr ⟨later, (andThen_next went).trans grown, sized⟩
  · rcases sized.grow with stopped | ⟨middle, grown, sized⟩
    · exact .inl ⟨_, andThen_stop stopped, counted_error total _⟩
    · rcases sized.decode lawful with ⟨reply, stopped, counted⟩ | ⟨later, went, sized⟩
      · exact .inl ⟨reply, (andThen_next grown).trans stopped, counted⟩
      · exact .inr ⟨later, (andThen_next grown).trans went, sized⟩

/-- Every state that the loop comes to is within 32 bits. -/
theorem Sized.comes (lawful : decoder.Lawful) {algo : Algo} {state : Unpacking decoder}
    (sized : Sized alloc total unpacking) (comes : Comes (loopOf alloc algo) unpacking state) :
    Sized alloc total state := by
  apply comes.keeps ?_ sized
  intro before after sized went
  rcases sized.pass lawful algo with ⟨reply, stopped, -⟩ | ⟨later, step, kept⟩
  · rw [went] at stopped
    cases stopped
  · obtain rfl := Pass.next.inj (went.symm.trans step)
    exact kept

/-- Every buffer that is doubled can be doubled within 32 bits. -/
theorem Sized.doubled (lawful : decoder.Lawful) {algo : Algo} {full : Unpacking decoder}
    (sized : Sized alloc total unpacking) (doubles : Doubles alloc algo unpacking full) :
    full.cap * 2 < 2 ^ 32 := by
  obtain ⟨all, way⟩ := doubles
  split at way
  · rename_i zstd
    obtain ⟨state, comes, step⟩ := way
    have here : Sized alloc total state := by
      apply @Sized.comes _ _ _ _ lawful algo state sized
      rw [loopOf, if_pos zstd]
      exact comes
    rcases here.decode lawful with ⟨reply, stopped, -⟩ | ⟨later, went, kept⟩
    · rw [step] at stopped
      cases stopped
    · obtain rfl := Pass.next.inj (step.symm.trans went)
      exact kept.doubles all
  · rename_i zlib
    have here : Sized alloc total full := by
      apply @Sized.comes _ _ _ _ lawful algo full sized
      rw [loopOf, if_neg zlib]
      exact way
    exact here.doubles all

/-- The loop stops with a reply that counts in 32 bits, if it stops. -/
theorem Sized.reply (lawful : decoder.Lawful) {algo : Algo} {reply : Reply (List UInt8)}
    (sized : Sized alloc total unpacking) (stops : Stops (loopOf alloc algo) unpacking reply) :
    Counted total reply :=
  @Stops.spec _ _ _ (Sized alloc total) (Counted total) (fun _ sized => sized.pass lawful algo)
    _ _ sized stops

/-! ## A call -/

/-- The call keeps to 32 bits: its first size has them, and memory is refused or the output is
smaller than a size that the first one is doubled to. -/
def Fits (codecs : Codecs) (memory : Memory) (force : Algo) (input : List UInt8) (most : Nat) :
    Prop :=
  exactCap codecs (chosenAlgo force input) input < 2 ^ 32 ∧
    (¬ Granted codecs memory force input ∨
      Manageable memory.alloc (exactCap codecs (chosenAlgo force input) input) most)

/-- Without what it asks for first a call returns an error. -/
theorem not_granted {codecs : Codecs} {memory : Memory} {force : Algo} {input : List UInt8}
    {decoder : Decoder UInt8 UInt8}
    (found : decoderOf codecs (chosenAlgo force input) = some decoder)
    (refused : ¬ Granted codecs memory force input) (fuel : Nat) :
    compressDecompress codecs memory fuel force (some input) = some (.error (-enomem)) := by
  apply compressDecompress_refused found
  rw [Granted, not_and_or, Bool.not_eq_true, Bool.not_eq_true] at refused
  exact refused

/-- A size that is refused runs short. -/
theorem Refuses.runsShort {cap total : Nat} (filled : 0 < cap) (refuses : Refuses alloc cap total) :
    RunsShort alloc cap total := by
  obtain ⟨k, low, small, refused⟩ := refuses
  have positive : 0 < cap * 2 ^ (k + 1) := Nat.mul_pos filled (Nat.two_pow_pos _)
  have whole : cap * 2 ^ (k + 1) % 2 ^ 32 = cap * 2 ^ (k + 1) := Nat.mod_eq_of_lt small
  have half : cap * 2 ^ k < 2 ^ 32 := by
    rw [← double_pow] at small
    have more : cap * 2 ^ k ≤ cap * 2 * 2 ^ k := by
      rw [Nat.mul_right_comm]
      exact Nat.le_mul_of_pos_right _ (by omega)
    omega
  refine ⟨k, low, half, ?_, ?_⟩
  · rw [whole]
    exact Nat.ne_of_gt positive
  · rw [whole]
    exact refused

/-- The state before the first call of the decoder. -/
theorem sized_start {cap : Nat} {input : List UInt8} (small : cap < 2 ^ 32) (filled : 0 < cap)
    (manageable : Manageable alloc cap (decoder.verdict decoder.start input).most) :
    Sized alloc (decoder.verdict decoder.start input).most (unpackFrom decoder input cap) := by
  have total : (unpackFrom decoder input cap).total =
      (decoder.verdict decoder.start input).most := Nat.zero_add _
  exact ⟨Nat.zero_le _, small, filled, total ▸ manageable, fun _ _ _ => total⟩

/-- A call that fits keeps its sizes. -/
theorem sizesKept_of_fits {codecs : Codecs} (decodes : codecs.Decodes) {memory : Memory}
    {force : Algo} {input : List UInt8} {decoder : Decoder UInt8 UInt8}
    (found : decoderOf codecs (chosenAlgo force input) = some decoder)
    (fits : Fits codecs memory force input (decoder.verdict decoder.start input).most) :
    SizesKept codecs memory force input decoder := by
  have lawful := decodes.lawful found
  obtain ⟨small, condition⟩ := fits
  have filled := exactCap_pos codecs (chosenAlgo force input) input
  have first : firstCap codecs (chosenAlgo force input) input =
      exactCap codecs (chosenAlgo force input) input := by
    rw [firstCap_eq, Nat.mod_eq_of_lt small]
  have sized (granted : Granted codecs memory force input) :
      Sized memory.alloc (decoder.verdict decoder.start input).most
        (unpackFrom decoder input (firstCap codecs (chosenAlgo force input) input)) := by
    rw [first]
    exact sized_start small filled (condition.resolve_left (not_not.mpr granted))
  refine ⟨first, ?_, ?_, ?_, ?_⟩
  · intro granted state comes
    have here := (sized granted).comes lawful comes
    exact ⟨here.within, here.small⟩
  · intro granted full doubles
    exact (sized granted).doubled lawful doubles
  · intro fuel reply ran
    by_cases granted : Granted codecs memory force input
    · rw [compressDecompress_loop found granted.1 granted.2, Option.map_eq_some_iff] at ran
      obtain ⟨inner, ran, rfl⟩ := ran
      obtain ⟨defined, counted⟩ := (sized granted).reply lawful ⟨fuel, ran⟩
      cases inner with
      | ok output =>
        refine ⟨by rintro ⟨⟩, ?_⟩
        rintro _ ⟨⟩
        exact (counted output rfl).1
      | error code => exact ⟨by rintro ⟨⟩, by rintro _ ⟨⟩⟩
      | undefined => exact absurd rfl defined
    · rw [not_granted found granted] at ran
      obtain rfl := Option.some.inj ran
      exact ⟨by rintro ⟨⟩, by rintro _ ⟨⟩⟩
  · intro large
    by_cases granted : Granted codecs memory force input
    · have refuses : Refuses memory.alloc (exactCap codecs (chosenAlgo force input) input)
          (decoder.verdict decoder.start input).most := by
        rcases condition.resolve_left (not_not.mpr granted) with refuses | ⟨k, high, low⟩
        · exact refuses
        · omega
      have total : (unpackFrom decoder input
          (firstCap codecs (chosenAlgo force input) input)).total =
            (decoder.verdict decoder.start input).most := Nat.zero_add _
      have bounded : Bounded memory.alloc (unpackFrom decoder input
          (firstCap codecs (chosenAlgo force input) input)) := by
        rw [Bounded, total]
        show RunsShort memory.alloc (firstCap codecs (chosenAlgo force input) input) _ ∨ _
        rw [first]
        exact .inl (refuses.runsShort filled)
      obtain ⟨reply, stops, -⟩ := loopOf_stops lawful (chosenAlgo force input)
        (first ▸ small) bounded
      obtain ⟨defined, counted⟩ := (sized granted).reply lawful stops
      obtain ⟨fuel, ran⟩ := stops
      refine ⟨fuel, ?_⟩
      rw [compressDecompress_loop found granted.1 granted.2, ran]
      cases reply with
      | ok output =>
        obtain ⟨short, whole⟩ := counted output rfl
        omega
      | error code => exact ⟨code, rfl⟩
      | undefined => exact absurd rfl defined
    · exact ⟨0, -enomem, not_granted found granted 0⟩

/-! ## Outputs that do not fit -/

/-- The output of a stream that is not broken is larger than every size of 32 bits that the
buffer is doubled to; for a stream that is cut off it is enough that it fills them all. -/
def Overruns (cap total : Nat) : Verdict UInt8 → Prop
  | .ended _ _ => ∀ k, cap * 2 ^ k < 2 ^ 32 → cap * 2 ^ k < total
  | .cut _ => ∀ k, cap * 2 ^ k < 2 ^ 32 → cap * 2 ^ k ≤ total
  | .failed _ => False

/-- It fills them all. -/
theorem Overruns.reaches {cap total : Nat} {verdict : Verdict UInt8}
    (overruns : Overruns cap total verdict) (k : Nat) (small : cap * 2 ^ k < 2 ^ 32) :
    cap * 2 ^ k ≤ total := by
  cases verdict with
  | ended length output => exact Nat.le_of_lt (overruns k small)
  | cut output => exact overruns k small
  | failed most => exact overruns.elim

/-- It is not broken. -/
theorem Overruns.sound {cap total : Nat} {verdict : Verdict UInt8}
    (overruns : Overruns cap total verdict) (most : Nat) : verdict ≠ .failed most := by
  rintro rfl
  exact overruns

/-- It overruns the doubled buffer as well. -/
theorem Overruns.double {cap total : Nat} {verdict : Verdict UInt8}
    (overruns : Overruns cap total verdict) : Overruns (cap * 2) total verdict := by
  cases verdict with
  | ended length output =>
    intro k small
    rw [double_pow] at small ⊢
    exact overruns (k + 1) small
  | cut output =>
    intro k small
    rw [double_pow] at small ⊢
    exact overruns (k + 1) small
  | failed most => exact overruns

/-- What is left of the stream overruns the buffer as the stream did. -/
theorem Overruns.follows {cap total consumed : Nat} {whole rest : Verdict UInt8}
    {produced : List UInt8} (overruns : Overruns cap total whole)
    (follows : whole.Follows consumed produced rest) : Overruns cap total rest := by
  cases rest with
  | ended length output =>
    rw [show whole = _ from follows] at overruns
    exact overruns
  | cut output =>
    rw [show whole = _ from follows] at overruns
    exact overruns
  | failed most =>
    obtain ⟨all, same, -⟩ := follows
    exact absurd same (overruns.sound all)

/-- A call of the decoder fills a buffer that is overrun. -/
theorem Overruns.fills (lawful : decoder.Lawful)
    (within : unpacking.out.length ≤ unpacking.cap) (small : unpacking.cap < 2 ^ 32)
    (overruns : Overruns unpacking.cap unpacking.total unpacking.verdict) :
    ∃ later, decodeStep unpacking = .next later ∧ later.out.length = later.cap ∧
      later.cap = unpacking.cap ∧ later.total = unpacking.total ∧
      Overruns later.cap later.total later.verdict := by
  have once : unpacking.cap * 2 ^ 0 = unpacking.cap := by omega
  have reached : unpacking.cap ≤ unpacking.total := once ▸ overruns.reaches 0 (once.symm ▸ small)
  rcases decodeStep_cases lawful within with ⟨length, output, verdict, fits, -⟩ |
    ⟨most, failed, -⟩ | ⟨later, step, called⟩
  · rw [verdict] at overruns
    have more := overruns 0 (once.symm ▸ small)
    rw [Unpacking.total, verdict] at more
    have most : (Verdict.ended length output).most = output.length := rfl
    omega
  · exact absurd failed (overruns.sound most)
  · have total := called.total_eq overruns.sound
    have full : later.out.length = later.cap := by
      rcases called.stuck with full | ⟨spare, -, -⟩
      · exact full
      · have low := (called.spare spare).2
        omega
    obtain ⟨consumed, produced, -, follows⟩ := called.follows
    refine ⟨later, step, full, called.cap, total, ?_⟩
    rw [called.cap, total]
    exact overruns.follows follows

/-- A full buffer that can be doubled is doubled, when memory is not refused. -/
theorem growFull_doubles {later : Unpacking decoder} (full : later.out.length = later.cap)
    (filled : 0 < later.cap) (fits : later.cap * 2 < 2 ^ 32) (reached : later.cap ≤ total)
    (memory : ¬ Refuses alloc later.cap total) :
    growFull alloc later = .next { later with cap := later.cap * 2 } ∧
      ¬ Refuses alloc (later.cap * 2) total := by
  have whole : later.cap * 2 % 2 ^ 32 = later.cap * 2 := Nat.mod_eq_of_lt fits
  constructor
  · rcases @growFull_full _ alloc _ full (by omega) with ⟨-, beyond, -⟩ | ⟨-, -, refused⟩ |
      ⟨grown, -⟩
    · omega
    · rw [whole] at refused
      have once : later.cap * 2 ^ (0 + 1) = later.cap * 2 := by omega
      have first : Refuses alloc later.cap total :=
        ⟨0, by omega, once ▸ fits, once ▸ refused⟩
      exact absurd first memory
    · exact grown
  · rintro ⟨k, low, small, refused⟩
    rw [double_pow] at low small refused
    exact memory ⟨k + 1, low, small, refused⟩

/-- The loop of zstd comes to double a buffer that is overrun beyond 32 bits. -/
theorem zstdLoop_overruns (lawful : decoder.Lawful) (filled : 0 < unpacking.cap)
    (within : unpacking.out.length ≤ unpacking.cap) (small : unpacking.cap < 2 ^ 32)
    (overruns : Overruns unpacking.cap unpacking.total unpacking.verdict)
    (memory : ¬ Refuses alloc unpacking.cap unpacking.total) :
    ∃ full state : Unpacking decoder, full.out.length = full.cap ∧
      Comes (zstdLoop alloc) unpacking state ∧ decodeStep state = .next full ∧
      2 ^ 32 ≤ full.cap * 2 := by
  induction left : 2 ^ 32 - unpacking.cap using Nat.strong_induction_on generalizing unpacking with
  | _ left ih =>
    obtain ⟨later, step, full, cap, total, still⟩ := overruns.fills lawful within small
    by_cases beyond : 2 ^ 32 ≤ later.cap * 2
    · exact ⟨later, unpacking, full, .start, step, beyond⟩
    have reached : later.cap ≤ later.total := by
      rw [Unpacking.total]
      omega
    have memory : ¬ Refuses alloc later.cap later.total := by
      rw [cap, total]
      exact memory
    obtain ⟨grown, memory⟩ := growFull_doubles full (by omega) (by omega) reached memory
    have pass : zstdLoop alloc unpacking = .next { later with cap := later.cap * 2 } :=
      (andThen_next step).trans grown
    have room : later.out.length ≤ later.cap * 2 := by omega
    obtain ⟨last, state, all, comes, came, overrun⟩ := @ih (2 ^ 32 - later.cap * 2) (by omega)
      { later with cap := later.cap * 2 } (show 0 < later.cap * 2 by omega) room
      (show later.cap * 2 < 2 ^ 32 by omega) still.double memory rfl
    exact ⟨last, state, all, comes.later pass, came, overrun⟩

/-- So does the loop of zlib, from a state in which it goes on with a call of the decoder. -/
theorem zlibLoop_overruns (lawful : decoder.Lawful) {head : Unpacking decoder}
    (calls : zlibLoop alloc head = decodeStep unpacking) (filled : 0 < unpacking.cap)
    (within : unpacking.out.length ≤ unpacking.cap) (small : unpacking.cap < 2 ^ 32)
    (overruns : Overruns unpacking.cap unpacking.total unpacking.verdict)
    (memory : ¬ Refuses alloc unpacking.cap unpacking.total) :
    ∃ full : Unpacking decoder, full.out.length = full.cap ∧
      Comes (zlibLoop alloc) head full ∧ 2 ^ 32 ≤ full.cap * 2 := by
  induction left : 2 ^ 32 - unpacking.cap using Nat.strong_induction_on
    generalizing unpacking head with
  | _ left ih =>
    obtain ⟨later, step, full, cap, total, still⟩ := overruns.fills lawful within small
    have pass : zlibLoop alloc head = .next later := calls.trans step
    by_cases beyond : 2 ^ 32 ≤ later.cap * 2
    · exact ⟨later, full, .pass .start pass, beyond⟩
    have reached : later.cap ≤ later.total := by
      rw [Unpacking.total]
      omega
    have memory : ¬ Refuses alloc later.cap later.total := by
      rw [cap, total]
      exact memory
    obtain ⟨grown, memory⟩ := growFull_doubles full (by omega) (by omega) reached memory
    have again : zlibLoop alloc later = decodeStep { later with cap := later.cap * 2 } :=
      andThen_next grown
    have room : later.out.length ≤ later.cap * 2 := by omega
    obtain ⟨last, all, comes, overrun⟩ := @ih (2 ^ 32 - later.cap * 2) (by omega)
      { later with cap := later.cap * 2 } later again (show 0 < later.cap * 2 by omega) room
      (show later.cap * 2 < 2 ^ 32 by omega) still.double memory rfl
    exact ⟨last, all, comes.later pass, overrun⟩

/-- The loop of an algorithm comes to double a buffer that is overrun beyond 32 bits. -/
theorem loopOf_overruns (lawful : decoder.Lawful) (algo : Algo) {input : List UInt8} {cap : Nat}
    (filled : 0 < cap) (small : cap < 2 ^ 32)
    (overruns : Overruns cap (decoder.verdict decoder.start input).most
      (decoder.verdict decoder.start input))
    (memory : ¬ Refuses alloc cap (decoder.verdict decoder.start input).most) :
    ∃ full, Doubles alloc algo (unpackFrom decoder input cap) full ∧ 2 ^ 32 ≤ full.cap * 2 := by
  have total : (unpackFrom decoder input cap).total =
      (decoder.verdict decoder.start input).most := Nat.zero_add _
  have within : (unpackFrom decoder input cap).out.length ≤
      (unpackFrom decoder input cap).cap := Nat.zero_le _
  have overrun : Overruns (unpackFrom decoder input cap).cap (unpackFrom decoder input cap).total
      (unpackFrom decoder input cap).verdict := by
    rw [total]
    exact overruns
  have memory : ¬ Refuses alloc (unpackFrom decoder input cap).cap
      (unpackFrom decoder input cap).total := by
    rw [total]
    exact memory
  by_cases zstd : algo = .zstd
  · obtain ⟨full, state, all, comes, came, beyond⟩ :=
      zstdLoop_overruns lawful filled within small overrun memory
    refine ⟨full, ⟨all, ?_⟩, beyond⟩
    rw [if_pos zstd]
    exact ⟨state, comes, came⟩
  · have calls : zlibLoop alloc (unpackFrom decoder input cap) =
        decodeStep (unpackFrom decoder input cap) :=
      andThen_next (growFull_spare filled)
    obtain ⟨full, all, comes, beyond⟩ :=
      zlibLoop_overruns lawful calls filled within small overrun memory
    refine ⟨full, ⟨all, ?_⟩, beyond⟩
    rw [if_neg zstd]
    exact comes

/-- When a call fits, its sizes are kept within 32 bits, in every state of its loop. When they
are, its first size has 32 bits, and memory is refused or the output does not overrun every size
that the first one is doubled to. -/
theorem decompress_sizes_iff {codecs : Codecs} (decodes : codecs.Decodes) (memory : Memory)
    {force : Algo} {input : List UInt8} {decoder : Decoder UInt8 UInt8}
    (found : decoderOf codecs (chosenAlgo force input) = some decoder) :
    (Fits codecs memory force input (decoder.verdict decoder.start input).most →
      SizesKept codecs memory force input decoder) ∧
    (SizesKept codecs memory force input decoder →
      exactCap codecs (chosenAlgo force input) input < 2 ^ 32 ∧
        (¬ Granted codecs memory force input ∨
          Refuses memory.alloc (exactCap codecs (chosenAlgo force input) input)
            (decoder.verdict decoder.start input).most ∨
          ¬ Overruns (exactCap codecs (chosenAlgo force input) input)
            (decoder.verdict decoder.start input).most
            (decoder.verdict decoder.start input))) := by
  refine ⟨sizesKept_of_fits decodes found, ?_⟩
  intro kept
  have small := firstCap_lt codecs (chosenAlgo force input) input
  have filled := exactCap_pos codecs (chosenAlgo force input) input
  rw [kept.first] at small
  refine ⟨small, ?_⟩
  by_contra neither
  rw [not_or, not_not, not_or, not_not] at neither
  obtain ⟨granted, memory, overruns⟩ := neither
  obtain ⟨full, doubles, beyond⟩ := loopOf_overruns (decodes.lawful found)
    (chosenAlgo force input) filled small overruns memory
  have fits := kept.doubled granted full (kept.first ▸ doubles)
  omega

/-- For the stream of an empty input the sizes are kept. -/
theorem decompress_sizes_empty :
    SizesKept storedCodecs enoughMemory .auto (storedZlib false []) storedCodecs.inflate := by
  have roomy : HasRoom 4096 0 := ⟨0, by decide, by decide⟩
  exact (decompress_sizes_iff storedCodecs_decodes enoughMemory
    (show decoderOf storedCodecs (chosenAlgo .auto (storedZlib false [])) = _ from rfl)).1
    ⟨by decide, .inr (.inr roomy)⟩

/-! ## A declared size of more than 32 bits -/

/-- A decoder for frames that are always cut off. -/
def cutDecoder : Decoder UInt8 UInt8 where
  State := Unit
  start := ()
  decode state window _ := ⟨state, window.length, [], .more⟩
  verdict _ _ := .cut []

/-- It is lawful. -/
theorem cutDecoder_lawful : cutDecoder.Lawful where
  bounded _ _ _ := ⟨Nat.le_refl _, Nat.zero_le _⟩
  failed _ _ _ report := by cases report
  ended _ _ _ report := by cases report
  more _ _ _ _ _ := rfl
  last _ _ _ _ _ _ _ ended := by cases ended
  drained _ _ _ _ _ := ⟨rfl, rfl⟩
  inside _ _ _ _ ended := by cases ended
  filled _ _ ended := by cases ended

/-- The size in a frame header with a size of eight bytes and no dictionary. -/
def headerSize (stream : List UInt8) : ContentSize :=
  if stream.take 5 = [0x28, 0xB5, 0x2F, 0xFD, 0xC0] ∧ 14 ≤ stream.length then
    .known (((stream.drop 6).take 8).foldr (fun byte size => byte.toNat + 256 * size) 0)
  else .unknown

/-- A frame header that declares a size of 2^32 bytes. -/
def hugeFrame : List UInt8 := [0x28, 0xB5, 0x2F, 0xFD, 0xC0, 0, 0, 0, 0, 0, 1, 0, 0, 0]

/-- Codecs that read the declared size, for a frame of which there is only the header. -/
def headerCodecs : Codecs := { storedCodecs with
  unzstd := cutDecoder
  frameContentSize := headerSize }

/-- Their decoders are lawful. -/
theorem headerCodecs_decodes : headerCodecs.Decodes :=
  ⟨storedCodecs_decodes.inflate, cutDecoder_lawful⟩

/-- A declared size of 2^32 bytes gives a buffer of size 0, which is doubled to size 0. -/
theorem declared_size_wraps :
    headerCodecs.Decodes ∧
    exactCap headerCodecs (chosenAlgo .auto hugeFrame) hugeFrame = 2 ^ 32 ∧
    firstCap headerCodecs (chosenAlgo .auto hugeFrame) hugeFrame = 0 ∧
    compressDecompress headerCodecs enoughMemory 1 .auto (some hugeFrame) = some .undefined ∧
    ¬ SizesKept headerCodecs enoughMemory .auto hugeFrame headerCodecs.unzstd := by
  have undefined : compressDecompress headerCodecs enoughMemory 1 .auto (some hugeFrame) =
      some .undefined := by decide +kernel
  refine ⟨headerCodecs_decodes, by decide +kernel, by decide +kernel, undefined, ?_⟩
  intro kept
  exact (kept.returned 1 .undefined undefined).1 rfl

end HwrunOs.Compress
