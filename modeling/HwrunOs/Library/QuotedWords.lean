import HwrunOs.Library.SimpleCommands

/-!
# A quoted word behind words

A command of words with single spaces between them, and behind them one more word between double
quotes, as programs write it that quote the last argument only. It is read back exactly when the
words stand alone and nothing in the quoted text has a meaning of its own there. Each byte that a
reading takes without a byte of a word for it is lost; the two quotes must be all that is lost.
-/

namespace HwrunOs.SimpleCommands

open HwrunOs.Bytes HwrunOs.Shells

/-! ## Text between double quotes -/

/-- A text that means itself between double quotes: no quote, no expansion, and no backslash that
takes the next byte's meaning away. -/
def standsQuoted : CString → Bool
  | [] => true
  | byte :: rest =>
    byte != 34 && !introduces byte rest.head? &&
      (byte != 92 || rest.head?.any fun next => escapedBytes next == [92, next]) &&
      standsQuoted rest

/-- A word between double quotes, behind a space. -/
def quotedTail (text : CString) : CString := 32 :: 34 :: (text ++ [34])

/-- A text that means itself, by its first byte. -/
theorem standsQuoted_cons {byte : UInt8} {rest : CString} :
    standsQuoted (byte :: rest) = true ↔ byte ≠ 34 ∧ introduces byte rest.head? = false ∧
      (byte = 92 → ∃ next, rest.head? = some next ∧ escapedBytes next = [92, next]) ∧
      standsQuoted rest = true := by
  simp only [standsQuoted, Bool.and_eq_true, bne_iff_ne, Bool.not_eq_true', Bool.or_eq_true,
    Option.any_eq_true, beq_iff_eq, and_assoc]
  constructor
  · rintro ⟨quote, still, slash, rest_⟩
    exact ⟨quote, still, fun same => slash.resolve_left (absurd same), rest_⟩
  · rintro ⟨quote, still, slash, rest_⟩
    refine ⟨quote, still, ?_, rest_⟩
    by_cases same : byte = 92
    · exact .inr (slash same)
    · exact .inl same

/-! ## What is lost before a closing quote -/

/-- How many bytes are lost at least of a text that ends with a double quote. -/
def lost : Mode → Nat
  | .bare | .double _ | .doubleEscape => 1
  | .escape => 0
  | .single => 2

/-- What ends with a double quote does so behind its first byte. -/
theorem ends_cons {byte : UInt8} {rest : CString} (ends : (byte :: rest).getLast? = some 34) :
    rest = [] ∧ byte = 34 ∨ rest.getLast? = some 34 := by
  cases rest with
  | nil =>
    rw [List.getLast?_singleton] at ends
    exact .inl ⟨rfl, Option.some.inj ends⟩
  | cons next more =>
    rw [List.getLast?_cons_cons] at ends
    exact .inr ends

/-- A double quote at the end of a command closes a quotation or is escaped. -/
theorem wordsFrom_closing {mode : Mode} {word : Option CString} {text : CString}
    {words : List CString} (read : wordsFrom mode word text = some words)
    (ends : text.getLast? = some 34) :
    (spaced words).length + lost mode ≤ weight mode word + text.length := by
  fun_induction wordsFrom mode word text generalizing words with
  | case1 => cases ends
  | case2 | case7 | case9 | case11 | case17 | case19 => cases read
  | case3 word byte rest blank ih =>
    obtain ⟨later, inner, rfl⟩ := Option.map_eq_some_iff.mp read
    rcases ends_cons ends with ⟨rfl, rfl⟩ | ends
    · cases blank
    · have bound := ih inner ends
      cases word with
      | none =>
        simp [weight, lost] at bound ⊢
        omega
      | some word =>
        simp [spaced_cons, weight, lost] at bound ⊢
        omega
  | case8 =>
    cases read
    simp [spaced, weight, lost]
    omega
  | case10 word byte rest _ _ _ other _ _ ih =>
    rcases ends_cons ends with ⟨rfl, rfl⟩ | ends
    · exact absurd rfl other
    · have bound := ih read ends
      simp [weight, lost] at bound ⊢
      omega
  | case12 word byte rest _ ih =>
    rcases ends_cons ends with ⟨rfl, rfl⟩ | ends
    · have bound := wordsFrom_length read
      simp [weight, lost] at bound ⊢
      omega
    · have bound := ih read ends
      simp [weight, lost] at bound ⊢
      omega
  | case15 word rest _ ih =>
    rcases ends_cons ends with ⟨rfl, -⟩ | ends
    · have bound := wordsFrom_length read
      simp [weight, lost] at bound ⊢
      omega
    · have bound := ih read ends
      simp [weight, lost] at bound ⊢
      omega
  | case18 word byte rest _ other _ _ ih =>
    rcases ends_cons ends with ⟨rfl, rfl⟩ | ends
    · exact absurd rfl other
    · have bound := ih read ends
      simp [weight, lost] at bound ⊢
      omega
  | case20 word byte rest _ ih =>
    rcases ends_cons ends with ⟨rfl, -⟩ | ends
    · cases read
    · have bound := ih read ends
      have most := escapedBytes_length byte
      simp [weight, lost] at bound ⊢
      omega
  | case6 word rest _ _ _ ih | case14 word byte rest _ ih =>
    rcases ends_cons ends with ⟨rfl, -⟩ | ends
    · cases read
    · have bound := ih read ends
      simp [weight, lost] at bound ⊢
      omega
  | case4 | case5 | case13 | case16 =>
    rename_i ih
    rcases ends_cons ends with ⟨-, other⟩ | ends
    · cases other
    · have bound := ih read ends
      simp [weight, lost] at bound ⊢
      omega

/-! ## Between double quotes -/

/-- The bytes of a closed quotation. -/
theorem closed_ends (text : CString) : (text ++ [34]).getLast? = some 34 := by simp

/-- The closing quote does not make a dollar sign before it special. -/
theorem introduces_closed (byte : UInt8) (rest : CString) :
    introduces byte (rest ++ [34]).head? = introduces byte rest.head? := by
  have quote : startsExpansion 34 = false := by decide
  cases rest with
  | nil => simp [introduces, quote]
  | cons next more => rfl

/-- Behind a backslash a byte loses a meaning, or both stand for themselves. -/
theorem escapedBytes_cases {byte : UInt8} (feed : byte ≠ newline) :
    (byte = 36 ∨ byte = 96 ∨ byte = 34 ∨ byte = 92) ∧ escapedBytes byte = [byte] ∨
      ¬ (byte = 36 ∨ byte = 96 ∨ byte = 34 ∨ byte = 92) ∧ escapedBytes byte = [92, byte] := by
  unfold escapedBytes
  rw [if_neg (by simpa using feed)]
  by_cases taken : byte = 36 ∨ byte = 96 ∨ byte = 34 ∨ byte = 92
  · exact .inl ⟨taken, if_pos (by simpa [or_assoc] using taken)⟩
  · exact .inr ⟨taken, if_neg (by simpa [or_assoc] using taken)⟩

/-- A backslash means itself before a byte that it takes nothing from. -/
theorem standsQuoted_slash {byte : UInt8} {rest : CString}
    (usual : ¬ (byte = 36 ∨ byte = 96 ∨ byte = 34 ∨ byte = 92))
    (kept : escapedBytes byte = [92, byte]) (stands : standsQuoted rest = true) :
    standsQuoted (92 :: byte :: rest) = true := by
  simp only [not_or] at usual
  obtain ⟨dollar, back, quote, slash⟩ := usual
  have later : standsQuoted (byte :: rest) = true :=
    standsQuoted_cons.mpr
      ⟨quote, by simp [introduces, dollar, back], fun other => absurd other slash, stands⟩
  exact standsQuoted_cons.mpr ⟨by decide, by simp [introduces], fun _ => ⟨byte, rfl, kept⟩, later⟩

/-- A quoted text that is read whole, with no loss but its closing quote, means itself. In the
second half a backslash has just been read. -/
theorem wordsFrom_quoted_tight (text : CString) :
    (∀ front words, wordsFrom (.double 0) (some front) (text ++ [34]) = some words →
      (spaced words).length = front.length + 1 + text.length →
        standsQuoted text = true ∧ words = [front ++ text]) ∧
    ∀ front words, wordsFrom .doubleEscape (some front) (text ++ [34]) = some words →
      (spaced words).length = front.length + 2 + text.length →
        standsQuoted (92 :: text) = true ∧ words = [front ++ 92 :: text] := by
  induction text with
  | nil =>
    constructor
    · intro front words read _
      cases read
      exact ⟨rfl, by simp⟩
    · intro front words read _
      cases read
  | cons byte rest ih =>
    obtain ⟨plainly, escaped⟩ := ih
    have ends := closed_ends rest
    constructor
    · intro front words read tight
      rw [List.cons_append, wordsFrom] at read
      rw [List.length_cons] at tight
      split at read
      next quote =>
        have bound := wordsFrom_closing read ends
        simp [lost, weight] at bound
        omega
      split at read
      next slash =>
        obtain ⟨stands, whole⟩ := escaped front words read (by omega)
        rw [slash]
        exact ⟨stands, whole⟩
      split at read
      next => cases read
      next quote slash still =>
        obtain ⟨stands, whole⟩ := plainly _ words read (by simp; omega)
        refine ⟨standsQuoted_cons.mpr ⟨quote, ?_, fun other => absurd other slash, stands⟩, ?_⟩
        · rw [← introduces_closed]
          simpa using still
        · rw [whole, Option.getD_some, List.append_assoc]
          rfl
    · intro front words read tight
      rw [List.cons_append, wordsFrom] at read
      rw [List.length_cons] at tight
      split at read
      next => cases read
      next feed =>
        rcases escapedBytes_cases feed with ⟨-, taken⟩ | ⟨usual, kept⟩
        · rw [taken] at read
          have bound := wordsFrom_closing read ends
          simp [lost, weight] at bound
          omega
        · rw [kept] at read
          obtain ⟨stands, whole⟩ := plainly _ words read (by simp; omega)
          refine ⟨standsQuoted_slash usual kept stands, ?_⟩
          rw [whole, Option.getD_some, List.append_assoc]
          rfl

/-- A quoted text that means itself is read as it is. In the second half a backslash has just been
read. -/
theorem wordsFrom_quoted (text : CString) :
    (∀ front, standsQuoted text = true →
      wordsFrom (.double 0) (some front) (text ++ [34]) = some [front ++ text]) ∧
    ∀ front, standsQuoted (92 :: text) = true →
      wordsFrom .doubleEscape (some front) (text ++ [34]) = some [front ++ 92 :: text] := by
  induction text with
  | nil =>
    constructor
    · intro front _
      rw [List.append_nil]
      rfl
    · intro front stands
      obtain ⟨-, -, slash, -⟩ := standsQuoted_cons.mp stands
      obtain ⟨next, absent, -⟩ := slash rfl
      cases absent
  | cons byte rest ih =>
    obtain ⟨plainly, escaped⟩ := ih
    constructor
    · intro front stands
      obtain ⟨quote, still, -, stands_⟩ := standsQuoted_cons.mp stands
      rw [List.cons_append, wordsFrom, if_neg quote]
      by_cases slash : byte = 92
      · rw [if_pos slash, escaped front (slash ▸ stands), slash]
      · rw [if_neg slash, introduces_closed, still]
        have whole := plainly (front ++ [byte]) stands_
        rw [List.append_assoc] at whole
        exact whole
    · intro front stands
      obtain ⟨-, -, slash, stands_⟩ := standsQuoted_cons.mp stands
      obtain ⟨next, here, kept⟩ := slash rfl
      obtain rfl : byte = next := Option.some.inj here
      have feed : byte ≠ newline := by
        rintro rfl
        cases kept
      rw [List.cons_append, wordsFrom, if_neg feed, kept, Option.getD_some,
        plainly _ (standsQuoted_cons.mp stands_).2.2.2, List.append_assoc]
      rfl

/-! ## Words in front of the quotation -/

/-- A quotation loses its two quotes, however its first one is read. -/
theorem wordsFrom_quotation {mode : Mode} (inner : mode ≠ .escape ∧ mode ≠ .doubleEscape)
    {word : Option CString} (text : CString) {words : List CString}
    (read : wordsFrom mode word (34 :: (text ++ [34])) = some words) :
    (spaced words).length ≤ weight mode word + text.length := by
  have ends := closed_ends text
  obtain ⟨bare, slash⟩ := inner
  cases mode with
  | bare =>
    have opened : wordsFrom (.double 0) (some (word.getD [])) (text ++ [34]) = some words := read
    have bound := wordsFrom_closing opened ends
    simp [lost, weight] at bound ⊢
    omega
  | escape => exact absurd rfl bare
  | single =>
    have bound := wordsFrom_closing read (closed_ends (34 :: text))
    simp [lost, weight] at bound ⊢
    omega
  | double taken =>
    have closed : wordsFrom .bare word (text ++ [34]) = some words := read
    have bound := wordsFrom_closing closed ends
    simp [lost, weight] at bound ⊢
    omega
  | doubleEscape => exact absurd rfl slash

/-- The first byte of a text with a quotation behind it is one of its own, or the space. -/
theorem tail_cons {byte : UInt8} {front rest text : CString}
    (whole : byte :: rest = front ++ 32 :: 34 :: text) :
    byte = 32 ∧ rest = 34 :: text ∨
      ∃ more, front = byte :: more ∧ rest = more ++ 32 :: 34 :: text := by
  cases front with
  | nil =>
    cases whole
    exact .inl ⟨rfl, rfl⟩
  | cons first more =>
    cases whole
    exact .inr ⟨more, rfl, rfl⟩

/-- In every mode the two quotes are lost. -/
theorem wordsFrom_tail {mode : Mode} {word : Option CString} {full : CString}
    {words : List CString} (read : wordsFrom mode word full = some words) {front text : CString}
    (whole : full = front ++ quotedTail text) :
    (spaced words).length + 2 ≤ weight mode word + full.length := by
  fun_induction wordsFrom mode word full generalizing words front with
  | case1 => cases front <;> cases whole
  | case2 | case7 | case9 | case11 | case17 | case19 => cases read
  | case3 word byte rest blank ih =>
    obtain ⟨later, inner, rfl⟩ := Option.map_eq_some_iff.mp read
    have bound : (spaced later).length + 2 ≤ weight .bare none + rest.length := by
      rcases tail_cons whole with ⟨rfl, rfl⟩ | ⟨more, -, whole⟩
      · have bound := wordsFrom_quotation (by decide) text inner
        simp at bound ⊢
        omega
      · exact ih inner whole
    cases word with
    | none =>
      simp [weight] at bound ⊢
      omega
    | some word =>
      simp [spaced_cons, weight] at bound ⊢
      omega
  | case8 word byte rest =>
    cases read
    simp [spaced, weight]
    omega
  | case10 word byte rest blank _ _ _ _ _ ih =>
    rcases tail_cons whole with ⟨rfl, -⟩ | ⟨more, -, whole⟩
    · exact absurd rfl blank
    · have bound := ih read whole
      simp [weight] at bound ⊢
      omega
  | case12 word byte rest _ ih | case18 word byte rest _ _ _ _ ih | case14 word byte rest _ ih =>
    rcases tail_cons whole with ⟨rfl, rfl⟩ | ⟨more, -, whole⟩
    · have bound := wordsFrom_quotation (by decide) text read
      simp [weight] at bound ⊢
      omega
    · have bound := ih read whole
      simp [weight] at bound ⊢
      omega
  | case20 word byte rest _ ih =>
    have most := escapedBytes_length byte
    rcases tail_cons whole with ⟨rfl, rfl⟩ | ⟨more, -, whole⟩
    · have bound := wordsFrom_quotation (by simp) text read
      simp [weight] at bound ⊢
      omega
    · have bound := ih read whole
      simp [weight] at bound ⊢
      omega
  | case4 | case5 | case6 | case13 | case15 | case16 =>
    rename_i ih
    rcases tail_cons whole with ⟨other, -⟩ | ⟨more, -, whole⟩
    · cases other
    · have bound := ih read whole
      simp [weight] at bound ⊢
      omega

/-- The rest of a word ends before the quotation. -/
theorem ahead_tail (front text : CString) : ahead (front ++ quotedTail text) = ahead front := by
  induction front with
  | nil => exact ahead_blank rfl _
  | cons byte rest ih =>
    by_cases blank : isBlank byte = true
    · rw [List.cons_append, ahead_blank blank, ahead_blank blank]
    · rw [List.cons_append, ahead_solid (by simpa using blank), ih,
        ahead_solid (by simpa using blank)]

/-- When nothing but the two quotes is lost, the words in front stand alone and the quoted text
means itself. -/
theorem wordsFrom_tight_tail {word : Option CString} {front text : CString} {words : List CString}
    (read : wordsFrom .bare word (front ++ quotedTail text) = some words)
    (tight : (spaced words).length + 2 =
      weight .bare word + (front ++ quotedTail text).length) :
    standsQuoted text = true ∧ ∃ before, words = before ++ [text] ∧
      (word = none → ∀ item ∈ before, StandsAlone item = true) ∧
      ∀ start, word = some start → plain (ahead front) = true ∧ ∃ later,
        before = (start ++ ahead front) :: later ∧ ∀ item ∈ later, StandsAlone item = true := by
  induction front generalizing word words with
  | nil =>
    obtain ⟨later, inner, rfl⟩ := Option.map_eq_some_iff.mp read
    have bound := wordsFrom_quotation (by decide) text inner
    cases word with
    | none =>
      simp [weight, quotedTail] at tight bound
      omega
    | some start =>
      have length : (spaced later).length = 1 + text.length := by
        simp [spaced_cons, weight, quotedTail] at tight
        omega
      obtain ⟨stands, rfl⟩ := (wordsFrom_quoted_tight text).1 [] later inner (by simpa using length)
      refine ⟨stands, [start], rfl, fun never => absurd never (Option.some_ne_none start), ?_⟩
      rintro _ ⟨⟩
      exact ⟨rfl, [], by simp [ahead], List.forall_mem_nil _⟩
  | cons byte rest ih =>
    rw [List.cons_append, List.length_cons] at tight
    rw [List.cons_append, wordsFrom, ahead_tail] at read
    have loses {mode : Mode} {current : Option CString}
        (inner : wordsFrom mode current (rest ++ quotedTail text) = some words)
        (same : weight mode current = weight .bare word) : False := by
      have bound := wordsFrom_tail inner rfl
      omega
    split at read
    next blank =>
      obtain ⟨later, inner, rfl⟩ := Option.map_eq_some_iff.mp read
      have bound := wordsFrom_tail inner rfl
      cases word with
      | none => exact (loses inner rfl).elim
      | some start =>
        obtain ⟨stands, before, rfl, alone, -⟩ := ih inner (by
          simp [spaced_cons, weight] at tight bound ⊢
          omega)
        refine ⟨stands, start :: before, rfl, fun never => absurd never (Option.some_ne_none start),
          ?_⟩
        rintro _ ⟨⟩
        rw [ahead_blank blank]
        exact ⟨rfl, before, by simp, alone rfl⟩
    split at read
    next => exact (loses read (by simp [weight])).elim
    split at read
    next => exact (loses read (by simp [weight])).elim
    split at read
    next => exact (loses read (by simp [weight])).elim
    split at read
    next =>
      split at read
      · cases read
      · cases read
        simp [spaced, weight, quotedTail] at tight
        omega
    split at read
    next => cases read
    next blank slash single double sharp usual =>
      obtain ⟨stands, before, rfl, -, grown⟩ := ih read (by simp [weight] at tight ⊢; omega)
      obtain ⟨behind, later, rfl, alone⟩ := grown _ rfl
      obtain ⟨ordinary, tilde⟩ := not_or.mp usual
      have solid := Bool.eq_false_iff.mpr blank
      have whole : plain (byte :: ahead rest) = true :=
        plain_cons.mpr ⟨solid, by simp [quotes, slash, single, double],
          Bool.eq_false_iff.mpr ordinary, behind⟩
      refine ⟨stands, _, rfl, ?_, ?_⟩
      · rintro rfl item listed
        rcases List.mem_cons.mp listed with rfl | listed
        · simp only [true_and] at sharp tilde
          simp [StandsAlone, whole, sharp, tilde]
        · exact alone item listed
      · rintro start rfl
        rw [ahead_solid solid]
        exact ⟨whole, later, by simp, alone⟩

/-! ## Quotations that are cut off -/

/-- How many bytes are lost at least of any text. -/
def closing : Mode → Nat
  | .bare | .escape => 0
  | .single | .double _ | .doubleEscape => 1

/-- A quotation that is left loses its closing quote. -/
theorem wordsFrom_left {mode : Mode} {word : Option CString} {text : CString}
    {words : List CString} (read : wordsFrom mode word text = some words) :
    (spaced words).length + closing mode ≤ weight mode word + text.length := by
  fun_induction wordsFrom mode word text generalizing words with
  | case2 | case7 | case9 | case11 | case17 | case19 => cases read
  | case1 word =>
    cases read
    cases word with
    | none => exact Nat.zero_le _
    | some word => simp [spaced, weight, closing]
  | case3 word byte rest blank ih =>
    have whole : wordsFrom .bare word (byte :: rest) = some words := by
      rw [wordsFrom, if_pos blank]
      exact read
    exact wordsFrom_length whole
  | case8 =>
    cases read
    exact Nat.zero_le _
  | case20 mode byte rest _ ih =>
    have bound := ih read
    have most := escapedBytes_length byte
    simp [weight, closing] at bound ⊢
    omega
  | case4 | case5 | case6 | case10 | case12 | case13 | case14 | case15 | case16 | case18 =>
    rename_i ih
    have bound := ih read
    simp [weight, closing] at bound ⊢
    omega

/-- How many bytes are lost at least of a text in which a double quote follows a space. -/
def spent : Mode → Nat
  | .bare | .escape => 2
  | .single | .double _ | .doubleEscape => 1

/-- A double quote behind a space is lost or is quoted itself, whatever is behind it. -/
theorem wordsFrom_opened {mode : Mode} {word : Option CString} {full : CString}
    {words : List CString} (read : wordsFrom mode word full = some words) {front text : CString}
    (whole : full = front ++ 32 :: 34 :: text) :
    (spaced words).length + spent mode ≤ weight mode word + full.length := by
  fun_induction wordsFrom mode word full generalizing words front with
  | case1 => cases front <;> cases whole
  | case2 | case7 | case9 | case11 | case17 | case19 => cases read
  | case3 word byte rest blank ih =>
    obtain ⟨later, inner, rfl⟩ := Option.map_eq_some_iff.mp read
    have bound : (spaced later).length + 2 ≤ weight .bare none + rest.length := by
      rcases tail_cons whole with ⟨rfl, rfl⟩ | ⟨more, -, whole⟩
      · have opened : wordsFrom (.double 0) (some []) text = some later := inner
        have bound := wordsFrom_left opened
        simp [weight, closing] at bound ⊢
        omega
      · exact ih inner whole
    cases word with
    | none =>
      simp [weight, spent] at bound ⊢
      omega
    | some word =>
      simp [spaced_cons, weight, spent] at bound ⊢
      omega
  | case8 =>
    cases read
    simp [spaced, weight, spent]
    omega
  | case10 word byte rest blank _ _ _ _ _ ih =>
    rcases tail_cons whole with ⟨rfl, -⟩ | ⟨more, -, whole⟩
    · exact absurd rfl blank
    · have bound := ih read whole
      simp [weight, spent] at bound ⊢
      omega
  | case12 word byte rest _ ih =>
    rcases tail_cons whole with ⟨rfl, rfl⟩ | ⟨more, -, whole⟩
    · have opened : wordsFrom (.double 0) (some (word.getD [] ++ [32])) text = some words := read
      have bound := wordsFrom_left opened
      simp [weight, closing, spent] at bound ⊢
      omega
    · have bound := ih read whole
      simp [weight, spent] at bound ⊢
      omega
  | case14 word byte rest _ ih | case18 word byte rest _ _ _ _ ih =>
    rcases tail_cons whole with ⟨rfl, rfl⟩ | ⟨more, -, whole⟩
    · have bound := wordsFrom_left read
      simp [weight, closing, spent] at bound ⊢
      omega
    · have bound := ih read whole
      simp [weight, spent] at bound ⊢
      omega
  | case20 word byte rest _ ih =>
    have most := escapedBytes_length byte
    rcases tail_cons whole with ⟨rfl, rfl⟩ | ⟨more, -, whole⟩
    · have bound := wordsFrom_left read
      simp [weight, closing, spent] at bound ⊢
      omega
    · have bound := ih read whole
      simp [weight, spent] at bound ⊢
      omega
  | case4 | case5 | case6 | case13 | case15 | case16 =>
    rename_i ih
    rcases tail_cons whole with ⟨other, -⟩ | ⟨more, -, whole⟩
    · cases other
    · have bound := ih read whole
      simp [weight, spent] at bound ⊢
      omega

/-! ## The command -/

/-- Behind a word there is a space. -/
theorem ahead_behind (args : List CString) (text : CString) :
    ahead (spaced args ++ quotedTail text) = [] := by
  cases args with
  | nil => exact ahead_blank rfl _
  | cons word rest =>
    rw [spaced_cons]
    exact ahead_blank rfl _

/-- A word that stands alone is read as it is, before anything that is not part of it. -/
theorem wordsFrom_before {word : CString} (alone : StandsAlone word = true) {after : CString}
    (ends : ahead after = []) :
    wordsFrom .bare none (word ++ after) = wordsFrom .bare (some word) after := by
  obtain ⟨starts, usual⟩ := Bool.and_eq_true_iff.mp alone
  cases word with
  | nil => cases starts
  | cons byte more =>
    obtain ⟨solid, bare, ordinary, behind⟩ := plain_cons.mp usual
    have whole : special byte (ahead (more ++ after)) = false := by
      rw [ahead_append behind, ends, List.append_nil, ordinary]
    have first : byte ≠ 35 ∧ byte ≠ 126 := by simpa using starts
    rw [List.cons_append, wordsFrom_byte solid bare whole fun _ => first]
    exact wordsFrom_plain behind [byte] ends

/-- Words that stand alone are read as they are, and the quoted one behind them. -/
theorem wordsFrom_quotedTail {args : List CString}
    (alone : ∀ word ∈ args, StandsAlone word = true) {text : CString}
    (stands : standsQuoted text = true) (front : CString) :
    wordsFrom .bare (some front) (spaced args ++ quotedTail text) =
      some (front :: (args ++ [text])) := by
  induction args generalizing front with
  | nil =>
    have quoted := (wordsFrom_quoted text).1 [] stands
    show (wordsFrom (.double 0) (some []) (text ++ [34])).map _ = _
    rw [quoted]
    rfl
  | cons word rest ih =>
    obtain ⟨first, others⟩ := List.forall_mem_cons.mp alone
    rw [spaced_cons, List.cons_append, List.append_assoc, wordsFrom,
      if_pos (show isBlank 32 = true from rfl), wordsFrom_before first (ahead_behind rest text),
      ih others]
    rfl

/-- Some words, the first of which names a command, are read as they are with a quoted one behind
them exactly when the others stand alone and the quoted one means itself. -/
theorem commandWords_quoted_iff {name : CString} (alone : StandsAlone name = true)
    (names : namesCommand name = true) (args : List CString) (text : CString) :
    commandWords (name ++ spaced args ++ quotedTail text) = some (name :: (args ++ [text])) ↔
      (∀ word ∈ args, StandsAlone word = true) ∧ standsQuoted text = true := by
  have first : ahead ((name ++ spaced args ++ quotedTail text).dropWhile isBlank) = name := by
    obtain ⟨starts, usual⟩ := Bool.and_eq_true_iff.mp alone
    cases name with
    | nil => cases starts
    | cons byte more =>
      obtain ⟨solid, -⟩ := plain_cons.mp usual
      rw [List.append_assoc, List.cons_append, List.dropWhile_cons_of_neg (by simp [solid]),
        ← List.cons_append, ahead_append usual, ahead_behind, List.append_nil]
  rw [commandWords, first, if_pos names]
  constructor
  · intro read
    have tight : (spaced (name :: (args ++ [text]))).length + 2 =
        weight .bare none + (name ++ spaced args ++ quotedTail text).length := by
      simp [spaced, weight, quotedTail]
      omega
    obtain ⟨stands, before, same, whole, -⟩ := wordsFrom_tight_tail read tight
    have front : name :: args = before := List.append_cancel_right same
    refine ⟨?_, stands⟩
    intro word listed
    exact whole rfl word (front ▸ List.mem_cons_of_mem name listed)
  · rintro ⟨others, stands⟩
    rw [List.append_assoc, wordsFrom_before alone (ahead_behind args text),
      wordsFrom_quotedTail others stands]

/-- What is left of such a command that is cut off does not have its words. -/
theorem commandWords_cut {name : CString} {args : List CString} {text front : CString}
    (begins : front <+: name ++ spaced args ++ quotedTail text)
    (cut : front.length < (name ++ spaced args ++ quotedTail text).length) :
    commandWords front ≠ some (name :: (args ++ [text])) := by
  intro read
  have bound := commandWords_length read
  have inner : wordsFrom .bare none front = some (name :: (args ++ [text])) := by
    rw [commandWords] at read
    split at read
    · exact read
    · cases read
  have size : (spaced (name :: (args ++ [text]))).length =
      (name ++ spaced args).length + text.length + 2 := by
    simp [spaced]
    omega
  have whole : (name ++ spaced args ++ quotedTail text).length =
      (name ++ spaced args).length + text.length + 3 := by
    simp [quotedTail]
    omega
  by_cases opened : (name ++ spaced args).length + 2 ≤ front.length
  · -- The quotation is begun, so two bytes are lost of what is left.
    have opening : name ++ spaced args ++ [32, 34] <+: front := by
      refine List.prefix_of_prefix_length_le ⟨text ++ [34], ?_⟩ begins ?_
      · simp [quotedTail]
      · rw [List.length_append]
        exact opened
    obtain ⟨behind, rfl⟩ := opening
    have apart : name ++ spaced args ++ [32, 34] ++ behind =
        (name ++ spaced args) ++ 32 :: 34 :: behind := by simp
    have two := wordsFrom_opened inner apart
    rw [size] at two
    simp only [spent, weight, Option.getD_none, List.length_nil, reduceCtorEq, if_false] at two
    rw [whole] at cut
    omega
  · -- The quoted word is empty, and it would have to stand alone.
    have empty : text = [] := List.eq_nil_of_length_eq_zero (by omega)
    have alone := (wordsFrom_tight inner (by simp [weight]; omega)).1 rfl text (by simp)
    rw [empty] at alone
    cases alone

end HwrunOs.SimpleCommands
