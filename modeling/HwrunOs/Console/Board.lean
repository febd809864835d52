import HwrunOs.Library.Answering
import HwrunOs.Console.Status

/-!
# All sessions of a console

The driver keeps its sessions in one linked list, latest first, and never frees one before it is
itself torn down; a caller holds pointers into the list, also to sessions that were closed. What
the list stands for is a board of slots, one for each session in the order in which they were
opened: a name, a queue of bytes and a counter. A call changes the slot it names and no other, two
slots that are open never have one name, and a listing shows the open slots, latest first.
-/

namespace HwrunOs.Console

open HwrunOs.Blocks HwrunOs.Bytes HwrunOs.Answering HwrunOs.Runs

variable {γ : Type}

/-! ## Calls -/

/-- A call of the driver. A pointer to a session is its place in the order of opening, and none
when it is null. -/
inductive ConsoleCall (γ : Type) where
  /-- `console_open`. -/
  | «open» (name : Option CString) (memory : Bool)
  /-- `console_close`. -/
  | close (session : Option Nat)
  /-- `console_write`. -/
  | write (session : Option Nat) (buf : Option (List UInt8)) (memory : Option (Nat → UInt8))
  /-- `console_read_line`. -/
  | readLine (session : Option Nat) (args : ReadArgs)
  /-- `console_banner`. -/
  | banner (session : Option Nat) (text : Option CString) (memory : BannerMemory)
  /-- `console_clear`. -/
  | clear (session : Option Nat)
  /-- `console_status`, with a place for the result or without. -/
  | status (session : Option Nat) (out : Bool)
  /-- `console_list`, with the places for its results and the room in the first. -/
  | list (out : Bool) (cap : Int) (count : Bool)
  /-- `console_bind`. -/
  | bind (session : Option Nat) (callback : Option γ)

/-- What a call returns and stores, and what an output callback is told. -/
inductive ConsoleAnswer (γ : Type) where
  /-- A session was opened, or not. -/
  | opened (result : Except Int Nat)
  /-- A call on a session. -/
  | done (outcome : Outcome) (told : Option (γ × List UInt8))
  /-- A status. -/
  | status (rc : Int) (info : Option ConsoleInfo)
  /-- A listing. -/
  | list (rc : Int) (infos : List ConsoleInfo)

/-- A code that a call on a session returns. -/
def ConsoleAnswer.code (rc : Int) : ConsoleAnswer γ := .done (.code rc) none

/-- The session that a call names, if it names one. -/
def ConsoleCall.session : ConsoleCall γ → Option (Option Nat)
  | .open _ _ | .list _ _ _ => none
  | .close session | .write session _ _ | .readLine session _ | .banner session _ _
  | .clear session | .status session _ | .bind session _ => some session

/-! ## The driver -/

/-- What is reported of a session. -/
def Session.info (s : Session γ) : ConsoleInfo :=
  ⟨s.name, s.id, s.active, sessCountLines s, s.written, s.buffer.len⟩

/-- `console_list`: the active sessions, latest first, as far as there is room. -/
def consoleList (console : Console γ) (out : Bool) (cap : Int) (count : Bool) :
    Int × List ConsoleInfo :=
  if out && count && decide (0 < cap) then
    (0, ((console.sessions.filter Session.active).map Session.info).take cap.toNat)
  else (einval, [])

/-- The sessions in the order in which they were opened. -/
def openedSessions (console : Console γ) : List (Session γ) := console.sessions.reverse

/-- A session is written in its place. -/
def putSession (console : Console γ) (place : Nat) (s : Session γ) : Console γ :=
  { console with sessions := ((openedSessions console).set place s).reverse }

/-- A call on a session: a null pointer gets the answer it is given. -/
def useSession (console : Console γ) (session : Option Nat) (refused : ConsoleAnswer γ)
    (call : Session γ → Session γ × ConsoleAnswer γ) : Console γ × ConsoleAnswer γ :=
  match session with
  | none => (console, refused)
  | some place =>
    match (openedSessions console)[place]? with
    | none => (console, refused)
    | some s => (putSession console place (call s).1, (call s).2)

/-- One call of the driver. -/
def consoleCall (console : Console γ) : ConsoleCall γ → Console γ × ConsoleAnswer γ
  | .open name memory =>
    let (next, result) := consoleOpen console name memory
    (next, .opened (result.map fun _ => console.sessions.length))
  | .close session => useSession console session (.code einval) fun s =>
    ((consoleClose s).1, .done (consoleClose s).2 none)
  | .write session buf memory => useSession console session (.code einval) fun s =>
    ((consoleWrite s buf memory).1, .done (consoleWrite s buf memory).2.1
      (consoleWrite s buf memory).2.2)
  | .readLine session args => useSession console session (.code einval) fun s =>
    ((consoleReadLine s args).1, .done (consoleReadLine s args).2 none)
  | .banner session text memory => useSession console session (.code einval) fun s =>
    ((consoleBanner s text memory).1, .done (consoleBanner s text memory).2.1
      (consoleBanner s text memory).2.2)
  | .clear session => useSession console session (.code einval) fun s =>
    ((consoleClear s).1, .done (consoleClear s).2 none)
  | .status session out => useSession console session (.status einval none) fun s =>
    (s, .status (consoleStatus s out).1 (consoleStatus s out).2)
  | .list out cap count =>
    (console, .list (consoleList console out cap count).1 (consoleList console out cap count).2)
  | .bind session callback => useSession console session (.code einval) fun s =>
    (consoleBind s callback, .code 0)

/-- The driver from its first call on. -/
def consoleDriver : Machine (Console γ) (ConsoleCall γ) (ConsoleAnswer γ) :=
  ⟨⟨[], 0⟩, consoleCall⟩

/-- A caller passes only sessions that it was given. -/
def Given (console : Console γ) (call : ConsoleCall γ) : Prop :=
  ∀ place ∈ call.session.join, place < console.sessions.length

instance (console : Console γ) (call : ConsoleCall γ) : Decidable (Given console call) :=
  inferInstanceAs (Decidable (∀ place ∈ call.session.join, place < console.sessions.length))

/-! ## The board -/

/-- What a session stands for. -/
@[ext] structure Slot (γ : Type) where
  /-- Its name. -/
  name : Field 32
  /-- It is not closed. -/
  active : Bool
  /-- What is still to be read. -/
  queue : List UInt8
  /-- How many bytes were written, to 64 bits. -/
  written : Nat
  /-- The output callback. -/
  outCb : Option γ

/-- The slots, in the order in which they were opened. -/
abbrev Board (γ : Type) := List (Slot γ)

/-- The slot that opening a name makes, or why there is none. -/
def Board.fresh (board : Board γ) : Option CString → Except Int (Slot γ)
  | none => .error einval
  | some name =>
    if name.length = 0 ∨ 32 ≤ name.length then .error einval
    else if board.any fun slot => slot.active && slot.name.1 == name then .error eexist
    else .ok ⟨Field.copy name, true, [], 0, none⟩

/-- What is reported of a slot in its place. -/
def Slot.info (slot : Slot γ) (place : Nat) : ConsoleInfo :=
  ⟨slot.name, place + 1, slot.active, slot.queue.countP (· == newline), slot.written,
    slot.queue.length⟩

/-- The open slots, latest first. -/
def Board.infos (board : Board γ) : List ConsoleInfo :=
  ((board.zipIdx.reverse.filter fun entry => entry.1.active).map fun entry =>
    entry.1.info entry.2)

/-- A slot with more bytes. -/
def Slot.push (slot : Slot γ) (data : List UInt8) : Slot γ :=
  { slot with
    queue := slot.queue ++ data
    written := (slot.written + data.length) % 2 ^ 64 }

/-- A slot that holds nothing and has counted nothing. -/
def Slot.emptied (slot : Slot γ) : Slot γ := { slot with queue := [], written := 0 }

/-- What a call on a slot in its place calls for. A write has both its parts or none; a banner for
which there is not enough memory leaves nothing, or its line without an end. -/
def slotLaw (place : Nat) (slot : Slot γ) :
    ConsoleCall γ → ConsoleAnswer γ → Slot γ → Prop
  | .close _, answer, next =>
    if slot.active then answer = .code 0 ∧ next = { slot with active := false }
    else answer = .code einval ∧ next = slot
  | .write _ buf memory, answer, next =>
    match slot.active, buf with
    | true, some data =>
      answer = .done (.code 0) (slot.outCb.map fun callback => (callback, data)) ∧
          next = slot.push data ∨
        memory = none ∧ answer = .code enomem ∧ next = slot
    | _, _ => answer = .code einval ∧ next = slot
  | .readLine _ args, answer, next =>
    if slot.active then
      answer = .done (queueRead slot.queue args).2 none ∧
        next = { slot with queue := (queueRead slot.queue args).1 }
    else answer = .code einval ∧ next = slot
  | .banner _ text memory, answer, next =>
    match slot.active, text with
    | true, some text =>
      answer = .done (.code 0) (slot.outCb.map fun callback => (callback, text)) ∧
          next = (slot.emptied.push (escapeBanner text)).push [newline] ∨
        (memory.copy = false ∨ memory.text = none ∨ memory.feed = none) ∧
          answer = .code enomem ∧
          (next = slot.emptied ∨ next = slot.emptied.push (escapeBanner text))
    | _, _ => answer = .code einval ∧ next = slot
  | .clear _, answer, next =>
    if slot.active then answer = .code 0 ∧ next = { slot with queue := [] }
    else answer = .code einval ∧ next = slot
  | .status _ out, answer, next =>
    answer = (if slot.active && out then .status 0 (some (slot.info place))
      else .status einval none) ∧ next = slot
  | .bind _ callback, answer, next => answer = .code 0 ∧ next = { slot with outCb := callback }
  | .open _ _, _, _ | .list _ _ _, _, _ => False

/-- What a null pointer is answered. -/
def refusal : ConsoleCall γ → ConsoleAnswer γ
  | .status _ _ => .status einval none
  | _ => .code einval

/-- What a call on a board calls for. -/
def boardLaw : Law (Board γ) (ConsoleCall γ) (ConsoleAnswer γ)
  | board, .open name memory, answer, next =>
    match board.fresh name with
    | .error rc => answer = .opened (.error rc) ∧ next = board
    | .ok slot =>
      if memory then answer = .opened (.ok board.length) ∧ next = board ++ [slot]
      else answer = .opened (.error enomem) ∧ next = board
  | board, .list out cap count, answer, next =>
    answer = (if out && count && decide (0 < cap) then .list 0 (board.infos.take cap.toNat)
      else .list einval []) ∧ next = board
  | board, call, answer, next =>
    match call.session with
    | some (some place) =>
      ∃ slot changed, board[place]? = some slot ∧ slotLaw place slot call answer changed ∧
        next = board.set place changed
    | _ => answer = refusal call ∧ next = board

/-- Open slots with the same name are the same. -/
def Board.Distinct (board : Board γ) : Prop :=
  ∀ (first second : Nat) (a b : Slot γ), board[first]? = some a → board[second]? = some b →
    a.active = true → b.active = true → a.name = b.name → first = second

/-! ## One session -/

/-- The slot that a session stands for. -/
def Session.slot (s : Session γ) : Slot γ :=
  ⟨s.name, s.active, s.buffer.contents, s.written, s.outCb⟩

/-- A call on a session does what the law of its slot calls for, and keeps its number. -/
def Lawful (place : Nat) (s : Session γ) (call : ConsoleCall γ)
    (result : Session γ × ConsoleAnswer γ) : Prop :=
  slotLaw place s.slot call result.2 result.1.slot ∧ result.1.id = s.id

/-- An append pushes its bytes. -/
theorem append_slot {s next : Session γ} {data : List UInt8} {memory : Option (Nat → UInt8)}
    (done : s.append data memory = some next) :
    next.slot = s.slot.push data ∧ next.id = s.id ∧ next.outCb = s.outCb := by
  obtain ⟨buffer, appended, rfl⟩ := Option.map_eq_some_iff.mp done
  refine ⟨?_, rfl, rfl⟩
  unfold Session.slot Slot.push
  rw [contents_sessAppend appended]

/-- An append fails only for want of memory. -/
theorem append_none {s : Session γ} {data : List UInt8} {memory : Option (Nat → UInt8)}
    (failed : s.append data memory = none) : memory = none := by
  have missing := Option.map_eq_none_iff.mp failed
  unfold sessAppend at missing
  split at missing
  · cases memory with
    | none => rfl
    | some fill => cases missing
  · cases missing

/-- A write is lawful. -/
theorem write_lawful (place : Nat) (s : Session γ) (session : Option Nat)
    (buf : Option (List UInt8)) (memory : Option (Nat → UInt8)) :
    Lawful place s (.write session buf memory)
      ((consoleWrite s buf memory).1, .done (consoleWrite s buf memory).2.1
        (consoleWrite s buf memory).2.2) := by
  unfold Lawful slotLaw Session.slot consoleWrite
  dsimp only
  cases open_ : s.active with
  | false => exact ⟨⟨rfl, by rw [open_]⟩, rfl⟩
  | true =>
    cases buf with
    | none => exact ⟨⟨rfl, by rw [open_]⟩, rfl⟩
    | some data =>
      dsimp only
      cases done : s.append data memory with
      | none => exact ⟨.inr ⟨append_none done, rfl, by rw [open_]⟩, rfl⟩
      | some next =>
        obtain ⟨pushed, id, -⟩ := append_slot done
        refine ⟨.inl ⟨rfl, ?_⟩, id⟩
        rw [← open_]
        exact pushed

/-- A read is lawful. -/
theorem readLine_lawful (place : Nat) (s : Session γ) (session : Option Nat) (args : ReadArgs) :
    Lawful place s (.readLine session args)
      ((consoleReadLine s args).1, .done (consoleReadLine s args).2 none) := by
  have kept : (consoleReadLine s args).1.name = s.name ∧ (consoleReadLine s args).1.id = s.id ∧
      (consoleReadLine s args).1.written = s.written ∧
      (consoleReadLine s args).1.outCb = s.outCb := by
    unfold consoleReadLine
    split
    · split
      · split
        · exact ⟨rfl, rfl, rfl, rfl⟩
        · split <;> exact ⟨rfl, rfl, rfl, rfl⟩
      · exact ⟨rfl, rfl, rfl, rfl⟩
    · exact ⟨rfl, rfl, rfl, rfl⟩
  unfold Lawful slotLaw
  refine ⟨?_, kept.2.1⟩
  dsimp only
  by_cases active : s.slot.active = true
  · obtain ⟨stays, bytes, outcome⟩ := consoleReadLine_spec active args
    rw [if_pos active]
    refine ⟨congrArg (ConsoleAnswer.done · none) outcome, ?_⟩
    exact Slot.ext kept.1 (stays.trans active.symm) bytes kept.2.2.1 kept.2.2.2
  · have refused : consoleReadLine s args = (s, .code einval) := if_neg active
    rw [if_neg active, refused]
    exact ⟨rfl, rfl⟩

/-- A banner is lawful. -/
theorem banner_lawful (place : Nat) (s : Session γ) (session : Option Nat)
    (text : Option CString) (memory : BannerMemory) :
    Lawful place s (.banner session text memory)
      ((consoleBanner s text memory).1, .done (consoleBanner s text memory).2.1
        (consoleBanner s text memory).2.2) := by
  have emptied : s.emptied.slot = s.slot.emptied := rfl
  unfold Lawful slotLaw consoleBanner
  dsimp only
  cases open_ : s.active with
  | false =>
    have closed : s.slot.active = false := open_
    rw [closed]
    exact ⟨⟨rfl, rfl⟩, rfl⟩
  | true =>
    have opened : s.slot.active = true := open_
    rw [opened]
    cases text with
    | none => exact ⟨⟨rfl, rfl⟩, rfl⟩
    | some text =>
      dsimp only
      cases copied : memory.copy with
      | false => exact ⟨.inr ⟨.inl rfl, rfl, .inl rfl⟩, rfl⟩
      | true =>
        rw [if_pos rfl]
        cases first : s.emptied.append (escapeBanner text) memory.text with
        | none => exact ⟨.inr ⟨.inr (.inl (append_none first)), rfl, .inl rfl⟩, rfl⟩
        | some titled =>
          obtain ⟨pushed, id, -⟩ := append_slot first
          dsimp only
          cases second : titled.append [newline] memory.feed with
          | none =>
            exact ⟨.inr ⟨.inr (.inr (append_none second)), rfl, .inr pushed⟩, id⟩
          | some ended =>
            obtain ⟨whole, last, -⟩ := append_slot second
            refine ⟨.inl ⟨rfl, ?_⟩, last.trans id⟩
            show ended.slot = _
            rw [whole, pushed, emptied]

/-- A close is lawful. -/
theorem close_lawful (place : Nat) (s : Session γ) (session : Option Nat) :
    Lawful place s (.close session) ((consoleClose s).1, .done (consoleClose s).2 none) := by
  unfold Lawful slotLaw
  dsimp only
  by_cases active : s.slot.active = true
  · have changed : consoleClose s = ({ s with active := false }, .code 0) := if_pos active
    rw [if_pos active, changed]
    exact ⟨⟨rfl, rfl⟩, rfl⟩
  · have refused : consoleClose s = (s, .code einval) := if_neg active
    rw [if_neg active, refused]
    exact ⟨⟨rfl, rfl⟩, rfl⟩

/-- A clear is lawful. -/
theorem clear_lawful (place : Nat) (s : Session γ) (session : Option Nat) :
    Lawful place s (.clear session) ((consoleClear s).1, .done (consoleClear s).2 none) := by
  unfold Lawful slotLaw
  dsimp only
  by_cases active : s.slot.active = true
  · have changed : consoleClear s = ({ s with buffer := .null }, .code 0) := if_pos active
    rw [if_pos active, changed]
    exact ⟨⟨rfl, rfl⟩, rfl⟩
  · have refused : consoleClear s = (s, .code einval) := if_neg active
    rw [if_neg active, refused]
    exact ⟨⟨rfl, rfl⟩, rfl⟩

/-- What is reported of a session is what is reported of its slot in its place. -/
theorem info_slot {s : Session γ} {place : Nat} (numbered : s.id = place + 1) :
    s.info = s.slot.info place := by
  unfold Session.info Slot.info Session.slot
  rw [numbered, ← s.buffer.length_contents]
  rfl

/-- A status is lawful. -/
theorem status_lawful {place : Nat} {s : Session γ} (numbered : s.id = place + 1)
    (session : Option Nat) (out : Bool) :
    Lawful place s (.status session out)
      (s, .status (consoleStatus s out).1 (consoleStatus s out).2) := by
  refine ⟨⟨?_, rfl⟩, rfl⟩
  unfold consoleStatus
  show _ = if (s.active && out) = true then _ else _
  split
  · rw [← info_slot numbered]
    rfl
  · rfl

/-! ## All sessions -/

/-- The board that a console stands for. -/
def boardOf (console : Console γ) : Board γ := (openedSessions console).map Session.slot

/-- Sessions are numbered in the order in which they were opened. -/
structure Numbered (console : Console γ) : Prop where
  /-- The number of each. -/
  ids : ∀ place s, (openedSessions console)[place]? = some s → s.id = place + 1
  /-- The last number. -/
  seq : console.seq = console.sessions.length

section Sessions

variable {console : Console γ}

/-- A session that is put in its place changes its slot. -/
theorem boardOf_put (place : Nat) (s : Session γ) :
    boardOf (putSession console place s) = (boardOf console).set place s.slot := by
  unfold boardOf putSession openedSessions
  rw [List.reverse_reverse, List.map_set]

/-- A session that keeps its number can be put in its place. -/
theorem Numbered.put (numbered : Numbered console) {place : Nat} {old s : Session γ}
    (found : (openedSessions console)[place]? = some old) (same : s.id = old.id) :
    Numbered (putSession console place s) where
  ids := by
    intro other changed listed
    unfold putSession openedSessions at listed
    rw [List.reverse_reverse, List.getElem?_set] at listed
    split at listed
    · rename_i here
      subst here
      split at listed
      · obtain rfl := Option.some.inj listed
        rw [same]
        exact numbered.ids _ old found
      · cases listed
    · exact numbered.ids other changed listed
  seq := by
    show console.seq = ((openedSessions console).set place s).reverse.length
    rw [List.length_reverse, List.length_set, openedSessions, List.length_reverse]
    exact numbered.seq

/-- A call that names the null pointer is refused. -/
theorem boardLaw_null {board : Board γ} {call : ConsoleCall γ}
    (named : call.session = some none) : boardLaw board call (refusal call) board := by
  cases call with
  | «open» name memory => cases named
  | list out cap count => cases named
  | _ =>
    obtain rfl := Option.some.inj named
    exact ⟨rfl, rfl⟩

/-- A call that names a session does what the law of its slot asks. -/
theorem boardLaw_place {board : Board γ} {call : ConsoleCall γ} {place : Nat}
    {answer : ConsoleAnswer γ} {slot changed : Slot γ}
    (named : call.session = some (some place)) (found : board[place]? = some slot)
    (law : slotLaw place slot call answer changed) :
    boardLaw board call answer (board.set place changed) := by
  cases call with
  | «open» name memory => cases named
  | list out cap count => cases named
  | _ =>
    obtain rfl := Option.some.inj named
    exact ⟨slot, changed, found, law, rfl⟩

/-- A lawful call on a session is lawful on the board. -/
theorem Numbered.use (numbered : Numbered console) {call : ConsoleCall γ}
    {session : Option Nat} (named : call.session = some session) (given : Given console call)
    {change : Session γ → Session γ × ConsoleAnswer γ}
    (lawful : ∀ place s, s.id = place + 1 → Lawful place s call (change s)) :
    boardLaw (boardOf console) call (useSession console session (refusal call) change).2
        (boardOf (useSession console session (refusal call) change).1) ∧
      Numbered (useSession console session (refusal call) change).1 := by
  cases session with
  | none => exact ⟨boardLaw_null named, numbered⟩
  | some place =>
    have inside : place < (openedSessions console).length := by
      unfold openedSessions
      rw [List.length_reverse]
      exact given place (by rw [named]; rfl)
    have found : (openedSessions console)[place]? = some (openedSessions console)[place] :=
      List.getElem?_eq_getElem inside
    generalize (openedSessions console)[place] = s at found
    obtain ⟨law, same⟩ := lawful place s (numbered.ids place s found)
    have slot : (boardOf console)[place]? = some s.slot := by
      unfold boardOf
      rw [List.getElem?_map, found, Option.map_some]
    unfold useSession
    dsimp only
    rw [found]
    refine ⟨?_, numbered.put found same⟩
    rw [boardOf_put]
    exact boardLaw_place named slot law

/-- A name opens a fresh slot of the board, or none, as the list decides. -/
theorem boardOf_open (numbered : Numbered console) (name : Option CString) (memory : Bool) :
    boardLaw (boardOf console) (.open name memory) (consoleCall console (.open name memory)).2
        (boardOf (consoleCall console (.open name memory)).1) ∧
      Numbered (consoleCall console (.open name memory)).1 := by
  unfold boardLaw Board.fresh consoleCall consoleOpen
  dsimp only
  cases name with
  | none => exact ⟨⟨rfl, rfl⟩, numbered⟩
  | some text =>
    dsimp only
    have taken : ((boardOf console).any fun slot => slot.active && slot.name.1 == text) =
        console.sessions.any fun it => it.active && it.name.1 == text := by
      unfold boardOf openedSessions
      rw [List.any_map, List.any_reverse]
      rfl
    rw [taken]
    by_cases bad : text.length = 0 ∨ 32 ≤ text.length
    · rw [if_pos bad, if_pos bad]
      exact ⟨⟨rfl, rfl⟩, numbered⟩
    · rw [if_neg bad, if_neg bad]
      by_cases held : (console.sessions.any fun it => it.active && it.name.1 == text) = true
      · rw [if_pos held, if_pos held]
        exact ⟨⟨rfl, rfl⟩, numbered⟩
      · rw [if_neg held, if_neg held]
        cases memory with
        | false => exact ⟨⟨rfl, rfl⟩, numbered⟩
        | true =>
          have count : (boardOf console).length = console.sessions.length := by
            unfold boardOf openedSessions
            rw [List.length_map, List.length_reverse]
          refine ⟨⟨?_, ?_⟩, ?_, ?_⟩
          · rw [count]
            rfl
          · show ((_ :: console.sessions).reverse.map Session.slot) = _
            rw [List.reverse_cons, List.map_append]
            rfl
          · intro place s listed
            have shown : (console.sessions.reverse ++
                [Session.opened (Field.copy text) (console.seq + 1)])[place]? = some s := by
              rw [← List.reverse_cons]
              exact listed
            rw [List.getElem?_append] at shown
            split at shown
            · exact numbered.ids place s shown
            · rename_i behind
              rw [List.length_reverse] at behind shown
              rw [List.getElem?_singleton] at shown
              split at shown
              · obtain rfl := Option.some.inj shown
                show console.seq + 1 = place + 1
                rw [numbered.seq]
                omega
              · cases shown
          · show console.seq + 1 = console.sessions.length + 1
            rw [numbered.seq]

/-- A listing shows the open slots. -/
theorem boardOf_infos (numbered : Numbered console) :
    (console.sessions.filter Session.active).map Session.info = (boardOf console).infos := by
  have order : console.sessions =
      ((openedSessions console).zipIdx.reverse).map Prod.fst := by
    rw [List.map_reverse, List.zipIdx_map_fst]
    exact (List.reverse_reverse _).symm
  unfold Board.infos boardOf
  rw [List.zipIdx_map, ← List.map_reverse, List.filter_map, List.map_map]
  rw [show console.sessions.filter Session.active =
    (((openedSessions console).zipIdx.reverse).map Prod.fst).filter Session.active from
      congrArg _ order, List.filter_map, List.map_map]
  refine List.map_congr_left fun entry listed => ?_
  obtain ⟨s, place⟩ := entry
  have found := List.mem_zipIdx_iff_getElem?.mp
    (List.mem_reverse.mp (List.mem_of_mem_filter listed))
  exact info_slot (numbered.ids place s found)

/-- Every call of the driver is lawful on the board. -/
theorem Numbered.step (numbered : Numbered console) (call : ConsoleCall γ)
    (given : Given console call) :
    boardLaw (boardOf console) call (consoleCall console call).2
        (boardOf (consoleCall console call).1) ∧
      Numbered (consoleCall console call).1 := by
  cases call with
  | «open» name memory => exact boardOf_open numbered name memory
  | close session => exact numbered.use rfl given fun place s _ => close_lawful place s session
  | write session buf memory =>
    exact numbered.use rfl given fun place s _ => write_lawful place s session buf memory
  | readLine session args =>
    exact numbered.use rfl given fun place s _ => readLine_lawful place s session args
  | banner session text memory =>
    exact numbered.use rfl given fun place s _ => banner_lawful place s session text memory
  | clear session => exact numbered.use rfl given fun place s _ => clear_lawful place s session
  | status session out =>
    exact numbered.use rfl given fun place s same => status_lawful same session out
  | bind session callback => exact numbered.use rfl given fun _ _ _ => ⟨⟨rfl, rfl⟩, rfl⟩
  | list out cap count =>
    refine ⟨⟨?_, rfl⟩, numbered⟩
    show ConsoleAnswer.list _ _ = _
    unfold consoleList
    split
    · rw [boardOf_infos numbered]
    · rfl

end Sessions

/-! ## Names -/

section Names

variable {board next : Board γ}

/-- A call keeps the name of a slot and opens none that is closed. -/
theorem slotLaw_keeps {place : Nat} {slot changed : Slot γ} {call : ConsoleCall γ}
    {answer : ConsoleAnswer γ} (law : slotLaw place slot call answer changed) :
    changed.name = slot.name ∧ (changed.active = true → slot.active = true) := by
  unfold slotLaw at law
  split at law
  · split at law
    · obtain ⟨-, rfl⟩ := law
      exact ⟨rfl, nofun⟩
    · obtain ⟨-, rfl⟩ := law
      exact ⟨rfl, id⟩
  · split at law
    · obtain ⟨-, rfl⟩ | ⟨-, -, rfl⟩ := law
      · exact ⟨rfl, id⟩
      · exact ⟨rfl, id⟩
    · obtain ⟨-, rfl⟩ := law
      exact ⟨rfl, id⟩
  · split at law
    · obtain ⟨-, rfl⟩ := law
      exact ⟨rfl, id⟩
    · obtain ⟨-, rfl⟩ := law
      exact ⟨rfl, id⟩
  · split at law
    · obtain ⟨-, rfl⟩ | ⟨-, -, rfl | rfl⟩ := law
      · exact ⟨rfl, id⟩
      · exact ⟨rfl, id⟩
      · exact ⟨rfl, id⟩
    · obtain ⟨-, rfl⟩ := law
      exact ⟨rfl, id⟩
  · split at law
    · obtain ⟨-, rfl⟩ := law
      exact ⟨rfl, id⟩
    · obtain ⟨-, rfl⟩ := law
      exact ⟨rfl, id⟩
  · obtain ⟨-, rfl⟩ := law
    exact ⟨rfl, id⟩
  · obtain ⟨-, rfl⟩ := law
    exact ⟨rfl, id⟩
  · exact law.elim
  · exact law.elim

/-- A slot that keeps its name and is not opened again keeps the open names apart. -/
theorem Board.Distinct.set (distinct : board.Distinct) {place : Nat} {slot changed : Slot γ}
    (found : board[place]? = some slot) (name : changed.name = slot.name)
    (still : changed.active = true → slot.active = true) :
    Board.Distinct (board.set place changed) := by
  -- every open slot was one before, of the same name
  have before {spot : Nat} {now : Slot γ} (listed : (board.set place changed)[spot]? = some now)
      (active : now.active = true) :
      ∃ old, board[spot]? = some old ∧ old.active = true ∧ old.name = now.name := by
    rw [List.getElem?_set] at listed
    split at listed
    · rename_i here
      subst here
      split at listed
      · obtain rfl := Option.some.inj listed
        exact ⟨slot, found, still active, name.symm⟩
      · cases listed
    · exact ⟨now, listed, active, rfl⟩
  intro first second a b listed other active otherActive same
  obtain ⟨a', listed', active', named⟩ := before listed active
  obtain ⟨b', other', otherActive', otherNamed⟩ := before other otherActive
  exact distinct first second a' b' listed' other' active' otherActive'
    (named.trans (same.trans otherNamed.symm))

/-- A fresh slot has a name that no open slot has. -/
theorem fresh_name {name : Option CString} {slot other : Slot γ}
    (fresh : board.fresh name = .ok slot) (listed : other ∈ board)
    (active : other.active = true) : other.name ≠ slot.name := by
  cases name with
  | none => cases fresh
  | some text =>
    unfold Board.fresh at fresh
    dsimp only at fresh
    split at fresh
    · cases fresh
    · rename_i good
      split at fresh
      · cases fresh
      · rename_i free
        obtain rfl := Except.ok.inj fresh
        rintro same
        have whole : (Field.copy text : Field 32).val = text := snprintf_eq (by omega)
        refine free (List.any_eq_true.mpr ⟨other, listed, ?_⟩)
        rw [active, Bool.true_and, beq_iff_eq]
        exact (congrArg Subtype.val same).trans whole

/-- A fresh slot keeps the open names apart. -/
theorem Board.Distinct.add (distinct : board.Distinct) {name : Option CString} {slot : Slot γ}
    (fresh : board.fresh name = .ok slot) : Board.Distinct (board ++ [slot]) := by
  have origin {spot : Nat} {now : Slot γ} (listed : (board ++ [slot])[spot]? = some now) :
      board[spot]? = some now ∨ spot = board.length ∧ now = slot := by
    rw [List.getElem?_append] at listed
    split at listed
    · exact .inl listed
    · rw [List.getElem?_singleton] at listed
      split at listed
      · exact .inr ⟨by omega, (Option.some.inj listed).symm⟩
      · cases listed
  intro first second a b listed other active otherActive same
  obtain old | ⟨rfl, rfl⟩ := origin listed
  · obtain older | ⟨rfl, rfl⟩ := origin other
    · exact distinct first second a b old older active otherActive same
    · exact absurd same (fresh_name fresh (List.mem_of_getElem? old) active)
  · obtain older | ⟨rfl, -⟩ := origin other
    · exact absurd same.symm (fresh_name fresh (List.mem_of_getElem? older) otherActive)
    · rfl

/-- Every call that the law permits keeps the open names apart. -/
theorem Board.Distinct.step (distinct : board.Distinct) {call : ConsoleCall γ}
    {answer : ConsoleAnswer γ} (law : boardLaw board call answer next) : next.Distinct := by
  unfold boardLaw at law
  split at law
  · split at law
    · exact law.2 ▸ distinct
    · rename_i slot fresh
      split at law
      · exact law.2 ▸ distinct.add fresh
      · exact law.2 ▸ distinct
  · exact law.2 ▸ distinct
  · split at law
    · obtain ⟨slot, changed, found, slotLaw, rfl⟩ := law
      obtain ⟨name, still⟩ := slotLaw_keeps slotLaw
      exact distinct.set found name still
    · exact law.2 ▸ distinct

end Names

/-! ## Runs -/

/-- In every run of calls, with sessions that the callers were given, closed ones among them, and
with or without memory, the driver answers as its board of slots, and no two open sessions ever
have one name. -/
theorem console_answers (calls : List (ConsoleCall γ))
    (given : AllSteps consoleDriver.next Given consoleDriver.start calls) :
    Permits boardLaw [] (consoleDriver.history calls) ∧
      AllStates consoleDriver.next (fun console => (boardOf console).Distinct)
        consoleDriver.start calls := by
  have obeys : Obeys consoleDriver boardLaw []
      (fun console board => board = boardOf console ∧ Numbered (γ := γ) console) Given := by
    refine ⟨⟨rfl, nofun, rfl⟩, ?_⟩
    rintro console _ call ⟨rfl, numbered⟩ fits
    obtain ⟨law, still⟩ := numbered.step call fits
    exact ⟨_, law, rfl, still⟩
  refine ⟨obeys.permits given, ?_⟩
  have kept (console : Console γ) (call : ConsoleCall γ)
      (holds : Numbered console ∧ (boardOf console).Distinct) (fits : Given console call) :
      Numbered (consoleDriver.next console call) ∧
        (boardOf (consoleDriver.next console call)).Distinct := by
    obtain ⟨numbered, distinct⟩ := holds
    obtain ⟨law, still⟩ := numbered.step call fits
    exact ⟨still, distinct.step law⟩
  have apart : Board.Distinct ([] : Board γ) := nofun
  exact (allStates_of_steps kept ⟨obeys.start.2, apart⟩ given).mono fun _ holds => holds.2

/-- Two sessions are opened, a third one of a taken name is refused, and one is closed. -/
def sessionCalls : List (ConsoleCall Unit) :=
  [.open (some (lit "log")) true, .open (some (lit "tty")) true, .open (some (lit "log")) true,
    .write (some 0) (some (lit "up\nno")) (some fun _ => 0), .readLine (some 0) ⟨true, 16, true⟩,
    .close (some 0), .clear (some 0), .open (some (lit "log")) true, .list true 4 true]

/-- The driver answers them as the board. The name is free again when its session is closed. -/
theorem console_answers_session :
    Permits boardLaw [] (consoleDriver.history sessionCalls) ∧
      consoleDriver.answers sessionCalls =
        [.opened (.ok 0), .opened (.ok 1), .opened (.error eexist), .code 0,
          .done ⟨0, some (lit "up"), some 2⟩ none, .code 0, .code einval, .opened (.ok 2),
          .list 0 [⟨⟨lit "log", by decide⟩, 3, true, 0, 0, 0⟩,
            ⟨⟨lit "tty", by decide⟩, 2, true, 0, 0, 0⟩]] :=
  ⟨(console_answers sessionCalls (by decide +kernel)).1, rfl⟩

end HwrunOs.Console
