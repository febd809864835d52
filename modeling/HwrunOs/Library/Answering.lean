import HwrunOs.Library.Runs

/-!
# Machines that answer

A machine takes one request after another and answers each. Two machines whose states are related
give the same answers as long as every request keeps the relation and is answered alike by both.
Where a request may have more than one answer, a law says which, and what each makes of the state.
-/

namespace HwrunOs.Answering

open HwrunOs.Runs

variable {σ τ α β : Type*}

/-- A machine: where it starts, and what a request makes of its state and returns. -/
structure Machine (σ α β : Type*) where
  /-- The state at the start. -/
  start : σ
  /-- The state after a request, and the answer. -/
  step : σ → α → σ × β

/-- The state after a request. -/
def Machine.next (machine : Machine σ α β) (state : σ) (request : α) : σ :=
  (machine.step state request).1

/-- The answers to requests, from a state on. -/
def Machine.answersFrom (machine : Machine σ α β) : σ → List α → List β
  | _, [] => []
  | state, request :: rest =>
    (machine.step state request).2 :: machine.answersFrom (machine.next state request) rest

/-- The answers to requests. -/
def Machine.answers (machine : Machine σ α β) (requests : List α) : List β :=
  machine.answersFrom machine.start requests

/-- A machine does what another one does, for the requests that are allowed. -/
structure Refines (concrete : Machine σ α β) (abstract : Machine τ α β) (related : σ → τ → Prop)
    (allowed : σ → α → Prop) : Prop where
  /-- The machines start alike. -/
  start : related concrete.start abstract.start
  /-- A request that is allowed keeps them alike. -/
  next : ∀ state other request, related state other → allowed state request →
    related (concrete.next state request) (abstract.next other request)
  /-- It is answered alike. -/
  answer : ∀ state other request, related state other → allowed state request →
    (concrete.step state request).2 = (abstract.step other request).2

variable {concrete : Machine σ α β} {abstract : Machine τ α β} {related : σ → τ → Prop}
  {allowed : σ → α → Prop}

/-- From states that are alike the answers are the same. -/
theorem Refines.answersFrom (refines : Refines concrete abstract related allowed) {state : σ}
    {other : τ} (alike : related state other) {requests : List α}
    (fair : AllSteps concrete.next allowed state requests) :
    concrete.answersFrom state requests = abstract.answersFrom other requests := by
  induction requests generalizing state other with
  | nil => rfl
  | cons request rest ih =>
    obtain ⟨first, later⟩ := fair
    have same := refines.answer state other request alike first
    have rest_ := ih (refines.next state other request alike first) later
    exact congrArg₂ List.cons same rest_

/-- The answers of every run are the same. -/
theorem Refines.answers (refines : Refines concrete abstract related allowed) {requests : List α}
    (fair : AllSteps concrete.next allowed concrete.start requests) :
    concrete.answers requests = abstract.answers requests :=
  refines.answersFrom refines.start fair

/-! ## Laws -/

/-- What a request may be answered, and what is then the state. -/
abbrev Law (τ α β : Type*) := τ → α → β → τ → Prop

/-- A law permits requests with their answers, one after another. -/
def Permits (law : Law τ α β) : τ → List (α × β) → Prop
  | _, [] => True
  | state, (request, answer) :: rest =>
    ∃ next, law state request answer next ∧ Permits law next rest

/-- Requests with the answers that a machine gives them, from a state on. -/
def Machine.historyFrom (machine : Machine σ α β) : σ → List α → List (α × β)
  | _, [] => []
  | state, request :: rest =>
    (request, (machine.step state request).2) ::
      machine.historyFrom (machine.next state request) rest

/-- Requests with the answers that a machine gives them. -/
def Machine.history (machine : Machine σ α β) (requests : List α) : List (α × β) :=
  machine.historyFrom machine.start requests

/-- A machine obeys a law for the requests that are allowed. -/
structure Obeys (machine : Machine σ α β) (law : Law τ α β) (start : τ) (related : σ → τ → Prop)
    (allowed : σ → α → Prop) : Prop where
  /-- The machine and the law start alike. -/
  start : related machine.start start
  /-- The law permits the answer to a request, and both go on alike. -/
  step : ∀ state other request, related state other → allowed state request →
    ∃ next, law other request (machine.step state request).2 next ∧
      related (machine.next state request) next

/-- From states that are alike the law permits what the machine answers. -/
theorem Obeys.permitsFrom {machine : Machine σ α β} {law : Law τ α β} {start : τ}
    (obeys : Obeys machine law start related allowed) {state : σ} {other : τ}
    (alike : related state other) {requests : List α}
    (fair : AllSteps machine.next allowed state requests) :
    Permits law other (machine.historyFrom state requests) := by
  induction requests generalizing state other with
  | nil => trivial
  | cons request rest ih =>
    obtain ⟨first, later⟩ := fair
    obtain ⟨next, lawful, goesOn⟩ := obeys.step state other request alike first
    exact ⟨next, lawful, ih goesOn later⟩

/-- The law permits the answers of every run. -/
theorem Obeys.permits {machine : Machine σ α β} {law : Law τ α β} {start : τ}
    (obeys : Obeys machine law start related allowed) {requests : List α}
    (fair : AllSteps machine.next allowed machine.start requests) :
    Permits law start (machine.history requests) :=
  obeys.permitsFrom obeys.start fair

end HwrunOs.Answering
