import FederatedMock.Coprocessor.Mocker
import FederatedMock.Proofs.Coprocessor.Request
import FederatedMock.Proofs.Generation.Envelope
import FederatedMock.Proofs.Generation.Extraction
import FederatedMock.Proofs.Ordered.Names

namespace FederatedMock

variable {σ : Type}

namespace Mocker

def query? (r : SubgraphRequest) : Option String :=
  (r.body.getD .empty).query

def service (r : SubgraphRequest) : String :=
  r.serviceName.getD ""

def operationOf? (m : Mocker) (r : SubgraphRequest) : Option String :=
  (query? r).bind m.operation?

/-- The operation of a request is its query as it is printed, with type names selected if that is
asked for, and without blanks at the end. -/
def Prints (m : Mocker) (r : SubgraphRequest) (operation : String) : Prop :=
  ∃ query d, query? r = some query ∧ Graphql.Document.parse? query = some d ∧
    operation = Text.trimRight (if m.addTypename then d.addTypename else d).text

inductive Refuses (m : Mocker) (r : SubgraphRequest) : Prop
  | missing (none : query? r = none)
  | unread {query : String} (given : query? r = some query)
      (fails : Graphql.Document.parse? query = none)
  | uncompiled {operation : String} {subgraph : Subgraph} {e : OperationError}
      (printed : m.Prints r operation)
      (known : m.registry.get? (service r) = some subgraph)
      (fails : subgraph.compile operation = .error e)

def prompt (r : SubgraphRequest) (operation : String) : String :=
  Prompt.mock operation (r.body.getD .empty).variableValues

section Preparation

variable {m : Mocker} {r : SubgraphRequest}

theorem operation?_eq_none_iff {query : String} :
    m.operation? query = none ↔ Graphql.Document.parse? query = none := by
  unfold operation?
  cases Graphql.Document.parse? query <;> simp

theorem operation?_eq_some_iff {query operation : String} :
    m.operation? query = some operation ↔ ∃ d, Graphql.Document.parse? query = some d ∧
      operation = Text.trimRight (if m.addTypename then d.addTypename else d).text := by
  unfold operation?
  cases Graphql.Document.parse? query with
  | none => simp
  | some d =>
      constructor
      · exact fun same => ⟨d, rfl, (Option.some.inj same).symm⟩
      · rintro ⟨d', found, rfl⟩
        rw [Option.some.inj found]

theorem prints_iff {operation : String} :
    m.Prints r operation ↔ m.operationOf? r = some operation := by
  simp only [Prints, operationOf?, Option.bind_eq_some_iff, operation?_eq_some_iff,
    exists_and_left]

theorem compile?_eq_error_iff {registry : Registry} {name operation : String}
    {e : OperationError} :
    registry.compile? name operation = .error e ↔
      ∃ subgraph, registry.get? name = some subgraph ∧ subgraph.compile operation = .error e := by
  unfold Registry.compile?
  cases registry.get? name with
  | none => simp
  | some subgraph => cases compiled : subgraph.compile operation <;> simp [Except.map, compiled]

theorem compile?_eq_some_iff {registry : Registry} {name operation : String} {shape : Shape} :
    registry.compile? name operation = .ok (some shape) ↔
      ∃ subgraph, registry.get? name = some subgraph ∧ subgraph.compile operation = .ok shape := by
  unfold Registry.compile?
  cases registry.get? name with
  | none => simp
  | some subgraph => cases compiled : subgraph.compile operation <;> simp [Except.map, compiled]

theorem Refuses.prepare (refused : m.Refuses r) :
    ∃ e, m.prepare (service r) (r.body.getD .empty) = .error e := by
  unfold Mocker.prepare
  cases refused with
  | missing none =>
      rw [query?] at none
      rw [none]
      exact ⟨_, rfl⟩
  | unread given fails =>
      rw [query?] at given
      rw [given]
      simp only [operation?_eq_none_iff.mpr fails]
      exact ⟨_, rfl⟩
  | uncompiled printed known fails =>
      obtain ⟨query, given, printed⟩ := Option.bind_eq_some_iff.mp (prints_iff.mp printed)
      rw [query?] at given
      rw [given]
      simp only [printed, compile?_eq_error_iff.mpr ⟨_, known, fails⟩]
      exact ⟨_, rfl⟩

structure Prepares (m : Mocker) (r : SubgraphRequest) (operation : String)
    (shape? : Option Shape) : Prop where
  printed : m.Prints r operation
  compiled : m.registry.compile? (service r) operation = .ok shape?

section

variable {operation : String} {shape? : Option Shape}

theorem Prepares.prepare (prepares : m.Prepares r operation shape?) :
    m.prepare (service r) (r.body.getD .empty) = .ok (operation, shape?) := by
  obtain ⟨query, given, printed⟩ := Option.bind_eq_some_iff.mp (prints_iff.mp prepares.printed)
  rw [query?] at given
  unfold Mocker.prepare
  rw [given]
  simp only [printed, prepares.compiled]

theorem Prepares.not_refuses (prepares : m.Prepares r operation shape?) : ¬ m.Refuses r := by
  intro refused
  obtain ⟨e, fails⟩ := refused.prepare
  rw [prepares.prepare] at fails
  cases fails

theorem Prepares.compiled_iff (prepares : m.Prepares r operation shape?) (shape : Shape) :
    shape? = some shape ↔
      ∃ subgraph, m.registry.get? (service r) = some subgraph ∧
        subgraph.compile operation = .ok shape := by
  rw [← compile?_eq_some_iff, prepares.compiled, Except.ok.injEq]

end

theorem refuses_or_prepares (m : Mocker) (r : SubgraphRequest) :
    m.Refuses r ∨ ∃ operation shape?, m.Prepares r operation shape? := by
  cases given : query? r with
  | none => exact .inl (.missing given)
  | some query =>
      cases printed : m.operation? query with
      | none => exact .inl (.unread given (operation?_eq_none_iff.mp printed))
      | some operation =>
          have printed : m.Prints r operation := by
            rw [prints_iff, operationOf?, given, Option.bind_some, printed]
          cases compiled : m.registry.compile? (service r) operation with
          | ok shape? => exact .inr ⟨operation, shape?, printed, compiled⟩
          | error e =>
              obtain ⟨subgraph, known, fails⟩ := compile?_eq_error_iff.mp compiled
              exact .inl (.uncompiled printed known fails)

end Preparation

def conclude (r : SubgraphRequest) : Except MockError Correction → Json
  | .ok c => r.reply (.answer 200) (envelope c.data)
  | .error e => r.reply (.answer 500) e.response

section Answer

variable {m : Mocker} {r : SubgraphRequest} {operation : String} {shape? : Option Shape}
  {g : Generator σ} {s : σ}

theorem answer_eq {mocked : Except MockError Correction} {s' : σ}
    (run : m.mock g (service r) (r.body.getD .empty) s = (mocked, s')) :
    m.answer g r s = (conclude r mocked, s') := by
  unfold service at run
  unfold answer
  change (match (m.mock g (r.serviceName.getD "") (r.body.getD .empty) s).1 with
    | .ok c => return r.reply (.answer 200) (envelope c.data)
    | .error e => return r.reply (.answer 500) e.response : StateM σ Json)
      (m.mock g (r.serviceName.getD "") (r.body.getD .empty) s).2 = _
  rw [run]
  cases mocked <;> rfl

theorem mock_of_error {e : MockError}
    (fails : m.prepare (service r) (r.body.getD .empty) = .error e) :
    m.mock g (service r) (r.body.getD .empty) s = (.error e, s) := by
  unfold mock
  rw [fails]
  rfl

theorem Prepares.mock_eq (prepares : m.Prepares r operation shape?) :
    m.mock g (service r) (r.body.getD .empty) s =
      match (g (prompt r operation) s).1.value with
      | .error e => (.error (.generation e), (g (prompt r operation) s).2)
      | .ok v => ((.ok (correctWith shape? v g (g (prompt r operation) s).2).1),
          (correctWith shape? v g (g (prompt r operation) s).2).2) := by
  unfold mock
  rw [prepares.prepare]
  change (match (g (prompt r operation) s).1.value with
    | .error e => return .error (.generation e)
    | .ok v => do return .ok (← correctWith shape? v g) : StateM σ (Except MockError Correction))
      (g (prompt r operation) s).2 = _
  cases (g (prompt r operation) s).1.value <;> rfl

end Answer

structure HasData (reply : Json) : Prop where
  status : reply.get? "control" = some (.object [("break", .ofNat 200)])
  body : ∃ members data, reply.get? "body" = some (.object members) ∧
    Members.get? "data" members = some data

structure HasError (reply : Json) : Prop where
  status : reply.get? "control" = some (.object [("break", .ofNat 500)])
  body : ∃ message code, reply.get? "body" = some (.object [("errors", .array [.object
    [("message", .string message), ("extensions", .object [("code", .string code)])]])])

theorem hasData_conclude (r : SubgraphRequest) (c : Correction) :
    HasData (conclude r (.ok c)) := by
  have enveloped : ∃ members data, envelope c.data = .object members ∧
      Members.get? "data" members = some data := by
    unfold envelope
    cases found : c.data.get? dataKey with
    | none => exact ⟨_, c.data, rfl, rfl⟩
    | some data =>
        cases object : c.data with
        | object members =>
            rw [object] at found
            exact ⟨members, data, rfl, found⟩
        | _ =>
            rw [object] at found
            cases found
  obtain ⟨members, data, same, found⟩ := enveloped
  have body := SubgraphRequest.get?_reply_body (r := r) (.answer 200) (envelope c.data)
  exact ⟨rfl, members, data, same ▸ body, found⟩

theorem hasError_conclude (r : SubgraphRequest) (e : MockError) :
    HasError (conclude r (.error e)) :=
  ⟨rfl, e.message, e.code, rfl⟩

theorem HasData.not_hasError {reply : Json} (answered : HasData reply) : ¬ HasError reply := by
  intro failed
  have same := answered.status.symm.trans failed.status
  simp [Json.ofNat] at same

theorem hasData_conclude_iff (r : SubgraphRequest) (mocked : Except MockError Correction) :
    HasData (conclude r mocked) ↔ ¬ HasError (conclude r mocked) := by
  cases mocked with
  | ok c => exact iff_of_true (hasData_conclude r c) (hasData_conclude r c).not_hasError
  | error e =>
      have failed := hasError_conclude r e
      exact iff_of_false (fun answered => answered.not_hasError failed) (not_not_intro failed)

def Fails (m : Mocker) (g : Generator σ) (s : σ) (r : SubgraphRequest) : Prop :=
  m.Refuses r ∨
    ∃ operation, m.Prints r operation ∧ (g (prompt r operation) s).1.IsUseless

inductive Corrects (m : Mocker) (g : Generator σ) (s : σ) (r : SubgraphRequest) : String → Prop
  | intro {operation : String} {subgraph : Subgraph} {shape : Shape} {v : Json}
      {issues : List Issue} (printed : m.Prints r operation)
      (known : m.registry.get? (service r) = some subgraph)
      (compiled : subgraph.compile operation = .ok shape)
      (gives : (g (prompt r operation) s).1.Gives v)
      (invalid : shape.validate (unwrapData v) = .error issues) :
      Corrects m g s r (Prompt.correction (unwrapData v) issues)

/-- What a request is answered with, and the prompts that are asked for it. -/
structure Answers (m : Mocker) (g : Generator σ) (s : σ) (r : SubgraphRequest) (reply : Json)
    (asked : List String) : Prop where
  error_iff : HasError reply ↔ m.Fails g s r
  data_iff : HasData reply ↔ ¬ HasError reply
  unasked : m.Refuses r → asked = []
  first : ¬ m.Refuses r →
    ∃ operation, m.Prints r operation ∧ asked.head? = some (prompt r operation)
  second : ∀ p, p ∈ asked.tail ↔ m.Corrects g s r p
  data_of_second : asked.tail ≠ [] → HasData reply
  bounded : asked.length ≤ 2

section

variable {m : Mocker} {g : Generator σ} {s : σ} {r : SubgraphRequest} {operation : String}
  {shape? : Option Shape}

theorem Corrects.not_refuses {p : String} (corrects : m.Corrects g s r p) : ¬ m.Refuses r := by
  cases corrects with
  | @intro operation subgraph shape v issues printed known compiled gives invalid =>
      have found : m.registry.compile? (service r) operation = .ok (some shape) :=
        compile?_eq_some_iff.mpr ⟨subgraph, known, compiled⟩
      exact Prepares.not_refuses ⟨printed, found⟩

theorem Prints.unique {operation' : String} (printed : m.Prints r operation')
    (printed' : m.Prints r operation) : operation' = operation :=
  Option.some.inj ((prints_iff.mp printed).symm.trans (prints_iff.mp printed'))

theorem Prepares.fails_iff (prepares : m.Prepares r operation shape?) :
    m.Fails g s r ↔ (g (prompt r operation) s).1.IsUseless := by
  constructor
  · rintro (refused | ⟨operation', printed, useless⟩)
    · exact absurd refused prepares.not_refuses
    · rwa [printed.unique prepares.printed] at useless
  · exact fun useless => .inr ⟨operation, prepares.printed, useless⟩

theorem Prepares.corrects_iff (prepares : m.Prepares r operation shape?) {v : Json}
    (gives : (g (prompt r operation) s).1.Gives v) (p : String) :
    m.Corrects g s r p ↔ ∃ shape issues, shape? = some shape ∧
      shape.validate (unwrapData v) = .error issues ∧
        p = Prompt.correction (unwrapData v) issues := by
  constructor
  · rintro ⟨printed, known, compiled, gives', invalid⟩
    cases printed.unique prepares.printed
    cases gives'.unique gives
    exact ⟨_, _, (prepares.compiled_iff _).mpr ⟨_, known, compiled⟩, invalid, rfl⟩
  · rintro ⟨shape, issues, known, invalid, rfl⟩
    obtain ⟨subgraph, known, compiled⟩ := (prepares.compiled_iff shape).mp known
    exact .intro prepares.printed known compiled gives invalid

theorem answers_of_refuses (refused : m.Refuses r) (e : MockError) :
    m.Answers g s r (conclude r (.error e)) [] where
  error_iff := by
    have fails : m.Fails g s r := .inl refused
    exact iff_of_true (hasError_conclude r e) fails
  data_iff := hasData_conclude_iff r (.error e)
  unasked _ := rfl
  first accepted := absurd refused accepted
  second p := by
    have never : ¬ m.Corrects g s r p := fun corrects => corrects.not_refuses refused
    exact iff_of_false List.not_mem_nil never
  data_of_second some := absurd rfl some
  bounded := Nat.zero_le 2

theorem answers_of_useless (prepares : m.Prepares r operation shape?)
    (useless : (g (prompt r operation) s).1.IsUseless) (e : MockError) :
    m.Answers g s r (conclude r (.error e)) [prompt r operation] where
  error_iff := by
    have fails : m.Fails g s r := prepares.fails_iff.mpr useless
    exact iff_of_true (hasError_conclude r e) fails
  data_iff := hasData_conclude_iff r (.error e)
  unasked refused := absurd refused prepares.not_refuses
  first _ := ⟨operation, prepares.printed, rfl⟩
  second p := by
    have never : ¬ m.Corrects g s r p := by
      rintro ⟨printed, known, compiled, gives, invalid⟩
      cases printed.unique prepares.printed
      exact gives.not_isUseless useless
    exact iff_of_false List.not_mem_nil never
  data_of_second some := absurd rfl some
  bounded := Nat.le_succ 1

theorem answers_of_gives (prepares : m.Prepares r operation shape?) {v : Json}
    (gives : (g (prompt r operation) s).1.Gives v) {asked : List String}
    (follows : FollowUp shape? v asked) (c : Correction) :
    m.Answers g s r (conclude r (.ok c)) (prompt r operation :: asked) where
  error_iff := by
    have works : ¬ m.Fails g s r := fun fails =>
      gives.not_isUseless (prepares.fails_iff.mp fails)
    exact iff_of_false (hasData_conclude r c).not_hasError works
  data_iff := hasData_conclude_iff r (.ok c)
  unasked refused := absurd refused prepares.not_refuses
  first _ := ⟨operation, prepares.printed, rfl⟩
  second p := (follows.mem_iff p).trans (prepares.corrects_iff gives p).symm
  data_of_second _ := hasData_conclude r c
  bounded := Nat.succ_le_succ follows.bounded

theorem answer_answers (m : Mocker) (g : Generator σ) (s : σ) (r : SubgraphRequest) :
    ∃ mocked s' asked, m.answer g r s = (conclude r mocked, s') ∧
      m.answer g.noting r (s, []) = (conclude r mocked, s', asked) ∧
        m.Answers g s r (conclude r mocked) asked := by
  rcases refuses_or_prepares m r with refused | ⟨operation, shape?, prepares⟩
  · obtain ⟨e, fails⟩ := refused.prepare
    exact ⟨.error e, s, [], answer_eq (mock_of_error fails), answer_eq (mock_of_error fails),
      answers_of_refuses refused e⟩
  have plain := prepares.mock_eq (g := g) (s := s)
  have noted := prepares.mock_eq (g := g.noting) (s := (s, []))
  rw [Generator.noting_eq, List.nil_append] at noted
  cases value : (g (prompt r operation) s).1.value with
  | error e =>
      have useless := Reply.value_eq_error_iff.mp ⟨e, value⟩
      simp only [value] at plain noted
      exact ⟨_, _, _, answer_eq plain, answer_eq noted, answers_of_useless prepares useless _⟩
  | ok v =>
      have gives := Reply.value_eq_ok_iff.mp value
      obtain ⟨c, s', asked, corrected, noticed, follows⟩ :=
        corrections_of shape? v g (g (prompt r operation) s).2 [prompt r operation]
      simp only [value, corrected] at plain
      simp only [value, noticed] at noted
      exact ⟨_, _, _, answer_eq plain, answer_eq noted, answers_of_gives prepares gives follows c⟩

end

structure Proceeds (members reply : Members Json) : Prop where
  control : Members.get? "control" reply = some (.string "continue")
  others : ∀ key, key ≠ "control" → Members.get? key reply = Members.get? key members
  keys : Members.keys reply = Names.insert (Members.keys members) "control"

theorem proceeds_insert (members : Members Json) :
    Proceeds members (Members.insert controlKey Control.proceed.toJson members) where
  control := by
    rw [Members.get?_insert]
    rfl
  others key other := by
    have apart : controlKey ≠ key := fun same => other same.symm
    rw [Members.get?_insert, if_neg apart]
  keys := by
    rw [Members.keys_insert]
    rfl

def IsRequest (payload : Json) : Prop :=
  payload.get? "stage" = some (.string "SubgraphRequest")

theorem request?_object (members : Members Json) :
    (IsRequest (.object members) ∧ request? (.object members) = some members) ∨
      ¬ IsRequest (.object members) ∧ request? (.object members) = none := by
  unfold IsRequest request? Json.get?
  cases found : Members.get? "stage" members with
  | none => simp [found]
  | some v =>
      cases v with
      | string s =>
          by_cases here : s = "SubgraphRequest" <;> simp [found, SubgraphRequest.stage, here]
      | _ => simp [found]

/-- What a payload is answered with, and the prompts that are asked for it. -/
structure Handles (m : Mocker) (g : Generator σ) (s : σ) (payload : Json)
    (answer : Except PayloadError Json) (asked : List String) : Prop where
  passed : ∀ members, payload = .object members → ¬ IsRequest payload →
    asked = [] ∧ ∃ reply, answer = .ok (.object reply) ∧ Proceeds members reply
  returned : (∀ members, payload ≠ .object members) → asked = [] ∧ answer = .ok payload
  unread : ∀ members, payload = .object members → IsRequest payload →
    ¬ SubgraphRequest.Readable members → asked = [] ∧ ∃ e, answer = .error e
  answered : ∀ members, payload = .object members → IsRequest payload →
    SubgraphRequest.Readable members → ∃ reply, answer = .ok reply ∧
      SubgraphRequest.Repeats members reply ∧
        m.Answers g s (SubgraphRequest.lookUp members) reply asked

theorem repeats_conclude {members : Members Json} (readable : SubgraphRequest.Readable members)
    (mocked : Except MockError Correction) :
    SubgraphRequest.Repeats members (conclude (SubgraphRequest.lookUp members) mocked) := by
  cases mocked with
  | ok c => exact readable.repeats (.answer 200) (envelope c.data)
  | error e => exact readable.repeats (.answer 500) e.response

section

variable {m : Mocker} {g : Generator σ} {s : σ} {payload : Json}

theorem handle_of_passed (other : request? payload = none) :
    m.handle g payload s = (.ok (continueWith payload), s) := by
  unfold handle
  rw [other]
  rfl

theorem handle_of_unread {members : Members Json} {e : PayloadError}
    (request : request? payload = some members)
    (fails : SubgraphRequest.ofMembers members = .error e) :
    m.handle g payload s = (.error e, s) := by
  unfold handle
  rw [request]
  simp only [fails]
  rfl

theorem handle_of_answered {members : Members Json} {r : SubgraphRequest} {reply : Json} {s' : σ}
    (request : request? payload = some members)
    (read : SubgraphRequest.ofMembers members = .ok r) (run : m.answer g r s = (reply, s')) :
    m.handle g payload s = (.ok reply, s') := by
  unfold handle
  rw [request]
  simp only [read]
  change (Except.ok (m.answer g r s).1, (m.answer g r s).2) = _
  rw [run]

theorem handles_of_passed {members : Members Json} (other : ¬ IsRequest (.object members)) :
    m.Handles g s (.object members) (.ok (continueWith (.object members))) [] where
  passed := by
    rintro _ ⟨⟩ -
    exact ⟨rfl, _, rfl, proceeds_insert members⟩
  returned noObject := absurd rfl (noObject members)
  unread _ _ request := absurd request other
  answered _ _ request := absurd request other

theorem handles_of_unread {members : Members Json} (request : IsRequest (.object members))
    (unreadable : ¬ SubgraphRequest.Readable members) (e : PayloadError) :
    m.Handles g s (.object members) (.error e) [] where
  passed _ _ other := absurd request other
  returned noObject := absurd rfl (noObject members)
  unread _ _ _ _ := ⟨rfl, e, rfl⟩
  answered := by
    rintro _ ⟨⟩ - readable
    exact absurd readable unreadable

theorem handles_of_answers {members : Members Json} {reply : Json} {asked : List String}
    (request : IsRequest (.object members)) (readable : SubgraphRequest.Readable members)
    (repeats : SubgraphRequest.Repeats members reply)
    (answers : m.Answers g s (SubgraphRequest.lookUp members) reply asked) :
    m.Handles g s (.object members) (.ok reply) asked where
  passed _ _ other := absurd request other
  returned noObject := absurd rfl (noObject members)
  unread := by
    rintro _ ⟨⟩ - unreadable
    exact absurd readable unreadable
  answered := by
    rintro _ ⟨⟩ - -
    exact ⟨reply, rfl, repeats, answers⟩

theorem handles_of_no_object (other : ∀ members, payload ≠ .object members) :
    m.Handles g s payload (.ok payload) [] where
  passed members object := absurd object (other members)
  returned _ := ⟨rfl, rfl⟩
  unread members object := absurd object (other members)
  answered members object := absurd object (other members)

theorem handles_members (m : Mocker) (g : Generator σ) (s : σ) (members : Members Json) :
    ∃ answer s' asked, m.handle g (.object members) s = (answer, s') ∧
      m.handle g.noting (.object members) (s, []) = (answer, s', asked) ∧
        m.Handles g s (.object members) answer asked := by
  rcases request?_object members with ⟨isRequest, request⟩ | ⟨other, request⟩
  · cases read : SubgraphRequest.ofMembers members with
    | error e =>
        have unreadable : ¬ SubgraphRequest.Readable members := fun readable => by
          have read' := SubgraphRequest.ofMembers_eq_ok_iff.mpr ⟨readable, rfl⟩
          cases read.symm.trans read'
        exact ⟨_, _, _, handle_of_unread request read, handle_of_unread request read,
          handles_of_unread isRequest unreadable e⟩
    | ok r =>
        obtain ⟨readable, rfl⟩ := SubgraphRequest.ofMembers_eq_ok_iff.mp read
        obtain ⟨mocked, s', asked, plain, noted, answers⟩ :=
          answer_answers m g s (SubgraphRequest.lookUp members)
        exact ⟨_, _, _, handle_of_answered request read plain,
          handle_of_answered request read noted,
          handles_of_answers isRequest readable (repeats_conclude readable mocked) answers⟩
  · exact ⟨_, _, _, handle_of_passed request, handle_of_passed request, handles_of_passed other⟩

theorem handles_other (m : Mocker) (g : Generator σ) (s : σ)
    (other : ∀ members, payload ≠ .object members) :
    ∃ answer s' asked, m.handle g payload s = (answer, s') ∧
      m.handle g.noting payload (s, []) = (answer, s', asked) ∧
        m.Handles g s payload answer asked := by
  have request : request? payload = none := by
    cases payload with
    | object members => exact absurd rfl (other members)
    | _ => rfl
  have unchanged : continueWith payload = payload := by
    cases payload with
    | object members => exact absurd rfl (other members)
    | _ => rfl
  have plain := handle_of_passed (m := m) (g := g) (s := s) request
  have noted := handle_of_passed (m := m) (g := g.noting) (s := (s, [])) request
  rw [unchanged] at plain noted
  exact ⟨_, _, _, plain, noted, handles_of_no_object other⟩

end

/-- Every payload is answered by the protocol, whatever the generator does, and asks for a second
generation at most. -/
theorem handle_protocol (m : Mocker) (g : Generator σ) (s : σ) (payload : Json) :
    ∃ answer s' asked, m.handle g payload s = (answer, s') ∧
      m.handle g.noting payload (s, []) = (answer, s', asked) ∧
        m.Handles g s payload answer asked := by
  cases payload with
  | object members => exact handles_members m g s members
  | null => exact handles_other m g s (by simp)
  | boolean b => exact handles_other m g s (by simp)
  | number n => exact handles_other m g s (by simp)
  | string text => exact handles_other m g s (by simp)
  | array items => exact handles_other m g s (by simp)

def serving (s : Subgraph) : Mocker :=
  ⟨.ofList [("depot", s)], false⟩

def printed (d : Graphql.Document) : String :=
  Text.trimRight d.text

def depotRequest (d : Graphql.Document) : Members Json :=
  [("version", .ofNat 1 isWordSized_one), ("stage", .string "SubgraphRequest"),
    ("serviceName", .string "depot"), ("body", .object [("query", .string (printed d))])]

def depotAsks (d : Graphql.Document) : SubgraphRequest :=
  ⟨none, some { RequestBody.empty with query := some (printed d) }, none, some "depot", none⟩

theorem read_depotRequest (d : Graphql.Document) : IsRequest (.object (depotRequest d)) ∧
    SubgraphRequest.ofMembers (depotRequest d) = .ok (depotAsks d) :=
  ⟨rfl, rfl⟩

section

variable {s : Subgraph} {d : Graphql.Document} {shape : Shape}

theorem prints_depotAsks (parsed : Graphql.Document.parse? (printed d) = some d) :
    (serving s).Prints (depotAsks d) (printed d) :=
  ⟨_, _, rfl, parsed, rfl⟩

theorem compile_printed (parsed : Graphql.Document.parse? (printed d) = some d)
    (compiled : (s.compileDocument d).map Prod.fst = .ok shape) :
    s.compile (printed d) = .ok shape := by
  simp only [Subgraph.compile, parsed, compiled]

theorem corrects_depotAsks (text : String) {v : Json} {issues : List Issue}
    (parsed : Graphql.Document.parse? (printed d) = some d)
    (compiled : (s.compileDocument d).map Prod.fst = .ok shape)
    (given : parseGenerated text = .ok v)
    (invalid : shape.validate (unwrapData v) = .error issues) :
    (serving s).Corrects Script.generator ⟨[.ok text], []⟩ (depotAsks d)
      (Prompt.correction (unwrapData v) issues) :=
  .intro (prints_depotAsks parsed) rfl (compile_printed parsed compiled) ⟨text, rfl, given⟩ invalid

end

open Subgraph

theorem parse_shelfQuery :
    Graphql.Document.parse? (printed (depotQuery (some "shelf"))) =
      some (depotQuery (some "shelf")) := by
  have lexed : Graphql.lex (printed (depotQuery (some "shelf"))) =
      some [.punctuator '\x7b', .name "shelf", .punctuator ':', .name "data",
        .punctuator '\x7b', .name "size", .punctuator '\x7d', .punctuator '\x7d'] := by
    decide +kernel
  rw [Graphql.Document.parse?, lexed]
  rfl

theorem eq_pair_of_mem_tail {α : Type} {l : List α} {x y : α} (first : l.head? = some x)
    (second : y ∈ l.tail) (bounded : l.length ≤ 2) : l = [x, y] := by
  rcases l with _ | ⟨_, _ | ⟨_, _ | ⟨_, rest⟩⟩⟩
  · cases first
  · cases second
  · cases first
    rw [List.mem_singleton.mp second]
  · simp at bounded

theorem depotRequest_handled : ∃ reply s' issues,
    (serving depot).handle Script.generator.noting
        (.object (depotRequest (depotQuery (some "shelf")))) (⟨[.ok "[]"], []⟩, []) =
      (.ok reply, s', [Prompt.mock (printed (depotQuery (some "shelf"))) none,
        Prompt.correction (.array []) issues]) ∧
      SubgraphRequest.Repeats (depotRequest (depotQuery (some "shelf"))) reply ∧ HasData reply := by
  obtain ⟨request, read⟩ := read_depotRequest (depotQuery (some "shelf"))
  obtain ⟨answer, s', asked, -, noted, handles⟩ := handle_protocol (serving depot) Script.generator
    ⟨[.ok "[]"], []⟩ (.object (depotRequest (depotQuery (some "shelf"))))
  obtain ⟨readable, same⟩ := SubgraphRequest.ofMembers_eq_ok_iff.mp read
  obtain ⟨reply, rfl, repeats, answers⟩ := handles.answered _ rfl request readable
  rw [← same] at answers
  obtain ⟨issues, invalid⟩ :
      ∃ issues, (depotShape "shelf").validate (unwrapData (.array [])) = .error issues := ⟨_, rfl⟩
  have bare : Text.stripFences "[]".toList = "[]".toList := by decide +kernel
  have corrects := corrects_depotAsks (s := depot) "[]" parse_shelfQuery rfl
    ((parseGenerated_of_strip bare).trans rfl) invalid
  obtain ⟨operation, prints, first⟩ := answers.first corrects.not_refuses
  rw [prints.unique (prints_depotAsks parse_shelfQuery)] at first
  have second := (answers.second _).mpr corrects
  rw [eq_pair_of_mem_tail first second answers.bounded] at noted
  exact ⟨reply, s', issues, noted, repeats, answers.data_of_second (List.ne_nil_of_mem second)⟩

end Mocker

end FederatedMock
