import FederatedMock.Proofs.Coprocessor.Protocol
import FederatedMock.Proofs.Generation.Envelope
import FederatedMock.Proofs.Operation.Reserved
import FederatedMock.Proofs.Shape.Idempotence

namespace FederatedMock

open Graphql Shape

variable {σ : Type}

theorem validated_of_accepted {shape : Shape} {g : Generator σ} {s s' : σ} {v data : Json} {n : Nat}
    (accepted : correct shape v g s = (⟨data, .accepted, n⟩, s')) :
    ∃ candidate, shape.validate candidate = .ok data := by
  obtain ⟨data', outcome, asked, s'', rounds⟩ := exists_rounds shape g 1 (unwrapData v) s
  obtain ⟨plain, -⟩ := rounds.correctFrom_eq 0 []
  obtain ⟨same, -⟩ := Prod.mk.inj (accepted.symm.trans plain)
  obtain ⟨rfl, rfl, -⟩ := Correction.mk.inj same
  rcases rounds.judged with ⟨-, validated⟩ | ⟨other, -⟩
  · exact validated
  · simp at other

namespace Subgraph

theorem revalidates {schema d : Document} {s : Subgraph} {v : Shape} {visits : Nat} {x y : Json}
    (read : ofDocument schema = .ok s) (compiled : s.compileDocument d = .ok (v, visits))
    (reserved : d.ReservesTypename) (valid : v.validate x = .ok y) : v.validate y = .ok y := by
  have settled : Settled v :=
    ⟨compileDocument_distinctKeys compiled, compileDocument_namedVariants read compiled reserved⟩
  exact validate_eq_ok_iff.mpr ((validate_eq_ok_iff.mp valid).again settled)

end Subgraph

namespace Mocker

/-- The data that is generated for a request is accepted in the end, as data of the operation. -/
inductive Accepts (m : Mocker) (g : Generator σ) (s : σ) (r : SubgraphRequest)
    (subgraph : Subgraph) (operation : String) (shape : Shape) (data : Json) (s' : σ) : Prop
  | intro {v : Json} {n : Nat} (printed : m.operationOf? r = some operation)
      (known : m.registry.get? (service r) = some subgraph)
      (compiled : subgraph.compile operation = .ok shape)
      (gives : (g (prompt r operation) s).1.Gives v)
      (accepted : correct shape v g (g (prompt r operation) s).2 = (⟨data, .accepted, n⟩, s')) :
      Accepts m g s r subgraph operation shape data s'

structure Delivers (subgraph : Subgraph) (operation : String) (shape : Shape) (data reply : Json) :
    Prop where
  status : reply.get? "control" = some (.object [("break", .ofNat 200)])
  enveloped : data.get? dataKey = none → reply.get? "body" = some (.object [(dataKey, data)])
  bare : data.get? dataKey ≠ none → reply.get? "body" = some data ∧
    ∃ d, Document.parse? operation = some d ∧ subgraph.SelectsAtRoot d dataKey
  valid : ∀ schema d, Subgraph.ofDocument schema = .ok subgraph →
    Document.parse? operation = some d → d.ReservesTypename → shape.validate data = .ok data

section

variable {m : Mocker} {g : Generator σ} {s s' : σ} {r : SubgraphRequest} {subgraph : Subgraph}
  {operation : String} {shape : Shape} {data : Json}

theorem Accepts.answer_eq (accepts : m.Accepts g s r subgraph operation shape data s') :
    m.answer g r s = (r.reply (.answer 200) (envelope data), s') := by
  cases accepts with
  | intro printed known compiled gives accepted =>
      have prepares : m.Prepares r operation (some shape) :=
        ⟨prints_iff.mpr printed, compile?_eq_some_iff.mpr ⟨subgraph, known, compiled⟩⟩
      have mocked := prepares.mock_eq (g := g) (s := s)
      simp only [Reply.value_eq_ok_iff.mpr gives, correctWith, accepted] at mocked
      exact Mocker.answer_eq mocked

theorem envelope_of_none (none : data.get? dataKey = none) :
    envelope data = .object [(dataKey, data)] := by
  simp [envelope, none]

theorem envelope_of_ne_none (some : data.get? dataKey ≠ none) : envelope data = data := by
  obtain ⟨inner, found⟩ := Option.ne_none_iff_exists'.mp some
  simp [envelope, found]

theorem Accepts.delivers (accepts : m.Accepts g s r subgraph operation shape data s') :
    Delivers subgraph operation shape data (r.reply (.answer 200) (envelope data)) := by
  cases accepts with
  | intro printed known compiled gives accepted =>
      obtain ⟨candidate, validated⟩ := validated_of_accepted accepted
      obtain ⟨d, visits, parsed, compiled⟩ := Subgraph.compile_eq_ok compiled
      refine ⟨rfl, fun none => ?_, fun some => ⟨?_, d, parsed, ?_⟩, fun schema d' read parsed' => ?_⟩
      · rw [SubgraphRequest.get?_reply_body, envelope_of_none none]
      · rw [SubgraphRequest.get?_reply_body, envelope_of_ne_none some]
      · obtain ⟨inner, found⟩ := Option.ne_none_iff_exists'.mp some
        have answers := Subgraph.answers_of_validate compiled validated
        exact answers.selectsAtRoot found (by decide)
      · cases parsed.symm.trans parsed'
        exact fun reserved => Subgraph.revalidates read compiled reserved validated

end

/-- Accepted data of a request is delivered intact. -/
theorem handle_delivers {m : Mocker} {g : Generator σ} {s s' : σ} {members : Members Json}
    {r : SubgraphRequest} {subgraph : Subgraph} {operation : String} {shape : Shape} {data : Json}
    (request : IsRequest (.object members)) (read : SubgraphRequest.ofMembers members = .ok r)
    (accepts : m.Accepts g s r subgraph operation shape data s') :
    ∃ reply, m.handle g (.object members) s = (.ok reply, s') ∧
      Delivers subgraph operation shape data reply := by
  rcases request?_object members with ⟨-, found⟩ | ⟨other, -⟩
  · exact ⟨_, handle_of_answered found read accepts.answer_eq, accepts.delivers⟩
  · exact (other request).elim

def replying (v : Json) : Script :=
  ⟨[.ok v.compact], []⟩

structure Replies (s : Subgraph) (d : Document) (shape : Shape) (v data : Json) : Prop where
  parsed : Document.parse? (printed d) = some d
  compiled : (s.compileDocument d).map Prod.fst = .ok shape
  given : parseGenerated v.compact = .ok v
  valid : shape.validate (unwrapData v) = .ok data

theorem Replies.accepts {s : Subgraph} {d : Document} {shape : Shape} {v data : Json}
    (replies : Replies s d shape v data) :
    (serving s).Accepts Script.generator (replying v) (depotAsks d) s (printed d) shape data
      ⟨[], [prompt (depotAsks d) (printed d)]⟩ := by
  exact .intro (v := v) (n := 0) (prints_iff.mp (prints_depotAsks replies.parsed)) rfl
    (compile_printed replies.parsed replies.compiled) ⟨_, rfl, replies.given⟩
    (correctFrom_of_valid _ _ replies.valid)

open Subgraph

theorem aliasedData_replies : Replies depot (depotQuery (some "shelf")) (depotShape "shelf")
    (.object [(dataKey, depotData "shelf")]) (depotData "shelf") where
  parsed := parse_shelfQuery
  compiled := rfl
  given := by
    have bare : Text.stripFences (Json.object [(dataKey, depotData "shelf")]).compact.toList =
        "\x7b\"data\":\x7b\"shelf\":\x7b\"size\":1\x7d\x7d\x7d".toList := by decide +kernel
    exact (parseGenerated_of_strip bare).trans rfl
  valid := rfl

theorem aliasedData_delivered :
    ∃ reply s', (serving depot).handle Script.generator
        (.object (depotRequest (depotQuery (some "shelf"))))
        (replying (.object [(dataKey, depotData "shelf")])) = (.ok reply, s') ∧
      reply.get? "body" = some (.object [(dataKey, depotData "shelf")]) := by
  obtain ⟨request, read⟩ := read_depotRequest (depotQuery (some "shelf"))
  obtain ⟨reply, run, delivers⟩ := handle_delivers request read aliasedData_replies.accepts
  exact ⟨reply, _, run, delivers.enveloped rfl⟩

theorem selectedData_replies : Replies depot (depotQuery none) (depotShape "data")
    (.object [(dataKey, depotData "data")]) (depotData "data") where
  parsed := by
    have lexed : lex (printed (depotQuery none)) =
        some [.punctuator '\x7b', .name "data", .punctuator '\x7b', .name "size",
          .punctuator '\x7d', .punctuator '\x7d'] := by decide +kernel
    rw [Document.parse?, lexed]
    rfl
  compiled := rfl
  given := by
    have bare : Text.stripFences (Json.object [(dataKey, depotData "data")]).compact.toList =
        "\x7b\"data\":\x7b\"data\":\x7b\"size\":1\x7d\x7d\x7d".toList := by decide +kernel
    exact (parseGenerated_of_strip bare).trans rfl
  valid := rfl

-- `type Query { node: Node }  interface Node { id: ID }
-- type Book implements Node { id: ID  lent: Boolean! }`
def loansSchema : Document :=
  let id : FieldDefinition := ⟨none, "id", [], .named "ID" false, []⟩
  let lent : FieldDefinition := ⟨none, "lent", [], .named "Boolean" true, []⟩
  [.type ⟨false, none, "Query", [], .object [] [⟨none, "node", [], .named "Node" false, []⟩]⟩,
    .type ⟨false, none, "Node", [], .interface [] [id]⟩,
    .type ⟨false, none, "Book", [], .object ["Node"] [id, lent]⟩]

def loans : Subgraph :=
  completed loansSchema

-- `{ node { ... on Book { __typename: lent } } }`
def lentAsTypename : Document :=
  [.operation ⟨.query, none, [], [], [.field none "node" [] []
    [.inline (some "Book") [] [.field (some "__typename") "lent" [] [] []]]]⟩]

def lentShape : Shape :=
  .object [("node", .nullable (.variants [("Book", [(typenameKey, .scalar .boolean)])]))]

def nodeNamed (typename : Json) : Json :=
  .object [("node", .object [(typenameKey, typename)])]

theorem lentAsTypename_replies : Replies loans lentAsTypename lentShape (nodeNamed (.string "Book"))
    (nodeNamed (.boolean true)) where
  parsed := by
    have lexed : lex (printed lentAsTypename) =
        some [.punctuator '\x7b', .name "node", .punctuator '\x7b', .ellipsis, .name "on",
          .name "Book", .punctuator '\x7b', .name "__typename", .punctuator ':', .name "lent",
          .punctuator '\x7d', .punctuator '\x7d', .punctuator '\x7d'] := by decide +kernel
    rw [Document.parse?, lexed]
    rfl
  compiled := rfl
  given := by
    have bare : Text.stripFences (nodeNamed (.string "Book")).compact.toList =
        "\x7b\"node\":\x7b\"__typename\":\"Book\"\x7d\x7d".toList := by decide +kernel
    exact (parseGenerated_of_strip bare).trans rfl
  valid := rfl

/-- Data with a member of the name of the envelope is not put in another one, and data in which
another field took the place of the type name is not valid any more. -/
theorem acceptedData_not_intact :
    (ofDocument depotSchema = .ok depot ∧
      (∃ s', (serving depot).Accepts Script.generator
        (replying (.object [(dataKey, depotData "data")])) (depotAsks (depotQuery none)) depot
        (printed (depotQuery none)) (depotShape "data") (depotData "data") s') ∧
      ∃ reply s', (serving depot).handle Script.generator (.object (depotRequest (depotQuery none)))
          (replying (.object [(dataKey, depotData "data")])) = (.ok reply, s') ∧
        (reply.get? "body").bind (·.get? dataKey) = some (.object [("size", .ofNat 1)])) ∧
    ofDocument loansSchema = .ok loans ∧
      (∃ s', (serving loans).Accepts Script.generator (replying (nodeNamed (.string "Book")))
        (depotAsks lentAsTypename) loans (printed lentAsTypename) lentShape
        (nodeNamed (.boolean true)) s') ∧
      lentShape.validate (nodeNamed (.boolean true)) ≠ .ok (nodeNamed (.boolean true)) := by
  refine ⟨⟨rfl, ⟨_, selectedData_replies.accepts⟩, ?_⟩, rfl, ⟨_, lentAsTypename_replies.accepts⟩, ?_⟩
  · obtain ⟨request, read⟩ := read_depotRequest (depotQuery none)
    exact ⟨_, _, handle_of_answered rfl read selectedData_replies.accepts.answer_eq, rfl⟩
  · intro valid
    cases valid

end Mocker

end FederatedMock
