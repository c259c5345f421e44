import FederatedMock.Proofs.Graphql.Names
import FederatedMock.Proofs.Schema.Restatement
import FederatedMock.Proofs.Shape.Visits

namespace FederatedMock

open Graphql Report

theorem Text.toList_join (separator : String) (texts : List String) :
    (Text.join separator texts).toList =
      separator.toList.intercalate (texts.map String.toList) := by
  induction texts with
  | nil => rfl
  | cons s rest ih =>
      cases rest with
      | nil => simp [join]
      | cons s' rest => simp [join, ih]

theorem not_isDigit_of_isNameStart {c : Char} (start : isNameStart c = true) :
    c.isDigit ≠ true := by
  intro digit
  have below : c ≤ '9' := of_decide_eq_true (Bool.and_eq_true_iff.mp digit).2
  rcases Bool.or_eq_true_iff.mp start with letter | underscore
  · rcases Bool.or_eq_true_iff.mp letter with upper | lower
    · have above : 'A' ≤ c := (of_decide_eq_true upper).1
      exact absurd (Char.le_trans above below) (by decide)
    · have above : 'a' ≤ c := of_decide_eq_true (Bool.and_eq_true_iff.mp lower).1
      exact absurd (Char.le_trans above below) (by decide)
  · rw [beq_iff_eq.mp underscore] at digit
    cases digit

namespace Step

def Named : Step → Prop
  | .key name => IsName name
  | .index _ => True

theorem isDigit_of_mem_text {n : Nat} {c : Char} (mem : c ∈ (index n).text.toList) :
    c.isDigit = true := by
  rw [text, Nat.toString_eq_ofList_toDigits, String.toList_ofList] at mem
  exact Nat.isDigit_of_mem_toDigits (by decide) (by decide) mem

theorem text_ne_nil {s : Step} (named : s.Named) : s.text.toList ≠ [] := by
  cases s with
  | key name =>
      obtain ⟨c, cs, spelled, -⟩ := named
      simp [text, spelled]
  | index n =>
      rw [text, Nat.toString_eq_ofList_toDigits, String.toList_ofList]
      exact Nat.toDigits_ne_nil

theorem dot_notMem_text {s : Step} (named : s.Named) : '.' ∉ s.text.toList := by
  intro mem
  cases s with
  | key name =>
      obtain ⟨c, cs, spelled, start, rest⟩ := named
      rw [text, spelled] at mem
      rcases List.mem_cons.mp mem with rfl | mem
      · cases start
      · cases rest _ mem
  | index n => cases isDigit_of_mem_text mem

theorem key_text_ne {name : String} {n : Nat} (named : IsName name) :
    (key name).text ≠ (index n).text := by
  intro same
  obtain ⟨c, cs, spelled, start, -⟩ := named
  have first : c ∈ (index n).text.toList := by
    rw [← same, text, spelled]
    exact List.mem_cons_self
  exact not_isDigit_of_isNameStart start (isDigit_of_mem_text first)

theorem text_inj {s s' : Step} (named : s.Named) (named' : s'.Named) (same : s.text = s'.text) :
    s = s' := by
  cases s with
  | key name =>
      cases s' with
      | key name' => exact congrArg key same
      | index n => exact (key_text_ne named same).elim
  | index n =>
      cases s' with
      | key name => exact (key_text_ne named' same.symm).elim
      | index n' =>
          have digits := congrArg (fun t : String => Nat.ofDigitChars 10 t.toList 0) same
          simpa [text, Nat.toString_eq_ofList_toDigits, Nat.ofDigitChars_toDigits] using digits

end Step

theorem eq_of_map_text_eq {p q : Path} (named : ∀ s ∈ p, s.Named) (named' : ∀ s ∈ q, s.Named)
    (same : p.map (fun s => s.text.toList) = q.map fun s => s.text.toList) : p = q := by
  induction p generalizing q with
  | nil => exact (List.map_eq_nil_iff.mp same.symm).symm
  | cons s rest ih =>
      cases q with
      | nil => cases same
      | cons s' rest' =>
          obtain ⟨first, others⟩ := List.forall_mem_cons.mp named
          obtain ⟨first', others'⟩ := List.forall_mem_cons.mp named'
          obtain ⟨head, tail⟩ := List.cons.inj same
          rw [Step.text_inj first first' (String.toList_inj.mp head), ih others others' tail]

theorem Path.splitOn_dotted {p : Path} (named : ∀ s ∈ p, s.Named) (below : p ≠ []) :
    p.dotted.toList.splitOn '.' = p.map fun s => s.text.toList := by
  rw [dotted, Text.toList_join, List.map_map]
  refine List.splitOn_intercalate '.' ?_ (by simpa using below)
  intro l mem
  obtain ⟨s, step, rfl⟩ := List.mem_map.mp mem
  exact Step.dot_notMem_text (named s step)

theorem Path.dotted_ne_empty {p : Path} (named : ∀ s ∈ p, s.Named) (below : p ≠ []) :
    p.dotted ≠ "" := by
  intro empty
  have texts := splitOn_dotted named below
  obtain ⟨s, rest, rfl⟩ := List.exists_cons_of_ne_nil below
  rw [empty] at texts
  have first := (List.cons.inj texts).1
  exact Step.text_ne_nil (named s List.mem_cons_self) first.symm

theorem Path.dotted_inj {p q : Path} (named : ∀ s ∈ p, s.Named) (named' : ∀ s ∈ q, s.Named)
    (same : p.dotted = q.dotted) : p = q := by
  -- Paths are found again by splitting at dots, except the root, whose text alone is empty.
  by_cases root : p = []
  · subst root
    by_contra other
    exact dotted_ne_empty named' (Ne.symm other) same.symm
  · by_cases root' : q = []
    · subst root'
      exact (dotted_ne_empty named root same).elim
    · refine eq_of_map_text_eq named named' ?_
      rw [← splitOn_dotted named root, ← splitOn_dotted named' root', same]

namespace Shape

def MissesTypename (s : Shape) (x : Json) (i : Issue) : Prop :=
  ∃ (path : Path) (choices : Variants) (members : Members Json),
    Visits s (some x) path (.variants choices) (some (.object members)) ∧
      members.get? typenameKey = none ∧
        i = ⟨path ++ [.key typenameKey], discriminatorMessage choices.keys⟩

/-- The issues are some, at places apart from each other, in values that are there. At the place
itself there is no value exactly if one is required, or if it is that of a missing type name. -/
structure Unambiguous (s : Shape) (x : Json) (issues : List Issue) : Prop where
  nonempty : issues ≠ []
  apart : issues.Pairwise Issue.Apart
  parent : ∀ i ∈ issues, ∃ v, x.resolve? i.path.dropLast = some v
  missing : ∀ i ∈ issues, x.resolve? i.path = none ↔
    i.message = requiredMessage ∨ s.MissesTypename x i

theorem resolve?_typename {s : Shape} {x : Json} {path : Path} {choices : Variants}
    {members : Members Json}
    (visits : Visits s (some x) path (.variants choices) (some (.object members))) :
    x.resolve? (path ++ [.key typenameKey]) = members.get? typenameKey := by
  have here : x.resolve? path = some (.object members) := visits.resolve?
  rw [Json.resolve?_append, here]
  exact Option.bind_fun_some _

theorem MissesTypename.resolve? {s : Shape} {x : Json} {i : Issue} (misses : s.MissesTypename x i) :
    x.resolve? i.path = none := by
  obtain ⟨path, choices, members, visits, missing, rfl⟩ := misses
  rw [resolve?_typename visits, missing]

theorem Visits.located {s t : Shape} {x : Json} {z : Option Json} {path : Path} {j : Issue}
    (visits : Visits s (some x) path t z) (reports : Reports t z j) :
    (∃ v, x.resolve? (j.under path).path.dropLast = some v) ∧
      (x.resolve? (j.under path).path = none ↔
        j.message = requiredMessage ∨ s.MissesTypename x (j.under path)) := by
  have here : x.resolve? path = z := visits.resolve?
  have parent : ∃ v, x.resolve? path.dropLast = some v := by
    by_cases root : path = []
    · exact ⟨x, by rw [root]; rfl⟩
    · exact visits.parent root
  cases reports with
  | required =>
      have place : Issue.under path ⟨[], requiredMessage⟩ = ⟨path, requiredMessage⟩ := by
        simp [Issue.under]
      rw [place]
      exact ⟨parent, iff_of_true here (.inl rfl)⟩
  | @unusable _ v message other =>
      have place : Issue.under path ⟨[], message⟩ = ⟨path, message⟩ := by simp [Issue.under]
      rw [place]
      refine ⟨parent, iff_of_false (fun missing => ?_) ?_⟩
      · cases here.symm.trans missing
      · rintro (required | misses)
        · exact other required
        · cases here.symm.trans misses.resolve?
  | @unchosen choices members unselected =>
      have place : Issue.under path ⟨[.key typenameKey], discriminatorMessage choices.keys⟩ =
          ⟨path ++ [.key typenameKey], discriminatorMessage choices.keys⟩ := rfl
      rw [place, List.dropLast_concat]
      refine ⟨⟨_, here⟩, ?_⟩
      constructor
      · intro missing
        rw [resolve?_typename visits] at missing
        exact .inr ⟨path, choices, members, visits, missing, rfl⟩
      · rintro (required | misses)
        · exact (discriminatorMessage_ne_required _ required).elim
        · exact misses.resolve?

theorem Visits.keysIn {K : String → Prop} {s t : Shape} {value z : Option Json} {path : Path}
    (visits : Visits s value path t z) (all : s.Everywhere (KeysIn K)) :
    ∀ name, .key name ∈ path → K name := by
  induction visits with
  | here => exact fun name mem => (List.not_mem_nil mem).elim
  | nullable notNull inside ih => exact ih (everywhere_nullable.mp all).2
  | item given inside ih =>
      intro name mem
      rcases List.mem_cons.mp mem with here | later
      · cases here
      · exact ih (everywhere_list.mp all).2 name later
  | @field _ _ f _ _ _ listed inside ih =>
      obtain ⟨keys, fields⟩ := everywhere_object.mp all
      intro name mem
      rcases List.mem_cons.mp mem with here | later
      · cases here
        exact keys f listed
      · exact ih (fields f listed) name later
  | @choice _ _ _ _ f _ _ _ selected found listed inside ih =>
      obtain ⟨keys, fields⟩ := everywhere_variants.mp all
      have choice := Members.mem_of_get? found
      intro name mem
      rcases List.mem_cons.mp mem with here | later
      · cases here
        exact keys _ choice f listed
      · exact ih (fields _ choice f listed) name later

theorem named_of_mem_issues {s : Shape} (all : s.Everywhere (KeysIn IsName))
    (value : Option Json) : ∀ i ∈ (outcome (s.apply value)).2, ∀ step ∈ i.path, step.Named := by
  intro i mem step there
  obtain ⟨path, t, z, j, visits, reports, rfl⟩ := exists_visit_of_mem_issues s value i mem
  cases step with
  | index n => trivial
  | key name =>
      rcases List.mem_append.mp there with before | last
      · exact visits.keysIn all name before
      · cases reports with
        | required => cases last
        | unusable => cases last
        | unchosen =>
            cases List.mem_singleton.mp last
            exact isName_typenameKey

/-- The issues of a value that is rejected are unambiguous and point at real places. Those of data
of an operation have dotted paths of their own. -/
theorem issues_unambiguous {s : Shape} {x : Json} {issues : List Issue}
    (keyed : s.Everywhere DistinctKeys) (rejected : s.validate x = .error issues) :
    s.Unambiguous x issues ∧ ∀ (g : Subgraph) (operation : String), g.compile operation = .ok s →
      issues.Pairwise fun i j => i.path.dotted ≠ j.path.dotted := by
  obtain ⟨some, rfl⟩ := validate_eq_error_iff.mp rejected
  have apart := pairwise_apart_issues keyed (.some x)
  constructor
  · refine ⟨some, apart, fun i mem => ?_, fun i mem => ?_⟩
    all_goals
      obtain ⟨path, t, z, j, visits, reports, rfl⟩ := exists_visit_of_mem_issues s _ i mem
    · exact (visits.located reports).1
    · exact (visits.located reports).2
  · intro g operation compiled
    have named := named_of_mem_issues (Subgraph.compile_keysIn compiled) (.some x)
    refine apart.imp_of_mem fun here there apart same => ?_
    have path := Path.dotted_inj (named _ here) (named _ there) same
    exact apart.1 (path ▸ List.prefix_rfl)

def shelvesSchema : Document :=
  [.type ⟨false, none, "Query", [],
      .object [] [⟨none, "shelf", [], .list (.named "Shelf" true) true, []⟩]⟩,
    .type ⟨false, none, "Shelf", [], .object [] [⟨none, "size", [], .named "Int" true, []⟩]⟩]

def shelvesShape : Shape :=
  .object [("shelf", .list (.object [("size", .scalar .number)]))]

def brokenShelves : Json :=
  .object [("shelf", .array [.object [("size", .string "many")], .object [], .string "none"])]

def shelvesIssues : List Issue :=
  [⟨[.key "shelf", .index 0, .key "size"], "Expected number, received nan"⟩,
    ⟨[.key "shelf", .index 1, .key "size"], "Required"⟩,
    ⟨[.key "shelf", .index 2], "Expected object, received string"⟩]

theorem shelvesShape_keyed : shelvesShape.Everywhere DistinctKeys := by
  simp [shelvesShape, DistinctKeys, Members.keys, -Prod.forall]

theorem brokenShelves_rejected : shelvesShape.validate brokenShelves = .error shelvesIssues := by
  rfl

theorem shelvesIssues_unambiguous :
    shelvesShape.Everywhere DistinctKeys ∧
    shelvesShape.validate brokenShelves = .error shelvesIssues ∧
    (Subgraph.completed shelvesSchema).compile "{ shelf { size } }" = .ok shelvesShape ∧
    shelvesShape.Unambiguous brokenShelves shelvesIssues ∧
    shelvesIssues.Pairwise fun i j => i.path.dotted ≠ j.path.dotted := by
  have compiled : (Subgraph.completed shelvesSchema).compile "{ shelf { size } }" =
      .ok shelvesShape := by
    rw [Subgraph.compile, Subgraph.parse_sizeOfShelf]
    rfl
  obtain ⟨unambiguous, dotted⟩ := issues_unambiguous shelvesShape_keyed brokenShelves_rejected
  exact ⟨shelvesShape_keyed, brokenShelves_rejected, compiled, unambiguous, dotted _ _ compiled⟩

end Shape

end FederatedMock
