import FederatedMock.Proofs.Operation.Limits
import FederatedMock.Proofs.Operation.Variants
import Mathlib.Algebra.Group.Nat.Defs

/-!
# The size of compiled shapes

The limit of a compilation is on the selections that it looks at, not on the size of its shape: the
fields that a selection on an interface shares among its variants stand in each of them. With such
fields kept once (`Compact`) a shape has at most one node for each selection, and one for the root
(`compileDocument_size`); as it is, its size can double with every five of them (`chain_compiles`).
-/

namespace FederatedMock

open Graphql

namespace Shape

mutual

/-- The number of nodes that are not layers around others. -/
def nodes : Shape → Nat
  | .scalar _ => 1
  | .enumeration _ => 1
  | .list item => item.nodes
  | .nullable inner => inner.nodes
  | .object fields => nodesOfFields fields + 1
  | .variants choices => nodesOfVariants choices + 1

def nodesOfFields : List (String × Shape) → Nat
  | [] => 0
  | (_, s) :: rest => s.nodes + nodesOfFields rest

def nodesOfVariants : List (String × List (String × Shape)) → Nat
  | [] => 0
  | (_, fields) :: rest => nodesOfFields fields + nodesOfVariants rest

end

@[simp]
theorem nodesOfFields_nil : nodesOfFields [] = 0 := rfl

theorem nodesOfFields_cons (f : String × Shape) (rest : Fields) :
    nodesOfFields (f :: rest) = f.2.nodes + nodesOfFields rest := rfl

@[simp]
theorem nodesOfVariants_nil : nodesOfVariants [] = 0 := rfl

theorem nodesOfVariants_cons (v : String × Fields) (rest : Variants) :
    nodesOfVariants (v :: rest) = nodesOfFields v.2 + nodesOfVariants rest := rfl

theorem nodesOfFields_insert (key : String) (s : Shape) (fields : Fields) :
    nodesOfFields (fields.insert key s) ≤ nodesOfFields fields + s.nodes := by
  induction fields with
  | nil => simp [nodesOfFields_cons]
  | cons f rest ih =>
      obtain ⟨k, shape⟩ := f
      rw [Members.insert_cons]
      split
      · simp only [nodesOfFields_cons]
        omega
      · simp only [nodesOfFields_cons]
        omega

theorem nodesOfFields_insertAll (fields more : Fields) :
    nodesOfFields (fields.insertAll more) ≤ nodesOfFields fields + nodesOfFields more := by
  induction more generalizing fields with
  | nil => simp [Members.insertAll]
  | cons f rest ih =>
      have first := nodesOfFields_insert f.1 f.2 fields
      have others := ih (fields.insert f.1 f.2)
      simp only [Members.insertAll, List.foldl_cons, nodesOfFields_cons] at others ⊢
      omega

theorem nodesOfFields_ofList (entries : List (String × Shape)) :
    nodesOfFields (Members.ofList entries) ≤ nodesOfFields entries := by
  have added := nodesOfFields_insertAll [] entries
  rw [Members.ofList]
  simpa only [nodesOfFields_nil, Nat.zero_add] using added

theorem nodesOfFields_filter (fields : Fields) (keep : String × Shape → Bool) :
    nodesOfFields (fields.filter keep) ≤ nodesOfFields fields := by
  induction fields with
  | nil => exact Nat.le_refl _
  | cons f rest ih =>
      rw [List.filter_cons]
      split
      · simp only [nodesOfFields_cons]
        omega
      · simp only [nodesOfFields_cons]
        omega

theorem nodesOfFields_variantBase (name : String) (shared : Fields) :
    nodesOfFields (variantBase name shared) ≤ nodesOfFields shared + 1 := by
  have kept := nodesOfFields_filter shared fun s => s.1 != typenameKey
  have added := nodesOfFields_insertAll (insertField typenameKey (.enumeration [name]) [])
    (shared.filter fun s => s.1 != typenameKey)
  have first : nodesOfFields (insertField typenameKey (.enumeration [name]) []) = 1 := rfl
  change nodesOfFields (Members.insertAll _ _) ≤ _
  omega

theorem nodesOfVariants_insert (name : String) (fields : Fields) (choices : Variants) :
    nodesOfVariants (choices.insert name fields) + nodesOfFields ((choices.get? name).getD []) =
      nodesOfVariants choices + nodesOfFields fields := by
  induction choices with
  | nil => simp [nodesOfVariants_cons]
  | cons v rest ih =>
      obtain ⟨k, own⟩ := v
      rw [Members.get?_cons, Members.insert_cons]
      split
      · simp only [nodesOfVariants_cons, Option.getD_some]
        omega
      · simp only [nodesOfVariants_cons]
        omega

theorem nodesOfVariants_insertVariant (name : String) (fields : Fields) (choices : Variants) :
    nodesOfVariants (insertVariant name fields choices) ≤
      nodesOfVariants choices + nodesOfFields fields := by
  rw [insertVariant_eq]
  cases found : choices.get? name with
  | none =>
      have placed := nodesOfVariants_insert name fields choices
      simp only [found, Option.getD_none, nodesOfFields_nil] at placed
      simp only [Option.elim_none]
      omega
  | some existing =>
      have placed := nodesOfVariants_insert name (mergeFields existing fields) choices
      have merged := nodesOfFields_insertAll existing fields
      simp only [found, Option.getD_some, mergeFields] at placed
      simp only [Option.elim_some, mergeFields]
      omega

theorem nodesOfVariants_addVariants (shared : Fields) (owns : List (String × Fields))
    (out : Variants) :
    nodesOfVariants (addVariants shared owns out) ≤ nodesOfVariants out +
      owns.length * (nodesOfFields shared + 1) + nodesOfVariants owns := by
  induction owns generalizing out with
  | nil => simp [addVariants]
  | cons f rest ih =>
      obtain ⟨name, own⟩ := f
      have base := nodesOfFields_variantBase name shared
      have merged := nodesOfFields_insertAll (variantBase name shared) own
      have added := nodesOfVariants_insertVariant name
        (mergeFields (variantBase name shared) own) out
      have others := ih
        (insertVariant name (mergeFields (variantBase name shared) own) out)
      simp only [addVariants, List.foldl_cons, List.length_cons, nodesOfVariants_cons, Nat.succ_mul,
        mergeFields] at added others ⊢
      omega

end Shape

/-- A shape in which the fields that variants share stand once, beside the fields of their own. -/
inductive Compact where
  | scalar (rule : ScalarRule)
  | enumeration (members : List String)
  | list (item : Compact)
  | nullable (inner : Compact)
  | object (fields : List (String × Compact))
  | variants (shared : List (String × Compact)) (owns : List (String × List (String × Compact)))

namespace Compact

mutual

def expand : Compact → Shape
  | .scalar rule => .scalar rule
  | .enumeration members => .enumeration members
  | .list item => .list item.expand
  | .nullable inner => .nullable inner.expand
  | .object fields => .object (Members.ofList (expandFields fields))
  | .variants shared owns =>
    .variants (Shape.addVariants (Members.ofList (expandFields shared)) (expandOwns owns) [])

def expandFields : List (String × Compact) → List (String × Shape)
  | [] => []
  | (key, t) :: rest => (key, t.expand) :: expandFields rest

def expandOwns : List (String × List (String × Compact)) → List (String × Shape.Fields)
  | [] => []
  | (name, fields) :: rest => (name, Members.ofList (expandFields fields)) :: expandOwns rest

end

mutual

def nodes : Compact → Nat
  | .scalar _ => 1
  | .enumeration _ => 1
  | .list item => item.nodes
  | .nullable inner => inner.nodes
  | .object fields => nodesOfFields fields + 1
  | .variants shared owns => nodesOfFields shared + nodesOfOwns owns + 1

def nodesOfFields : List (String × Compact) → Nat
  | [] => 0
  | (_, t) :: rest => t.nodes + nodesOfFields rest

def nodesOfOwns : List (String × List (String × Compact)) → Nat
  | [] => 0
  | (_, fields) :: rest => nodesOfFields fields + 1 + nodesOfOwns rest

end

mutual

def copies : Compact → Nat
  | .scalar _ => 0
  | .enumeration _ => 0
  | .list item => item.copies
  | .nullable inner => inner.copies
  | .object fields => copiesOfFields fields
  | .variants shared owns =>
    (owns.length - 1) * (nodesOfFields shared + copiesOfFields shared) + copiesOfFields shared +
      copiesOfOwns owns

def copiesOfFields : List (String × Compact) → Nat
  | [] => 0
  | (_, t) :: rest => t.copies + copiesOfFields rest

def copiesOfOwns : List (String × List (String × Compact)) → Nat
  | [] => 0
  | (_, fields) :: rest => copiesOfFields fields + copiesOfOwns rest

end

theorem length_expandOwns {owns : List (String × List (String × Compact))} :
    (expandOwns owns).length = owns.length := by
  induction owns with
  | nil => rfl
  | cons o rest ih => simp [expandOwns, ih]

mutual

theorem nodes_expand : (t : Compact) → t.expand.nodes ≤ t.nodes + t.copies
  | .scalar _ => Nat.le_refl _
  | .enumeration _ => Nat.le_refl _
  | .list item => nodes_expand item
  | .nullable inner => nodes_expand inner
  | .object fields => by
      have each := nodes_expandFields fields
      have merged := Shape.nodesOfFields_ofList (expandFields fields)
      simp only [expand, Shape.nodes, nodes, copies]
      omega
  | .variants shared owns => by
      have each := nodes_expandFields shared
      have others := nodes_expandOwns owns
      have merged := Shape.nodesOfFields_ofList (expandFields shared)
      have added := Shape.nodesOfVariants_addVariants (Members.ofList (expandFields shared))
        (expandOwns owns) []
      have copied : owns.length * Shape.nodesOfFields (Members.ofList (expandFields shared)) ≤
          owns.length * (nodesOfFields shared + copiesOfFields shared) :=
        Nat.mul_le_mul_left _ (Nat.le_trans merged each)
      -- One of the copies is counted among the nodes, the others are counted as copies.
      have first : owns.length * (nodesOfFields shared + copiesOfFields shared) ≤
          (owns.length - 1) * (nodesOfFields shared + copiesOfFields shared) +
            (nodesOfFields shared + copiesOfFields shared) := by
        rw [← Nat.succ_mul]
        exact Nat.mul_le_mul_right _ (by omega)
      simp only [length_expandOwns, Nat.mul_add, Nat.mul_one, Shape.nodesOfVariants] at added
      simp only [expand, Shape.nodes, nodes, copies]
      omega

theorem nodes_expandFields : (fields : List (String × Compact)) →
    Shape.nodesOfFields (expandFields fields) ≤ nodesOfFields fields + copiesOfFields fields
  | [] => Nat.le_refl _
  | (_, t) :: rest => by
      have first := nodes_expand t
      have others := nodes_expandFields rest
      simp only [expandFields, Shape.nodesOfFields, nodesOfFields, copiesOfFields]
      omega

theorem nodes_expandOwns : (owns : List (String × List (String × Compact))) →
    Shape.nodesOfVariants (expandOwns owns) + owns.length ≤ nodesOfOwns owns + copiesOfOwns owns
  | [] => Nat.le_refl _
  | (_, fields) :: rest => by
      have each := nodes_expandFields fields
      have merged := Shape.nodesOfFields_ofList (expandFields fields)
      have others := nodes_expandOwns rest
      simp only [expandOwns, Shape.nodesOfVariants, nodesOfOwns, copiesOfOwns, List.length_cons]
      omega

end

end Compact

theorem Level.Expands.length_le {fragments : Members Fragment} {applies : String → Bool}
    {l l' : Level} {selections : List Selection} {visits depth : Nat}
    (derived : Level.Expands fragments applies selections l l' visits depth) :
    l'.fields.length + l'.fragments.length ≤
      l.fields.length + l.fragments.length + visits := by
  induction derived with
  | nil => exact Nat.le_refl _
  | field others ih =>
      simp only [Level.addField, List.length_cons] at ih
      omega
  | again found expanded others ih => omega
  | into found fresh applied inside others ihInside ihOthers =>
      simp only [Level.mark_fields, Level.mark_fragments] at ihOthers
      omega
  | aside found fresh other others ih =>
      simp only [Level.mark_fields, Level.mark_fragments, Level.addFragment, List.length_cons] at ih
      omega

namespace Compact

def wrap (base : Compact) : TypeRef → Compact
  | .named _ nonNull => if nonNull then base else .nullable base
  | .list item nonNull =>
    if nonNull then .list (base.wrap item) else .nullable (.list (base.wrap item))

theorem expand_wrap {base : Compact} {type : TypeRef} :
    (base.wrap type).expand = TypeRef.wrap base.expand type := by
  induction type with
  | named name nonNull => cases nonNull <;> rfl
  | list item nonNull ih => cases nonNull <;> simp [wrap, expand, TypeRef.wrap, ih]

theorem nodes_wrap {base : Compact} {type : TypeRef} : (base.wrap type).nodes = base.nodes := by
  induction type with
  | named name nonNull => cases nonNull <;> rfl
  | list item nonNull ih => cases nonNull <;> simpa [wrap, nodes] using ih

end Compact

namespace Scope

variable {c : Scope}

theorem Expands.length_le {p : Parent} {selections : List Selection} {l : Level}
    {visits depth : Nat} (level : c.Expands p selections l visits depth) :
    l.fields.length + l.fragments.length ≤ visits := by
  have counted := Level.Expands.length_le level
  simpa only [Level.empty, List.length_nil, Nat.zero_add] using counted

theorem typename_compact (t : Tables) (p : Parent) :
    ∃ k : Compact, k.expand = p.typename t ∧ k.nodes = 1 := by
  cases p with
  | object o => exact ⟨.scalar _, rfl, rfl⟩
  | interface i => exact ⟨.enumeration _, rfl, rfl⟩
  | union u => exact ⟨.enumeration _, rfl, rfl⟩

mutual

theorem Derives.compact {p : Parent} {selections : List Selection} {v : Shape}
    {visits depth : Nat} : c.Derives p selections v visits depth →
      ∃ t : Compact, t.expand = v ∧ t.nodes ≤ visits + 1
  | .object level plain fields => by
      obtain ⟨entries, rfl, bound⟩ := fields.compact
      have counted := level.length_le
      rw [List.length_reverse] at bound
      exact ⟨.object entries, rfl, by simp only [Compact.nodes]; omega⟩
  | .variants level abstract narrowed fields fragments => by
      obtain ⟨entries, rfl, bound⟩ := fields.compact
      obtain ⟨owns, rfl, bound'⟩ := fragments.compact
      have counted := level.length_le
      rw [List.length_reverse] at bound bound'
      cases p with
      | object t => exact abstract.elim
      | interface t =>
          exact ⟨.variants entries owns, rfl, by simp only [Compact.nodes]; omega⟩
      | union u =>
          refine ⟨.variants [] owns, rfl, ?_⟩
          simp only [Compact.nodes, Compact.nodesOfFields]
          omega

theorem DerivesFields.compact {p : Parent} {fields : List FieldSelection}
    {entries : List (String × Shape)} {visits depth : Nat} :
    c.DerivesFields p fields entries visits depth →
      ∃ ts, Compact.expandFields ts = entries ∧ Compact.nodesOfFields ts ≤ fields.length + visits
  | .nil => ⟨[], rfl, Nat.le_refl _⟩
  | .typename (f := f) name others => by
      obtain ⟨ts, rfl, bound⟩ := others.compact
      obtain ⟨k, same, one⟩ := typename_compact c.tables p
      refine ⟨(f.key, k) :: ts, by simp only [Compact.expandFields, same], ?_⟩
      simp only [Compact.nodesOfFields, List.length_cons]
      omega
  | @DerivesFields.field _ _ f _ type _ _ _ _ _ _ name declared base others => by
      obtain ⟨t, rfl, bound⟩ := base.compact
      obtain ⟨ts, rfl, bound'⟩ := others.compact
      refine ⟨(f.key, t.wrap type) :: ts, ?_, ?_⟩
      · simp only [Compact.expandFields, Compact.expand_wrap]
      · simp only [Compact.nodesOfFields, Compact.nodes_wrap, List.length_cons]
        omega

theorem DerivesNamed.compact {name : String} {f : FieldSelection} {v : Shape}
    {visits depth : Nat} : c.DerivesNamed name f v visits depth →
      ∃ t : Compact, t.expand = v ∧ t.nodes ≤ visits + 1
  | .scalar found => ⟨.scalar _, rfl, Nat.le_refl _⟩
  | .enumeration custom found => ⟨.enumeration _, rfl, Nat.le_refl _⟩
  | .composite found selected inside => inside.compact

theorem DerivesFragments.compact {fragments : List ConditionalFragment}
    {owns : List (String × Shape.Fields)} {visits depth : Nat} :
    c.DerivesFragments fragments owns visits depth →
      ∃ ts, Compact.expandOwns ts = owns ∧ Compact.nodesOfOwns ts ≤ fragments.length + visits
  | .nil => ⟨[], rfl, Nat.le_refl _⟩
  | .cons (f := f) found (.object level plain fields) others => by
      obtain ⟨entries, rfl, bound⟩ := fields.compact
      obtain ⟨ts, rfl, bound'⟩ := others.compact
      have counted := level.length_le
      rw [List.length_reverse] at bound
      refine ⟨(f.condition, entries) :: ts, rfl, ?_⟩
      simp only [Compact.nodesOfOwns, List.length_cons]
      omega

end

end Scope

namespace Subgraph

def chainSchema : Document :=
  let id : FieldDefinition := ⟨none, "id", [], .named "ID" true, []⟩
  let next : FieldDefinition := ⟨none, "next", [], .named "Node" true, []⟩
  [.type ⟨false, none, "Query", [], .object [] [⟨none, "first", [], .named "Node" true, []⟩]⟩,
    .type ⟨false, none, "Node", [], .interface [] [id, next]⟩,
    .type ⟨false, none, "A", [], .object ["Node"] [id, next]⟩,
    .type ⟨false, none, "B", [], .object ["Node"] [id, next]⟩]

def chain : Subgraph :=
  completed chainSchema

def chainQuery : Parent :=
  .object ⟨"Query", [], [("first", .named "Node" true), ("_service", .named "_Service" true)]⟩

def chainNode : Parent :=
  .interface ⟨"Node", [], [("id", .named "ID" true), ("next", .named "Node" true)]⟩

-- The field `next` that many times within itself, each time beside `... on A { id }` and
-- `... on B { id }`.
def nexts : Nat → List Selection
  | 0 => [.field none "id" [] [] []]
  | n + 1 => [.field none "next" [] [] (nexts n),
      .inline (some "A") [] [.field none "id" [] [] []],
      .inline (some "B") [] [.field none "id" [] [] []]]

theorem nexts_ne_nil (n : Nat) : nexts n ≠ [] := by
  cases n <;> exact List.cons_ne_nil _ _

def nextsShape : Nat → Shape
  | 0 => .object [("id", .scalar (.string .any))]
  | n + 1 =>
    let fields (name : String) := [(typenameKey, .enumeration [name]), ("next", nextsShape n),
      ("id", .scalar (.string .any))]
    .variants [("A", fields "A"), ("B", fields "B")]

theorem nodes_nextsShape (n : Nat) : (nextsShape n).nodes + 5 = 7 * 2 ^ n := by
  induction n with
  | zero => rfl
  | succ n ih =>
      simp only [nextsShape, Shape.nodes, Shape.nodesOfVariants, Shape.nodesOfFields, Nat.pow_succ]
      omega

def chainDocument (n : Nat) : Document :=
  [.operation ⟨.query, none, [], [], [.field none "first" [] [] (nexts n)]⟩]

theorem derives_id {c : Scope} {p : Parent} {rule : ScalarRule}
    (declared : p.field? "id" = some (.named "ID" true))
    (found : c.tables.scalars.get? "ID" = some rule) :
    c.Derives p [.field none "id" [] [] []] (.object [("id", .scalar rule)]) 1 0 :=
  .object (.field .nil) (fun _ => rfl) (.field (by decide) declared (.scalar found) .nil)

theorem nexts_derives (n : Nat) : ∃ depth ≤ n,
    (Scope.mk chain.tables []).Derives chainNode (nexts n) (nextsShape n) (5 * n + 1) depth := by
  induction n with
  | zero => exact ⟨0, Nat.le_refl _, derives_id rfl rfl⟩
  | succ n ih =>
      obtain ⟨depth, deep, inner⟩ := ih
      have level : (Scope.mk chain.tables []).Expands chainNode (nexts (n + 1)) _ 3 0 :=
        .field (.aside rfl id rfl (.aside rfl id rfl .nil))
      have derived := Scope.Derives.variants level trivial (List.cons_ne_nil _ _)
        (.field (by simp [typenameKey]) rfl (.composite rfl (nexts_ne_nil n) inner) .nil)
        (.cons rfl (derives_id rfl rfl) (.cons rfl (derives_id rfl rfl) .nil))
      have total : 5 * (n + 1) + 1 = 3 + (5 * n + 1 + 0) + (1 + (1 + 0)) := by omega
      rw [total]
      exact ⟨max 0 (max (max (depth + 1) 0) (max (0 + 1) (max (0 + 1) 0))), by omega, derived⟩

theorem chain_compiles (n : Nat) (deep : n < recursionLimit) :
    chain.compileDocument (chainDocument n) =
      .ok (.object [("first", nextsShape n)], 5 * n + 2) := by
  obtain ⟨depth, below, inner⟩ := nexts_derives n
  have recursion : recursionLimit = 512 := rfl
  have selection : selectionLimit = 100000 := rfl
  rw [compileDocument_eq_ok]
  refine ⟨max 0 (max (depth + 1) 0), ⟨_, _, rfl, ?_⟩, by omega, by omega⟩
  have level : (Scope.mk chain.tables []).Expands chainQuery
      [.field none "first" [] [] (nexts n)] _ 1 0 := .field .nil
  have derived := Scope.Derives.object level (fun _ => rfl)
    (.field (by simp [typenameKey]) rfl (.composite rfl (nexts_ne_nil n) inner) .nil)
  have total : 5 * n + 2 = 1 + (5 * n + 1 + 0) := by omega
  rw [total]
  exact derived

/-- A document that compiles to a shape has had as many selections looked at as the limit allows, at
most. With shared fields kept once the shape has one node for each of them and one for the root, at
most; as it stands it has more nodes only in the copies of shared fields. -/
theorem compileDocument_size {s : Subgraph} {d : Document} {v : Shape} {visits : Nat}
    (run : s.compileDocument d = .ok (v, visits)) :
    visits ≤ selectionLimit ∧ ∃ t : Compact, t.expand = v ∧ t.nodes ≤ visits + 1 ∧
      v.nodes ≤ t.nodes + t.copies := by
  obtain ⟨depth, ⟨p, selections, start, derived⟩, limit, deep⟩ := compileDocument_eq_ok.mp run
  obtain ⟨t, rfl, bound⟩ := derived.compact
  exact ⟨limit, t, rfl, bound, t.nodes_expand⟩

theorem chain_size : 72 ≤ selectionLimit ∧
    ∃ t : Compact, t.expand = .object [("first", nextsShape 14)] ∧ t.nodes ≤ 72 + 1 ∧
      (Shape.object [("first", nextsShape 14)]).nodes ≤ t.nodes + t.copies :=
  compileDocument_size (chain_compiles 14 (by decide))

theorem chain_outgrows_limit :
    ofDocument chainSchema = .ok chain ∧ ∃ v,
      chain.compileDocument (chainDocument 14) = .ok (v, 72) ∧ selectionLimit + 1 < v.nodes := by
  refine ⟨rfl, _, chain_compiles 14 (by decide), ?_⟩
  have nodes := nodes_nextsShape 14
  have selection : selectionLimit = 100000 := rfl
  simp only [Shape.nodes, Shape.nodesOfFields]
  omega

end Subgraph

end FederatedMock
