import FederatedMock.Proofs.Operation.Variants
import FederatedMock.Proofs.Ordered.Names

namespace FederatedMock

open Graphql

namespace Shape

mutual

def sortNames : Shape → Shape
  | .scalar rule => .scalar rule
  | .enumeration members => .enumeration (Names.sorted members)
  | .list item => .list item.sortNames
  | .nullable inner => .nullable inner.sortNames
  | .object fields => .object (sortFields fields)
  | .variants choices => .variants (sortVariants choices)

def sortFields : List (String × Shape) → List (String × Shape)
  | [] => []
  | (key, s) :: rest => (key, s.sortNames) :: sortFields rest

def sortVariants : List (String × List (String × Shape)) → List (String × List (String × Shape))
  | [] => []
  | (name, fields) :: rest => (name, sortFields fields) :: sortVariants rest

end

theorem sortFields_eq (fields : Fields) : sortFields fields = fields.mapValues sortNames := by
  induction fields with
  | nil => rfl
  | cons head rest ih => rw [sortFields, ih, Members.mapValues, Members.mapValues, List.map_cons]

theorem sortVariants_eq (choices : Variants) :
    sortVariants choices = choices.mapValues sortFields := by
  induction choices with
  | nil => rfl
  | cons head rest ih => rw [sortVariants, ih, Members.mapValues, Members.mapValues, List.map_cons]

theorem sortNames_enumeration {names more : List String} (same : names.Perm more) :
    (enumeration names).sortNames = (enumeration more).sortNames := by
  rw [sortNames, sortNames, Names.sorted_eq_of_perm same]

theorem sortNames_singleton (name : String) :
    (enumeration [name]).sortNames = enumeration [name] := by
  rw [sortNames, Names.sorted, List.mergeSort_singleton]

theorem sortNames_wrap (s : Shape) (type : TypeRef) :
    (TypeRef.wrap s type).sortNames = TypeRef.wrap s.sortNames type := by
  induction type with
  | named name nonNull => cases nonNull <;> simp [TypeRef.wrap, sortNames]
  | list item nonNull ih => cases nonNull <;> simp [TypeRef.wrap, sortNames, ih]

theorem sortFields_insertField (key : String) (s : Shape) (fields : Fields) :
    sortFields (insertField key s fields) = insertField key s.sortNames (sortFields fields) := by
  simp only [sortFields_eq, insertField, Members.mapValues_insert]

theorem sortFields_mergeFields (fields more : Fields) :
    sortFields (mergeFields fields more) = mergeFields (sortFields fields) (sortFields more) := by
  simp only [sortFields_eq, mergeFields, Members.mapValues_insertAll]

theorem sortFields_variantBase (name : String) (shared : Fields) :
    sortFields (variantBase name shared) = variantBase name (sortFields shared) := by
  have base (shared : Fields) : variantBase name shared =
      Members.insertAll [(typenameKey, .enumeration [name])]
        (shared.filter fun s => s.1 != typenameKey) := rfl
  have first : Members.mapValues sortNames [(typenameKey, enumeration [name])] =
      [(typenameKey, enumeration [name])] := by
    rw [Members.mapValues, List.map_singleton, sortNames_singleton]
  have kept := Members.mapValues_filter_key sortNames (fun key => key != typenameKey) shared
  rw [base, base, sortFields_eq, sortFields_eq, Members.mapValues_insertAll, first, kept]

theorem sortVariants_insertVariant (name : String) (fields : Fields) (choices : Variants) :
    sortVariants (insertVariant name fields choices) =
      insertVariant name (sortFields fields) (sortVariants choices) := by
  rw [insertVariant_eq, insertVariant_eq, sortVariants_eq, sortVariants_eq,
    Members.mapValues_insert, Members.get?_mapValues]
  cases choices.get? name with
  | none => rfl
  | some existing => simp only [Option.elim_some, Option.map_some, sortFields_mergeFields]

end Shape

end FederatedMock
