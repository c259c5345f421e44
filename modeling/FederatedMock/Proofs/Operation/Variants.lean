import FederatedMock.Proofs.Operation.Rules
import FederatedMock.Proofs.Ordered.Members

namespace FederatedMock

theorem Parent.mem_of_shared {p : Parent} {fields : Shape.Fields} {e : String × Shape}
    (mem : e ∈ p.shared fields) : e ∈ fields := by
  cases p with
  | interface t => exact mem
  | _ => exact (List.not_mem_nil mem).elim

namespace Shape

theorem mem_variantBase {name : String} {shared : Fields} {e : String × Shape}
    (mem : e ∈ variantBase name shared) :
    e = (typenameKey, .enumeration [name]) ∨ e ∈ shared ∧ e.1 ≠ typenameKey := by
  rcases Members.mem_insertAll mem with kept | first
  · exact .inr (by simpa using List.mem_filter.mp kept)
  · exact .inl (List.mem_singleton.mp first)

theorem mem_keys_variantBase {name : String} {shared : Fields} {key : String}
    (mem : key ∈ Members.keys shared) (other : key ≠ typenameKey) :
    key ∈ Members.keys (variantBase name shared) := by
  obtain ⟨e, kept, rfl⟩ := List.mem_map.mp mem
  refine Members.mem_keys_insertAll.mpr (.inl (List.mem_map_of_mem ?_))
  exact List.mem_filter.mpr ⟨kept, by simpa using other⟩

theorem nodup_keys_variantBase {name : String} {shared : Fields} :
    (Members.keys (variantBase name shared)).Nodup :=
  Members.nodup_keys_insertAll (List.pairwise_singleton _ _)

theorem insertVariant_eq (name : String) (fields : Fields) (choices : Variants) :
    insertVariant name fields choices =
      choices.insert name ((choices.get? name).elim fields (mergeFields · fields)) := by
  unfold insertVariant
  cases found : choices.get? name with
  | some existing => rfl
  | none => exact (Members.insert_of_get?_eq_none fields found).symm

theorem get?_insertVariant {name n : String} {fields : Fields} {choices : Variants} :
    (insertVariant name fields choices).get? n =
      if name = n then some ((choices.get? name).elim fields (mergeFields · fields))
      else choices.get? n := by
  rw [insertVariant_eq, Members.get?_insert]

def fragmentEntries (name : String) (shared own : Fields) : List (String × Shape) :=
  (typenameKey, .enumeration [name]) :: ((shared.filter fun s => s.1 != typenameKey) ++ own)

def variantEntries (name : String) (shared : Fields) (owns : List (String × Fields)) :
    List (String × Shape) :=
  (owns.filter fun o => o.1 = name).flatMap fun o => fragmentEntries name shared o.2

theorem variantEntries_cons (name : String) (shared : Fields) (o : String × Fields)
    (rest : List (String × Fields)) :
    variantEntries name shared (o :: rest) =
      (if o.1 = name then fragmentEntries name shared o.2 else []) ++
        variantEntries name shared rest := by
  by_cases same : o.1 = name <;> simp [variantEntries, same]

theorem get?_fragmentEntries (key name : String) (shared own : Fields) :
    Members.get? key (fragmentEntries name shared own).reverse =
      Members.get? key (mergeFields (variantBase name shared) own) := by
  have base : variantBase name shared = Members.insertAll [(typenameKey, .enumeration [name])]
      (shared.filter fun s => s.1 != typenameKey) := rfl
  rw [mergeFields, base, Members.get?_insertAll, Members.get?_insertAll, fragmentEntries,
    List.reverse_cons, List.reverse_append, Members.get?_append, Members.get?_append,
    Option.or_assoc]

theorem get?_addVariants {key name : String} {shared : Fields} {owns : List (String × Fields)}
    {out : Variants} {fields : Fields}
    (found : (addVariants shared owns out).get? name = some fields) :
    Members.get? key fields = (Members.get? key (variantEntries name shared owns).reverse).or
      ((out.get? name).bind (Members.get? key)) := by
  induction owns generalizing out with
  | nil =>
      have same : out.get? name = some fields := found
      simp [variantEntries, same]
  | cons o rest ih =>
      obtain ⟨condition, own⟩ := o
      have others := ih found
      rw [get?_insertVariant] at others
      by_cases same : condition = name
      · subst same
        have distinct : (Members.keys (mergeFields (variantBase condition shared) own)).Nodup :=
          Members.nodup_keys_insertAll nodup_keys_variantBase
        rw [others, if_pos rfl, variantEntries_cons, if_pos rfl, List.reverse_append,
          Members.get?_append, Option.or_assoc, get?_fragmentEntries]
        congr 1
        cases out.get? condition with
        | none => simp
        | some existing =>
            simp only [Option.elim_some, Option.bind_some]
            rw [mergeFields, Members.get?_insertAll, Members.get?_reverse distinct]
      · rw [others, if_neg same, variantEntries_cons, if_neg same, List.nil_append]

theorem get?_variant {key name : String} {shared : Fields} {owns : List (String × Fields)}
    {fields : Fields} (found : (addVariants shared owns []).get? name = some fields) :
    Members.get? key fields = Members.get? key (variantEntries name shared owns).reverse := by
  rw [get?_addVariants found]
  exact Option.or_none

structure VariantOf (shared : Fields) (owns : List (String × Fields)) (name : String)
    (fields : Fields) : Prop where
  named : ∃ own, (name, own) ∈ owns
  sound : ∀ e ∈ fields, e = (typenameKey, .enumeration [name]) ∨
    (e ∈ shared ∧ e.1 ≠ typenameKey) ∨ ∃ own, (name, own) ∈ owns ∧ e ∈ own
  shares : ∀ key ∈ Members.keys shared, key ≠ typenameKey → key ∈ Members.keys fields
  owns : ∀ own, (name, own) ∈ owns → ∀ key ∈ Members.keys own, key ∈ Members.keys fields

variable {shared own fields : Fields} {owns more : List (String × Fields)} {name n : String}

theorem variantOf_first :
    VariantOf shared [(name, own)] name (mergeFields (variantBase name shared) own) where
  named := ⟨own, List.mem_singleton_self _⟩
  sound := by
    intro e mem
    rcases Members.mem_insertAll mem with mine | base
    · exact .inr (.inr ⟨own, List.mem_singleton_self _, mine⟩)
    · rcases mem_variantBase base with first | kept
      · exact .inl first
      · exact .inr (.inl kept)
  shares := by
    intro key mem other
    exact Members.mem_keys_insertAll.mpr (.inr (mem_keys_variantBase mem other))
  owns := by
    intro own' mem key mine
    cases List.mem_singleton.mp mem
    exact Members.mem_keys_insertAll.mpr (.inl mine)

theorem VariantOf.congr (variant : VariantOf shared owns name fields)
    (same : ∀ own, (name, own) ∈ owns ↔ (name, own) ∈ more) :
    VariantOf shared more name fields where
  named := by simpa only [same] using variant.named
  sound := by simpa only [same] using variant.sound
  shares := variant.shares
  owns := by simpa only [same] using variant.owns

theorem VariantOf.merge {fields' : Fields} (first : VariantOf shared owns name fields)
    (second : VariantOf shared more name fields') :
    VariantOf shared (owns ++ more) name (mergeFields fields fields') where
  named := by
    obtain ⟨own, mem⟩ := first.named
    exact ⟨own, List.mem_append_left _ mem⟩
  sound := by
    intro e mem
    rcases Members.mem_insertAll mem with later | earlier
    · rcases second.sound e later with base | kept | ⟨own, known, mine⟩
      · exact .inl base
      · exact .inr (.inl kept)
      · exact .inr (.inr ⟨own, List.mem_append_right _ known, mine⟩)
    · rcases first.sound e earlier with base | kept | ⟨own, known, mine⟩
      · exact .inl base
      · exact .inr (.inl kept)
      · exact .inr (.inr ⟨own, List.mem_append_left _ known, mine⟩)
  shares := by
    intro key mem other
    exact Members.mem_keys_insertAll.mpr (.inl (second.shares key mem other))
  owns := by
    intro own mem key mine
    rcases List.mem_append.mp mem with known | fresh
    · exact Members.mem_keys_insertAll.mpr (.inr (first.owns own known key mine))
    · exact Members.mem_keys_insertAll.mpr (.inl (second.owns own fresh key mine))

theorem variantOf_addVariants {done : List (String × Fields)} {out : Variants}
    (known : ∀ o ∈ done, out.get? o.1 ≠ none)
    (each : ∀ n fs, out.get? n = some fs → VariantOf shared done n fs)
    (found : (addVariants shared owns out).get? name = some fields) :
    VariantOf shared (done ++ owns) name fields := by
  induction owns generalizing out done with
  | nil =>
      rw [List.append_nil]
      exact each name fields found
  | cons o rest ih =>
      obtain ⟨condition, own⟩ := o
      rw [List.append_cons]
      refine ih ?_ ?_ found
      · intro o mem
        rw [get?_insertVariant]
        split
        · simp
        · rename_i other
          rcases List.mem_append.mp mem with before | last
          · exact known o before
          · cases List.mem_singleton.mp last
            exact (other rfl).elim
      · intro n fs found'
        rw [get?_insertVariant] at found'
        split at found'
        · rename_i same
          subst same
          cases present : out.get? condition with
          | none =>
              simp only [present, Option.elim_none, Option.some.injEq] at found'
              subst found'
              refine variantOf_first.congr fun own' => ?_
              have fresh : (condition, own') ∉ done := fun mem => known _ mem present
              simp [fresh]
          | some existing =>
              simp only [present, Option.elim_some, Option.some.injEq] at found'
              subst found'
              exact (each condition existing present).merge variantOf_first
        · rename_i other
          refine (each n fs found').congr fun own' => ?_
          simp [Ne.symm other]

theorem get?_addVariants_ne_none {out : Variants}
    (known : out.get? name ≠ none ∨ ∃ own, (name, own) ∈ owns) :
    (addVariants shared owns out).get? name ≠ none := by
  induction owns generalizing out with
  | nil =>
      rcases known with known | ⟨own, mem⟩
      · exact known
      · exact (List.not_mem_nil mem).elim
  | cons o rest ih =>
      refine ih ?_
      rw [get?_insertVariant]
      by_cases same : o.1 = name
      · exact .inl (by simp [same])
      · rw [if_neg same]
        rcases known with known | ⟨own, mem⟩
        · exact .inl known
        · rcases List.mem_cons.mp mem with rfl | later
          · exact (same rfl).elim
          · exact .inr ⟨own, later⟩

theorem variantOf_of_get? (found : (addVariants shared owns []).get? name = some fields) :
    VariantOf shared owns name fields := by
  rw [← List.nil_append owns]
  refine variantOf_addVariants ?_ ?_ found
  · intro o mem
    exact (List.not_mem_nil mem).elim
  · intro n fs missing
    cases missing

end Shape

end FederatedMock
