import FederatedMock.Proofs.Shape.Issues
import FederatedMock.Proofs.Shape.Trimming
import Mathlib.Data.List.Pairwise

namespace FederatedMock

open Report

def Json.put : Json → Path → Json → Json
  | _, [], y => y
  | .object members, .key k :: rest, y =>
    .object (Members.insert k (((Members.get? k members).getD .null).put rest y) members)
  | .array items, .index n :: rest, y => .array (items.modify n fun v => v.put rest y)
  | v, _ :: _, _ => v

abbrev Fixes := List (Path × Json)

namespace Fixes

def mend (fixes : Fixes) (value : Option Json) : Option Json :=
  fixes.foldl (fun v fix => some ((v.getD .null).put fix.1 fix.2)) value

def below (step : Step) (fixes : Fixes) : Fixes :=
  fixes.filterMap fun fix =>
    match fix.1 with
    | [] => none
    | s :: rest => if s = step then some (rest, fix.2) else none

theorem mend_some (fixes : Fixes) (v : Json) :
    fixes.mend (some v) = some (fixes.foldl (fun v fix => v.put fix.1 fix.2) v) := by
  induction fixes generalizing v with
  | nil => rfl
  | cons fix rest ih => exact ih _

theorem mem_below {step : Step} {fixes : Fixes} {path : Path} {y : Json} :
    (path, y) ∈ below step fixes ↔ (step :: path, y) ∈ fixes := by
  rw [below, List.mem_filterMap]
  constructor
  · rintro ⟨⟨path', y'⟩, mem, here⟩
    cases path' with
    | nil => cases here
    | cons s rest =>
        by_cases same : s = step
        · simp only [same, if_true, Option.some.injEq, Prod.mk.injEq] at here
          rwa [← here.1, ← here.2, ← same]
        · simp [same] at here
  · exact fun mem => ⟨_, mem, by simp⟩

theorem below_cons (step s : Step) (rest : Path) (y : Json) (fixes : Fixes) :
    below step ((s :: rest, y) :: fixes) =
      if s = step then (rest, y) :: below step fixes else below step fixes := by
  by_cases same : s = step <;> simp [below, same]

theorem mend_root {fixes : Fixes} (root : ∀ fix ∈ fixes, fix.1 = []) (some : fixes ≠ [])
    (value : Option Json) : ∃ fix ∈ fixes, fixes.mend value = .some fix.2 := by
  induction fixes generalizing value with
  | nil => exact absurd rfl some
  | cons fix rest ih =>
      obtain ⟨first, later⟩ := List.forall_mem_cons.mp root
      by_cases last : rest = []
      · subst last
        refine ⟨fix, List.mem_cons_self, ?_⟩
        simp [mend, first, Json.put]
      · obtain ⟨fix', mem, mended⟩ := ih later last (.some _)
        exact ⟨fix', List.mem_cons_of_mem _ mem, mended⟩

theorem mend_object {fixes : Fixes} (keys : ∀ fix ∈ fixes, ∃ k rest, fix.1 = .key k :: rest)
    (members : Members Json) :
    ∃ members' : Members Json, fixes.mend (some (.object members)) = some (.object members') ∧
      ∀ k, members'.get? k = (fixes.below (.key k)).mend (members.get? k) := by
  induction fixes generalizing members with
  | nil => exact ⟨members, rfl, fun k => rfl⟩
  | cons fix rest ih =>
      obtain ⟨⟨k, path, here⟩, later⟩ := List.forall_mem_cons.mp keys
      obtain ⟨place, y⟩ := fix
      cases here
      obtain ⟨members', mended, given⟩ := ih later
        (members.insert k (((members.get? k).getD .null).put path y))
      refine ⟨members', mended, fun k' => ?_⟩
      rw [given, Members.get?_insert, below_cons]
      by_cases same : k = k'
      · subst same
        rw [if_pos rfl, if_pos rfl]
        rfl
      · rw [if_neg same, if_neg fun step => same (Step.key.inj step)]

theorem mend_array {fixes : Fixes} (indices : ∀ fix ∈ fixes, ∃ n rest, fix.1 = .index n :: rest)
    (items : List Json) :
    ∃ items', fixes.mend (some (.array items)) = some (.array items') ∧
      ∀ n, items'[n]? = items[n]?.bind fun v => (fixes.below (.index n)).mend (some v) := by
  induction fixes generalizing items with
  | nil => exact ⟨items, rfl, fun n => (Option.bind_fun_some _).symm⟩
  | cons fix rest ih =>
      obtain ⟨⟨n, path, here⟩, later⟩ := List.forall_mem_cons.mp indices
      obtain ⟨place, y⟩ := fix
      cases here
      obtain ⟨items', mended, given⟩ := ih later (items.modify n fun v => v.put path y)
      refine ⟨items', mended, fun n' => ?_⟩
      rw [given, List.getElem?_modify, below_cons]
      by_cases same : n = n'
      · subst same
        cases items[n]? <;> simp [mend]
      · cases items[n']? <;> simp [same]

end Fixes

namespace Shape

/-- At the place of each issue, and nowhere else, something is put that a node there takes, and no
issue is that of a type name. -/
structure Repairs (s : Shape) (value : Option Json) (issues : List Issue) (fixes : Fixes) :
    Prop where
  covers : ∀ i ∈ issues, ∃ fix ∈ fixes, fix.1 = i.path
  places : ∀ fix ∈ fixes, ∃ i ∈ issues, i.path = fix.1
  fits : ∀ fix ∈ fixes, ∃ t z out, Visits s value fix.1 t z ∧ Coerces t (some fix.2) out
  plain : ∀ fix ∈ fixes, fix.1.getLast? ≠ some (.key typenameKey)

section Repairs

variable {s : Shape} {value : Option Json} {issues : List Issue} {fixes : Fixes}

theorem Visits.taken {t : Shape} {z : Option Json} {path : Path} {y : Json} {out : Option Json}
    (visits : Visits s value path t z) (here : path = []) (taken : Coerces t (some y) out) :
    ∃ out, Coerces s (some y) out := by
  induction visits with
  | here => exact ⟨out, taken⟩
  | nullable notNull inside ih =>
      by_cases null : y = .null
      · rw [null]
        exact ⟨_, .null⟩
      · obtain ⟨out, taken⟩ := ih here taken
        exact ⟨out, .present null taken⟩
  | item => cases here
  | field => cases here
  | choice => cases here

theorem Repairs.of_root (repairs : s.Repairs value issues fixes) (some : fixes ≠ [])
    (root : ∀ fix ∈ fixes, fix.1 = []) : ∃ out, Coerces s (fixes.mend value) out := by
  obtain ⟨fix, mem, mended⟩ := Fixes.mend_root root some value
  obtain ⟨t, z, out, visits, taken⟩ := repairs.fits fix mem
  rw [mended]
  exact visits.taken (root fix mem) taken

instance : Std.Symm Issue.Apart :=
  ⟨fun _ _ apart => apart.symm⟩

theorem Repairs.root_of_mem (repairs : s.Repairs value issues fixes)
    (apart : issues.Pairwise Issue.Apart) {fix : Path × Json} (mem : fix ∈ fixes)
    (root : fix.1 = []) : ∀ fix' ∈ fixes, fix'.1 = [] := by
  intro fix' mem'
  obtain ⟨i, here, place⟩ := repairs.places fix mem
  obtain ⟨i', here', place'⟩ := repairs.places fix' mem'
  by_cases same : i = i'
  · rw [← place', ← same, place, root]
  · have other := apart.forall here here' same
    refine (other.1 ?_).elim
    rw [place, root]
    exact List.nil_prefix

theorem Repairs.below {t : Shape} {value' : Option Json} {step : Step}
    (repairs : s.Repairs value issues fixes)
    (into : ∀ i : Issue, i.under [step] ∈ issues ↔ i ∈ (outcome (t.apply value')).2)
    (enters : ∀ path u z, Visits s value (step :: path) u z → Visits t value' path u z) :
    t.Repairs value' (outcome (t.apply value')).2 (fixes.below step) where
  covers i mem := by
    obtain ⟨⟨path, y⟩, here, place⟩ := repairs.covers _ ((into i).mpr mem)
    cases place
    exact ⟨(i.path, y), Fixes.mem_below.mpr here, rfl⟩
  places := by
    rintro ⟨path, y⟩ mem
    obtain ⟨⟨place, message⟩, here, same⟩ := repairs.places _ (Fixes.mem_below.mp mem)
    cases same
    exact ⟨⟨path, message⟩, (into _).mp here, rfl⟩
  fits := by
    rintro ⟨path, y⟩ mem
    obtain ⟨u, z, out, visits, taken⟩ := repairs.fits _ (Fixes.mem_below.mp mem)
    exact ⟨u, z, out, enters path u z visits, taken⟩
  plain := by
    rintro ⟨path, y⟩ mem last
    refine repairs.plain _ (Fixes.mem_below.mp mem) ?_
    simp [List.getLast?_cons, last]

end Repairs

section Inside

variable {t : Shape} {path : Path} {z : Option Json} {fields : List (String × Shape)}
  {members : Members Json} {f : String × Shape}

theorem Visits.of_nullable {inner : Shape} {value : Option Json}
    (visits : Visits (.nullable inner) value path t z) (below : path ≠ []) :
    Visits inner value path t z := by
  cases visits with
  | here => exact absurd rfl below
  | nullable notNull inside => exact inside

theorem Visits.of_object (distinct : (Members.keys fields).Nodup) (listed : f ∈ fields)
    (visits : Visits (.object fields) (some (.object members)) (.key f.1 :: path) t z) :
    Visits f.2 (members.get? f.1) path t z := by
  generalize place : Step.key f.1 :: path = whole at visits
  cases visits with
  | here => cases place
  | field listed' inside =>
      obtain ⟨key, rfl⟩ := List.cons.inj place
      rwa [List.inj_on_of_nodup_map distinct listed listed' (Step.key.inj key)]

theorem Visits.of_variants {choices : Variants} {name : String}
    (distinct : (Members.keys fields).Nodup) (selected : selectVariant choices members = some name)
    (found : choices.get? name = some fields) (listed : f ∈ fields)
    (visits : Visits (.variants choices) (some (.object members)) (.key f.1 :: path) t z) :
    Visits f.2 (members.get? f.1) path t z := by
  generalize place : Step.key f.1 :: path = whole at visits
  cases visits with
  | here => cases place
  | choice selected' found' listed' inside =>
      obtain ⟨key, rfl⟩ := List.cons.inj place
      cases selected.symm.trans selected'
      cases found.symm.trans found'
      rwa [List.inj_on_of_nodup_map distinct listed listed' (Step.key.inj key)]

end Inside

theorem Visits.root_of_flat {s t : Shape} {value z : Option Json} {path : Path}
    (visits : Visits s value path t z) (noItems : ∀ items, value ≠ some (.array items))
    (noMembers : ∀ members, value ≠ some (.object members)) : path = [] ∧ z = value := by
  induction visits with
  | here => exact ⟨rfl, rfl⟩
  | nullable notNull inside ih => exact ih noItems noMembers
  | item => exact (noItems _ rfl).elim
  | field => exact (noMembers _ rfl).elim
  | choice => exact (noMembers _ rfl).elim

theorem issues_of_flat {s : Shape} {value : Option Json}
    (noItems : ∀ items, value ≠ some (.array items))
    (noMembers : ∀ members, value ≠ some (.object members)) :
    ∀ i ∈ (outcome (s.apply value)).2, i.path = [] := by
  intro i mem
  obtain ⟨path, t, z, j, visits, reports, rfl⟩ := exists_visit_of_mem_issues s value i mem
  obtain ⟨rfl, rfl⟩ := visits.root_of_flat noItems noMembers
  cases reports with
  | required => rfl
  | unusable => rfl
  | unchosen => exact (noMembers _ rfl).elim

theorem selectVariant_eq_some {choices : Variants} {members : Members Json} {name : String}
    (selected : selectVariant choices members = some name) :
    members.get? typenameKey = none ∨ members.get? typenameKey = some (.string name) := by
  unfold selectVariant at selected
  split at selected
  · rename_i given
    split at selected
    · cases selected
      exact .inr given
    · cases selected
  · cases selected
  · rename_i missing
    exact .inl missing

theorem Repairs.below_typename {choices : Variants} {name : String}
    {fields : List (String × Shape)} {members : Members Json} {fixes : Fixes}
    (repairs : (Shape.variants choices).Repairs (some (.object members))
      (outcome (applyFields fields members)).2 fixes)
    (selected : selectVariant choices members = some name) :
    fixes.below (.key typenameKey) = [] := by
  refine List.eq_nil_iff_forall_not_mem.mpr ?_
  rintro ⟨path, y⟩ mem
  have put := Fixes.mem_below.mp mem
  obtain ⟨i, found, place⟩ := repairs.places _ put
  obtain ⟨f, listed, j, inside, rfl⟩ := mem_issues_fields.mp found
  obtain ⟨key, rest⟩ := List.cons.inj place
  -- The type name is a string or not there, so the entry for it has an issue only at its place.
  have flat : j.path = [] := by
    rw [Step.key.inj key] at inside
    rcases selectVariant_eq_some selected with given | given
    · exact issues_of_flat (by simp [given]) (by simp [given]) j inside
    · exact issues_of_flat (by simp [given]) (by simp [given]) j inside
  refine repairs.plain _ put ?_
  rw [← rest]
  simp [flat]

theorem Repairs.fields_taken {s : Shape} {fields : List (String × Shape)} {members : Members Json}
    {fixes : Fixes} {members' : Members Json} (distinct : (Members.keys fields).Nodup)
    (repairs : s.Repairs (some (.object members)) (outcome (applyFields fields members)).2 fixes)
    (enters : ∀ f ∈ fields, ∀ path u z,
      Visits s (some (.object members)) (.key f.1 :: path) u z →
        Visits f.2 (members.get? f.1) path u z)
    (each : ∀ f ∈ fields, ∀ fixes : Fixes,
      f.2.Repairs (members.get? f.1) (outcome (f.2.apply (members.get? f.1))).2 fixes →
        ∃ out, Coerces f.2 (fixes.mend (members.get? f.1)) out)
    (given : ∀ k, members'.get? k = (fixes.below (.key k)).mend (members.get? k)) :
    ∃ outs, FieldsCoerce fields members' outs := by
  refine (exists_fieldsCoerce_iff distinct).mpr fun key s found => ?_
  have listed := Members.mem_of_get? found
  rw [given]
  exact each _ listed _ (repairs.below (fun i => under_mem_issues_fields distinct listed)
    (enters _ listed))

theorem Repairs.keys {s : Shape} {value : Option Json} {fields : List (String × Shape)}
    {members : Members Json} {fixes : Fixes}
    (repairs : s.Repairs value (outcome (applyFields fields members)).2 fixes) :
    ∀ fix ∈ fixes, ∃ k rest, fix.1 = .key k :: rest := by
  intro fix mem
  obtain ⟨i, found, place⟩ := repairs.places fix mem
  obtain ⟨f, -, j, -, rfl⟩ := mem_issues_fields.mp found
  exact ⟨f.1, j.path, place.symm⟩

theorem Repairs.indices {s item : Shape} {value : Option Json} {items : List Json} {fixes : Fixes}
    (repairs : s.Repairs value (outcome (applyItems item.apply 0 items)).2 fixes) :
    ∀ fix ∈ fixes, ∃ n rest, fix.1 = .index n :: rest := by
  intro fix mem
  obtain ⟨i, found, place⟩ := repairs.places fix mem
  obtain ⟨n, v, -, j, -, rfl⟩ := mem_issues_items.mp found
  exact ⟨0 + n, j.path, place.symm⟩

theorem Repairs.own_taken {s : Shape} {value : Option Json} {i : Issue} {fixes : Fixes}
    (repairs : s.Repairs value [i] fixes) (reports : Reports s value i) :
    ∃ out, Coerces s (fixes.mend value) out := by
  obtain ⟨fix, mem, place⟩ := repairs.covers i (List.mem_singleton_self i)
  have root (here : i.path = []) : ∃ out, Coerces s (fixes.mend value) out :=
    repairs.of_root (List.ne_nil_of_mem mem) fun fix' mem' => by
      obtain ⟨i', found, place'⟩ := repairs.places fix' mem'
      rw [← place', List.mem_singleton.mp found, here]
  cases reports with
  | required => exact root rfl
  | unusable => exact root rfl
  | unchosen => exact (repairs.plain fix mem (by rw [place]; rfl)).elim

theorem Repairs.of_nullable {inner : Shape} {value : Option Json} {issues : List Issue}
    {fixes : Fixes} (repairs : (Shape.nullable inner).Repairs value issues fixes)
    (below : ∀ fix ∈ fixes, fix.1 ≠ []) : inner.Repairs value issues fixes where
  covers := repairs.covers
  places := repairs.places
  fits fix mem := by
    obtain ⟨t, z, out, visits, taken⟩ := repairs.fits fix mem
    exact ⟨t, z, out, visits.of_nullable (below fix mem), taken⟩
  plain := repairs.plain

theorem nullable_taken {inner : Shape} {fixes : Fixes} {v : Json}
    (taken : ∃ out, Coerces inner (fixes.mend (some v)) out) :
    ∃ out, Coerces (.nullable inner) (fixes.mend (some v)) out := by
  obtain ⟨out, taken⟩ := taken
  rw [Fixes.mend_some] at taken ⊢
  by_cases null : fixes.foldl (fun v fix => v.put fix.1 fix.2) v = .null
  · rw [null]
    exact ⟨_, .null⟩
  · exact ⟨out, .present null taken⟩

theorem Visits.of_list {item t : Shape} {items : List Json} {n : Nat} {v : Json} {path : Path}
    {z : Option Json} (there : items[n]? = some v)
    (visits : Visits (.list item) (some (.array items)) (.index n :: path) t z) :
    Visits item (some v) path t z := by
  cases visits with
  | item given inside =>
      cases there.symm.trans given
      exact inside

theorem Repairs.items_taken {item : Shape} {items items' : List Json} {fixes : Fixes}
    (repairs : (Shape.list item).Repairs (some (.array items))
      (outcome (applyItems item.apply 0 items)).2 fixes)
    (each : ∀ v ∈ items, ∀ fixes : Fixes,
      item.Repairs (some v) (outcome (item.apply (some v))).2 fixes →
        ∃ out, Coerces item (fixes.mend (some v)) out)
    (given : ∀ n, items'[n]? = items[n]?.bind fun v => (fixes.below (.index n)).mend (some v)) :
    ∃ outs, ItemsCoerce item items' outs := by
  refine exists_itemsCoerce_iff.mpr fun v' mem => ?_
  obtain ⟨n, here⟩ := List.mem_iff_getElem?.mp mem
  rw [given] at here
  obtain ⟨v, there, part⟩ := Option.bind_eq_some_iff.mp here
  rw [← part]
  exact each v (List.mem_of_getElem? there) _
    (repairs.below (fun i => under_mem_issues_items there) fun _ _ _ visits => visits.of_list there)

theorem Repairs.taken {s : Shape} {value : Option Json} {fixes : Fixes}
    (keyed : s.Everywhere DistinctKeys)
    (repairs : s.Repairs value (outcome (s.apply value)).2 fixes) :
    ∃ out, Coerces s (fixes.mend value) out := by
  refine Finds.induction (P := fun s value issues => (outcome (s.apply value)).2 = issues →
    s.Everywhere DistinctKeys → ∀ fixes, s.Repairs value issues fixes →
      ∃ out, Coerces s (fixes.mend value) out) ?nothing ?own ?nullable ?list ?object ?variant
    (finds s value) rfl keyed fixes repairs
  case nothing =>
    intro s value clean keyed fixes repairs
    have none : fixes = [] := List.eq_nil_iff_forall_not_mem.mpr fun fix mem => by
      obtain ⟨i, found, -⟩ := repairs.places fix mem
      exact List.not_mem_nil found
    rw [none]
    exact ⟨_, coerces_of_outcome s value _ (Prod.ext rfl clean)⟩
  case own =>
    intro s value i reports _ keyed fixes repairs
    exact repairs.own_taken reports
  case nullable =>
    intro inner v notNull ih same keyed fixes repairs
    have inside := (everywhere_nullable.mp keyed).2
    -- What is put at the place itself may be for this node or for the one within it.
    by_cases root : ∃ fix ∈ fixes, fix.1 = []
    · obtain ⟨fix, mem, here⟩ := root
      have apart := pairwise_apart_issues inside (some v)
      exact repairs.of_root (List.ne_nil_of_mem mem) (repairs.root_of_mem apart mem here)
    · have below := repairs.of_nullable fun fix mem here => root ⟨fix, mem, here⟩
      exact nullable_taken (ih rfl inside fixes below)
  case list =>
    intro item items ih same keyed fixes repairs
    have inside := (everywhere_list.mp keyed).2
    obtain ⟨items', mended, given⟩ := Fixes.mend_array repairs.indices items
    obtain ⟨outs, taken⟩ := repairs.items_taken (fun v mem => ih v mem rfl inside) given
    rw [mended]
    exact ⟨_, .list taken⟩
  case object =>
    intro fields members ih same keyed fixes repairs
    obtain ⟨distinct, inside⟩ := everywhere_object.mp keyed
    obtain ⟨members', mended, given⟩ := Fixes.mend_object repairs.keys members
    obtain ⟨outs, taken⟩ := repairs.fields_taken distinct
      (fun f listed path u z visits => visits.of_object distinct listed)
      (fun f listed fixes => ih f listed rfl (inside f listed) fixes) given
    rw [mended]
    exact ⟨_, .object taken⟩
  case variant =>
    intro choices name fields members selected found ih same keyed fixes repairs
    obtain ⟨distinct, inside⟩ := everywhere_variants.mp keyed
    have choice := Members.mem_of_get? found
    obtain ⟨members', mended, given⟩ := Fixes.mend_object repairs.keys members
    obtain ⟨outs, taken⟩ := repairs.fields_taken (distinct.2 _ choice)
      (fun f listed path u z visits =>
        visits.of_variants (distinct.2 _ choice) selected found listed)
      (fun f listed fixes => ih f listed rfl (inside _ choice f listed) fixes) given
    -- Nothing is put at the type name, so that the repaired object selects the same variant.
    have selected' : selectVariant choices members' = some name := by
      have typename : members'.get? typenameKey = members.get? typenameKey := by
        rw [given, repairs.below_typename selected]
        rfl
      rw [← selected, selectVariant, selectVariant, typename]
    rw [mended]
    exact ⟨_, .variant selected' found taken⟩

theorem exists_visit_at {s : Shape} {value : Option Json} {i : Issue}
    (found : i ∈ (outcome (s.apply value)).2)
    (plain : i.path.getLast? ≠ some (.key typenameKey)) : ∃ t z, Visits s value i.path t z := by
  obtain ⟨path, t, z, j, visits, reports, rfl⟩ := exists_visit_of_mem_issues s value i found
  refine ⟨t, z, ?_⟩
  cases reports with
  | required => rwa [Issue.under, List.append_nil]
  | unusable => rwa [Issue.under, List.append_nil]
  | unchosen => exact (plain (by simp [Issue.under])).elim

/-- One round of repair is enough: unless an issue is that of a type name, there is a node at the
place of each, and with something put there that it takes the value is valid. -/
theorem validate_repaired {s : Shape} {x : Json} {issues : List Issue}
    (keyed : s.Everywhere DistinctKeys) (rejected : s.validate x = .error issues)
    (plain : ∀ i ∈ issues, i.path.getLast? ≠ some (.key typenameKey)) :
    (∀ i ∈ issues, ∃ t z, Visits s (some x) i.path t z) ∧
    ∀ fix : Issue → Json,
      (∀ i ∈ issues, ∃ t z y, Visits s (some x) i.path t z ∧ t.validate (fix i) = .ok y) →
        ∃ y, s.validate (issues.foldl (fun v i => v.put i.path (fix i)) x) = .ok y := by
  obtain ⟨-, rfl⟩ := validate_eq_error_iff.mp rejected
  refine ⟨fun i found => exists_visit_at found (plain i found), fun fix fits => ?_⟩
  let fixes : Fixes := (outcome (s.apply (some x))).2.map fun i => (i.path, fix i)
  have repairs : s.Repairs (some x) (outcome (s.apply (some x))).2 fixes := by
    refine ⟨fun i mem => ⟨_, List.mem_map_of_mem mem, rfl⟩, ?_, ?_, ?_⟩
    all_goals
      intro put mem
      obtain ⟨i, found, rfl⟩ := List.mem_map.mp mem
    · exact ⟨i, found, rfl⟩
    · obtain ⟨t, z, y, visits, valid⟩ := fits i found
      exact ⟨t, z, _, visits, validate_eq_ok_iff.mp valid⟩
    · exact plain i found
  obtain ⟨out, taken⟩ := repairs.taken keyed
  rw [Fixes.mend_some, List.foldl_map] at taken
  obtain ⟨y, rfl⟩ := taken.some_of_some
  exact ⟨y, validate_eq_ok_iff.mpr taken⟩

def shelvesFix (i : Issue) : Json :=
  if i.path = [.key "shelf", .index 2] then .object [("size", .string "7")] else .ofNat 30

def mendedShelves : Json :=
  .object [("shelf", .array [.object [("size", .ofNat 30)], .object [("size", .ofNat 30)],
    .object [("size", .string "7")]])]

theorem brokenShelves_repaired :
    shelvesShape.Everywhere DistinctKeys ∧
    shelvesShape.validate brokenShelves = .error shelvesIssues ∧
    (∀ i ∈ shelvesIssues, i.path.getLast? ≠ some (.key typenameKey)) ∧
    shelvesIssues.foldl (fun v i => v.put i.path (shelvesFix i)) brokenShelves = mendedShelves ∧
    ∃ y, shelvesShape.validate mendedShelves = .ok y := by
  have mended : shelvesIssues.foldl (fun v i => v.put i.path (shelvesFix i)) brokenShelves =
      mendedShelves := by rfl
  have plain : ∀ i ∈ shelvesIssues, i.path.getLast? ≠ some (.key typenameKey) := by decide
  have fits : ∀ i ∈ shelvesIssues, ∃ t z y, Visits shelvesShape (some brokenShelves) i.path t z ∧
      t.validate (shelvesFix i) = .ok y := by
    simp only [shelvesIssues, List.forall_mem_cons]
    refine ⟨⟨.scalar .number, some (.string "many"), .ofNat 30, ?_, rfl⟩,
      ⟨.scalar .number, none, .ofNat 30, ?_, rfl⟩,
      ⟨.object [("size", .scalar .number)], some (.string "none"), .object [("size", .ofNat 7)],
        ?_, rfl⟩,
      List.forall_mem_nil _⟩
    · exact .field List.mem_cons_self (.item rfl (.field List.mem_cons_self .here))
    · exact .field List.mem_cons_self (.item rfl (.field List.mem_cons_self .here))
    · exact .field List.mem_cons_self (.item rfl .here)
  have repaired := validate_repaired shelvesShape_keyed brokenShelves_rejected plain
  have valid := repaired.2 shelvesFix fits
  rw [mended] at valid
  exact ⟨shelvesShape_keyed, brokenShelves_rejected, plain, mended, valid⟩

end Shape

end FederatedMock
