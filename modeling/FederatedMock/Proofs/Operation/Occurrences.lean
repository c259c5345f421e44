import FederatedMock.Proofs.Operation.Origin
import FederatedMock.Proofs.Response.Soundness

namespace FederatedMock

open Graphql Shape

namespace Scope

variable {c : Scope} {p : Parent} {selections : List Selection}

def Compiles (c : Scope) (p : Parent) (selections : List Selection) (v : Shape) : Prop :=
  ∃ levels visits, c.selectionShape levels p selections 0 = .ok (v, visits)

def Collects (c : Scope) (p : Parent) (selections : List Selection) (fields : List FieldSelection)
    (fragments : List ConditionalFragment) : Prop :=
  ∃ levels visits,
    c.level (p.applies c.tables) levels selections 0 = .ok ((fields, fragments), visits)

def FieldCompiles (c : Scope) (p : Parent) (f : FieldSelection) (s : Shape) : Prop :=
  ∃ levels visits, c.selectedShape (c.selectionShape levels) p f 0 = .ok (s, visits)

theorem compiles_iff {v : Shape} :
    c.Compiles p selections v ↔
      ∃ visits depth, c.Derives p selections v visits depth ∧ visits ≤ selectionLimit := by
  constructor
  · rintro ⟨levels, k, run⟩
    have within := (c.selectionShape_agrees levels (Nat.zero_le _)).mp run
    obtain ⟨visits, depth, derived, -, count, limit⟩ := within
    exact ⟨visits, depth, derived, by omega⟩
  · rintro ⟨visits, depth, derived, limit⟩
    have within : Compiling.Within (depth + 1) 0 visits (c.Derives p selections v) :=
      ⟨visits, depth, derived, by omega, by omega, limit⟩
    exact ⟨depth + 1, visits, (c.selectionShape_agrees _ (Nat.zero_le _)).mpr within⟩

theorem collects_iff {fields : List FieldSelection} {fragments : List ConditionalFragment} :
    c.Collects p selections fields fragments ↔
      ∃ l visits depth, c.Expands p selections l visits depth ∧ visits ≤ selectionLimit ∧
        l.fields.reverse = fields ∧ l.fragments.reverse = fragments := by
  unfold Collects level
  simp only [Compiling.bind_eq_ok, Compiling.pure_eq_ok, Prod.mk.injEq]
  constructor
  · rintro ⟨levels, k, l, j, run, ⟨rfl, rfl⟩, rfl⟩
    have within := (Level.expand_eq_ok (Nat.zero_le _)).mp run
    obtain ⟨visits, depth, derived, -, count, limit⟩ := within
    exact ⟨l, visits, depth, derived, by omega, rfl, rfl⟩
  · rintro ⟨l, visits, depth, derived, limit, rfl, rfl⟩
    have run := derived.expand (Nat.lt_succ_self depth) (Nat.zero_add visits).symm limit
    exact ⟨depth + 1, visits, l, visits, run, ⟨rfl, rfl⟩, rfl⟩

theorem fieldCompiles_typename {f : FieldSelection} (name : f.name = typenameKey) :
    c.FieldCompiles p f (p.typename c.tables) := by
  refine ⟨0, 0, ?_⟩
  rw [selectedShape_typename name, Compiling.pure_eq_ok]
  exact ⟨rfl, rfl⟩

theorem fieldCompiles_declared {f : FieldSelection} {s : Shape} (name : f.name ≠ typenameKey) :
    c.FieldCompiles p f s ↔ ∃ type base visits depth, p.field? f.name = some type ∧
      c.DerivesNamed type.base f base visits depth ∧ visits ≤ selectionLimit ∧
      TypeRef.wrap base type = s := by
  unfold FieldCompiles
  simp only [selectedShape_eq_ok name]
  constructor
  · rintro ⟨levels, k, type, base, declared, run, rfl⟩
    have within := namedShape_ok (c.selectionShape_agrees levels) (Nat.zero_le _) run
    obtain ⟨visits, depth, derived, -, count, limit⟩ := within
    exact ⟨type, base, visits, depth, declared, derived, by omega, rfl⟩
  · rintro ⟨type, base, visits, depth, declared, derived, limit, rfl⟩
    have run := namedShape_of (c.selectionShape_agrees depth) (Nat.zero_le _)
      ⟨visits, depth, derived, by omega, (Nat.zero_add visits).symm, limit⟩
    exact ⟨depth, visits, type, base, declared, run, rfl⟩

theorem FieldCompiles.composite {f : FieldSelection} {s : Shape} {type : TypeRef} {r : Parent}
    (compiled : c.FieldCompiles p f s) (declared : Declares p f type)
    (composite : c.tables.composite? type.base = some r) :
    ∃ inner, c.Compiles r f.selections inner ∧ s = TypeRef.wrap inner type := by
  obtain ⟨name, field⟩ := declared
  obtain ⟨type', base, visits, depth, field', derived, limit, rfl⟩ :=
    (fieldCompiles_declared name).mp compiled
  cases field.symm.trans field'
  cases derived with
  | scalar found => simp [Tables.composite?, found] at composite
  | enumeration custom found => simp [Tables.composite?, custom, found] at composite
  | composite found selected inside =>
      cases found.symm.trans composite
      exact ⟨base, compiles_iff.mpr ⟨_, _, inside, limit⟩, rfl⟩

theorem Collects.mem_fields {fields : List FieldSelection} {fragments : List ConditionalFragment}
    (level : c.Collects p selections fields fragments) {f : FieldSelection} :
    f ∈ fields ↔ c.HasField p selections f := by
  obtain ⟨l, visits, depth, expands, -, rfl, rfl⟩ := collects_iff.mp level
  exact expands.mem_fields

theorem Collects.mem_fragments {fields : List FieldSelection}
    {fragments : List ConditionalFragment} (level : c.Collects p selections fields fragments)
    {g : ConditionalFragment} : g ∈ fragments ↔ c.HasFragment p selections g := by
  obtain ⟨l, visits, depth, expands, -, rfl, rfl⟩ := collects_iff.mp level
  exact expands.mem_fragments

theorem Collects.unique {fields fields' : List FieldSelection}
    {fragments fragments' : List ConditionalFragment}
    (first : c.Collects p selections fields fragments)
    (second : c.Collects p selections fields' fragments') :
    fields = fields' ∧ fragments = fragments' := by
  obtain ⟨l, visits, depth, expands, -, rfl, rfl⟩ := collects_iff.mp first
  obtain ⟨l', visits', depth', expands', -, rfl, rfl⟩ := collects_iff.mp second
  obtain ⟨rfl, -, -⟩ := expands.unique expands'
  exact ⟨rfl, rfl⟩

end Scope

theorem rel_or {α β : Type} {r : α → β → Prop} {x x' : Option α} {y y' : Option β}
    (first : Option.Rel r x y) (second : Option.Rel r x' y') :
    Option.Rel r (x.or x') (y.or y') := by
  cases first with
  | some given => exact .some given
  | none => exact second

/-- What an object or a variant has an entry for: a field selected on a parent, or the type name
that every fragment gives its variant. -/
inductive Occurrence where
  | field (p : Parent) (f : FieldSelection)
  | discriminator (condition : String)

namespace Occurrence

def key : Occurrence → String
  | .field _ f => f.key
  | .discriminator _ => typenameKey

def last? (key : String) (occs : List Occurrence) : Option Occurrence :=
  occs.reverse.find? fun o => o.key = key

theorem last?_cons (key : String) (o : Occurrence) (occs : List Occurrence) :
    last? key (o :: occs) = (last? key occs).or (if o.key = key then some o else none) := by
  simp only [last?, List.reverse_cons, List.find?_append, List.find?_singleton, decide_eq_true_eq]

theorem last?_append (key : String) (occs more : List Occurrence) :
    last? key (occs ++ more) = (last? key more).or (last? key occs) := by
  simp only [last?, List.reverse_append, List.find?_append]

theorem last?_filter (key : String) (keep : String → Bool) (occs : List Occurrence) :
    last? key (occs.filter fun o => keep o.key) = if keep key then last? key occs else none := by
  induction occs with
  | nil => simp [last?]
  | cons o rest ih =>
      by_cases same : o.key = key
      · cases kept : keep key with
        | true => simp [last?_cons, same, kept, ih]
        | false => simp [same, kept, ih]
      · cases kept : keep o.key with
        | true => simp [last?_cons, same, kept, ih]
        | false => simp [last?_cons, same, kept, ih]

theorem last?_eq_none_iff {key : String} {occs : List Occurrence} :
    last? key occs = none ↔ ∀ o ∈ occs, o.key ≠ key := by
  simp [last?]

theorem last?_of_split {key : String} {o : Occurrence} {before after : List Occurrence}
    (same : o.key = key) (fresh : ∀ later ∈ after, later.key ≠ key) :
    last? key (before ++ o :: after) = some o := by
  rw [last?_append, last?_cons, last?_eq_none_iff.mpr fresh, if_pos same]
  rfl

end Occurrence

def Parent.sharedOccurrences (p : Parent) (fields : List FieldSelection) : List Occurrence :=
  match p with
  | .interface _ => (fields.map (.field p)).filter fun o => o.key != typenameKey
  | _ => []

namespace Scope

variable {c : Scope} {p : Parent} {selections : List Selection}

inductive FragmentsOccur (c : Scope) (shared : List Occurrence) :
    List ConditionalFragment → List Occurrence → Prop
  | nil : FragmentsOccur c shared [] []
  | cons {f : ConditionalFragment} {rest : List ConditionalFragment} {t : CompositeType}
      {own : List FieldSelection} {aside : List ConditionalFragment} {occs : List Occurrence}
      (type : c.tables.fragmentType? f.condition = some t)
      (level : c.Collects (.object t) f.selections own aside)
      (others : FragmentsOccur c shared rest occs) :
      FragmentsOccur c shared (f :: rest)
        (.discriminator f.condition :: (shared ++ own.map (.field (.object t))) ++ occs)

/-- What the object of a selection set has entries for, or its variant of some name, in the order
in which they are entered. -/
inductive Occurs (c : Scope) (p : Parent) (selections : List Selection) :
    Option String → List Occurrence → Prop
  | plain {fields : List FieldSelection} {fragments : List ConditionalFragment}
      (level : c.Collects p selections fields fragments) (whole : p.IsAbstract → fragments = []) :
      Occurs c p selections none (fields.map (.field p))
  | variant {fields : List FieldSelection} {fragments : List ConditionalFragment} {name : String}
      {occs : List Occurrence} (level : c.Collects p selections fields fragments)
      (abstract : p.IsAbstract) (named : ∃ g ∈ fragments, g.condition = name)
      (own : c.FragmentsOccur (p.sharedOccurrences fields)
        (fragments.filter fun g => g.condition = name) occs) :
      Occurs c p selections (some name) occs

theorem FragmentsOccur.unique {shared : List Occurrence} {fragments : List ConditionalFragment}
    {occs occs' : List Occurrence} (first : c.FragmentsOccur shared fragments occs)
    (second : c.FragmentsOccur shared fragments occs') : occs = occs' := by
  induction first generalizing occs' with
  | nil =>
      cases second
      rfl
  | cons type level others ih =>
      cases second with
      | cons type' level' others' =>
          cases type.symm.trans type'
          obtain ⟨rfl, -⟩ := level.unique level'
          rw [ih others']

theorem Occurs.unique {name : Option String} {occs occs' : List Occurrence}
    (first : c.Occurs p selections name occs) (second : c.Occurs p selections name occs') :
    occs = occs' := by
  cases first with
  | plain level whole =>
      cases second with
      | plain level' whole' =>
          obtain ⟨rfl, -⟩ := level.unique level'
          rfl
  | variant level abstract named own =>
      cases second with
      | variant level' abstract' named' own' =>
          obtain ⟨rfl, rfl⟩ := level.unique level'
          exact own.unique own'

theorem FragmentsOccur.mem_field_iff {shared : List Occurrence}
    {fragments : List ConditionalFragment} {occs : List Occurrence} {q : Parent}
    {f : FieldSelection} (occur : c.FragmentsOccur shared fragments occs) :
    .field q f ∈ occs ↔ (fragments ≠ [] ∧ .field q f ∈ shared) ∨
      ∃ g ∈ fragments, ∃ t, c.tables.fragmentType? g.condition = some t ∧ q = .object t ∧
        c.HasField (.object t) g.selections f := by
  induction occur with
  | nil => simp
  | @cons g rest t own aside occs type level others ih =>
      have mine : Occurrence.field q f ∈ own.map (.field (.object t)) ↔
          q = .object t ∧ c.HasField (.object t) g.selections f := by
        simp only [List.mem_map, Occurrence.field.injEq, level.mem_fields]
        constructor
        · rintro ⟨f', has, rfl, rfl⟩
          exact ⟨rfl, has⟩
        · rintro ⟨rfl, has⟩
          exact ⟨f, has, rfl, rfl⟩
      simp only [List.cons_append, List.mem_cons, List.mem_append, reduceCtorEq, false_or, mine,
        ih]
      constructor
      · rintro ((here | ⟨rfl, has⟩) | ⟨-, here⟩ | ⟨g', mem, later⟩)
        · exact .inl ⟨List.cons_ne_nil _ _, here⟩
        · exact .inr ⟨g, .inl rfl, t, type, rfl, has⟩
        · exact .inl ⟨List.cons_ne_nil _ _, here⟩
        · exact .inr ⟨g', .inr mem, later⟩
      · rintro (⟨-, here⟩ | ⟨g', rfl | mem, t', type', rfl, has⟩)
        · exact .inl (.inl here)
        · cases type.symm.trans type'
          exact .inl (.inr ⟨rfl, has⟩)
        · exact .inr (.inr ⟨g', mem, t', type', rfl, has⟩)

theorem Occurs.mem_field_iff {name : Option String} {occs : List Occurrence} {q : Parent}
    {f : FieldSelection} (occurs : c.Occurs p selections name occs) :
    .field q f ∈ occs ↔ c.Selects p selections name q f := by
  cases occurs with
  | plain level whole =>
      simp only [List.mem_map, Occurrence.field.injEq, level.mem_fields]
      constructor
      · rintro ⟨f', has, rfl, rfl⟩
        exact .plain has
      · intro selected
        cases selected with
        | plain has => exact ⟨f, has, rfl, rfl⟩
  | @variant fields fragments name occs level abstract named own =>
      have shared : Occurrence.field q f ∈ p.sharedOccurrences fields ↔
          (∃ t, p = .interface t) ∧ q = p ∧ c.HasField p selections f ∧ f.key ≠ typenameKey := by
        cases p with
        | interface t =>
            simp only [Parent.sharedOccurrences, List.mem_filter, List.mem_map,
              Occurrence.field.injEq, level.mem_fields, Occurrence.key, bne_iff_ne, ne_eq]
            constructor
            · rintro ⟨⟨f', has, rfl, rfl⟩, other⟩
              exact ⟨⟨t, rfl⟩, rfl, has, other⟩
            · rintro ⟨-, rfl, has, other⟩
              exact ⟨⟨f, has, rfl, rfl⟩, other⟩
        | object t => exact abstract.elim
        | union u => simp [Parent.sharedOccurrences]
      rw [own.mem_field_iff, shared]
      constructor
      · rintro (⟨-, ⟨t, interface⟩, rfl, has, other⟩ | ⟨g', mem, t, type, rfl, has⟩)
        · exact .shared interface has other
        · obtain ⟨listed', same⟩ := List.mem_filter.mp mem
          rw [← of_decide_eq_true same]
          exact .own abstract (level.mem_fragments.mp listed') type has
      · intro selected
        cases selected with
        | shared interface has other =>
            obtain ⟨g, listed, same⟩ := named
            have kept : g ∈ fragments.filter fun g => g.condition = name := by
              simpa using ⟨listed, same⟩
            exact .inl ⟨List.ne_nil_of_mem kept, ⟨_, interface⟩, rfl, has, other⟩
        | @own g t f abstract' fragment type has =>
            have kept : g ∈ fragments.filter fun g' => g'.condition = g.condition := by
              simpa using level.mem_fragments.mpr fragment
            exact .inr ⟨g, kept, t, type, rfl, has⟩

inductive Gives (c : Scope) : Occurrence → Shape → Prop
  | field {p : Parent} {f : FieldSelection} {s : Shape} (compiled : c.FieldCompiles p f s) :
      Gives c (.field p f) s
  | discriminator {condition : String} :
      Gives c (.discriminator condition) (.enumeration [condition])

def Entered (c : Scope) (occs : List Occurrence) (entries : List (String × Shape)) : Prop :=
  ∀ key, Option.Rel c.Gives (Occurrence.last? key occs) (Members.get? key entries.reverse)

theorem Gives.eq_none_iff {o : Option Occurrence} {s : Option Shape}
    (given : Option.Rel c.Gives o s) : o = none ↔ s = none := by
  cases given <;> simp

theorem entered_nil : c.Entered [] [] := fun _ => .none

theorem Entered.append {occs more : List Occurrence} {entries added : List (String × Shape)}
    (first : c.Entered occs entries) (second : c.Entered more added) :
    c.Entered (occs ++ more) (entries ++ added) := by
  intro key
  rw [Occurrence.last?_append, List.reverse_append, Members.get?_append]
  exact rel_or (second key) (first key)

theorem entered_singleton {o : Occurrence} {s : Shape} (given : c.Gives o s) :
    c.Entered [o] [(o.key, s)] := by
  intro key
  by_cases same : o.key = key
  · simpa [Occurrence.last?, Members.get?, same] using Option.Rel.some given
  · simp [Occurrence.last?, Members.get?, same]

theorem Entered.filter {occs : List Occurrence} {entries : List (String × Shape)}
    (entered : c.Entered occs entries) (keep : String → Bool) :
    c.Entered (occs.filter fun o => keep o.key) (entries.filter fun e => keep e.1) := by
  intro key
  rw [Occurrence.last?_filter, ← List.filter_reverse, Members.get?_filter_key]
  split
  · exact entered key
  · exact .none

theorem Entered.ofList {occs : List Occurrence} {entries : List (String × Shape)}
    (entered : c.Entered occs entries) : c.Entered occs (Members.ofList entries) := by
  intro key
  rw [Members.get?_reverse (Members.nodup_keys_ofList entries), Members.get?_ofList]
  exact entered key

theorem DerivesFields.entered {fields : List FieldSelection} {entries : List (String × Shape)}
    {visits depth : Nat} (derived : c.DerivesFields p fields entries visits depth)
    (limit : visits ≤ selectionLimit) : c.Entered (fields.map (.field p)) entries := by
  induction fields generalizing entries visits depth with
  | nil =>
      cases derived
      exact entered_nil
  | cons f rest ih =>
      cases derived with
      | typename name others =>
          have first := entered_singleton (.field (fieldCompiles_typename (c := c) (p := p) name))
          exact first.append (ih others limit)
      | field name declared base others =>
          have compiled := (fieldCompiles_declared (c := c) name).mpr
            ⟨_, _, _, _, declared, base, by omega, rfl⟩
          exact (entered_singleton (.field compiled)).append (ih others (by omega))

theorem DerivesFragments.entered {shared : List Occurrence} {entries : Fields}
    {fragments : List ConditionalFragment} {owns : List (String × Fields)} {visits depth : Nat}
    (name : String) (derived : c.DerivesFragments fragments owns visits depth)
    (limit : visits ≤ selectionLimit)
    (entered : c.Entered shared (entries.filter fun e => e.1 != typenameKey)) :
    ∃ occs, c.FragmentsOccur shared (fragments.filter fun g => g.condition = name) occs ∧
      c.Entered occs (variantEntries name entries owns) := by
  induction fragments generalizing owns visits depth with
  | nil =>
      cases derived
      exact ⟨[], .nil, entered_nil⟩
  | cons g rest ih =>
      cases derived with
      | cons type inside others =>
          obtain ⟨occs, occur, later⟩ := ih others (by omega)
          by_cases same : g.condition = name
          · subst same
            cases inside with
            | object level plain fields =>
                have collects := collects_iff.mpr ⟨_, _, _, level, by omega, rfl, rfl⟩
                have own := (fields.entered (by omega)).ofList
                have first : c.Entered [.discriminator g.condition]
                    [(typenameKey, .enumeration [g.condition])] := entered_singleton .discriminator
                have all := (first.append (entered.append own)).append later
                rw [List.filter_cons_of_pos (by simp), variantEntries_cons, if_pos rfl]
                exact ⟨_, .cons type collects occur, all⟩
          · rw [List.filter_cons_of_neg (by simpa using same), variantEntries_cons,
              if_neg same, List.nil_append]
            exact ⟨occs, occur, later⟩

theorem entered_shared {fields : List FieldSelection} {entries : List (String × Shape)}
    {visits depth : Nat} (abstract : p.IsAbstract)
    (derived : c.DerivesFields p fields entries visits depth) (limit : visits ≤ selectionLimit) :
    c.Entered (p.sharedOccurrences fields)
      ((p.shared (Members.ofList entries)).filter fun e => e.1 != typenameKey) := by
  cases p with
  | object t => exact abstract.elim
  | interface t => exact (derived.entered limit).ofList.filter fun key => key != typenameKey
  | union u => exact entered_nil

end Scope

namespace Shape

def part? : Shape → Option String → Option Fields
  | .object fields, none => some fields
  | .variants choices, some name => Members.get? name choices
  | _, _ => none

def reading : Shape → Members Json → Option String
  | .variants choices, members => selectVariant choices members
  | _, _ => none

/-- An object that is taken keeps the members that it is read with an entry for, and the entries
make of them what comes out. -/
def KeepsMembers (s : Shape) : Prop :=
  ∀ members y, s.validate (.object members) = .ok y →
    ∃ fields outs, s.part? (s.reading members) = some fields ∧ y = .object outs ∧
      ∀ key entry x, fields.get? key = some entry → Members.get? key members = some x →
        ∃ w, Members.get? key outs = some w ∧ entry.validate x = .ok w

theorem FieldsCoerce.kept {fields : Fields} {members outs : Members Json} {key : String}
    {entry : Shape} {x : Json} (each : FieldsCoerce fields members outs)
    (distinct : (Members.keys fields).Nodup) (found : fields.get? key = some entry)
    (present : members.get? key = some x) :
    ∃ w, outs.get? key = some w ∧ entry.validate x = .ok w := by
  have taken := each.get?_out distinct (Members.mem_of_get? found)
  rw [present] at taken
  obtain ⟨w, out⟩ := taken.some_of_some
  rw [out] at taken
  exact ⟨w, out, validate_eq_ok_iff.mpr taken⟩

end Shape

namespace Scope

variable {c : Scope} {p : Parent} {selections : List Selection} {v : Shape}

theorem Compiles.entered {name : Option String} {fields : Fields}
    (compiled : c.Compiles p selections v) (part : v.part? name = some fields) :
    ∃ occs, c.Occurs p selections name occs ∧
      ∀ key, Option.Rel c.Gives (Occurrence.last? key occs) (fields.get? key) := by
  obtain ⟨visits, depth, derived, limit⟩ := compiles_iff.mp compiled
  cases derived with
  | object level plain fields =>
      cases name with
      | some name => cases part
      | none =>
          cases part
          have collects := collects_iff.mpr ⟨_, _, _, level, by omega, rfl, rfl⟩
          refine ⟨_, .plain collects fun abstract => by simp [plain abstract], fun key => ?_⟩
          rw [Members.get?_ofList]
          exact fields.entered (by omega) key
  | variants level abstract narrowed fields fragments =>
      cases name with
      | none => cases part
      | some name =>
          have collects := collects_iff.mpr ⟨_, _, _, level, by omega, rfl, rfl⟩
          have shared := entered_shared abstract fields (by omega)
          obtain ⟨occs, own, entered⟩ := fragments.entered name (by omega) shared
          obtain ⟨fields', known⟩ := (variantOf_of_get? part).named
          obtain ⟨g, listed, same, -⟩ := fragments.owns.1 _ known
          refine ⟨occs, .variant collects abstract ⟨g, listed, same⟩ own, fun key => ?_⟩
          rw [get?_variant part]
          exact entered key

theorem Compiles.keepsMembers (compiled : c.Compiles p selections v) : v.KeepsMembers := by
  intro members y accepted
  obtain ⟨visits, depth, derived, limit⟩ := compiles_iff.mp compiled
  have distinct := derived.keyed.here
  have taken := validate_eq_ok_iff.mp accepted
  cases derived with
  | object level plain fields =>
      cases taken with
      | object each =>
          refine ⟨_, _, rfl, rfl, fun key entry x found present => ?_⟩
          exact each.kept distinct found present
  | variants level abstract narrowed fields fragments =>
      cases taken with
      | variant selected found each =>
          have keyed := distinct.2 _ (Members.mem_of_get? found)
          rw [reading, selected]
          refine ⟨_, _, found, rfl, fun key entry x entered present => ?_⟩
          exact each.kept keyed entered present

structure LastKept (c : Scope) (occs : List Occurrence) (fields : Fields) : Prop where
  keys : ∀ key, key ∈ Members.keys fields ↔ ∃ o ∈ occs, o.key = key
  last : ∀ before q f after, occs = before ++ .field q f :: after →
    (∀ later ∈ after, later.key ≠ f.key) →
      ∃ entry, fields.get? f.key = some entry ∧ c.FieldCompiles q f entry ∧
        ∀ type r, Declares q f type → c.tables.composite? type.base = some r →
          ∃ inner, c.Compiles r f.selections inner ∧ inner.KeepsMembers ∧
            entry = TypeRef.wrap inner type

theorem lastKept_of_entered {occs : List Occurrence} {fields : Fields}
    (entered : ∀ key, Option.Rel c.Gives (Occurrence.last? key occs) (fields.get? key)) :
    c.LastKept occs fields where
  keys := by
    intro key
    have same := Gives.eq_none_iff (entered key)
    rw [Occurrence.last?_eq_none_iff, Members.get?_eq_none_iff] at same
    simpa using (not_congr same).symm
  last := by
    rintro before q f after rfl fresh
    have given := entered f.key
    have last : Occurrence.last? f.key (before ++ .field q f :: after) = some (.field q f) :=
      Occurrence.last?_of_split rfl fresh
    rw [last] at given
    cases found : fields.get? f.key with
    | none =>
        rw [found] at given
        cases given
    | some entry =>
        rw [found] at given
        cases given with
        | some given =>
            cases given with
            | field compiled =>
                refine ⟨entry, rfl, compiled, fun type r declared composite => ?_⟩
                obtain ⟨inner, inside, same⟩ := compiled.composite declared composite
                exact ⟨inner, inside, inside.keepsMembers, same⟩

/-- The objects and variants of a selection set keep the last of the selections of each key, and
data that is taken keeps its members under the keys they have. -/
theorem last_selection_kept (compiled : c.Compiles p selections v) :
    (∀ name fields, v.part? name = some fields →
      ∃ occs, c.Occurs p selections name occs ∧
        (∀ q f, .field q f ∈ occs ↔ c.Selects p selections name q f) ∧ c.LastKept occs fields) ∧
    v.KeepsMembers := by
  refine ⟨fun name fields part => ?_, compiled.keepsMembers⟩
  obtain ⟨occs, occurs, entered⟩ := compiled.entered part
  exact ⟨occs, occurs, fun q f => occurs.mem_field_iff, lastKept_of_entered entered⟩

end Scope

namespace Subgraph

open Scope

def authorSchema : Document :=
  [.type ⟨false, none, "Query", [], .object [] [⟨none, "book", [], .named "Book" false, []⟩]⟩,
    .type ⟨false, none, "Book", [], .object [] [⟨none, "author", [], .named "Author" false, []⟩]⟩,
    .type ⟨false, none, "Author", [], .object []
      [⟨none, "name", [], .named "String" false, []⟩, ⟨none, "age", [], .named "Int" false, []⟩]⟩]

def authors : Subgraph :=
  completed authorSchema

def bookType : Parent := .object ⟨"Book", [], [("author", .named "Author" false)]⟩

def authorType : Parent :=
  .object ⟨"Author", [], [("name", .named "String" false), ("age", .named "Int" false)]⟩

def authorName : FieldSelection := ⟨none, "author", [.field none "name" [] [] []]⟩

def authorAge : FieldSelection := ⟨none, "author", [.field none "age" [] [] []]⟩

def authorTwice : List Selection :=
  [.field none "author" [] [] authorName.selections,
    .field none "author" [] [] authorAge.selections]

-- `query { book { author { name } author { age } } }`
def bookAuthorTwice : Document :=
  [.operation ⟨.query, none, [], [], [.field none "book" [] [] authorTwice]⟩]

def ageShape : Fields := [("age", .nullable (.scalar .number))]

def nameAgeShape : Fields := ("name", .nullable (.scalar (.string .any))) :: ageShape

def authorTwiceShape : Shape := .object [("author", .nullable (.object ageShape))]

theorem authorTwice_keeps_age :
    (authors.scope bookAuthorTwice).Compiles bookType authorTwice authorTwiceShape ∧
    ∃ entry, Members.get? "author" [("author", Shape.nullable (.object ageShape))] = some entry ∧
      (authors.scope bookAuthorTwice).FieldCompiles bookType authorAge entry := by
  have compiled : (authors.scope bookAuthorTwice).Compiles bookType authorTwice authorTwiceShape :=
    ⟨3, 4, rfl⟩
  have level : (authors.scope bookAuthorTwice).Collects bookType authorTwice
      [authorName, authorAge] [] := ⟨3, 2, rfl⟩
  have occurs := Occurs.plain level False.elim
  obtain ⟨occs, occurs', -, kept⟩ := (last_selection_kept compiled).1 none _ rfl
  cases occurs'.unique occurs
  obtain ⟨entry, found, alone, -⟩ := kept.last [.field bookType authorName] bookType authorAge []
    rfl (fun _ mem => (List.not_mem_nil mem).elim)
  exact ⟨compiled, entry, found, alone⟩

def bookOf (author : List (String × Json)) : Json :=
  .object [("book", .object [("author", .object author)])]

theorem authorTwice_drops_name :
    ofDocument authorSchema = .ok authors ∧
    authors.compileDocument bookAuthorTwice =
      .ok (.object [("book", .nullable authorTwiceShape)], 5) ∧
    (authors.scope bookAuthorTwice).HasField bookType authorTwice authorName ∧
    (authors.scope bookAuthorTwice).HasField bookType authorTwice authorAge ∧
    (authors.scope bookAuthorTwice).Compiles authorType
      (authorName.selections ++ authorAge.selections) (.object nameAgeShape) ∧
    "name" ∈ Members.keys nameAgeShape ∧ "name" ∉ Members.keys ageShape ∧
    (Shape.object [("book", .nullable authorTwiceShape)]).validate
      (bookOf [("name", .string "Jane"), ("age", .ofNat 41)]) =
        .ok (bookOf [("age", .ofNat 41)]) := by
  have name : (authors.scope bookAuthorTwice).HasField bookType authorTwice authorName :=
    ⟨[], [], .here (by simp [authorTwice, authorName])⟩
  have age : (authors.scope bookAuthorTwice).HasField bookType authorTwice authorAge :=
    ⟨[], [], .here (by simp [authorTwice, authorAge])⟩
  exact ⟨rfl, rfl, name, age, ⟨2, 2, rfl⟩, by decide, by decide, rfl⟩

end Subgraph

end FederatedMock
