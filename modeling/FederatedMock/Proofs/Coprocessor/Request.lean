import FederatedMock.Coprocessor.Request
import FederatedMock.Proofs.Ordered.Members

namespace FederatedMock

/-- The value of a key; of several, the last. -/
def Members.last? (key : String) (members : Members Json) : Option Json :=
  get? key members.reverse

theorem Members.last?_concat (key k : String) (v : Json) (members : Members Json) :
    last? key (members ++ [(k, v)]) = if k = key then some v else last? key members := by
  rw [last?, List.reverse_append, List.reverse_singleton, List.singleton_append, get?_cons]
  rfl

theorem Members.mem_of_last? {key : String} {v : Json} {members : Members Json}
    (found : last? key members = some v) : (key, v) ∈ members :=
  List.mem_reverse.mp (mem_of_get? found)

def nonNull : Option Json → Option Json
  | some .null => none
  | v => v

theorem nonNull_of_ne_null {v : Json} (other : v ≠ .null) : nonNull (some v) = some v := by
  cases v with
  | null => exact (other rfl).elim
  | _ => rfl

def textOf : Option Json → Option String
  | some (.string s) => some s
  | _ => none

def OrNull (p : Json → Prop) (v : Json) : Prop :=
  v = .null ∨ p v

def IsText (v : Json) : Prop :=
  ∃ s, v = .string s

def IsWord (bits : Nat) (v : Json) : Prop :=
  ∃ (n : Nat) (held : IsWordSized n), v = .number (.integer n held) ∧ n < Nat.pow 2 bits

def IsControl (v : Json) : Prop :=
  v = .string "continue" ∨ v = .object [("continue", .null)] ∨
    ∃ status, IsWord 16 status ∧ v = .object [("break", status)]

def IsHeaders (v : Json) : Prop :=
  ∃ headers, v = .object headers ∧
    ∀ header ∈ headers, ∃ values, header.2 = .array values ∧ ∀ value ∈ values, IsText value

def IsBody (v : Json) : Prop :=
  (∃ members, v = .object members ∧
    ∀ m ∈ members, m.1 ∈ ["query", "operationName"] → OrNull IsText m.2) ∨
  ∃ query name rest, v = .array (query :: name :: rest) ∧ OrNull IsText query ∧
    OrNull IsText name ∧ rest.length ≤ 1

theorem map_textOf {v : Option Json} (fits : ∀ x, v = some x → OrNull IsText x) :
    (textOf v).map .string = nonNull v := by
  cases v with
  | none => rfl
  | some x => rcases fits x rfl with rfl | ⟨s, rfl⟩ <;> rfl

section Reading

variable {ε α β : Type}

theorem bind_eq_ok_iff {x : Except ε α} {f : α → Except ε β} {b : β} :
    (x >>= f) = .ok b ↔ ∃ a, x = .ok a ∧ f a = .ok b := by
  cases x with
  | error e => exact iff_of_false (fun run => by cases run) (fun ⟨_, run, _⟩ => by cases run)
  | ok a =>
      constructor
      · exact fun run => ⟨a, rfl, run⟩
      · rintro ⟨_, ⟨⟩, run⟩
        exact run

theorem keep_eq_ok_iff {x : Except ε α} {f : α → β} {fits : Prop} {a : α}
    (reads : ∀ o, x = .ok o ↔ fits ∧ o = a) {b : β} :
    (do return f (← x)) = .ok b ↔ fits ∧ b = f a := by
  rw [bind_eq_ok_iff]
  constructor
  · rintro ⟨o, found, ⟨⟩⟩
    obtain ⟨fit, rfl⟩ := (reads o).mp found
    exact ⟨fit, rfl⟩
  · rintro ⟨fit, rfl⟩
    exact ⟨a, (reads a).mpr ⟨fit, rfl⟩, rfl⟩

theorem skip_eq_ok_iff {x : Except ε α} {fits : Prop} (reads : (∃ o, x = .ok o) ↔ fits)
    {b b' : β} : (do let _ ← x; return b) = .ok b' ↔ fits ∧ b' = b := by
  rw [bind_eq_ok_iff, ← reads]
  constructor
  · rintro ⟨o, found, ⟨⟩⟩
    exact ⟨⟨o, found⟩, rfl⟩
  · rintro ⟨⟨o, found⟩, rfl⟩
    exact ⟨o, found, rfl⟩

/-- A reader that takes in members one by one has read what there is in all of them. -/
theorem foldlM_eq_ok_iff {add : β → α → Except ε β} (fits : α → Prop) (whole : List α → β)
    (step : ∀ seen m b, add (whole seen) m = .ok b ↔ fits m ∧ b = whole (seen ++ [m]))
    (members seen : List α) (b : β) :
    members.foldlM add (whole seen) = .ok b ↔
      (∀ m ∈ members, fits m) ∧ b = whole (seen ++ members) := by
  induction members generalizing seen with
  | nil =>
      rw [List.foldlM_nil, List.append_nil]
      constructor
      · rintro ⟨⟩
        exact ⟨by simp, rfl⟩
      · rintro ⟨-, rfl⟩
        rfl
  | cons m rest ih =>
      rw [List.foldlM_cons, bind_eq_ok_iff, List.forall_mem_cons, and_assoc]
      have next : seen ++ m :: rest = seen ++ [m] ++ rest := by simp
      constructor
      · rintro ⟨_, added, later⟩
        obtain ⟨here, rfl⟩ := (step _ _ _).mp added
        rw [next]
        exact ⟨here, (ih _).mp later⟩
      · rintro ⟨here, later⟩
        rw [next] at later
        exact ⟨_, (step _ _ _).mpr ⟨here, rfl⟩, (ih _).mpr later⟩

theorem exists_mapM {f : α → Except ε β} {fits : α → Prop}
    (each : ∀ x, (∃ y, f x = .ok y) ↔ fits x) (l : List α) :
    (∃ l', l.mapM f = .ok l') ↔ ∀ x ∈ l, fits x := by
  induction l with
  | nil => exact iff_of_true ⟨[], rfl⟩ (by simp)
  | cons x rest ih =>
      rw [List.forall_mem_cons, ← each, ← ih]
      simp only [List.mapM_cons, bind_eq_ok_iff]
      constructor
      · rintro ⟨_, y, here, l', later, -⟩
        exact ⟨⟨y, here⟩, l', later⟩
      · rintro ⟨⟨y, here⟩, l', later⟩
        exact ⟨_, y, here, l', later, rfl⟩

end Reading

namespace FieldReader

variable {α : Type} {read : FieldReader α} {v : Json}

theorem text_eq_ok_iff {s : String} : text v = .ok s ↔ v = .string s := by
  cases v <;> simp [text, mismatch]

theorem exists_text (v : Json) : (∃ s, text v = .ok s) ↔ IsText v :=
  exists_congr fun _ => text_eq_ok_iff

theorem exists_word {bits : Nat} : (∃ n, word bits v = .ok n) ↔ IsWord bits v := by
  constructor
  · rintro ⟨_, read⟩
    unfold word at read
    split at read
    · rename_i n held
      split at read
      · obtain ⟨nonneg, below⟩ := ‹_ ∧ _›
        obtain ⟨k, rfl⟩ := Int.eq_ofNat_of_zero_le nonneg
        exact ⟨k, held, rfl, Int.ofNat_lt.mp below⟩
      · cases read
    · cases read
  · rintro ⟨n, held, rfl, below⟩
    have inRange : 0 ≤ (n : Int) ∧ (n : Int) < Nat.pow 2 bits :=
      ⟨Int.natCast_nonneg n, Int.ofNat_lt.mpr below⟩
    exact ⟨_, if_pos inRange⟩

theorem optional_of_ne_null (other : v ≠ .null) : optional read v = (read v).map some := by
  cases v with
  | null => exact (other rfl).elim
  | _ => rfl

theorem exists_optional {fits : Json → Prop} (reads : ∀ v, (∃ a, read v = .ok a) ↔ fits v) :
    (∃ o, optional read v = .ok o) ↔ OrNull fits v := by
  by_cases null : v = .null
  · exact iff_of_true ⟨none, null ▸ rfl⟩ (.inl null)
  · rw [OrNull, or_iff_right null, optional_of_ne_null null, ← reads]
    cases read v <;> simp [Except.map]

theorem optional_eq_ok_iff {fits : Json → Prop} {value : Json → α}
    (reads : ∀ v a, read v = .ok a ↔ fits v ∧ a = value v) {o : Option α} :
    optional read v = .ok o ↔ OrNull fits v ∧ o = (nonNull (some v)).map value := by
  by_cases null : v = .null
  · subst null
    have none : (Except.ok Option.none : Except PayloadError (Option α)) = .ok o ↔ o = .none := by
      rw [Except.ok.injEq, eq_comm]
    exact none.trans (iff_and_self.mpr fun _ => .inl rfl)
  · rw [OrNull, or_iff_right null, optional_of_ne_null null, nonNull_of_ne_null null,
      Option.map_some]
    cases found : read v with
    | error e =>
        have unfit : ¬ fits v := fun fit => by cases found.symm.trans ((reads v _).mpr ⟨fit, rfl⟩)
        exact iff_of_false (fun read => by cases read) (fun both => unfit both.1)
    | ok a =>
        obtain ⟨fit, rfl⟩ := (reads v a).mp found
        rw [and_iff_right fit, Except.map, Except.ok.injEq, eq_comm]

theorem optional_text_eq_ok_iff {o : Option String} :
    optional text v = .ok o ↔ OrNull IsText v ∧ o = textOf (some v) := by
  cases v <;> simp [optional, text, mismatch, OrNull, IsText, textOf, Except.map, eq_comm]

theorem optional_any_eq_ok_iff {o : Option Json} :
    optional any v = .ok o ↔ True ∧ o = nonNull (some v) := by
  cases v <;> simp [optional, any, nonNull, Except.map, eq_comm]

theorem exists_listOf : (∃ l, listOf text v = .ok l) ↔
    ∃ values, v = .array values ∧ ∀ value ∈ values, IsText value := by
  cases v with
  | array values => simpa [listOf] using exists_mapM exists_text values
  | _ => simp [listOf, mismatch]

theorem exists_mapOf : (∃ ms, mapOf (listOf text) v = .ok ms) ↔ IsHeaders v := by
  cases v with
  | object headers =>
      have each (header : String × Json) :
          (∃ m, (do return (header.1, ← listOf text header.2)) = .ok m) ↔
            ∃ values, header.2 = .array values ∧ ∀ value ∈ values, IsText value := by
        rw [← exists_listOf]
        cases listOf text header.2 <;> simp
      simpa [mapOf, IsHeaders] using exists_mapM each headers
  | _ => simp [mapOf, mismatch, IsHeaders]

end FieldReader

namespace Control

open FieldReader

variable {name : String} {v : Json}

theorem exists_ofVariant_none : (∃ c, ofVariant name none = .ok c) ↔ name = "continue" := by
  constructor
  · rintro ⟨c, read⟩
    unfold ofVariant at read
    split at read
    case h_1 => rfl
    all_goals simp_all
  · rintro rfl
    exact ⟨.proceed, rfl⟩

theorem exists_ofVariant_some : (∃ c, ofVariant name (some v) = .ok c) ↔
    name = "continue" ∧ v = .null ∨ name = "break" ∧ IsWord 16 v := by
  by_cases proceeds : name = "continue"
  · subst proceeds
    cases v <;> simp [ofVariant, nothing, mismatch]
  by_cases answers : name = "break"
  · subst answers
    rw [← exists_word]
    cases read : word 16 v <;> simp [ofVariant, read]
  · refine iff_of_false ?_ (by simp [proceeds, answers])
    rintro ⟨c, read⟩
    unfold ofVariant at read
    split at read <;> simp_all

theorem exists_read : (∃ c, read v = .ok c) ↔ IsControl v := by
  unfold read IsControl
  split
  · simp [exists_ofVariant_none]
  · simp [exists_ofVariant_some, and_comm]
  · rename_i members other
    refine iff_of_false (fun ⟨_, run⟩ => by cases run) ?_
    rintro (same | same | ⟨status, -, same⟩) <;> cases same
    · exact other _ _ rfl
    · exact other _ _ rfl
  · simp_all [mismatch]

end Control

namespace RequestBody

open FieldReader

def lookUp : Json → RequestBody
  | .object members =>
    ⟨textOf (Members.last? "query" members), nonNull (Members.last? "variables" members)⟩
  | .array items => ⟨textOf items[0]?, nonNull items[2]?⟩
  | _ => ⟨none, none⟩

theorem add_eq_ok_iff {members : Members Json} {m : String × Json} {b : RequestBody} :
    (lookUp (.object members)).add m = .ok b ↔
      (m.1 ∈ ["query", "operationName"] → OrNull IsText m.2) ∧
        b = lookUp (.object (members ++ [m])) := by
  unfold add
  split
  · rw [keep_eq_ok_iff fun _ => optional_text_eq_ok_iff]
    simp [lookUp, Members.last?_concat]
  · rw [skip_eq_ok_iff (exists_optional exists_text)]
    simp [lookUp, Members.last?_concat]
  · rw [keep_eq_ok_iff fun _ => optional_any_eq_ok_iff]
    simp [lookUp, Members.last?_concat]
  · rename_i query name variableValues
    obtain ⟨key, v⟩ := m
    have other : key ≠ "query" ∧ key ≠ "operationName" ∧ key ≠ "variables" :=
      ⟨fun same => query v (same ▸ rfl), fun same => name v (same ▸ rfl),
        fun same => variableValues v (same ▸ rfl)⟩
    simp [lookUp, Members.last?_concat, other, eq_comm]

theorem empty_eq_lookUp : empty = lookUp (.object []) := rfl

theorem ofItems_eq_ok_iff {items : List Json} {b : RequestBody} :
    ofItems items = .ok b ↔ IsBody (.array items) ∧ b = lookUp (.array items) := by
  rcases items with _ | ⟨query, _ | ⟨name, _ | ⟨values, _ | ⟨more, rest⟩⟩⟩⟩
  · simp [ofItems, IsBody]
  · simp [ofItems, bind_eq_ok_iff, IsBody]
  · show _ ↔ _ ∧ b = lookUp (.object [("query", query), ("operationName", name)])
    simp [ofItems, bind_eq_ok_iff, empty_eq_lookUp, add_eq_ok_iff, IsBody, and_assoc]
  · show _ ↔ _ ∧ b = lookUp (.object [("query", query), ("operationName", name),
      ("variables", values)])
    simp [ofItems, bind_eq_ok_iff, empty_eq_lookUp, add_eq_ok_iff, IsBody, and_assoc]
  · simp [ofItems, bind_eq_ok_iff, empty_eq_lookUp, add_eq_ok_iff, IsBody]

theorem read_eq_ok_iff {v : Json} {b : RequestBody} :
    read v = .ok b ↔ IsBody v ∧ b = lookUp v := by
  cases v with
  | object members =>
      have named : IsBody (.object members) ↔
          ∀ m ∈ members, m.1 ∈ ["query", "operationName"] → OrNull IsText m.2 := by
        simp [IsBody]
      rw [named]
      exact foldlM_eq_ok_iff _ (fun members => lookUp (.object members))
        (fun _ _ _ => add_eq_ok_iff) members [] b
  | array items => exact ofItems_eq_ok_iff
  | _ => simp [read, mismatch, IsBody]

end RequestBody

namespace SubgraphRequest

open FieldReader

/-- The request that is found among members. -/
def lookUp (members : Members Json) : SubgraphRequest where
  id := textOf (Members.last? "id" members)
  body := (nonNull (Members.last? "body" members)).map RequestBody.lookUp
  context := nonNull (Members.last? "context" members)
  serviceName := textOf (Members.last? "serviceName" members)
  subgraphRequestId := textOf (Members.last? "subgraphRequestId" members)

@[mk_iff]
structure Fits (m : String × Json) : Prop where
  version : m.1 = "version" → IsWord 8 m.2
  stage : m.1 = "stage" → IsText m.2
  control : m.1 = "control" → OrNull IsControl m.2
  headers : m.1 = "headers" → OrNull IsHeaders m.2
  body : m.1 = "body" → OrNull IsBody m.2
  text : m.1 ∈ ["id", "uri", "method", "serviceName", "subgraphRequestId"] → OrNull IsText m.2

theorem add_eq_ok_iff {members : Members Json} {m : String × Json} {r : SubgraphRequest} :
    (lookUp members).add m = .ok r ↔ Fits m ∧ r = lookUp (members ++ [m]) := by
  unfold add
  split
  case h_12 version stage control id headers body context uri method service request =>
    obtain ⟨key, v⟩ := m
    have other : key ∉ ["version", "stage", "control", "id", "headers", "body", "context", "uri",
        "method", "serviceName", "subgraphRequestId"] := by
      simp only [List.mem_cons, List.not_mem_nil, or_false]
      rintro (rfl | rfl | rfl | rfl | rfl | rfl | rfl | rfl | rfl | rfl | rfl)
      exacts [version v rfl, stage v rfl, control v rfl, id v rfl, headers v rfl, body v rfl,
        context v rfl, uri v rfl, method v rfl, service v rfl, request v rfl]
    simp only [List.mem_cons, List.not_mem_nil, or_false, not_or] at other
    simp [fits_iff, lookUp, Members.last?_concat, other, eq_comm]
  -- The readers of the known keys, one by one.
  case' h_1 => rw [skip_eq_ok_iff exists_word]
  case' h_2 v => rw [skip_eq_ok_iff (exists_text v)]
  case' h_3 => rw [skip_eq_ok_iff (exists_optional fun _ => Control.exists_read)]
  case' h_5 => rw [skip_eq_ok_iff (exists_optional fun _ => exists_mapOf)]
  case' h_6 => rw [keep_eq_ok_iff fun _ => optional_eq_ok_iff fun _ _ => RequestBody.read_eq_ok_iff]
  case' h_7 => rw [keep_eq_ok_iff fun _ => optional_any_eq_ok_iff]
  case' h_8 | h_9 => rw [skip_eq_ok_iff (exists_optional exists_text)]
  case' h_4 | h_10 | h_11 => rw [keep_eq_ok_iff fun _ => optional_text_eq_ok_iff]
  all_goals simp [fits_iff, lookUp, Members.last?_concat]

/-- Members that can be read as a request. -/
structure Readable (members : Members Json) : Prop where
  versioned : "version" ∈ Members.keys members
  staged : "stage" ∈ Members.keys members
  fits : ∀ m ∈ members, Fits m

theorem ofMembers_eq_ok_iff {members : Members Json} {r : SubgraphRequest} :
    ofMembers members = .ok r ↔ Readable members ∧ r = lookUp members := by
  have fold (r : SubgraphRequest) : members.foldlM add empty = .ok r ↔
      (∀ m ∈ members, Fits m) ∧ r = lookUp members :=
    foldlM_eq_ok_iff Fits lookUp (fun _ _ _ => add_eq_ok_iff) members [] r
  unfold ofMembers
  simp only [bind_eq_ok_iff, fold]
  constructor
  · rintro ⟨_, ⟨fits, rfl⟩, checked⟩
    cases versioned : Members.contains "version" members with
    | false =>
        rw [versioned] at checked
        cases checked
    | true =>
        cases staged : Members.contains "stage" members with
        | false =>
            rw [versioned, staged] at checked
            cases checked
        | true =>
            rw [versioned, staged] at checked
            cases checked
            exact ⟨⟨Members.contains_iff.mp versioned, Members.contains_iff.mp staged, fits⟩, rfl⟩
  · rintro ⟨⟨versioned, staged, fits⟩, rfl⟩
    refine ⟨_, ⟨fits, rfl⟩, ?_⟩
    rw [Members.contains_iff.mpr versioned, Members.contains_iff.mpr staged]
    rfl

structure Repeats (members : Members Json) (reply : Json) : Prop where
  version : reply.get? "version" = some (.ofNat 1)
  stage : reply.get? "stage" = some (.string "SubgraphRequest")
  id : reply.get? "id" = some ((Members.last? "id" members).getD .null)
  identity : ∀ key ∈ ["context", "serviceName", "subgraphRequestId"],
    reply.get? key = nonNull (Members.last? key members)
  omitted : ∀ key ∈ ["headers", "uri", "method"], reply.get? key = none

section Reply

variable {members : Members Json} {r : SubgraphRequest} (control : Control) (body : Json)

theorem get?_reply_body : (r.reply control body).get? "body" = some body := rfl

theorem get?_reply_identity {key : String}
    (known : key ∈ ["context", "serviceName", "subgraphRequestId"]) :
    (r.reply control body).get? key = Option.join (Members.get? key [("context", r.context),
      ("serviceName", r.serviceName.map .string),
      ("subgraphRequestId", r.subgraphRequestId.map .string)]) := by
  simp only [List.mem_cons, List.not_mem_nil, or_false] at known
  obtain ⟨id, asked, _ | context, _ | service, _ | request⟩ := r <;>
    rcases known with rfl | rfl | rfl <;> rfl

theorem get?_reply_omitted {key : String} (silent : key ∈ ["headers", "uri", "method"]) :
    (r.reply control body).get? key = none := by
  simp only [List.mem_cons, List.not_mem_nil, or_false] at silent
  obtain ⟨id, asked, _ | context, _ | service, _ | request⟩ := r <;>
    rcases silent with rfl | rfl | rfl <;> rfl

theorem Readable.map_textOf (readable : Readable members) {key : String}
    (text : key ∈ ["id", "uri", "method", "serviceName", "subgraphRequestId"]) :
    (textOf (Members.last? key members)).map .string = nonNull (Members.last? key members) :=
  FederatedMock.map_textOf fun _ found =>
    (readable.fits _ (Members.mem_of_last? found)).text text

theorem getD_nonNull (v : Option Json) : (nonNull v).getD .null = v.getD .null := by
  rcases v with _ | _ | _ <;> rfl

theorem Readable.repeats (readable : Readable members) :
    Repeats members ((lookUp members).reply control body) where
  version := rfl
  stage := rfl
  id := by
    rw [← getD_nonNull, ← readable.map_textOf]
    · rfl
    · simp
  identity key known := by
    rw [get?_reply_identity control body known]
    simp only [List.mem_cons, List.not_mem_nil, or_false] at known
    rcases known with rfl | rfl | rfl
    · rfl
    · exact readable.map_textOf (by simp)
    · exact readable.map_textOf (by simp)
  omitted _ silent := get?_reply_omitted control body silent

end Reply

end SubgraphRequest

end FederatedMock
