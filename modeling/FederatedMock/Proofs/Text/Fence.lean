import FederatedMock.Text.Fence

namespace FederatedMock.Text

def backticks : List Char := ['`', '`', '`']

def IsUnfenced (cs : List Char) : Prop := ¬ backticks <:+: cs

instance (cs : List Char) : Decidable (IsUnfenced cs) := inferInstanceAs (Decidable (¬ _))

theorem isUnfenced_nil : IsUnfenced [] := by decide

theorem IsUnfenced.tail {c : Char} {cs : List Char} (unfenced : IsUnfenced (c :: cs)) :
    IsUnfenced cs :=
  fun inside => unfenced (inside.trans (List.suffix_cons c cs).isInfix)

theorem IsUnfenced.not_isPrefix {cs : List Char} (unfenced : IsUnfenced cs) :
    ¬ backticks <+: cs :=
  fun start => unfenced start.isInfix

theorem isPrefix_backticks_iff {cs : List Char} :
    backticks <+: cs ↔ ∃ rest, cs = '`' :: '`' :: '`' :: rest := by
  constructor
  · rintro ⟨rest, rfl⟩
    exact ⟨rest, rfl⟩
  · rintro ⟨rest, rfl⟩
    exact ⟨rest, rfl⟩

@[simp] theorem stripFences_nil : stripFences [] = [] := by rw [stripFences]

@[simp] theorem stripFences_fence (rest : List Char) :
    stripFences ('`' :: '`' :: '`' :: rest) = stripFences (afterFence rest) := by
  rw [stripFences]

@[simp] theorem stripFences_line_fence (rest : List Char) :
    stripFences ('\n' :: '`' :: '`' :: '`' :: rest) = stripFences (afterFence rest) := by
  rw [stripFences]

theorem stripFences_cons {c : Char} {rest : List Char} (here : ¬ backticks <+: c :: rest)
    (next : ¬ (c = '\n' ∧ backticks <+: rest)) :
    stripFences (c :: rest) = c :: stripFences rest := by
  rw [stripFences]
  · rintro more rfl rfl
    exact next ⟨rfl, more, rfl⟩
  · rintro more rfl rfl
    exact here ⟨more, rfl⟩

def isInert (c : Char) : Bool := c != '`' && c != '\n'

theorem not_isPrefix_of_ne {c : Char} {rest : List Char} (other : c ≠ '`') :
    ¬ backticks <+: c :: rest := by
  rintro ⟨more, same⟩
  exact other (List.cons.inj same).1.symm

theorem stripFences_inert {c : Char} (inert : isInert c = true) (rest : List Char) :
    stripFences (c :: rest) = c :: stripFences rest := by
  simp only [isInert, Bool.and_eq_true, bne_iff_ne] at inert
  exact stripFences_cons (not_isPrefix_of_ne inert.1) fun line => inert.2 line.1

theorem stripFences_append_of_inert {cs : List Char} (inert : cs.all isInert = true)
    (rest : List Char) : stripFences (cs ++ rest) = cs ++ stripFences rest := by
  induction cs with
  | nil => rfl
  | cons c cs ih =>
      rw [List.all_cons, Bool.and_eq_true] at inert
      rw [List.cons_append, stripFences_inert inert.1, ih inert.2, List.cons_append]

theorem stripFences_of_isUnfenced {cs : List Char} (unfenced : IsUnfenced cs) :
    stripFences cs = cs := by
  induction cs with
  | nil => exact stripFences_nil
  | cons c cs ih =>
      rw [stripFences_cons unfenced.not_isPrefix fun h => unfenced.tail.not_isPrefix h.2,
        ih unfenced.tail]

theorem isPrefix_of_append_line {cs rest : List Char} (start : backticks <+: cs ++ '\n' :: rest) :
    backticks <+: cs := by
  obtain ⟨more, same⟩ := isPrefix_backticks_iff.mp start
  rcases cs with _ | ⟨a, _ | ⟨b, _ | ⟨c, cs⟩⟩⟩
  · simp at same
  · simp at same
  · simp at same
  · simp only [List.cons_append, List.cons.injEq] at same
    obtain ⟨rfl, rfl, rfl, -⟩ := same
    exact ⟨cs, rfl⟩

theorem stripFences_append_fence {cs : List Char} (unfenced : IsUnfenced cs) (rest : List Char) :
    stripFences (cs ++ '\n' :: (backticks ++ rest)) = cs ++ stripFences (afterFence rest) := by
  induction cs with
  | nil => exact stripFences_line_fence rest
  | cons c cs ih =>
      have here : ¬ backticks <+: c :: (cs ++ '\n' :: (backticks ++ rest)) := fun start =>
        unfenced.not_isPrefix (@isPrefix_of_append_line (c :: cs) _ start)
      have next : ¬ (c = '\n' ∧ backticks <+: cs ++ '\n' :: (backticks ++ rest)) := fun start =>
        unfenced.tail.not_isPrefix (isPrefix_of_append_line start.2)
      rw [List.cons_append, stripFences_cons here next, ih unfenced.tail, List.cons_append]

theorem afterFence_tag {tag : List Char} (letters : ∀ c ∈ tag, isTagLetter c = true)
    (rest : List Char) : afterFence (tag ++ '\n' :: rest) = rest := by
  have line : isTagLetter '\n' = false := by decide
  rw [afterFence, List.dropWhile_append_of_pos letters, List.dropWhile_cons, line]
  rfl

theorem stripFences_opening {tag : List Char} (letters : ∀ c ∈ tag, isTagLetter c = true)
    (rest : List Char) :
    stripFences (backticks ++ (tag ++ '\n' :: rest)) = stripFences rest := by
  rw [backticks, List.cons_append, List.cons_append, List.cons_append, List.nil_append,
    stripFences_fence, afterFence_tag letters]

theorem stripFences_fenced {tag cs : List Char} (letters : ∀ c ∈ tag, isTagLetter c = true)
    (unfenced : IsUnfenced cs) :
    stripFences (backticks ++ (tag ++ '\n' :: (cs ++ '\n' :: backticks))) = cs := by
  have closing := stripFences_append_fence unfenced []
  rw [List.append_nil] at closing
  rw [stripFences_opening letters, closing, afterFence, List.dropWhile_nil]
  exact (congrArg (cs ++ ·) stripFences_nil).trans (List.append_nil cs)

def dropFences : List Char → List Char
  | [] => []
  | '`' :: '`' :: '`' :: rest =>
    have := length_dropWhile_le (p := isTagLetter) rest
    dropFences (rest.dropWhile isTagLetter)
  | c :: rest => c :: dropFences rest
termination_by cs => cs.length
decreasing_by all_goals simp only [List.length_cons]; omega

@[simp] theorem dropFences_nil : dropFences [] = [] := by rw [dropFences]

theorem dropFences_cons {c : Char} {rest : List Char} (here : ¬ backticks <+: c :: rest) :
    dropFences (c :: rest) = c :: dropFences rest := by
  rw [dropFences]
  rintro more rfl rfl
  exact here ⟨more, rfl⟩

theorem head_of_dropFences {cs rest : List Char} (starts : dropFences cs = '`' :: rest) :
    ∃ more, cs = '`' :: more := by
  cases cs with
  | nil => simp at starts
  | cons c cs =>
      by_cases tick : c = '`'
      · exact ⟨cs, by rw [tick]⟩
      · rw [dropFences_cons (not_isPrefix_of_ne tick)] at starts
        exact absurd (List.cons.inj starts).1 tick

theorem isUnfenced_dropFences (cs : List Char) : IsUnfenced (dropFences cs) := by
  fun_induction dropFences cs with
  | case1 => exact isUnfenced_nil
  | case2 rest _ ih => exact ih
  | case3 c rest other ih =>
      intro inside
      rcases List.infix_cons_iff.mp inside with start | later
      · obtain ⟨more, same⟩ := start
        obtain ⟨rfl, starts⟩ := List.cons.inj same
        obtain ⟨cs, rfl⟩ := head_of_dropFences starts.symm
        have here : ¬ backticks <+: '`' :: cs := fun fence => by
          obtain ⟨more, begins⟩ := isPrefix_backticks_iff.mp fence
          exact other _ rfl begins
        rw [dropFences_cons here] at starts
        obtain ⟨cs, rfl⟩ := head_of_dropFences (List.cons.inj starts).2.symm
        exact other cs rfl rfl
      · exact ih later

theorem dropFences_of_isUnfenced {cs : List Char} (unfenced : IsUnfenced cs) :
    dropFences cs = cs := by
  induction cs with
  | nil => exact dropFences_nil
  | cons c cs ih => rw [dropFences_cons unfenced.not_isPrefix, ih unfenced.tail]

end FederatedMock.Text
