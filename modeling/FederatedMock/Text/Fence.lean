namespace FederatedMock.Text

/-- Letters of a tag: those that equal an ASCII letter when case is ignored, so the long s and the
Kelvin sign too. -/
def isTagLetter (c : Char) : Bool :=
  ('a' ≤ c && c ≤ 'z') || ('A' ≤ c && c ≤ 'Z') || c == 'ſ' || c == '\u212A'

def afterFence (cs : List Char) : List Char :=
  match cs.dropWhile isTagLetter with
  | '\n' :: rest => rest
  | rest => rest

theorem length_dropWhile_le {p : Char → Bool} (cs : List Char) :
    (cs.dropWhile p).length ≤ cs.length :=
  (List.dropWhile_sublist p).length_le

theorem length_afterFence_le (cs : List Char) : (afterFence cs).length ≤ cs.length := by
  have h := length_dropWhile_le (p := isTagLetter) cs
  unfold afterFence
  split
  next rest e => rw [e] at h; simp only [List.length_cons] at h; omega
  next => exact h

def stripFences : List Char → List Char
  | [] => []
  -- The line break in front of a fence goes with it, but only one.
  | '\n' :: '`' :: '`' :: '`' :: rest =>
    have := length_afterFence_le rest
    stripFences (afterFence rest)
  | '`' :: '`' :: '`' :: rest =>
    have := length_afterFence_le rest
    stripFences (afterFence rest)
  | c :: rest => c :: stripFences rest
termination_by cs => cs.length
decreasing_by all_goals simp only [List.length_cons]; omega

end FederatedMock.Text
