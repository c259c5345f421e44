import FederatedMock.Generation.Correction
import FederatedMock.Proofs.Shape.Coercion

namespace FederatedMock

variable {σ : Type}

/-- The same generator, which also notes down what it is asked. -/
def Generator.noting (g : Generator σ) : Generator (σ × List String) := fun prompt => do
  let (s, asked) ← get
  let (reply, s) := g prompt s
  set (s, asked ++ [prompt])
  return reply

theorem Generator.noting_eq (g : Generator σ) (prompt : String) (s : σ) (asked : List String) :
    g.noting prompt (s, asked) = ((g prompt s).1, (g prompt s).2, asked ++ [prompt]) := rfl

namespace Reply

def IsUseless (r : Reply) : Prop :=
  (∃ message, r = .error message) ∨
    ∃ text message, r = .ok text ∧ parseGenerated text = .error message

def Gives (r : Reply) (v : Json) : Prop :=
  ∃ text, r = .ok text ∧ parseGenerated text = .ok v

theorem value_eq_ok_iff {r : Reply} {v : Json} : r.value = .ok v ↔ r.Gives v := by
  cases r with
  | error message => simp [value, Gives]
  | ok text => cases read : parseGenerated text <;> simp [value, Gives, read]

theorem value_eq_error_iff {r : Reply} : (∃ e, r.value = .error e) ↔ r.IsUseless := by
  cases r with
  | error message => simp [value, IsUseless]
  | ok text => cases read : parseGenerated text <;> simp [value, IsUseless, read]

theorem Gives.unique {r : Reply} {v v' : Json} (gives : r.Gives v) (gives' : r.Gives v') :
    v = v' := by
  have same := (value_eq_ok_iff.mpr gives).symm.trans (value_eq_ok_iff.mpr gives')
  exact Except.ok.inj same

theorem Gives.not_isUseless {r : Reply} {v : Json} (gives : r.Gives v) : ¬ r.IsUseless := by
  intro useless
  obtain ⟨e, fails⟩ := value_eq_error_iff.mpr useless
  rw [value_eq_ok_iff.mpr gives] at fails
  cases fails

end Reply

/-- How candidates come to an end with that many calls left: the data, the outcome, the prompts
asked on the way and the state that the generator is left in. -/
inductive Rounds (shape : Shape) (g : Generator σ) :
    Nat → Json → σ → Json → Outcome → List String → σ → Prop
  | accepted {left : Nat} {candidate data : Json} {s : σ}
      (valid : shape.validate candidate = .ok data) :
      Rounds shape g left candidate s data .accepted [] s
  | exhausted {candidate : Json} {issues : List Issue} {s : σ}
      (invalid : shape.validate candidate = .error issues) :
      Rounds shape g 0 candidate s candidate .exhausted [] s
  | failed {left : Nat} {candidate : Json} {issues : List Issue} {s : σ}
      (invalid : shape.validate candidate = .error issues)
      (useless : (g (Prompt.correction candidate issues) s).1.IsUseless) :
      Rounds shape g (left + 1) candidate s candidate .generationFailed
        [Prompt.correction candidate issues] (g (Prompt.correction candidate issues) s).2
  | again {left : Nat} {candidate v data : Json} {issues : List Issue} {s s' : σ}
      {outcome : Outcome} {asked : List String}
      (invalid : shape.validate candidate = .error issues)
      (gives : (g (Prompt.correction candidate issues) s).1.Gives v)
      (later : Rounds shape g left (unwrapData v) (g (Prompt.correction candidate issues) s).2
        data outcome asked s') :
      Rounds shape g (left + 1) candidate s data outcome
        (Prompt.correction candidate issues :: asked) s'

section Loop

variable {shape : Shape} {candidate data : Json} {issues : List Issue} {left attempts : Nat}

theorem correctFrom_of_valid (g : Generator σ) (s : σ)
    (valid : shape.validate candidate = .ok data) :
    correctFrom shape g left attempts candidate s = (⟨data, .accepted, attempts - 1⟩, s) := by
  unfold correctFrom
  rw [valid]
  rfl

theorem correctFrom_zero (g : Generator σ) (s : σ)
    (invalid : shape.validate candidate = .error issues) :
    correctFrom shape g 0 attempts candidate s = (⟨candidate, .exhausted, attempts - 1⟩, s) := by
  obtain ⟨some, -⟩ := Shape.validate_eq_error_iff.mp invalid
  obtain ⟨issue, rest, rfl⟩ := List.exists_cons_of_ne_nil some
  unfold correctFrom
  rw [invalid]
  rfl

theorem correctFrom_succ (g : Generator σ) (s : σ)
    (invalid : shape.validate candidate = .error issues) :
    correctFrom shape g (left + 1) attempts candidate s =
      match (g (Prompt.correction candidate issues) s).1.value with
      | .ok v => correctFrom shape g left (attempts + 1) (unwrapData v)
          (g (Prompt.correction candidate issues) s).2
      | .error _ => (⟨candidate, .generationFailed, attempts⟩,
          (g (Prompt.correction candidate issues) s).2) := by
  obtain ⟨some, -⟩ := Shape.validate_eq_error_iff.mp invalid
  obtain ⟨issue, rest, rfl⟩ := List.exists_cons_of_ne_nil some
  rw [correctFrom]
  simp only [invalid]
  change (match (g (Prompt.correction candidate (issue :: rest)) s).1.value with
    | .ok v => correctFrom shape g left (attempts + 1) (unwrapData v)
    | .error _ => return ⟨candidate, .generationFailed, attempts⟩ : StateM σ Correction)
      (g (Prompt.correction candidate (issue :: rest)) s).2 = _
  cases (g (Prompt.correction candidate (issue :: rest)) s).1.value <;> rfl

theorem Rounds.correctFrom_eq {g : Generator σ} {s s' : σ} {outcome : Outcome}
    {asked : List String} (rounds : Rounds shape g left candidate s data outcome asked s')
    (made : Nat) (notes : List String) :
    correctFrom shape g left (made + 1) candidate s =
        (⟨data, outcome, made + asked.length⟩, s') ∧
      correctFrom shape g.noting left (made + 1) candidate (s, notes) =
        (⟨data, outcome, made + asked.length⟩, s', notes ++ asked) := by
  induction rounds generalizing made notes with
  | accepted valid =>
      rw [correctFrom_of_valid _ _ valid, correctFrom_of_valid _ _ valid, List.append_nil]
      exact ⟨rfl, rfl⟩
  | exhausted invalid =>
      rw [correctFrom_zero _ _ invalid, correctFrom_zero _ _ invalid, List.append_nil]
      exact ⟨rfl, rfl⟩
  | failed invalid useless =>
      obtain ⟨e, fails⟩ := Reply.value_eq_error_iff.mpr useless
      rw [correctFrom_succ _ _ invalid, correctFrom_succ _ _ invalid, Generator.noting_eq]
      simp only [fails]
      exact ⟨rfl, rfl⟩
  | @again left candidate v data issues s s' outcome asked invalid gives later ih =>
      obtain ⟨plain, noted⟩ := ih (made + 1) (notes ++ [Prompt.correction candidate issues])
      have count : made + (Prompt.correction candidate issues :: asked).length =
          made + 1 + asked.length := by
        rw [List.length_cons]
        omega
      rw [correctFrom_succ _ _ invalid, correctFrom_succ _ _ invalid, Generator.noting_eq]
      simp only [Reply.value_eq_ok_iff.mpr gives, count]
      refine ⟨plain, ?_⟩
      rw [noted, List.append_assoc]
      rfl

theorem exists_rounds (shape : Shape) (g : Generator σ) (left : Nat) (candidate : Json) (s : σ) :
    ∃ data outcome asked s', Rounds shape g left candidate s data outcome asked s' := by
  induction left generalizing candidate s with
  | zero =>
      cases checked : shape.validate candidate with
      | ok data => exact ⟨_, _, _, _, .accepted checked⟩
      | error issues => exact ⟨_, _, _, _, .exhausted checked⟩
  | succ left ih =>
      cases checked : shape.validate candidate with
      | ok data => exact ⟨_, _, _, _, .accepted checked⟩
      | error issues =>
          cases value : (g (Prompt.correction candidate issues) s).1.value with
          | error e => exact ⟨_, _, _, _, .failed checked (Reply.value_eq_error_iff.mp ⟨e, value⟩)⟩
          | ok v =>
              obtain ⟨data, outcome, asked, s', later⟩ := ih (unwrapData v)
                (g (Prompt.correction candidate issues) s).2
              exact ⟨_, _, _, _, .again checked (Reply.value_eq_ok_iff.mp value) later⟩

end Loop

section Ends

variable {shape : Shape} {g : Generator σ} {left : Nat} {start data : Json} {s s' : σ}
  {outcome : Outcome} {asked : List String}

theorem Rounds.bounded (rounds : Rounds shape g left start s data outcome asked s') :
    asked.length ≤ left := by
  induction rounds with
  | accepted valid => exact Nat.zero_le _
  | exhausted invalid => exact Nat.le_refl 0
  | failed invalid useless => exact Nat.succ_le_succ (Nat.zero_le _)
  | again invalid gives later ih => exact Nat.succ_le_succ ih

theorem Rounds.judged (rounds : Rounds shape g left start s data outcome asked s') :
    (outcome = .accepted ∧ ∃ candidate, shape.validate candidate = .ok data) ∨
      (outcome = .exhausted ∨ outcome = .generationFailed) ∧
        ∃ issues, shape.validate data = .error issues := by
  induction rounds with
  | accepted valid => exact .inl ⟨rfl, _, valid⟩
  | exhausted invalid => exact .inr ⟨.inl rfl, _, invalid⟩
  | failed invalid useless => exact .inr ⟨.inr rfl, _, invalid⟩
  | again invalid gives later ih => exact ih

theorem Rounds.last (rounds : Rounds shape g 0 start s data outcome asked s') :
    asked = [] ∧ ((outcome = .accepted ∧ shape.validate start = .ok data) ∨
      outcome = .exhausted ∧ data = start ∧ ∃ issues, shape.validate start = .error issues) := by
  cases rounds with
  | accepted valid => exact ⟨rfl, .inl ⟨rfl, valid⟩⟩
  | exhausted invalid => exact ⟨rfl, .inr ⟨rfl, rfl, _, invalid⟩⟩

end Ends

structure Retried (shape : Shape) (candidate : Json) (reply : Reply) (c : Correction) : Prop where
  failed : c.outcome = .generationFailed ↔ reply.IsUseless
  accepted : c.outcome = .accepted ↔
    ∃ v y, reply.Gives v ∧ shape.validate (unwrapData v) = .ok y
  exhausted : c.outcome = .exhausted ↔
    ∃ v issues, reply.Gives v ∧ shape.validate (unwrapData v) = .error issues
  data_of_failed : c.outcome = .generationFailed → c.data = candidate
  data_of_accepted : ∀ v, reply.Gives v → c.outcome = .accepted →
    shape.validate (unwrapData v) = .ok c.data
  data_of_exhausted : ∀ v, reply.Gives v → c.outcome = .exhausted → c.data = unwrapData v

/-- What a correction and the prompts asked for it tell of the candidate that it started with. -/
structure Truthful (shape : Shape) (g : Generator σ) (s : σ) (candidate : Json) (c : Correction)
    (asked : List String) : Prop where
  bounded : asked.length ≤ 1
  counted : c.corrections = asked.length
  accepted_unasked : c.outcome = .accepted ∧ asked = [] ↔ ∃ y, shape.validate candidate = .ok y
  data_of_unasked : asked = [] → shape.validate candidate = .ok c.data
  retried : ∀ issues, shape.validate candidate = .error issues →
    asked = [Prompt.correction candidate issues] ∧
      Retried shape candidate (g (Prompt.correction candidate issues) s).1 c
  not_givenUp : c.outcome ≠ .givenUp

theorem retried_of_useless {shape : Shape} {reply : Reply} (useless : reply.IsUseless)
    (candidate : Json) (n : Nat) :
    Retried shape candidate reply ⟨candidate, .generationFailed, n⟩ := by
  have nothing (v : Json) : ¬ reply.Gives v := fun gives => gives.not_isUseless useless
  constructor <;> simp [useless, nothing]

theorem retried_of_gives {shape : Shape} {v data : Json} {reply : Reply} {outcome : Outcome}
    (gives : reply.Gives v) (candidate : Json) (n : Nat)
    (judged : (outcome = .accepted ∧ shape.validate (unwrapData v) = .ok data) ∨
      outcome = .exhausted ∧ data = unwrapData v ∧
        ∃ issues, shape.validate (unwrapData v) = .error issues) :
    Retried shape candidate reply ⟨data, outcome, n⟩ := by
  have only (v' : Json) : reply.Gives v' ↔ v' = v :=
    ⟨fun gives' => gives'.unique gives, fun same => same ▸ gives⟩
  rcases judged with ⟨rfl, valid⟩ | ⟨rfl, rfl, issues, invalid⟩
  · constructor <;> simp [only, gives.not_isUseless, valid]
  · constructor <;> simp [only, gives.not_isUseless, invalid]

theorem Rounds.truthful {shape : Shape} {g : Generator σ} {s s' : σ} {candidate data : Json}
    {outcome : Outcome} {asked : List String}
    (rounds : Rounds shape g 1 candidate s data outcome asked s') :
    Truthful shape g s candidate ⟨data, outcome, asked.length⟩ asked := by
  have bounded := rounds.bounded
  have ended : outcome ≠ .givenUp := by
    rintro rfl
    simpa using rounds.judged
  cases rounds with
  | accepted valid =>
      exact ⟨bounded, rfl, by simp [valid], fun _ => valid, by simp [valid], ended⟩
  | failed invalid useless =>
      have retried : Retried shape candidate _ ⟨candidate, .generationFailed, 1⟩ :=
        retried_of_useless useless candidate 1
      exact ⟨bounded, rfl, by simp [invalid], by simp, by simp [invalid, retried], ended⟩
  | again invalid gives later =>
      obtain ⟨rfl, judged⟩ := later.last
      have retried := retried_of_gives gives candidate 1 judged
      exact ⟨bounded, rfl, by simp [invalid], by simp, by simp [invalid, retried], ended⟩

/-- Correcting data asks the generator once at most, and what it gives, its outcome and its count of
calls tell the truth, whatever the generator does. -/
theorem correct_truthful (shape : Shape) (data : Json) (g : Generator σ) (s : σ) :
    ∃ c s' asked, correct shape data g s = (c, s') ∧
      correct shape data g.noting (s, []) = (c, s', asked) ∧
      Truthful shape g s (unwrapData data) c asked := by
  obtain ⟨out, outcome, asked, s', rounds⟩ := exists_rounds shape g 1 (unwrapData data) s
  obtain ⟨plain, noted⟩ := rounds.correctFrom_eq 0 []
  simp only [Nat.zero_add, List.nil_append] at plain noted
  exact ⟨⟨out, outcome, asked.length⟩, s', asked, plain, noted, rounds.truthful⟩

inductive FollowUp : Option Shape → Json → List String → Prop
  | unknown {v : Json} : FollowUp none v []
  | accepted {shape : Shape} {v data : Json} (valid : shape.validate (unwrapData v) = .ok data) :
      FollowUp (some shape) v []
  | corrected {shape : Shape} {v : Json} {issues : List Issue}
      (invalid : shape.validate (unwrapData v) = .error issues) :
      FollowUp (some shape) v [Prompt.correction (unwrapData v) issues]

theorem FollowUp.mem_iff {shape? : Option Shape} {v : Json} {asked : List String}
    (follows : FollowUp shape? v asked) (p : String) :
    p ∈ asked ↔ ∃ shape issues, shape? = some shape ∧
      shape.validate (unwrapData v) = .error issues ∧
        p = Prompt.correction (unwrapData v) issues := by
  cases follows with
  | unknown => simp
  | accepted valid => simp [valid]
  | corrected invalid => simp [invalid]

theorem FollowUp.bounded {shape? : Option Shape} {v : Json} {asked : List String}
    (follows : FollowUp shape? v asked) : asked.length ≤ 1 := by
  cases follows <;> simp

theorem Rounds.followUp {shape : Shape} {g : Generator σ} {s s' : σ} {v data : Json}
    {outcome : Outcome} {asked : List String}
    (rounds : Rounds shape g 1 (unwrapData v) s data outcome asked s') :
    FollowUp (some shape) v asked := by
  cases rounds with
  | accepted valid => exact .accepted valid
  | failed invalid useless => exact .corrected invalid
  | again invalid gives later =>
      obtain ⟨rfl, -⟩ := later.last
      exact .corrected invalid

theorem corrections_of (shape? : Option Shape) (v : Json) (g : Generator σ) (s : σ)
    (notes : List String) :
    ∃ c s' asked, correctWith shape? v g s = (c, s') ∧
      correctWith shape? v g.noting (s, notes) = (c, s', notes ++ asked) ∧
      FollowUp shape? v asked := by
  cases shape? with
  | none =>
      refine ⟨⟨unwrapData v, .unvalidated, 0⟩, s, [], rfl, ?_, .unknown⟩
      rw [List.append_nil]
      rfl
  | some shape =>
      obtain ⟨data, outcome, asked, s', rounds⟩ := exists_rounds shape g 1 (unwrapData v) s
      obtain ⟨plain, noted⟩ := rounds.correctFrom_eq 0 notes
      exact ⟨_, _, asked, plain, noted, rounds.followUp⟩

end FederatedMock
