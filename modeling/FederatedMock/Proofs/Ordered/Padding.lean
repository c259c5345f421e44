namespace FederatedMock

/-- The elements of one list are related to those of the other in order, which has extra elements
among them. -/
inductive Pads {α : Type} (Extra : α → Prop) (r : α → α → Prop) : List α → List α → Prop
  | nil : Pads Extra r [] []
  | keep {a b : α} {as bs : List α} (same : r a b) (rest : Pads Extra r as bs) :
      Pads Extra r (a :: as) (b :: bs)
  | pad {b : α} {as bs : List α} (extra : Extra b) (rest : Pads Extra r as bs) :
      Pads Extra r as (b :: bs)

namespace Pads

variable {α β : Type} {Extra : α → Prop} {r : α → α → Prop} {as bs as' bs' : List α}

theorem append (first : Pads Extra r as bs) (second : Pads Extra r as' bs') :
    Pads Extra r (as ++ as') (bs ++ bs') := by
  induction first with
  | nil => exact second
  | keep same rest ih => exact .keep same ih
  | pad extra rest ih => exact .pad extra ih

theorem reverse (pads : Pads Extra r as bs) : Pads Extra r as.reverse bs.reverse := by
  induction pads with
  | nil => exact .nil
  | keep same rest ih =>
      rw [List.reverse_cons, List.reverse_cons]
      exact ih.append (.keep same .nil)
  | pad extra rest ih =>
      rw [List.reverse_cons]
      simpa only [List.append_nil] using ih.append (.pad extra .nil)

theorem map {Extra' : β → Prop} {r' : β → β → Prop} {f : α → β} (pads : Pads Extra r as bs)
    (extra : ∀ a, Extra a → Extra' (f a)) (same : ∀ a b, r a b → r' (f a) (f b)) :
    Pads Extra' r' (as.map f) (bs.map f) := by
  induction pads with
  | nil => exact .nil
  | keep here rest ih => exact .keep (same _ _ here) ih
  | pad here rest ih => exact .pad (extra _ here) ih

theorem filter {keep : α → Bool} (pads : Pads Extra r as bs)
    (same : ∀ a b, r a b → keep a = keep b) :
    Pads Extra r (as.filter keep) (bs.filter keep) := by
  induction pads with
  | nil => exact .nil
  | @keep a b as bs here rest ih =>
      cases kept : keep b with
      | true => simpa [kept, same a b here] using ih.keep here
      | false => simpa [kept, same a b here] using ih
  | @pad b as bs here rest ih =>
      cases kept : keep b with
      | true => simpa [kept] using ih.pad here
      | false => simpa [kept] using ih

theorem of_nil (pads : Pads Extra r [] bs) : ∀ b ∈ bs, Extra b := by
  induction bs with
  | nil => exact fun _ mem => (List.not_mem_nil mem).elim
  | cons b rest ih =>
      cases pads with
      | pad extra rest => exact List.forall_mem_cons.mpr ⟨extra, ih rest⟩

theorem of_cons {a : α} (pads : Pads Extra r (a :: as) bs) :
    ∃ before b rest, bs = before ++ b :: rest ∧ (∀ e ∈ before, Extra e) ∧ r a b ∧
      Pads Extra r as rest := by
  induction bs with
  | nil => cases pads
  | cons b bs ih =>
      cases pads with
      | keep same rest => exact ⟨[], b, bs, rfl, fun _ mem => (List.not_mem_nil mem).elim, same, rest⟩
      | pad extra rest =>
          obtain ⟨before, b', rest', rfl, extras, same, later⟩ := ih rest
          exact ⟨b :: before, b', rest', rfl, List.forall_mem_cons.mpr ⟨extra, extras⟩, same, later⟩

end Pads

end FederatedMock
