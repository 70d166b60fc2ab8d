import Syscore.Proxy.Http

/-!
# The first field of a name

`get` of a header block sees only the first field of a name, in any letter case.
-/

namespace Syscore
namespace Proxy

namespace HTTPHeader

/-- The field names agree in the eyes of `HTTPHeader`. -/
def SameName (left right : Text) : Prop := lower left = lower right

instance (left right : Text) : Decidable (SameName left right) :=
  inferInstanceAs (Decidable (lower left = lower right))

/-- The values of the fields of a name, in order. -/
def values (headers : HTTPHeader) (name : Text) : List Text :=
  (headers.headers.filter fun h => SameName h.1 name).map Prod.snd

/-- The first field of this name has this value. -/
def FirstField (headers : HTTPHeader) (name value : Text) : Prop :=
  ∃ before spelled after, headers.headers = before ++ (spelled, value) :: after ∧
    SameName spelled name ∧ ∀ h ∈ before, ¬ SameName h.1 name

variable {headers : HTTPHeader} {name value : Text}

theorem has_iff : headers.has name = true ↔ ∃ h ∈ headers.headers, SameName h.1 name := by
  rw [has, List.any_eq_true]
  exact exists_congr fun h => and_congr_right fun _ => decide_eq_true_iff

/-- `get` yields the first of the values. -/
theorem get_eq_head (headers : HTTPHeader) (name : Text) :
    headers.get name = (headers.values name).head?.getD [] := by
  have same : (headers.headers.find? fun h => lower h.1 = lower name) =
      headers.headers.find? fun h => SameName h.1 name := rfl
  rw [get, same, values, List.head?_map, List.head?_filter]
  cases headers.headers.find? fun h => SameName h.1 name with
  | none => rfl
  | some h => rfl

/-- The first field is the one that `get` finds. -/
theorem FirstField.get (first : FirstField headers name value) :
    headers.has name = true ∧ headers.get name = value := by
  obtain ⟨before, spelled, after, shape, same, others⟩ := first
  have earlier : before.find? (fun h => lower h.1 = lower name) = none :=
    List.find?_eq_none.mpr fun h inside found => others h inside (of_decide_eq_true found)
  have here : headers.headers.find? (fun h => lower h.1 = lower name) = some (spelled, value) := by
    have own : lower spelled = lower name := same
    rw [shape, List.find?_append, earlier]
    simp [own]
  constructor
  · refine has_iff.mpr ⟨(spelled, value), ?_, same⟩
    rw [shape]
    exact List.mem_append_right before List.mem_cons_self
  · rw [HTTPHeader.get, here]

/-- A name that occurs has a first field. -/
theorem exists_firstField (present : headers.has name = true) :
    ∃ value, FirstField headers name value := by
  obtain ⟨h, inside, same⟩ := has_iff.mp present
  cases found : headers.headers.find? (fun h => lower h.1 = lower name) with
  | none => exact absurd (decide_eq_true same) (List.find?_eq_none.mp found h inside)
  | some field =>
      obtain ⟨own, before, after, shape, others⟩ := List.find?_eq_some_iff_append.mp found
      refine ⟨field.2, before, field.1, after, shape, of_decide_eq_true own,
        fun h inside same => ?_⟩
      simpa [show lower h.1 = lower name from same] using others h inside

/-- The first field of a name is a field of this name. -/
theorem FirstField.mem (first : FirstField headers name value) :
    ∃ h ∈ headers.headers, SameName h.1 name ∧ h.2 = value := by
  obtain ⟨before, spelled, after, shape, same, _⟩ := first
  refine ⟨(spelled, value), ?_, same, rfl⟩
  rw [shape]
  exact List.mem_append_right before List.mem_cons_self

end HTTPHeader

end Proxy
end Syscore
