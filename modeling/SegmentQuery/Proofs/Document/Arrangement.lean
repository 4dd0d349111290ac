import Mathlib.Data.List.Perm.Basic
import SegmentQuery.Document.Filter

namespace SegmentQuery.Json

/-- Members that are written, in any order, without some that have default values, and with any others whose keys are
none of the written ones. -/
def Rearranges (defaults written ms : List (String × Json)) : Prop :=
  ∃ omitted added, omitted ⊆ defaults ∧ (∀ m ∈ added, m.1 ∉ written.map Prod.fst) ∧
    (ms ++ omitted).Perm (written ++ added)

theorem valuesOf_append (key : String) (ms others : List (String × Json)) :
    valuesOf key (ms ++ others) = valuesOf key ms ++ valuesOf key others := by
  simp [valuesOf]

theorem valuesOf_perm {ms others : List (String × Json)} (h : ms.Perm others) (key : String) :
    (valuesOf key ms).Perm (valuesOf key others) :=
  (h.filter _).map _

theorem mem_valuesOf_iff {key : String} {v : Json} {ms : List (String × Json)} :
    v ∈ valuesOf key ms ↔ (key, v) ∈ ms := by
  simp [valuesOf]

/-- A key with one value is the key of one member. -/
theorem exists_append_of_valuesOf {key : String} {v : Json} {ms : List (String × Json)} (h : valuesOf key ms = [v]) :
    ∃ before after, ms = before ++ (key, v) :: after ∧ (∀ m ∈ before, m.1 ≠ key) ∧ ∀ m ∈ after, m.1 ≠ key := by
  have hnone {others : List (String × Json)} (hothers : valuesOf key others = []) : ∀ m ∈ others, m.1 ≠ key := by
    simpa [valuesOf] using hothers
  obtain ⟨before, after, rfl⟩ := List.append_of_mem (mem_valuesOf_iff.mp (by simp [h] : v ∈ valuesOf key ms))
  have hcons : valuesOf key ((key, v) :: after) = v :: valuesOf key after := by simp [valuesOf]
  rw [valuesOf_append, hcons] at h
  obtain ⟨hbefore, hafter⟩ : valuesOf key before = [] ∧ valuesOf key after = [] := by
    rcases List.append_eq_singleton_iff.mp h with ⟨hbefore, hafter⟩ | ⟨-, hnil⟩
    · exact ⟨hbefore, (List.cons.inj hafter).2⟩
    · cases hnil
  exact ⟨before, after, rfl, hnone hbefore, hnone hafter⟩

namespace Rearranges

variable {defaults written ms : List (String × Json)}

theorem refl (defaults written : List (String × Json)) : Rearranges defaults written written :=
  ⟨[], [], by simp, by simp, .refl _⟩

variable {key : String} {v : Json}

/-- A value that is written once stands there still, or it is a default. -/
theorem valuesOf_eq (h : Rearranges defaults written ms) (hkey : valuesOf key written = [v]) :
    valuesOf key ms = [v] ∨ valuesOf key ms = [] ∧ (key, v) ∈ defaults := by
  obtain ⟨omitted, added, homitted, hadded, hms⟩ := h
  have hwritten : (key, v) ∈ written := mem_valuesOf_iff.mp (by simp [hkey])
  have hnone : valuesOf key added = [] := by
    rw [List.eq_nil_iff_forall_not_mem]
    intro w hw
    exact hadded _ (mem_valuesOf_iff.mp hw) (List.mem_map.mpr ⟨_, hwritten, rfl⟩)
  have hvalues := valuesOf_perm hms key
  rw [valuesOf_append, valuesOf_append, hkey, hnone, List.append_nil, List.perm_singleton,
    List.append_eq_singleton_iff] at hvalues
  rcases hvalues with ⟨hms, homit⟩ | ⟨hms, -⟩
  · exact .inr ⟨hms, homitted (mem_valuesOf_iff.mp (by simp [homit]))⟩
  · exact .inl hms

/-- A value without a default stands there still. -/
theorem valuesOf_eq_singleton (h : Rearranges defaults written ms) (hkey : valuesOf key written = [v])
    (hdefaults : key ∉ defaults.map Prod.fst) : valuesOf key ms = [v] := by
  rcases h.valuesOf_eq hkey with hvalues | ⟨-, hdefault⟩
  · exact hvalues
  · exact absurd (List.mem_map.mpr ⟨_, hdefault, rfl⟩) hdefaults

theorem required_eq (h : Rearranges defaults written ms) (hkey : valuesOf key written = [v])
    (hdefaults : key ∉ defaults.map Prod.fst) : required key ms = some v := by
  rw [required, optional, h.valuesOf_eq_singleton hkey hdefaults]
  rfl

/-- A value with a default is read as what it is, even if it is missing. -/
theorem exists_optional {α : Type} {read : Json → Option α} {default : α} (h : Rearranges defaults written ms)
    (hkey : valuesOf key written = [v]) (hdefault : (key, v) ∈ defaults → read v = some default) :
    ∃ found, optional key ms = some found ∧ orDefault default read found = read v := by
  rcases h.valuesOf_eq hkey with hvalues | ⟨hvalues, hmem⟩
  · exact ⟨some v, by rw [optional, hvalues], rfl⟩
  · exact ⟨none, by rw [optional, hvalues], (hdefault hmem).symm⟩

end Rearranges

end SegmentQuery.Json
