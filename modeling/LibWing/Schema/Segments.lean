import LibWing.Lib.Path
import LibWing.Schema.Live

/-!
# A model is a run of segments

`resolve_candidates` looks for a model in a path as a substring between slashes.

* `containsStr_needle_iff` : that finds it exactly where its segments are a run of those of the
  path, with segments before and after it.
-/

namespace LibWing

open Path

/-- The segments of the model are a run of those of the path, inside it. -/
def RunOfSegments (fullname model : String) : Prop :=
  ∃ before after : List String, before ≠ [] ∧ after ≠ [] ∧
    fullname.splitOn "/" = before ++ model.splitOn "/" ++ after

theorem containsStr_iff {s t : String} : containsStr s t = true ↔ ∃ a b, s = a ++ (t ++ b) := by
  rw [containsStr, decide_eq_true_eq]
  constructor
  · rintro ⟨a, b, h⟩
    refine ⟨String.ofList a, String.ofList b, ?_⟩
    rw [← String.toList_inj, ← h]
    simp
  · rintro ⟨a, b, rfl⟩
    exact ⟨a.toList, b.toList, by simp⟩

/-- **A model is found in a path** exactly as a run of its segments. -/
theorem containsStr_needle_iff (fullname model : String) :
    containsStr fullname (needle model) = true ↔ RunOfSegments fullname model := by
  rw [containsStr_iff]
  constructor
  · rintro ⟨a, b, rfl⟩
    refine ⟨a.splitOn "/", b.splitOn "/", splitOn_slash_ne_nil a, splitOn_slash_ne_nil b, ?_⟩
    have hpath : a ++ (needle model ++ b) = a ++ ("/" ++ (model ++ ("/" ++ b))) := by
      simp only [needle, String.append_assoc]
    rw [hpath, splitOn_slash_append, splitOn_slash_append, List.append_assoc]
  · rintro ⟨before, after, hbefore, hafter, hsegments⟩
    have hslash : ∀ segment ∈ before ++ model.splitOn "/" ++ after, '/' ∉ segment.toList :=
      fun segment h => slash_notMem_of_mem_splitOn (s := fullname) (hsegments ▸ h)
    obtain ⟨a, rfl⟩ := exists_splitOn_eq hbefore fun segment h => hslash segment (by simp [h])
    obtain ⟨b, rfl⟩ := exists_splitOn_eq hafter fun segment h => hslash segment (by simp [h])
    refine ⟨a, b, splitOn_slash_inj ?_⟩
    have hpath : a ++ (needle model ++ b) = a ++ ("/" ++ (model ++ ("/" ++ b))) := by
      simp only [needle, String.append_assoc]
    rw [hsegments, hpath, splitOn_slash_append, splitOn_slash_append, List.append_assoc]

end LibWing
