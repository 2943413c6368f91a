import RegistrySync.Proofs.Configuration.LastWriter

/-!
The mirrors of registries, whether they have an entry or not: what changes that follow one another
leave them at.
-/

namespace RegistrySync

namespace Change

def IsAboutMirrors : Change → Prop
  | .setMirrors _ _ | .clearMirrors _ | .clearAllMirrors => True
  | .setRegistryPolicy _ _ _ | .replaceCertificates _ => False

theorem mirrors?_eq_none {change : Change} (h : ¬ change.IsAboutMirrors) (r : String)
    : change.mirrors? r = none := by
  cases change with
  | setRegistryPolicy _ _ _ => rfl
  | replaceCertificates _ => rfl
  | setMirrors _ _ => exact absurd trivial h
  | clearMirrors _ => exact absurd trivial h
  | clearAllMirrors => exact absurd trivial h

end Change

namespace History

variable (h more : History) (r : String)

/-- What the changes leave the mirrors of a registry at, if they are about them. -/
def written? : Option (List String) :=
  (h.filterMap (Change.mirrors? r)).getLast?

theorem mirrors_eq_getD_written? : h.mirrors r = (h.written? r).getD [] := by
  rw [mirrors, written?, List.getLastD_eq_getLast?]

theorem written?_append : written? (h ++ more) r = (more.written? r).or (h.written? r) := by
  rw [written?, List.filterMap_append, List.getLast?_append]
  rfl

theorem mirrors_append : mirrors (h ++ more) r = (more.written? r).getD (h.mirrors r) := by
  rw [mirrors_eq_getD_written?, written?_append, mirrors_eq_getD_written?]
  cases more.written? r <;> rfl

end History

namespace Configuration

/-- None if the registry has no entry. -/
def mirrors (c : Configuration) (registry : String) : List String :=
  ((c.registries.find? registry).map (·.mirrors)).getD []

theorem Reads.mirrors_eq {c : Configuration} {h : History} (hreads : c.Reads h) (r : String)
    : c.mirrors r = h.mirrors r := by
  by_cases hr : r ∈ h.mentioned
  . rw [mirrors, hreads.find? r hr]
    rfl
  . rw [mirrors, hreads.find?_eq_none r hr, h.mirrors_eq_nil r hr]
    rfl

theorem mirrors_after (h : History) (r : String) : (after h).mirrors r = h.mirrors r :=
  (reads_after h).mirrors_eq r

end Configuration
end RegistrySync
