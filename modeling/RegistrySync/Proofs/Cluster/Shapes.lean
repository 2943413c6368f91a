import RegistrySync.Cluster.ImageSettings
import RegistrySync.Cluster.MirrorPolicy
import RegistrySync.Proofs.Document.Reader
import RegistrySync.Proofs.Text.Timestamp

/-!
What is declared of cluster objects: the shapes of mirror policies and image settings, which their
readers fit.
-/

namespace RegistrySync.Cluster

open Value Shape

/-! ### Metadata -/

namespace Metadata

/-- What is declared of metadata. Most of it must have a type and is not made use of, but that does
not set it free to change. -/
def declared : List String :=
  types.map Prod.fst

def shape : Shape :=
  .named declared

theorem steady_isTime : Steady isTime := by
  intro v w hedit
  simp only [isTime, hedit.text?_eq]

theorem steady_types : ∀ field ∈ types, Steady field.2 := by
  have howner : Steady (isRecordOf ownerTypes) := by
    apply steady_isRecordOf (by decide)
    simp [ownerTypes, steady_text?.takenBy, steady_bool?.takenBy]
  have hmanager : Steady (isRecordOf managerTypes) := by
    apply steady_isRecordOf (by decide)
    simp [managerTypes, steady_text?.takenBy, steady_isTime, steady_isKept]
  simp [types, steady_text?.takenBy, steady_integer?.takenBy, steady_textMap?.takenBy,
    steady_text?.listOf?.takenBy, steady_isTime, howner.isListOf, hmanager.isListOf, texts?]

theorem ofValue?_edit_object {ms ns : List (String × Value)}
    (h : shape.Edit (.object ms) (.object ns)) : ofValue? (.object ms) = ofValue? (.object ns) := by
  have htyped : areTyped types ms = areTyped types ns := areTyped_edit (by decide) steady_types h
  have htext : ∀ name ∈ declared, lastOptional? text? name ms = lastOptional? text? name ns :=
    fun _ => steady_text?.lastOptional?_edit (by decide) h
  simp only [ofValue?, members?, Option.bind_eq_bind, Option.bind_some, htyped,
    htext "name" (by decide), htext "generateName" (by decide), htext "namespace" (by decide)]

/-- Metadata is decoded unless a member has another type than the declared one. -/
theorem isSome_ofValue? (ms : List (String × Value))
    : (ofValue? (.object ms)).isSome = areTyped types ms := by
  cases htyped : areTyped types ms with
  | false => simp [ofValue?, members?, htyped]
  | true =>
    have htext : ∀ name, (name, takenBy text?) ∈ types →
        ∃ text, lastOptional? text? name ms = some text := by
      intro name hname
      rw [← Option.isSome_iff_exists, isSome_lastOptional?]
      exact List.all_eq_true.mp htyped _ hname
    obtain ⟨_, hname⟩ := htext "name" (by simp [types])
    obtain ⟨_, hstem⟩ := htext "generateName" (by simp [types])
    obtain ⟨_, hnamespace⟩ := htext "namespace" (by simp [types])
    simp [ofValue?, members?, htyped, hname, hstem, hnamespace]

example : ofValue? (.object [("name", .text "p"), ("creationTimestamp", .number "5")]) = .none := by
  decide

/-- Any object with a name and the time at which it was made, as it is mostly written. -/
theorem ofValue?_named_at (name : String) {year month day hour minute second : Nat}
    (hyear : year < 10000) (hmonth : 1 ≤ month ∧ month ≤ 12)
    (hday : 1 ≤ day ∧ day ≤ Timestamp.daysIn year month) (hhour : hour ≤ 23) (hminute : minute ≤ 59)
    (hsecond : second ≤ 60)
    : ofValue? (.object [("name", .text name), ("creationTimestamp",
        .text (String.ofList (Timestamp.written year month day hour minute second)))]) =
          some ⟨some name, .none, .none⟩ := by
  have htime := Timestamp.accepts_written hyear hmonth hday hhour hminute hsecond
  simp [ofValue?, members?, areTyped, types, given, isNullOr, isPresent?, isTime, takenBy, text?,
    lastOptional?, optional?, htime]

theorem fits : shape.Fits ofValue? where
  edited hedit := by
    rcases hedit.object_or_array with ⟨ms, ns, rfl, rfl⟩ | ⟨_, _, _, _, rfl, rfl, -⟩
    . exact ofValue?_edit_object hedit
    . rfl
  spoiled hspoiled := by
    cases hspoiled with
    | record => rfl
    | member _ hspoiled =>
      rw [← named, member_named] at hspoiled
      cases hspoiled

end Metadata

/-- The shape of a cluster object with a spec of a given shape. -/
def objectShape (spec : Shape) : Shape :=
  .record [("metadata", none, Metadata.shape), ("spec", none, spec)]

/-! ### Mirror policies -/

namespace MirrorSource

def shape : Shape :=
  .record [("source", none, .text), ("mirrors", some (.array []), .list .text)]

theorem fits : shape.Fits ofValue? :=
  fits_record (by decide) <|
    .required fits_text fun _ => .readOr fits_texts rfl fun _ => covers_nil _

end MirrorSource

namespace MirrorPolicy

def specShape : Shape :=
  .record [("repositoryDigestMirrors", some (.array []), .list MirrorSource.shape)]

def shape : Shape := objectShape specShape

theorem fits_spec : specShape.Fits sourcesOfSpec? :=
  fits_record (by decide) (.only_readOr MirrorSource.fits.list rfl)

theorem fits : shape.Fits ofValue? :=
  fits_record (by decide) <|
    .required Metadata.fits fun _ => .required fits_spec fun _ => covers_nil _

end MirrorPolicy

/-! ### Image settings -/

namespace RegistrySources

def declared : List String :=
  ["allowedRegistries", "blockedRegistries", "insecureRegistries"]

def shape : Shape :=
  .record (declared.map fun name => (name, some (.array []), .list .text))

theorem fits : shape.Fits ofValue? :=
  fits_record (by decide) <|
    .readOr fits_texts rfl fun _ => .readOr fits_texts rfl fun _ => .readOr fits_texts rfl fun _ =>
      covers_nil _

end RegistrySources

namespace ImageSettings

def specShape : Shape :=
  .record [("registrySources", some (.object []), RegistrySources.shape)]

def shape : Shape := objectShape specShape

theorem fits_spec : specShape.Fits sourcesOfSpec? :=
  fits_record (by decide) (.only_readOr RegistrySources.fits rfl)

theorem fits : shape.Fits ofValue? :=
  fits_record (by decide) <|
    .required Metadata.fits fun _ => .required fits_spec fun _ => covers_nil _

end ImageSettings
end RegistrySync.Cluster
