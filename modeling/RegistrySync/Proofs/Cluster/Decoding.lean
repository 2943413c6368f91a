import RegistrySync.Proofs.Cluster.Shapes

/-!
Mirror policies and image settings are decoded from their declared members alone, and what is
decoded has the lists of these members, item by item.
-/

namespace RegistrySync.Cluster

open Value Shape

/-! ### Lists -/

/-- The values are texts, just these in this order. -/
def AreTexts (items : List Value) (texts : List String) : Prop :=
  List.Forall₂ (fun v s => v.text? = some s) items texts

theorem forall₂_of_gives {α : Type} {read : Value → Option α} {v : Value} {names : List String}
    {name : String} {items : List Value} {member : String → Option Value} {l : List α}
    (h : v.Gives names name (.array items)) (hnames : names.Nodup) (hname : name ∈ names)
    (hrecord : v.record? names = some member)
    (hread : readOr [] (listOf? read) (member name) = some l)
    : List.Forall₂ (fun v a => read v = some a) items l := by
  rw [h.eq_some hnames hname hrecord] at hread
  exact Sequence.forall₂_of_mapM_eq_some hread

theorem texts?_map (texts : List String) : texts? (.array (texts.map .text)) = some texts := by
  have hread : ∀ s, text? (.text s) = some s := fun _ => rfl
  exact Sequence.mapM_map_eq_some hread texts

namespace MirrorSource

/-- A value says what the source is and, item by item, what its mirrors are. -/
structure SaidBy (v : Value) (s : MirrorSource) : Prop where
  source {x : Value} (h : v.Gives ["source", "mirrors"] "source" x) : x.text? = some s.source
  mirrors {items : List Value} (h : v.Gives ["source", "mirrors"] "mirrors" (.array items))
    : AreTexts items s.mirrors

theorem saidBy_of_ofValue? {v : Value} {s : MirrorSource} (h : ofValue? v = some s)
    : SaidBy v s := by
  obtain ⟨member, hrecord, h⟩ := Option.bind_eq_some_iff.mp h
  obtain ⟨x, hx, h⟩ := Option.bind_eq_some_iff.mp h
  obtain ⟨source, hsource, h⟩ := Option.bind_eq_some_iff.mp h
  obtain ⟨mirrors, hmirrors, h⟩ := Option.bind_eq_some_iff.mp h
  obtain rfl := Option.some.inj h
  constructor
  case source =>
    intro y hy
    rw [hy.eq_some (by decide) (by decide) hrecord] at hx
    obtain rfl := Option.some.inj hx
    exact hsource
  case mirrors => exact fun h => forall₂_of_gives h (by decide) (by decide) hrecord hmirrors

def value (s : MirrorSource) : Value :=
  .object [("source", .text s.source), ("mirrors", .array (s.mirrors.map .text))]

theorem ofValue?_value (s : MirrorSource) : ofValue? s.value = some s := by
  simp [ofValue?, value, record?, given, readOr, texts?_map, text?]

end MirrorSource

namespace RegistrySources

structure SaidBy (v : Value) (s : RegistrySources) : Prop where
  allowed {items : List Value} (h : v.Gives declared "allowedRegistries" (.array items))
    : AreTexts items s.allowed
  blocked {items : List Value} (h : v.Gives declared "blockedRegistries" (.array items))
    : AreTexts items s.blocked
  insecure {items : List Value} (h : v.Gives declared "insecureRegistries" (.array items))
    : AreTexts items s.insecure

theorem saidBy_of_ofValue? {v : Value} {s : RegistrySources} (h : ofValue? v = some s)
    : SaidBy v s := by
  obtain ⟨member, hrecord, h⟩ := Option.bind_eq_some_iff.mp h
  obtain ⟨allowed, hallowed, h⟩ := Option.bind_eq_some_iff.mp h
  obtain ⟨blocked, hblocked, h⟩ := Option.bind_eq_some_iff.mp h
  obtain ⟨insecure, hinsecure, h⟩ := Option.bind_eq_some_iff.mp h
  obtain rfl := Option.some.inj h
  constructor
  case allowed => exact fun h => forall₂_of_gives h (by decide) (by decide) hrecord hallowed
  case blocked => exact fun h => forall₂_of_gives h (by decide) (by decide) hrecord hblocked
  case insecure => exact fun h => forall₂_of_gives h (by decide) (by decide) hrecord hinsecure

def value (s : RegistrySources) : Value :=
  .object [("allowedRegistries", .array (s.allowed.map .text)),
    ("blockedRegistries", .array (s.blocked.map .text)),
    ("insecureRegistries", .array (s.insecure.map .text))]

theorem ofValue?_value (s : RegistrySources) : ofValue? s.value = some s := by
  simp [ofValue?, value, record?, given, readOr, texts?_map]

end RegistrySources

/-! ### Cluster objects -/

theorem exists_spec_of_eq_some {α β : Type} (make : Metadata → α → β) {read : Value → Option α}
    {v spec : Value} {b : β} (hspec : v.Gives ["metadata", "spec"] "spec" spec)
    (h : (do
      let member ← v.record? ["metadata", "spec"]
      return make (← Metadata.ofValue? (← member "metadata")) (← read (← member "spec"))) = some b)
    : ∃ metadata a, read spec = some a ∧ b = make metadata a := by
  obtain ⟨member, hrecord, h⟩ := Option.bind_eq_some_iff.mp h
  obtain ⟨_, -, h⟩ := Option.bind_eq_some_iff.mp h
  obtain ⟨metadata, -, h⟩ := Option.bind_eq_some_iff.mp h
  obtain ⟨x, hx, h⟩ := Option.bind_eq_some_iff.mp h
  obtain ⟨a, ha, h⟩ := Option.bind_eq_some_iff.mp h
  obtain rfl := Option.some.inj h
  rw [hspec.eq_some (by decide) (by decide) hrecord] at hx
  obtain rfl := Option.some.inj hx
  exact ⟨metadata, a, ha, rfl⟩

namespace MirrorPolicy

theorem forall₂_of_ofValue? {v spec : Value} {items : List Value} {p : MirrorPolicy}
    (h : ofValue? v = some p) (hspec : v.Gives ["metadata", "spec"] "spec" spec)
    (hitems : spec.Gives ["repositoryDigestMirrors"] "repositoryDigestMirrors" (.array items))
    : List.Forall₂ MirrorSource.SaidBy items p.sources := by
  obtain ⟨_, sources, hsources, rfl⟩ := exists_spec_of_eq_some mk hspec h
  obtain ⟨member, hrecord, hsources⟩ := Option.bind_eq_some_iff.mp hsources
  exact (forall₂_of_gives hitems (by decide) (by decide) hrecord hsources).imp fun _ _ =>
    MirrorSource.saidBy_of_ofValue?

def value (metadata : Value) (sources : List MirrorSource) : Value :=
  .object [("metadata", metadata), ("spec",
    .object [("repositoryDigestMirrors", .array (sources.map MirrorSource.value))])]

theorem ofValue?_value {v : Value} {metadata : Metadata} (h : Metadata.ofValue? v = some metadata)
    (sources : List MirrorSource) : ofValue? (value v sources) = some ⟨metadata, sources⟩ := by
  have hsources : (sources.map MirrorSource.value).mapM MirrorSource.ofValue? = some sources :=
    Sequence.mapM_map_eq_some MirrorSource.ofValue?_value sources
  simp [ofValue?, sourcesOfSpec?, value, record?, given, readOr, listOf?, elements?, h, hsources]

end MirrorPolicy

namespace ImageSettings

theorem saidBy_of_ofValue? {v spec x : Value} {i : ImageSettings} (h : ofValue? v = some i)
    (hspec : v.Gives ["metadata", "spec"] "spec" spec)
    (hsources : spec.Gives ["registrySources"] "registrySources" x)
    : RegistrySources.SaidBy x i.sources := by
  obtain ⟨_, sources, hread, rfl⟩ := exists_spec_of_eq_some mk hspec h
  obtain ⟨member, hrecord, hread⟩ := Option.bind_eq_some_iff.mp hread
  rw [hsources.eq_some (by decide) (by decide) hrecord] at hread
  exact RegistrySources.saidBy_of_ofValue? hread

def value (metadata : Value) (sources : RegistrySources) : Value :=
  .object [("metadata", metadata), ("spec", .object [("registrySources", sources.value)])]

theorem ofValue?_value {v : Value} {metadata : Metadata} (h : Metadata.ofValue? v = some metadata)
    (sources : RegistrySources) : ofValue? (value v sources) = some ⟨metadata, sources⟩ := by
  simp [ofValue?, sourcesOfSpec?, value, record?, given, readOr, h, RegistrySources.ofValue?_value]

end ImageSettings

/-- Any number of edits, made or undone, leaves what is decoded as it is, also where nothing is.
Then come the values that are refused, and the lists: those of a value are decoded item by item, and
any lists may be written. -/
theorem decodes_declared_members_only
    : (∀ v w, Relation.EqvGen MirrorPolicy.shape.Edit v w →
        MirrorPolicy.ofValue? v = MirrorPolicy.ofValue? w) ∧
      (∀ v w, Relation.EqvGen ImageSettings.shape.Edit v w →
        ImageSettings.ofValue? v = ImageSettings.ofValue? w) ∧
      (∀ v, MirrorPolicy.shape.Spoiled v → MirrorPolicy.ofValue? v = none) ∧
      (∀ v, ImageSettings.shape.Spoiled v → ImageSettings.ofValue? v = none) ∧
      (∀ v p spec items, MirrorPolicy.ofValue? v = some p →
        v.Gives ["metadata", "spec"] "spec" spec →
        spec.Gives ["repositoryDigestMirrors"] "repositoryDigestMirrors" (.array items) →
        List.Forall₂ MirrorSource.SaidBy items p.sources) ∧
      (∀ v i spec x, ImageSettings.ofValue? v = some i →
        v.Gives ["metadata", "spec"] "spec" spec →
        spec.Gives ["registrySources"] "registrySources" x →
        RegistrySources.SaidBy x i.sources) ∧
      ∀ v metadata, Metadata.ofValue? v = some metadata →
        (∀ sources, MirrorPolicy.ofValue? (MirrorPolicy.value v sources) =
          some ⟨metadata, sources⟩) ∧
        ∀ sources, ImageSettings.ofValue? (ImageSettings.value v sources) =
          some ⟨metadata, sources⟩ := by
  refine ⟨?_, ?_, ?_, ?_, ?_, ?_, ?_⟩
  . exact fun _ _ => MirrorPolicy.fits.eq_of_eqvGen
  . exact fun _ _ => ImageSettings.fits.eq_of_eqvGen
  . exact fun _ => MirrorPolicy.fits.spoiled
  . exact fun _ => ImageSettings.fits.spoiled
  . exact fun _ _ _ _ => MirrorPolicy.forall₂_of_ofValue?
  . exact fun _ _ _ _ => ImageSettings.saidBy_of_ofValue?
  . exact fun _ _ h => ⟨MirrorPolicy.ofValue?_value h, ImageSettings.ofValue?_value h⟩

/-- A kind that is no text is added, the members of the object, of its owner and of its first item
are turned around, and the second item does without its mirrors. -/
theorem decodes_declared_members_only_of_full
    : let metadataOf (owner : Value) : Value :=
        .object [("name", .text "p"), ("creationTimestamp", .text "2024-01-15T10:00:00Z"),
          ("ownerReferences", .array [owner])]
      let owner : Value := .object [("kind", .text "K"), ("controller", .bool true)]
      let turnedOwner : Value := .object [("controller", .bool true), ("kind", .text "K")]
      let items : List Value :=
        [.object [("mirrors", .array [.text "m", .text "n"]), ("source", .text "s")],
          .object [("source", .text "t")]]
      let spec : Value := .object [("repositoryDigestMirrors", .array items)]
      let full : Value :=
        .object [("kind", .number "5"), ("spec", spec), ("metadata", metadataOf turnedOwner)]
      let sources : List MirrorSource := [⟨"s", ["m", "n"]⟩, ⟨"t", []⟩]
      let x : Value := .object [("blockedRegistries", .array [.text "a", .number "5"])]
      let settings : Value :=
        .object [("metadata", metadataOf owner), ("spec", .object [("registrySources", x)])]
      Relation.EqvGen MirrorPolicy.shape.Edit (MirrorPolicy.value (metadataOf owner) sources) full ∧
        MirrorPolicy.ofValue? full = some ⟨⟨some "p", none, none⟩, sources⟩ ∧
        List.Forall₂ MirrorSource.SaidBy items sources ∧
        ImageSettings.shape.Spoiled settings ∧ ImageSettings.ofValue? settings = none := by
  intro metadataOf owner turnedOwner items spec full sources x settings
  obtain ⟨hedited, -, -, hspoiled, hitems, -, hwritten⟩ := decodes_declared_members_only
  let first : Value := .object [("source", .text "s"), ("mirrors", .array [.text "m", .text "n"])]
  let turned : Value := .object [("mirrors", .array [.text "m", .text "n"]), ("source", .text "s")]
  let second : Value := .object [("source", .text "t"), ("mirrors", .array [])]
  let specOf (item : Value) : Value := .object [("repositoryDigestMirrors", .array [item, second])]
  let withKind (owner item : Value) : Value :=
    .object [("kind", .number "5"), ("spec", specOf item), ("metadata", metadataOf owner)]
  have hturn : MirrorPolicy.shape.Edit (MirrorPolicy.value (metadataOf owner) sources)
      (.object [("spec", specOf first), ("metadata", metadataOf owner)]) :=
    .reorder (given_eq_of_perm (.swap _ _ _) (by decide))
  have hkind : MirrorPolicy.shape.Edit
      (.object [("spec", specOf first), ("metadata", metadataOf owner)])
      (withKind owner first) := .add [] _ (by decide)
  have howner : MirrorPolicy.shape.Edit (withKind owner first) (withKind turnedOwner first) :=
    .member [_, _] [] <| .member [_, _] [] <| .item [] [] <|
      .reorder (given_eq_of_perm (.swap _ _ _) (by decide))
  have hitem : MirrorPolicy.shape.Edit (withKind turnedOwner first) (withKind turnedOwner turned) :=
    .member [_] [_] <| .member [] [] <| .item [] [_] <|
      .reorder (given_eq_of_perm (.swap _ _ _) (by decide))
  have hmirrors : MirrorPolicy.shape.Edit full (withKind turnedOwner turned) :=
    .member [_] [_] <| .member [] [] <| .item [_] [] <|
      .fill [_] [] (List.mem_cons_of_mem _ List.mem_cons_self) (by decide)
  have hedits : Relation.EqvGen MirrorPolicy.shape.Edit
      (MirrorPolicy.value (metadataOf owner) sources) full :=
    .trans _ _ _ (.rel _ _ hturn) <| .trans _ _ _ (.rel _ _ hkind) <|
      .trans _ _ _ (.rel _ _ howner) <| .trans _ _ _ (.rel _ _ hitem) <|
        .symm _ _ (.rel _ _ hmirrors)
  have hfull : MirrorPolicy.ofValue? full = some ⟨⟨some "p", none, none⟩, sources⟩ :=
    (hedited _ _ hedits).symm.trans ((hwritten (metadataOf owner) _ (by decide)).1 sources)
  have hspec : full.Gives ["metadata", "spec"] "spec" spec :=
    .byName (List.mem_cons_of_mem _ List.mem_cons_self)
  have hnumber : ImageSettings.shape.Spoiled settings :=
    .member (.byName (List.mem_cons_of_mem _ List.mem_cons_self)) <|
      .member (.byName List.mem_cons_self) <| .member (.byName List.mem_cons_self) <|
        .item (List.mem_cons_of_mem _ List.mem_cons_self) (.text rfl)
  exact ⟨hedits, hfull, hitems full _ spec items hfull hspec (.byName List.mem_cons_self), hnumber,
    hspoiled settings hnumber⟩

end RegistrySync.Cluster
