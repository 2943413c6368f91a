import RegistrySync.Document.Nesting
import RegistrySync.Proofs.Document.Shape

/-!
Readers of a value of which nothing is declared. They are steady, as an edit of the whole leaves
what they make of the value. The types of a lenient record, of a list and of a value that is kept
as it is are steady if those of their parts are.
-/

namespace RegistrySync.Shape

/-- A view of values is the same after an edit of the whole. -/
def Steady {α : Type} (view : Value → α) : Prop :=
  ∀ v w, whole.Edit v w → view v = view w

variable {α : Type} {read : Value → Option α} {hasType : Value → Bool}

theorem steady_text? : Steady Value.text? :=
  fun _ _ h => h.text?_eq

theorem steady_integer? : Steady Value.integer? :=
  fun _ _ h => h.integer?_eq

theorem steady_bool? : Steady Value.bool? :=
  fun _ _ h => h.bool?_eq

theorem steady_textMap? : Steady Value.textMap? := by
  intro v w h
  cases h with
  | reorder h => exact Value.mapOf?_congr h
  | member _ _ h =>
    simp only [Value.textMap?, Value.mapOf?, Value.members?, Option.bind_eq_bind, Option.bind_some,
      List.mapM_append, List.mapM_cons, h.text?_eq]
  | item => rfl

namespace Steady

theorem optional? (h : Steady read) : Steady (Value.optional? read) :=
  fun v w hedit => hedit.optional?_eq (h v w hedit)

theorem takenBy (h : Steady read) : Steady (Value.takenBy read) :=
  fun v w hedit => congrArg Option.isSome (h v w hedit)

theorem isNullOr (h : Steady hasType) : Steady (Value.isNullOr hasType) := by
  intro v w hedit
  simp only [Value.isNullOr, hedit.isPresent?_eq, h v w hedit]

theorem forall₂ {view : Value → α} (h : Steady view) {vs ws : List Value}
    (hvalues : List.Forall₂ (Relation.ReflGen whole.Edit) vs ws)
    : List.Forall₂ (fun v w => view v = view w) vs ws := by
  apply hvalues.imp
  intro v w hvalue
  cases hvalue with
  | refl => rfl
  | single hedit => exact h v w hedit

end Steady

/-! ### Lists and values kept as they are -/

/-- An edit leaves what is made of a list if it leaves what is made of each item. -/
theorem listOf?_edit {s : Shape} (h : ∀ i v w, (s.item i).Edit v w → read v = read w) {v w : Value}
    (hedit : s.Edit v w) : Value.listOf? read v = Value.listOf? read w := by
  rcases hedit.object_or_array with ⟨ms, ns, rfl, rfl⟩ | ⟨before, after, x, y, rfl, rfl, hitem⟩
  . rfl
  . simp only [Value.listOf?, Value.elements?, Option.bind_eq_bind, Option.bind_some,
      List.mapM_append, List.mapM_cons, h _ _ _ hitem]

theorem Steady.listOf? (h : Steady read) : Steady (Value.listOf? read) :=
  fun _ _ => listOf?_edit (s := whole) fun _ => h

theorem Steady.isListOf (h : Steady hasType) : Steady (Value.isListOf hasType) := by
  intro v w hedit
  rcases hedit.object_or_array with ⟨ms, ns, rfl, rfl⟩ | ⟨before, after, x, y, rfl, rfl, hitem⟩
  . rfl
  . simp only [Value.isListOf, Value.elements?, Option.any_some, List.all_append, List.all_cons,
      h x y hitem]

theorem areKept_eq_all (room : Option Nat) (items : List Value)
    : Value.areKept room items = items.all (Value.isKept room) := by
  induction items with
  | nil => rfl
  | cons v items ih => rw [Value.areKept, ih, List.all_cons]

theorem areMembersKept_eq_all (room : Option Nat) (ms : List (String × Value))
    : Value.areMembersKept room ms = ms.all fun m => Value.isKept room m.2 := by
  induction ms with
  | nil => rfl
  | cons m ms ih => rw [Value.areMembersKept, ih, List.all_cons]

theorem steady_isKept (room : Option Nat) : Steady (Value.isKept room) := by
  intro v w hedit
  -- The parts of the whole are wholes, so the induction goes over edits of that shape alone.
  generalize hs : whole = s at hedit
  induction hedit generalizing room with
  | add => contradiction
  | fill => contradiction
  | reorder h =>
    simp only [Value.isKept, areMembersKept_eq_all, Value.all_eq_of_given_eq h]
  | member before after _ ih =>
    subst hs
    simp only [Value.isKept, areMembersKept_eq_all, List.all_append, List.all_cons, ih _ rfl]
  | item before after _ ih =>
    subst hs
    simp only [Value.isKept, areKept_eq_all, List.all_append, List.all_cons, ih _ rfl]

/-! ### Lenient records -/

section

variable {names : List String} (hnames : names.Nodup) {ms ns : List (String × Value)}
  (h : (named names).Edit (.object ms) (.object ns))

include hnames h

theorem given_edit {name : String} (hname : name ∈ names)
    : List.Forall₂ (Relation.ReflGen whole.Edit) (Value.given name ms) (Value.given name ns) := by
  have hdeclared : ((names.map fun name => (name, (none : Option Value), whole)).map
      Prod.fst).Nodup := by
    simpa [Function.comp_def] using hnames
  rcases valuesAlike_given hdeclared h (List.mem_map_of_mem hname) with hgiven | ⟨-, _, hnone, -⟩
  . exact hgiven
  . contradiction

theorem Steady.lastOptional?_edit (hread : Steady read) {name : String} (hname : name ∈ names)
    : Value.lastOptional? read name ms = Value.lastOptional? read name ns := by
  have hvalues : (Value.given name ms).mapM (Value.optional? read) =
      (Value.given name ns).mapM (Value.optional? read) :=
    Sequence.mapM_congr (hread.optional?.forall₂ (given_edit hnames h hname))
  unfold Value.lastOptional?
  rw [hvalues]

end

variable {types : Value.MemberTypes} (hnames : (types.map Prod.fst).Nodup)
  (hsteady : ∀ field ∈ types, Steady field.2)

include hnames hsteady

theorem areTyped_edit {ms ns : List (String × Value)}
    (h : (named (types.map Prod.fst)).Edit (.object ms) (.object ns))
    : Value.areTyped types ms = Value.areTyped types ns := by
  rw [Value.areTyped, Value.areTyped, Bool.eq_iff_iff, List.all_eq_true, List.all_eq_true]
  refine forall₂_congr fun field hfield => ?_
  have hgiven := given_edit hnames h (List.mem_map_of_mem hfield)
  exact Bool.eq_iff_iff.mp (Sequence.all_congr ((hsteady field hfield).isNullOr.forall₂ hgiven))

theorem steady_isRecordOf : Steady (Value.isRecordOf types) := by
  intro v w hedit
  have hnamed := hedit.to_named (types.map Prod.fst)
  rcases hedit.object_or_array with ⟨ms, ns, rfl, rfl⟩ | ⟨_, _, _, _, rfl, rfl, -⟩
  . exact areTyped_edit hnames hsteady hnamed
  . rfl

end RegistrySync.Shape
