import RegistrySync.Proofs.Action.Completion
import RegistrySync.Proofs.FileTree.Access

/-!
What is in the way of actions: a file can be written, with the directories above it, if none of
these is a file and it is no directory itself.
-/

namespace RegistrySync

namespace FileTree

variable {t u : FileTree} {wrong : Entry → Bool} {l m : Location}

def Entry.isDirectory : Entry → Bool
  | directory => true
  | _ => false

/-- A file is in the way above a location, and at the location whatever is of the wrong kind. -/
def Blocks (t : FileTree) (wrong : Entry → Bool) (l m : Location) : Prop :=
  m <:+ l ∧ m ≠ l ∧ (t.entry? m).any Entry.isFile = true ∨ m = l ∧ (t.entry? l).any wrong = true

theorem any_isFile_iff {e : Option Entry}
    : e.any Entry.isFile = true ↔ ∃ content, e = some (.file content) := by
  rcases e with _ | _ | _ | _ <;> simp [Entry.isFile]

theorem any_isDirectory_iff {e : Option Entry}
    : e.any Entry.isDirectory = true ↔ e = some .directory := by
  rcases e with _ | _ | _ | _ <;> simp [Entry.isDirectory]

theorem fileFree_tail_iff (hne : l ≠ [])
    : t.FileFree l.tail ↔ ∀ m, m <:+ l → m ≠ l → ¬ (t.entry? m).any Entry.isFile = true := by
  simp only [any_isFile_iff, not_exists]
  constructor
  . intro hfree m hm hml content
    exact hfree m content (Location.suffix_tail hm hml)
  . intro hnone m content hm
    apply hnone m (hm.trans (List.tail_suffix l)) _ content
    rintro rfl
    exact hne (Location.eq_nil_of_suffix_tail List.suffix_rfl hm)

theorem fileFree_iff_not_blocks (hne : l ≠ [])
    : t.FileFree l ↔ ∀ m, ¬ t.Blocks Entry.isFile l m := by
  have htail := fileFree_tail_iff (t := t) hne
  constructor
  . rintro hfree m (⟨hm, hml, hfile⟩ | ⟨rfl, hfile⟩)
    . exact htail.mp (hfree.mono (List.tail_suffix l)) m hm hml hfile
    . obtain ⟨content, hfile⟩ := any_isFile_iff.mp hfile
      exact hfree m content List.suffix_rfl hfile
  . intro hnone m content hm hfile
    have hfile := any_isFile_iff.mpr ⟨content, hfile⟩
    by_cases hml : m = l
    . exact hnone m (.inr ⟨hml, hml ▸ hfile⟩)
    . exact hnone m (.inl ⟨hm, hml, hfile⟩)

theorem Blocks.entry?_ne_none (h : t.Blocks wrong l m) : t.entry? m ≠ none := by
  intro hnone
  rcases h with ⟨-, -, hfile⟩ | ⟨rfl, hwrong⟩
  . rw [hnone] at hfile
    contradiction
  . rw [hnone] at hwrong
    contradiction

theorem not_blocks_empty (hne : l ≠ []) : ¬ empty.Blocks wrong l m := by
  rintro (⟨-, -, hfile⟩ | ⟨-, hwrong⟩)
  . by_cases hm : m = []
    . subst hm
      contradiction
    . rw [entry?_empty hm] at hfile
      contradiction
  . rw [entry?_empty hne] at hwrong
    contradiction

theorem Blocks.of_leaves (h : u.Blocks wrong l m) (hleaves : t.Leaves u)
    : t.Blocks wrong l m := by
  have hany : ∀ {l} {P : Entry → Bool}, (u.entry? l).any P = true → (t.entry? l).any P = true := by
    intro l P h
    cases hentry : u.entry? l with
    | none =>
      rw [hentry] at h
      contradiction
    | some e =>
      rw [hleaves l e hentry, ← hentry]
      exact h
  rcases h with ⟨hm, hml, hfile⟩ | ⟨hml, hwrong⟩
  . exact .inl ⟨hm, hml, hany hfile⟩
  . exact .inr ⟨hml, hany hwrong⟩

section

variable {touched made : Location → Prop} (hspares : Spares touched made t u)
  (hoff : ∀ m, m <:+ l → m ≠ l → ¬ touched m)
include hspares hoff

/-- Directories that were made are not in the way. -/
theorem Blocks.before (h : u.Blocks wrong l m)
    (hend : (u.entry? l).any wrong = true → (t.entry? l).any wrong = true)
    : t.Blocks wrong l m := by
  rcases h with ⟨hm, hml, hfile⟩ | ⟨hml, hwrong⟩
  . rcases hspares m (hoff m hm hml) with heq | ⟨-, -, hdirectory⟩
    . exact .inl ⟨hm, hml, heq ▸ hfile⟩
    . rw [hdirectory] at hfile
      contradiction
  . exact .inr ⟨hml, hend hwrong⟩

theorem Blocks.after (h : t.Blocks wrong l m)
    (hend : (t.entry? l).any wrong = true → (u.entry? l).any wrong = true)
    : u.Blocks wrong l m := by
  rcases h with ⟨hm, hml, hfile⟩ | ⟨hml, hwrong⟩
  . rcases hspares m (hoff m hm hml) with heq | ⟨-, hnone, -⟩
    . exact .inl ⟨hm, hml, heq.symm ▸ hfile⟩
    . rw [hnone] at hfile
      contradiction
  . exact .inr ⟨hml, hend hwrong⟩

end

end FileTree

namespace Action

open FileTree (Entry)

variable {t u : FileTree} {p q : Path} {content : String}

section

variable (hlinks : t.NoLinks) (hp : p.IsUsable) (hslash : p.endsInSlash = false)
  (hne : p.location ≠ [])
include hlinks hp hslash hne

theorem exists_runAll_iff (hq : q.IsUsable) (hparent : q.location = p.location.tail)
    : (∃ u, runAll [makeDirectories q, write p content] t = (.ok (), u)) ↔
        ∀ m, ¬ t.Blocks Entry.isDirectory p.location m := by
  have hfree : t.LinkFree q.target := fun m target _ => hlinks m target
  constructor
  . rintro ⟨u, h⟩ m hblocks
    obtain ⟨v, hmake, h⟩ := runAll_cons_eq_ok_iff.mp h
    obtain ⟨w, hwrite, -⟩ := runAll_cons_eq_ok_iff.mp h
    have hmakes := FileTree.makesDirectories_of_makeDirectories hq.plain.descends hfree hmake
    have hmade := FileTree.entry?_makeDirectories hq.plain.descends hfree hmake
    rw [hq.plain.target_eq, hparent] at hmakes
    rw [hq.plain.target_eq, hparent] at hmade
    rcases hblocks with ⟨hm, hml, hfile⟩ | ⟨-, hdirectory⟩
    . have hv := hmade m
      rw [if_pos (Location.suffix_tail hm hml)] at hv
      rcases hmakes m with heq | ⟨-, hnone, -⟩
      . rw [← heq, hv] at hfile
        contradiction
      . rw [hnone] at hfile
        contradiction
    . have hlinks' := hlinks.of_linksFrom hmakes.linksFrom
      obtain ⟨name, parent, ending, hwalk, hnot, -⟩ :=
        FileTree.exists_of_write (exists_of_perform_write hwrite)
      have hreaches := FileTree.reaches_of_linkFree hp.plain.descends
        (fun m target _ => hlinks' m target)
      have hl : name :: parent = p.location := by
        rw [← hp.plain.target_eq]
        exact (hreaches _ _ hwalk).1
      apply hnot
      rw [hl, hmakes.entry?_eq List.suffix_rfl]
      exact FileTree.any_isDirectory_iff.mp hdirectory
  . intro hnone
    have hfree' : t.FileFree p.location.tail := by
      rw [FileTree.fileFree_tail_iff hne]
      exact fun m hm hml hfile => hnone m (.inl ⟨hm, hml, hfile⟩)
    have hdirectory : t.entry? p.location ≠ some .directory := fun hdirectory =>
      hnone p.location (.inr ⟨rfl, FileTree.any_isDirectory_iff.mpr hdirectory⟩)
    rw [← hparent] at hfree'
    obtain ⟨v, hmake⟩ := FileTree.exists_makeDirectories hlinks hq hfree'
    have hmakes := FileTree.makesDirectories_of_makeDirectories hq.plain.descends hfree hmake
    have hmade := FileTree.entry?_makeDirectories hq.plain.descends hfree hmake q.location
    rw [hq.plain.target_eq, if_pos List.suffix_rfl, hparent] at hmade
    rw [hq.plain.target_eq, hparent] at hmakes
    rw [← hmakes.entry?_eq List.suffix_rfl] at hdirectory
    obtain ⟨u, hwrite⟩ := FileTree.exists_write (hlinks.of_linksFrom hmakes.linksFrom) hp hslash
      hne hmade hdirectory content.toUTF8
    have hperform : (write p content).perform v = (.ok (), u) := by rw [perform, hwrite]
    exact ⟨u, runAll_cons_eq_ok_iff.mpr ⟨v, hmake, runAll_cons_eq_ok_iff.mpr ⟨u, hperform, rfl⟩⟩⟩

theorem exists_runAll_writing_iff
    : (∃ u, runAll (writing p content) t = (.ok (), u)) ↔
        ∀ m, ¬ t.Blocks Entry.isDirectory p.location m := by
  rcases Path.parent?_cases hp.plain.descends with ⟨htarget, -⟩ | ⟨q, hq, -, htarget⟩
  . rw [hp.plain.target_eq] at htarget
    contradiction
  . have husable := hp.parent hq
    rw [hp.plain.target_eq, husable.plain.target_eq] at htarget
    rw [writing, hq]
    exact exists_runAll_iff hlinks hp hslash hne husable htarget

end

end Action
end RegistrySync
