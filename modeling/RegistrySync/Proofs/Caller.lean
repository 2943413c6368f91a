import RegistrySync.Sink

/-!
Callers of a sink, step by step: a caller makes a change, waits for the result, and goes on. Callers
form a monad with a sink of their own, so whatever is written for an arbitrary sink is also a
caller, which may then be interrupted between any two of its changes.
-/

namespace RegistrySync

inductive Caller (α : Type) where
  | done (value : α)
  | ask (change : Change) (resume : Except SinkError Unit → Caller α)

namespace Caller

variable {α β : Type}

def bind : Caller α → (α → Caller β) → Caller β
  | done a, f => f a
  | ask change resume, f => ask change fun result => (resume result).bind f

instance : Monad Caller where
  pure := done
  bind := bind

def sink : Sink Caller := fun change => ask change done

/-- Whatever the results are, the caller makes these changes, and then ends with such a value. -/
inductive Makes (Q : α → Prop) : Caller α → List Change → Prop where
  | done {a : α} (ha : Q a) : Makes Q (done a) []
  | ask {change : Change} {resume : Except SinkError Unit → Caller α} {rest : List Change}
      (h : ∀ result, Makes Q (resume result) rest) : Makes Q (ask change resume) (change :: rest)

/-- Whatever the results are, the caller makes such changes only. -/
def Only (P : Change → Prop) : Caller α → Prop
  | .done _ => True
  | .ask change resume => P change ∧ ∀ result, (resume result).Only P

/-- What is left of a caller after some changes, with some results. -/
inductive Leads : Caller α → List Change → Caller α → Prop where
  | refl (c : Caller α) : Leads c [] c
  | next {c : Caller α} {made : List Change} {change : Change}
      {resume : Except SinkError Unit → Caller α} (h : Leads c made (ask change resume))
      (result : Except SinkError Unit) : Leads c (made ++ [change]) (resume result)

/-- Every change is made on a sink, and its result is passed on to the caller. -/
def runOn {m : Type → Type} [Monad m] (sink : Sink m) : Caller α → m α
  | .done a => pure a
  | .ask change resume => do
    let result ← sink change
    (resume result).runOn sink

variable {P : Change → Prop} {Q : α → Prop} {R : β → Prop} {c d : Caller α}
  {changes rest made : List Change}

/-! ### What callers make -/

theorem makes_pure {a : α} (ha : Q a) : Makes Q (pure a : Caller α) [] :=
  .done ha

theorem makes_sink (change : Change) : (sink change).Makes (fun _ => True) [change] :=
  .ask fun _ => .done trivial

theorem Makes.bind {f : α → Caller β} (h : c.Makes Q changes)
    (hf : ∀ a, Q a → (f a).Makes R rest) : (c >>= f).Makes R (changes ++ rest) := by
  induction h with
  | done ha => exact hf _ ha
  | ask _ ih => exact .ask ih

theorem Makes.only (h : c.Makes Q changes) : c.Only (· ∈ changes) := by
  suffices ∀ all, (∀ change ∈ changes, change ∈ all) → c.Only (· ∈ all) from
    this changes fun _ => id
  induction h with
  | done _ => exact fun _ _ => trivial
  | ask _ ih =>
    intro all hall
    refine ⟨hall _ List.mem_cons_self, ?_⟩
    intro result
    exact ih result all fun change hchange => hall change (List.mem_cons_of_mem _ hchange)

theorem Only.imp {P' : Change → Prop} (h : c.Only P) (himp : ∀ change, P change → P' change)
    : c.Only P' := by
  induction c with
  | done _ => trivial
  | ask change _ ih => exact ⟨himp change h.1, fun result => ih result (h.2 result)⟩

theorem makes_forM {ε : Type} {f : ε → Caller Unit} {made : ε → List Change}
    (hf : ∀ e, (f e).Makes (fun _ => True) (made e)) (events : List ε)
    : (events.forM f).Makes (fun _ => True) (events.flatMap made) := by
  induction events with
  | nil => exact .done trivial
  | cons e events ih => exact (hf e).bind fun _ _ => ih

/-! ### What is left of a caller -/

theorem Makes.ask_inv {change : Change} {resume : Except SinkError Unit → Caller α}
    (h : (Caller.ask change resume).Makes Q changes)
    : ∃ rest, changes = change :: rest ∧ ∀ result, (resume result).Makes Q rest := by
  cases h with
  | ask h => exact ⟨_, rfl, h⟩

theorem Makes.leads (h : c.Makes Q changes) (hleads : c.Leads made d)
    : ∃ rest, changes = made ++ rest ∧ d.Makes Q rest := by
  induction hleads with
  | refl => exact ⟨changes, rfl, h⟩
  | next _ result ih =>
    obtain ⟨_, rfl, hask⟩ := ih
    obtain ⟨rest, rfl, hresume⟩ := hask.ask_inv
    exact ⟨rest, by simp, hresume result⟩

theorem Leads.trans {e : Caller α} {more : List Change} (h : c.Leads made d)
    (hmore : d.Leads more e) : c.Leads (made ++ more) e := by
  induction hmore with
  | refl => rwa [List.append_nil]
  | next _ result ih =>
    rw [← List.append_assoc]
    exact ih.next result

/-- A caller comes to its end, also if it is told the same each time. -/
theorem exists_leads (c : Caller α) (result : Except SinkError Unit)
    : ∃ made a, c.Leads made (.done a) := by
  induction c with
  | done a => exact ⟨[], a, .refl _⟩
  | ask change resume ih =>
    obtain ⟨made, a, hleads⟩ := ih result
    exact ⟨_, a, ((Leads.refl (ask change resume)).next result).trans hleads⟩

theorem Makes.of_done {a : α} (h : (Caller.done a).Makes Q changes) : changes = [] ∧ Q a := by
  cases h with
  | done ha => exact ⟨rfl, ha⟩

/-! ### Callers on a sink -/

section

variable {m : Type → Type} [Monad m] [LawfulMonad m] (sink : Sink m)

omit [LawfulMonad m] in
theorem runOn_pure (a : α) : (pure a : Caller α).runOn sink = pure a := rfl

theorem runOn_sink (change : Change) : (Caller.sink change).runOn sink = sink change := by
  simp only [Caller.sink, runOn, bind_pure]

theorem runOn_bind (c : Caller α) (f : α → Caller β)
    : (c >>= f).runOn sink = c.runOn sink >>= fun a => (f a).runOn sink := by
  induction c with
  | done a => exact (pure_bind a fun a => (f a).runOn sink).symm
  | ask change resume ih =>
    change (do let result ← sink change; (resume result >>= f).runOn sink) = _
    simp only [ih, runOn, bind_assoc]

theorem runOn_foldlM {γ : Type} {f : α → γ → Caller α} {g : α → γ → m α}
    (h : ∀ a b, (f a b).runOn sink = g a b) (l : List γ) (a : α)
    : (l.foldlM f a).runOn sink = l.foldlM g a := by
  induction l generalizing a with
  | nil => rfl
  | cons b l ih =>
    rw [List.foldlM_cons, List.foldlM_cons, runOn_bind, h]
    simp only [ih]

end

/-- A caller whose changes do not depend on their results makes them one after the other. -/
theorem Makes.runOn_eq {σ : Type} {sink : Sink (StateM σ)} {a : α} (h : c.Makes (· = a) changes)
    (s : σ) : c.runOn sink s = (a, changes.foldl (fun s change => (sink change s).2) s) := by
  induction h generalizing s with
  | done ha => rw [ha]; rfl
  | ask _ ih => exact ih _ _

end Caller
end RegistrySync
