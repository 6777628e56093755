import Calculator.Expr.Evaluation

/-!
# What the memory can influence

Two evaluations of one expression, from different memories, go the same way until
one of them reads the cell. If something was stored before that, they read the
same. So an expression that always stores before it reads has one outcome, whatever
the memory was. An expression that stores nothing leaves the memory as it is.
-/

namespace Calculator

/-! ## Reads and writes -/

/-- What a node does with the memory cell. -/
inductive Access where
  | read
  | write
  deriving DecidableEq, Repr

/-- The accesses to the memory cell, in the order of evaluation. -/
def Expr.accesses : Expr → List Access
  | number _ => []
  | memory => [.read]
  | negate e => e.accesses
  | store e => e.accesses ++ [.write]
  | binary _ l r => l.accesses ++ r.accesses

/-- Every read comes after a write. -/
def Shielded (accesses : List Access) : Prop :=
  ∀ before after, accesses = before ++ .read :: after → .write ∈ before

/-- It is the first access that matters. -/
theorem shielded_iff {accesses : List Access} : Shielded accesses ↔ accesses.head? ≠ some .read := by
  constructor
  · intro shielded first
    obtain ⟨after, rfl⟩ := List.head?_eq_some_iff.1 first
    simpa using shielded [] after rfl
  · rintro first before after rfl
    cases before with
    | nil => exact absurd rfl first
    | cons access before => cases access <;> simp_all

instance (accesses : List Access) : Decidable (Shielded accesses) :=
  decidable_of_iff _ shielded_iff.symm

theorem Shielded.of_append {a b : List Access} (h : Shielded (a ++ b)) :
    Shielded a ∧ (.write ∈ a ∨ Shielded b) := by
  rw [shielded_iff] at *
  cases a with
  | nil => simpa [shielded_iff] using h
  | cons access a => cases access <;> simp_all

/-! ## Two runs -/

namespace Memory

/-- The memory after the values `stored`, newest first, were stored. -/
def after (m : Memory) (stored : List Int64) : Memory := ⟨stored ++ m.history⟩

variable (m : Memory) (stored more : List Int64) (v : Int64)

@[simp] theorem after_nil : m.after [] = m := rfl

@[simp] theorem store_after : (m.after stored).store v = m.after (v :: stored) := rfl

@[simp] theorem after_after : (m.after stored).after more = m.after (more ++ stored) := by
  simp [after]

/-- What was stored is there, whatever was there before. -/
theorem value_after_eq {m₁ m₂ : Memory} {stored : List Int64}
    (h : m₁.value = m₂.value ∨ stored ≠ []) : (m₁.after stored).value = (m₂.after stored).value := by
  cases stored with
  | nil => simpa using h
  | cons v stored => rfl

end Memory

/-- Evaluation from both memories has one outcome and stores the same values. -/
def Expr.Coincides (e : Expr) (m₁ m₂ : Memory) : Prop :=
  ∃ outcome stored, e.evaluate m₁ = (outcome, m₁.after stored) ∧
    e.evaluate m₂ = (outcome, m₂.after stored) ∧
    (stored ≠ [] → .write ∈ e.accesses) ∧
    ∀ v, outcome = .ok v → .write ∈ e.accesses → stored ≠ []

theorem Expr.coincides (e : Expr) (m₁ m₂ : Memory)
    (h : m₁.value = m₂.value ∨ Shielded e.accesses) : e.Coincides m₁ m₂ := by
  induction e generalizing m₁ m₂ with
  | number v => exact ⟨.ok v, [], rfl, rfl, by simp, by simp [accesses]⟩
  | memory =>
    have same : m₁.value = m₂.value := h.resolve_right (by decide)
    exact ⟨.ok m₁.value, [], rfl, by simp [evaluate, same], by simp, by simp [accesses]⟩
  | negate e ih =>
    obtain ⟨f | v, stored, run₁, run₂, written, completed⟩ := ih m₁ m₂ h
    · exact ⟨.error f, stored, by simp [evaluate, run₁], by simp [evaluate, run₂], written, nofun⟩
    · exact ⟨negated v, stored, by simp [evaluate, run₁], by simp [evaluate, run₂], written,
        fun _ _ => completed v rfl⟩
  | store e ih =>
    obtain ⟨f | v, stored, run₁, run₂, written, completed⟩ :=
      ih m₁ m₂ (h.imp_right fun shielded => shielded.of_append.1)
    · exact ⟨.error f, stored, by simp [evaluate, run₁], by simp [evaluate, run₂],
        by simp [accesses], nofun⟩
    · exact ⟨.ok v, v :: stored, by simp [evaluate, run₁], by simp [evaluate, run₂],
        by simp [accesses], by simp⟩
  | binary op l r ihl ihr =>
    obtain ⟨f | v, stored, left₁, left₂, written, completed⟩ :=
      ihl m₁ m₂ (h.imp_right fun shielded => shielded.of_append.1)
    · exact ⟨.error f, stored, by simp [evaluate, left₁], by simp [evaluate, left₂],
        fun wrote => List.mem_append_left _ (written wrote), nofun⟩
    -- the memories agree from the first store on, and before it nothing was read
    have next : (m₁.after stored).value = (m₂.after stored).value ∨ Shielded r.accesses := by
      rcases h with same | shielded
      · exact .inl (Memory.value_after_eq (.inl same))
      · exact shielded.of_append.2.imp_left fun write =>
          Memory.value_after_eq (.inr (completed v rfl write))
    obtain ⟨f | w, more, right₁, right₂, written', completed'⟩ := ihr _ _ next
    all_goals
      have stores : more ++ stored ≠ [] → .write ∈ (binary op l r).accesses := by
        grind [accesses]
    · exact ⟨.error f, more ++ stored, by simp [evaluate, left₁, right₁],
        by simp [evaluate, left₂, right₂], stores, nofun⟩
    · refine ⟨op.apply v w, more ++ stored, by simp [evaluate, left₁, right₁],
        by simp [evaluate, left₂, right₂], stores, fun _ _ write => ?_⟩
      rcases List.mem_append.1 write with write | write
      · exact List.append_ne_nil_of_right_ne_nil _ (completed v rfl write)
      · exact List.append_ne_nil_of_left_ne_nil (completed' w rfl write) _

/-- If every read comes after a store, the memory that evaluation starts with influences neither the
outcome nor the values that are stored, and a single store makes the memory afterwards the same. If
there is no store at all, the memory is left alone, also by a fault. -/
theorem stored_memory_alone_is_observed (e : Expr) :
    ((∀ before after, e.accesses = before ++ .read :: after → .write ∈ before) →
      ∀ m₁ m₂ : Memory, (e.evaluate m₁).1 = (e.evaluate m₂).1 ∧
        ∃ stored, (e.evaluate m₁).2.history = stored ++ m₁.history ∧
          (e.evaluate m₂).2.history = stored ++ m₂.history ∧
          (stored ≠ [] → (e.evaluate m₁).2.value = (e.evaluate m₂).2.value)) ∧
    (.write ∉ e.accesses → ∀ m : Memory, (e.evaluate m).2 = m) := by
  constructor
  · intro shielded m₁ m₂
    obtain ⟨outcome, stored, run₁, run₂, -, -⟩ := e.coincides m₁ m₂ (.inr shielded)
    rw [run₁, run₂]
    exact ⟨rfl, stored, rfl, rfl, fun wrote => Memory.value_after_eq (.inr wrote)⟩
  · intro quiet m
    obtain ⟨outcome, stored, run, -, written, -⟩ := e.coincides m m (.inl rfl)
    have nothing : stored = [] := Decidable.of_not_not fun wrote => quiet (written wrote)
    rw [run, nothing, Memory.after_nil]

/-- A division by zero behind a store: the fault and the memory are the same from both memories.
Without the store, each memory is kept. -/
theorem fault_behind_store_hides_memory :
    let e := Expr.binary .div (.binary .add (.store (.number 5)) .memory) (.number 0)
    let quiet := Expr.binary .div .memory (.number 0)
    (e.evaluate ⟨[7]⟩).1 = (e.evaluate ⟨[8]⟩).1 ∧
    (e.evaluate ⟨[7]⟩).2.value = (e.evaluate ⟨[8]⟩).2.value ∧
    (quiet.evaluate ⟨[7]⟩).2 = ⟨[7]⟩ := by
  intro e quiet
  obtain ⟨same, stored, run, -, value⟩ :=
    (stored_memory_alone_is_observed e).1 (shielded_iff.2 (by decide)) ⟨[7]⟩ ⟨[8]⟩
  have wrote : stored ≠ [] := by
    rintro rfl
    exact absurd run (by decide +kernel)
  exact ⟨same, value wrote, (stored_memory_alone_is_observed quiet).2 (by decide) ⟨[7]⟩⟩

end Calculator
