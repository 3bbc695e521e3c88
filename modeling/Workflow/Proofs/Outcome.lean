/-!
# Outcomes

When a computation that may be refused succeeds: a sequence, a mapped result, a
plain result, and a fold whose single steps are understood.  A sequence is
refused where one of its parts is.  Results can be changed inside a sequence.
-/

namespace Workflow.Outcome

@[simp] theorem bind_eq_ok {computation : Except ε α} {next : α → Except ε β} {result : β} :
    (computation >>= next) = .ok result ↔
      ∃ value, computation = .ok value ∧ next value = .ok result := by
  cases computation <;> simp [bind, Except.bind]

@[simp] theorem bind_eq_error {computation : Except ε α} {next : α → Except ε β} {refusal : ε} :
    (computation >>= next) = .error refusal ↔
      computation = .error refusal ∨
        ∃ value, computation = .ok value ∧ next value = .error refusal := by
  cases computation <;> simp [bind, Except.bind]

@[simp] theorem map_eq_ok {computation : Except ε α} {change : α → β} {result : β} :
    computation.map change = .ok result ↔
      ∃ value, computation = .ok value ∧ change value = result := by
  cases computation <;> simp [Except.map]

theorem map_eq_error {computation : Except ε α} {change : α → β} {refusal : ε} :
    computation.map change = .error refusal ↔ computation = .error refusal := by
  cases computation <;> simp [Except.map]

@[simp] theorem functor_map_eq_ok {computation : Except ε α} {change : α → β} {result : β} :
    change <$> computation = .ok result ↔
      ∃ value, computation = .ok value ∧ change value = result :=
  map_eq_ok

@[simp] theorem pure_eq_ok {value result : α} :
    (pure value : Except ε α) = .ok result ↔ value = result := by
  simp [pure, Except.pure]

@[simp] theorem throw_ne_ok {refusal : ε} {result : α} :
    (throw refusal : Except ε α) ≠ .ok result := by
  simp [throw, throwThe, MonadExceptOf.throw]

theorem map_bind (change : β → γ) (computation : Except ε α) (next : α → Except ε β) :
    (computation >>= next).map change = computation >>= fun value => (next value).map change := by
  cases computation <;> rfl

theorem bind_map (computation : Except ε α) (change : α → β) (next : β → Except ε γ) :
    computation.map change >>= next = computation >>= fun value => next (change value) := by
  cases computation <;> rfl

theorem exists_ok {computation : Except ε α} (succeeds : computation.toOption.isSome) :
    ∃ value, computation = .ok value := by
  cases computation with
  | ok value => exact ⟨value, rfl⟩
  | error refusal => simp [Except.toOption] at succeeds

theorem exists_ok_of_any {computation : Except ε α} {test : α → Bool}
    (succeeds : computation.toOption.any test) :
    ∃ value, computation = .ok value ∧ test value := by
  cases computation with
  | ok value => exact ⟨value, rfl, by simpa [Except.toOption] using succeeds⟩
  | error refusal => simp [Except.toOption] at succeeds

/-- A fold leads where its steps lead, if a step only succeeds from good states
and leaves a good state behind. -/
theorem foldlM_eq_ok {step : σ → α → Except ε σ} (Good : σ → Prop)
    {Leads : σ → List α → σ → Prop}
    (stays : ∀ {start result}, Good start → (Leads start [] result ↔ start = result))
    (steps : ∀ {start item next}, Good start →
      (step start item = .ok next ↔ Leads start [item] next))
    (good : ∀ {start item next}, Leads start [item] next → Good next)
    (splits : ∀ {start item rest result}, Leads start (item :: rest) result ↔
      ∃ next, Leads start [item] next ∧ Leads next rest result)
    {items : List α} {start result : σ} (startGood : Good start) :
    items.foldlM step start = .ok result ↔ Leads start items result := by
  induction items generalizing start with
  | nil =>
      simp only [List.foldlM_nil, pure_eq_ok]
      exact (stays startGood).symm
  | cons item items induction =>
      rw [splits]
      simp only [List.foldlM_cons, bind_eq_ok, steps startGood]
      constructor
      · intro led
        obtain ⟨next, first, rest⟩ := led
        exact ⟨next, first, (induction (good first)).mp rest⟩
      · intro parts
        obtain ⟨next, first, rest⟩ := parts
        exact ⟨next, first, (induction (good first)).mpr rest⟩

/-- A fold passes over the items that leave every state as it is. -/
theorem foldlM_filter {step : σ → α → Except ε σ} {keep : α → Bool}
    (idle : ∀ state item, ¬keep item → step state item = .ok state) (items : List α)
    (start : σ) : (items.filter keep).foldlM step start = items.foldlM step start := by
  induction items generalizing start with
  | nil => rfl
  | cons item items induction =>
      by_cases kept : keep item
      · rw [List.filter_cons_of_pos kept, List.foldlM_cons, List.foldlM_cons]
        exact congrArg _ (funext induction)
      · rw [List.filter_cons_of_neg kept, List.foldlM_cons, idle start item kept, induction]
        rfl

theorem foldlM_congr {step other : σ → α → Except ε σ} {items : List α}
    (same : ∀ state, ∀ item ∈ items, step state item = other state item) (start : σ) :
    items.foldlM step start = items.foldlM other start := by
  induction items generalizing start with
  | nil => rfl
  | cons item items induction =>
      have rest := induction fun state next member =>
        same state next (List.mem_cons_of_mem item member)
      rw [List.foldlM_cons, List.foldlM_cons, same start item List.mem_cons_self]
      exact congrArg _ (funext rest)

end Workflow.Outcome
