import Mathlib.Algebra.BigOperators.Group.List.Basic

/-!
# Runs of a partial transition system

A system is a partial function `step : σ → α → Option σ`; `none` is a rejected action, which changes nothing. A run
keeps its history: the accepted actions, each with the state it was taken in.

- invariants over history and state (`Run.inv`), and properties no step leaves (`Run.stable`);
- cutting a run at a point of its history (`Run.append`, `Run.split`, `Run.split_cons`);
- reaching a goal by lowering a variant (`exists_run_of_variant`);
- sums along the history (`tally`, `Run.tally_eq`) and events that happen at most once (`Run.countP_le_one`);
- a run of one system read as a run of another (`Run.project`);
- schedules in which rejected actions do nothing (`attempt`, `Run.accepted`, `Run.attempts`).
-/

namespace Base

variable {σ τ α β M : Type*}

/-- The runs of `step` from `s₀`: a history and the state after it. -/
inductive Run (step : σ → α → Option σ) (s₀ : σ) : List (σ × α) → σ → Prop
  | nil : Run step s₀ [] s₀
  | snoc {h s a s'} : Run step s₀ h s → step s a = some s' → Run step s₀ (h ++ [(s, a)]) s'

variable {step : σ → α → Option σ} {s₀ s s' : σ} {h h₁ h₂ : List (σ × α)} {a : α}

/-! ## Invariants -/

/-- What holds at the start, and is kept by every step, holds after every run. -/
theorem Run.inv (I : List (σ × α) → σ → Prop) (h0 : I [] s₀)
    (hs : ∀ h s a s', Run step s₀ h s → I h s → step s a = some s' → I (h ++ [(s, a)]) s')
    (hr : Run step s₀ h s) : I h s := by
  induction hr with
  | nil => exact h0
  | snoc hr ha ih => exact hs _ _ _ _ hr ih ha

/-- A property that no step leaves is never left. -/
theorem Run.stable (P : σ → Prop) (hs : ∀ s a s', P s → step s a = some s' → P s') (h0 : P s₀)
    (hr : Run step s₀ h s) : P s :=
  hr.inv (fun _ s => P s) h0 (fun _ _ _ _ _ hp ha => hs _ _ _ hp ha)

theorem Run.single (ha : step s a = some s') : Run step s [(s, a)] s' := Run.nil.snoc ha

/-! ## Cutting and joining runs -/

theorem Run.append (hr : Run step s₀ h₁ s) (hr' : Run step s h₂ s') : Run step s₀ (h₁ ++ h₂) s' := by
  induction hr' with
  | nil => simpa using hr
  | snoc _ ha ih => rw [← List.append_assoc]; exact ih.snoc ha

/-- A run cut at a point of its history. -/
theorem Run.split (hr : Run step s₀ (h₁ ++ h₂) s) : ∃ m, Run step s₀ h₁ m ∧ Run step m h₂ s := by
  generalize he : h₁ ++ h₂ = h at hr
  induction hr generalizing h₂ with
  | nil =>
    obtain ⟨rfl, rfl⟩ := List.append_eq_nil_iff.1 he
    exact ⟨s₀, .nil, .nil⟩
  | @snoc h s a s' hr ha ih =>
    rcases List.eq_nil_or_concat h₂ with rfl | ⟨h₂, x, rfl⟩
    · rw [List.append_nil] at he
      subst he
      exact ⟨s', hr.snoc ha, .nil⟩
    · rw [List.concat_eq_append, ← List.append_assoc] at he
      obtain ⟨hh, hx⟩ := List.append_inj' he rfl
      cases hx
      obtain ⟨m, h1, h2⟩ := ih hh
      exact ⟨m, h1, by simpa using h2.snoc ha⟩

/-- A run cut around one of its steps: the recorded state is the one the step was taken in. -/
theorem Run.split_cons {m : σ} (hr : Run step s₀ (h₁ ++ (m, a) :: h₂) s) :
    ∃ m', Run step s₀ h₁ m ∧ step m a = some m' ∧ Run step m' h₂ s := by
  rw [List.append_cons] at hr
  obtain ⟨m', h1, h2⟩ := hr.split
  generalize hg : h₁ ++ [(m, a)] = g at h1
  cases h1 with
  | nil => simp at hg
  | snoc h1 ha =>
    obtain ⟨rfl, hx⟩ := List.append_inj' hg rfl
    cases hx
    exact ⟨m', h1, ha, h2⟩

/-- Every recorded step was taken in a state that an initial part of the run reached. -/
theorem Run.mem {m : σ} (hr : Run step s₀ h s) (hm : (m, a) ∈ h) :
    ∃ h₁ h₂ m', h = h₁ ++ (m, a) :: h₂ ∧ Run step s₀ h₁ m ∧ step m a = some m' ∧ Run step m' h₂ s := by
  obtain ⟨h₁, h₂, rfl⟩ := List.append_of_mem hm
  obtain ⟨m', h1, ha, h2⟩ := hr.split_cons
  exact ⟨h₁, h₂, m', rfl, h1, ha, h2⟩

/-! ## Sums and counts along a history -/

section Tally

variable [AddCommMonoid M]

/-- The sum of `f` over the recorded steps. -/
def tally (f : σ × α → M) (h : List (σ × α)) : M := (h.map f).sum

@[simp] theorem tally_nil (f : σ × α → M) : tally f [] = 0 := rfl

@[simp] theorem tally_append (f : σ × α → M) (h₁ h₂ : List (σ × α)) :
    tally f (h₁ ++ h₂) = tally f h₁ + tally f h₂ := by
  simp [tally]

@[simp] theorem tally_singleton (f : σ × α → M) (x : σ × α) : tally f [x] = f x := by simp [tally]

@[simp] theorem tally_cons (f : σ × α → M) (x : σ × α) (h : List (σ × α)) :
    tally f (x :: h) = f x + tally f h := by
  simp [tally]

/-- A quantity that every step changes by `f` is its start plus the tally of `f`. -/
theorem Run.tally_eq (q : σ → M) (f : σ × α → M) (hs : ∀ s a s', step s a = some s' → q s' = q s + f (s, a))
    (hr : Run step s₀ h s) : q s = q s₀ + tally f h := by
  induction hr with
  | nil => simp
  | snoc _ ha ih => rw [hs _ _ _ ha, ih, tally_append, tally_singleton, add_assoc]

end Tally

/-- An event that happens only outside `D`, and always leads into `D`, which is never left, happens at most once. -/
theorem Run.countP_le_one (e : σ × α → Bool) (D : σ → Prop) (hD : ∀ s a s', D s → step s a = some s' → D s')
    (he : ∀ s a s', step s a = some s' → e (s, a) = true → ¬D s ∧ D s') (hr : Run step s₀ h s) :
    h.countP e ≤ 1 ∧ (0 < h.countP e → D s) := by
  induction hr with
  | nil => simp
  | @snoc h s a s' _ ha ih =>
    obtain ⟨h1, h2⟩ := ih
    rw [List.countP_append, List.countP_singleton]
    cases hx : e (s, a) with
    | false => exact ⟨by simpa using h1, fun hp => hD _ _ _ (h2 (by simpa using hp)) ha⟩
    | true =>
      obtain ⟨hn, hd⟩ := he _ _ _ ha hx
      have h0 : h.countP e = 0 := by
        by_contra hc
        exact hn (h2 (Nat.pos_of_ne_zero hc))
      exact ⟨by simp [h0], fun _ => hd⟩

/-- An event of the actions alone is counted on the list of actions. -/
theorem countP_snd (e : α → Bool) (h : List (σ × α)) : (h.countP fun x => e x.2) = (h.map Prod.snd).countP e := by
  rw [List.countP_map]
  rfl

/-! ## Reaching a goal -/

/-- **Variants.** If, wherever `P` holds and the variant is not zero, some steps that satisfy `Q` keep `P` and lower the
variant, then some steps that satisfy `Q` keep `P` and bring it to zero. -/
theorem exists_run_of_variant {P : List (σ × α) → σ → Prop} {Q : σ × α → Prop} (μ : σ → Nat)
    (hs : ∀ h s, P h s → μ s ≠ 0 →
      ∃ g s', Run step s g s' ∧ (∀ x ∈ g, Q x) ∧ P (h ++ g) s' ∧ μ s' < μ s) (hP : P h s) :
    ∃ g s', Run step s g s' ∧ (∀ x ∈ g, Q x) ∧ P (h ++ g) s' ∧ μ s' = 0 := by
  induction hn : μ s using Nat.strongRecOn generalizing h s with
  | ind n ih =>
    by_cases h0 : μ s = 0
    · exact ⟨[], s, .nil, by simp, by simpa using hP, h0⟩
    · obtain ⟨g, m, hg, hq, hPm, hlt⟩ := hs h s hP h0
      obtain ⟨g', s', hg', hq', hP', h0'⟩ := ih _ (hn ▸ hlt) hPm rfl
      refine ⟨g ++ g', s', hg.append hg', ?_, by rwa [← List.append_assoc], h0'⟩
      exact List.forall_mem_append.2 ⟨hq, hq'⟩

/-! ## Projections -/

/-- **Projection.** If every step of the first system is, through `f`, either invisible or a step of the second, and
`R` follows both, then a run of the first is a run of the second. -/
theorem Run.project {step' : τ → β → Option τ} (f : σ × α → Option β) (R : σ → τ → Prop) {t₀ : τ} (h0 : R s₀ t₀)
    (hs : ∀ s a s' t, R s t → step s a = some s' →
      (f (s, a) = none ∧ R s' t) ∨ ∃ b t', f (s, a) = some b ∧ step' t b = some t' ∧ R s' t')
    (hr : Run step s₀ h s) :
    ∃ g t, Run step' t₀ g t ∧ g.map Prod.snd = h.filterMap f ∧ R s t := by
  induction hr with
  | nil => exact ⟨[], t₀, .nil, rfl, h0⟩
  | @snoc h s a s' _ ha ih =>
    obtain ⟨g, t, hg, he, hR⟩ := ih
    rcases hs s a s' t hR ha with ⟨hf, hR'⟩ | ⟨b, t', hf, hb, hR'⟩
    · exact ⟨g, t, hg, by simp [he, hf], hR'⟩
    · exact ⟨g ++ [(t, b)], t', hg.snoc hb, by simp [he, hf], hR'⟩

/-! ## Schedules -/

/-- Take the action, or leave the state when it is rejected. -/
def attempt (step : σ → α → Option σ) (s : σ) (a : α) : Option σ := some ((step s a).getD s)

theorem attempt_cases (h : attempt step s a = some s') : step s a = some s' ∨ step s a = none ∧ s' = s := by
  rw [attempt, Option.some.injEq] at h
  cases ha : step s a with
  | none =>
    rw [ha] at h
    exact .inr ⟨rfl, h.symm⟩
  | some m =>
    rw [ha] at h
    exact .inl (congrArg some h)

/-- The accepted actions of a schedule are a run. -/
theorem Run.accepted (hr : Run (attempt step) s₀ h s) :
    ∃ g, Run step s₀ g s ∧ g.map Prod.snd = h.filterMap fun x => (step x.1 x.2).map fun _ => x.2 := by
  have hstep : ∀ s a s' t, s = t → attempt step s a = some s' →
      ((step s a).map fun _ => a) = none ∧ s' = t ∨
        ∃ b t', ((step s a).map fun _ => a) = some b ∧ step t b = some t' ∧ s' = t' := by
    rintro s a s' _ rfl ha
    rcases attempt_cases ha with ha | ⟨hn, rfl⟩
    · exact .inr ⟨a, s', by rw [ha]; rfl, ha, rfl⟩
    · exact .inl ⟨by rw [hn]; rfl, rfl⟩
  obtain ⟨g, t, hg, he, rfl⟩ := hr.project (fun x => (step x.1 x.2).map fun _ => x.2) Eq rfl hstep
  exact ⟨g, hg, he⟩

/-- A run is a schedule without rejections. -/
theorem Run.attempts (hr : Run step s₀ h s) : Run (attempt step) s₀ h s := by
  induction hr with
  | nil => exact .nil
  | snoc _ ha ih => exact ih.snoc (by rw [attempt, ha]; rfl)

/-! ## Runs from a list of actions -/

/-- Take the actions in order, recording the states; `none` when one is rejected. -/
def perform (step : σ → α → Option σ) : σ → List α → Option (List (σ × α) × σ)
  | s, [] => some ([], s)
  | s, a :: as => (step s a).bind fun s' => (perform step s' as).map fun r => ((s, a) :: r.1, r.2)

/-- What `perform` returns is a run that took exactly the given actions. -/
theorem run_of_perform : ∀ {as : List α} {s e : σ} {h : List (σ × α)}, perform step s as = some (h, e) →
    Run step s h e ∧ h.map Prod.snd = as
  | [], s, e, h, hp => by
    simp only [perform, Option.some.injEq, Prod.mk.injEq] at hp
    obtain ⟨rfl, rfl⟩ := hp
    exact ⟨.nil, rfl⟩
  | a :: as, s, e, h, hp => by
    simp only [perform, Option.bind_eq_some_iff, Option.map_eq_some_iff, Prod.mk.injEq, Prod.exists] at hp
    obtain ⟨s', ha, h', e', hp, rfl, rfl⟩ := hp
    obtain ⟨hr, hm⟩ := run_of_perform hp
    exact ⟨(Run.single ha).append hr, by simp [hm]⟩

/-- A computed observation of the last state belongs to a run. -/
theorem exists_run_of_perform {γ : Type*} {as : List α} (f : σ → γ) {b : γ}
    (hf : (perform step s₀ as).map (fun r => f r.2) = some b) :
    ∃ h s, Run step s₀ h s ∧ h.map Prod.snd = as ∧ f s = b := by
  obtain ⟨⟨h, s⟩, hp, hb⟩ := Option.map_eq_some_iff.1 hf
  exact ⟨h, s, (run_of_perform hp).1, (run_of_perform hp).2, hb⟩

end Base
