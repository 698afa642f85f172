/-
Module: AsconSuite.Base.EmitLogic
Layer: Library
Purpose: A logic for programs that generate code. A generator appends instructions to the code in its own state and may
  fail. Its weakest precondition speaks about the state of the generator and about the state of the machine that has
  run the code so far, so that both are reasoned about in one pass over the generator.
Imports: Mathlib.Data.List.Basic
Trusted boundary: none
Main exports: Emit.Target, Emit.Target.run, Emit.Target.wp, Emit.Target.wp_pure, Emit.Target.wp_bind,
  Emit.Target.wp_get, Emit.Target.wp_set, Emit.Target.wp_modify, Emit.Target.wp_emit, Emit.Target.wp_throw,
  Emit.Target.wp_mono, Emit.Target.wp_forM, Emit.Generates, Emit.generates_bind, Emit.generates_forM,
  Emit.bind_eq_ok, Emit.run_bind_eq_ok, Emit.Fails, Emit.fails_bind, Emit.fails_forM
-/
import Mathlib.Data.List.Basic

namespace AsconSuite.Emit

/-- Where the code is in the state of a generator, and what a machine does for one instruction that runs on to the
next. -/
structure Target (γ ι σ δ : Type) where
  code : γ → List ι
  step : σ → ι → Except δ σ

namespace Target

variable {γ ι σ δ ε α β κ : Type} (t : Target γ ι σ δ)

/-- Run some instructions, one after the other. -/
def run (t : Target γ ι σ δ) : List ι → σ → Except δ σ
  | [], s => .ok s
  | insn :: rest, s => (t.step s insn).bind (t.run rest)

@[simp] theorem run_nil (s : σ) : t.run [] s = .ok s := rfl

theorem run_append (front back : List ι) (s : σ) :
    t.run (front ++ back) s = (t.run front s).bind (t.run back) := by
  induction front generalizing s with
  | nil => rfl
  | cons insn front ih =>
      rw [List.cons_append, run, run]
      cases t.step s insn with
      | error e => rfl
      | ok s => exact ih s

theorem run_append_of_ok {front back : List ι} {s s' : σ} (ran : t.run front s = .ok s') :
    t.run (front ++ back) s = t.run back s' := by
  rw [run_append, ran]
  rfl

/-- When the generator succeeds, what it appended runs on the machine, and both are left as `Q` says. -/
def wp (m : StateT γ (Except ε) α) (Q : α → γ → σ → Prop) (g : γ) (s : σ) : Prop :=
  ∀ a g', m.run g = .ok (a, g') →
    ∃ seg s', t.code g' = t.code g ++ seg ∧ t.run seg s = .ok s' ∧ Q a g' s'

variable {t} {Q R : α → γ → σ → Prop} {g g' : γ} {s s' : σ}

theorem wp_mono {m : StateT γ (Except ε) α} (first : t.wp m Q g s) (weaker : ∀ a g s, Q a g s → R a g s) :
    t.wp m R g s := by
  intro a g' ran
  obtain ⟨seg, s', appended, reached, holds⟩ := first a g' ran
  exact ⟨seg, s', appended, reached, weaker a g' s' holds⟩

/-- Another way to write the same generator. -/
theorem wp_congr {m n : StateT γ (Except ε) α} (same : m = n) (holds : t.wp n Q g s) : t.wp m Q g s := same ▸ holds

theorem wp_pure {a : α} (holds : Q a g s) : t.wp (pure a : StateT γ (Except ε) α) Q g s := by
  intro b g' ran
  cases ran
  exact ⟨[], s, (List.append_nil _).symm, rfl, holds⟩

theorem wp_bind {m : StateT γ (Except ε) β} {f : β → StateT γ (Except ε) α}
    (first : t.wp m (fun b => t.wp (f b) Q) g s) : t.wp (m >>= f) Q g s := by
  intro a g'' ran
  rw [StateT.run_bind] at ran
  cases firstRan : m.run g with
  | error e =>
      rw [firstRan] at ran
      exact nomatch ran
  | ok result =>
      obtain ⟨b, g'⟩ := result
      rw [firstRan] at ran
      obtain ⟨seg, s', appended, reached, rest⟩ := first b g' firstRan
      obtain ⟨seg', s'', appended', reached', holds⟩ := rest a g'' ran
      refine ⟨seg ++ seg', s'', ?_, ?_, holds⟩
      · rw [appended', appended, List.append_assoc]
      · rw [t.run_append_of_ok reached, reached']

theorem wp_get {Q : γ → γ → σ → Prop} (holds : Q g g s) : t.wp (get : StateT γ (Except ε) γ) Q g s := by
  intro a g' ran
  cases ran
  exact ⟨[], s, (List.append_nil _).symm, rfl, holds⟩

theorem wp_set {Q : PUnit → γ → σ → Prop} (same : t.code g' = t.code g) (holds : Q ⟨⟩ g' s) :
    t.wp (set g' : StateT γ (Except ε) PUnit) Q g s := by
  intro a g'' ran
  cases ran
  exact ⟨[], s, same.trans (List.append_nil _).symm, rfl, holds⟩

theorem wp_modify {Q : PUnit → γ → σ → Prop} {f : γ → γ} (same : t.code (f g) = t.code g) (holds : Q ⟨⟩ (f g) s) :
    t.wp (modify f : StateT γ (Except ε) PUnit) Q g s := wp_set same holds

/-- Append one instruction that the machine runs. -/
theorem wp_emit {Q : PUnit → γ → σ → Prop} {f : γ → γ} {insn : ι} (appended : t.code (f g) = t.code g ++ [insn])
    (stepped : t.step s insn = .ok s') (holds : Q ⟨⟩ (f g) s') :
    t.wp (modify f : StateT γ (Except ε) PUnit) Q g s := by
  intro a g'' ran
  cases ran
  refine ⟨[insn], s', appended, ?_, holds⟩
  rw [run, stepped]
  rfl

/-- One generator and two machines: both run the same instructions. -/
theorem wp_both {τ ζ : Type} {u : Target γ ι τ ζ} (sameCode : u.code = t.code) {R : α → γ → τ → Prop} {x : τ}
    {m : StateT γ (Except ε) α} (first : t.wp m Q g s) (second : u.wp m R g x) :
    t.wp m (fun a g' s' => Q a g' s' ∧ ∃ seg x', t.run seg s = .ok s' ∧ u.run seg x = .ok x' ∧ R a g' x') g s := by
  intro a g' ran
  obtain ⟨seg, s', appended, reached, holds⟩ := first a g' ran
  obtain ⟨seg', x', appended', reached', holds'⟩ := second a g' ran
  rw [sameCode, appended] at appended'
  rw [← List.append_cancel_left appended'] at reached'
  exact ⟨seg, s', appended, reached, holds, seg, x', reached, reached', holds'⟩

theorem wp_throw {e : ε} : t.wp (throw e : StateT γ (Except ε) α) Q g s := fun _ _ ran => nomatch ran

/-- A computation that does not know the state of the generator. -/
theorem wp_lift {x : Except ε α} (holds : ∀ a, x = .ok a → Q a g s) :
    t.wp (liftM x : StateT γ (Except ε) α) Q g s := by
  intro a g' ran
  cases x with
  | error e => exact nomatch ran
  | ok b =>
      cases ran
      exact ⟨[], s, (List.append_nil _).symm, rfl, holds _ rfl⟩

theorem wp_ite {c : Prop} [Decidable c] {m n : StateT γ (Except ε) α} (first : c → t.wp m Q g s)
    (second : ¬c → t.wp n Q g s) : t.wp (if c then m else n) Q g s := by
  split
  · exact first ‹_›
  · exact second ‹_›

/-- A loop over a list, with an invariant that knows which elements are done. -/
theorem wp_forM {l : List κ} {f : κ → StateT γ (Except ε) PUnit} (I : List κ → γ → σ → Prop) (start : I [] g s)
    (turn : ∀ done x rest, l = done ++ x :: rest → ∀ g s, I done g s → t.wp (f x) (fun _ => I (done ++ [x])) g s) :
    t.wp (l.forM f) (fun _ => I l) g s := by
  suffices loop : ∀ (rest done : List κ) (g : γ) (s : σ), l = done ++ rest → I done g s →
      t.wp (rest.forM f) (fun _ => I l) g s from loop l [] g s rfl start
  intro rest
  induction rest with
  | nil =>
      intro done g s parts holds
      rw [List.append_nil] at parts
      subst parts
      exact wp_pure holds
  | cons x rest ih =>
      intro done g s parts holds
      refine wp_bind (wp_mono (turn done x rest parts g s holds) fun _ g s holds => ?_)
      exact ih (done ++ [x]) g s (by rw [parts, List.append_assoc, List.singleton_append]) holds

/-- A generator that appends nothing. -/
theorem wp_of_run {m : StateT γ (Except ε) α} {a : α} (ran : m.run g = .ok (a, g')) (same : t.code g' = t.code g)
    (holds : Q a g' s) : t.wp m Q g s := by
  intro b g'' again
  rw [ran] at again
  cases again
  exact ⟨[], s, same.trans (List.append_nil _).symm, rfl, holds⟩

end Target

/-- Loops whose turns are equal. -/
theorem forM_congr {γ ε κ : Type} {l : List κ} {f g : κ → StateT γ (Except ε) PUnit} (same : ∀ x ∈ l, f x = g x) :
    l.forM f = l.forM g := by
  induction l with
  | nil => rfl
  | cons x rest ih =>
      have first := same x List.mem_cons_self
      have later := ih fun y member => same y (List.mem_cons_of_mem x member)
      show (f x >>= fun _ => rest.forM f) = (g x >>= fun _ => rest.forM g)
      rw [first, later]

/-! ### Generators that succeed -/

section Generates

variable {γ ε α β κ : Type} {P R : α → γ → Prop} {g g' : γ}

/-- The generator succeeds, and leaves its state as `P` says. -/
def Generates (m : StateT γ (Except ε) α) (P : α → γ → Prop) (g : γ) : Prop :=
  ∃ a g', m.run g = .ok (a, g') ∧ P a g'

theorem generates_mono {m : StateT γ (Except ε) α} (first : Generates m P g) (weaker : ∀ a g, P a g → R a g) :
    Generates m R g := by
  obtain ⟨a, g', ran, holds⟩ := first
  exact ⟨a, g', ran, weaker a g' holds⟩

theorem generates_pure {a : α} (holds : P a g) : Generates (pure a : StateT γ (Except ε) α) P g := ⟨a, g, rfl, holds⟩

theorem generates_bind {m : StateT γ (Except ε) β} {f : β → StateT γ (Except ε) α}
    (first : Generates m (fun b => Generates (f b) P) g) : Generates (m >>= f) P g := by
  obtain ⟨b, g', ran, a, g'', ran', holds⟩ := first
  refine ⟨a, g'', ?_, holds⟩
  rw [StateT.run_bind, ran]
  exact ran'

theorem generates_get {P : γ → γ → Prop} (holds : P g g) : Generates (get : StateT γ (Except ε) γ) P g :=
  ⟨g, g, rfl, holds⟩

theorem generates_modify {P : PUnit → γ → Prop} {f : γ → γ} (holds : P ⟨⟩ (f g)) :
    Generates (modify f : StateT γ (Except ε) PUnit) P g := ⟨⟨⟩, f g, rfl, holds⟩

theorem generates_lift {x : Except ε α} {a : α} (value : x = .ok a) (holds : P a g) :
    Generates (liftM x : StateT γ (Except ε) α) P g := by
  cases value
  exact ⟨a, g, rfl, holds⟩

theorem generates_ite {c : Prop} [Decidable c] {m n : StateT γ (Except ε) α} (first : c → Generates m P g)
    (second : ¬c → Generates n P g) : Generates (if c then m else n) P g := by
  split
  · exact first ‹_›
  · exact second ‹_›

/-- A loop over a list whose turns keep an invariant. -/
theorem generates_forM {l : List κ} {f : κ → StateT γ (Except ε) PUnit} (I : γ → Prop) (start : I g)
    (turn : ∀ x ∈ l, ∀ g, I g → Generates (f x) (fun _ => I) g) : Generates (l.forM f) (fun _ => I) g := by
  induction l generalizing g with
  | nil => exact generates_pure start
  | cons x rest ih =>
      refine generates_bind (generates_mono (turn x List.mem_cons_self g start) ?_)
      intro _ g holds
      exact ih holds fun y member => turn y (List.mem_cons_of_mem x member)

/-! ### Generators that succeed -/

/-- A call that goes through was two calls that went through. -/
theorem bind_eq_ok {first : Except ε β} {next : β → Except ε α} {a : α} (done : first >>= next = .ok a) :
    ∃ b, first = .ok b ∧ next b = .ok a := by
  cases first with
  | error e => cases done
  | ok b => exact ⟨b, rfl, done⟩

/-- The same for two generators. -/
theorem run_bind_eq_ok {m : StateT γ (Except ε) β} {f : β → StateT γ (Except ε) α} {a : α} {g' : γ}
    (ran : (m >>= f).run g = .ok (a, g')) : ∃ b g₁, m.run g = .ok (b, g₁) ∧ (f b).run g₁ = .ok (a, g') := by
  obtain ⟨⟨b, g₁⟩, first, rest⟩ := bind_eq_ok ran
  exact ⟨b, g₁, first, rest⟩

/-! ### Generators that fail -/

/-- The generator does not succeed. -/
def Fails (m : StateT γ (Except ε) α) (g : γ) : Prop := ∀ a g', m.run g ≠ .ok (a, g')

theorem fails_of_error {m : StateT γ (Except ε) α} {e : ε} (ran : m.run g = .error e) : Fails m g := by
  intro a g' success
  rw [ran] at success
  exact nomatch success

theorem fails_bind {m : StateT γ (Except ε) β} {f : β → StateT γ (Except ε) α}
    (later : ∀ b g', m.run g = .ok (b, g') → Fails (f b) g') : Fails (m >>= f) g := by
  intro a g'' success
  rw [StateT.run_bind] at success
  cases first : m.run g with
  | error e =>
      rw [first] at success
      exact nomatch success
  | ok result =>
      obtain ⟨b, g'⟩ := result
      rw [first] at success
      exact later b g' first a g'' success

/-- A loop with a turn that fails. -/
theorem fails_forM {l : List κ} {f : κ → StateT γ (Except ε) PUnit} {x : κ} (member : x ∈ l)
    (turn : ∀ g, Fails (f x) g) : Fails (l.forM f) g := by
  induction l generalizing g with
  | nil => exact nomatch member
  | cons y rest ih =>
      refine fails_bind fun b g' ran => ?_
      rcases List.mem_cons.1 member with rfl | later
      · exact absurd ran (turn g b g')
      · exact ih later

end Generates

end AsconSuite.Emit
