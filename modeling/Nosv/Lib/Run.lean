import Mathlib.Logic.Function.Basic

/-!
# Runs of guarded step functions

A system is a partial step function `step : σ → ℓ → Option σ`: the label
says who moves and how, `none` says that the move is not enabled. A run
is a list of labels; everything proved about a system is proved of one
step and then carried to every run by the rules below.

`Along` speaks about the steps of a run rather than about its states: a
predicate on the state *before* a step and its label holds at every step.
It is used twice, for the conditions a run is assumed to meet and for
the facts that are claimed of every step of it (`along_of_invariant`).
-/

namespace Run

variable {σ ℓ : Type*} (step : σ → ℓ → Option σ)

/-- The state after a list of labels, `none` if some label was not enabled. -/
def run : σ → List ℓ → Option σ
  | s, [] => some s
  | s, a :: as =>
      match step s a with
      | none => none
      | some s' => run s' as

/-- `P` holds of the state and the label at every step of the run. -/
def Along (P : σ → ℓ → Prop) : σ → List ℓ → Prop
  | _, [] => True
  | s, a :: as =>
      P s a ∧ match step s a with
        | none => True
        | some s' => Along P s' as

instance decidableAlong {P : σ → ℓ → Prop} [∀ s a, Decidable (P s a)] :
    ∀ s as, Decidable (Along step P s as)
  | _, [] => inferInstanceAs (Decidable True)
  | s, a :: as =>
      match h : step s a with
      | none => decidable_of_iff (P s a) (by simp [Along, h])
      | some s' =>
          have := decidableAlong (P := P) s' as
          decidable_of_iff (P s a ∧ Along step P s' as) (by simp [Along, h])

variable {step}

/-- What the first step of a run did. -/
theorem run_cons {s s' : σ} {a : ℓ} {as : List ℓ}
    (h : run step s (a :: as) = some s') :
    ∃ t, step s a = some t ∧ run step t as = some s' := by
  rw [run] at h
  cases hstep : step s a with
  | none => rw [hstep] at h; cases h
  | some t => rw [hstep] at h; exact ⟨t, rfl, h⟩

theorem run_append {s t : σ} {as : List ℓ} (bs : List ℓ) (h : run step s as = some t) :
    run step s (as ++ bs) = run step t bs := by
  induction as generalizing s with
  | nil =>
      obtain rfl := Option.some.inj h
      rfl
  | cons a as ih =>
      obtain ⟨u, hstep, hrest⟩ := run_cons h
      rw [List.cons_append, run, hstep]
      exact ih hrest

/-- The same step over and over again, through a sequence of states. -/
theorem run_replicate {f : Nat → σ} {a : ℓ} {bound : Nat}
    (hstep : ∀ n < bound, step (f n) a = some (f (n + 1))) (as : List ℓ) :
    ∀ {m n : Nat}, n + m ≤ bound →
      run step (f n) (List.replicate m a ++ as) = run step (f (n + m)) as
  | 0, _, _ => rfl
  | m + 1, n, hle => by
      rw [List.replicate_succ, List.cons_append, run, hstep n (by omega)]
      simp only
      rw [run_replicate hstep as (by omega), Nat.add_right_comm, Nat.add_assoc]

theorem along_cons {P : σ → ℓ → Prop} {s t : σ} {a : ℓ} {as : List ℓ}
    (hstep : step s a = some t) (h : Along step P s (a :: as)) :
    P s a ∧ Along step P t as := by
  simpa only [Along, hstep] using h

/-- What holds along a run holds along its end. -/
theorem along_append {P : σ → ℓ → Prop} {t : σ} {bs : List ℓ} :
    ∀ {s : σ} {as : List ℓ}, run step s as = some t → Along step P s (as ++ bs) → Along step P t bs
  | s, [], hrun, h => by
      obtain rfl := Option.some.inj hrun
      exact h
  | s, a :: as, hrun, h => by
      obtain ⟨u, hstep, hrest⟩ := run_cons hrun
      exact along_append hrest (along_cons hstep h).2

/-- What holds along a run holds of its last step. -/
theorem along_last {P : σ → ℓ → Prop} {s t : σ} {a : ℓ} {as : List ℓ} (hrun : run step s as = some t)
    (h : Along step P s (as ++ [a])) : P t a := (along_append hrun h).1

theorem Along.and {P Q : σ → ℓ → Prop} :
    ∀ {s : σ} {as : List ℓ}, Along step P s as → Along step Q s as →
      Along step (fun s a => P s a ∧ Q s a) s as
  | _, [], _, _ => trivial
  | s, a :: as, hP, hQ => by
      refine ⟨⟨hP.1, hQ.1⟩, ?_⟩
      cases ht : step s a with
      | none => trivial
      | some t => exact (along_cons ht hP).2.and (along_cons ht hQ).2

/-- A predicate that every label of the run meets in any state. -/
theorem along_of_forall_mem {P : σ → ℓ → Prop} :
    ∀ {s : σ} {as : List ℓ}, (∀ a ∈ as, ∀ s, P s a) → Along step P s as
  | _, [], _ => trivial
  | s, a :: as, h => by
      refine ⟨h a List.mem_cons_self s, ?_⟩
      cases step s a with
      | none => trivial
      | some t => exact along_of_forall_mem fun b hb => h b (List.mem_cons_of_mem a hb)

/-- **Invariant rule.** A property that every step allowed by `C` keeps,
holds after every run whose steps `C` allows. -/
theorem invariant_along {C : σ → ℓ → Prop} {I : σ → Prop}
    (hstep : ∀ s a s', C s a → step s a = some s' → I s → I s') :
    ∀ {s s' : σ} {as : List ℓ}, Along step C s as → run step s as = some s' →
      I s → I s'
  | s, s', [], _, hrun, hinv => by
      obtain rfl := Option.some.inj hrun
      exact hinv
  | s, s', a :: as, hC, hrun, hinv => by
      obtain ⟨t, ht, hrest⟩ := run_cons hrun
      obtain ⟨hCa, hCrest⟩ := along_cons ht hC
      exact invariant_along hstep hCrest hrest (hstep s a t hCa ht hinv)

/-- The rule without a condition on the steps. -/
theorem invariant {I : σ → Prop}
    (hstep : ∀ s a s', step s a = some s' → I s → I s')
    {s s' : σ} {as : List ℓ} (hrun : run step s as = some s') (hinv : I s) :
    I s' := by
  exact invariant_along (C := fun _ _ => True)
    (fun s a s' _ => hstep s a s') (along_of_forall_mem fun _ _ _ => trivial) hrun hinv

/-- **Progress rule.** When every allowed step is enabled under the invariant,
and keeps it, the whole run is possible. -/
theorem progress_along {C : σ → ℓ → Prop} {I : σ → Prop}
    (hstep : ∀ s a, C s a → I s → ∃ s', step s a = some s' ∧ I s') :
    ∀ {s : σ} {as : List ℓ}, Along step C s as → I s → ∃ s', run step s as = some s' ∧ I s'
  | s, [], _, hinv => ⟨s, rfl, hinv⟩
  | s, a :: as, hC, hinv => by
      obtain ⟨t, ht, hinv'⟩ := hstep s a hC.1 hinv
      obtain ⟨s', hrun, hinv''⟩ := progress_along hstep (along_cons ht hC).2 hinv'
      refine ⟨s', ?_, hinv''⟩
      rw [run, ht]
      exact hrun

/-- A fact that the invariant gives at every allowed step holds along
the whole run. -/
theorem along_of_invariant {C P : σ → ℓ → Prop} {I : σ → Prop}
    (hstep : ∀ s a s', C s a → step s a = some s' → I s → I s')
    (hP : ∀ s a, C s a → I s → P s a) :
    ∀ {s : σ} {as : List ℓ}, Along step C s as → I s → Along step P s as
  | _, [], _, _ => trivial
  | s, a :: as, hC, hinv => by
      refine ⟨hP s a hC.1 hinv, ?_⟩
      cases ht : step s a with
      | none => trivial
      | some t =>
          obtain ⟨hCa, hCrest⟩ := along_cons ht hC
          exact along_of_invariant hstep hP hCrest (hstep s a t hCa ht hinv)

/-- A condition that the invariant makes equivalent to `P` at every step,
and that keeps the invariant, is equivalent to `P` along the whole run. -/
theorem along_iff_of_invariant {R C P : σ → ℓ → Prop} {I : σ → Prop}
    (hstep : ∀ s a s', R s a → C s a → step s a = some s' → I s → I s')
    (hP : ∀ s a, R s a → I s → (P s a ↔ C s a)) :
    ∀ {s : σ} {as : List ℓ}, Along step R s as → I s →
      (Along step P s as ↔ Along step C s as)
  | _, [], _, _ => Iff.rfl
  | s, a :: as, hR, hinv => by
      have hiff := hP s a hR.1 hinv
      unfold Along
      cases ht : step s a with
      | none => simp only [and_true, hiff]
      | some t =>
          obtain ⟨hRa, hRrest⟩ := along_cons ht hR
          constructor
          · rintro ⟨hPa, hrest⟩
            have hinv' := hstep s a t hRa (hiff.mp hPa) ht hinv
            exact ⟨hiff.mp hPa, (along_iff_of_invariant hstep hP hRrest hinv').mp hrest⟩
          · rintro ⟨hCa, hrest⟩
            have hinv' := hstep s a t hRa hCa ht hinv
            exact ⟨hiff.mpr hCa, (along_iff_of_invariant hstep hP hRrest hinv').mpr hrest⟩

/-- A property that no step can bring about was there all along. -/
theorem along_of_final {C : σ → ℓ → Prop} {I P : σ → Prop}
    (hstep : ∀ s a s', C s a → step s a = some s' → I s → I s')
    (hback : ∀ s a s', step s a = some s' → I s → P s' → P s) :
    ∀ {s s' : σ} {as : List ℓ}, Along step C s as → run step s as = some s' → I s → P s' →
      P s ∧ Along step (fun s a => P s ∧ ∀ s', step s a = some s' → P s') s as
  | s, s', [], _, hrun, _, hP => by
      obtain rfl := Option.some.inj hrun
      exact ⟨hP, trivial⟩
  | s, s', a :: as, hC, hrun, hI, hP => by
      obtain ⟨t, ht, hrest⟩ := run_cons hrun
      obtain ⟨hCa, hCrest⟩ := along_cons ht hC
      obtain ⟨hPt, halong⟩ := along_of_final hstep hback hCrest hrest (hstep s a t hCa ht hI) hP
      have hPs : P s := hback s a t ht hI hPt
      refine ⟨hPs, ⟨hPs, fun s' hs' => ?_⟩, ?_⟩
      · rw [ht] at hs'
        exact Option.some.inj hs' ▸ hPt
      · rw [ht]
        exact halong

/-! ## What happens in a run -/

/-- The sum of what `f` says of the steps of a run. -/
def tally (step : σ → ℓ → Option σ) (f : σ → ℓ → Nat) : σ → List ℓ → Nat
  | _, [] => 0
  | s, a :: as =>
      match step s a with
      | none => 0
      | some s' => f s a + tally step f s' as

/-- **Account rule.** What each step puts into an account and takes from
it adds up over a run. -/
theorem tally_account {C : σ → ℓ → Prop} {I : σ → Prop} {f g : σ → ℓ → Nat} (account : σ → Nat)
    (hstep : ∀ s a s', C s a → step s a = some s' → I s → I s')
    (hsum : ∀ s a s', C s a → step s a = some s' → I s → account s' + f s a = account s + g s a) :
    ∀ {s s' : σ} {as : List ℓ}, Along step C s as → run step s as = some s' → I s →
      account s' + tally step f s as = account s + tally step g s as
  | s, s', [], _, hrun, _ => by
      obtain rfl := Option.some.inj hrun
      rfl
  | s, s', a :: as, hC, hrun, hI => by
      obtain ⟨t, ht, hrest⟩ := run_cons hrun
      obtain ⟨hCa, hCrest⟩ := along_cons ht hC
      have hone := hsum s a t hCa ht hI
      have hall := tally_account account hstep hsum hCrest hrest (hstep s a t hCa ht hI)
      simp only [tally, ht]
      omega

/-! ## Loops

A loop over a list that may fail at any element; the rule speaks about the
elements that have been gone through. -/

theorem foldlM_induction {step : σ → ℓ → Option σ} {P : List ℓ → σ → Prop} {as : List ℓ} {s s' : σ}
    (h : as.foldlM step s = some s') (hstart : P [] s)
    (hstep : ∀ done a rest s₁ s₂, as = done ++ a :: rest → P done s₁ → step s₁ a = some s₂ →
      P (done ++ [a]) s₂) : P as s' := by
  suffices ∀ done rest s₁, as = done ++ rest → P done s₁ → rest.foldlM step s₁ = some s' → P as s' from
    this [] as s rfl hstart h
  intro done rest
  induction rest generalizing done with
  | nil =>
    intro s₁ has hP hrun
    obtain rfl := Option.some.inj hrun
    rwa [has, List.append_nil]
  | cons a rest ih =>
    intro s₁ has hP hrun
    rw [List.foldlM_cons] at hrun
    obtain ⟨s₂, h₂, hrun⟩ := Option.bind_eq_some_iff.mp hrun
    refine ih (done ++ [a]) s₂ ?_ (hstep done a rest s₁ s₂ has hP h₂) hrun
    rw [has, List.append_assoc, List.singleton_append]

end Run
