import Mathlib.Data.List.Basic

/-!
# Runs of a deterministic machine

A machine is a step function on a state and an event, the event carrying every choice the
environment makes.  `Meets` says every step of a run meets a condition on its event and the state
before it, `Along` that every state a run passes through has a property.

`meets_along` is the rule the safety proofs use: an invariant kept by the steps that meet a
condition holds along every run whose steps all meet it.  `along_iff_meets` is the exact form,
where the first step that misses the condition already breaks the property.
-/

namespace Runs

variable {σ ε : Type*} (step : σ → ε → σ)

/-- The state a run ends in. -/
def run (s : σ) (es : List ε) : σ := es.foldl step s

/-- Every step of the run meets `C`, at the state it is taken from. -/
def Meets (C : σ → ε → Prop) : σ → List ε → Prop
  | _, [] => True
  | s, e :: es => C s e ∧ Meets C (step s e) es

/-- Every state the run passes through has `P`, the first and the last included. -/
def Along (P : σ → Prop) : σ → List ε → Prop
  | s, [] => P s
  | s, e :: es => P s ∧ Along P (step s e) es

@[simp] theorem run_nil (s : σ) : run step s [] = s := rfl

@[simp] theorem run_cons (s : σ) (e : ε) (es : List ε) :
    run step s (e :: es) = run step (step s e) es := rfl

instance decidableMeets (C : σ → ε → Prop) [∀ s e, Decidable (C s e)] :
    ∀ s es, Decidable (Meets step C s es)
  | _, [] => isTrue trivial
  | s, e :: es =>
    have := decidableMeets C (step s e) es
    inferInstanceAs (Decidable (C s e ∧ Meets step C (step s e) es))

instance decidableAlong (P : σ → Prop) [DecidablePred P] :
    ∀ (s : σ) (es : List ε), Decidable (Along step P s es)
  | s, [] => inferInstanceAs (Decidable (P s))
  | s, e :: es =>
    have := decidableAlong P (step s e) es
    inferInstanceAs (Decidable (P s ∧ Along step P (step s e) es))

variable {step}

theorem Along.head {P : σ → Prop} {s : σ} : ∀ {es : List ε}, Along step P s es → P s
  | [], h => h
  | _ :: _, h => h.1

theorem Along.last {P : σ → Prop} : ∀ {s : σ} {es : List ε}, Along step P s es → P (run step s es)
  | _, [], h => h
  | _, _ :: _, h => h.2.last

theorem Along.mono {P Q : σ → Prop} (h : ∀ s, P s → Q s) :
    ∀ {s : σ} {es : List ε}, Along step P s es → Along step Q s es
  | _, [], hp => h _ hp
  | _, _ :: _, hp => ⟨h _ hp.1, hp.2.mono h⟩

theorem Meets.and {C D : σ → ε → Prop} : ∀ {s : σ} {es : List ε},
    Meets step C s es → Meets step D s es → Meets step (fun s e => C s e ∧ D s e) s es
  | _, [], _, _ => trivial
  | _, _ :: _, hc, hd => ⟨⟨hc.1, hd.1⟩, hc.2.and hd.2⟩

theorem meets_of_forall {C : ε → Prop} : ∀ {s : σ} {es : List ε}, (∀ e ∈ es, C e) →
    Meets step (fun _ e => C e) s es
  | _, [], _ => trivial
  | _, _ :: _, h =>
    ⟨h _ List.mem_cons_self, meets_of_forall fun e he => h e (List.mem_cons_of_mem _ he)⟩

/-- An invariant the steps meeting `C` keep holds along every run whose steps all meet `C`. -/
theorem meets_along {C : σ → ε → Prop} {I : σ → Prop}
    (hstep : ∀ s e, I s → C s e → I (step s e)) :
    ∀ {s : σ} {es : List ε}, I s → Meets step C s es → Along step I s es
  | _, [], hi, _ => hi
  | _, _ :: _, hi, hc => ⟨hi, meets_along hstep (hstep _ _ hi hc.1) hc.2⟩

/-- Where an invariant gives a condition `D` on the steps that meet `C`, the runs whose steps meet
`C` meet `D`. -/
theorem meets_of_meets {C D : σ → ε → Prop} {I : σ → Prop}
    (hstep : ∀ s e, I s → C s e → I (step s e)) (hD : ∀ s e, I s → C s e → D s e) :
    ∀ {s : σ} {es : List ε}, I s → Meets step C s es → Meets step D s es
  | _, [], _, _ => trivial
  | _, _ :: _, hi, hc => ⟨hD _ _ hi hc.1, meets_of_meets hstep hD (hstep _ _ hi hc.1) hc.2⟩

/-- Among the runs whose steps are admissible (`G`): where the steps that meet `C` keep the
invariant, and a step from the invariant that misses `C` breaks `P`, `P` holds along a run exactly
when all of its steps meet `C`. -/
theorem along_iff_meets {G C : σ → ε → Prop} {I P : σ → Prop} (hIP : ∀ s, I s → P s)
    (hstep : ∀ s e, I s → G s e → C s e → I (step s e))
    (hbreak : ∀ s e, I s → G s e → ¬ C s e → ¬ P (step s e)) :
    ∀ {s : σ} {es : List ε}, I s → Meets step G s es →
      (Along step P s es ↔ Meets step C s es)
  | _, [], hi, _ => ⟨fun _ => trivial, fun _ => hIP _ hi⟩
  | s, e :: es, hi, hg => by
    by_cases hc : C s e
    · have ih := along_iff_meets hIP hstep hbreak (hstep s e hi hg.1 hc) hg.2
      exact ⟨fun h => ⟨hc, ih.1 h.2⟩, fun h => ⟨hIP s hi, ih.2 h.2⟩⟩
    · exact ⟨fun h => absurd h.2.head (hbreak s e hi hg.1 hc), fun h => absurd h.1 hc⟩

/-- Where a step from a state with `P` meets `C` exactly when it meets `Q` and leads to `P`, the
runs along which both hold are those whose steps all meet `C`. -/
theorem along_meets_iff {G Q C : σ → ε → Prop} {I P : σ → Prop}
    (hkeep : ∀ s e, I s → G s e → I (step s e))
    (hiff : ∀ s e, I s → P s → G s e → ((P (step s e) ∧ Q s e) ↔ C s e)) :
    ∀ {s : σ} {es : List ε}, I s → P s → Meets step G s es →
      ((Along step P s es ∧ Meets step Q s es) ↔ Meets step C s es)
  | _, [], _, hp, _ => ⟨fun _ => trivial, fun _ => ⟨hp, trivial⟩⟩
  | s, e :: es, hi, hp, hg => by
    have hstep := hiff s e hi hp hg.1
    constructor
    · rintro ⟨⟨-, halong⟩, hq, hqs⟩
      have hp' := halong.head
      exact ⟨hstep.1 ⟨hp', hq⟩,
        (along_meets_iff hkeep hiff (hkeep s e hi hg.1) hp' hg.2).1 ⟨halong, hqs⟩⟩
    · rintro ⟨hc, hcs⟩
      obtain ⟨hp', hq⟩ := hstep.2 hc
      obtain ⟨halong, hqs⟩ :=
        (along_meets_iff hkeep hiff (hkeep s e hi hg.1) hp' hg.2).2 hcs
      exact ⟨⟨hp, halong⟩, hq, hqs⟩

/-- Where the steps that meet `C` leave a content as it is and the others add to its weight, a run
leaves the content as it is when all of its steps meet `C`, and else has added to the weight. -/
theorem meets_or_grows {τ : Type*} {C : σ → ε → Prop} (content : σ → τ) (weight : τ → ℕ)
    (hsame : ∀ s e, C s e → content (step s e) = content s)
    (hgrows : ∀ s e, ¬ C s e → weight (content s) < weight (content (step s e))) :
    ∀ (es : List ε) (s : σ), (Meets step C s es → content (run step s es) = content s) ∧
      (¬ Meets step C s es → weight (content s) < weight (content (run step s es)))
  | [], s => ⟨fun _ => rfl, fun h => absurd trivial h⟩
  | e :: es, s => by
    obtain ⟨ihsame, ihgrows⟩ := meets_or_grows content weight hsame hgrows es (step s e)
    rw [run_cons]
    refine ⟨fun h => (ihsame h.2).trans (hsame s e h.1), fun h => ?_⟩
    by_cases he : C s e
    · rw [← hsame s e he]
      exact ihgrows fun hes => h ⟨he, hes⟩
    · have hlt := hgrows s e he
      by_cases hes : Meets step C (step s e) es
      · rw [ihsame hes]
        exact hlt
      · exact Nat.lt_trans hlt (ihgrows hes)

end Runs
