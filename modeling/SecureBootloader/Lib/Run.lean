import Mathlib.Data.List.Infix
import Mathlib.Tactic.Common

/-!
# Runs of a deterministic step function

A run is the fold of a step function over a list of events. An invariant that
every step keeps holds after every run; an invariant that a step keeps when the
state and the event meet a condition holds after every run that meets it.
-/

namespace Lib.Run

variable {S E : Type*} (step : S → E → S)

/-- The state after the events `es`. -/
def run (s : S) (es : List E) : S := es.foldl step s

@[simp] theorem run_nil (s : S) : run step s [] = s := rfl

@[simp] theorem run_cons (s : S) (e : E) (es : List E) :
    run step s (e :: es) = run step (step s e) es := rfl

theorem run_append (s : S) (es es' : List E) :
    run step s (es ++ es') = run step (run step s es) es' :=
  List.foldl_append

theorem run_concat (s : S) (es : List E) (e : E) :
    run step s (es ++ [e]) = step (run step s es) e := by
  rw [run_append]; rfl

/-- Every step of the run meets `C`. -/
def Meets (C : S → E → Prop) : S → List E → Prop
  | _, [] => True
  | s, e :: es => C s e ∧ Meets C (step s e) es

instance {C : S → E → Prop} [∀ s e, Decidable (C s e)] :
    ∀ s es, Decidable (Meets step C s es)
  | _, [] => inferInstanceAs (Decidable True)
  | s, e :: es =>
    have : Decidable (Meets step C (step s e) es) := instDecidableMeets _ es
    inferInstanceAs (Decidable (C s e ∧ Meets step C (step s e) es))

/-- In the run over `before ++ e :: after`, the step `e` is the last one that meets `C`. -/
def LastStep (C : S → E → Prop) (s : S) (before : List E) (e : E) (after : List E) : Prop :=
  C (run step s before) e ∧ Meets step (fun s e => ¬C s e) (step (run step s before) e) after

variable {step}

/-- What every step keeps, every run keeps. -/
theorem run_invariant {P : S → Prop} (keep : ∀ s e, P s → P (step s e)) {s : S} (h : P s)
    (es : List E) : P (run step s es) := by
  induction es generalizing s with
  | nil => exact h
  | cons e es ih => exact ih (keep s e h)

/-- What every step that meets `C` keeps, every run that meets `C` keeps. -/
theorem run_invariant_of_meets {P : S → Prop} {C : S → E → Prop}
    (keep : ∀ s e, P s → C s e → P (step s e)) {s : S} (h : P s) {es : List E}
    (meets : Meets step C s es) : P (run step s es) := by
  induction es generalizing s with
  | nil => exact h
  | cons e es ih => exact ih (keep s e h meets.1) meets.2

theorem meets_append {C : S → E → Prop} {s : S} {es es' : List E} :
    Meets step C s (es ++ es') ↔ Meets step C s es ∧ Meets step C (run step s es) es' := by
  induction es generalizing s with
  | nil => simp [Meets]
  | cons e es ih => simp [Meets, ih, and_assoc]

/-- A run meets `C` up to each of its states. -/
theorem Meets.of_prefix {C : S → E → Prop} {s : S} {es es' : List E}
    (meets : Meets step C s es) (h : es' <+: es) : Meets step C s es' := by
  obtain ⟨rest, rfl⟩ := h
  exact (meets_append.mp meets).1

/-- In each of its states but the last there is a step to come that meets `C`. -/
theorem Meets.at_prefix {C : S → E → Prop} {s : S} {es es' : List E} {e : E}
    (meets : Meets step C s (es ++ [e])) (h : es' <+: es) : ∃ e', C (run step s es') e' := by
  obtain ⟨rest, rfl⟩ := h
  rw [List.append_assoc] at meets
  have later := (meets_append.mp meets).2
  cases rest with
  | nil => exact ⟨e, later.1⟩
  | cons e' rest => exact ⟨e', later.1⟩

/-- A step that meets `C` is the last one to do so when it is made. -/
theorem LastStep.here {C : S → E → Prop} {s : S} {before : List E} {e : E}
    (met : C (run step s before) e) : LastStep step C s before e [] := ⟨met, trivial⟩

/-- It stays the last one over a step that does not meet `C`. -/
theorem LastStep.extend {C : S → E → Prop} {s : S} {before after : List E} {e e' : E}
    (last : LastStep step C s before e after)
    (unmet : ¬C (run step s (before ++ e :: after)) e') :
    LastStep step C s before e (after ++ [e']) := by
  refine ⟨last.1, meets_append.mpr ⟨last.2, ?_, trivial⟩⟩
  rwa [run_append, run_cons] at unmet

/-- If `I` is kept by the steps that meet `C`, gives `P`, and every step that does not
meet `C` leaves `P`, then the runs that stay in `P` are the runs that meet `C`. -/
theorem meets_iff_always {I P : S → Prop} {C : S → E → Prop}
    (keep : ∀ s e, I s → C s e → I (step s e)) (holds : ∀ s, I s → P s)
    (leave : ∀ s e, I s → ¬C s e → ¬P (step s e)) {s : S} (h : I s) (es : List E) :
    (∀ es', es' <+: es → P (run step s es')) ↔ Meets step C s es := by
  constructor
  · intro always
    induction es generalizing s with
    | nil => trivial
    | cons e es ih =>
      have met : C s e := by
        by_contra unmet
        exact leave s e h unmet (always [e] ⟨es, rfl⟩)
      refine ⟨met, ih (keep s e h met) ?_⟩
      intro es' hprefix
      exact always (e :: es') (List.cons_prefix_cons.mpr ⟨rfl, hprefix⟩)
  · intro meets es' hprefix
    exact holds _ (run_invariant_of_meets keep h (meets.of_prefix hprefix))

/-! ## What a run puts out -/

/-- What the steps of a run put out, one after the other. -/
def emitted {O : Type*} (step : S → E → S) (out : S → E → List O) : S → List E → List O
  | _, [] => []
  | s, e :: es => out s e ++ emitted step out (step s e) es

theorem emitted_append {O : Type*} (out : S → E → List O) (s : S) (es es' : List E) :
    emitted step out s (es ++ es') =
      emitted step out s es ++ emitted step out (run step s es) es' := by
  induction es generalizing s with
  | nil => rfl
  | cons e es ih =>
    rw [List.cons_append, emitted, emitted, ih, List.append_assoc]
    rfl

/-- What every step keeps of a state and the records of what was put out in two places, every
run keeps. -/
theorem run_emits {O O' : Type*} {out : S → E → List O} {out' : S → E → List O'}
    {P : S → List O → List O' → Prop}
    (keep : ∀ s e log log', P s log log' → P (step s e) (log ++ out s e) (log' ++ out' s e))
    {s : S} {log : List O} {log' : List O'} (h : P s log log') (es : List E) :
    P (run step s es) (log ++ emitted step out s es) (log' ++ emitted step out' s es) := by
  induction es generalizing s log log' with
  | nil =>
    rw [emitted, emitted, List.append_nil, List.append_nil]
    exact h
  | cons e es ih =>
    rw [emitted, emitted, ← List.append_assoc, ← List.append_assoc]
    exact ih (keep s e log log' h)

/-! ## Simulation -/

/-- If every step is followed by some events of another machine that meet `C`, with what is seen
of them, then every run is. -/
theorem run_simulates {T F O : Type*} {serve : T → F → T} {R : S → T → Prop} {C : T → F → Prop}
    (seen : S → List O) (view : F → Option O)
    (follows : ∀ s t e, R s t → ∃ fs, seen (step s e) = seen s ++ fs.filterMap view ∧
      Meets serve C t fs ∧ R (step s e) (run serve t fs))
    {s : S} {t : T} (h : R s t) (es : List E) :
    ∃ fs, seen (run step s es) = seen s ++ fs.filterMap view ∧ Meets serve C t fs ∧
      R (run step s es) (run serve t fs) := by
  induction es generalizing s t with
  | nil => exact ⟨[], (List.append_nil _).symm, trivial, h⟩
  | cons e es ih =>
    obtain ⟨fs, seen_fs, meets_fs, next⟩ := follows s t e h
    obtain ⟨more, seen_more, meets_more, last⟩ := ih next
    refine ⟨fs ++ more, ?_, meets_append.mpr ⟨meets_fs, meets_more⟩, ?_⟩
    · rw [run_cons, seen_more, seen_fs, List.filterMap_append, List.append_assoc]
    · rw [run_append]
      exact last

/-! ## Progress -/

/-- An invariant that speaks of the events to come, after some of them. -/
theorem run_keeps {I : S → List E → Prop} (keep : ∀ s e es, I s (e :: es) → I (step s e) es)
    {s : S} {es rest : List E} (h : I s (es ++ rest)) : I (run step s es) rest := by
  induction es generalizing s with
  | nil => exact h
  | cons e es ih => exact ih (keep s e _ h)

/-- If every marked event uses up work until the goal is reached, no other event adds any, and
there is some until then, then a run with as many marked events as there is work reaches the
goal on its way. -/
theorem run_reaches {I Goal : S → Prop} (work : S → Nat) (marked : E → Bool)
    (works : ∀ s e, I s → marked e = true →
      Goal (step s e) ∨ I (step s e) ∧ work (step s e) < work s)
    (rests : ∀ s e, I s → marked e = false →
      Goal (step s e) ∨ I (step s e) ∧ work (step s e) ≤ work s)
    (busy : ∀ s, I s → 0 < work s) {s : S} {es : List E} (h : I s)
    (enough : work s ≤ es.countP marked) : ∃ front, front <+: es ∧ Goal (run step s front) := by
  induction es generalizing s with
  | nil => exact absurd (busy s h) (Nat.not_lt.mpr enough)
  | cons e es ih =>
    have next : Goal (step s e) ∨ I (step s e) ∧ work (step s e) ≤ es.countP marked := by
      rw [List.countP_cons] at enough
      cases mark : marked e with
      | true =>
        rw [mark, if_pos rfl] at enough
        exact (works s e h mark).imp_right fun goes => ⟨goes.1, by omega⟩
      | false =>
        rw [mark, if_neg Bool.false_ne_true] at enough
        exact (rests s e h mark).imp_right fun goes => ⟨goes.1, by omega⟩
    rcases next with reached | ⟨there, enough⟩
    · exact ⟨[e], List.prefix_append [e] es, reached⟩
    · obtain ⟨front, isFront, reached⟩ := ih there enough
      exact ⟨e :: front, List.cons_prefix_cons.mpr ⟨rfl, isFront⟩, reached⟩

/-- If every marked event uses up work until the state is settled, no other event adds any,
and a settled state stays settled, then a run with more marked events than there is work
settles. The invariant may speak of the events to come. -/
theorem run_settles (I : S → List E → Prop) (Settled : S → Prop) (work : S → Nat)
    (marked : E → Bool) (keep : ∀ s e es, I s (e :: es) → I (step s e) es)
    (stays : ∀ s e es, I s (e :: es) → Settled s → Settled (step s e))
    (works : ∀ s e es, I s (e :: es) → marked e = true → ¬Settled s →
      Settled (step s e) ∨ work (step s e) < work s)
    (rests : ∀ s e es, I s (e :: es) → marked e = false → ¬Settled s →
      Settled (step s e) ∨ work (step s e) ≤ work s)
    {s : S} {es : List E} (h : I s es) (enough : Settled s ∨ work s < es.countP marked) :
    Settled (run step s es) := by
  induction es generalizing s with
  | nil => exact enough.resolve_right (Nat.not_lt_zero _)
  | cons e es ih =>
    refine ih (keep s e es h) ?_
    by_cases settled : Settled s
    · exact .inl (stays s e es h settled)
    · have more := enough.resolve_left settled
      rw [List.countP_cons] at more
      cases mark : marked e with
      | true =>
        rw [mark, if_pos rfl] at more
        exact (works s e es h mark settled).imp_right fun less => by omega
      | false =>
        rw [mark, if_neg Bool.false_ne_true] at more
        exact (rests s e es h mark settled).imp_right fun less => by omega

/-- A run whose events make progress or have nothing to do makes progress, or none of its
events has anything to do. -/
theorem run_progress (I : S → List E → Prop) (progress : S → Nat) (idle : S → E → Prop)
    (keep : ∀ s e es, I s (e :: es) → I (step s e) es)
    (moves : ∀ s e es, I s (e :: es) →
      progress s < progress (step s e) ∨ progress (step s e) = progress s ∧ idle s e)
    {s : S} {es rest : List E} (h : I s (es ++ rest)) :
    I (run step s es) rest ∧ progress s ≤ progress (run step s es) ∧
      (progress s < progress (run step s es) ∨ Meets step idle s es) := by
  induction es generalizing s with
  | nil => exact ⟨h, Nat.le_refl _, .inr trivial⟩
  | cons e es ih =>
    obtain ⟨there, most, more⟩ := ih (keep s e (es ++ rest) h)
    refine ⟨there, ?_⟩
    rw [run_cons]
    rcases moves s e (es ++ rest) h with further | ⟨same, idles⟩
    · have further' := Nat.lt_of_lt_of_le further most
      exact ⟨Nat.le_of_lt further', .inl further'⟩
    · exact ⟨same ▸ most, more.imp (same ▸ ·) fun all => ⟨idles, all⟩⟩

/-- If a round of events in which none has anything to do settles the state, and progress is
bounded, then a run with more rounds than that settles. -/
theorem run_rounds (I : S → List E → Prop) (Settled : S → Prop) (progress : S → Nat)
    (idle : S → E → Prop) (Round : List E → Prop) (bound : Nat)
    (keep : ∀ s e es, I s (e :: es) → I (step s e) es)
    (moves : ∀ s e es, I s (e :: es) →
      progress s < progress (step s e) ∨ progress (step s e) = progress s ∧ idle s e)
    (bounded : ∀ s es, I s es → progress s ≤ bound)
    (stays : ∀ s e es, I s (e :: es) → Settled s → Settled (step s e))
    (settles : ∀ s es rest, I s (es ++ rest) → Round es → Meets step idle s es → Settled s)
    {s : S} {rounds : List (List E)} (h : I s rounds.flatten) (fair : ∀ es ∈ rounds, Round es)
    (enough : Settled s ∨ bound < progress s + rounds.length) :
    Settled (run step s rounds.flatten) := by
  have settled {s : S} {es rest : List E} (h : I s (es ++ rest)) (there : Settled s) :
      Settled (run step s es) := by
    induction es generalizing s with
    | nil => exact there
    | cons e es ih => exact ih (keep s e _ h) (stays s e _ h there)
  induction rounds generalizing s with
  | nil => exact enough.resolve_right (Nat.not_lt.mpr (bounded s [] h))
  | cons es rounds ih =>
    rw [List.forall_mem_cons] at fair
    rw [List.flatten_cons] at h
    rw [List.flatten_cons, run_append]
    obtain ⟨there, -, more⟩ := run_progress I progress idle keep moves h
    refine ih there fair.2 ?_
    rcases enough with already | enough
    · exact .inl (settled h already)
    · rcases more with further | idles
      · rw [List.length_cons] at enough
        exact .inr (by omega)
      · exact .inl (settled h (settles s es _ h fair.1 idles))

end Lib.Run
