/-
# `CallLang.Proofs.Transparent` — a session does not show in its answers

A cache is sound for a computation when every answer that it holds is the one
that the computation gives (`Cache.Sound`).  Requests, hits and misses alike,
keep a cache sound, and a sound cache answers as the computation does
(`Cache.Sound.request`); what is dropped or forgotten does not matter.  The
programs of a session are such a cache, for parsing, and nothing else of a
session is read by a run.  So whatever has gone on in a session, a run answers
as it does alone.
-/
import CallLang.Session

namespace CallLang

/-! ## Caches -/

namespace Cache

variable {κ α ε : Type}

/-- Every answer that the cache holds is the one that `compute` gives. -/
def Sound (c : Cache κ α) (compute : κ → Except ε α) : Prop :=
  ∀ entry ∈ c.entries, compute entry.1 = .ok entry.2

variable {c : Cache κ α} {compute : κ → Except ε α} {k : κ} {a : α}

theorem Sound.of_entries_nil (h : c.entries = []) : c.Sound compute := by
  intro entry hentry
  rw [h] at hentry
  exact absurd hentry List.not_mem_nil

theorem Sound.clear : c.clear.Sound compute :=
  .of_entries_nil rfl

theorem Sound.store (h : c.Sound compute) (hk : compute k = .ok a) :
    (c.store k a).Sound compute := by
  intro entry hentry
  rcases List.mem_cons.mp (List.mem_of_mem_take hentry) with rfl | hentry
  · exact hk
  · exact h entry hentry

theorem Sound.countMiss (h : c.Sound compute) : c.countMiss.Sound compute := h

variable [BEq κ]

theorem Sound.touch (h : c.Sound compute) (hk : compute k = .ok a) :
    (c.touch k a).Sound compute := by
  intro entry hentry
  rcases List.mem_cons.mp hentry with rfl | hentry
  · exact hk
  · exact h entry (List.mem_filter.mp hentry).1

theorem Sound.of_find? [LawfulBEq κ] (h : c.Sound compute) (hk : c.find? k = some a) :
    compute k = .ok a := by
  obtain ⟨newer, older, hentries, -⟩ := List.lookup_eq_some_iff.mp hk
  refine h (k, a) ?_
  rw [hentries]
  exact List.mem_append_right _ List.mem_cons_self

/-- A sound cache answers as the computation does, and stays sound. -/
theorem Sound.request [LawfulBEq κ] (h : c.Sound compute) (k : κ) :
    (c.request compute k).1 = compute k ∧ (c.request compute k).2.Sound compute := by
  unfold Cache.request
  cases hfind : c.find? k with
  | some a =>
      have hk := h.of_find? hfind
      exact ⟨hk.symm, h.touch hk⟩
  | none =>
      cases hk : compute k with
      | ok a => exact ⟨rfl, h.countMiss.store hk⟩
      | error e => exact ⟨rfl, h.countMiss⟩

end Cache

/-! ## Sessions -/

namespace Session

/-- Every program that the session holds is the parse of its source text. -/
def Sound (s : Session) : Prop :=
  s.programs.Sound parseSource

variable {s : Session}

theorem sound_start (settings : Settings) : (start settings).Sound :=
  Cache.Sound.of_entries_nil rfl

theorem note_programs (s : Session) (event : Event) : (s.note event).programs = s.programs := by
  unfold note
  split
  · rfl
  · split <;> rfl

theorem foldl_note_programs (s : Session) (events : List Event) :
    (events.foldl note s).programs = s.programs := by
  induction events generalizing s with
  | nil => rfl
  | cons event events ih => rw [List.foldl_cons, ih, note_programs]

/-- In a sound session a run answers as it does alone. -/
theorem Sound.run_answer (h : s.Sound) (channel : Channel) (source : String) :
    (s.run channel source).1 = CallLang.run channel source :=
  congrArg (runParsed channel) (Cache.Sound.request h source).1

theorem Sound.run (h : s.Sound) (channel : Channel) (source : String) :
    (s.run channel source).2.Sound := by
  unfold Sound Session.run
  rw [foldl_note_programs]
  exact (Cache.Sound.request h source).2

theorem Sound.clear : s.clear.Sound :=
  Cache.Sound.clear

end Session

/-! ## Histories -/

/-- The outcome of a step that was a run. -/
def StepAnswer.outcome? : StepAnswer → Option (Outcome RunError Value)
  | .ran outcome => some outcome
  | .cleared => none
  | .kernels _ _ => none

/-- What a step that is a run ends in when nothing has gone before. -/
def Step.alone? : Step → Option (Outcome RunError Value)
  | .run channel source => some (CallLang.run channel source)
  | .clear => none
  | .kernels => none

namespace Session

variable {s : Session}

/-- A sound session stays sound in every step. -/
theorem Sound.step (h : s.Sound) (step : Step) : (s.step step).2.Sound := by
  cases step with
  | run channel source => exact h.run channel source
  | clear => exact .clear
  | kernels => exact h

theorem Sound.step_answer (h : s.Sound) (step : Step) :
    (s.step step).1.outcome? = step.alone? := by
  cases step with
  | run channel source => exact congrArg some (h.run_answer channel source)
  | clear => rfl
  | kernels => rfl

theorem Sound.steps_answers (h : s.Sound) (steps : List Step) :
    (s.steps steps).map (·.1.outcome?) = steps.map Step.alone? := by
  induction steps generalizing s with
  | nil => rfl
  | cons step steps ih =>
      simp only [Session.steps, List.map_cons]
      rw [h.step_answer step, ih (h.step step)]

end Session

/-- **Sessions are transparent.**  However a session is set up and whatever steps
it takes, each run in it answers as the run of its source text alone, which is
also how it answers in a session where nothing has been run.  So two sessions
that take the same steps give the same answers to their runs. -/
theorem session_transparent (steps : List Step) :
    (∀ settings, ((Session.start settings).steps steps).map (·.1.outcome?) =
      steps.map Step.alone?) ∧
    (∀ settings channel source,
      ((Session.start settings).run channel source).1 = run channel source) ∧
    (∀ settings settings', ((Session.start settings).steps steps).map (·.1.outcome?) =
      ((Session.start settings').steps steps).map (·.1.outcome?)) := by
  have hanswers : ∀ settings, ((Session.start settings).steps steps).map (·.1.outcome?) =
      steps.map Step.alone? := by
    intro settings
    exact (Session.sound_start settings).steps_answers steps
  refine ⟨hanswers, ?_, ?_⟩
  · intro settings channel source
    exact (Session.sound_start settings).run_answer channel source
  · intro settings settings'
    rw [hanswers settings, hanswers settings']

end CallLang
