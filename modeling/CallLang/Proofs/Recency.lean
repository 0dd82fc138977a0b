/-
# `CallLang.Proofs.Recency` — which programs a session holds

The steps that a session has taken decide which programs it holds.  Take the
source texts that were run since the last clearing, the latest first
(`requests`); strike out those that are no programs, and of the others every run
but the latest of each (`Cache.answered`).  A session with room for `m` programs
holds the first `m` that are left.

The cache itself knows of no history.  It moves the entry of a hit to the front,
and puts a new one there behind a miss, at the cost of the last.  Both come to
the same (`take_front`): the asked key in front, then the others as they stood,
cut off at the capacity.  That is how the row of distinct requests changes too,
and so the two agree after each request (`Recent.request`).
-/
import Mathlib.Data.List.Induction
import CallLang.Proofs.Transparent

namespace CallLang

/-! ## Rows without repetitions -/

section Rows

variable {α : Type} [BEq α] [LawfulBEq α]

theorem eraseDups_filter (p : α → Bool) (xs : List α) :
    (xs.filter p).eraseDups = xs.eraseDups.filter p := by
  -- `eraseDups` goes on with a filtered row, which is shorter but no tail.
  induction hlen : xs.length using Nat.strongRecOn generalizing xs with
  | ind n ih =>
      subst hlen
      cases xs with
      | nil => rfl
      | cons x xs =>
          have htail := ih _ (Nat.lt_succ_of_le (List.length_filter_le (fun y => !y == x) xs)) _ rfl
          rw [List.eraseDups_cons]
          cases hx : p x with
          | true =>
              rw [List.filter_cons_of_pos hx, List.filter_cons_of_pos hx, List.eraseDups_cons,
                ← htail, List.filter_filter, List.filter_filter]
              simp only [Bool.and_comm]
          | false =>
              have hx' : ¬ p x = true := by simp [hx]
              have hsame : ∀ y ∈ xs, p y = (p y && !y == x) := by
                intro y _
                by_cases hy : y = x
                · subst hy
                  simp [hx]
                · simp [hy]
              rw [List.filter_cons_of_neg hx', List.filter_cons_of_neg hx', ← htail,
                List.filter_filter, List.filter_congr hsame]

theorem eraseDups_cons_filter (x : α) (xs : List α) :
    (x :: xs).eraseDups = x :: xs.eraseDups.filter (· != x) := by
  rw [List.eraseDups_cons, eraseDups_filter]
  rfl

theorem nodup_eraseDups (xs : List α) : xs.eraseDups.Nodup := by
  induction xs with
  | nil => exact List.nodup_nil
  | cons x xs ih =>
      rw [eraseDups_cons_filter]
      refine List.nodup_cons.mpr ⟨?_, ih.filter _⟩
      simp

theorem filter_bne_of_not_mem {x : α} {xs : List α} (h : x ∉ xs) : xs.filter (· != x) = xs := by
  refine List.filter_eq_self.mpr ?_
  intro y hy
  simpa using fun heq : y = x => h (heq ▸ hy)

theorem take_filter_of_mem {x : α} {xs : List α} (hxs : xs.Nodup) {m : Nat}
    (h : x ∈ xs.take (m + 1)) :
    (xs.filter (· != x)).take m = (xs.take (m + 1)).filter (· != x) := by
  induction xs generalizing m with
  | nil => exact absurd h List.not_mem_nil
  | cons y ys ih =>
      obtain ⟨hy, hys⟩ := List.nodup_cons.mp hxs
      by_cases hyx : y = x
      · subst hyx
        have hnot : y ∉ ys.take m := fun hmem => hy (List.mem_of_mem_take hmem)
        simp [filter_bne_of_not_mem hy, filter_bne_of_not_mem hnot]
      · have htail : x ∈ ys.take m := by simpa [Ne.symm hyx] using h
        cases m with
        | zero => exact absurd htail List.not_mem_nil
        | succ m => simp [hyx, ih hys htail]

theorem take_filter_of_not_mem {x : α} {xs : List α} {m : Nat} (h : x ∉ xs.take m) :
    (xs.filter (· != x)).take m = xs.take m := by
  induction xs generalizing m with
  | nil => rfl
  | cons y ys ih =>
      cases m with
      | zero => rfl
      | succ m =>
          rw [List.take_succ_cons, List.mem_cons, not_or] at h
          obtain ⟨hyx, hys⟩ := h
          simp [Ne.symm hyx, ih hys]

/-- The first `m` members, once `x` has come to the front: if `x` was among them
it is moved there, and else it takes the place of the last. -/
theorem take_front {xs : List α} (hxs : xs.Nodup) (x : α) (m : Nat) :
    (x ∈ xs.take m → (x :: xs.filter (· != x)).take m = x :: (xs.take m).filter (· != x)) ∧
    (x ∉ xs.take m → (x :: xs.filter (· != x)).take m = (x :: xs.take m).take m) := by
  cases m with
  | zero => exact ⟨fun h => absurd h List.not_mem_nil, fun _ => rfl⟩
  | succ m =>
      constructor
      · intro h
        rw [List.take_succ_cons, take_filter_of_mem hxs h]
      · intro h
        have hless : x ∉ xs.take m :=
          fun hmem => h (List.take_subset_take_left xs (Nat.le_succ m) hmem)
        simp [take_filter_of_not_mem hless, List.take_take]

end Rows

/-! ## Caches -/

namespace Cache

variable {κ α ε : Type}

/-- The keys whose answers are stored, the latest first. -/
def keys (c : Cache κ α) : List κ :=
  c.entries.map (·.1)

variable [BEq κ]

/-- The distinct keys that a computation answers, among those asked for. -/
def answered (compute : κ → Except ε α) (asked : List κ) : List κ :=
  (asked.filter fun k => (compute k).isOk).eraseDups

/-- `c.Recent compute asked`: the cache has answered the requests `asked`, the
latest first, and no others.  It stores the answers to the latest distinct ones,
as many as it has room for, and has counted all of them. -/
structure Recent (c : Cache κ α) (compute : κ → Except ε α) (asked : List κ) : Prop where
  keys_eq : c.keys = (answered compute asked).take c.capacity
  sound : c.Sound compute
  count_eq : c.hits + c.misses = asked.length

variable {c : Cache κ α} {compute : κ → Except ε α} {k : κ} {a : α} {asked : List κ}

theorem recent_clear : c.clear.Recent compute [] :=
  ⟨List.take_nil.symm, .clear, rfl⟩

theorem keys_touch : (c.touch k a).keys = k :: c.keys.filter (· != k) := by
  simp [keys, touch, List.filter_map, Function.comp_def]

omit [BEq κ] in
theorem keys_store : (c.store k a).keys = (k :: c.keys).take c.capacity := by
  simp [keys, store, List.map_take]

@[simp] theorem request_capacity (compute : κ → Except ε α) (k : κ) :
    (c.request compute k).2.capacity = c.capacity := by
  unfold request
  cases c.find? k with
  | some a => rfl
  | none => cases compute k <;> rfl

theorem answered_of_error {error : ε} (h : compute k = .error error) :
    answered compute (k :: asked) = answered compute asked := by
  have hfail : (compute k).isOk = false := by rw [h]; rfl
  simp only [answered, List.filter_cons, hfail, Bool.false_eq_true, if_false]

variable [LawfulBEq κ]

theorem find?_eq_none_iff : c.find? k = none ↔ k ∉ c.keys := by
  rw [find?, List.lookup_eq_none_iff, keys, List.mem_map]
  constructor
  · rintro h ⟨entry, hentry, rfl⟩
    exact absurd (h entry hentry) (by simp)
  · intro h entry hentry
    simpa using fun heq : k = entry.1 => h ⟨entry, hentry, heq.symm⟩

theorem mem_keys_of_find? (h : c.find? k = some a) : k ∈ c.keys := by
  by_contra hnot
  rw [find?_eq_none_iff.mpr hnot] at h
  cases h

theorem answered_of_ok (h : compute k = .ok a) :
    answered compute (k :: asked) = k :: (answered compute asked).filter (· != k) := by
  have hok : (compute k).isOk = true := by rw [h]; rfl
  simp only [answered, List.filter_cons, hok, if_true, eraseDups_cons_filter]

/-! ### One request -/

/-- A request is a hit when its answer is stored, and else a miss. -/
theorem request_counts (compute : κ → Except ε α) (k : κ) :
    (k ∈ c.keys → (c.request compute k).2.hits = c.hits + 1 ∧
      (c.request compute k).2.misses = c.misses) ∧
    (k ∉ c.keys → (c.request compute k).2.hits = c.hits ∧
      (c.request compute k).2.misses = c.misses + 1) := by
  unfold request
  cases hfind : c.find? k with
  | some a => exact ⟨fun _ => ⟨rfl, rfl⟩, fun h => absurd (mem_keys_of_find? hfind) h⟩
  | none =>
      refine ⟨fun h => absurd h (find?_eq_none_iff.mp hfind), fun _ => ?_⟩
      cases compute k with
      | ok a => exact ⟨rfl, rfl⟩
      | error e => exact ⟨rfl, rfl⟩

namespace Recent

theorem nodup_keys (h : c.Recent compute asked) : c.keys.Nodup := by
  rw [h.keys_eq]
  exact (nodup_eraseDups _).sublist (List.take_sublist _ _)

theorem request_of_error (h : c.Recent compute asked) {error : ε}
    (hk : compute k = .error error) : (c.request compute k).2 = c.countMiss := by
  unfold Cache.request
  cases hfind : c.find? k with
  | some a =>
      rw [h.sound.of_find? hfind] at hk
      cases hk
  | none => simp only [hk]

theorem entries_request_of_ok (h : c.Recent compute asked) (hk : compute k = .ok a) :
    (c.request compute k).2.entries =
      ((k, a) :: c.entries.filter (·.1 != k)).take c.capacity := by
  have hfit : c.entries.length ≤ c.capacity := by
    have hlen := congrArg List.length h.keys_eq
    rw [keys, List.length_map, List.length_take] at hlen
    rw [hlen]
    exact Nat.min_le_left _ _
  unfold Cache.request
  cases hfind : c.find? k with
  | some b =>
      obtain rfl : b = a := Except.ok.inj ((h.sound.of_find? hfind).symm.trans hk)
      obtain ⟨newer, older, hentries, -⟩ := List.lookup_eq_some_iff.mp hfind
      have hshorter : (c.entries.filter (·.1 != k)).length < c.entries.length := by
        refine List.length_filter_lt_length_iff_exists.mpr ⟨(k, b), ?_, by simp⟩
        simp [hentries]
      symm
      refine List.take_of_length_le ?_
      rw [List.length_cons]
      exact Nat.le_trans hshorter hfit
  | none =>
      have hnone : ∀ entry ∈ c.entries, (entry.1 != k) = true := by
        intro entry hentry
        have hnot := find?_eq_none_iff.mp hfind
        simpa using fun heq : entry.1 = k => hnot (heq ▸ List.mem_map_of_mem hentry)
      simp only [hk, store, countMiss, List.filter_eq_self.mpr hnone]

/-- **A request keeps a cache up to date.** -/
theorem request (h : c.Recent compute asked) (k : κ) :
    (c.request compute k).2.Recent compute (k :: asked) := by
  refine ⟨?_, (h.sound.request k).2, ?_⟩
  · rw [request_capacity]
    cases hk : compute k with
    | ok a =>
        have hnodup : (answered compute asked).Nodup := nodup_eraseDups _
        have hcut := take_front hnodup k c.capacity
        rw [answered_of_ok hk]
        unfold Cache.request
        cases hfind : c.find? k with
        | some b =>
            have hmem := mem_keys_of_find? hfind
            rw [h.keys_eq] at hmem
            rw [hcut.1 hmem, keys_touch, h.keys_eq]
        | none =>
            have hnot := find?_eq_none_iff.mp hfind
            rw [h.keys_eq] at hnot
            simp only [hk, keys_store]
            rw [hcut.2 hnot]
            exact congrArg (fun ks => (k :: ks).take c.capacity) h.keys_eq
    | error error =>
        rw [answered_of_error hk, h.request_of_error hk]
        exact h.keys_eq
  · have hcount := h.count_eq
    obtain ⟨hhit, hmiss⟩ := c.request_counts compute k
    rw [List.length_cons]
    by_cases hk : k ∈ c.keys
    · obtain ⟨h₁, h₂⟩ := hhit hk
      omega
    · obtain ⟨h₁, h₂⟩ := hmiss hk
      omega

end Recent
end Cache

/-! ## Histories -/

/-- The source text that a step runs. -/
def Step.source? : Step → Option String
  | .run _ source => some source
  | .clear => none
  | .kernels => none

/-- The steps that forget all programs. -/
def Step.clears : Step → Bool
  | .clear => true
  | _ => false

/-- The source texts that were run since the last clearing, the latest first. -/
def requests (history : List Step) : List String :=
  (history.reverse.takeWhile (!·.clears)).filterMap Step.source?

theorem requests_append_run (history : List Step) (channel : Channel) (source : String) :
    requests (history ++ [.run channel source]) = source :: requests history := by
  simp [requests, Step.clears, Step.source?]

theorem requests_append_clear (history : List Step) : requests (history ++ [.clear]) = [] := by
  simp [requests, Step.clears]

theorem requests_append_kernels (history : List Step) :
    requests (history ++ [.kernels]) = requests history := by
  rw [requests, List.reverse_append]
  rfl

namespace Session

/-- The session that a row of steps leads to. -/
def after (s : Session) : List Step → Session
  | [] => s
  | step :: rest => (s.step step).2.after rest

theorem after_append (s : Session) (steps later : List Step) :
    s.after (steps ++ later) = (s.after steps).after later := by
  induction steps generalizing s with
  | nil => rfl
  | cons step steps ih => exact ih (s.step step).2

theorem steps_append (s : Session) (steps later : List Step) :
    s.steps (steps ++ later) = s.steps steps ++ (s.after steps).steps later := by
  induction steps generalizing s with
  | nil => rfl
  | cons step steps ih => exact congrArg (s.step step :: ·) (ih (s.step step).2)

theorem length_steps (s : Session) (steps : List Step) : (s.steps steps).length = steps.length := by
  induction steps generalizing s with
  | nil => rfl
  | cons step steps ih => exact congrArg (· + 1) (ih (s.step step).2)

theorem getElem?_steps (s : Session) (before : List Step) (step : Step) (later : List Step) :
    (s.steps (before ++ step :: later))[before.length]? = some ((s.after before).step step) := by
  rw [steps_append, List.getElem?_append_right (Nat.le_of_eq (length_steps s before)), length_steps,
    Nat.sub_self]
  rfl

/-! ## The programs of a session -/

theorem programs_run (s : Session) (channel : Channel) (source : String) :
    (s.run channel source).2.programs = (s.programs.request parseSource source).2 := by
  unfold Session.run
  exact foldl_note_programs _ _

@[simp] theorem capacity_step (s : Session) (step : Step) :
    (s.step step).2.programs.capacity = s.programs.capacity := by
  cases step with
  | run channel source =>
      show (s.run channel source).2.programs.capacity = _
      rw [programs_run, Cache.request_capacity]
  | clear => rfl
  | kernels => rfl

/-- The programs of a session are up to date with its history, if they were
before the last step. -/
theorem recent_step {s : Session} {history : List Step}
    (h : s.programs.Recent parseSource (requests history)) (step : Step) :
    (s.step step).2.programs.Recent parseSource (requests (history ++ [step])) := by
  cases step with
  | run channel source =>
      show (s.run channel source).2.programs.Recent parseSource _
      rw [programs_run, requests_append_run]
      exact h.request source
  | clear =>
      rw [requests_append_clear]
      exact Cache.recent_clear
  | kernels =>
      rw [requests_append_kernels]
      exact h

theorem recent_after (settings : Settings) (history : List Step) :
    ((start settings).after history).programs.Recent parseSource (requests history) ∧
      ((start settings).after history).programs.capacity = settings.cacheMax := by
  induction history using List.reverseRecOn with
  | nil => exact ⟨Cache.recent_clear (c := { capacity := settings.cacheMax }), rfl⟩
  | append_singleton history step ih =>
      rw [after_append]
      exact ⟨recent_step ih.1 step, (capacity_step _ step).trans ih.2⟩

end Session

/-- **A session holds the programs that were run last.**  Let `s` be the session
behind some steps, and `s'` the one behind one step more.  The programs of `s'`
are the latest distinct ones run since the last clearing, as many as there is
room for, each once and with the expression that it parses to; and the hits and
misses together are the runs since then.  If the step is a run, it is a hit
exactly when `s` holds its text.  A text that is no program adds a miss and
leaves all programs where they were; a program comes to the front, whatever its
evaluation ends in. -/
theorem session_programs (settings : Settings) (before : List Step) (step : Step) :
    let s := (Session.start settings).after before
    let s' := (s.step step).2
    (∀ later, ((Session.start settings).steps (before ++ step :: later))[before.length]? =
      some (s.step step)) ∧
    s'.programs.keys =
      (((requests (before ++ [step])).filter fun source =>
        (parseSource source).isOk).eraseDups).take settings.cacheMax ∧
    s'.programs.keys.Nodup ∧
    (∀ entry ∈ s'.programs.entries, parseSource entry.1 = .ok entry.2) ∧
    s'.programs.hits + s'.programs.misses = (requests (before ++ [step])).length ∧
    (∀ channel source, step = .run channel source →
      (source ∈ s.programs.keys →
        s'.programs.hits = s.programs.hits + 1 ∧ s'.programs.misses = s.programs.misses) ∧
      (source ∉ s.programs.keys →
        s'.programs.hits = s.programs.hits ∧ s'.programs.misses = s.programs.misses + 1) ∧
      (∀ error, parseSource source = .error error →
        s'.programs.misses = s.programs.misses + 1 ∧ s'.programs.entries = s.programs.entries) ∧
      (∀ e, parseSource source = .ok e → s'.programs.entries =
        ((source, e) :: s.programs.entries.filter (·.1 != source)).take settings.cacheMax)) := by
  intro s s'
  obtain ⟨hrecent, hroom⟩ := Session.recent_after settings before
  have hrecent' : s'.programs.Recent parseSource (requests (before ++ [step])) :=
    Session.recent_step hrecent step
  have hroom' : s'.programs.capacity = settings.cacheMax :=
    (Session.capacity_step s step).trans hroom
  refine ⟨Session.getElem?_steps _ before step, ?_, hrecent'.nodup_keys, hrecent'.sound,
    hrecent'.count_eq, ?_⟩
  · rw [hrecent'.keys_eq, hroom']
    rfl
  · rintro channel source rfl
    have hrun : s'.programs = (s.programs.request parseSource source).2 :=
      Session.programs_run s channel source
    obtain ⟨hhit, hmiss⟩ := s.programs.request_counts parseSource source
    rw [hrun]
    refine ⟨hhit, hmiss, ?_, ?_⟩
    · intro error herror
      rw [hrecent.request_of_error herror]
      exact ⟨rfl, rfl⟩
    · intro e hparse
      rw [hrecent.entries_request_of_ok hparse, hroom]

/-- With room for one program, running another in between costs the first its
place. -/
theorem session_programs_displaced :
    let s := (Session.start ⟨1, true⟩).after [.run .collect "(+ 1)", .run .collect "(+ 2)"]
    "(+ 1)" ∉ s.programs.keys ∧
      (s.step (.run .collect "(+ 1)")).2.programs.misses = s.programs.misses + 1 := by
  intro s
  have hkeys : s.programs.keys = ["(+ 2)"] := rfl
  have hnot : "(+ 1)" ∉ s.programs.keys := by
    rw [hkeys]
    decide
  obtain ⟨-, -, -, -, -, hrun⟩ := session_programs ⟨1, true⟩
    [.run .collect "(+ 1)", .run .collect "(+ 2)"] (.run .collect "(+ 1)")
  exact ⟨hnot, ((hrun .collect "(+ 1)" rfl).2.1 hnot).2⟩

end CallLang
