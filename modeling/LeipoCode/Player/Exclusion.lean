import LeipoCode.Player.App

/-!
# The pipeline operations exclude each other

`create_pipeline` initialises the mutex it then locks and `destroy_pipeline` frees
it, so the mutex cannot be what keeps the threads apart.  The main loop's running flag
is: a thread works on the pipeline only while it *may*, the main thread may as long as
it is not in `g_main_loop_run`, and the keyboard task may from the moment it has seen
the loop running until it quits the loop itself.

* `pipelineRules` — this rule as a `Discipline` on the calls of a thread;
* `wp_main`, `wp_process` — the two programs obey it, whatever their calls return;
* `Shared.Apart` — what ties the two rights to the flag and to the place of the main
  thread, kept by every call that obeys the rule (`Shared.Apart.perform`).

### How it goes

The two halves of the argument do not look at each other.  One is about the program texts: whatever
the calls return, a thread enters an operation and touches the pipeline only while its own
`Standing` says that it may.  The other is about the shared state, and does not know the programs:
as long as the calls obey the rule, at most one of the two threads may.  `Orderly` puts them
together, and is an invariant of the application because each call that is made is one the rule
allows.

That `main` may work on the pipeline before and after the main loop and the keyboard task only
during it depends on the place where `main` creates the task, on `g_main_loop_run` not returning
before somebody has quit the loop, and on the keyboard task having no operation in hand when it
quits it.
-/

namespace LeipoCode.Player

open Discipline

/-! ### The rule -/

/-- The calls that change a pointer field of the player or its mutex, which is what the operations
have to themselves. -/
def PlayerCall.touches : PlayerCall → Bool
  | .store _ _ | .memsetMutex | .recMutex _ .mMutex => true
  | _ => false

/-- Where a thread stands: the operation it is inside of, and whether it may work on the pipeline.
This is what a thread knows of itself, and the state of its discipline. -/
structure Standing where
  inside : Option Op
  may : Bool
deriving DecidableEq

/-- The rule thread `t` keeps: it works on the pipeline only while it may, enters an operation
outside of any, and leaves the one that it is inside of. -/
def pipelineRules (t : Thread) : Discipline Call Call.Resp Standing where
  allowed q
    | .player c => c.touches = true → q.may = true
    | .control (.enter _) => q.inside = none ∧ q.may = true
    | .control (.leave op _) => q.inside = some op
    | .control .mainLoopNew => t = .main ∧ q.may = true
    | .control (.mainLoopRun _) => t = .main ∧ q.inside = none
    | .control .mainLoopRunReturns => t = .main ∧ q.inside = none
    | .control (.mainLoopQuit _) => t = .keyboard ∧ q.inside = none
    | .control (.mainLoopIsRunning _) => t = .keyboard ∧ q.inside = none
  granted _ _ _ := True
  next q
    | .player _, _ => q
    | .control (.enter op), _ => { q with inside := some op }
    | .control (.leave _ _), _ => { q with inside := none }
    | .control .mainLoopNew, _ => q
    | .control (.mainLoopRun _), _ => { q with may := false }
    | .control .mainLoopRunReturns, _ => { q with may := true }
    | .control (.mainLoopQuit _), _ => { q with may := false }
    | .control (.mainLoopIsRunning _), isRunning => { q with may := isRunning }

/-! ### The programs keep the rule -/

section Programs

variable {t : Thread} {α : Type} {q : Standing} {op : Op} {b : Build}

/-- A thread that may work on the pipeline may do anything between control calls. -/
theorem returns_action (hmay : q.may = true) (p : Action α) :
    (pipelineRules t).Returns q (liftM p : Routine α) :=
  wp_mapCall.mpr (returns_of_neutral (fun _ _ => hmay) (fun _ _ => rfl) p)

/-- An operation may be entered by a thread that is in none, and is left again. -/
theorem returns_operation (hinside : q.inside = none) (hmay : q.may = true)
    (body : Action Bool) : (pipelineRules t).Returns q (operation op body) := by
  have hback : ({ q with inside := none } : Standing) = q := by rw [← hinside]
  refine wp_bind.mpr ⟨⟨hinside, hmay⟩, fun _ _ => ?_⟩
  refine (returns_action (q := { q with inside := some op }) hmay body).seq fun result _ => ?_
  exact wp_bind.mpr ⟨rfl, fun _ _ => ⟨trivial, hback⟩⟩

theorem serves_pipelineRules (hinside : q.inside = none) (hmay : q.may = true) :
    Serves (pipelineRules t) b q where
  createPipeline := returns_operation hinside hmay _
  destroyPipeline := returns_operation hinside hmay _
  setPipelineState _ := returns_operation hinside hmay _
  memcpyUri _ := returns_action hmay _
  sleep _ := returns_action hmay _

/-- **The keyboard task keeps the rule**: it enters an operation only if it has seen
the loop running and not quit it. -/
theorem wp_process (hinside : q.inside = none) :
    (pipelineRules .keyboard).wp (fun _ q' => q'.inside = none)
      (processInputKeyFromKeyboard b) q := by
  unfold processInputKeyFromKeyboard
  -- a read of `main_loop` needs no right
  refine wp_bind.mpr ⟨fun h => by simp [PlayerCall.touches] at h, fun mainLoop _ => ?_⟩
  refine wp_bind.mpr ⟨⟨rfl, hinside⟩, fun isRunning _ => ?_⟩
  refine wp_ite (fun hrunning => ?_) fun _ => hinside
  refine (returns_action hrunning _).seq fun c _ => ?_
  have hserves : Serves (pipelineRules .keyboard) b { q with may := isRunning } :=
    serves_pipelineRules hinside hrunning
  refine hserves.handleKey ?_ hinside c
  exact ⟨⟨rfl, hinside⟩, fun _ _ => hinside⟩

/-- **The main thread keeps the rule**: it gives its right away with the call of
`g_main_loop_run` and has it back when that returns. -/
theorem wp_main :
    (pipelineRules .main).wp (fun _ q' => q'.inside = none) (main b) ⟨none, true⟩ := by
  unfold main
  have hserves : Serves (pipelineRules .main) b ⟨none, true⟩ := serves_pipelineRules rfl rfl
  -- up to `g_main_loop_run` nobody else has the right, though the task is started here
  refine (returns_action rfl _).seq fun _ _ => ?_
  refine (returns_action rfl _).seq fun _ _ => ?_
  refine (returns_action rfl _).seq fun _ _ => ?_
  refine wp_bind.mpr ⟨⟨rfl, rfl⟩, fun loop _ => ?_⟩
  refine (returns_action rfl _).seq fun _ _ => ?_
  refine (returns_action rfl _).seq fun _ _ => ?_
  refine hserves.createPipeline.seq fun created _ => ?_
  refine wp_ite (fun _ => rfl) fun _ => ?_
  refine (hserves.setPipelineState .playing).seq fun playing _ => ?_
  refine wp_ite (fun _ => rfl) fun _ => ?_
  refine (returns_action rfl _).seq fun mainLoop _ => ?_
  -- between these two calls the right is the keyboard task's
  refine wp_bind.mpr ⟨⟨rfl, rfl⟩, fun _ _ => ?_⟩
  refine wp_bind.mpr ⟨⟨rfl, rfl⟩, fun _ _ => ?_⟩
  refine (hserves.setPipelineState .null).seq fun stopped _ => ?_
  refine wp_ite (fun _ => rfl) fun _ => ?_
  refine (returns_action rfl _).seq fun _ _ => ?_
  refine hserves.destroyPipeline.seq fun destroyed _ => ?_
  exact wp_ite (fun _ => rfl) fun _ => rfl

end Programs

/-! ### What calls leave alone -/

namespace Shared

variable {s s' : Shared} {t : Thread}

/-- No call between control calls moves a thread or the main loop: where the threads stand is
changed by control calls only. -/
theorem performPlayer_frame {c : PlayerCall} {r : c.Resp}
    (hs : s.performPlayer t c r = some s') :
    s'.mainLoop = s.mainLoop ∧ s'.phase = s.phase ∧ s'.inside = s.inside ∧
      s'.entryHold = s.entryHold := by
  cases c with
  | recMutex o m =>
      obtain ⟨m', -, rfl⟩ := Option.map_eq_some_iff.mp hs
      simp
  | memsetMutex => cases hs; simp
  | _ => grind [performPlayer, setPtr, setUri]

/-- A call that does not touch the pipeline leaves the pointers and the mutex alone. -/
theorem performPlayer_untouched {c : PlayerCall} {r : c.Resp} (hc : c.touches = false)
    (hs : s.performPlayer t c r = some s') :
    s'.player.ptr = s.player.ptr ∧ s'.player.mMutex = s.player.mMutex := by
  cases c with
  | recMutex o m =>
      obtain ⟨m', -, rfl⟩ := Option.map_eq_some_iff.mp hs
      cases m with
      | mMutex => cases hc
      | inputTaskMutex => exact ⟨rfl, rfl⟩
  | _ => grind [performPlayer, PlayerCall.touches, setUri]

/-- Control calls leave the player alone, its pointers and its mutex included. -/
theorem performControl_player {c : ControlCall} {r : c.Resp}
    (hs : s.performControl t c r = some s') : s'.player = s.player := by
  cases c <;> grind [performControl]

end Shared

/-! ### What the rule is about -/

/-- What ties the rights of the threads to the state they share; `k` is the right of the keyboard
task.  The task has seen the loop running and not quit it, and the loop runs only while the main
thread is in `g_main_loop_run`. -/
structure Shared.Apart (s : Shared) (k : Bool) : Prop where
  during_of_running : s.mainLoop.isRunning = true → s.phase = .during
  running_of_may : k = true → s.mainLoop.isRunning = true
  phase_of_main : s.inside .main ≠ none → s.phase ≠ .during
  may_of_keyboard : s.inside .keyboard ≠ none → k = true

/-- Where the threads stand: the main thread may work on the pipeline except during
`g_main_loop_run`, the task if `k` says so. -/
def Shared.standing (s : Shared) (k : Bool) : Thread → Standing
  | .main => ⟨s.inside .main, decide (s.phase ≠ .during)⟩
  | .keyboard => ⟨s.inside .keyboard, k⟩

namespace Shared.Apart

variable {s s' : Shared} {k : Bool} {t : Thread}

/-- A thread inside an operation may work on the pipeline, so the other one is in none. -/
theorem may_of_inside (h : s.Apart k) (hin : s.inside t ≠ none) :
    (s.standing k t).may = true := by
  cases t with
  | main => exact decide_eq_true (h.phase_of_main hin)
  | keyboard => exact h.may_of_keyboard hin

/-- **At most one thread may work on the pipeline**: as long as a thread may, the other one is
inside no operation.  The main thread may outside `g_main_loop_run` only, and the keyboard task only
while the loop runs. -/
theorem other_outside (h : s.Apart k) (hmay : (s.standing k t).may = true) :
    s.inside t.other = none := by
  -- both would have the right: the flag puts the main thread where it has none
  by_contra hin
  have hother := h.may_of_inside hin
  have hk : k = true ∧ s.phase ≠ .during := by
    cases t with
    | main => exact ⟨hother, of_decide_eq_true hmay⟩
    | keyboard => exact ⟨hmay, of_decide_eq_true hother⟩
  exact hk.2 (h.during_of_running (h.running_of_may hk.1))

/-- A step that moves neither thread nor the loop keeps the threads apart, and leaves both where
they stand. -/
theorem of_frame (h : s.Apart k) (hloop : s'.mainLoop = s.mainLoop)
    (hphase : s'.phase = s.phase) (hinside : s'.inside = s.inside) :
    s'.Apart k ∧ s'.standing k = s.standing k := by
  refine ⟨⟨?_, ?_, ?_, ?_⟩, ?_⟩
  · rw [hloop, hphase]
    exact h.during_of_running
  · rw [hloop]
    exact h.running_of_may
  · rw [hinside, hphase]
    exact h.phase_of_main
  · rw [hinside]
    exact h.may_of_keyboard
  · funext t
    cases t with
    | main => simp only [standing, hinside, hphase]
    | keyboard => simp only [standing, hinside]

/-- A thread that may work on the pipeline enters an operation, or any thread leaves
one. -/
theorem move (h : s.Apart k) (o : Option Op) (e : Thread → ℕ)
    (ho : o ≠ none → (s.standing k t).may = true)
    (hs' : s' = { s with inside := Function.update s.inside t o, entryHold := e }) :
    s'.Apart k ∧ s'.standing k t = { s.standing k t with inside := o } ∧
      s'.standing k t.other = s.standing k t.other := by
  subst hs'
  refine ⟨⟨h.during_of_running, h.running_of_may, fun hin => ?_, fun hin => ?_⟩, ?_, ?_⟩
  · cases t with
    | main => exact of_decide_eq_true (ho (by simpa using hin))
    | keyboard => exact h.phase_of_main (by simpa using hin)
  · cases t with
    | main => exact h.may_of_keyboard (by simpa using hin)
    | keyboard => exact ho (by simpa using hin)
  · cases t <;> simp [standing]
  · cases t <;> simp [standing, Thread.other]

/-- **Control calls that obey the rule keep the threads apart**, move the caller as the rule says,
and leave the other thread where it stands.  One case for each control call. -/
theorem performControl (h : s.Apart k) {c : ControlCall} {r : c.Resp}
    (ha : (pipelineRules t).allowed (s.standing k t) (.control c))
    (hs : s.performControl t c r = some s') :
    ∃ k', s'.Apart k' ∧
      s'.standing k' t = (pipelineRules t).next (s.standing k t) (.control c) r ∧
      s'.standing k' t.other = s.standing k t.other := by
  cases c with
  | enter op => exact ⟨k, h.move (some op) _ (fun _ => ha.2) (Option.some.inj hs).symm⟩
  | leave op result =>
      exact ⟨k, h.move none s.entryHold (fun hne => absurd rfl hne) (Option.some.inj hs).symm⟩
  | mainLoopNew =>
      obtain ⟨rfl, hmay⟩ := ha
      -- a new loop does not run, but neither did the old one
      have hphase : s.phase ≠ .during := of_decide_eq_true hmay
      have hk : k ≠ true := fun hk => hphase (h.during_of_running (h.running_of_may hk))
      simp only [Shared.performControl, Option.ite_none_left_eq_some] at hs
      cases hs.2
      exact ⟨k, ⟨fun hrun => (nomatch hrun), fun hk' => absurd hk' hk, h.phase_of_main,
        h.may_of_keyboard⟩, rfl, rfl⟩
  | mainLoopRun loop =>
      obtain ⟨rfl, hinside⟩ := ha
      cases hs
      refine ⟨k, ⟨fun _ => rfl, fun hk => ?_, fun hin => absurd hinside hin,
        h.may_of_keyboard⟩, rfl, rfl⟩
      simp [h.running_of_may hk]
  | mainLoopRunReturns =>
      obtain ⟨rfl, hinside⟩ := ha
      simp only [Shared.performControl, Option.ite_none_left_eq_some] at hs
      cases hs.2
      exact ⟨k, ⟨fun hrun => absurd hrun hs.1, h.running_of_may,
        fun hin => absurd hinside hin, h.may_of_keyboard⟩, rfl, rfl⟩
  | mainLoopQuit loop =>
      -- the keyboard task gives up its right with the flag
      obtain ⟨rfl, hinside⟩ := ha
      cases hs
      refine ⟨false, ⟨fun hrun => ?_, fun hk => (nomatch hk), h.phase_of_main,
        fun hin => absurd hinside hin⟩, rfl, rfl⟩
      exact h.during_of_running (((Bool.and_eq_true _ _).mp hrun).1)
  | mainLoopIsRunning loop =>
      obtain ⟨rfl, hinside⟩ := ha
      simp only [Shared.performControl, Option.ite_none_right_eq_some] at hs
      obtain ⟨hr, hs⟩ := hs
      cases hs
      -- the answer is the right from now on
      refine ⟨r, ⟨h.during_of_running, fun hk => ?_, h.phase_of_main,
        fun hin => absurd hinside hin⟩, rfl, rfl⟩
      exact ((Bool.and_eq_true _ _).mp (hr.symm.trans hk)).1

/-- **Calls that obey the rule keep the threads apart**, move the caller as the rule
says, and leave the other thread where it stands. -/
theorem perform (h : s.Apart k) {c : Call} {r : c.Resp}
    (ha : (pipelineRules t).allowed (s.standing k t) c) (hs : s.perform t c r = some s') :
    ∃ k', s'.Apart k' ∧ s'.standing k' t = (pipelineRules t).next (s.standing k t) c r ∧
      s'.standing k' t.other = s.standing k t.other := by
  cases c with
  | player c =>
      obtain ⟨hloop, hphase, hinside, -⟩ := performPlayer_frame hs
      obtain ⟨hapart, hstanding⟩ := h.of_frame hloop hphase hinside
      exact ⟨k, hapart, congrFun hstanding _, congrFun hstanding _⟩
  | control c => exact h.performControl ha hs

end Shared.Apart

/-! ### Runs -/

/-- The threads are apart, and what each still has to do keeps the rule: the invariant of the runs.
-/
structure Orderly (s : State) (k : Bool) : Prop where
  apart : s.shared.Apart k
  keeps : ∀ t, s.Keeps (pipelineRules t) (fun q => q.inside = none) t (s.shared.standing k t)

theorem start_orderly (b : Build) : Orderly (start b) false where
  apart :=
    ⟨fun h => (nomatch h), fun h => (nomatch h), fun h => absurd rfl h, fun h => absurd rfl h⟩
  keeps t := by
    cases t with
    | main => exact wp_main
    | keyboard => rfl

/-- **A call** keeps the order: it is one the rule allows, since the caller still has to do what
obeys the rule, and so the threads are apart after it. -/
theorem Orderly.act {b : Build} {s s' : State} {t : Thread} {c : Call} {r : c.Resp} {k : Bool}
    (h : Orderly s k) (hs : Step b s (.act t c r) s') : ∃ k', Orderly s' k' := by
  obtain ⟨hallowed, hnext⟩ := hs.keeps_self (h.keeps t)
  obtain ⟨k', hapart, hself, hother⟩ := h.apart.perform hallowed hs.perform
  refine ⟨k', hapart, ?_⟩
  intro t'
  obtain rfl | rfl := t.eq_or_eq_other t'
  · rw [hself]
    exact hnext trivial
  · rw [hother]
    exact hs.keeps_other (h.keeps t.other)

/-- What the task does around its function keeps the order: it moves no thread, and the function may
be run again from where it has ended. -/
theorem Orderly.task {b : Build} {s s' : State} {e : TaskEvent} {k : Bool}
    (h : Orderly s k) (hs : Step b s (.task e) s') : Orderly s' k := by
  obtain ⟨-, hloop, hphase, hinside, -⟩ := hs.task_frame
  obtain ⟨hapart, hstanding⟩ := h.apart.of_frame hloop hphase hinside
  refine ⟨hapart, fun t => hs.keeps_task (fun ht hidle => ?_) ?_⟩
  · subst ht
    exact wp_process hidle
  · rw [hstanding]
    exact h.keeps t

theorem orderly_of_reachable {b : Build} {s : State} (h : (player b).Reachable s) :
    ∃ k, Orderly s k := by
  refine h.invariant (I := fun s => ∃ k, Orderly s k) (fun s h0 => ⟨false, ?_⟩)
    fun s l s' ho hs => ?_
  · rw [h0]
    exact start_orderly b
  · obtain ⟨k, ho⟩ := ho
    cases l with
    | act t c r => exact ho.act hs
    | task e => exact ⟨k, ho.task hs⟩

/-- The calls that a thread makes only while it may work on the pipeline: those that touch it, and
the entries. -/
def Call.onPipeline : Call → Bool
  | .player c => c.touches
  | .control (.enter _) => true
  | .control _ => false

/-- A thread may work on the pipeline when it enters an operation, takes a step inside
one, or touches what the operations work on. -/
theorem may_of_step {b : Build} {s s' : State} {t : Thread} {c : Call} {r : c.Resp}
    (h : (player b).Reachable s) (hs : Step b s (.act t c r) s')
    (hc : s.shared.inside t ≠ none ∨ c.onPipeline = true) :
    ∃ k, s.shared.Apart k ∧ (s.shared.standing k t).may = true := by
  obtain ⟨k, ho⟩ := orderly_of_reachable h
  refine ⟨k, ho.apart, ?_⟩
  have hallowed := (hs.keeps_self (ho.keeps t)).1
  rcases hc with hin | hc
  · exact ho.apart.may_of_inside hin
  · cases c with
    | player c => exact hallowed hc
    | control c =>
        cases c with
        | enter op => exact hallowed.2
        | _ => cases hc

/-- While a thread takes such a step the other one is inside no operation. -/
theorem other_outside {b : Build} {s s' : State} {t : Thread} {c : Call} {r : c.Resp}
    (h : (player b).Reachable s) (hs : Step b s (.act t c r) s')
    (hc : s.shared.inside t ≠ none ∨ c.onPipeline = true) :
    s.shared.inside t.other = none := by
  obtain ⟨k, hapart, hmay⟩ := may_of_step h hs hc
  exact hapart.other_outside hmay

/-- **The pipeline operations never overlap.**  In every run, whatever the calls return
and whichever keys are pressed, a step of `create_pipeline`, `destroy_pipeline` or
`set_pipeline_state` by one thread, their entry included, is taken while the other is
inside none of them; the main thread takes such steps only before `g_main_loop_run` or
after it has returned, the keyboard task only in between. -/
theorem pipeline_operations_exclude (b : Build) {s s' : State} {t : Thread} {c : Call}
    {r : c.Resp} (h : (player b).Reachable s) (hs : Step b s (.act t c r) s')
    (hop : s.shared.inside t ≠ none ∨ ∃ op, c = .control (.enter op)) :
    s.shared.inside t.other = none ∧ (t = .main → s.shared.phase ≠ .during) ∧
      (t = .keyboard → s.shared.phase = .during) := by
  have hc : s.shared.inside t ≠ none ∨ c.onPipeline = true :=
    hop.imp_right fun ⟨op, hop⟩ => hop ▸ rfl
  obtain ⟨k, hapart, hmay⟩ := may_of_step h hs hc
  refine ⟨hapart.other_outside hmay, fun ht => ?_, fun ht => ?_⟩
  · subst ht
    exact of_decide_eq_true hmay
  · subst ht
    exact hapart.during_of_running (hapart.running_of_may hmay)

/-- The keyboard task takes the pads apart in `destroy_pipeline`: `k` has been pressed while the
main thread is in `g_main_loop_run`, 115 calls from the start, and GStreamer grants everything. -/
theorem pipeline_operations_exclude_run :
    ∃ s s' : State, ∃ c : Call, ∃ r : c.Resp,
      Step ⟨false, false, false, false⟩ s (.act .keyboard c r) s' ∧
      s.shared.inside .keyboard = some .destroyPipeline ∧
      s.shared.inside Thread.keyboard.other = none ∧
      (Thread.keyboard = .main → s.shared.phase ≠ .during) ∧
      (Thread.keyboard = .keyboard → s.shared.phase = .during) := by
  let b : Build := ⟨false, false, false, false⟩
  let w : World := ⟨fun _ => false, some 'k'⟩
  have hobserve : ((start b).follow b w (fun _ _ => true)
      (calls .main 115 ++ [.task .begins, .task .iterates] ++ calls .keyboard 19)).map
        (fun s => s.observe .keyboard) =
      some (some (.player (.gst (.padUnlink (.obj 3) (.obj 3)) true)),
        some .destroyPipeline, 1, 0) := by
    decide +kernel
  obtain ⟨s, hrun, hs⟩ := Option.map_eq_some_iff.mp hobserve
  simp only [State.observe, Prod.mk.injEq] at hs
  obtain ⟨hcall, hinside, -⟩ := hs
  have hreach := reachable_follow (P := fun _ _ => True) (fun _ _ _ _ => trivial)
    (fun _ _ => trivial) (.init rfl) hrun
  obtain ⟨s', hstep, -⟩ := State.step_of_call (b := b) (r := true) hcall rfl
  refine ⟨s, s', _, _, hstep, hinside, ?_⟩
  exact pipeline_operations_exclude b hreach.of_restrict hstep (.inl (by simp [hinside]))

end LeipoCode.Player
