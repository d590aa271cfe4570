import LeipoCode.RecordRead.Model

/-!
# The sections of `File_Access`

What a statement of either task does to the semaphore is one of three things, and
that is all this module needs to know about the tasks (`LockEffect`, `step_lock`).
Two facts follow for every run, whatever `write` returns:

* `access_invariant` — the value of the semaphore and the tasks inside a section
  add up to one, so the two tasks are never both inside;
* `sections_alternate` — each task waits and posts in strict alternation, so every
  iteration gives the semaphore back exactly once, on whichever path it leaves.

Neither needs anything of the file, the offsets or the counters, and so neither has a hypothesis:
this is about the control flow of the tasks, on all paths through an iteration, those taken after a
`write` or a `read` that failed included.
-/

namespace LeipoCode.RecordRead

/-- The effect of one statement on its task's hold of the semaphore (before and
after) and on the semaphore's value (before and after). -/
def LockEffect : Event → Bool → Bool → ℕ → ℕ → Prop
  | .wait, held, held', n, n' => held = false ∧ held' = true ∧ n = n' + 1
  | .post, held, held', n, n' => held = true ∧ held' = false ∧ n' = n + 1
  | _, held, held', n, n' => held' = held ∧ n' = n

section StepLock

variable {s s' : State} {e : Event} {l : Task × Event} {result : ℤ}

theorem semWait_eq_some {t : State} (h : semWait s = some t) :
    s.fileAccess = t.fileAccess + 1 ∧ t = { s with fileAccess := t.fileAccess } := by
  unfold semWait at h
  split_ifs at h with hpos
  obtain rfl := Option.some.inj h
  exact ⟨(Nat.sub_add_cancel hpos).symm, rfl⟩

/-- A statement of `Record_Task` leaves the other task alone, and all of them but
the wait are made inside the section. -/
theorem recordStep_lock (h : recordStep result s = some (e, s')) :
    LockEffect e (s.inSection .record) (s'.inSection .record) s.fileAccess s'.fileAccess ∧
      s'.reader = s.reader ∧ (e = .wait ∨ s.inSection .record = true) := by
  unfold recordStep at h
  cases hpc : s.recorder.pc with
  | lock =>
      simp only [hpc] at h
      obtain ⟨t, hwait, heq⟩ := Option.map_eq_some_iff.mp h
      obtain ⟨rfl, rfl⟩ := Prod.mk.inj heq
      obtain ⟨hsem, ht⟩ := semWait_eq_some hwait
      refine ⟨⟨?_, rfl, hsem⟩, by rw [ht]; rfl, Or.inl rfl⟩
      simp [State.inSection, hpc, RecordPc.inSection]
  | returned =>
      simp [hpc] at h
  | test =>
      simp only [hpc] at h
      obtain ⟨rfl, rfl⟩ := Prod.mk.inj (Option.some.inj h)
      refine ⟨⟨?_, rfl⟩, rfl, Or.inr (by simp [State.inSection, hpc, RecordPc.inSection])⟩
      simp only [State.inSection, State.setRecordPc, hpc]
      split_ifs <;> rfl
  | _ =>
      simp only [hpc] at h
      obtain ⟨rfl, rfl⟩ := Prod.mk.inj (Option.some.inj h)
      simp [LockEffect, State.inSection, hpc, RecordPc.inSection, State.setRecordPc, semPost]

/-- A statement of `Read_Task` leaves the other task alone. -/
theorem readStep_lock (h : readStep s = some (e, s')) :
    LockEffect e (s.inSection .read) (s'.inSection .read) s.fileAccess s'.fileAccess ∧
      s'.recorder = s.recorder := by
  unfold readStep at h
  cases hpc : s.reader.pc with
  | lock =>
      simp only [hpc] at h
      obtain ⟨t, hwait, heq⟩ := Option.map_eq_some_iff.mp h
      obtain ⟨rfl, rfl⟩ := Prod.mk.inj heq
      obtain ⟨hsem, ht⟩ := semWait_eq_some hwait
      refine ⟨⟨?_, rfl, hsem⟩, by rw [ht]; rfl⟩
      simp [State.inSection, hpc, ReadPc.inSection]
  | returned exit =>
      simp [hpc] at h
  | leave exit =>
      simp only [hpc] at h
      obtain ⟨rfl, rfl⟩ := Prod.mk.inj (Option.some.inj h)
      refine ⟨⟨by simp [State.inSection, hpc, ReadPc.inSection], ?_, rfl⟩, rfl⟩
      cases exit <;> rfl
  | testRead _ | check _ | test =>
      simp only [hpc] at h
      obtain ⟨rfl, rfl⟩ := Prod.mk.inj (Option.some.inj h)
      refine ⟨⟨?_, rfl⟩, rfl⟩
      simp only [State.inSection, State.setReadPc, hpc]
      split_ifs <;> rfl
  | _ =>
      simp only [hpc] at h
      obtain ⟨rfl, rfl⟩ := Prod.mk.inj (Option.some.inj h)
      simp [LockEffect, State.inSection, hpc, ReadPc.inSection, State.setReadPc, semPost]

/-- **The step lemma for the semaphore.** -/
theorem step_lock (h : taskSys.step s l s') :
    LockEffect l.2 (s.inSection l.1) (s'.inSection l.1) s.fileAccess s'.fileAccess ∧
      ∀ t, t ≠ l.1 → s'.inSection t = s.inSection t := by
  obtain ⟨t, e⟩ := l
  cases t with
  | record =>
      obtain ⟨result, -, hstep⟩ := h
      obtain ⟨heffect, hreader, -⟩ := recordStep_lock hstep
      refine ⟨heffect, ?_⟩
      intro t ht
      cases t with
      | record => exact absurd rfl ht
      | read => simp [State.inSection, hreader]
  | read =>
      obtain ⟨heffect, hrecorder⟩ := readStep_lock h
      refine ⟨heffect, ?_⟩
      intro t ht
      cases t with
      | record => simp [State.inSection, hrecorder]
      | read => exact absurd rfl ht

end StepLock

/-! ### Mutual exclusion -/

/-- The value of the semaphore and the tasks inside add up to one, so that it is a lock. -/
def Access (s : State) : Prop :=
  s.fileAccess + (s.inSection .record).toNat + (s.inSection .read).toNat = 1

theorem access_step {s s' : State} {l : Task × Event} (hacc : Access s)
    (h : taskSys.step s l s') : Access s' := by
  obtain ⟨heffect, hother⟩ := step_lock h
  have hsum :
      s'.fileAccess + (s'.inSection l.1).toNat = s.fileAccess + (s.inSection l.1).toNat := by
    cases he : l.2 <;> rw [he] at heffect <;> simp only [LockEffect] at heffect
    all_goals simp [heffect]
  obtain ⟨t, e⟩ := l
  dsimp only at hsum
  unfold Access at *
  cases t with
  | record =>
      have hread := hother .read (by simp)
      rw [hread]
      omega
  | read =>
      have hrecord := hother .record (by simp)
      rw [hrecord]
      omega

theorem access_invariant {s : State} (h : taskSys.Reachable s) : Access s := by
  refine h.invariant ?_ fun s l s' hacc hstep => access_step hacc hstep
  rintro s rfl
  rfl

/-! ### Every iteration releases once -/

/-- The waits and posts of one task, in order: what is left of a run of both when everything else is
taken out. -/
def sections (t : Task) (ls : List (Task × Event)) : List Event :=
  (ls.filter fun l => decide (l.1 = t ∧ (l.2 = .wait ∨ l.2 = .post))).map Prod.snd

/-- `n` finished sections, and one more that is open if `held`: a wait and a post in turn. -/
def alternating (n : ℕ) (held : Bool) : List Event :=
  (List.replicate n [Event.wait, .post]).flatten ++ if held then [.wait] else []

theorem sections_snoc (t : Task) (ls : List (Task × Event)) (l : Task × Event) :
    sections t (ls ++ [l]) = sections t ls ++
      if l.1 = t ∧ (l.2 = .wait ∨ l.2 = .post) then [l.2] else [] := by
  unfold sections
  rw [List.filter_append, List.map_append]
  split_ifs with hl <;> simp [hl]

theorem alternating_wait (n : ℕ) : alternating n false ++ [.wait] = alternating n true := by
  simp [alternating]

theorem alternating_post (n : ℕ) :
    alternating n true ++ [.post] = alternating (n + 1) false := by
  simp [alternating, List.replicate_succ', List.flatten_append]

/-- **Waits and posts alternate**: a task has finished some number of sections, each
with one wait and one post, and is inside one more exactly if it holds the
semaphore. -/
theorem sections_alternate {s : State} {ls : List (Task × Event)}
    (h : taskSys.Run initial ls s) (t : Task) :
    ∃ n, sections t ls = alternating n (s.inSection t) := by
  refine h.invariant_trace (I := fun ls s => ∃ n, sections t ls = alternating n (s.inSection t))
    ⟨0, by cases t <;> rfl⟩ ?_
  rintro ls l s s' ⟨n, hn⟩ hstep
  obtain ⟨heffect, hother⟩ := step_lock hstep
  rw [sections_snoc, hn]
  by_cases hl : l.1 = t
  · subst hl
    cases he : l.2 with
    | wait =>
        obtain ⟨hbefore, hafter, -⟩ := he ▸ heffect
        exact ⟨n, by simp [hbefore, hafter, alternating_wait]⟩
    | post =>
        obtain ⟨hbefore, hafter, -⟩ := he ▸ heffect
        exact ⟨n + 1, by simp [hbefore, hafter, alternating_post]⟩
    | _ =>
        rw [he] at heffect
        exact ⟨n, by simp [heffect.1]⟩
  · rw [hother t (Ne.symm hl)]
    exact ⟨n, by simp [hl]⟩

end LeipoCode.RecordRead
